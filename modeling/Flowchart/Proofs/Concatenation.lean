import Flowchart.Proofs.WellFormed

/-! One program behind another. Where the first does not return, its tokens followed by those of the
second are the program that does both, and the second has its numbers behind those of the first.
Nothing that the reader looks ahead to at the seam can begin a program. -/
namespace Flowchart
open Grammar

namespace Node

mutual
/-- Adds the amount to every number, those of the branches included. -/
def shift (amount : Nat) : Node → Node
  | expression id text shape => .expression (id + .ofNat amount) text shape
  | condition id text thenId thenNodes elseId elseNodes =>
    .condition (id + .ofNat amount) text (thenId + .ofNat amount) (shiftAll amount thenNodes)
      (elseId + .ofNat amount) (shiftAll amount elseNodes)
  | leave id => .leave (id + .ofNat amount)

def shiftAll (amount : Nat) : List Node → List Node
  | [] => []
  | node :: nodes => node.shift amount :: shiftAll amount nodes
end

theorem shiftAll_numberAll (amount : Nat) (next : NodeId) (outlines : List Outline) :
    shiftAll amount (Outline.numberAll next outlines) =
      Outline.numberAll (next + .ofNat amount) outlines := by
  have swap : ∀ id id' : NodeId, id + id' + .ofNat amount = id + .ofNat amount + id' := by
    intro id id'
    ac_rfl
  induction outlines using Outline.partInduction generalizing next with
  | nil => rfl
  | box text shape outlines ih =>
    simp only [Outline.numberAll_cons, Outline.number, shiftAll, shift, ih, swap]
  | branch text thenPart elsePart outlines ihThen ihElse ih =>
    simp only [Outline.numberAll_cons, Outline.number, shiftAll, shift, ihThen, ihElse, ih, swap]
  | leave outlines ih =>
    simp only [Outline.numberAll_cons, Outline.number, shiftAll, shift, ih, swap]

theorem idsAll_shiftAll (amount : Nat) (nodes : List Node) :
    idsAll (shiftAll amount nodes) = (idsAll nodes).map (· + .ofNat amount) := by
  induction nodes using blockInduction with
  | nil => rfl
  | expression id text shape nodes ih => simp [shiftAll, shift, idsAll, ids, ih]
  | condition id text thenId thenNodes elseId elseNodes nodes ihThen ihElse ih =>
    simp [shiftAll, shift, idsAll, ids, ihThen, ihElse, ih]
  | leave id nodes ih => simp [shiftAll, shift, idsAll, ids, ih]

end Node

theorem Outline.numberAll_append (next : NodeId) (outlines outlines' : List Outline) :
    numberAll next (outlines ++ outlines') =
      numberAll next outlines ++ numberAll (next + .ofNat (sizeAll outlines)) outlines' := by
  induction outlines generalizing next with
  | nil => simp
  | cons outline outlines ih => simp [ih, UInt32.ofNat_add, UInt32.add_assoc]

theorem Outline.sizeAll_append (outlines outlines' : List Outline) :
    sizeAll (outlines ++ outlines') = sizeAll outlines + sizeAll outlines' := by
  induction outlines with
  | nil => simp
  | cons outline outlines ih => simp [ih, Nat.add_assoc]

namespace Grammar

variable {place : Place} {tokens tokens' : List Token} {outlines outlines' : List Outline}
  {behind behind' : Option Kind} {text : String} {shape : Shape}

theorem Draws.of_ne_semi (h : Draws behind tokens text shape) (ne : behind' ≠ some .semi) :
    Draws behind' tokens text shape := by
  cases h with
  | bare spelled => exact .bare spelled ne
  | square spelled => exact .square spelled
  | rounded spelled => exact .rounded spelled
  | circular spelled => exact .circular spelled
  | parallelogram spelled => exact .parallelogram spelled
  | reverseParallelogram spelled => exact .reverseParallelogram spelled

def beginnings : List (Option Kind) :=
  [none, some .string, some .lParen, some .forwardSlash, some .backwardSlash, some .ifWord,
   some .returnWord, some .rBrace]

theorem Statements.first (h : Statements place tokens outlines) :
    ahead tokens ∈ beginnings ∨
      ∃ remark rest, tokens = remark :: rest ∧ remark.kind = .comment ∧
        Statements place rest outlines := by
  cases h with
  | comment spelled after => exact .inr ⟨_, _, rfl, by simpa [Spells] using spelled, after⟩
  | nil => exact .inl (by decide)
  | close spelled | stray spelled | leaveBlock spelled | leave spelled | leaveLast spelled =>
    exact .inl (by simp_all [Spells, ahead, beginnings])
  | box drawn =>
    refine .inl ?_
    cases drawn <;> simp_all [Spells, ahead, beginnings]
  | condition headed | conditionElse headed =>
    refine .inl ?_
    cases headed
    simp_all [Spells, ahead, beginnings]

theorem Statements.exists_remarks (h : Statements place tokens outlines) :
    ∃ remarks rest, tokens = remarks ++ rest ∧ (∀ remark ∈ remarks, remark.kind = .comment) ∧
      ahead rest ∈ beginnings ∧ Statements place rest outlines := by
  induction tokens with
  | nil => exact ⟨[], [], rfl, by simp, by decide, h⟩
  | cons token tokens ih =>
    rcases h.first with begins | ⟨remark, rest, split, comment, after⟩
    · exact ⟨[], token :: tokens, rfl, by simp, begins, h⟩
    · cases split
      obtain ⟨remarks, rest, rfl, comments, begins, after⟩ := ih after
      exact ⟨token :: remarks, rest, rfl, by simpa [comment] using comments, begins, after⟩

theorem Statements.ahead_ne (h : Statements place tokens outlines) (kind : Kind)
    (other : some kind ∉ some .comment :: beginnings) : ahead tokens ≠ some kind := by
  intro same
  rcases h.first with begins | ⟨remark, rest, rfl, comment, -⟩
  · exact other (List.mem_cons_of_mem _ (same ▸ begins))
  · have first : ahead (remark :: rest) = some .comment := by simp [ahead, comment]
    exact other (by simp [← same, first])

theorem Statements.ahead_ne_semi (h : Statements place tokens outlines) :
    ahead tokens ≠ some .semi := h.ahead_ne _ (by decide)

theorem Statements.append (h : Statements .program tokens outlines)
    (h' : Statements .program tokens' outlines') (stays : .leave ∉ outlines) :
    Statements .program (tokens ++ tokens') (outlines ++ outlines') := by
  generalize same : Place.program = place at h
  induction h with
  | nil => exact h'
  | close => cases same
  | leaveBlock => cases same
  | stray spelled _ ih => exact .stray spelled (ih stays same)
  | comment spelled _ ih => exact .comment spelled (ih stays same)
  | box drawn _ ih =>
    have after := ih (fun member => stays (List.mem_cons_of_mem _ member)) same
    rw [List.append_assoc]
    exact .box (drawn.of_ne_semi after.ahead_ne_semi) after
  | condition headed thens comments _ _ _ _ ih =>
    have after := ih (fun member => stays (List.mem_cons_of_mem _ member)) same
    obtain ⟨remarks, rest, split, comments', begins, after⟩ := after.exists_remarks
    have behind : ahead rest ≠ some .comment := fun same => absurd (same ▸ begins) (by decide)
    have noElse : ahead rest ≠ some .elseWord := fun same => absurd (same ▸ begins) (by decide)
    have whole := Statements.condition headed thens (List.forall_mem_append.2 ⟨comments, comments'⟩)
      behind noElse after
    simpa [split] using whole
  | conditionElse headed thens comments spelled elses _ _ _ ih =>
    have after := ih (fun member => stays (List.mem_cons_of_mem _ member)) same
    simpa using Statements.conditionElse headed thens comments spelled elses after
  | leave => simp at stays
  | leaveLast => simp at stays

end Grammar

namespace Program

theorem toNat_shiftAll {outlines : List Outline} {amount : Nat}
    (bound : 1 + Outline.sizeAll outlines + amount ≤ UInt32.size) :
    (Node.idsAll (Node.shiftAll amount (Outline.numberAll 1 outlines))).map UInt32.toNat =
      (Node.idsAll (Outline.numberAll 1 outlines)).map (·.toNat + amount) := by
  rw [Node.idsAll_shiftAll, List.map_map]
  apply List.map_congr_left
  intro id member
  have range : (ids ⟨0, .topDown, Outline.numberAll 1 outlines⟩).map UInt32.toNat =
      List.range (1 + Outline.sizeAll outlines) := by
    rw [ids_numbered, NodeId.map_toNat_series (by omega)]
  have small : id.toNat < 1 + Outline.sizeAll outlines := by
    rw [← List.mem_range, ← range]
    exact List.mem_map_of_mem (List.mem_cons_of_mem _ member)
  have size : UInt32.size = 4294967296 := rfl
  rw [Function.comp_apply, UInt32.toNat_add, UInt32.toNat_ofNat']
  omega

/-- What two token lists are read as, where the first does not return, tells what they are read as
together. -/
theorem ofTokens_append (settings : Settings) {tokens tokens' : List Token} {p q : Program}
    (h : ofTokens settings.direction tokens = .ok p)
    (h' : ofTokens settings.direction tokens' = .ok q)
    (stays : ∀ node ∈ p.nodes, node.isLeave = false) :
    ofTokens settings.direction (tokens ++ tokens') =
      .ok { p with nodes := p.nodes ++ Node.shiftAll (p.size - 1) q.nodes } ∧
    (p.size + q.size - 1 ≤ UInt32.size →
      (Node.idsAll (Node.shiftAll (p.size - 1) q.nodes)).map UInt32.toNat =
        (Node.idsAll q.nodes).map (·.toNat + (p.size - 1))) := by
  obtain ⟨outlines, derived, rfl⟩ := ofTokens_eq_ok_iff.1 h
  obtain ⟨outlines', derived', rfl⟩ := ofTokens_eq_ok_iff.1 h'
  have onward : .leave ∉ outlines := by
    rw [← Node.outlineAll_numberAll 1 outlines, Node.outlineAll_eq_map, List.mem_map]
    rintro ⟨node, member, leaves⟩
    rw [Node.outline_eq_leave_iff, stays node member] at leaves
    cases leaves
  rw [size_numbered, size_numbered, Nat.add_sub_cancel_left]
  constructor
  · refine ofTokens_eq_ok_iff.2 ⟨outlines ++ outlines', derived.append derived' onward, ?_⟩
    rw [Outline.numberAll_append, Node.shiftAll_numberAll]
  · intro bound
    exact toNat_shiftAll (by omega)

def remarkedBranch : List Token :=
  [⟨.ifWord, none, ⟨0, 2, 1, 1⟩⟩, ⟨.lParen, none, ⟨3, 1, 1, 4⟩⟩, ⟨.string, some "a", ⟨4, 1, 1, 5⟩⟩,
   ⟨.rParen, none, ⟨5, 1, 1, 6⟩⟩, ⟨.lBrace, none, ⟨7, 1, 1, 8⟩⟩, ⟨.string, some "x", ⟨8, 1, 1, 9⟩⟩,
   ⟨.rBrace, none, ⟨9, 1, 1, 10⟩⟩, ⟨.comment, some "c", ⟨11, 3, 1, 12⟩⟩]

def remarkedText : List Token :=
  [⟨.comment, some "d", ⟨0, 3, 1, 1⟩⟩, ⟨.string, some "y", ⟨4, 1, 2, 1⟩⟩]

theorem ofTokens_append_remarked :
    ofTokens .topDown remarkedBranch =
      .ok ⟨0, .topDown, [.condition 1 "a" 2 [.expression 4 "x" .square] 3 []]⟩ ∧
    ofTokens .topDown remarkedText = .ok ⟨0, .topDown, [.expression 1 "y" .square]⟩ ∧
    ofTokens .topDown (remarkedBranch ++ remarkedText) =
      .ok ⟨0, .topDown,
        [.condition 1 "a" 2 [.expression 4 "x" .square] 3 [], .expression 5 "y" .square]⟩ := by
  have text : ∀ token : Token, token.kind = .string → ∀ tokens, ahead tokens ≠ some .semi →
      ∀ place outlines, Statements place tokens outlines →
        Statements place (token :: tokens) (.box token.text .square :: outlines) := by
    intro token string tokens other place outlines after
    exact Statements.box (.bare (by simp [Spells, string]) other) after
  have branch : Derives remarkedBranch [.branch "a" [.box "x" .square] []] := by
    refine @Statements.condition _ (remarkedBranch.take 5) ((remarkedBranch.drop 5).take 2)
      (remarkedBranch.drop 7) [] _ _ _ (.mk rfl) ?_ (by decide) (by decide) (by decide) .nil
    exact text _ rfl _ (by decide) _ _ (.close rfl)
  have behind : Derives remarkedText [.box "y" .square] :=
    .comment rfl (text _ rfl _ (by decide) _ _ .nil)
  have read : ofTokens .topDown remarkedBranch =
      .ok ⟨0, .topDown, [.condition 1 "a" 2 [.expression 4 "x" .square] 3 []]⟩ :=
    ofTokens_eq_ok_iff.2 ⟨_, branch, rfl⟩
  have read' : ofTokens .topDown remarkedText = .ok ⟨0, .topDown, [.expression 1 "y" .square]⟩ :=
    ofTokens_eq_ok_iff.2 ⟨_, behind, rfl⟩
  exact ⟨read, read', (ofTokens_append {} read read' (by simp [Node.isLeave])).1⟩

end Program

end Flowchart
