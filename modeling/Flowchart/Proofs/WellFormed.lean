import Flowchart.Proofs.Acceptance

/-! What holds of every tree that is read. Its numbers are consecutive from the root's zero on, no
box has the shape of a condition, and a return is the last node of its branch. In the program itself
something can stand behind a return only where a brace closes nothing. -/
namespace Flowchart
open Grammar Braces

namespace Node

mutual
def branches : Node → List (List Node)
  | expression _ _ _ => []
  | condition _ _ _ thenNodes _ elseNodes =>
    thenNodes :: elseNodes :: (branchesAll thenNodes ++ branchesAll elseNodes)
  | leave _ => []

def branchesAll : List Node → List (List Node)
  | [] => []
  | node :: nodes => node.branches ++ branchesAll nodes
end

def Plain (block : List Node) : Prop :=
  ∀ id text shape, expression id text shape ∈ block → shape ≠ .condition

def LeavesLast (block : List Node) : Prop := ∀ node ∈ block.dropLast, node.isLeave = false

theorem leavesLast_iff (block : List Node) :
    LeavesLast block ↔ .leave ∉ (outlineAll block).dropLast := by
  rw [outlineAll_eq_map, ← List.map_dropLast, List.mem_map]
  simp only [outline_eq_leave_iff]
  simp [LeavesLast]

theorem allWellFormed_outlineAll (nodes : List Node) :
    Outline.AllWellFormed (outlineAll nodes) ↔
      Plain nodes ∧ ∀ block ∈ branchesAll nodes, Plain block ∧ LeavesLast block := by
  induction nodes using blockInduction with
  | nil => simp [Outline.AllWellFormed, Plain, branchesAll]
  | expression id text shape nodes ih =>
    simp only [outlineAll_cons, outline, Outline.AllWellFormed, Outline.WellFormed, ih, branchesAll,
      branches, List.nil_append, Plain, List.mem_cons, expression.injEq]
    grind
  | condition id text thenId thenNodes elseId elseNodes nodes ihThen ihElse ih =>
    simp only [outlineAll_cons, outline, Outline.AllWellFormed, Outline.WellFormed, ih, ihThen,
      ihElse, branchesAll, branches, ← leavesLast_iff]
    grind [Plain]
  | leave id nodes ih =>
    simp only [outlineAll_cons, outline, Outline.AllWellFormed, Outline.WellFormed, ih, branchesAll,
      branches, List.nil_append, true_and]
    grind [Plain]

end Node

namespace Grammar

variable {place : Place} {tokens : List Token} {outlines : List Outline} {behind : Option Kind}
  {text : String} {shape : Shape}

theorem Draws.length_pos (h : Draws behind tokens text shape) : 0 < tokens.length := by
  cases h <;> simp

theorem Draws.shape_ne (h : Draws behind tokens text shape) : shape ≠ .condition := by
  cases h <;> simp

theorem Header.length_eq (h : Header tokens text) : tokens.length = 5 := by
  cases h
  rfl

theorem Statements.sizeAll_le (h : Statements place tokens outlines) :
    Outline.sizeAll outlines ≤ tokens.length := by
  induction h with
  | nil => simp
  | close => simp
  | stray _ _ ih =>
    rw [List.length_cons]
    omega
  | comment _ _ ih =>
    rw [List.length_cons]
    omega
  | box drawn _ ih =>
    have front := drawn.length_pos
    simp only [Outline.sizeAll_cons, Outline.size, List.length_append]
    omega
  | condition header _ _ _ _ _ ihThen ih =>
    have front := header.length_eq
    simp only [Outline.sizeAll_cons, Outline.size, Outline.sizeAll_nil, List.length_append]
    omega
  | conditionElse header _ _ _ _ _ ihThen ihElse ih =>
    have front := header.length_eq
    simp only [Outline.sizeAll_cons, Outline.size, List.length_append, List.length_cons]
    omega
  | leaveBlock => simp [Outline.size]
  | leave _ _ _ _ ih =>
    simp only [Outline.sizeAll_cons, Outline.size, List.length_append, List.length_cons]
    omega
  | leaveLast => simp [Outline.size]

theorem leave_mem_dropLast_cons {outline : Outline} (other : outline ≠ .leave) :
    .leave ∈ (outline :: outlines).dropLast ↔ .leave ∈ outlines.dropLast := by
  cases outlines with
  | nil => simp
  | cons first outlines => simp [other.symm]

theorem Statements.allWellFormed (h : Statements place tokens outlines) :
    Outline.AllWellFormed outlines ∧ (place = .block → .leave ∉ outlines.dropLast) := by
  induction h with
  | nil => simp [Outline.AllWellFormed]
  | close => simp [Outline.AllWellFormed]
  | stray _ _ ih => exact ih
  | comment _ _ ih => exact ih
  | box drawn _ ih =>
    rw [leave_mem_dropLast_cons (by simp)]
    exact ⟨⟨drawn.shape_ne, ih.1⟩, ih.2⟩
  | condition _ _ _ _ _ _ ihThen ih =>
    have thens := And.intro (ihThen.2 rfl) ihThen.1
    rw [leave_mem_dropLast_cons (by simp)]
    exact ⟨⟨⟨thens, by simp [Outline.AllWellFormed]⟩, ih.1⟩, ih.2⟩
  | conditionElse _ _ _ _ _ _ ihThen ihElse ih =>
    have thens := And.intro (ihThen.2 rfl) ihThen.1
    have elses := And.intro (ihElse.2 rfl) ihElse.1
    rw [leave_mem_dropLast_cons (by simp)]
    exact ⟨⟨⟨thens, elses⟩, ih.1⟩, ih.2⟩
  | leaveBlock => simp [Outline.AllWellFormed, Outline.WellFormed]
  | leave _ _ _ _ ih => exact ⟨⟨trivial, ih.1⟩, by simp⟩
  | leaveLast => simp [Outline.AllWellFormed, Outline.WellFormed]

theorem openFrom_of_spells {kinds : List Kind} (h : Spells kinds tokens)
    (left : .lBrace ∉ kinds) (right : .rBrace ∉ kinds) (depth : Nat) :
    openFrom depth tokens = depth := by
  subst h
  induction tokens with
  | nil => rfl
  | cons token tokens ih =>
    simp only [List.map_cons, List.mem_cons, not_or] at left right
    rw [openFrom_cons, openBehind_other (Ne.symm left.1) (Ne.symm right.1), ih left.2 right.2]

theorem openFrom_remarks (h : ∀ token ∈ tokens, token.kind = .comment) (depth : Nat) :
    openFrom depth tokens = depth := by
  have spelled : Spells (tokens.map fun _ => .comment) tokens := List.map_congr_left h
  exact openFrom_of_spells spelled (by simp) (by simp) depth

theorem Draws.openFrom_eq (h : Draws behind tokens text shape) (depth : Nat) :
    openFrom depth tokens = depth := by
  cases h with
  | bare spelled | square spelled | rounded spelled | circular spelled | parallelogram spelled
  | reverseParallelogram spelled =>
    exact openFrom_of_spells spelled (by decide) (by decide) depth

theorem Header.openFrom_eq (h : Header tokens text) (depth : Nat) :
    openFrom depth tokens = depth + 1 := by
  cases h with
  | @mk word left label right brace spelled =>
    simp only [Spells, List.map_cons, List.map_nil, List.cons.injEq] at spelled
    have front : Spells [.ifWord, .lParen, .string, .rParen] [word, left, label, right] := by
      simp [Spells, spelled]
    have parts : [word, left, label, right, brace] = [word, left, label, right] ++ [brace] := rfl
    rw [parts, openFrom_append, openFrom_of_spells front (by decide) (by decide), openFrom_cons,
      openBehind_open spelled.2.2.2.2.1]
    rfl

theorem openFrom_else {word brace : Token} (h : Spells [.elseWord, .lBrace] [word, brace])
    (depth : Nat) : openFrom depth (word :: brace :: tokens) = openFrom (depth + 1) tokens := by
  simp only [Spells, List.map_cons, List.map_nil, List.cons.injEq] at h
  rw [openFrom_cons, openFrom_cons, openBehind_open h.2.1,
    openBehind_other (by simp [h.1]) (by simp [h.1])]

theorem openFrom_return {word semi : Token} (h : Spells [.returnWord, .semi] [word, semi])
    (depth : Nat) : openFrom depth (word :: semi :: tokens) = openFrom depth tokens := by
  have parts : word :: semi :: tokens = [word, semi] ++ tokens := rfl
  rw [parts, openFrom_append, openFrom_of_spells h (by decide) (by decide)]

theorem openFrom_brace {brace : Token} (h : Spells [.rBrace] [brace]) (depth : Nat) :
    openFrom (depth + 1) [brace] = depth := by
  have closes : brace.kind = .rBrace := by simpa [Spells] using h
  rw [openFrom_cons, openBehind_close closes]
  rfl

theorem Statements.openFrom_block (h : Statements .block tokens outlines) (depth : Nat) :
    openFrom (depth + 1) tokens = depth := by
  generalize same : Place.block = place at h
  induction h generalizing depth with
  | nil => cases same
  | close spelled => exact openFrom_brace spelled depth
  | stray => cases same
  | comment spelled _ ih =>
    rw [← List.singleton_append, openFrom_append,
      openFrom_of_spells spelled (by decide) (by decide), ih depth same]
  | box drawn _ ih => rw [openFrom_append, drawn.openFrom_eq, ih depth same]
  | condition header _ remarks _ _ _ ihThen ih =>
    rw [openFrom_append, header.openFrom_eq, openFrom_append, ihThen (depth + 1) rfl,
      openFrom_append, openFrom_remarks remarks, ih depth same]
  | conditionElse header _ remarks spelled _ _ ihThen ihElse ih =>
    rw [openFrom_append, header.openFrom_eq, openFrom_append, ihThen (depth + 1) rfl,
      openFrom_append, openFrom_remarks remarks, openFrom_else spelled, openFrom_append,
      ihElse (depth + 1) rfl, ih depth same]
  | leaveBlock spelled balanced closes =>
    rw [openFrom_return spelled, openFrom_append, balanced.openFrom_eq, openFrom_brace closes]
  | leave => cases same
  | leaveLast => cases same

/-- Where something stands behind a return of the program itself, a brace closes nothing: the brace
that ended what was not read, or one before it. -/
theorem Statements.exists_stray (h : Statements .program tokens outlines)
    (inner : .leave ∈ outlines.dropLast) :
    ∃ before brace after, tokens = before ++ brace :: after ∧ brace.kind = .rBrace ∧
      openFrom 0 before = 0 := by
  generalize same : Place.program = place at h
  induction h with
  | nil => simp at inner
  | close => cases same
  | @stray brace tokens _ spelled _ _ =>
    exact ⟨[], brace, tokens, rfl, by simpa [Spells] using spelled, rfl⟩
  | @comment _ remark _ _ spelled _ ih =>
    obtain ⟨before, brace, after, rfl, closes, level⟩ := ih inner same
    refine ⟨remark :: before, brace, after, rfl, closes, ?_⟩
    rwa [← List.singleton_append, openFrom_append,
      openFrom_of_spells spelled (by decide) (by decide)]
  | @box _ tokens _ _ _ _ drawn _ ih =>
    rw [leave_mem_dropLast_cons (by simp)] at inner
    obtain ⟨before, brace, after, rfl, closes, level⟩ := ih inner same
    refine ⟨tokens ++ before, brace, after, by simp, closes, ?_⟩
    rwa [openFrom_append, drawn.openFrom_eq]
  | @condition _ header inner' remarks _ _ _ _ headed thens comments _ _ _ _ ih =>
    rw [leave_mem_dropLast_cons (by simp)] at inner
    obtain ⟨before, brace, after, rfl, closes, level⟩ := ih inner same
    refine ⟨header ++ (inner' ++ (remarks ++ before)), brace, after, by simp, closes, ?_⟩
    rwa [openFrom_append, headed.openFrom_eq, openFrom_append, thens.openFrom_block,
      openFrom_append, openFrom_remarks comments]
  | @conditionElse _ header thenTokens remarks elseTokens _ word opening _ _ _ _ headed thens
      comments spelled elses _ _ _ ih =>
    rw [leave_mem_dropLast_cons (by simp)] at inner
    obtain ⟨before, brace, after, rfl, closes, level⟩ := ih inner same
    refine ⟨header ++ (thenTokens ++ (remarks ++ word :: opening :: (elseTokens ++ before))), brace,
      after, by simp, closes, ?_⟩
    rwa [openFrom_append, headed.openFrom_eq, openFrom_append, thens.openFrom_block,
      openFrom_append, openFrom_remarks comments, openFrom_else spelled, openFrom_append,
      elses.openFrom_block]
  | leaveBlock => cases same
  | @leave word semi brace dead tokens _ spelled balanced closes _ _ =>
    refine ⟨word :: semi :: dead, brace, tokens, rfl, by simpa [Spells] using closes, ?_⟩
    rw [openFrom_return spelled, balanced.openFrom_eq]
  | leaveLast => simp at inner

end Grammar

namespace Program

def ids (p : Program) : List NodeId := p.id :: Node.idsAll p.nodes

structure WellFormed (p : Program) : Prop where
  id_eq : p.id = 0
  ids_eq : p.ids.map UInt32.toNat = List.range p.size
  plain : ∀ block ∈ p.nodes :: Node.branchesAll p.nodes, Node.Plain block
  leavesLast : ∀ block ∈ Node.branchesAll p.nodes, Node.LeavesLast block

theorem ids_numbered (direction : Direction) (outlines : List Outline) :
    ids { direction, nodes := Outline.numberAll 1 outlines } =
      NodeId.series 0 (1 + Outline.sizeAll outlines) := by
  rw [ids, Node.idsAll_numberAll, NodeId.series_add, NodeId.series_one]
  rfl

theorem size_numbered (direction : Direction) (outlines : List Outline) :
    size { direction, nodes := Outline.numberAll 1 outlines } = 1 + Outline.sizeAll outlines := by
  rw [size, ← Node.sizeAll_outlineAll, Node.outlineAll_numberAll]

theorem ofTokens_wellFormed (settings : Settings) {tokens : List Token} {p : Program}
    (short : tokens.length < UInt32.size - 1) (h : ofTokens settings.direction tokens = .ok p) :
    p.WellFormed ∧
      ((∃ node ∈ p.nodes.dropLast, node.isLeave = true) →
        ∃ before brace after, tokens = before ++ brace :: after ∧ brace.kind = .rBrace ∧
          openFrom 0 before = 0) := by
  obtain ⟨outlines, derived, rfl⟩ := ofTokens_eq_ok_iff.1 h
  have read : Node.outlineAll (Outline.numberAll 1 outlines) = outlines :=
    Node.outlineAll_numberAll 1 outlines
  have blocks := (Node.allWellFormed_outlineAll (Outline.numberAll 1 outlines)).1
    (by rw [read]; exact derived.allWellFormed.1)
  have bound : 1 + Outline.sizeAll outlines ≤ UInt32.size := by
    have tokens_le := derived.sizeAll_le
    omega
  refine ⟨⟨rfl, ?_, ?_, fun block member => (blocks.2 block member).2⟩, ?_⟩
  · rw [ids_numbered, size_numbered, NodeId.map_toNat_series bound]
  · intro block member
    rcases List.mem_cons.1 member with rfl | inner
    · exact blocks.1
    · exact (blocks.2 block inner).1
  · rintro ⟨node, member, leaves⟩
    apply derived.exists_stray
    rw [← read, Node.outlineAll_eq_map, ← List.map_dropLast]
    exact List.mem_map.2 ⟨node, member, (Node.outline_eq_leave_iff node).2 leaves⟩

def resumed : List Token :=
  [⟨.returnWord, none, ⟨0, 6, 1, 1⟩⟩, ⟨.semi, none, ⟨6, 1, 1, 7⟩⟩, ⟨.rBrace, none, ⟨8, 1, 1, 9⟩⟩,
   ⟨.string, some "x", ⟨10, 1, 1, 11⟩⟩]

theorem wellFormed_resumed :
    resumed.length < UInt32.size - 1 ∧
    ofTokens .topDown resumed = .ok ⟨0, .topDown, [.leave 1, .expression 2 "x" .square]⟩ ∧
    WellFormed ⟨0, .topDown, [.leave 1, .expression 2 "x" .square]⟩ ∧
    ∃ before brace after, resumed = before ++ brace :: after ∧ brace.kind = .rBrace ∧
      openFrom 0 before = 0 := by
  have short : resumed.length < UInt32.size - 1 := by decide
  have drawn : Draws (ahead []) [⟨.string, some "x", ⟨10, 1, 1, 11⟩⟩] "x" .square :=
    .bare rfl (by decide)
  have behind : Statements .program [⟨.string, some "x", ⟨10, 1, 1, 11⟩⟩] [.box "x" .square] :=
    .box drawn .nil
  have derived : Derives resumed [.leave, .box "x" .square] :=
    @Statements.leave _ _ _ [] _ _ rfl balanced_nil rfl behind
  have read : ofTokens .topDown resumed =
      .ok ⟨0, .topDown, [.leave 1, .expression 2 "x" .square]⟩ :=
    ofTokens_eq_ok_iff.2 ⟨_, derived, rfl⟩
  have formed := ofTokens_wellFormed {} short read
  exact ⟨short, read, formed.1, formed.2 ⟨.leave 1, by simp, rfl⟩⟩

end Program

end Flowchart
