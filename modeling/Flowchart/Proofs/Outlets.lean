import Flowchart.Proofs.Forward
import Flowchart.Proofs.Walk

/-! Where control leaves a condition. It leaves from the boxes at which a way ends that turns into a
branch, there goes to the last node, and if that is a condition turns into one of its branches in
the same way. These boxes, from left to right, are the exits. In a program that was read their
numbers grow, and they lie between those of the condition itself and those of what follows it. -/
namespace Flowchart

namespace Node

/-- A box is the last node of the block at the end of the way, and each condition on the way is the
last node of its own block. -/
structure OutletAt (nodes : List Node) (way : Address) (i : Nat) (node : Node) : Prop where
  isBox : ∃ id text shape, node = expression id text shape
  stands : ∃ block, BlockAt nodes way block ∧ block[i]? = some node ∧ i + 1 = block.length
  enclosing : ∀ outer j turn inner block, way = outer ++ j :: turn :: inner →
    BlockAt nodes outer block → j + 1 = block.length

inductive Turns (node : Node) : Nat → List Node → Prop where
  | onTrue : node.isCondition = true → Turns node Stage.onTrue.rank node.onTrue
  | onFalse : node.isCondition = true → Turns node Stage.onFalse.rank node.onFalse

section Ways

variable {nodes front block branch : List Node} {node last : Node} {way : Address} {i j turn : Nat}

theorem Turns.unique {branch' : List Node} (h : Turns node turn branch)
    (h' : Turns node turn branch') : branch = branch' := by
  cases h <;> cases h' <;> rfl

theorem eq_concat_of_getElem? (found : nodes[i]? = some node) (ends : i + 1 = nodes.length) :
    ∃ front, nodes = front ++ [node] ∧ i = front.length := by
  rcases List.eq_nil_or_concat' nodes with rfl | ⟨front, last, rfl⟩
  · simp at ends
  · obtain rfl : i = front.length := by simpa using ends
    obtain rfl : last = node := by simpa using found
    exact ⟨front, rfl, rfl⟩

theorem blockAt_nil : BlockAt nodes [] block ↔ block = nodes := by
  constructor
  · rintro ⟨⟩
    rfl
  · rintro rfl
    exact .outermost

theorem not_blockAt_singleton : ¬ BlockAt nodes [i] block := by
  rintro ⟨⟩

theorem blockAt_cons_cons : BlockAt nodes (i :: turn :: way) block ↔
    ∃ node branch, nodes[i]? = some node ∧ Turns node turn branch ∧ BlockAt branch way block := by
  constructor
  · rintro (_ | ⟨found, condition, inner⟩ | ⟨found, condition, inner⟩)
    · exact ⟨_, _, found, .onTrue condition, inner⟩
    · exact ⟨_, _, found, .onFalse condition, inner⟩
  · rintro ⟨node, branch, found, ⟨condition⟩ | ⟨condition⟩, inner⟩
    · exact .onTrue found condition inner
    · exact .onFalse found condition inner

theorem outletAt_nil : OutletAt nodes [] i node ↔
    (∃ id text shape, node = expression id text shape) ∧
      ∃ front, nodes = front ++ [node] ∧ i = front.length := by
  constructor
  · intro h
    obtain ⟨block, at', found, ends⟩ := h.stands
    obtain rfl := blockAt_nil.1 at'
    exact ⟨h.isBox, eq_concat_of_getElem? found ends⟩
  · rintro ⟨box, front, rfl, rfl⟩
    exact ⟨box, ⟨_, .outermost, by simp, by simp⟩, by simp⟩

theorem not_outletAt_singleton : ¬ OutletAt nodes [i] j node := by
  intro h
  obtain ⟨block, at', -⟩ := h.stands
  exact not_blockAt_singleton at'

theorem outletAt_cons_cons : OutletAt nodes (i :: turn :: way) j node ↔
    ∃ front last branch, nodes = front ++ [last] ∧ i = front.length ∧ Turns last turn branch ∧
      OutletAt branch way j node := by
  constructor
  · intro h
    obtain ⟨block, at', stands⟩ := h.stands
    obtain ⟨last, branch, found, turns, inner⟩ := blockAt_cons_cons.1 at'
    have ends := h.enclosing [] i turn way nodes rfl .outermost
    obtain ⟨front, rfl, rfl⟩ := eq_concat_of_getElem? found ends
    refine ⟨front, last, branch, rfl, rfl, turns, h.isBox, ⟨block, inner, stands⟩, ?_⟩
    rintro outer k turn' rest block' rfl outer'
    have longer := blockAt_cons_cons.2 ⟨last, branch, found, turns, outer'⟩
    exact h.enclosing (front.length :: turn :: outer) k turn' rest block' rfl longer
  · rintro ⟨front, last, branch, rfl, rfl, turns, outlet⟩
    have found : (front ++ [last])[front.length]? = some last := by simp
    obtain ⟨block, at', stands⟩ := outlet.stands
    have deeper := blockAt_cons_cons.2 ⟨last, branch, found, turns, at'⟩
    refine ⟨outlet.isBox, ⟨block, deeper, stands⟩, ?_⟩
    -- The first node on the way is the last of its block, and the others are on the inner way.
    intro outer k turn' rest block' split outer'
    match outer, split with
    | [], split =>
      cases split
      obtain rfl := blockAt_nil.1 outer'
      simp
    | [_], _ => exact absurd outer' not_blockAt_singleton
    | _ :: _ :: outer, split =>
      simp only [List.cons_append, List.cons.injEq] at split
      obtain ⟨rfl, rfl, split⟩ := split
      obtain ⟨last', branch', found', turns', inner⟩ := blockAt_cons_cons.1 outer'
      obtain rfl : last = last' := by simpa using found'
      obtain rfl := turns.unique turns'
      exact outlet.enclosing outer k turn' rest block' split inner

/-- The place of an outlet, with its index as the last part of the address. -/
def IsOutlet (nodes : List Node) (address : Address) (node : Node) : Prop :=
  ∃ way i, address = way ++ [i] ∧ OutletAt nodes way i node

theorem not_isOutlet_nil {address : Address} : ¬ IsOutlet [] address node := by
  rintro ⟨way, i, rfl, outlet⟩
  match way with
  | [] => simp [outletAt_nil] at outlet
  | [_] => exact not_outletAt_singleton outlet
  | _ :: _ :: _ => simp [outletAt_cons_cons] at outlet

theorem isOutlet_concat {address : Address} : IsOutlet (front ++ [last]) address node ↔
    ((∃ id text shape, last = expression id text shape) ∧ address = [front.length] ∧ node = last) ∨
      ∃ turn branch inner, address = front.length :: turn :: inner ∧ Turns last turn branch ∧
        IsOutlet branch inner node := by
  constructor
  · rintro ⟨way, i, rfl, outlet⟩
    match way with
    | [] =>
      obtain ⟨box, front', same, rfl⟩ := outletAt_nil.1 outlet
      obtain ⟨rfl, final⟩ := List.append_inj' same rfl
      cases final
      exact .inl ⟨box, rfl, rfl⟩
    | [_] => exact absurd outlet not_outletAt_singleton
    | j :: turn :: way =>
      obtain ⟨front', last', branch, same, rfl, turns, inner⟩ := outletAt_cons_cons.1 outlet
      obtain ⟨rfl, final⟩ := List.append_inj' same rfl
      cases final
      exact .inr ⟨turn, branch, way ++ [i], rfl, turns, way, i, rfl, inner⟩
  · rintro (⟨box, rfl, rfl⟩ | ⟨turn, branch, _, rfl, turns, way, i, rfl, inner⟩)
    · exact ⟨[], _, rfl, outletAt_nil.2 ⟨box, front, rfl, rfl⟩⟩
    · exact ⟨_ :: _ :: way, i, rfl,
        outletAt_cons_cons.2 ⟨front, last, branch, rfl, rfl, turns, inner⟩⟩

end Ways

/-- The outlets of a block with their addresses, from left to right. -/
structure Outlets (nodes : List Node) (outlets : List (Address × Node)) : Prop where
  ids_eq : outlets.map (·.2.id) = blockExits nodes
  ordered : outlets.Pairwise fun outlet outlet' => outlet.1 < outlet'.1
  mem_iff : ∀ address node, (address, node) ∈ outlets ↔ IsOutlet nodes address node

def turned (i : Nat) (stage : Stage) (outlet : Address × Node) : Address × Node :=
  (i :: stage.rank :: outlet.1, outlet.2)

section Outlets

variable {front : List Node} {id thenId elseId : NodeId} {text : String} {shape : Shape}
  {thenNodes elseNodes : List Node} {thenOutlets elseOutlets : List (Address × Node)}

theorem outlets_nil : Outlets [] [] where
  ids_eq := rfl
  ordered := .nil
  mem_iff _ _ := by simp [not_isOutlet_nil]

theorem outlets_expression : Outlets (front ++ [expression id text shape])
    [([front.length], expression id text shape)] where
  ids_eq := by rw [blockExits_concat]; rfl
  ordered := List.pairwise_singleton _ _
  mem_iff address node := by
    have still (turn : Nat) (branch : List Node) :
        ¬ Turns (expression id text shape) turn branch := by
      rintro (condition | condition) <;> cases condition
    simp [isOutlet_concat, still]

theorem outlets_leave : Outlets (front ++ [leave id]) [] where
  ids_eq := by rw [blockExits_concat]; rfl
  ordered := .nil
  mem_iff address node := by
    have still (turn : Nat) (branch : List Node) : ¬ Turns (leave id) turn branch := by
      rintro (condition | condition) <;> cases condition
    simp [isOutlet_concat, still]

theorem pairwise_turned {outlets : List (Address × Node)} (i : Nat) (stage : Stage)
    (h : outlets.Pairwise fun outlet outlet' => outlet.1 < outlet'.1) :
    (outlets.map (turned i stage)).Pairwise fun outlet outlet' => outlet.1 < outlet'.1 := by
  rw [List.pairwise_map]
  refine h.imp fun before => ?_
  exact List.cons_lt_cons_iff.2 (.inr ⟨rfl, List.cons_lt_cons_iff.2 (.inr ⟨rfl, before⟩)⟩)

theorem outlets_condition (hThen : Outlets thenNodes thenOutlets)
    (hElse : Outlets elseNodes elseOutlets) :
    Outlets (front ++ [condition id text thenId thenNodes elseId elseNodes])
      (thenOutlets.map (turned front.length .onTrue) ++
        elseOutlets.map (turned front.length .onFalse)) where
  ids_eq := by
    rw [blockExits_concat, exits, ← hThen.ids_eq, ← hElse.ids_eq]
    simp [turned, Function.comp_def]
  ordered := by
    refine List.pairwise_append.2
      ⟨pairwise_turned _ _ hThen.ordered, pairwise_turned _ _ hElse.ordered, ?_⟩
    simp only [List.forall_mem_map]
    intro outlet _ outlet' _
    exact List.cons_lt_cons_iff.2 (.inr ⟨rfl, List.cons_lt_cons_iff.2 (.inl (by decide))⟩)
  mem_iff address node := by
    rw [isOutlet_concat, List.mem_append]
    constructor
    · rintro (member | member)
      · obtain ⟨⟨inner, node'⟩, outlet, same⟩ := List.mem_map.1 member
        cases same
        exact .inr ⟨_, _, _, rfl, .onTrue rfl, (hThen.mem_iff _ _).1 outlet⟩
      · obtain ⟨⟨inner, node'⟩, outlet, same⟩ := List.mem_map.1 member
        cases same
        exact .inr ⟨_, _, _, rfl, .onFalse rfl, (hElse.mem_iff _ _).1 outlet⟩
    · rintro (⟨⟨_, _, _, box⟩, -⟩ | ⟨turn, branch, inner, rfl, turns, outlet⟩)
      · cases box
      · cases turns with
        | onTrue => exact .inl (List.mem_map.2 ⟨_, (hThen.mem_iff _ _).2 outlet, rfl⟩)
        | onFalse => exact .inr (List.mem_map.2 ⟨_, (hElse.mem_iff _ _).2 outlet, rfl⟩)

theorem exists_outlets (nodes : List Node) : ∃ outlets, Outlets nodes outlets := by
  have blocks (nodes : List Node) (inside : ∀ node ∈ nodes,
      (∃ outlets, Outlets node.onTrue outlets) ∧ ∃ outlets, Outlets node.onFalse outlets) :
      ∃ outlets, Outlets nodes outlets := by
    rcases List.eq_nil_or_concat' nodes with rfl | ⟨front, last, rfl⟩
    · exact ⟨[], outlets_nil⟩
    · obtain ⟨⟨thenOutlets, hThen⟩, elseOutlets, hElse⟩ := inside last (by simp)
      cases last with
      | expression => exact ⟨_, outlets_expression⟩
      | condition => exact ⟨_, outlets_condition hThen hElse⟩
      | leave => exact ⟨_, outlets_leave⟩
  have branches (node : Node) :
      (∃ outlets, Outlets node.onTrue outlets) ∧ ∃ outlets, Outlets node.onFalse outlets := by
    induction node using branchInduction with
    | step node ih =>
      obtain ⟨ihTrue, ihFalse⟩ := List.forall_mem_append.1 ih
      exact ⟨blocks _ ihTrue, blocks _ ihFalse⟩
  exact blocks nodes fun node _ => branches node

end Outlets

section Numbers

variable {nodes block : List Node} {way : Address} {i : Nat}

theorem BlockAt.ids_sublist (h : BlockAt nodes way block) :
    (idsAll block).Sublist (idsAll nodes) := by
  have inside (node : Node) : (idsAll node.onTrue ++ idsAll node.onFalse).Sublist node.ids :=
    (List.sublist_cons_self _ _).trans (id_cons_sublist_ids node)
  induction h with
  | outermost => exact .refl _
  | @onTrue _ _ node _ _ found _ _ ih =>
    have branch := (List.sublist_append_left _ _).trans (inside node)
    exact (ih.trans branch).trans (ids_sublist_of_mem (List.mem_of_getElem? found))
  | @onFalse _ _ node _ _ found _ _ ih =>
    have branch := (List.sublist_append_right _ _).trans (inside node)
    exact (ih.trans branch).trans (ids_sublist_of_mem (List.mem_of_getElem? found))

theorem blockExits_sublist (nodes : List Node) : (blockExits nodes).Sublist (idsAll nodes) := by
  rcases List.eq_nil_or_concat' nodes with rfl | ⟨front, last, rfl⟩
  · exact List.nil_sublist _
  · rw [blockExits_concat]
    exact (exits_sublist last).trans (ids_sublist_of_mem (by simp))

theorem map_id_sublist (nodes : List Node) : (nodes.map Node.id).Sublist (idsAll nodes) := by
  induction nodes with
  | nil => exact .slnil
  | cons node nodes ih => exact (List.singleton_sublist.2 (id_mem_ids node)).append ih

theorem idsAll_drop_sublist (nodes : List Node) (n : Nat) :
    (idsAll (nodes.drop n)).Sublist (idsAll nodes) := by
  induction nodes generalizing n with
  | nil => simp
  | cons node nodes ih =>
    cases n with
    | zero => exact .refl _
    | succ n => exact (ih n).trans (List.sublist_append_right _ _)

def elseId? : Node → Option NodeId
  | condition _ _ _ _ elseId _ => some elseId
  | _ => none

theorem elseId_cons_exits_sublist {node : Node} {elseId : NodeId} (h : node.elseId? = some elseId) :
    (elseId :: node.exits).Sublist node.ids := by
  cases node with
  | expression | leave => cases h
  | condition id text thenId thenNodes elseId elseNodes =>
    cases h
    have branches := (blockExits_sublist thenNodes).append (blockExits_sublist elseNodes)
    exact ((branches.cons_cons elseId).cons thenId).cons id

theorem exits_between_sublist {c : Node} {elseId : NodeId} (found : block[i]? = some c)
    (h : c.elseId? = some elseId) :
    (elseId :: (c.exits ++ (block.drop (i + 1)).map Node.id)).Sublist (idsAll block) := by
  obtain ⟨bound, here⟩ := List.getElem?_eq_some_iff.1 found
  have behind : block.drop i = c :: block.drop (i + 1) := by
    rw [List.drop_eq_getElem_cons bound, here]
  have whole := (elseId_cons_exits_sublist h).append (map_id_sublist (block.drop (i + 1)))
  have suffix := idsAll_drop_sublist block i
  rw [behind] at suffix
  exact whole.trans suffix

end Numbers

end Node

namespace Program
open Node

/-- The exits of a condition are its outlets from left to right; the condition itself stands alone
here and so is the last node of its block. In a program that was read, the numbers of the
else-branch, of the exits, and of what follows the condition were given in this order. So they grow,
unless there are more of them than numbers. -/
theorem exits_outlets :
    (∀ c : Node, ∃ outlets : List (Address × Node),
      c.exits = outlets.map (·.2.id) ∧
      (outlets.Pairwise fun outlet outlet' => outlet.1 < outlet'.1) ∧
      ∀ address node, (address, node) ∈ outlets ↔
        ∃ way i, address = way ++ [i] ∧ OutletAt [c] way i node) ∧
    ∀ (settings : Settings) (tokens : List Token) (p : Program),
      ofTokens settings.direction tokens = .ok p →
      ∀ way block i c elseId, BlockAt p.nodes way block → block[i]? = some c →
      c.elseId? = some elseId →
        (elseId :: (c.exits ++ (block.drop (i + 1)).map Node.id)).Sublist p.ids ∧
        (p.size ≤ UInt32.size → c.exits.Pairwise (· < ·) ∧
          ∀ exit ∈ c.exits, elseId < exit ∧
            ∀ j following, i < j → block[j]? = some following → exit < following.id) := by
  refine ⟨fun c => ?_, ?_⟩
  · obtain ⟨outlets, h⟩ := exists_outlets [c]
    exact ⟨outlets, h.ids_eq.symm, h.ordered, h.mem_iff⟩
  · intro settings tokens p read way block i c elseId at' found branch
    have given := ((exits_between_sublist found branch).trans at'.ids_sublist).trans
      (List.sublist_cons_self p.id _)
    refine ⟨given, fun fits => ?_⟩
    obtain ⟨above, grow⟩ := List.pairwise_cons.1 ((ids_increasing_of_size read fits).sublist given)
    obtain ⟨exits_grow, -, below⟩ := List.pairwise_append.1 grow
    refine ⟨exits_grow, fun exit member => ⟨above exit (List.mem_append_left _ member), ?_⟩⟩
    intro j following later found'
    have behind : following ∈ block.drop (i + 1) := by
      refine List.mem_of_getElem? (i := j - (i + 1)) ?_
      rwa [List.getElem?_drop, Nat.add_sub_cancel' later]
    exact below exit member _ (List.mem_map_of_mem behind)

def mergedOuter : Node := .condition 1 "a" 2 [twoSided] 3 []

theorem exits_outlets_merged :
    mergedOuter.exits = [7, 8] ∧ mergedOuter.elseId? = some 3 ∧
      BlockAt merged.nodes [] merged.nodes ∧
    merged.nodes[0]? = some mergedOuter ∧ merged.size ≤ UInt32.size ∧
    (∃ outlets : List (Address × Node), [7, 8] = outlets.map (·.2.id) ∧
      (outlets.Pairwise fun outlet outlet' => outlet.1 < outlet'.1) ∧
      ∀ address node, (address, node) ∈ outlets ↔
        ∃ way i, address = way ++ [i] ∧ OutletAt [mergedOuter] way i node) ∧
    ∃ tokens, ofTokens .topDown tokens = .ok merged ∧
      (3 :: ([7, 8] ++ (merged.nodes.drop 1).map Node.id)).Sublist merged.ids ∧
      ([7, 8] : List NodeId).Pairwise (· < ·) ∧
      ∀ exit ∈ ([7, 8] : List NodeId), 3 < exit ∧
        ∀ j following, 0 < j → merged.nodes[j]? = some following → exit < following.id := by
  have exits : mergedOuter.exits = [7, 8] := rfl
  have fits : merged.size ≤ UInt32.size := by decide
  obtain ⟨tokens, -, read⟩ := exists_tokens_of_ofSource ofSource_mergedText
  obtain ⟨ways, numbers⟩ := exits_outlets
  obtain ⟨given, grow⟩ :=
    numbers {} tokens merged read [] merged.nodes 0 mergedOuter 3 .outermost rfl rfl
  exact ⟨exits, rfl, .outermost, rfl, fits, exits ▸ ways mergedOuter, tokens, read, given,
    grow fits⟩

end Program

end Flowchart
