import Flowchart.Proofs.Appearance

/-! The order in which links are drawn. Each block has its links by a few rules: from a node to the
one behind it, into the branches of a condition, and past a condition without an else-branch. Every
link has an address, which tells the way to its node and what is done there, and the links of a
program are drawn in the order of their addresses; a line that comes again is left out. -/
namespace Flowchart

/-- What is to be done at a node, in this order: the link into it, the link to the then-branch and all
of that branch; then the link to the else-branch and all of it, or without one, the link out of
the then-branch and the one past it. -/
inductive Stage where
  | arrive | ifTrue | onTrue | ifFalse | onFalse | merge | past
deriving DecidableEq, Repr

namespace Stage

def all : List Stage := [arrive, ifTrue, onTrue, ifFalse, onFalse, merge, past]

def rank : Stage → Nat
  | arrive => 0
  | ifTrue => 1
  | onTrue => 2
  | ifFalse => 3
  | onFalse => 4
  | merge => 5
  | past => 6

theorem mem_all (stage : Stage) : stage ∈ all := by cases stage <;> decide

theorem all_ordered : all.Pairwise fun stage stage' => stage.rank < stage'.rank := by decide

end Stage

/-- The way to a place in a program, from outside to inside: the index of a node in its block and what
is done there, by turns. Addresses are ordered like words. -/
abbrev Address := List Nat

abbrev InOrder (walk : List (Address × Edge)) : Prop :=
  walk.Pairwise fun step step' => step.1 < step'.1

def Stage.within (stage : Stage) (step : Address × Edge) : Address × Edge :=
  (0 :: stage.rank :: step.1, step.2)

def later (step : Address × Edge) : Address × Edge := (step.1.modifyHead (· + 1), step.2)

namespace Node

/-- The block at the end of the way: all nodes, or a branch of a condition among them, or further
inside. -/
inductive BlockAt : List Node → Address → List Node → Prop where
  | outermost {nodes : List Node} : BlockAt nodes [] nodes
  | onTrue {nodes block : List Node} {node : Node} {i : Nat} {way : Address} :
      nodes[i]? = some node → node.isCondition = true → BlockAt node.onTrue way block →
      BlockAt nodes (i :: Stage.onTrue.rank :: way) block
  | onFalse {nodes block : List Node} {node : Node} {i : Nat} {way : Address} :
      nodes[i]? = some node → node.isCondition = true → BlockAt node.onFalse way block →
      BlockAt nodes (i :: Stage.onFalse.rank :: way) block

/-- The links of a block, with the index of the node where each of them is drawn. No rule has a link
into a node that leaves the program. -/
inductive LinkRule (settings : Settings) (block : List Node) : Nat → Stage → Edge → Prop where
  | next {i : Nat} {id : NodeId} {text : String} {shape : Shape} {curr : Node} :
      block[i]? = some (.expression id text shape) → block[i + 1]? = some curr →
      curr.isLeave = false → LinkRule settings block (i + 1) .arrive ⟨[id], curr.id, none⟩
  | join {i : Nat} {prev curr : Node} : block[i]? = some prev → prev.isCondition = true →
      prev.exits ≠ [] → block[i + 1]? = some curr → curr.isLeave = false →
      LinkRule settings block (i + 1) .arrive ⟨prev.exits, curr.id, none⟩
  | whenTrue {i : Nat} {node first : Node} : block[i]? = some node → node.isCondition = true →
      node.onTrue.head? = some first → first.isLeave = false →
      LinkRule settings block i .ifTrue ⟨[node.id], first.id, settings.trueLabel⟩
  | whenFalse {i : Nat} {node first : Node} : block[i]? = some node → node.isCondition = true →
      node.onFalse.head? = some first → first.isLeave = false →
      LinkRule settings block i .ifFalse ⟨[node.id], first.id, settings.falseLabel⟩
  | merge {i : Nat} {node last following : Node} : block[i]? = some node →
      node.isCondition = true → node.onFalse = [] → block[i + 1]? = some following →
      following.isLeave = false → node.onTrue.getLast? = some last → last.isLeave = false →
      LinkRule settings block i .merge ⟨[last.id], following.id, none⟩
  | past {i : Nat} {node following : Node} : block[i]? = some node → node.isCondition = true →
      node.onFalse = [] → block[i + 1]? = some following → following.isLeave = false →
      LinkRule settings block i .past ⟨[node.id], following.id, settings.falseLabel⟩

def LinkAt (settings : Settings) (nodes : List Node) (address : Address) (edge : Edge) : Prop :=
  ∃ way block i stage, BlockAt nodes way block ∧ LinkRule settings block i stage edge ∧
    address = way ++ [i, stage.rank]

/-- The passages drawn at a node itself, apart from the one into it. -/
def own (settings : Settings) (node : Node) (next : Option Node) : Stage → List Edge
  | .arrive | .onTrue | .onFalse => []
  | .ifTrue => passage [node.id] (node.onTrue.head?.bind linkable?) settings.trueLabel
  | .ifFalse => passage [node.id] (node.onFalse.head?.bind linkable?) settings.falseLabel
  | .merge =>
    if node.isCondition = true ∧ node.onFalse = [] then
      passage (node.onTrue.getLast?.bind linkable?).toList (next.bind linkable?)
    else []
  | .past =>
    if node.isCondition = true ∧ node.onFalse = [] then
      passage [node.id] (next.bind linkable?) settings.falseLabel
    else []

section Rules

variable {settings : Settings} {node : Node} {nodes block : List Node} {i : Nat} {stage : Stage}
  {edge : Edge} {way address : Address}

theorem getElem?_one_cons : (node :: nodes)[1]? = nodes.head? := by
  rw [List.getElem?_cons_succ, List.head?_eq_getElem?]

theorem linkRule_zero_iff :
    LinkRule settings (node :: nodes) 0 stage edge ↔ edge ∈ own settings node nodes.head? stage := by
  constructor
  · intro h
    cases h with
    | whenTrue found condition first stays =>
      cases found
      exact mem_passage_iff.2 ⟨by simp, _, first, stays, rfl⟩
    | whenFalse found condition first stays =>
      cases found
      exact mem_passage_iff.2 ⟨by simp, _, first, stays, rfl⟩
    | merge found condition noElse following onward final stays =>
      cases found
      rw [getElem?_one_cons] at following
      rw [own, if_pos ⟨condition, noElse⟩, mem_passage_last_iff]
      exact ⟨_, _, final, stays, following, onward, rfl⟩
    | past found condition noElse following onward =>
      cases found
      rw [getElem?_one_cons] at following
      rw [own, if_pos ⟨condition, noElse⟩, mem_passage_iff]
      exact ⟨by simp, _, following, onward, rfl⟩
  · intro h
    have here : (node :: nodes)[0]? = some node := rfl
    cases stage with
    | arrive | onTrue | onFalse => cases h
    | ifTrue =>
      obtain ⟨-, first, found, stays, rfl⟩ := mem_passage_iff.1 h
      have nonempty : node.onTrue ≠ [] := List.ne_nil_of_mem (List.mem_of_mem_head? found)
      exact .whenTrue here (isCondition_of_onTrue nonempty) found stays
    | ifFalse =>
      obtain ⟨-, first, found, stays, rfl⟩ := mem_passage_iff.1 h
      have nonempty : node.onFalse ≠ [] := List.ne_nil_of_mem (List.mem_of_mem_head? found)
      exact .whenFalse here (isCondition_of_onFalse nonempty) found stays
    | merge =>
      rw [own] at h
      split at h
      next bare =>
        obtain ⟨last, following, final, stays, found, onward, rfl⟩ := mem_passage_last_iff.1 h
        exact .merge here bare.1 bare.2 (getElem?_one_cons.trans found) onward final stays
      next => cases h
    | past =>
      rw [own] at h
      split at h
      next bare =>
        obtain ⟨-, following, found, onward, rfl⟩ := mem_passage_iff.1 h
        exact .past here bare.1 bare.2 (getElem?_one_cons.trans found) onward
      next => cases h

theorem linkRule_succ_iff :
    LinkRule settings (node :: nodes) (i + 1) stage edge ↔
      (i = 0 ∧ stage = .arrive ∧ edge ∈ passage node.exits (nodes.head?.bind linkable?)) ∨
      LinkRule settings nodes i stage edge := by
  constructor
  · intro h
    cases h with
    | next found following onward =>
      cases i with
      | zero =>
        cases found
        rw [getElem?_one_cons] at following
        exact .inl ⟨rfl, rfl, mem_passage_iff.2 ⟨by simp [exits], _, following, onward, rfl⟩⟩
      | succ i => exact .inr (.next found following onward)
    | join found condition nonempty following onward =>
      cases i with
      | zero =>
        cases found
        rw [getElem?_one_cons] at following
        exact .inl ⟨rfl, rfl, mem_passage_iff.2 ⟨nonempty, _, following, onward, rfl⟩⟩
      | succ i => exact .inr (.join found condition nonempty following onward)
    | whenTrue found condition first stays => exact .inr (.whenTrue found condition first stays)
    | whenFalse found condition first stays => exact .inr (.whenFalse found condition first stays)
    | merge found condition noElse following onward final stays =>
      exact .inr (.merge found condition noElse following onward final stays)
    | past found condition noElse following onward =>
      exact .inr (.past found condition noElse following onward)
  · rintro (⟨rfl, rfl, into⟩ | h)
    · obtain ⟨exit, curr, following, onward, rfl⟩ := mem_passage_iff.1 into
      have here : (node :: nodes)[0]? = some node := rfl
      have second : (node :: nodes)[1]? = some curr := getElem?_one_cons.trans following
      cases node with
      | expression id text shape => exact .next here second onward
      | condition id text thenId thenNodes elseId elseNodes =>
        exact .join here rfl exit second onward
      | leave id => exact absurd rfl exit
    · cases h with
      | next found following onward => exact .next found following onward
      | join found condition nonempty following onward =>
        exact .join found condition nonempty following onward
      | whenTrue found condition first stays => exact .whenTrue found condition first stays
      | whenFalse found condition first stays => exact .whenFalse found condition first stays
      | merge found condition noElse following onward final stays =>
        exact .merge found condition noElse following onward final stays
      | past found condition noElse following onward =>
        exact .past found condition noElse following onward

theorem not_linkAt_nil : ¬ LinkAt settings [] address edge := by
  rintro ⟨way, block, i, stage, at', rule, -⟩
  cases at' with
  | outermost => cases rule <;> simp_all
  | onTrue found => simp at found
  | onFalse found => simp at found

/-- A link of a block that begins with the node: one drawn at the node, one of its branches, the one
from the node into the next one, or a link of the nodes behind it. -/
theorem linkAt_cons_iff :
    LinkAt settings (node :: nodes) address edge ↔
      (∃ stage, address = [0, stage.rank] ∧ edge ∈ own settings node nodes.head? stage) ∨
      (∃ way, address = 0 :: Stage.onTrue.rank :: way ∧ LinkAt settings node.onTrue way edge) ∨
      (∃ way, address = 0 :: Stage.onFalse.rank :: way ∧ LinkAt settings node.onFalse way edge) ∨
      (address = [1, Stage.arrive.rank] ∧
        edge ∈ passage node.exits (nodes.head?.bind linkable?)) ∨
      ∃ i way, address = (i + 1) :: way ∧ LinkAt settings nodes (i :: way) edge := by
  constructor
  · rintro ⟨way, block, i, stage, at', rule, rfl⟩
    cases at' with
    | outermost =>
      cases i with
      | zero => exact .inl ⟨stage, rfl, linkRule_zero_iff.1 rule⟩
      | succ i =>
        rcases linkRule_succ_iff.1 rule with ⟨rfl, rfl, into⟩ | rule
        · exact .inr (.inr (.inr (.inl ⟨rfl, into⟩)))
        · exact .inr (.inr (.inr (.inr ⟨i, _, rfl, [], nodes, i, stage, .outermost, rule, rfl⟩)))
    | @onTrue _ _ _ j _ found condition at' =>
      cases j with
      | zero =>
        cases found
        exact .inr (.inl ⟨_, rfl, _, block, i, stage, at', rule, rfl⟩)
      | succ j =>
        exact .inr (.inr (.inr (.inr
          ⟨j, _, rfl, _, block, i, stage, .onTrue found condition at', rule, rfl⟩)))
    | @onFalse _ _ _ j _ found condition at' =>
      cases j with
      | zero =>
        cases found
        exact .inr (.inr (.inl ⟨_, rfl, _, block, i, stage, at', rule, rfl⟩))
      | succ j =>
        exact .inr (.inr (.inr (.inr
          ⟨j, _, rfl, _, block, i, stage, .onFalse found condition at', rule, rfl⟩)))
  · rintro (⟨stage, rfl, drawn⟩ | ⟨way, rfl, inner⟩ | ⟨way, rfl, inner⟩ | ⟨rfl, into⟩ |
      ⟨i, way, rfl, behind⟩)
    · exact ⟨[], _, 0, stage, .outermost, linkRule_zero_iff.2 drawn, rfl⟩
    · have condition := isCondition_of_onTrue fun empty => not_linkAt_nil (empty ▸ inner)
      obtain ⟨way, block, i, stage, at', rule, rfl⟩ := inner
      exact ⟨_, block, i, stage, .onTrue rfl condition at', rule, rfl⟩
    · have condition := isCondition_of_onFalse fun empty => not_linkAt_nil (empty ▸ inner)
      obtain ⟨way, block, i, stage, at', rule, rfl⟩ := inner
      exact ⟨_, block, i, stage, .onFalse rfl condition at', rule, rfl⟩
    · exact ⟨[], _, 1, .arrive, .outermost, linkRule_succ_iff.2 (.inl ⟨rfl, rfl, into⟩), rfl⟩
    · -- The index that grows is that of the first node on the way, or of the link if there is none.
      obtain ⟨way', block, j, stage, at', rule, same⟩ := behind
      cases at' with
      | outermost =>
        cases same
        exact ⟨[], _, i + 1, stage, .outermost, linkRule_succ_iff.2 (.inr rule), rfl⟩
      | onTrue found condition at' =>
        cases same
        exact ⟨_, block, j, stage, .onTrue (i := i + 1) found condition at', rule, rfl⟩
      | onFalse found condition at' =>
        cases same
        exact ⟨_, block, j, stage, .onFalse (i := i + 1) found condition at', rule, rfl⟩

theorem LinkAt.exists_cons (h : LinkAt settings nodes address edge) :
    ∃ i way, address = i :: way := by
  obtain ⟨way, block, i, stage, -, -, rfl⟩ := h
  cases way with
  | nil => exact ⟨_, _, rfl⟩
  | cons j way => exact ⟨_, _, rfl⟩

end Rules

/-- The passages of a block with their addresses, in order. Control comes into the block from
`sources`. -/
structure Walks (settings : Settings) (sources : List NodeId) (nodes : List Node)
    (walk : List (Address × Edge)) : Prop where
  edges_eq : walk.map Prod.snd = blockEdges settings sources nodes
  ordered : walk.Pairwise fun step step' => step.1 < step'.1
  mem_iff : ∀ address edge, (address, edge) ∈ walk ↔
    (address = [0, Stage.arrive.rank] ∧ edge ∈ passage sources (nodes.head?.bind linkable?)) ∨
      LinkAt settings nodes address edge

def steps (settings : Settings) (sources : List NodeId) (node : Node) (next : Option Node)
    (onTrue onFalse : List (Address × Edge)) : Stage → List (Address × Edge)
  | .arrive => (passage sources node.linkable?).map ([], ·)
  | .onTrue => onTrue
  | .onFalse => onFalse
  | stage => (own settings node next stage).map ([], ·)

def stepsWithin (settings : Settings) (sources : List NodeId) (node : Node) (next : Option Node)
    (onTrue onFalse : List (Address × Edge)) : List (Address × Edge) :=
  Stage.all.flatMap fun stage =>
    (steps settings sources node next onTrue onFalse stage).map stage.within

section Walks

variable {settings : Settings} {sources : List NodeId} {node : Node} {nodes : List Node}
  {onTrue onFalse walk : List (Address × Edge)}

theorem walks_nil : Walks settings sources [] [] where
  edges_eq := rfl
  ordered := .nil
  mem_iff address edge := by simp [not_linkAt_nil, passage_none]

theorem innerEdges_eq (settings : Settings) (node : Node) (next : Option Node) :
    node.innerEdges settings (next.bind linkable?) =
      own settings node next .ifTrue ++ blockEdges settings [] node.onTrue ++
      own settings node next .ifFalse ++ blockEdges settings [] node.onFalse ++
      own settings node next .merge ++ own settings node next .past := by
  cases node with
  | expression | leave => rfl
  | condition id text thenId thenNodes elseId elseNodes =>
    cases elseNodes with
    | nil =>
      simp [innerEdges, own, Node.onTrue, Node.onFalse, Node.id, isCondition, blockEdges,
        passage_none]
    | cons first elseNodes =>
      simp [innerEdges, own, Node.onTrue, Node.onFalse, Node.id, isCondition]

theorem map_snd_stepsWithin (hTrue : Walks settings [] node.onTrue onTrue)
    (hFalse : Walks settings [] node.onFalse onFalse) (next : Option Node) :
    (stepsWithin settings sources node next onTrue onFalse).map Prod.snd =
      passage sources node.linkable? ++ node.innerEdges settings (next.bind linkable?) := by
  rw [innerEdges_eq, ← hTrue.edges_eq, ← hFalse.edges_eq]
  simp [stepsWithin, Stage.all, steps, Stage.within, Function.comp_def]

theorem length_passage_le (sources : List NodeId) (target : Option NodeId) (label : Option String) :
    (passage sources target label).length ≤ 1 := by
  cases target with
  | none => simp [passage]
  | some target =>
    rw [passage]
    split <;> simp

theorem length_own_le (stage : Stage) (next : Option Node) :
    (own settings node next stage).length ≤ 1 := by
  cases stage with
  | arrive | onTrue | onFalse => exact Nat.zero_le 1
  | ifTrue | ifFalse => exact length_passage_le _ _ _
  | merge | past =>
    rw [own]
    split
    · exact length_passage_le _ _ _
    · exact Nat.zero_le 1

theorem inOrder_bare {edges : List Edge} (short : edges.length ≤ 1) :
    InOrder (edges.map ([], ·)) := by
  match edges, short with
  | [], _ => exact .nil
  | [edge], _ => exact List.pairwise_singleton _ _

theorem inOrder_steps (hTrue : Walks settings [] node.onTrue onTrue)
    (hFalse : Walks settings [] node.onFalse onFalse) (next : Option Node) (stage : Stage) :
    InOrder (steps settings sources node next onTrue onFalse stage) := by
  cases stage with
  | arrive => exact inOrder_bare (length_passage_le _ _ _)
  | onTrue => exact hTrue.ordered
  | onFalse => exact hFalse.ordered
  | ifTrue | ifFalse | merge | past => exact inOrder_bare (length_own_le _ _)

theorem inOrder_stepsWithin (hTrue : Walks settings [] node.onTrue onTrue)
    (hFalse : Walks settings [] node.onFalse onFalse) (next : Option Node) :
    InOrder (stepsWithin settings sources node next onTrue onFalse) := by
  rw [stepsWithin, InOrder, List.pairwise_flatMap]
  constructor
  · intro stage _
    rw [List.pairwise_map]
    refine (inOrder_steps hTrue hFalse next stage).imp fun before => ?_
    exact List.cons_lt_cons_iff.2 (.inr ⟨rfl, List.cons_lt_cons_iff.2 (.inr ⟨rfl, before⟩)⟩)
  · refine Stage.all_ordered.imp fun earlier => ?_
    simp only [List.forall_mem_map]
    intro step _ step' _
    exact List.cons_lt_cons_iff.2 (.inr ⟨rfl, List.cons_lt_cons_iff.2 (.inl earlier)⟩)

theorem Walks.mem_branch_iff (h : Walks settings [] nodes walk) {address : Address} {edge : Edge} :
    (address, edge) ∈ walk ↔ LinkAt settings nodes address edge := by
  rw [h.mem_iff, passage_nil]
  simp

theorem mem_stepsWithin_iff (hTrue : Walks settings [] node.onTrue onTrue)
    (hFalse : Walks settings [] node.onFalse onFalse) {next : Option Node} {address : Address}
    {edge : Edge} :
    (address, edge) ∈ stepsWithin settings sources node next onTrue onFalse ↔
      (address = [0, Stage.arrive.rank] ∧ edge ∈ passage sources node.linkable?) ∨
      (∃ stage, address = [0, stage.rank] ∧ edge ∈ own settings node next stage) ∨
      (∃ way, address = 0 :: Stage.onTrue.rank :: way ∧ LinkAt settings node.onTrue way edge) ∨
      ∃ way, address = 0 :: Stage.onFalse.rank :: way ∧ LinkAt settings node.onFalse way edge := by
  have found : (address, edge) ∈ stepsWithin settings sources node next onTrue onFalse ↔
      ∃ stage way, (way, edge) ∈ steps settings sources node next onTrue onFalse stage ∧
        0 :: stage.rank :: way = address := by
    simp [stepsWithin, Stage.within, Stage.mem_all]
  rw [found]
  constructor
  · rintro ⟨stage, way, member, rfl⟩
    cases stage with
    | arrive =>
      obtain ⟨edge', into, same⟩ := List.mem_map.1 member
      cases same
      exact .inl ⟨rfl, into⟩
    | onTrue => exact .inr (.inr (.inl ⟨way, rfl, hTrue.mem_branch_iff.1 member⟩))
    | onFalse => exact .inr (.inr (.inr ⟨way, rfl, hFalse.mem_branch_iff.1 member⟩))
    | ifTrue | ifFalse | merge | past =>
      obtain ⟨edge', drawn, same⟩ := List.mem_map.1 member
      cases same
      exact .inr (.inl ⟨_, rfl, drawn⟩)
  · rintro (⟨rfl, into⟩ | ⟨stage, rfl, drawn⟩ | ⟨way, rfl, inner⟩ | ⟨way, rfl, inner⟩)
    · exact ⟨.arrive, [], List.mem_map_of_mem into, rfl⟩
    · refine ⟨stage, [], ?_, rfl⟩
      cases stage with
      | arrive | onTrue | onFalse => cases drawn
      | ifTrue | ifFalse | merge | past => exact List.mem_map_of_mem drawn
    · exact ⟨.onTrue, way, hTrue.mem_branch_iff.2 inner, rfl⟩
    · exact ⟨.onFalse, way, hFalse.mem_branch_iff.2 inner, rfl⟩

theorem Walks.exists_cons (h : Walks settings sources nodes walk) {step : Address × Edge}
    (member : step ∈ walk) : ∃ i way, step.1 = i :: way := by
  rcases (h.mem_iff step.1 step.2).1 member with ⟨first, -⟩ | link
  · exact ⟨_, _, first⟩
  · exact link.exists_cons

theorem Walks.mem_map_later_iff (h : Walks settings sources nodes walk) {address : Address}
    {edge : Edge} :
    (address, edge) ∈ walk.map later ↔
      (address = [1, Stage.arrive.rank] ∧ edge ∈ passage sources (nodes.head?.bind linkable?)) ∨
      ∃ i way, address = (i + 1) :: way ∧ LinkAt settings nodes (i :: way) edge := by
  constructor
  · intro member
    obtain ⟨step, walked, same⟩ := List.mem_map.1 member
    obtain ⟨i, way, first⟩ := h.exists_cons walked
    obtain ⟨address', edge'⟩ := step
    cases first
    cases same
    rcases (h.mem_iff _ _).1 walked with ⟨first, into⟩ | link
    · cases first
      exact .inl ⟨rfl, into⟩
    · exact .inr ⟨i, way, rfl, link⟩
  · rintro (⟨rfl, into⟩ | ⟨i, way, rfl, link⟩)
    · exact List.mem_map.2 ⟨_, (h.mem_iff _ _).2 (.inl ⟨rfl, into⟩), rfl⟩
    · exact List.mem_map.2 ⟨_, (h.mem_iff _ _).2 (.inr link), rfl⟩

theorem Walks.inOrder_map_later (h : Walks settings sources nodes walk) :
    InOrder (walk.map later) := by
  rw [InOrder, List.pairwise_map]
  refine h.ordered.imp_of_mem fun {step step'} member member' before => ?_
  obtain ⟨i, way, first⟩ := h.exists_cons member
  obtain ⟨i', way', first'⟩ := h.exists_cons member'
  rw [first, first', List.cons_lt_cons_iff] at before
  rw [later, later, first, first']
  exact List.cons_lt_cons_iff.2 (by simpa using before)

theorem Walks.cons (hTrue : Walks settings [] node.onTrue onTrue)
    (hFalse : Walks settings [] node.onFalse onFalse) (h : Walks settings node.exits nodes walk) :
    Walks settings sources (node :: nodes)
      (stepsWithin settings sources node nodes.head? onTrue onFalse ++ walk.map later) where
  edges_eq := by
    have rest : (walk.map later).map Prod.snd = blockEdges settings node.exits nodes := by
      rw [List.map_map, ← h.edges_eq]
      rfl
    rw [List.map_append, map_snd_stepsWithin hTrue hFalse, rest, blockEdges]
  ordered := by
    rw [List.pairwise_append]
    refine ⟨inOrder_stepsWithin hTrue hFalse _, h.inOrder_map_later, ?_⟩
    intro step member step' member'
    obtain ⟨stage, -, within⟩ := List.mem_flatMap.1 member
    obtain ⟨inner, -, rfl⟩ := List.mem_map.1 within
    obtain ⟨earlier, walked, rfl⟩ := List.mem_map.1 member'
    obtain ⟨i, way, first⟩ := h.exists_cons walked
    -- Addresses of the first node begin with zero, all others with something greater.
    rw [later, first]
    exact List.cons_lt_cons_iff.2 (.inl (Nat.succ_pos i))
  mem_iff address edge := by
    rw [List.mem_append, mem_stepsWithin_iff hTrue hFalse, h.mem_map_later_iff, linkAt_cons_iff,
      List.head?_cons, Option.bind_some]
    simp only [or_assoc]

theorem exists_walks (settings : Settings) (sources : List NodeId) (nodes : List Node) :
    ∃ walk, Walks settings sources nodes walk := by
  induction nodes using consInduction generalizing sources with
  | nil => exact ⟨[], walks_nil⟩
  | cons node nodes ihTrue ihFalse ih =>
    obtain ⟨onTrue, hTrue⟩ := ihTrue []
    obtain ⟨onFalse, hFalse⟩ := ihFalse []
    obtain ⟨walk, h⟩ := ih node.exits
    exact ⟨_, hTrue.cons hFalse h⟩

end Walks

end Node

open Node

/-- The lines of a program are the texts of the links that the rules have in its blocks. Each is drawn
once, and they are drawn as a walk first comes to them that takes all links in the order of their
addresses. -/
theorem Program.lines_walk (p : Program) (settings : Settings) :
    (∀ line, line ∈ (p.links settings).lines ↔
      ∃ way block i stage edge, BlockAt p.nodes way block ∧
        LinkRule settings block i stage edge ∧ line = edge.text) ∧
    (p.links settings).lines.Nodup ∧
    ∃ walk : List (Address × Edge),
      (walk.Pairwise fun step step' => step.1 < step'.1) ∧
      (∀ address edge, (address, edge) ∈ walk ↔
        ∃ way block i stage, BlockAt p.nodes way block ∧ LinkRule settings block i stage edge ∧
          address = way ++ [i, stage.rank]) ∧
      (p.links settings).lines = (walk.map fun step => step.2.text).eraseDups ∧
      (p.links settings).text = String.join (walk.map fun step => step.2.text).eraseDups := by
  obtain ⟨walk, walks⟩ := exists_walks settings [] p.nodes
  have lines : (p.links settings).lines = (walk.map fun step => step.2.text).eraseDups := by
    simp only [lines_links_eq_eraseDups, edges, ← walks.edges_eq, List.map_map, Edge.line_link]
    rfl
  refine ⟨fun line => ?_, lines ▸ nodup_eraseDups _, walk, walks.ordered,
    fun _ _ => walks.mem_branch_iff, lines, by rw [Links.text, lines]⟩
  rw [lines, List.mem_eraseDups, List.mem_map]
  constructor
  · rintro ⟨⟨address, edge⟩, walked, rfl⟩
    obtain ⟨way, block, i, stage, at', rule, -⟩ := walks.mem_branch_iff.1 walked
    exact ⟨way, block, i, stage, edge, at', rule, rfl⟩
  · rintro ⟨way, block, i, stage, edge, at', rule, rfl⟩
    have walked := walks.mem_branch_iff.2 ⟨way, block, i, stage, at', rule, rfl⟩
    exact ⟨_, walked, rfl⟩

-- Both ways out of the inner condition lead on together, behind all that is drawn inside.
example :
    (Program.links ⟨0, .topDown, [.condition 1 "a" 2 [.condition 4 "b" 5 [.expression 7 "x" .square]
      6 [.expression 8 "y" .square]] 3 [], .expression 9 "z" .square]⟩ {}).text =
      "  1-->|True|4\n  4-->|True|7\n  4-->|False|8\n  4-->9\n  1-->|False|9\n  7 & 8-->9\n" := by
  cbv

end Flowchart
