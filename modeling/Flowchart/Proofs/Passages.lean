import Flowchart.Proofs.ControlFlow

/-! Where passages come from. Every node, at whatever depth, has a place: the node itself and the one
right behind it in its own block. A passage arises at one place, from a node to what is behind it or
into its branches, and the passages of a program are those that arise at its places. -/
namespace Flowchart

namespace Node

def onTrue : Node → List Node
  | condition _ _ _ thenNodes _ _ => thenNodes
  | _ => []

def onFalse : Node → List Node
  | condition _ _ _ _ _ elseNodes => elseNodes
  | _ => []

/-- A node stands somewhere in a block, with what is right behind it in its own block: as the first
node, in a branch of the first node, or later. -/
inductive Placed : List Node → Node → Option Node → Prop where
  | here {node : Node} {nodes : List Node} : Placed (node :: nodes) node nodes.head?
  | inTrue {first node : Node} {nodes : List Node} {next : Option Node} :
      Placed first.onTrue node next → Placed (first :: nodes) node next
  | inFalse {first node : Node} {nodes : List Node} {next : Option Node} :
      Placed first.onFalse node next → Placed (first :: nodes) node next
  | later {first node : Node} {nodes : List Node} {next : Option Node} :
      Placed nodes node next → Placed (first :: nodes) node next

/-- The passages that a node gives rise to, with the node that is right behind it in its block. -/
inductive Arises (settings : Settings) (node : Node) : Option Node → Edge → Prop where
  | onward {next : Node} : node.exits ≠ [] → next.isLeave = false →
      Arises settings node (some next) ⟨node.exits, next.id, none⟩
  | whenTrue {next : Option Node} {first : Node} : node.onTrue.head? = some first →
      first.isLeave = false → Arises settings node next ⟨[node.id], first.id, settings.trueLabel⟩
  | whenFalse {next : Option Node} {first : Node} : node.onFalse.head? = some first →
      first.isLeave = false → Arises settings node next ⟨[node.id], first.id, settings.falseLabel⟩
  /-- Without an else-branch the last node of the then-branch goes on behind the condition, also if
  that is a condition itself. -/
  | merge {last next : Node} : node.onFalse = [] → node.onTrue.getLast? = some last →
      last.isLeave = false → next.isLeave = false →
      Arises settings node (some next) ⟨[last.id], next.id, none⟩
  | past {next : Node} : node.isCondition = true → node.onFalse = [] → next.isLeave = false →
      Arises settings node (some next) ⟨[node.id], next.id, settings.falseLabel⟩

section Arises

variable {settings : Settings} {next : Option Node} {nodes : List Node} {edge : Edge}

theorem mem_passage_iff {sources : List NodeId} {target : Option Node} {label : Option String} :
    edge ∈ passage sources (target.bind linkable?) label ↔
      sources ≠ [] ∧
        ∃ node, target = some node ∧ node.isLeave = false ∧ edge = ⟨sources, node.id, label⟩ := by
  cases target with
  | none => simp [passage]
  | some node =>
    by_cases leaves : node.isLeave = true
    · simp [passage, linkable?, leaves]
    · by_cases empty : sources = []
      · simp [passage, linkable?, leaves, empty]
      · simp [passage, linkable?, leaves, empty]

theorem passage_nil (target : Option NodeId) (label : Option String) :
    passage [] target label = [] := by
  cases target <;> rfl

theorem passage_none (sources : List NodeId) (label : Option String) :
    passage sources none label = [] := rfl

theorem arises_leave {id : NodeId} : ¬ Arises settings (.leave id) next edge := by
  intro h
  cases h with
  | onward nonempty => exact nonempty rfl
  | whenTrue first => cases first
  | whenFalse first => cases first
  | merge _ last => cases last
  | past condition => cases condition

theorem arises_expression {id : NodeId} {text : String} {shape : Shape} :
    Arises settings (.expression id text shape) next edge ↔
      edge ∈ passage [id] (next.bind linkable?) := by
  rw [mem_passage_iff]
  constructor
  · intro h
    cases h with
    | onward nonempty stays => exact ⟨by simp, _, rfl, stays, rfl⟩
    | whenTrue first => cases first
    | whenFalse first => cases first
    | merge _ last => cases last
    | past condition => cases condition
  · rintro ⟨nonempty, node, rfl, stays, rfl⟩
    exact .onward nonempty stays

theorem mem_passage_last_iff {last? : Option Node} :
    edge ∈ passage (last?.bind linkable?).toList (next.bind linkable?) ↔
      ∃ last node, last? = some last ∧ last.isLeave = false ∧ next = some node ∧
        node.isLeave = false ∧ edge = ⟨[last.id], node.id, none⟩ := by
  rw [mem_passage_iff]
  cases last? with
  | none => simp
  | some last =>
    by_cases leaves : last.isLeave = true
    · simp [linkable?, leaves]
    · simp [linkable?, leaves]

theorem arises_condition {id thenId elseId : NodeId} {text : String}
    {thenNodes elseNodes : List Node} :
    Arises settings (.condition id text thenId thenNodes elseId elseNodes) next edge ↔
      edge ∈ passage [id] (thenNodes.head?.bind linkable?) settings.trueLabel ∨
      edge ∈ passage [id] (elseNodes.head?.bind linkable?) settings.falseLabel ∨
      (elseNodes = [] ∧
        (edge ∈ passage (thenNodes.getLast?.bind linkable?).toList (next.bind linkable?) ∨
          edge ∈ passage [id] (next.bind linkable?) settings.falseLabel)) ∨
      edge ∈ passage (blockExits thenNodes ++ blockExits elseNodes) (next.bind linkable?) := by
  rw [mem_passage_last_iff]
  simp only [mem_passage_iff]
  constructor
  · intro h
    cases h with
    | onward nonempty stays => exact .inr (.inr (.inr ⟨nonempty, _, rfl, stays, rfl⟩))
    | whenTrue found stays => exact .inl ⟨by simp, _, found, stays, rfl⟩
    | whenFalse found stays => exact .inr (.inl ⟨by simp, _, found, stays, rfl⟩)
    | merge noElse found stays onward =>
      exact .inr (.inr (.inl ⟨noElse, .inl ⟨_, _, found, stays, rfl, onward, rfl⟩⟩))
    | past _ noElse stays => exact .inr (.inr (.inl ⟨noElse, .inr ⟨by simp, _, rfl, stays, rfl⟩⟩))
  · rintro (⟨_, first, found, stays, rfl⟩ | ⟨_, first, found, stays, rfl⟩ |
      ⟨noElse, ⟨last, node, found, stays, rfl, onward, rfl⟩ | ⟨_, node, rfl, stays, rfl⟩⟩ |
      ⟨nonempty, node, rfl, stays, rfl⟩)
    · exact .whenTrue found stays
    · exact .whenFalse found stays
    · exact .merge noElse found stays onward
    · exact .past rfl noElse stays
    · exact .onward nonempty stays

theorem mem_blockEdges_cons {node : Node} :
    edge ∈ blockEdges settings [] (node :: nodes) ↔
      edge ∈ node.innerEdges settings (nodes.head?.bind linkable?) ∨
      edge ∈ passage node.exits (nodes.head?.bind linkable?) ∨
      edge ∈ blockEdges settings [] nodes := by
  rw [blockEdges, passage_nil, blockEdges_eq settings node.exits nodes]
  simp

theorem exists_placed_cons {first : Node} {p : Node → Option Node → Prop} :
    (∃ node next, Placed (first :: nodes) node next ∧ p node next) ↔
      p first nodes.head? ∨ (∃ node next, Placed first.onTrue node next ∧ p node next) ∨
        (∃ node next, Placed first.onFalse node next ∧ p node next) ∨
        ∃ node next, Placed nodes node next ∧ p node next := by
  constructor
  · rintro ⟨node, next, placed, h⟩
    cases placed with
    | here => exact .inl h
    | inTrue placed => exact .inr (.inl ⟨node, next, placed, h⟩)
    | inFalse placed => exact .inr (.inr (.inl ⟨node, next, placed, h⟩))
    | later placed => exact .inr (.inr (.inr ⟨node, next, placed, h⟩))
  · rintro (h | ⟨node, next, placed, h⟩ | ⟨node, next, placed, h⟩ | ⟨node, next, placed, h⟩)
    · exact ⟨first, nodes.head?, .here, h⟩
    · exact ⟨node, next, .inTrue placed, h⟩
    · exact ⟨node, next, .inFalse placed, h⟩
    · exact ⟨node, next, .later placed, h⟩

theorem not_placed_nil {node : Node} : ¬ Placed [] node next := by
  intro placed
  cases placed

theorem mem_blockEdges_iff :
    edge ∈ blockEdges settings [] nodes ↔
      ∃ node next, Placed nodes node next ∧ Arises settings node next edge := by
  induction nodes using blockInduction with
  | nil => simp [blockEdges, not_placed_nil]
  | expression id text shape nodes ih =>
    rw [mem_blockEdges_cons, exists_placed_cons, ← ih, arises_expression]
    simp [innerEdges, exits, onTrue, onFalse, not_placed_nil]
  | condition id text thenId thenNodes elseId elseNodes nodes ihThen ihElse ih =>
    rw [mem_blockEdges_cons, exists_placed_cons, ← ih, arises_condition]
    simp only [onTrue, onFalse, ← ihThen, ← ihElse, innerEdges, exits, List.mem_append]
    cases elseNodes with
    | nil =>
      simp only [List.isEmpty_nil, if_true, List.mem_append, List.head?_nil, Option.bind_none,
        passage_none, blockEdges, List.not_mem_nil, true_and, false_or]
      grind
    | cons first elseNodes =>
      simp only [List.isEmpty_cons, Bool.false_eq_true, if_false, List.mem_append, reduceCtorEq,
        false_and, false_or]
      grind
  | leave id nodes ih =>
    rw [mem_blockEdges_cons, exists_placed_cons, ← ih]
    simp [innerEdges, exits, onTrue, onFalse, passage_nil, arises_leave, not_placed_nil]

end Arises

theorem consInduction {motive : List Node → Prop} (nil : motive [])
    (cons : ∀ node nodes, motive node.onTrue → motive node.onFalse → motive nodes →
      motive (node :: nodes)) (nodes : List Node) : motive nodes := by
  induction nodes using blockInduction with
  | nil => exact nil
  | expression id text shape nodes ih => exact cons _ nodes nil nil ih
  | condition id text thenId thenNodes elseId elseNodes nodes ihThen ihElse ih =>
    exact cons _ nodes ihThen ihElse ih
  | leave id nodes ih => exact cons _ nodes nil nil ih

theorem branchInduction {motive : Node → Prop}
    (step : ∀ node, (∀ inner ∈ node.onTrue ++ node.onFalse, motive inner) → motive node)
    (node : Node) : motive node := by
  have blocks (nodes : List Node) : ∀ node ∈ nodes, motive node := by
    induction nodes using consInduction with
    | nil => simp
    | cons node nodes ihTrue ihFalse ih =>
      exact List.forall_mem_cons.2 ⟨step node (List.forall_mem_append.2 ⟨ihTrue, ihFalse⟩), ih⟩
  exact blocks [node] node (by simp)

section Placed

variable {node first last : Node} {next next' : Option Node} {nodes : List Node}

theorem Placed.trans {inner : Node} (h : Placed nodes node next)
    (h' : Placed node.onTrue inner next' ∨ Placed node.onFalse inner next') :
    Placed nodes inner next' := by
  induction h with
  | here =>
    rcases h' with h' | h'
    · exact .inTrue h'
    · exact .inFalse h'
  | inTrue _ ih => exact .inTrue (ih h')
  | inFalse _ ih => exact .inFalse (ih h')
  | later _ ih => exact .later (ih h')

theorem exists_placed (h : node ∈ nodes) : ∃ next, Placed nodes node next := by
  induction nodes with
  | nil => cases h
  | cons first nodes ih =>
    rcases List.mem_cons.1 h with rfl | h
    · exact ⟨_, .here⟩
    · obtain ⟨next, placed⟩ := ih h
      exact ⟨next, .later placed⟩

theorem Placed.exists_inner {inner : Node} (h : Placed nodes node next)
    (member : inner ∈ node.onTrue ++ node.onFalse) : ∃ next', Placed nodes inner next' := by
  rcases List.mem_append.1 member with member | member
  · obtain ⟨next', placed⟩ := exists_placed member
    exact ⟨next', h.trans (.inl placed)⟩
  · obtain ⟨next', placed⟩ := exists_placed member
    exact ⟨next', h.trans (.inr placed)⟩

theorem Placed.behind (h : Placed nodes node (some first)) : ∃ next, Placed nodes first next := by
  generalize same : some first = next at h
  induction h with
  | @here node nodes =>
    obtain ⟨next, placed⟩ := exists_placed (List.mem_of_mem_head? same.symm)
    exact ⟨next, .later placed⟩
  | inTrue _ ih =>
    obtain ⟨next, placed⟩ := ih same
    exact ⟨next, .inTrue placed⟩
  | inFalse _ ih =>
    obtain ⟨next, placed⟩ := ih same
    exact ⟨next, .inFalse placed⟩
  | later _ ih =>
    obtain ⟨next, placed⟩ := ih same
    exact ⟨next, .later placed⟩

end Placed

end Node

theorem Program.mem_edges_iff {p : Program} {settings : Settings} {edge : Edge} :
    edge ∈ p.edges settings ↔
      ∃ node next, Node.Placed p.nodes node next ∧ Node.Arises settings node next edge :=
  Node.mem_blockEdges_iff

end Flowchart
