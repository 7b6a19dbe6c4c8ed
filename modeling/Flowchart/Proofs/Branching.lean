import Flowchart.Proofs.Appearance

/-! How links branch. Control goes on from a node where something is behind it, and with it from every
node that ends it: from the last nodes of its branches, from the last ones of theirs, and so on. A node
ends only one node that has something behind it, so that all links without a label that start at a box
lead to the same box. Links with a label start at conditions, one for each outcome. -/
namespace Flowchart

namespace Node

mutual
/-- The nodes that end a node: the node itself, and those that end one of its branches. -/
def tails : Node → List NodeId
  | expression id _ _ => [id]
  | condition id _ _ thenNodes _ elseNodes => id :: (blockTails thenNodes ++ blockTails elseNodes)
  | leave id => [id]

def blockTails : List Node → List NodeId
  | [] => []
  | [node] => node.tails
  | _ :: node :: nodes => blockTails (node :: nodes)
end

def followedTails (place : Node × Option Node) : List NodeId :=
  if place.2.isSome then place.1.tails else []

def ifTrue (node : Node) : Option NodeId := node.onTrue.head?.bind linkable?

/-- Where a condition goes that does not hold: without an else-branch to what is behind it. -/
def ifFalse (node : Node) (next : Option Node) : Option NodeId :=
  (node.onFalse.head?.or next).bind linkable?

variable {settings : Settings} {node node' behind behind' : Node} {next next' : Option Node}
  {nodes : List Node} {edge edge' : Edge} {id target : NodeId} {flow : Flow}

theorem tails_eq (node : Node) :
    node.tails = node.id :: (blockTails node.onTrue ++ blockTails node.onFalse) := by
  cases node <;> simp [tails, blockTails, Node.id, onTrue, onFalse]

theorem blockTails_concat (front : List Node) (last : Node) :
    blockTails (front ++ [last]) = last.tails := by
  induction front with
  | nil => rfl
  | cons node front ih =>
    cases front with
    | nil => rfl
    | cons node' front => rwa [List.cons_append, List.cons_append, blockTails]

theorem followedTails_append (node : Node) (nodes : List Node) :
    followedTails (node, nodes.head?) ++ blockTails (node :: nodes) =
      node.tails ++ blockTails nodes := by
  cases nodes <;> simp [followedTails, blockTails]

theorem followedTails_perm (nodes : List Node) :
    ((places nodes).flatMap followedTails ++ blockTails nodes).Perm
      ((places nodes).map (·.1.id)) := by
  rw [List.perm_iff_count]
  intro id
  induction nodes using consInduction with
  | nil => simp [places, blockTails]
  | cons node nodes ihTrue ihFalse ih =>
    have seam := congrArg (List.count id) (followedTails_append node nodes)
    simp only [tails_eq, List.count_append, List.count_cons] at ihTrue ihFalse ih seam
    simp only [places_cons, List.flatMap_cons, List.flatMap_append, List.map_cons, List.map_append,
      List.count_append, List.count_cons]
    omega

theorem nodup_followedTails (distinct : (idsAll nodes).Nodup) :
    ((places nodes).flatMap followedTails).Nodup := by
  have once := distinct.sublist (map_id_places_sublist nodes)
  exact ((followedTails_perm nodes).nodup_iff.2 once).sublist (List.sublist_append_left _ _)

theorem Placed.eq_of_mem_tails (distinct : (idsAll nodes).Nodup)
    (h : Placed nodes node (some behind)) (h' : Placed nodes node' (some behind'))
    (ends : id ∈ node.tails) (ends' : id ∈ node'.tails) : node = node' ∧ behind = behind' := by
  have same := h.eq_of_mem_flatMap (nodup_followedTails distinct) h' ends ends'
  simpa using same

theorem exits_subset_tails (node : Node) : node.exits ⊆ node.tails := by
  have blocks : ∀ branch : List Node, (∀ inner ∈ branch, inner.exits ⊆ inner.tails) →
      blockExits branch ⊆ blockTails branch := by
    intro branch inside
    rcases List.eq_nil_or_concat' branch with rfl | ⟨front, last, rfl⟩
    · simp [blockExits]
    · rw [blockExits_concat, blockTails_concat]
      exact inside last (by simp)
  induction node using branchInduction with
  | step node ih =>
    obtain ⟨ihTrue, ihFalse⟩ := List.forall_mem_append.1 ih
    cases node with
    | expression => simp [exits, tails]
    | leave => simp [exits]
    | condition =>
      refine List.append_subset.2 ⟨fun id left => ?_, fun id left => ?_⟩
      · exact List.mem_cons_of_mem _ (List.mem_append_left _ (blocks _ ihTrue left))
      · exact List.mem_cons_of_mem _ (List.mem_append_right _ (blocks _ ihFalse left))

theorem id_mem_tails (node : Node) : node.id ∈ node.tails := by
  simp [tails_eq]

theorem tails_subset_of_getLast? {last : Node} (h : node.onTrue.getLast? = some last) :
    last.tails ⊆ node.tails := by
  obtain ⟨front, split⟩ := List.getLast?_eq_some_iff.1 h
  rw [tails_eq node, split, blockTails_concat]
  exact List.Subset.trans (List.subset_append_left _ _) (List.subset_cons_self _ _)

theorem Arises.sources_subset_tails (h : Arises settings node next edge)
    (unlabelled : edge.label = none) :
    ∃ behind, next = some behind ∧ edge.target = behind.id ∧ edge.sources ⊆ node.tails := by
  cases h with
  | @onward behind => exact ⟨behind, rfl, rfl, exits_subset_tails node⟩
  | @merge last behind _ found =>
    refine ⟨behind, rfl, rfl, List.cons_subset.2 ⟨?_, List.nil_subset _⟩⟩
    exact tails_subset_of_getLast? found (id_mem_tails last)
  | whenTrue | whenFalse | past => cases unlabelled

theorem Arises.sources_eq_of_label (h : Arises settings node next edge)
    (labelled : edge.label ≠ none) : node.isCondition = true ∧ edge.sources = [node.id] := by
  cases h with
  | onward | merge => exact absurd rfl labelled
  | past condition => exact ⟨condition, rfl⟩
  | whenTrue found | whenFalse found =>
    cases node with
    | condition => exact ⟨rfl, rfl⟩
    | expression | leave => cases found

theorem Placed.exits_eq_of_last {last : Node} (distinct : (idsAll nodes).Nodup)
    (h : Placed nodes node next) (noElse : node.onFalse = [])
    (found : node.onTrue.getLast? = some last) (left : last.id ∈ node.exits) :
    node.exits = [last.id] := by
  have through : node.exits = last.exits := by
    cases node with
    | condition id text thenId thenNodes elseId elseNodes =>
      obtain ⟨front, rfl⟩ := List.getLast?_eq_some_iff.1 found
      have empty : elseNodes = [] := noElse
      rw [exits, blockExits_concat, empty, blockExits, List.append_nil]
    | expression | leave => cases found
  rw [through] at left ⊢
  obtain ⟨_, placed⟩ := h.exists_inner (List.mem_append_left _ (List.mem_of_getLast? found))
  obtain ⟨box, _, placedBox, same, -, plain⟩ := placed.exists_exit left
  obtain ⟨rfl, -⟩ := placedBox.eq_of_id distinct placed same
  cases box with
  | expression => rfl
  | condition => cases plain
  | leave => cases left

theorem Arises.sources_eq (h : Arises settings node next edge)
    (h' : Arises settings node next edge') (distinct : (idsAll nodes).Nodup)
    (placed : Placed nodes node next) (unlabelled : edge.label = none)
    (unlabelled' : edge'.label = none) (starts : id ∈ edge.sources) (starts' : id ∈ edge'.sources) :
    edge.sources = edge'.sources := by
  cases h with
  | onward =>
    cases h' with
    | onward => rfl
    | merge noElse found =>
      cases List.mem_singleton.1 starts'
      exact placed.exits_eq_of_last distinct noElse found starts
    | whenTrue | whenFalse | past => cases unlabelled'
  | merge noElse found =>
    cases h' with
    | onward =>
      cases List.mem_singleton.1 starts
      exact (placed.exits_eq_of_last distinct noElse found starts').symm
    | merge _ found' => rw [Option.some.inj (found.symm.trans found')]
    | whenTrue | whenFalse | past => cases unlabelled'
  | whenTrue | whenFalse | past => cases unlabelled

theorem eq_of_mem_flows (distinct : (idsAll nodes).Nodup)
    (h : edge ∈ blockEdges settings [] nodes) (h' : edge' ∈ blockEdges settings [] nodes)
    (member : flow ∈ edge.flows) (member' : flow ∈ edge'.flows) : edge = edge' := by
  obtain ⟨node, next, placed, arises⟩ := mem_blockEdges_iff.1 h
  obtain ⟨node', next', placed', arises'⟩ := mem_blockEdges_iff.1 h'
  obtain ⟨starts, label, target⟩ := Edge.mem_flows.1 member
  obtain ⟨starts', label', target'⟩ := Edge.mem_flows.1 member'
  have targets : edge.target = edge'.target := target.trans target'.symm
  have place : (node, next) = (node', next') :=
    placed.eq_of_mem_entries distinct placed' arises.target_mem_entries
      (targets ▸ arises'.target_mem_entries)
  cases place
  have sources : edge.sources = edge'.sources := by
    by_cases unlabelled : flow.label = none
    · exact arises.sources_eq arises' distinct placed (label ▸ unlabelled) (label' ▸ unlabelled)
        starts starts'
    · rw [(arises.sources_eq_of_label (label ▸ unlabelled)).2,
        (arises'.sources_eq_of_label (label' ▸ unlabelled)).2]
  exact eq_of_ends_eq distinct h h' sources targets

theorem mem_flows_blockEdges_iff :
    flow ∈ flows (blockEdges settings [] nodes) ↔
      ∃ node next edge, Placed nodes node next ∧ Arises settings node next edge ∧
        flow.source ∈ edge.sources ∧ flow.label = edge.label ∧ edge.target = flow.target := by
  simp only [flows, List.mem_flatMap, mem_blockEdges_iff, Edge.mem_flows]
  constructor
  · rintro ⟨edge, ⟨node, next, placed, arises⟩, member⟩
    exact ⟨node, next, edge, placed, arises, member⟩
  · rintro ⟨node, next, edge, placed, arises, member⟩
    exact ⟨edge, ⟨node, next, placed, arises⟩, member⟩

theorem exists_onward (settings : Settings) (distinct : (idsAll nodes).Nodup) (id : NodeId) :
    ∃ onward : Option NodeId, ∀ target,
      ⟨id, none, target⟩ ∈ flows (blockEdges settings [] nodes) ↔ target ∈ onward := by
  have unique : ∀ target target', ⟨id, none, target⟩ ∈ flows (blockEdges settings [] nodes) →
      ⟨id, none, target'⟩ ∈ flows (blockEdges settings [] nodes) → target = target' := by
    intro target target' h h'
    obtain ⟨node, next, edge, placed, arises, starts, label, rfl⟩ := mem_flows_blockEdges_iff.1 h
    obtain ⟨node', next', edge', placed', arises', starts', label', rfl⟩ :=
      mem_flows_blockEdges_iff.1 h'
    obtain ⟨behind, rfl, target, tails⟩ := arises.sources_subset_tails label.symm
    obtain ⟨behind', rfl, target', tails'⟩ := arises'.sources_subset_tails label'.symm
    obtain ⟨-, rfl⟩ := placed.eq_of_mem_tails distinct placed' (tails starts) (tails' starts')
    rw [target, target']
  by_cases goesOn : ∃ target, ⟨id, none, target⟩ ∈ flows (blockEdges settings [] nodes)
  · obtain ⟨target, member⟩ := goesOn
    refine ⟨target, fun target' => ⟨fun member' => ?_, fun same => ?_⟩⟩
    · exact congrArg Option.some (unique target target' member member')
    · rwa [← Option.some.inj same]
  · exact ⟨none, fun target => ⟨fun member => absurd ⟨target, member⟩ goesOn, nofun⟩⟩

theorem Placed.labelled_iff (distinct : (idsAll nodes).Nodup) (h : Placed nodes node next)
    {label : String} :
    ⟨node.id, some label, target⟩ ∈ flows (blockEdges settings [] nodes) ↔
      node.isCondition = true ∧
        (label = settings.trueLabel ∧ target ∈ node.ifTrue ∨
          label = settings.falseLabel ∧ target ∈ node.ifFalse next) := by
  simp only [mem_flows_blockEdges_iff, ifTrue, ifFalse, Option.mem_def, bind_linkable?_eq_some_iff]
  constructor
  · rintro ⟨node', next', edge, placed', arises, starts, labelled, rfl⟩
    obtain ⟨condition, sources⟩ := arises.sources_eq_of_label (labelled ▸ Option.some_ne_none label)
    rw [sources, List.mem_singleton] at starts
    obtain ⟨rfl, rfl⟩ := h.eq_of_id distinct placed' starts
    refine ⟨condition, ?_⟩
    cases arises with
    | onward | merge => cases labelled
    | whenTrue found stays => exact .inl ⟨Option.some.inj labelled, _, found, stays, rfl⟩
    | whenFalse found stays =>
      exact .inr ⟨Option.some.inj labelled, _, by simp [found], stays, rfl⟩
    | past _ noElse stays => exact .inr ⟨Option.some.inj labelled, _, by simp [noElse], stays, rfl⟩
  · rintro ⟨condition, ⟨rfl, first, found, stays, rfl⟩ | ⟨rfl, first, found, stays, rfl⟩⟩
    · exact ⟨node, next, _, h, .whenTrue found stays, by simp, rfl, rfl⟩
    · cases branch : node.onFalse with
      | nil =>
        rw [branch, List.head?_nil, Option.none_or] at found
        subst found
        exact ⟨node, _, _, h, .past condition branch stays, by simp, rfl, rfl⟩
      | cons head rest =>
        have same : node.onFalse.head? = some first := by simpa [branch] using found
        exact ⟨node, next, _, h, .whenFalse same stays, by simp, rfl, rfl⟩

theorem Placed.ifTrue_apart (distinct : (idsAll nodes).Nodup) (h : Placed nodes node next)
    (holds : target ∈ node.ifTrue) : target ∉ node.ifFalse next := by
  intro fails
  obtain ⟨first, found, -, rfl⟩ := bind_linkable?_eq_some_iff.1 holds
  obtain ⟨other, found', -, same⟩ := bind_linkable?_eq_some_iff.1 fails
  obtain ⟨behind, -, branches⟩ := h.heads_apart distinct first.id
  have onTrue : first.id ∈ node.onTrue.head?.map Node.id := Option.mem_map_of_mem Node.id found
  rcases Option.or_eq_some_iff.1 found' with onFalse | ⟨-, onward⟩
  · exact branches onTrue (same ▸ Option.mem_map_of_mem Node.id onFalse)
  · exact behind (same ▸ Option.mem_map_of_mem Node.id onward) onTrue

end Node

namespace Program

variable {p : Program} {settings : Settings} {source : String}

theorem nodup_flows_edges (increasing : p.ids.Pairwise (· < ·)) :
    (flows (p.edges settings).eraseDups).Nodup := by
  have distinct : (Node.idsAll p.nodes).Nodup :=
    (List.pairwise_cons.1 increasing).2.imp UInt32.ne_of_lt
  refine List.nodup_flatMap.2 ⟨fun edge member => ?_, ?_⟩
  · have forward := forward_of_mem_edges increasing (List.mem_eraseDups.1 member)
    have sources : edge.sources.Nodup := forward.sources_increasing.imp UInt32.ne_of_lt
    exact sources.map fun _ _ same => congrArg Flow.source same
  · refine (nodup_eraseDups (p.edges settings)).imp_of_mem fun member member' other => ?_
    intro flow here there
    exact other (Node.eq_of_mem_flows distinct (List.mem_eraseDups.1 member)
      (List.mem_eraseDups.1 member') here there)

/-- The lines of links are those of passages between which no step of control is shared. A line with a
label starts at a single condition. A box that is no condition goes on to one box at most; a condition
goes to one for each outcome, not to the same, and without a label to one more at most. -/
theorem links_branching (short : source.length < UInt32.size - 1)
    (h : ofSource settings source = .ok p) :
    ∃ edges : List Edge,
      (p.links settings).lines = edges.map (·.link.line) ∧
      (∀ edge ∈ edges, edge.sources ≠ []) ∧
      (flows edges).Nodup ∧
      (∀ edge ∈ edges, edge.label ≠ none →
        ∃ node next, Node.Placed p.nodes node next ∧ node.isCondition = true ∧
          edge.sources = [node.id]) ∧
      ∀ node next, Node.Placed p.nodes node next →
        (node.isCondition = false →
          ∃ onward : Option NodeId, ∀ label target,
            ⟨node.id, label, target⟩ ∈ flows edges ↔ label = none ∧ target ∈ onward) ∧
        (node.isCondition = true →
          (∀ target ∈ node.ifTrue, target ∉ node.ifFalse next) ∧
          ∃ onward : Option NodeId, ∀ label target,
            ⟨node.id, label, target⟩ ∈ flows edges ↔
              label = some settings.trueLabel ∧ target ∈ node.ifTrue ∨
              label = some settings.falseLabel ∧ target ∈ node.ifFalse next ∨
              label = none ∧ target ∈ onward) := by
  have increasing := ids_increasing short h
  have distinct := nodup_idsAll short h
  have drawn (flow : Flow) : flow ∈ flows (p.edges settings).eraseDups ↔
      flow ∈ flows (Node.blockEdges settings [] p.nodes) := by
    simp only [flows, List.mem_flatMap, List.mem_eraseDups, edges]
  refine ⟨(p.edges settings).eraseDups, lines_links p settings, fun edge member => ?_,
    nodup_flows_edges increasing, fun edge member labelled => ?_, fun node next placed => ?_⟩
  · exact Node.sources_ne_nil_of_mem_blockEdges (List.mem_eraseDups.1 member)
  · obtain ⟨node, next, placed, arises⟩ := mem_edges_iff.1 (List.mem_eraseDups.1 member)
    exact ⟨node, next, placed, arises.sources_eq_of_label labelled⟩
  · obtain ⟨onward, unlabelled⟩ := Node.exists_onward settings distinct node.id
    constructor
    · intro plain
      refine ⟨onward, fun label target => ?_⟩
      rw [drawn]
      cases label with
      | none => simpa using unlabelled target
      | some label => simp [placed.labelled_iff distinct, plain]
    · intro condition
      refine ⟨fun target => placed.ifTrue_apart distinct, onward, fun label target => ?_⟩
      rw [drawn]
      cases label with
      | none => simpa using unlabelled target
      | some label => simp [placed.labelled_iff distinct, condition]

theorem links_branching_twoSided :
    mergedText.length < UInt32.size - 1 ∧ ofSource barred mergedText = .ok merged ∧
    Node.Placed merged.nodes twoSided none ∧ barred.trueLabel = barred.falseLabel ∧
    ∃ edges : List Edge,
      (merged.links barred).lines = edges.map (·.link.line) ∧ (flows edges).Nodup ∧
      ∃ onward : Option NodeId, ∀ label target,
        ⟨4, label, target⟩ ∈ flows edges ↔
          label = some barred.trueLabel ∧ target = 7 ∨ label = some barred.falseLabel ∧ target = 8 ∨
          label = none ∧ target ∈ onward := by
  have short : mergedText.length < UInt32.size - 1 := by decide
  have reads : ofSource barred mergedText = .ok merged := by cbv
  obtain ⟨edges, lines, -, once, -, starts⟩ := links_branching short reads
  obtain ⟨-, onward, steps⟩ := (starts twoSided none placed_twoSided).2 rfl
  refine ⟨short, reads, placed_twoSided, rfl, edges, lines, once, onward, fun label target => ?_⟩
  have number : twoSided.id = 4 := rfl
  have holds : twoSided.ifTrue = some 7 := rfl
  have fails : twoSided.ifFalse none = some 8 := rfl
  simpa [number, holds, fails, eq_comm] using steps label target

end Program

end Flowchart
