import Flowchart.Proofs.Departures

/-! Which boxes links lead to. Control takes one statement after the other, and a condition puts one of
its branches before what is left. Wherever control can come, a link leads there, with one exception:
the box behind a condition that has an else-branch and that no box of its branches goes on from. -/
namespace Flowchart

namespace Node

/-- One step of control, seen from what is left to do. A node that leaves the program takes none. -/
inductive Moves : List Node → List Node → Prop where
  | next {id : NodeId} {text : String} {shape : Shape} {nodes : List Node} :
      Moves (.expression id text shape :: nodes) nodes
  | whenTrue {id thenId elseId : NodeId} {text : String} {thenNodes elseNodes nodes : List Node} :
      Moves (.condition id text thenId thenNodes elseId elseNodes :: nodes) (thenNodes ++ nodes)
  | whenFalse {id thenId elseId : NodeId} {text : String} {thenNodes elseNodes nodes : List Node} :
      Moves (.condition id text thenId thenNodes elseId elseNodes :: nodes) (elseNodes ++ nodes)

/-- The node is behind a condition that has an else-branch, and control is not drawn to leave either
branch at its end. -/
def Detached (nodes : List Node) (node : Node) : Prop :=
  ∃ before, Placed nodes before (some node) ∧ before.onFalse ≠ [] ∧ before.exits = []

def Arrives (settings : Settings) (nodes : List Node) (node : Node) : Prop :=
  node.isLeave = false →
    (∃ edge ∈ blockEdges settings [] nodes, edge.target = node.id) ∨ Detached nodes node

/-- What is left to do is made of nodes of the block, and passages lead from each to the next. -/
structure Led (settings : Settings) (nodes ahead : List Node) : Prop where
  exists_placed : ∀ node ∈ ahead, ∃ next, Placed nodes node next
  chain : ahead.IsChain fun before node => before.isLeave = false → Arrives settings nodes node

variable {settings : Settings} {node node' before : Node} {next next' : Option Node}
  {nodes ahead ahead' : List Node} {edge : Edge}

theorem Moves.exists_branch (h : Moves ahead ahead') :
    ∃ node nodes branch, ahead = node :: nodes ∧ node.isLeave = false ∧
      (branch = node.onTrue ∨ branch = node.onFalse) ∧ ahead' = branch ++ nodes := by
  cases h with
  | next => exact ⟨_, _, [], rfl, rfl, .inl rfl, rfl⟩
  | whenTrue => exact ⟨_, _, _, rfl, rfl, .inl rfl, rfl⟩
  | whenFalse => exact ⟨_, _, _, rfl, rfl, .inr rfl, rfl⟩

theorem isChain_placed (nodes : List Node) :
    nodes.IsChain fun before node => Placed nodes before (some node) := by
  induction nodes with
  | nil => exact .nil
  | cons first nodes ih =>
    refine List.isChain_cons.2 ⟨?_, ih.imp fun _ _ => .later⟩
    intro node head
    have placed : Placed (first :: nodes) first nodes.head? := .here
    rwa [head] at placed

theorem Arises.arrives (h : Arises settings before next edge) (placed : Placed nodes before next)
    (same : edge.target = node.id) : Arrives settings nodes node :=
  fun _ => .inl ⟨edge, mem_blockEdges_iff.2 ⟨before, next, placed, h⟩, same⟩

theorem Placed.arrives_behind (h : Placed nodes before (some node)) (stays : before.isLeave = false) :
    Arrives settings nodes node := by
  intro onward
  by_cases left : before.exits = []
  · by_cases noElse : before.onFalse = []
    · have condition : before.isCondition = true := by
        cases before with
        | condition => rfl
        | expression => cases left
        | leave => cases stays
      exact Arises.arrives (.past condition noElse onward) h rfl onward
    · exact .inr ⟨before, h, noElse, left⟩
  · exact Arises.arrives (.onward left onward) h rfl onward

theorem Placed.arrives_branch (h : Placed nodes before next) {branch : List Node}
    (of : branch = before.onTrue ∨ branch = before.onFalse) (first : branch.head? = some node) :
    Arrives settings nodes node := by
  intro onward
  rcases of with rfl | rfl
  · exact Arises.arrives (.whenTrue first onward) h rfl onward
  · exact Arises.arrives (.whenFalse first onward) h rfl onward

theorem led_self (nodes : List Node) : Led settings nodes nodes where
  exists_placed _ member := Node.exists_placed member
  chain := (isChain_placed nodes).imp fun _ _ placed stays => placed.arrives_behind stays

theorem Led.move (h : Led settings nodes ahead) (move : Moves ahead ahead') :
    Led settings nodes ahead' ∧ ∀ node ∈ ahead'.head?, Arrives settings nodes node := by
  obtain ⟨node, rest, branch, rfl, stays, of, rfl⟩ := move.exists_branch
  obtain ⟨next, placed⟩ := h.exists_placed node (by simp)
  obtain ⟨behind, chain⟩ := List.isChain_cons.1 h.chain
  have inner : ∀ {inner next'}, Placed branch inner next' → Placed nodes inner next' := by
    intro inner next' placed'
    rcases of with rfl | rfl
    · exact placed.trans (.inl placed')
    · exact placed.trans (.inr placed')
  refine ⟨⟨?_, List.isChain_append.2 ⟨?_, chain, ?_⟩⟩, ?_⟩
  · intro node' member
    rcases List.mem_append.1 member with member | member
    · obtain ⟨next', placed'⟩ := Node.exists_placed member
      exact ⟨next', inner placed'⟩
    · exact h.exists_placed node' (by simp [member])
  · exact (isChain_placed branch).imp fun _ _ placed' => (inner placed').arrives_behind
  · exact fun _ _ node' first _ => behind node' first stays
  · intro node' first
    rw [List.head?_append] at first
    cases entered : branch.head? with
    | none => exact behind node' (by simpa [entered] using first) stays
    | some head =>
      have same : head = node' := by simpa [entered] using first
      exact placed.arrives_branch of (same ▸ entered)

/-- The numbers of the nodes to which control can go on from a place. -/
def entries (place : Node × Option Node) : List NodeId :=
  (place.2.toList ++ (place.1.onTrue.head?.toList ++ place.1.onFalse.head?.toList)).map Node.id

theorem entries_perm (nodes : List Node) :
    (nodes.head?.toList.map Node.id ++ (places nodes).flatMap entries).Perm
      ((places nodes).map (·.1.id)) := by
  rw [List.perm_iff_count]
  intro id
  induction nodes using consInduction with
  | nil => simp [places]
  | cons node nodes ihTrue ihFalse ih =>
    simp only [List.count_append] at ihTrue ihFalse ih
    simp only [places_cons, entries, List.head?_cons, Option.toList_some, List.map_cons,
      List.map_nil, List.flatMap_cons, List.flatMap_append, List.map_append, List.count_append,
      List.count_cons, List.count_nil, ← ihTrue, ← ihFalse, ← ih]
    omega

theorem nodup_entries (distinct : (idsAll nodes).Nodup) :
    ((places nodes).flatMap entries).Nodup := by
  have once := distinct.sublist (map_id_places_sublist nodes)
  exact ((entries_perm nodes).nodup_iff.2 once).sublist (List.sublist_append_right _ _)

theorem Placed.eq_of_mem_flatMap {f : Node × Option Node → List NodeId}
    (once : ((places nodes).flatMap f).Nodup) (h : Placed nodes node next)
    (h' : Placed nodes node' next') {id : NodeId} (member : id ∈ f (node, next))
    (member' : id ∈ f (node', next')) : (node, next) = (node', next') := by
  obtain ⟨-, disjoint⟩ := List.nodup_flatMap.1 once
  have symmetric : Std.Symm (Function.onFun List.Disjoint f) := ⟨fun _ _ => List.disjoint_symm⟩
  by_contra other
  exact disjoint.forall h.mem_places h'.mem_places other member member'

theorem Placed.eq_of_mem_entries (distinct : (idsAll nodes).Nodup) (h : Placed nodes node next)
    (h' : Placed nodes node' next') {id : NodeId} (entered : id ∈ entries (node, next))
    (entered' : id ∈ entries (node', next')) : (node, next) = (node', next') :=
  h.eq_of_mem_flatMap (nodup_entries distinct) h' entered entered'

theorem Arises.target_mem_entries (h : Arises settings node next edge) :
    edge.target ∈ entries (node, next) := by
  cases h with
  | onward | merge | past => simp [entries]
  | whenTrue found => simp [entries, found]
  | whenFalse found => simp [entries, found]

theorem Detached.target_ne (h : Detached nodes node) (distinct : (idsAll nodes).Nodup)
    (drawn : edge ∈ blockEdges settings [] nodes) : edge.target ≠ node.id := by
  intro same
  obtain ⟨before, placed, hasElse, left⟩ := h
  obtain ⟨outer, next, placed', arises⟩ := mem_blockEdges_iff.1 drawn
  have entered : node.id ∈ entries (before, some node) := by simp [entries]
  have shared : (outer, next) = (before, some node) :=
    placed'.eq_of_mem_entries distinct placed (same ▸ arises.target_mem_entries) entered
  cases shared
  have once := (List.nodup_flatMap.1 (nodup_entries distinct)).1 _ placed.mem_places
  have apart : node.id ∉ (before.onTrue.head?.toList ++ before.onFalse.head?.toList).map Node.id :=
    (List.nodup_cons.1 once).1
  cases arises with
  | onward exits => exact exits left
  | whenTrue found => exact apart (by rw [← same]; simp [found])
  | whenFalse found => exact apart (by rw [← same]; simp [found])
  | merge noElse => exact hasElse noElse
  | past _ noElse => exact hasElse noElse

end Node

namespace Program

/-- Control can come to where only this is left to do. -/
def Reaches (p : Program) (ahead : List Node) : Prop := Relation.ReflTransGen Node.Moves p.nodes ahead

variable {p : Program} {settings : Settings} {source : String} {node : Node} {rest ahead : List Node}

theorem Reaches.led (h : p.Reaches ahead) :
    Node.Led settings p.nodes ahead ∧
      (ahead = p.nodes ∨ ∀ node ∈ ahead.head?, Node.Arrives settings p.nodes node) := by
  induction h with
  | refl => exact ⟨Node.led_self _, .inl rfl⟩
  | tail _ move ih =>
    have moved := ih.1.move move
    exact ⟨moved.1, .inr moved.2⟩

theorem exists_records_iff {id : NodeId} :
    (∃ flow, (p.links settings).Records flow ∧ flow.target = id) ↔
      ∃ edge ∈ p.edges settings, edge.target = id := by
  simp only [records_links_iff, flows, List.mem_flatMap]
  constructor
  · rintro ⟨flow, ⟨edge, drawn, member⟩, rfl⟩
    exact ⟨edge, drawn, (Edge.mem_flows.1 member).2.2⟩
  · rintro ⟨edge, drawn, rfl⟩
    obtain ⟨source, member⟩ :=
      List.exists_mem_of_ne_nil _ (Node.sources_ne_nil_of_mem_blockEdges drawn)
    exact ⟨⟨source, edge.label, edge.target⟩, ⟨edge, drawn, Edge.mem_flows.2 ⟨member, rfl, rfl⟩⟩, rfl⟩

/-- Where control can come, a link leads there, apart from what is detached. To that no link leads. -/
theorem records_or_detached (h : ofSource settings source = .ok p)
    (reached : p.Reaches (node :: rest)) (later : node :: rest ≠ p.nodes)
    (stays : node.isLeave = false) :
    ((∃ flow, (p.links settings).Records flow ∧ flow.target = node.id) ∨
      Node.Detached p.nodes node) ∧
    (source.length < UInt32.size - 1 → Node.Detached p.nodes node →
      ¬ ∃ flow, (p.links settings).Records flow ∧ flow.target = node.id) := by
  rw [exists_records_iff]
  constructor
  · exact reached.led.2.resolve_left later node rfl stays
  · rintro short detached ⟨edge, drawn, same⟩
    exact detached.target_ne (nodup_idsAll short h) drawn same

def skipped : Program where
  direction := .topDown
  nodes :=
    [.condition 1 "a" 2 [] 3 [.leave 4], .expression 5 "b" .square, .expression 6 "c" .square]

def skippedText : String := "if (a) \x7b \x7d else \x7b return; \x7d b; c;"

theorem ofSource_skippedText : ofSource {} skippedText = .ok skipped := by
  cbv

theorem edges_skipped : skipped.edges {} = [⟨[5], 6, none⟩] := by
  cbv

theorem reaches_skipped :
    skipped.Reaches [.expression 5 "b" .square, .expression 6 "c" .square] :=
  .single .whenTrue

theorem records_or_detached_skipped :
    ofSource {} skippedText = .ok skipped ∧ skippedText.length < UInt32.size - 1 ∧
    skipped.Reaches [.expression 5 "b" .square, .expression 6 "c" .square] ∧
    skipped.Reaches [.expression 6 "c" .square] ∧
    (¬ ∃ flow, (skipped.links {}).Records flow ∧ flow.target = 5) ∧
    ∃ flow, (skipped.links {}).Records flow ∧ flow.target = 6 := by
  have short : skippedText.length < UInt32.size - 1 := by decide
  have reached : skipped.Reaches [.expression 6 "c" .square] := reaches_skipped.tail .next
  have detached : Node.Detached skipped.nodes (.expression 5 "b" .square) :=
    ⟨_, .here, by simp [Node.onFalse], rfl⟩
  have attached : ¬ Node.Detached skipped.nodes (.expression 6 "c" .square) := by
    rintro ⟨before, placed, hasElse, -⟩
    have place := placed.mem_places
    simp [skipped, Node.places, Node.innerPlaces] at place
    exact hasElse (place ▸ rfl)
  have behind := records_or_detached ofSource_skippedText reaches_skipped (by simp [skipped]) rfl
  have onward := records_or_detached ofSource_skippedText reached (by simp [skipped]) rfl
  exact ⟨ofSource_skippedText, short, reaches_skipped, reached, behind.2 short detached,
    onward.1.resolve_right attached⟩

/-- Control can come to a box to which no link leads. -/
theorem exists_reached_without_link :
    ¬ ∀ (settings : Settings) (source : String) (p : Program) (node : Node) (rest : List Node),
        ofSource settings source = .ok p → p.Reaches (node :: rest) → node :: rest ≠ p.nodes →
        node.isLeave = false →
        ∃ flow, (p.links settings).Records flow ∧ flow.target = node.id := by
  intro allLinked
  have linked := allLinked {} skippedText skipped _ _ ofSource_skippedText reaches_skipped
    (by simp [skipped]) rfl
  rw [exists_records_iff, edges_skipped] at linked
  simp [Node.id] at linked

end Program

end Flowchart
