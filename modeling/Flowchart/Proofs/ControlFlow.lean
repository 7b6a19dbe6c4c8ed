import Flowchart.Proofs.LinkLine

/-! Where control goes, and what the links show of it. Control goes from a box to what follows it,
where the last node of a branch is followed by what follows its condition, and from a condition into
its branches. The links are exactly these steps wherever every condition has a then-branch, and one
without an else-branch has something behind it and no condition at the end of its then-branch. -/
namespace Flowchart

structure Flow where
  source : NodeId
  label : Option String
  target : NodeId
deriving DecidableEq, Repr

def Edge.flows (edge : Edge) : List Flow :=
  edge.sources.map fun source => ⟨source, edge.label, edge.target⟩

theorem Edge.mem_flows {edge : Edge} {flow : Flow} :
    flow ∈ edge.flows ↔
      flow.source ∈ edge.sources ∧ flow.label = edge.label ∧ edge.target = flow.target := by
  obtain ⟨source, label, target⟩ := flow
  simp only [flows, List.mem_map, Flow.mk.injEq]
  constructor
  · rintro ⟨other, member, rfl, rfl, rfl⟩
    exact ⟨member, rfl, rfl⟩
  · rintro ⟨member, rfl, rfl⟩
    exact ⟨source, member, rfl, rfl, rfl⟩

/-- One of the lines is that of an edge with this flow. -/
def Links.Records (links : Links) (flow : Flow) : Prop :=
  ∃ edge : Edge, edge.link.line ∈ links.lines ∧ flow ∈ edge.flows

/-- The steps of control inside a block with `after` behind it, whatever its depth. None leads to a
node that leaves the program. -/
inductive Step (settings : Settings) : Option Node → List Node → Flow → Prop where
  | next {after : Option Node} {nodes : List Node} {id : NodeId} {text : String} {shape : Shape}
      {target : Node} :
      nodes.head?.or after = some target → target.isLeave = false →
      Step settings after (.expression id text shape :: nodes) ⟨id, none, target.id⟩
  | whenTrue {after : Option Node} {nodes thenNodes elseNodes : List Node}
      {id thenId elseId : NodeId} {text : String} {target : Node} :
      thenNodes.head? = some target → target.isLeave = false →
      Step settings after (.condition id text thenId thenNodes elseId elseNodes :: nodes)
        ⟨id, settings.trueLabel, target.id⟩
  /-- Past an empty else-branch control goes on behind the condition. -/
  | whenFalse {after : Option Node} {nodes thenNodes elseNodes : List Node}
      {id thenId elseId : NodeId} {text : String} {target : Node} :
      elseNodes.head?.or (nodes.head?.or after) = some target → target.isLeave = false →
      Step settings after (.condition id text thenId thenNodes elseId elseNodes :: nodes)
        ⟨id, settings.falseLabel, target.id⟩
  | inThen {after : Option Node} {nodes thenNodes elseNodes : List Node}
      {id thenId elseId : NodeId} {text : String} {flow : Flow} :
      Step settings (nodes.head?.or after) thenNodes flow →
      Step settings after (.condition id text thenId thenNodes elseId elseNodes :: nodes) flow
  | inElse {after : Option Node} {nodes thenNodes elseNodes : List Node}
      {id thenId elseId : NodeId} {text : String} {flow : Flow} :
      Step settings (nodes.head?.or after) elseNodes flow →
      Step settings after (.condition id text thenId thenNodes elseId elseNodes :: nodes) flow
  | later {after : Option Node} {node : Node} {nodes : List Node} {flow : Flow} :
      Step settings after nodes flow → Step settings after (node :: nodes) flow

def Program.Steps (p : Program) (settings : Settings) (flow : Flow) : Prop :=
  Step settings none p.nodes flow

namespace Node

def isCondition : Node → Bool
  | condition _ _ _ _ _ _ => true
  | _ => false

mutual
/-- Every condition has a then-branch, and where it has no else-branch, it is `followed` and its
then-branch does not end with a condition. -/
def clear (followed : Bool) : Node → Bool
  | expression _ _ _ => true
  | condition _ _ _ thenNodes _ elseNodes =>
    !thenNodes.isEmpty &&
    (!elseNodes.isEmpty || followed && !thenNodes.getLast?.any isCondition) &&
    clearAll false thenNodes && clearAll false elseNodes
  | leave _ => true

/-- The last node of the program itself counts as followed, that of a branch does not. -/
def clearAll (outermost : Bool) : List Node → Bool
  | [] => true
  | node :: nodes => node.clear (outermost || !nodes.isEmpty) && clearAll outermost nodes
end

theorem linkable?_eq_some_iff {node : Node} {id : NodeId} :
    node.linkable? = some id ↔ node.isLeave = false ∧ node.id = id := by
  cases node <;> simp [linkable?, isLeave]

theorem bind_linkable?_eq_some_iff {node? : Option Node} {id : NodeId} :
    node?.bind linkable? = some id ↔
      ∃ node, node? = some node ∧ node.isLeave = false ∧ node.id = id := by
  simp only [Option.bind_eq_some_iff, linkable?_eq_some_iff]

end Node

open Node

def flows (edges : List Edge) : List Flow := edges.flatMap Edge.flows

@[simp] theorem flows_nil : flows [] = [] := rfl

@[simp] theorem flows_append (edges edges' : List Edge) :
    flows (edges ++ edges') = flows edges ++ flows edges' := by
  simp [flows]

theorem mem_flows_passage {sources : List NodeId} {target : Option NodeId} {label : Option String}
    {flow : Flow} :
    flow ∈ flows (passage sources target label) ↔
      flow.source ∈ sources ∧ flow.label = label ∧ target = some flow.target := by
  cases target with
  | none => simp [passage]
  | some target =>
    by_cases empty : sources = []
    · simp [passage, empty]
    · simp [passage, empty, flows, Edge.mem_flows]

theorem mem_flows_from {id : NodeId} {node? : Option Node} {label : Option String} {flow : Flow} :
    flow ∈ flows (passage [id] (node?.bind linkable?) label) ↔
      ∃ node, node? = some node ∧ node.isLeave = false ∧ flow = ⟨id, label, node.id⟩ := by
  rw [mem_flows_passage, bind_linkable?_eq_some_iff, List.mem_singleton]
  constructor
  · rintro ⟨source, same, node, found, stays, target⟩
    exact ⟨node, found, stays, by rw [← source, ← same, target]⟩
  · rintro ⟨node, found, stays, rfl⟩
    exact ⟨rfl, rfl, node, found, stays, rfl⟩

section Steps

variable {settings : Settings} {after : Option Node} {nodes : List Node} {flow : Flow}

theorem not_step_nil : ¬ Step settings after [] flow := by
  intro h
  cases h

theorem step_leave {id : NodeId} :
    Step settings after (.leave id :: nodes) flow ↔ Step settings after nodes flow := by
  constructor
  · intro h
    cases h with
    | later h => exact h
  · exact .later

theorem step_expression {id : NodeId} {text : String} {shape : Shape} :
    Step settings after (.expression id text shape :: nodes) flow ↔
      flow ∈ flows (passage [id] ((nodes.head?.or after).bind linkable?)) ∨
      Step settings after nodes flow := by
  rw [mem_flows_from]
  constructor
  · intro h
    cases h with
    | next found stays => exact .inl ⟨_, found, stays, rfl⟩
    | later h => exact .inr h
  · rintro (⟨target, found, stays, rfl⟩ | h)
    · exact .next found stays
    · exact .later h

theorem step_condition {id thenId elseId : NodeId} {text : String}
    {thenNodes elseNodes : List Node} :
    Step settings after (.condition id text thenId thenNodes elseId elseNodes :: nodes) flow ↔
      flow ∈ flows (passage [id] (thenNodes.head?.bind linkable?) settings.trueLabel) ∨
      flow ∈ flows (passage [id] ((elseNodes.head?.or (nodes.head?.or after)).bind linkable?)
        settings.falseLabel) ∨
      Step settings (nodes.head?.or after) thenNodes flow ∨
      Step settings (nodes.head?.or after) elseNodes flow ∨
      Step settings after nodes flow := by
  rw [mem_flows_from, mem_flows_from]
  constructor
  · intro h
    cases h with
    | whenTrue found stays => exact .inl ⟨_, found, stays, rfl⟩
    | whenFalse found stays => exact .inr (.inl ⟨_, found, stays, rfl⟩)
    | inThen h => exact .inr (.inr (.inl h))
    | inElse h => exact .inr (.inr (.inr (.inl h)))
    | later h => exact .inr (.inr (.inr (.inr h)))
  · rintro (⟨target, found, stays, rfl⟩ | ⟨target, found, stays, rfl⟩ | h | h | h)
    · exact .whenTrue found stays
    · exact .whenFalse found stays
    · exact .inThen h
    · exact .inElse h
    · exact .later h

end Steps

namespace Node

theorem blockEdges_eq (settings : Settings) (sources : List NodeId) (nodes : List Node) :
    blockEdges settings sources nodes =
      passage sources (nodes.head?.bind linkable?) ++ blockEdges settings [] nodes := by
  cases nodes with
  | nil => simp [blockEdges, passage]
  | cons node nodes =>
    have noPassage : passage [] node.linkable? = [] := by cases node <;> rfl
    simp [blockEdges, noPassage]

theorem blockExits_cons_cons (node node' : Node) (nodes : List Node) :
    blockExits (node :: node' :: nodes) = blockExits (node' :: nodes) := by
  rw [blockExits]

def blockFlows (settings : Settings) (after : Option Node) (nodes : List Node) : List Flow :=
  flows (blockEdges settings [] nodes) ++ flows (passage (blockExits nodes) (after.bind linkable?))

theorem mem_blockFlows_cons {settings : Settings} {after : Option Node} {node : Node}
    {nodes : List Node} {flow : Flow} :
    flow ∈ blockFlows settings after (node :: nodes) ↔
      flow ∈ flows (node.innerEdges settings (nodes.head?.bind linkable?)) ∨
      flow ∈ flows (passage node.exits ((nodes.head?.or after).bind linkable?)) ∨
      flow ∈ blockFlows settings after nodes := by
  have into : passage [] node.linkable? = [] := by cases node <;> rfl
  rw [blockFlows, blockEdges, into, blockEdges_eq settings node.exits nodes]
  cases nodes with
  | nil => simp [blockFlows, blockEdges, blockExits, mem_flows_passage]
  | cons node' nodes => simp [blockFlows, blockExits_cons_cons]

theorem blockExits_eq_last {nodes : List Node} (h : nodes.getLast?.any isCondition = false) :
    blockExits nodes = (nodes.getLast?.bind linkable?).toList := by
  induction nodes with
  | nil => rfl
  | cons node nodes ih =>
    cases nodes with
    | nil => cases node <;> simp_all [blockExits, exits, linkable?, isCondition, isLeave, id]
    | cons node' nodes =>
      rw [List.getLast?_cons_cons] at h ⊢
      rw [blockExits_cons_cons, ih h]

end Node

theorem head?_or_of_followed {outermost : Bool} {nodes : List Node} {after : Option Node}
    (followed : (outermost || !nodes.isEmpty) = true) (last : outermost = true → after = none) :
    nodes.head?.or after = nodes.head? := by
  cases nodes with
  | nil => simp_all
  | cons node nodes => rfl

/-- Control steps inside a block and out of it exactly along its flows. -/
theorem step_iff_mem_blockFlows (settings : Settings) {nodes : List Node} {after : Option Node}
    {outermost : Bool} (h : clearAll outermost nodes = true)
    (last : outermost = true → after = none) (flow : Flow) :
    Step settings after nodes flow ↔ flow ∈ blockFlows settings after nodes := by
  induction nodes using blockInduction generalizing after outermost with
  | nil => simp [not_step_nil, blockFlows, blockEdges, blockExits, mem_flows_passage]
  | expression id text shape nodes ih =>
    simp only [clearAll, clear, Bool.true_and] at h
    rw [step_expression, ih h last, mem_blockFlows_cons]
    simp [innerEdges, exits]
  | leave id nodes ih =>
    simp only [clearAll, clear, Bool.true_and] at h
    rw [step_leave, ih h last, mem_blockFlows_cons]
    simp [innerEdges, exits, mem_flows_passage]
  | condition id text thenId thenNodes elseId elseNodes nodes ihThen ihElse ih =>
    simp only [clearAll, clear, Bool.and_eq_true] at h
    obtain ⟨⟨⟨⟨_, followed⟩, thens⟩, elses⟩, rest⟩ := h
    rw [step_condition, ihThen thens (by simp), ihElse elses (by simp), ih rest last,
      mem_blockFlows_cons]
    cases elseNodes with
    | nil =>
      simp only [List.isEmpty_nil, Bool.not_true, Bool.false_or, Bool.and_eq_true,
        Bool.not_eq_true'] at followed
      have through := blockExits_eq_last followed.2
      rw [head?_or_of_followed followed.1 last]
      simp only [innerEdges, exits, blockFlows, through, blockEdges, blockExits, flows_append,
        flows_nil, List.isEmpty_nil, List.head?_nil, Option.none_or, List.append_nil, if_true,
        List.mem_append, List.not_mem_nil, false_or, mem_flows_passage]
      grind
    | cons node elseNodes =>
      simp only [innerEdges, exits, blockFlows, flows_append, List.isEmpty_cons, List.head?_cons,
        Option.some_or, Bool.false_eq_true, if_false, List.mem_append, mem_flows_passage]
      grind

theorem Edge.isWhole_link {edge : Edge} (nonempty : edge.sources ≠ []) :
    edge.link.isWhole = true := by
  have source : edge.link.source ≠ "" := by
    intro empty
    obtain ⟨id, sources, same⟩ := List.exists_cons_of_ne_nil nonempty
    have nothing : sourceText (edge.sources.map NodeId.name) = [] := congrArg String.toList empty
    have name := id.toList_name_ne_nil
    rw [same] at nothing
    cases sources with
    | nil => exact name (sourceText_singleton id.name ▸ nothing)
    | cons id' sources => simp [sourceText_cons_cons] at nothing
  have target : edge.link.target ≠ "" := by
    intro empty
    exact edge.target.toList_name_ne_nil (congrArg String.toList empty)
  simp [Link.isWhole, source, target]

namespace Node

theorem sources_ne_nil_of_mem_passage {sources : List NodeId} {target : Option NodeId}
    {label : Option String} {edge : Edge} (h : edge ∈ passage sources target label) :
    edge.sources ≠ [] := by
  cases target with
  | none => simp [passage] at h
  | some target =>
    by_cases empty : sources = []
    · simp [passage, empty] at h
    · simp only [passage, List.isEmpty_iff, empty, if_false, List.mem_singleton] at h
      rwa [h]

theorem sources_ne_nil_of_mem_blockEdges {settings : Settings} {sources : List NodeId}
    {nodes : List Node} {edge : Edge} (h : edge ∈ blockEdges settings sources nodes) :
    edge.sources ≠ [] := by
  induction nodes using blockInduction generalizing sources with
  | nil => simp [blockEdges] at h
  | expression id text shape nodes ih =>
    simp only [blockEdges, innerEdges, List.append_nil, List.mem_append] at h
    rcases h with h | h
    · exact sources_ne_nil_of_mem_passage h
    · exact ih h
  | condition id text thenId thenNodes elseId elseNodes nodes ihThen ihElse ih =>
    simp only [blockEdges, innerEdges, List.mem_append] at h
    rcases h with (h | (h | h) | h) | h
    · exact sources_ne_nil_of_mem_passage h
    · exact sources_ne_nil_of_mem_passage h
    · exact ihThen h
    · split at h
      · rcases List.mem_append.1 h with h | h
        · exact sources_ne_nil_of_mem_passage h
        · exact sources_ne_nil_of_mem_passage h
      · rcases List.mem_append.1 h with h | h
        · exact sources_ne_nil_of_mem_passage h
        · exact ihElse h
    · exact ih h
  | leave id nodes ih =>
    simp only [blockEdges, innerEdges, List.append_nil, List.mem_append] at h
    rcases h with h | h
    · exact sources_ne_nil_of_mem_passage h
    · exact ih h

end Node

theorem Program.mem_lines_links_iff {p : Program} {settings : Settings} {line : String} :
    line ∈ (p.links settings).lines ↔ ∃ edge ∈ p.edges settings, line = edge.link.line := by
  rw [links, Links.inStep_empty.mem_lines_addAll]
  simp only [List.not_mem_nil, false_or, List.mem_map]
  constructor
  · rintro ⟨link, ⟨edge, drawn, rfl⟩, -, same⟩
    exact ⟨edge, drawn, same⟩
  · rintro ⟨edge, drawn, same⟩
    have whole := Edge.isWhole_link (sources_ne_nil_of_mem_blockEdges drawn)
    exact ⟨edge.link, ⟨edge, drawn, rfl⟩, whole, same⟩

theorem Program.line_mem_links_iff {p : Program} {settings : Settings} {edge : Edge}
    (nonempty : edge.sources ≠ []) :
    edge.link.line ∈ (p.links settings).lines ↔ edge ∈ p.edges settings := by
  rw [mem_lines_links_iff]
  constructor
  · rintro ⟨edge', drawn, same⟩
    rwa [Edge.line_injective nonempty (sources_ne_nil_of_mem_blockEdges drawn) same]
  · intro drawn
    exact ⟨edge, drawn, rfl⟩

theorem Program.records_links_iff {p : Program} {settings : Settings} {flow : Flow} :
    (p.links settings).Records flow ↔ flow ∈ flows (p.edges settings) := by
  rw [flows, List.mem_flatMap]
  constructor
  · rintro ⟨edge, line, member⟩
    have nonempty : edge.sources ≠ [] := List.ne_nil_of_mem (Edge.mem_flows.1 member).1
    exact ⟨edge, (line_mem_links_iff nonempty).1 line, member⟩
  · rintro ⟨edge, drawn, member⟩
    exact ⟨edge, mem_lines_links_iff.2 ⟨edge, drawn, rfl⟩, member⟩

theorem Program.records_links_iff_steps (p : Program) (settings : Settings)
    (h : clearAll true p.nodes = true) (flow : Flow) :
    (p.links settings).Records flow ↔ p.Steps settings flow := by
  have steps := step_iff_mem_blockFlows settings h (fun _ => rfl) flow
  rw [records_links_iff, Steps, steps, blockFlows]
  simp [edges, mem_flows_passage]

def Program.nested : Program where
  direction := .topDown
  nodes :=
    [.condition 1 "a" 2 [.condition 4 "b" 5 [.expression 7 "x" .square] 6 [.leave 8]]
       3 [.expression 9 "y" .square],
     .expression 10 "z" .square]

theorem Program.records_links_nested :
    clearAll true nested.nodes = true ∧ (nested.links {}).Records ⟨7, none, 10⟩ := by
  have clear : clearAll true nested.nodes = true := by decide
  have step : nested.Steps {} ⟨7, none, 10⟩ :=
    .inThen (.inThen (.next (show _ = some (expression 10 "z" .square) from rfl) rfl))
  exact ⟨clear, (records_links_iff_steps nested {} clear ⟨7, none, 10⟩).2 step⟩

end Flowchart
