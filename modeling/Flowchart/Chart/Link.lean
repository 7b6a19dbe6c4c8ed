import Flowchart.Program
import Flowchart.Settings

/-! The links of a chart. Control goes from a node to the one behind it, from a condition to the first
node of each branch, and past a condition that has no else-branch. -/
namespace Flowchart

structure Link where
  source : String
  target : String
  label : Option String := none
deriving DecidableEq, Repr

namespace Link

def line (link : Link) : String :=
  match link.label with
  | some label => "  " ++ link.source ++ "-->|" ++ label ++ "|" ++ link.target ++ "\n"
  | none => "  " ++ link.source ++ "-->" ++ link.target ++ "\n"

def isWhole (link : Link) : Bool := link.source != "" && link.target != ""

end Link

/-- The lines of the links asked for, in the order in which they were first asked for. The set of
those that were seen stands beside them, so that no line is taken twice. -/
structure Links where
  lines : List String := []
  seen : List String := []
deriving DecidableEq, Repr

namespace Links

/-- A link that lacks an end is ignored. -/
def add (links : Links) (link : Link) : Links :=
  if link.isWhole && !links.seen.contains link.line then
    ⟨links.lines ++ [link.line], link.line :: links.seen⟩
  else links

def addAll (links : Links) (new : List Link) : Links := new.foldl add links

def count (links : Links) : Nat := links.lines.length

def text (links : Links) : String := String.join links.lines

@[simp] theorem addAll_nil (links : Links) : links.addAll [] = links := rfl

theorem addAll_append (links : Links) (new new' : List Link) :
    links.addAll (new ++ new') = (links.addAll new).addAll new' := by
  simp [addAll]

/-- The set has the lines of the list, and the list has each of them once. -/
structure InStep (links : Links) : Prop where
  mem_seen_iff : ∀ line, line ∈ links.seen ↔ line ∈ links.lines
  nodup : links.lines.Nodup

variable {links : Links} {link : Link}

theorem inStep_empty : InStep {} := ⟨fun _ => Iff.rfl, .nil⟩

theorem add_of_known (known : link.isWhole = true → link.line ∈ links.seen) :
    links.add link = links := by
  rw [add, if_neg]
  simpa using known

theorem add_of_new (whole : link.isWhole = true) (new : link.line ∉ links.seen) :
    links.add link = ⟨links.lines ++ [link.line], link.line :: links.seen⟩ := by
  rw [add, if_pos]
  simp [whole, new]

theorem InStep.add (h : links.InStep) (link : Link) : (links.add link).InStep := by
  by_cases whole : link.isWhole = true
  · by_cases known : link.line ∈ links.seen
    · rwa [add_of_known fun _ => known]
    · have absent : link.line ∉ links.lines := mt (h.mem_seen_iff _).2 known
      rw [add_of_new whole known]
      refine ⟨fun line => ?_, List.nodup_append.2 ⟨h.nodup, by simp, ?_⟩⟩
      · simp [h.mem_seen_iff, or_comm]
      · intro line member line' last same
        exact absent (List.mem_singleton.1 last ▸ same ▸ member)
  · rwa [add_of_known fun h => absurd h whole]

theorem InStep.addAll (h : links.InStep) (new : List Link) : (links.addAll new).InStep := by
  induction new generalizing links with
  | nil => exact h
  | cons link new ih => exact ih (h.add link)

theorem InStep.mem_lines_add (h : links.InStep) {line : String} :
    line ∈ (links.add link).lines ↔
      line ∈ links.lines ∨ (link.isWhole = true ∧ line = link.line) := by
  by_cases whole : link.isWhole = true
  · by_cases known : link.line ∈ links.seen
    · have same : line = link.line → line ∈ links.lines := by
        rintro rfl
        exact (h.mem_seen_iff _).1 known
      rw [add_of_known fun _ => known]
      simpa [whole] using same
    · simp [add_of_new whole known, whole]
  · simp [add_of_known fun h => absurd h whole, whole]

theorem InStep.mem_lines_addAll (h : links.InStep) {new : List Link} {line : String} :
    line ∈ (links.addAll new).lines ↔
      line ∈ links.lines ∨ ∃ link ∈ new, link.isWhole = true ∧ line = link.line := by
  induction new generalizing links with
  | nil => simp
  | cons link new ih =>
    have step : links.addAll (link :: new) = (links.add link).addAll new := rfl
    rw [step, ih (h.add link), h.mem_lines_add]
    simp [or_assoc]

end Links

/-- A passage of control into a node. Several nodes can share the passage out of a condition. -/
structure Edge where
  sources : List NodeId
  target : NodeId
  label : Option String := none
deriving DecidableEq, Repr

def Edge.link (edge : Edge) : Link :=
  ⟨" & ".intercalate (edge.sources.map NodeId.name), edge.target.name, edge.label⟩

namespace Node

/-- The passage from `sources` into a node. There is none into a node that leaves the program, and none
where no control comes from. -/
def passage (sources : List NodeId) (target : Option NodeId) (label : Option String := none) :
    List Edge :=
  match target with
  | some target => if sources.isEmpty then [] else [⟨sources, target, label⟩]
  | none => []

mutual
/-- The passages that begin in a node or inside it, apart from the one out of it. `next` is the node
behind it, if control can go there. -/
def innerEdges (settings : Settings) (next : Option NodeId) : Node → List Edge
  | expression _ _ _ => []
  | condition id _ _ thenNodes _ elseNodes =>
    passage [id] (thenNodes.head?.bind linkable?) settings.trueLabel ++
    blockEdges settings [] thenNodes ++
    if elseNodes.isEmpty then
      passage (thenNodes.getLast?.bind linkable?).toList next ++
      passage [id] next settings.falseLabel
    else
      passage [id] (elseNodes.head?.bind linkable?) settings.falseLabel ++
      blockEdges settings [] elseNodes
  | leave _ => []

def blockEdges (settings : Settings) (sources : List NodeId) : List Node → List Edge
  | [] => []
  | node :: nodes =>
    passage sources node.linkable? ++
    node.innerEdges settings (nodes.head?.bind linkable?) ++
    blockEdges settings node.exits nodes
end

end Node

namespace Program

/-- The passages of a program, in the order in which they are drawn. One that is asked for twice is
here twice. -/
def edges (p : Program) (settings : Settings) : List Edge := Node.blockEdges settings [] p.nodes

def links (p : Program) (settings : Settings) : Links :=
  Links.addAll {} ((p.edges settings).map Edge.link)

end Program

end Flowchart
