import Flowchart.Proofs.Numbering

/-! Links go forward. A passage has its sources and its target in the order of the numbers, and each of
them is the number of a box. So no link leads back, not even by way of others. -/
namespace Flowchart

def Direction.directive (direction : Direction) : String := "flowchart " ++ direction.name ++ ";\n"

def Box.stem (box : Box) : String :=
  "  " ++ box.id.name ++ box.shape.brackets.1 ++ "\x22" ++ box.text ++ "\x22" ++
    box.shape.brackets.2

/-- Among the lines of the boxes is one that begins with the number. -/
def Program.WritesBox (p : Program) (theme : Theme) (id : NodeId) : Prop :=
  ∃ before box after, p.boxes = before ++ box :: after ∧ box.id = id ∧
    p.boxText theme =
      p.direction.directive ++ String.join (before.map (Box.line theme)) ++
        ("  " ++ toString id.toNat ++ box.shape.brackets.1 ++ "\x22" ++ box.text ++ "\x22" ++
          box.shape.brackets.2 ++ theme.classSuffix box.shape ++ "\n") ++
        String.join (after.map (Box.line theme))

structure Edge.Forward (p : Program) (theme : Theme) (edge : Edge) : Prop where
  sources_ne_nil : edge.sources ≠ []
  sources_increasing : edge.sources.Pairwise (· < ·)
  lt_target : ∀ source ∈ edge.sources, source < edge.target
  boxed : ∀ id ∈ edge.sources ++ [edge.target], p.WritesBox theme id

def Links.Leads (links : Links) (source target : NodeId) : Prop :=
  ∃ label, links.Records ⟨source, label, target⟩

namespace Node

variable {settings : Settings} {node : Node} {next : Option Node} {nodes : List Node} {edge : Edge}

theorem Arises.ends_sublist (h : Arises settings node next edge) :
    (edge.sources ++ [edge.target]).Sublist (idsAll (node :: next.toList)) := by
  have behind (next : Node) : [next.id].Sublist (idsAll [next]) := by
    simpa [idsAll] using id_mem_ids next
  have own : (node.id :: (idsAll node.onTrue ++ idsAll node.onFalse)).Sublist node.ids :=
    id_cons_sublist_ids node
  have inside {inner : Node} {branch : List Node} (h : inner ∈ branch) :
      [inner.id].Sublist (idsAll branch) :=
    List.singleton_sublist.2 ((ids_sublist_of_mem h).subset (id_mem_ids inner))
  cases h with
  | @onward next => exact (exits_sublist node).append (behind next)
  | whenTrue found =>
    have first := (inside (List.mem_of_mem_head? found)).trans
      (List.sublist_append_left _ (idsAll node.onFalse))
    exact ((first.cons_cons node.id).trans own).trans (List.sublist_append_left _ _)
  | whenFalse found =>
    have first := (inside (List.mem_of_mem_head? found)).trans
      (List.sublist_append_right (idsAll node.onTrue) _)
    exact ((first.cons_cons node.id).trans own).trans (List.sublist_append_left _ _)
  | @merge last next _ found =>
    have last := (inside (List.mem_of_getLast? found)).trans
      (List.sublist_append_left _ (idsAll node.onFalse))
    exact ((last.cons node.id).trans own).append (behind next)
  | @past next => exact (List.singleton_sublist.2 (id_mem_ids node)).append (behind next)

theorem Arises.isLeave_eq_false (h : Arises settings node next edge) : node.isLeave = false := by
  cases node with
  | leave => exact absurd h arises_leave
  | expression | condition => rfl

theorem Arises.id_mem_boxes (h : Arises settings node next edge) (placed : Placed nodes node next)
    {id : NodeId} (member : id ∈ edge.sources ++ [edge.target]) :
    id ∈ (boxesAll nodes).map Box.id := by
  have own : node.id ∈ (boxesAll nodes).map Box.id := placed.id_mem_boxes h.isLeave_eq_false
  have inside {inner : Node} (h : inner ∈ node.onTrue ++ node.onFalse)
      (stays : inner.isLeave = false) : inner.id ∈ (boxesAll nodes).map Box.id := by
    obtain ⟨_, placed'⟩ := placed.exists_inner h
    exact placed'.id_mem_boxes stays
  have after {next : Node} (placed : Placed nodes node (some next)) (stays : next.isLeave = false) :
      next.id ∈ (boxesAll nodes).map Box.id := by
    obtain ⟨_, placed'⟩ := placed.behind
    exact placed'.id_mem_boxes stays
  rcases List.mem_append.1 member with member | member
  · cases h with
    | onward =>
      obtain ⟨box, _, placed', rfl, stays, -⟩ := placed.exists_exit member
      exact placed'.id_mem_boxes stays
    | whenTrue | whenFalse | past => rwa [List.mem_singleton.1 member]
    | merge _ found stays =>
      rw [List.mem_singleton.1 member]
      exact inside (List.mem_append_left _ (List.mem_of_getLast? found)) stays
  · rw [List.mem_singleton.1 member]
    cases h with
    | onward _ stays => exact after placed stays
    | whenTrue found stays =>
      exact inside (List.mem_append_left _ (List.mem_of_mem_head? found)) stays
    | whenFalse found stays =>
      exact inside (List.mem_append_right _ (List.mem_of_mem_head? found)) stays
    | merge _ _ _ stays => exact after placed stays
    | past _ _ stays => exact after placed stays

end Node

namespace Program

variable {p : Program} {settings : Settings} {source : String}

theorem writesBox_iff (theme : Theme) {id : NodeId} :
    p.WritesBox theme id ↔ id ∈ p.boxes.map Box.id := by
  constructor
  · rintro ⟨before, box, after, boxes, rfl, -⟩
    rw [boxes]
    exact List.mem_map_of_mem (List.mem_append_right _ List.mem_cons_self)
  · intro member
    obtain ⟨box, drawn, rfl⟩ := List.mem_map.1 member
    obtain ⟨before, after, boxes⟩ := List.append_of_mem drawn
    refine ⟨before, box, after, boxes, rfl, ?_⟩
    have line : box.line theme = "  " ++ toString box.id.toNat ++ box.shape.brackets.1 ++ "\x22" ++
        box.text ++ "\x22" ++ box.shape.brackets.2 ++ theme.classSuffix box.shape ++ "\n" := rfl
    rw [boxText, boxes, ← line]
    simp [Direction.directive, String.join_append, String.join_cons, String.append_assoc]

theorem forward_of_mem_edges (increasing : p.ids.Pairwise (· < ·)) {edge : Edge}
    (drawn : edge ∈ p.edges settings) : edge.Forward p settings.theme := by
  obtain ⟨node, next, placed, arises⟩ := mem_edges_iff.1 drawn
  have ends : (edge.sources ++ [edge.target]).Pairwise (· < ·) :=
    (List.pairwise_cons.1 increasing).2.sublist (arises.ends_sublist.trans placed.ids_sublist)
  obtain ⟨sources, -, below⟩ := List.pairwise_append.1 ends
  exact ⟨Node.sources_ne_nil_of_mem_blockEdges drawn, sources,
    fun source member => below source member _ (by simp),
    fun _ member => (writesBox_iff _).2 (arises.id_mem_boxes placed member)⟩

theorem forward_of_records (increasing : p.ids.Pairwise (· < ·)) {flow : Flow}
    (recorded : (p.links settings).Records flow) :
    flow.source < flow.target ∧ flow.source ∈ p.boxes.map Box.id ∧
      flow.target ∈ p.boxes.map Box.id := by
  obtain ⟨edge, drawn, member⟩ := List.mem_flatMap.1 (records_links_iff.1 recorded)
  have forward := forward_of_mem_edges increasing drawn
  obtain ⟨starts, -, ends⟩ := Edge.mem_flows.1 member
  rw [← ends]
  exact ⟨forward.lt_target _ starts, (writesBox_iff _).1 (forward.boxed _ (by simp [starts])),
    (writesBox_iff _).1 (forward.boxed _ (by simp))⟩

theorem unboxed_disjoint (distinct : p.ids.Nodup) : (p.boxes.map Box.id).Disjoint p.unboxed := by
  have split : p.ids.Perm (p.boxes.map Box.id ++ p.unboxed) :=
    ((Node.idsAll_perm p.nodes).cons p.id).trans List.perm_middle.symm
  exact (List.nodup_append'.1 (split.nodup_iff.1 distinct)).2.2

/-- Every link goes forward between boxes that have a line each. The root, the branches and the nodes
that leave the program are on no link, and no box is reached from itself. -/
theorem links_forward (short : source.length < UInt32.size - 1)
    (h : ofSource settings source = .ok p) :
    (∀ line ∈ (p.links settings).lines, ∃ edge : Edge,
      line = edge.text ∧ edge.Forward p settings.theme) ∧
    (∀ flow, (p.links settings).Records flow →
      flow.source ∉ p.unboxed ∧ flow.target ∉ p.unboxed) ∧
    ∀ id, ¬ Relation.TransGen (p.links settings).Leads id id := by
  have increasing := ids_increasing short h
  refine ⟨?_, ?_, ?_⟩
  · intro line member
    obtain ⟨edge, drawn, rfl⟩ := mem_lines_links_iff.1 member
    exact ⟨edge, edge.line_link, forward_of_mem_edges increasing drawn⟩
  · intro flow recorded
    have apart := unboxed_disjoint (increasing.imp UInt32.ne_of_lt)
    obtain ⟨-, starts, ends⟩ := forward_of_records increasing recorded
    exact ⟨apart starts, apart ends⟩
  · have onward {first last : NodeId} (path : Relation.TransGen (p.links settings).Leads first last) :
        first < last := by
      induction path with
      | single step =>
        obtain ⟨label, recorded⟩ := step
        exact (forward_of_records increasing recorded).1
      | tail _ step ih =>
        obtain ⟨label, recorded⟩ := step
        exact UInt32.lt_trans ih (forward_of_records increasing recorded).1
    exact fun id path => UInt32.lt_irrefl id (onward path)

def twoSided : Node :=
  .condition 4 "b" 5 [.expression 7 "x" .square] 6 [.expression 8 "y" .square]

def merged : Program where
  direction := .topDown
  nodes := [.condition 1 "a" 2 [twoSided] 3 [], .expression 9 "z" .square]

def mergedText : String := "if (a) \x7b if (b) \x7b x; \x7d else \x7b y; \x7d \x7d z;"

theorem ofSource_mergedText : ofSource {} mergedText = .ok merged := by
  cbv

theorem lines_merged : (merged.links {}).lines =
    ["  1-->|True|4\n", "  4-->|True|7\n", "  4-->|False|8\n", "  4-->9\n", "  1-->|False|9\n",
     "  7 & 8-->9\n"] := by
  cbv

theorem links_forward_merged :
    mergedText.length < UInt32.size - 1 ∧ ofSource {} mergedText = .ok merged ∧
    (∀ line ∈ (merged.links {}).lines, ∃ edge : Edge,
      line = edge.text ∧ edge.Forward merged (Settings.theme {})) ∧
    (∀ flow, (merged.links {}).Records flow →
      flow.source ∉ merged.unboxed ∧ flow.target ∉ merged.unboxed) ∧
    ∀ id, ¬ Relation.TransGen (merged.links {}).Leads id id := by
  have short : mergedText.length < UInt32.size - 1 := by decide
  exact ⟨short, ofSource_mergedText, links_forward short ofSource_mergedText⟩

end Program

end Flowchart
