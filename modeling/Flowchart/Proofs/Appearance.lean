import Flowchart.Proofs.Arrivals

/-! What settings change. They have no part in whether a source compiles, and each of them has its
own part of the chart: the direction the first line, the theme the classes of boxes and the styles
at the end, and the labels what is written on links. Equal lines are drawn once, but no two passages
of a program differ in their labels only, so that other labels neither merge lines nor part them. -/
namespace Flowchart

namespace Node

variable {settings : Settings} {node : Node} {next : Option Node} {nodes : List Node}
  {edge edge' : Edge}

theorem Placed.id_ne_of_mem (distinct : (idsAll nodes).Nodup) (h : Placed nodes node next)
    {inner : Node} (member : inner ∈ node.onTrue ++ node.onFalse) : inner.id ≠ node.id := by
  have own : (node.id :: (idsAll node.onTrue ++ idsAll node.onFalse)).Nodup :=
    distinct.sublist (((id_cons_sublist_ids node).trans (List.sublist_append_left _ _)).trans
      h.ids_sublist)
  have inside : inner.id ∈ idsAll node.onTrue ++ idsAll node.onFalse := by
    rcases List.mem_append.1 member with member | member
    · exact List.mem_append_left _ ((ids_sublist_of_mem member).subset (id_mem_ids inner))
    · exact List.mem_append_right _ ((ids_sublist_of_mem member).subset (id_mem_ids inner))
  exact fun same => (List.nodup_cons.1 own).1 (same ▸ inside)

theorem Placed.exits_ne_of_isCondition (distinct : (idsAll nodes).Nodup)
    (h : Placed nodes node next) (condition : node.isCondition = true) :
    node.exits ≠ [node.id] := by
  intro same
  obtain ⟨box, behind, placed, number, -, other⟩ := h.exists_exit (same ▸ List.mem_singleton_self _)
  obtain ⟨rfl, -⟩ := placed.eq_of_id distinct h number
  simp [condition] at other

theorem Placed.heads_apart (distinct : (idsAll nodes).Nodup) (h : Placed nodes node next)
    (id : NodeId) :
    (id ∈ next.map Node.id → id ∉ node.onTrue.head?.map Node.id) ∧
    (id ∈ next.map Node.id → id ∉ node.onFalse.head?.map Node.id) ∧
    (id ∈ node.onTrue.head?.map Node.id → id ∉ node.onFalse.head?.map Node.id) := by
  have once : (entries (node, next)).Nodup :=
    (List.nodup_flatMap.1 (nodup_entries distinct)).1 _ h.mem_places
  simp only [entries, List.map_append, ← Option.toList_map, List.nodup_append'] at once
  obtain ⟨-, ⟨-, -, branches⟩, behind⟩ := once
  refine ⟨fun next first => ?_, fun next first => ?_, fun first first' => ?_⟩
  · exact behind (Option.mem_toList.2 next) (List.mem_append_left _ (Option.mem_toList.2 first))
  · exact behind (Option.mem_toList.2 next) (List.mem_append_right _ (Option.mem_toList.2 first))
  · exact branches (Option.mem_toList.2 first) (Option.mem_toList.2 first')

theorem Arises.label_eq (h : Arises settings node next edge) (distinct : (idsAll nodes).Nodup)
    (placed : Placed nodes node next) :
    edge.label =
      if edge.target ∈ node.onTrue.head?.map Node.id then some settings.trueLabel
      else if edge.target ∈ node.onFalse.head?.map Node.id ∨
        edge.sources = [node.id] ∧ node.isCondition = true then some settings.falseLabel
      else none := by
  obtain ⟨notTrue, notFalse, other⟩ := placed.heads_apart distinct edge.target
  cases h with
  | onward nonempty stays =>
    have exits := placed.exits_ne_of_isCondition distinct
    rw [if_neg (notTrue rfl), if_neg]
    rintro (first | ⟨same, condition⟩)
    · exact notFalse rfl first
    · exact exits condition same
  | whenTrue found stays => simp [found]
  | whenFalse found stays =>
    have first := Option.mem_map_of_mem Node.id found
    rw [if_neg fun member => other member first, if_pos (.inl first)]
  | merge noElse found stays onward =>
    have inner := placed.id_ne_of_mem distinct
      (List.mem_append_left _ (List.mem_of_getLast? found))
    rw [if_neg (notTrue rfl), if_neg]
    rintro (first | ⟨same, -⟩)
    · exact notFalse rfl first
    · exact inner (List.cons.inj same).1
  | past condition noElse stays =>
    rw [if_neg (notTrue rfl), if_pos (.inr ⟨rfl, condition⟩)]

theorem eq_of_ends_eq (distinct : (idsAll nodes).Nodup) (h : edge ∈ blockEdges settings [] nodes)
    (h' : edge' ∈ blockEdges settings [] nodes) (sources : edge.sources = edge'.sources)
    (target : edge.target = edge'.target) : edge = edge' := by
  obtain ⟨node, next, placed, arises⟩ := mem_blockEdges_iff.1 h
  obtain ⟨node', next', placed', arises'⟩ := mem_blockEdges_iff.1 h'
  have place : (node, next) = (node', next') :=
    placed.eq_of_mem_entries distinct placed' arises.target_mem_entries
      (target ▸ arises'.target_mem_entries)
  cases place
  have label : edge.label = edge'.label := by
    rw [arises.label_eq distinct placed, arises'.label_eq distinct placed, sources, target]
  rw [Edge.mk.injEq]
  exact ⟨sources, target, label⟩

end Node

def Settings.relabel (settings : Settings) (label : String) : String :=
  if label = "True" then settings.trueLabel else settings.falseLabel

def Edge.relabel (settings : Settings) (edge : Edge) : Edge :=
  { edge with label := edge.label.map settings.relabel }

namespace Node

theorem map_relabel_passage (settings : Settings) (sources : List NodeId) (target : Option NodeId)
    (label : Option String) :
    (passage sources target label).map (Edge.relabel settings) =
      passage sources target (label.map settings.relabel) := by
  cases target with
  | none => rfl
  | some target =>
    simp only [passage]
    split <;> rfl

theorem blockEdges_relabel (settings : Settings) (sources : List NodeId) (nodes : List Node) :
    blockEdges settings sources nodes =
      (blockEdges {} sources nodes).map (Edge.relabel settings) := by
  have labels : settings.relabel (Settings.trueLabel {}) = settings.trueLabel ∧
      settings.relabel (Settings.falseLabel {}) = settings.falseLabel :=
    ⟨if_pos rfl, if_neg (by decide)⟩
  induction nodes using blockInduction generalizing sources with
  | nil => rfl
  | expression id text shape nodes ih =>
    simp [blockEdges, innerEdges, ih, map_relabel_passage]
  | condition id text thenId thenNodes elseId elseNodes nodes ihThen ihElse ih =>
    simp only [blockEdges, innerEdges, ihThen, ihElse, ih, List.map_append, map_relabel_passage,
      Option.map_some, labels]
    split <;> simp [map_relabel_passage, labels]
  | leave id nodes ih =>
    simp [blockEdges, innerEdges, ih, map_relabel_passage]

end Node

theorem eraseDups_concat {α : Type} [DecidableEq α] (l : List α) (a : α) :
    (l ++ [a]).eraseDups = if a ∈ l then l.eraseDups else l.eraseDups ++ [a] := by
  rw [List.eraseDups_append]
  split
  next h => simp [List.removeAll, h]
  next h => simp [List.removeAll, h, List.eraseDups_cons]

theorem nodup_eraseDups {α : Type} [DecidableEq α] (l : List α) : l.eraseDups.Nodup := by
  induction l using List.reverseRecOn with
  | nil => exact .nil
  | append_singleton l a ih =>
    rw [eraseDups_concat]
    split
    next => exact ih
    next new => exact List.nodup_append'.2 ⟨ih, List.nodup_singleton a, by simpa using new⟩

theorem eraseDups_map {α β : Type} [DecidableEq α] [DecidableEq β] {f : α → β} {l : List α}
    (injective : ∀ a ∈ l, ∀ b ∈ l, f a = f b → a = b) :
    (l.map f).eraseDups = l.eraseDups.map f := by
  induction l using List.reverseRecOn with
  | nil => rfl
  | append_singleton l a ih =>
    have known : f a ∈ l.map f ↔ a ∈ l := by
      constructor
      · intro member
        obtain ⟨b, member, same⟩ := List.mem_map.1 member
        exact injective b (by simp [member]) a (by simp) same ▸ member
      · exact List.mem_map_of_mem
    have front := ih fun b hb c hc => injective b (by simp [hb]) c (by simp [hc])
    rw [List.map_append, List.map_singleton, eraseDups_concat, eraseDups_concat, front]
    simp only [known]
    split <;> simp

theorem Links.lines_addAll (new : List Link) :
    (addAll {} new).lines = ((new.filter Link.isWhole).map Link.line).eraseDups := by
  induction new using List.reverseRecOn with
  | nil => rfl
  | append_singleton new link ih =>
    have step : addAll {} (new ++ [link]) = (addAll {} new).add link := by simp [addAll]
    have seen : link.line ∈ (addAll {} new).seen ↔
        link.line ∈ (new.filter Link.isWhole).map Link.line := by
      rw [(inStep_empty.addAll new).mem_seen_iff, ih, List.mem_eraseDups]
    rw [step, List.filter_append, List.map_append]
    by_cases whole : link.isWhole = true
    · have last : ([link].filter Link.isWhole).map Link.line = [link.line] := by simp [whole]
      rw [last, eraseDups_concat]
      split
      next known => rw [add_of_known fun _ => seen.2 known, ih]
      next new => rw [add_of_new whole (mt seen.1 new), ih]
    · rw [add_of_known fun h => absurd h whole, ih]
      simp [whole]

/-- Passages between the same ends that have no label, or what each of the settings calls true, or
what they call false. -/
structure Edge.Alike (settings settings' : Settings) (edge edge' : Edge) : Prop where
  sources_ne : edge.sources ≠ []
  sources_eq : edge.sources = edge'.sources
  target_eq : edge.target = edge'.target
  label_eq :
    (edge.label = none ∧ edge'.label = none) ∨
    (edge.label = some settings.trueLabel ∧ edge'.label = some settings'.trueLabel) ∨
    (edge.label = some settings.falseLabel ∧ edge'.label = some settings'.falseLabel)

def LinesAlike (settings settings' : Settings) (line line' : String) : Prop :=
  ∃ edge edge', Edge.Alike settings settings' edge edge' ∧ line = edge.link.line ∧
    line' = edge'.link.line

theorem Edge.alike_relabel {edge : Edge} (nonempty : edge.sources ≠ [])
    (settings settings' : Settings) :
    Alike settings settings' (edge.relabel settings) (edge.relabel settings') where
  sources_ne := nonempty
  sources_eq := rfl
  target_eq := rfl
  label_eq := by
    cases label : edge.label with
    | none => simp [relabel, label]
    | some text =>
      by_cases same : text = "True"
      · simp [relabel, label, Settings.relabel, same]
      · simp [relabel, label, Settings.relabel, same]

namespace Program

def boxLines (p : Program) (theme : Theme) : List String :=
  p.boxes.map fun box => box.stem ++ theme.classSuffix box.shape ++ "\n"

def styleText (p : Program) (settings : Settings) : String :=
  String.join (p.shapes.filterMap settings.theme.classLine?) ++
    (if (p.links settings).count = 0 then none else settings.theme.linkLine?).getD ""

theorem render_eq (p : Program) (settings : Settings) :
    p.render settings =
      p.direction.directive ++ String.join (p.boxLines settings.theme) ++ (p.links settings).text ++
        p.styleText settings := by
  have lines : p.boxLines settings.theme = p.boxes.map (Box.line settings.theme) := rfl
  simp only [render, boxText, lines, styleText, Direction.directive, String.append_assoc]

theorem lines_links_eq_eraseDups (p : Program) (settings : Settings) :
    (p.links settings).lines = ((p.edges settings).map fun edge => edge.link.line).eraseDups := by
  have whole : ∀ link ∈ (p.edges settings).map Edge.link, link.isWhole = true := by
    intro link member
    obtain ⟨edge, drawn, rfl⟩ := List.mem_map.1 member
    exact Edge.isWhole_link (Node.sources_ne_nil_of_mem_blockEdges drawn)
  rw [links, Links.lines_addAll, List.filter_eq_self.2 whole, List.map_map]
  rfl

theorem lines_links (p : Program) (settings : Settings) :
    (p.links settings).lines = ((p.edges settings).eraseDups).map fun edge => edge.link.line := by
  rw [lines_links_eq_eraseDups]
  refine eraseDups_map fun edge drawn edge' drawn' same => ?_
  exact Edge.line_injective (Node.sources_ne_nil_of_mem_blockEdges drawn)
    (Node.sources_ne_nil_of_mem_blockEdges drawn') same

theorem eraseDups_edges {p : Program} (distinct : (Node.idsAll p.nodes).Nodup)
    (settings : Settings) :
    (p.edges settings).eraseDups = (p.edges {}).eraseDups.map (Edge.relabel settings) := by
  rw [edges, Node.blockEdges_relabel]
  refine eraseDups_map fun edge drawn edge' drawn' same => ?_
  exact Node.eq_of_ends_eq distinct drawn drawn' (congrArg Edge.sources same :)
    (congrArg Edge.target same :)

section Nodes

variable {p p' : Program} {settings settings' : Settings}

theorem edges_eq_of_nodes_eq (same : p.nodes = p'.nodes) (settings : Settings) :
    p.edges settings = p'.edges settings := by
  rw [edges, edges, same]

theorem boxes_eq_of_nodes_eq (same : p.nodes = p'.nodes) : p.boxes = p'.boxes := by
  rw [boxes, boxes, same]

theorem links_eq_of_labels_eq (same : p.nodes = p'.nodes)
    (trueLabel : settings.trueLabel = settings'.trueLabel)
    (falseLabel : settings.falseLabel = settings'.falseLabel) :
    p.links settings = p'.links settings' := by
  have labels : settings.relabel = settings'.relabel := by
    funext label
    rw [Settings.relabel, Settings.relabel, trueLabel, falseLabel]
  have relabels : Edge.relabel settings = Edge.relabel settings' := by
    funext edge
    rw [Edge.relabel, Edge.relabel, labels]
  rw [links, links, edges_eq_of_nodes_eq same, edges, edges, Node.blockEdges_relabel settings,
    Node.blockEdges_relabel settings', relabels]

theorem forall₂_lines_links (settings settings' : Settings) (same : p.nodes = p'.nodes)
    (distinct : (Node.idsAll p.nodes).Nodup) :
    List.Forall₂ (LinesAlike settings settings') (p.links settings).lines
      (p'.links settings').lines := by
  rw [lines_links, lines_links, ← edges_eq_of_nodes_eq same, eraseDups_edges distinct settings,
    eraseDups_edges distinct settings']
  simp only [List.map_map, List.forall₂_map_left_iff, List.forall₂_map_right_iff, List.forall₂_same]
  intro edge member
  have drawn : edge ∈ p.edges {} := List.mem_eraseDups.1 member
  have nonempty := Node.sources_ne_nil_of_mem_blockEdges drawn
  exact ⟨_, _, Edge.alike_relabel nonempty settings settings', rfl, rfl⟩

theorem styleText_eq_of_theme_eq (same : p.nodes = p'.nodes)
    (theme : settings.theme = settings'.theme)
    (count : (p.links settings).count = (p'.links settings').count) :
    p.styleText settings = p'.styleText settings' := by
  rw [styleText, styleText, shapes, shapes, boxes_eq_of_nodes_eq same, theme, count]

theorem ofSource_cases (settings settings' : Settings) (source : String) :
    (∃ failure, ofSource settings source = .error failure ∧
      ofSource settings' source = .error failure) ∨
    ∃ p p', ofSource settings source = .ok p ∧ ofSource settings' source = .ok p' ∧
      p.direction = settings.direction ∧ p'.direction = settings'.direction ∧
      p.nodes = p'.nodes := by
  have read (settings : Settings) : ofSource settings source =
      (tokenize source >>= Reader.run {}).map fun nodes =>
        { direction := settings.direction, nodes } := by
    rw [ofSource]
    cases tokenize source <;> rfl
  rw [read, read]
  cases tokenize source >>= Reader.run {} with
  | error failure => exact .inl ⟨failure, rfl, rfl⟩
  | ok nodes => exact .inr ⟨_, _, rfl, rfl, rfl, rfl, rfl⟩

theorem compile_of_ofSource {source : String} (h : ofSource settings source = .ok p) :
    compile settings source = .ok (p.render settings) := by
  rw [compile, h, Except.map]

end Nodes

end Program

open Program

/-- Settings do not decide what compiles, and each of them changes its own part of a chart. -/
theorem compile_settings {source : String} (short : source.length < UInt32.size - 1)
    (settings settings' : Settings) :
    (∀ failure, compile settings source = .error failure ↔
      compile settings' source = .error failure) ∧
    ∀ output output', compile settings source = .ok output →
      compile settings' source = .ok output' →
      ∃ p p', ofSource settings source = .ok p ∧ ofSource settings' source = .ok p' ∧
        output = settings.direction.directive ++ String.join (p.boxLines settings.theme) ++
          (p.links settings).text ++ p.styleText settings ∧
        output' = settings'.direction.directive ++ String.join (p'.boxLines settings'.theme) ++
          (p'.links settings').text ++ p'.styleText settings' ∧
        (settings.theme = settings'.theme → settings.trueLabel = settings'.trueLabel →
          settings.falseLabel = settings'.falseLabel →
          ∃ body, output = settings.direction.directive ++ body ∧
            output' = settings'.direction.directive ++ body) ∧
        (settings.direction = settings'.direction → settings.trueLabel = settings'.trueLabel →
          settings.falseLabel = settings'.falseLabel →
          p.boxes = p'.boxes ∧ (p.links settings).text = (p'.links settings').text) ∧
        (settings.direction = settings'.direction → settings.theme = settings'.theme →
          p.boxText settings.theme = p'.boxText settings'.theme ∧
          p.styleText settings = p'.styleText settings' ∧
          (p.links settings).count = (p'.links settings').count ∧
          List.Forall₂ (LinesAlike settings settings') (p.links settings).lines
            (p'.links settings').lines) := by
  rcases ofSource_cases settings settings' source with
    ⟨failure, fails, fails'⟩ | ⟨p, p', reads, reads', direction, direction', same⟩
  · have rejected : compile settings source = .error failure := by rw [compile, fails, Except.map]
    have rejected' : compile settings' source = .error failure := by
      rw [compile, fails', Except.map]
    simp [rejected, rejected']
  · have drawn := compile_of_ofSource reads
    have drawn' := compile_of_ofSource reads'
    refine ⟨fun failure => by simp [drawn, drawn'], fun output output' compiled compiled' => ?_⟩
    have text := Except.ok.inj (compiled.symm.trans drawn)
    have text' := Except.ok.inj (compiled'.symm.trans drawn')
    rw [render_eq, direction] at text
    rw [render_eq, direction'] at text'
    have boxes := boxes_eq_of_nodes_eq same
    refine ⟨p, p', reads, reads', text, text', ?_, ?_, ?_⟩
    · intro theme trueLabel falseLabel
      have links := links_eq_of_labels_eq same trueLabel falseLabel
      have style := styleText_eq_of_theme_eq same theme (by rw [links])
      refine ⟨String.join (p.boxLines settings.theme) ++ (p.links settings).text ++
        p.styleText settings, ?_, ?_⟩
      · simp only [text, String.append_assoc]
      · simp only [text', boxLines, boxes, theme, links, style, String.append_assoc]
    · intro _ trueLabel falseLabel
      have links := links_eq_of_labels_eq same trueLabel falseLabel
      exact ⟨boxes, by rw [links]⟩
    · intro directions theme
      have lines := forall₂_lines_links settings settings' same (nodup_idsAll short reads)
      have count : (p.links settings).count = (p'.links settings').count := lines.length_eq
      refine ⟨?_, styleText_eq_of_theme_eq same theme count, count, lines⟩
      rw [boxText, boxText, direction, direction', directions, theme, boxes]

def forked : String := "if (a) \x7b b; \x7d c;"

/-- The link from the then-branch to what is behind is asked for twice. -/
def forkedProgram : Program where
  direction := .topDown
  nodes := [.condition 1 "a" 2 [.expression 4 "b" .square] 3 [], .expression 5 "c" .square]

/-- Both labels are one text, which looks like the end of a link. -/
def barred : Settings where
  trueLabel := "|4\n"
  falseLabel := "|4\n"

theorem compile_settings_forked :
    forked.length < UInt32.size - 1 ∧
    compile {} forked = .ok (forkedProgram.render {}) ∧
    compile barred forked = .ok (forkedProgram.render barred) ∧
    (forkedProgram.links {}).lines = ["  1-->|True|4\n", "  4-->5\n", "  1-->|False|5\n"] ∧
    forkedProgram.styleText {} = forkedProgram.styleText barred ∧
    (forkedProgram.links barred).count = 3 ∧
    List.Forall₂ (LinesAlike {} barred) (forkedProgram.links {}).lines
      (forkedProgram.links barred).lines := by
  have short : forked.length < UInt32.size - 1 := by decide
  have reads : ofSource {} forked = .ok forkedProgram := by cbv
  have reads' : ofSource barred forked = .ok forkedProgram := by cbv
  have drawn := compile_of_ofSource reads
  have drawn' := compile_of_ofSource reads'
  have lines : (forkedProgram.links {}).lines =
      ["  1-->|True|4\n", "  4-->5\n", "  1-->|False|5\n"] := by cbv
  obtain ⟨p, p', same, same', -, -, -, -, relabelled⟩ :=
    (compile_settings short {} barred).2 _ _ drawn drawn'
  obtain rfl := Except.ok.inj (reads.symm.trans same)
  obtain rfl := Except.ok.inj (reads'.symm.trans same')
  obtain ⟨-, styles, count, alike⟩ := relabelled rfl rfl
  exact ⟨short, drawn, drawn', lines, styles, by rw [← count, Links.count, lines]; rfl, alike⟩

end Flowchart
