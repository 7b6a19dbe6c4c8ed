import Flowchart.Proofs.Appearance

/-! Classes and the boxes that use them. A theme fills the boxes of some shapes. Each box of such a
shape names the class of its shape, and behind the links every class that a box names is defined,
once and in the order in which the boxes first use it. The boxes are those of the nodes, each node
before the ones in its branches. -/
namespace Flowchart

namespace Node

def box? : Node → Option Box
  | expression id text shape => some ⟨id, text, shape⟩
  | condition id text _ _ _ _ => some ⟨id, text, .condition⟩
  | leave _ => none

/-- The nodes of a block, each followed by those of its then-branch and those of its else-branch. -/
def preorder (nodes : List Node) : List Node := (places nodes).map Prod.fst

theorem preorder_cons (node : Node) (nodes : List Node) :
    preorder (node :: nodes) =
      node :: (preorder node.onTrue ++ preorder node.onFalse ++ preorder nodes) := by
  simp [preorder, places_cons]

theorem boxes_eq_toList_append (node : Node) :
    node.boxes = node.box?.toList ++ (boxesAll node.onTrue ++ boxesAll node.onFalse) := by
  cases node <;> simp [boxes, box?, onTrue, onFalse, boxesAll]

theorem boxesAll_eq_filterMap (nodes : List Node) :
    boxesAll nodes = (preorder nodes).filterMap box? := by
  induction nodes using consInduction with
  | nil => rfl
  | cons node nodes ihTrue ihFalse ih =>
    rw [boxesAll, boxes_eq_toList_append, preorder_cons, ihTrue, ihFalse, ih, List.filterMap_cons]
    cases node.box? <;> simp

theorem size_eq (node : Node) :
    node.size = node.box?.toList.length + (if node.isLeave then 1 else 0) +
      2 * (if node.isCondition then 1 else 0) + (sizeAll node.onTrue + sizeAll node.onFalse) := by
  cases node <;> simp [size, box?, isLeave, isCondition, onTrue, onFalse, sizeAll]
  omega

theorem sizeAll_eq_length_boxesAll (nodes : List Node) :
    sizeAll nodes = (boxesAll nodes).length + (preorder nodes).countP isLeave +
      2 * (preorder nodes).countP isCondition := by
  induction nodes using consInduction with
  | nil => rfl
  | cons node nodes ihTrue ihFalse ih =>
    rw [sizeAll, size_eq, boxesAll, boxes_eq_toList_append, preorder_cons, ihTrue, ihFalse, ih]
    simp only [List.length_append, List.countP_cons, List.countP_append]
    omega

end Node

theorem pairwise_idxOf_eraseDups {α : Type} [DecidableEq α] (l : List α) :
    l.eraseDups.Pairwise fun a b => l.idxOf a < l.idxOf b := by
  induction l using List.reverseRecOn with
  | nil => exact .nil
  | append_singleton l a ih =>
    have same : ∀ b ∈ l, (l ++ [a]).idxOf b = l.idxOf b := fun b => List.idxOf_append_of_mem
    have before : l.eraseDups.Pairwise fun b c => (l ++ [a]).idxOf b < (l ++ [a]).idxOf c := by
      refine ih.imp_of_mem fun {b c} hb hc less => ?_
      rwa [same b (List.mem_eraseDups.1 hb), same c (List.mem_eraseDups.1 hc)]
    rw [eraseDups_concat]
    split
    next => exact before
    next new =>
      refine List.pairwise_append.2 ⟨before, List.pairwise_singleton _ _, fun b hb c hc => ?_⟩
      have member := List.mem_eraseDups.1 hb
      rw [List.mem_singleton.1 hc, same b member, List.idxOf_append_of_notMem new]
      exact Nat.lt_add_right _ (List.idxOf_lt_length_of_mem member)

def Theme.Fills (theme : Theme) (shape : Shape) (line : String) : Prop :=
  ∃ fill, theme.fill? shape = some fill ∧
    line = "classDef " ++ shape.name ++ " fill:" ++ fill ++ "\n"

/-- The line defines the class of the shape, whatever its fill is. -/
def Shape.definedBy (shape : Shape) (line : String) : Bool :=
  ("classDef " ++ shape.name ++ " ").toList.isPrefixOf line.toList

def Box.NamesClass (theme : Theme) (box : Box) : Prop :=
  box.line theme = box.stem ++ ":::" ++ box.shape.name ++ "\n"

section Theme

variable {theme : Theme} {shape : Shape} {shapes : List Shape} {line : String} {lines : List String}

theorem Theme.Fills.definedBy_iff (h : theme.Fills shape line) (shape' : Shape) :
    shape'.definedBy line = true ↔ shape = shape' := by
  obtain ⟨fill, -, rfl⟩ := h
  cases shape <;> cases shape' <;> simp [Shape.definedBy, Shape.name]

theorem Shape.not_definedBy_linkLine (shape : Shape) :
    ∀ line ∈ theme.linkLine?, ¬ shape.definedBy line = true := by
  intro line drawn
  obtain ⟨stroke, -, rfl⟩ := Option.map_eq_some_iff.1 drawn
  cases shape <;> simp [definedBy, name]

theorem Theme.forall₂_fills (theme : Theme) (shapes : List Shape) :
    List.Forall₂ theme.Fills (shapes.filter fun shape => (theme.fill? shape).isSome)
      (shapes.filterMap theme.classLine?) := by
  induction shapes with
  | nil => exact .nil
  | cons shape shapes ih =>
    cases filled : theme.fill? shape with
    | none => simpa [List.filterMap_cons, classLine?, filled] using ih
    | some fill =>
      have line : theme.classLine? shape =
          some ("classDef " ++ shape.name ++ " fill:" ++ fill ++ "\n") := by
        rw [classLine?, filled, Option.map_some]
      rw [List.filter_cons_of_pos (by rw [filled]; rfl), List.filterMap_cons_some line]
      exact .cons ⟨fill, filled, rfl⟩ ih

theorem Theme.countP_definedBy (h : List.Forall₂ theme.Fills shapes lines) (shape : Shape) :
    lines.countP shape.definedBy = shapes.count shape := by
  induction h with
  | nil => rfl
  | cons fills _ ih =>
    simp only [List.countP_cons, List.count_cons, ih, fills.definedBy_iff, beq_iff_eq]

theorem Box.line_eq (theme : Theme) (box : Box) :
    box.line theme = box.stem ++ theme.classSuffix box.shape ++ "\n" := rfl

theorem Box.namesClass_iff (theme : Theme) (box : Box) :
    box.NamesClass theme ↔ (theme.fill? box.shape).isSome = true := by
  rw [NamesClass, line_eq, Theme.classSuffix]
  split
  next filled => simp [filled, String.append_assoc]
  next bare =>
    refine iff_of_false (fun same => ?_) bare
    have mark : ":::".length = 3 := rfl
    have length := congrArg String.length same
    simp only [String.length_append, String.length_empty, mark] at length
    omega

theorem Box.line_eq_of_not_namesClass {box : Box} (h : ¬ box.NamesClass theme) :
    box.line theme = box.stem ++ "\n" := by
  rw [namesClass_iff] at h
  rw [line_eq, Theme.classSuffix, if_neg h, String.append_empty]

end Theme

namespace Program

def firstUse (p : Program) (shape : Shape) : Nat := (p.boxes.map Box.shape).idxOf shape

structure UsedInOrder (p : Program) (shapes : List Shape) : Prop where
  mem_iff : ∀ shape, shape ∈ shapes ↔ ∃ box ∈ p.boxes, box.shape = shape
  nodup : shapes.Nodup
  ordered : shapes.Pairwise fun shape shape' => p.firstUse shape < p.firstUse shape'

def filledShapes (p : Program) (theme : Theme) : List Shape :=
  p.shapes.filter fun shape => (theme.fill? shape).isSome

/-- The chart ends with lines that define classes and lines that style links: one for each shape in
use that the theme fills, and one if the theme has a stroke for the links and there are any. -/
structure Styled (p : Program) (settings : Settings) (classes linkStyles : List String) : Prop where
  text_eq : p.render settings =
    p.direction.directive ++ String.join (p.boxes.map (Box.line settings.theme)) ++
      String.join (p.links settings).lines ++ String.join (classes ++ linkStyles)
  boxText_eq : p.boxText settings.theme =
    p.direction.directive ++ String.join (p.boxes.map (Box.line settings.theme))
  fills : List.Forall₂ settings.theme.Fills (p.filledShapes settings.theme) classes
  strokes : ∀ stroke, settings.theme.stroke? = some stroke → (p.links settings).lines ≠ [] →
    linkStyles = ["linkStyle default stroke: " ++ stroke ++ "\n"]
  plain : settings.theme.stroke? = none ∨ (p.links settings).lines = [] → linkStyles = []
  namesClass_iff : ∀ box ∈ p.boxes, box.NamesClass settings.theme ↔
    (classes ++ linkStyles).countP box.shape.definedBy = 1
  bare : ∀ box ∈ p.boxes, ¬ box.NamesClass settings.theme →
    box.line settings.theme = box.stem ++ "\n"
  used : ∀ shape, ∀ line ∈ classes ++ linkStyles, shape.definedBy line = true →
    ∃ box ∈ p.boxes, box.shape = shape ∧ box.NamesClass settings.theme

theorem usedInOrder_shapes (p : Program) : p.UsedInOrder p.shapes where
  mem_iff shape := by simp [shapes]
  nodup := nodup_eraseDups _
  ordered := pairwise_idxOf_eraseDups _

theorem mem_filledShapes {p : Program} {theme : Theme} {shape : Shape} :
    shape ∈ p.filledShapes theme ↔
      (∃ box ∈ p.boxes, box.shape = shape) ∧ (theme.fill? shape).isSome = true := by
  rw [filledShapes, List.mem_filter, p.usedInOrder_shapes.mem_iff]

theorem countP_definedBy_styles {p : Program} {theme : Theme} {classes linkStyles : List String}
    (fills : List.Forall₂ theme.Fills (p.filledShapes theme) classes)
    (links : ∀ line ∈ linkStyles, line ∈ theme.linkLine?) (shape : Shape) :
    (classes ++ linkStyles).countP shape.definedBy =
      if shape ∈ p.filledShapes theme then 1 else 0 := by
  have undefined : linkStyles.countP shape.definedBy = 0 :=
    List.countP_eq_zero.2 fun line member => shape.not_definedBy_linkLine line (links line member)
  have distinct : (p.filledShapes theme).Nodup := p.usedInOrder_shapes.nodup.filter _
  rw [List.countP_append, Theme.countP_definedBy fills, undefined, Nat.add_zero, distinct.count]

def linkStyle? (p : Program) (settings : Settings) : Option String :=
  if (p.links settings).lines = [] then none else settings.theme.linkLine?

theorem mem_linkLine?_of_mem_linkStyle? {p : Program} {settings : Settings} :
    ∀ line ∈ (p.linkStyle? settings).toList, line ∈ settings.theme.linkLine? := by
  intro line member
  rw [Option.mem_toList, linkStyle?] at member
  split at member
  next => cases member
  next => exact member

theorem render_eq_append_styles (p : Program) (settings : Settings) :
    p.render settings = p.boxText settings.theme ++ (p.links settings).text ++
      String.join
        (p.shapes.filterMap settings.theme.classLine? ++ (p.linkStyle? settings).toList) := by
  have empty : (p.links settings).count = 0 ↔ (p.links settings).lines = [] :=
    List.length_eq_zero_iff
  have join (line? : Option String) : String.join line?.toList = line?.getD "" := by
    cases line? <;> simp
  simp only [render, empty, linkStyle?, String.join_append, join, String.append_assoc]

theorem styled (p : Program) (settings : Settings) :
    p.Styled settings (p.shapes.filterMap settings.theme.classLine?)
      (p.linkStyle? settings).toList := by
  have fills := settings.theme.forall₂_fills p.shapes
  have count := countP_definedBy_styles fills (mem_linkLine?_of_mem_linkStyle? (p := p))
  have names : ∀ box ∈ p.boxes, box.shape ∈ p.filledShapes settings.theme ↔
      box.NamesClass settings.theme := by
    intro box member
    rw [mem_filledShapes, Box.namesClass_iff]
    exact and_iff_right ⟨box, member, rfl⟩
  have boxText : p.boxText settings.theme =
      p.direction.directive ++ String.join (p.boxes.map (Box.line settings.theme)) := rfl
  refine ⟨?_, boxText, fills, ?_, ?_, ?_, fun _ _ => Box.line_eq_of_not_namesClass, ?_⟩
  · rw [render_eq_append_styles, boxText, Links.text]
  · intro stroke strokes drawn
    simp [linkStyle?, drawn, Theme.linkLine?, strokes]
  · rintro (bare | linkless)
    · simp [linkStyle?, Theme.linkLine?, bare]
    · simp [linkStyle?, linkless]
  · intro box member
    rw [count, ← names box member]
    simp
  · intro shape line member defines
    have filled : shape ∈ p.filledShapes settings.theme := by
      by_contra missing
      have undefined := count shape
      rw [if_neg missing, List.countP_eq_zero] at undefined
      exact undefined line member defines
    obtain ⟨box, drawn, rfl⟩ := (mem_filledShapes.1 filled).1
    exact ⟨box, drawn, rfl, (names box drawn).1 filled⟩

/-- The styles at the end of a chart are those that its boxes and links ask for, the shapes are
listed as the boxes first use them, and every number belongs to the root, a box, a node that leaves
the program or one of the two branches of a condition. -/
theorem render_styled (p : Program) (settings : Settings) :
    (∃ classes linkStyles, p.Styled settings classes linkStyles) ∧ p.UsedInOrder p.shapes ∧
    p.boxes = (Node.preorder p.nodes).filterMap Node.box? ∧
    p.size = 1 + p.boxes.length + (Node.preorder p.nodes).countP Node.isLeave +
      2 * (Node.preorder p.nodes).countP Node.isCondition := by
  refine ⟨⟨_, _, p.styled settings⟩, p.usedInOrder_shapes, Node.boxesAll_eq_filterMap p.nodes, ?_⟩
  rw [size, Node.sizeAll_eq_length_boxesAll, ← boxes]
  omega

/-- A statement drawn like a condition before a condition, and a shape that no theme fills. -/
def mixed : Program where
  direction := .leftRight
  nodes :=
    [.expression 1 "a" .condition,
     .condition 2 "b" 3 [.expression 5 "c" .square, .leave 6] 4 [.expression 7 "d" .parallelogram],
     .expression 8 "e" .square]

theorem render_styled_mixed :
    ∃ classes linkStyles, mixed.Styled { theme := .vivid } classes linkStyles ∧
      mixed.boxText .vivid = String.join
        ["flowchart LR;\n", "  1\x7b\x22a\x22\x7d:::condition\n",
         "  2\x7b\x22b\x22\x7d:::condition\n", "  5[\x22c\x22]:::square\n",
         "  7[/\x22d\x22/]\n", "  8[\x22e\x22]:::square\n"] ∧
      classes = ["classDef condition fill:hotpink\n", "classDef square fill:coral\n"] ∧
      linkStyles = ["linkStyle default stroke: red\n"] ∧ mixed.size = 9 := by
  obtain ⟨⟨classes, linkStyles, styled⟩, -, -, size⟩ := mixed.render_styled { theme := .vivid }
  have filled : mixed.filledShapes .vivid = [.condition, .square] := by decide
  have lines : (mixed.links { theme := .vivid }).lines =
      ["  1-->2\n", "  2-->|True|5\n", "  2-->|False|7\n", "  7-->8\n"] := by cbv
  have fills := styled.fills
  rw [filled] at fills
  refine ⟨classes, linkStyles, styled, styled.boxText_eq.trans (by cbv), ?_,
    styled.strokes "red" rfl (by simp [lines]), size⟩
  obtain _ | ⟨⟨_, ⟨⟩, rfl⟩, _ | ⟨⟨_, ⟨⟩, rfl⟩, ⟨⟩⟩⟩ := fills
  rfl

end Program

end Flowchart
