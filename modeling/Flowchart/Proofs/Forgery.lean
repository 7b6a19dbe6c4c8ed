import Flowchart.Proofs.Appearance

/-! What the lines of boxes tell. The number and the shape of a box can be read off its line, since
neither has a quotation mark. Its label is written as it is, so that a label can hold the end of its
own line and the beginning of another one. That is the only way in which two lists of boxes have the
same text: where they first differ, the label of one box holds a line that the other list has. -/
namespace Flowchart

/-- A mark that ends with a character found nowhere else in it stands at the front and behind `front`,
which is then empty or has the mark at its own front. -/
theorem eq_nil_or_mark {c : Char} {mark front rest rest' : List Char} (fresh : c ∉ mark)
    (h : mark ++ c :: rest = front ++ (mark ++ c :: rest')) :
    front = [] ∧ rest = rest' ∨
      ∃ more, front = mark ++ c :: more ∧ rest = more ++ (mark ++ c :: rest') := by
  rcases List.append_eq_append_iff.1 h with ⟨front', rfl, tail⟩ | ⟨back, split, tail⟩
  · cases front' with
    | nil =>
      cases mark with
      | nil => exact .inl ⟨rfl, by simpa using tail⟩
      | cons first mark =>
        have same : c = first := (List.cons.inj tail).1
        simp [same] at fresh
    | cons first front' =>
      obtain ⟨rfl, behind⟩ := List.cons.inj tail
      exact .inr ⟨front', rfl, behind⟩
  · -- The mark begins again inside itself, which its last character excludes.
    have inside : ∀ d ∈ mark, (d != c) = true := by
      intro d member
      have other : d ≠ c := fun same => fresh (same ▸ member)
      simpa using other
    have inside' : ∀ d ∈ back, (d != c) = true := fun d member => inside d (by simp [split, member])
    obtain ⟨same, tails⟩ := append_inj_of_stop inside inside' (by simp) (by simp) tail
    have empty : front = [] := by simpa [same] using split
    exact .inl ⟨empty, (List.cons.inj tails).2.symm⟩

theorem eq_or_mark {c : Char} {mark text text' rest rest' : List Char} (fresh : c ∉ mark)
    (h : text ++ (mark ++ c :: rest) = text' ++ (mark ++ c :: rest')) :
    text = text' ∧ rest = rest' ∨
      (∃ more, text' = text ++ (mark ++ c :: more) ∧ rest = more ++ (mark ++ c :: rest')) ∨
      ∃ more, text = text' ++ (mark ++ c :: more) ∧ rest' = more ++ (mark ++ c :: rest) := by
  rcases List.append_eq_append_iff.1 h with ⟨front, rfl, tail⟩ | ⟨front, rfl, tail⟩
  · rcases eq_nil_or_mark fresh tail with ⟨rfl, same⟩ | ⟨more, rfl, same⟩
    · exact .inl ⟨by simp, same⟩
    · exact .inr (.inl ⟨more, rfl, same⟩)
  · rcases eq_nil_or_mark fresh tail with ⟨rfl, same⟩ | ⟨more, rfl, same⟩
    · exact .inl ⟨by simp, same.symm⟩
    · exact .inr (.inr ⟨more, rfl, same⟩)

namespace Box

def opening (box : Box) : String := "  " ++ box.id.name ++ box.shape.brackets.1

def closing (theme : Theme) (box : Box) : String :=
  "\x22" ++ box.shape.brackets.2 ++ theme.classSuffix box.shape

theorem toList_line (theme : Theme) (box : Box) :
    (box.line theme).toList =
      box.opening.toList ++ '"' :: (box.text.toList ++ ((box.closing theme).toList ++ ['\n'])) := by
  simp [line, opening, closing]

theorem quote_not_mem_opening (box : Box) : '"' ∉ box.opening.toList := by
  have digits : '"' ∉ box.id.name.toList := fun member =>
    absurd (NodeId.isDigit_of_mem_name member) (by decide)
  cases h : box.shape <;> simp [opening, h, Shape.brackets, digits]

theorem newline_not_mem_closing (theme : Theme) (box : Box) :
    '\n' ∉ (box.closing theme).toList := by
  cases theme <;> cases h : box.shape <;>
    simp [closing, h, Shape.brackets, Theme.classSuffix, Theme.fill?, Shape.name]

theorem opening_injective {box box' : Box} {rest rest' : List Char}
    (h : box.opening.toList ++ '"' :: rest = box'.opening.toList ++ '"' :: rest') :
    box.id = box'.id ∧ box.shape = box'.shape ∧ rest = rest' := by
  have plain (box : Box) : ∀ c ∈ box.opening.toList, (c != '"') = true := by
    intro c member
    have other : c ≠ '"' := fun same => box.quote_not_mem_opening (same ▸ member)
    simpa using other
  obtain ⟨openings, rests⟩ := append_inj_of_stop (plain box) (plain box') (by simp) (by simp) h
  have bracket (shape : Shape) : ∀ c ∈ shape.brackets.1.toList.head?, c.isDigit = false := by
    cases shape <;> simp [Shape.brackets]
  have names : box.id.name.toList ++ box.shape.brackets.1.toList =
      box'.id.name.toList ++ box'.shape.brackets.1.toList := by
    simpa [opening] using openings
  obtain ⟨id, brackets⟩ := name_append_inj (bracket box.shape) (bracket box'.shape) names
  refine ⟨id, ?_, (List.cons.inj rests).2⟩
  cases first : box.shape <;> cases second : box'.shape <;>
    simp_all [Shape.brackets]

def lineText (theme : Theme) (boxes : List Box) : List Char :=
  (String.join (boxes.map (line theme))).toList

@[simp] theorem lineText_nil (theme : Theme) : lineText theme [] = [] := rfl

theorem lineText_cons (theme : Theme) (box : Box) (boxes : List Box) :
    lineText theme (box :: boxes) =
      box.opening.toList ++ '"' ::
        (box.text.toList ++ ((box.closing theme).toList ++ '\n' :: lineText theme boxes)) := by
  simp [lineText, toList_line]

/-- Two lists of boxes agree up to a box whose label in the second one goes on where it ends in the
first one, with the rest of its line and the beginning of the next line of the first. -/
inductive Forges (theme : Theme) : List Box → List Box → Prop where
  | here {box next forged : Box} {boxes boxes' : List Box} {more : String} :
      forged.id = box.id → forged.shape = box.shape →
      forged.text = box.text ++ box.closing theme ++ "\n" ++ next.opening ++ more →
      Forges theme (box :: next :: boxes) (forged :: boxes')
  | later {box : Box} {boxes boxes' : List Box} :
      Forges theme boxes boxes' → Forges theme (box :: boxes) (box :: boxes')

variable {theme : Theme} {box forged : Box} {boxes boxes' : List Box}

theorem forges_of_longer {more rest : List Char} (id : forged.id = box.id)
    (shape : forged.shape = box.shape)
    (text : forged.text.toList = box.text.toList ++ ((box.closing theme).toList ++ '\n' :: more))
    (lines : lineText theme boxes = more ++ ((box.closing theme).toList ++ '\n' :: rest)) :
    Forges theme (box :: boxes) (forged :: boxes') := by
  cases boxes with
  | nil => simp [lineText] at lines
  | cons next boxes =>
    have longer : ∃ more', more = next.opening.toList ++ more' := by
      rw [lineText_cons] at lines
      rcases List.append_eq_append_iff.1 lines with ⟨more', split, -⟩ | ⟨back, split, tail⟩
      · exact ⟨more', split⟩
      · cases back with
        | nil => exact ⟨[], by simpa using split.symm⟩
        | cons c back =>
          have quote : '"' = c := by
            simp only [closing, String.toList_append, List.append_assoc] at tail
            exact (List.cons.inj tail).1
          exact absurd (by rw [split, quote]; simp) next.quote_not_mem_opening
    obtain ⟨more', rfl⟩ := longer
    have whole : forged.text = box.text ++ box.closing theme ++ "\n" ++ next.opening ++
        String.ofList more' := String.toList_inj.1 (by simp [text])
    exact .here id shape whole

theorem eq_or_forges (h : lineText theme boxes = lineText theme boxes') :
    boxes = boxes' ∨ Forges theme boxes boxes' ∨ Forges theme boxes' boxes := by
  induction boxes generalizing boxes' with
  | nil =>
    cases boxes' with
    | nil => exact .inl rfl
    | cons box' boxes' =>
      rw [lineText_cons] at h
      simp at h
  | cons box boxes ih =>
    cases boxes' with
    | nil =>
      rw [lineText_cons] at h
      simp at h
    | cons box' boxes' =>
      rw [lineText_cons, lineText_cons] at h
      obtain ⟨id, shape, rests⟩ := opening_injective h
      have closings : box'.closing theme = box.closing theme := by simp [closing, shape]
      rw [closings] at rests
      rcases eq_or_mark (newline_not_mem_closing theme box) rests with
        ⟨texts, lines⟩ | ⟨more, text, lines⟩ | ⟨more, text, lines⟩
      · have same : box = box' := by
          rw [Box.mk.injEq]
          exact ⟨id, String.toList_inj.1 texts, shape⟩
        subst same
        rcases ih lines with rfl | forges | forges
        · exact .inl rfl
        · exact .inr (.inl (.later forges))
        · exact .inr (.inr (.later forges))
      · exact .inr (.inl (forges_of_longer id.symm shape.symm text lines))
      · rw [← closings] at text lines
        exact .inr (.inr (forges_of_longer id shape text lines))

theorem Forges.exists_newline (h : Forges theme boxes boxes') :
    ∃ box ∈ boxes', '\n' ∈ box.text.toList := by
  induction h with
  | here _ _ text => exact ⟨_, List.mem_cons_self, by simp [text]⟩
  | later _ ih =>
    obtain ⟨box, member, broken⟩ := ih
    exact ⟨box, List.mem_cons_of_mem _ member, broken⟩

end Box

namespace Program

variable {settings : Settings} {source source' : String} {p p' : Program}

theorem direction_of_ofSource (h : ofSource settings source = .ok p) :
    p.direction = settings.direction := by
  rcases ofSource_cases settings settings source with
    ⟨failure, fails, -⟩ | ⟨q, -, reads, -, direction, -⟩
  · cases h.symm.trans fails
  · cases h.symm.trans reads
    exact direction

/-- The lines of boxes tell the boxes, unless a label forges a line. Labels of one line do not. -/
theorem boxes_eq_or_forges (h : ofSource settings source = .ok p)
    (h' : ofSource settings source' = .ok p')
    (same : p.boxText settings.theme = p'.boxText settings.theme) :
    (p.boxes = p'.boxes ∨ Box.Forges settings.theme p.boxes p'.boxes ∨
      Box.Forges settings.theme p'.boxes p.boxes) ∧
    ((∀ box ∈ p.boxes ++ p'.boxes, '\n' ∉ box.text.toList) → p.boxes = p'.boxes) := by
  rw [boxText, boxText, direction_of_ofSource h, direction_of_ofSource h',
    String.append_right_inj] at same
  have cases := Box.eq_or_forges (congrArg String.toList same)
  refine ⟨cases, fun unbroken => ?_⟩
  rcases cases with equal | forges | forges
  · exact equal
  · obtain ⟨box, member, broken⟩ := forges.exists_newline
    exact absurd broken (unbroken box (List.mem_append_right _ member))
  · obtain ⟨box, member, broken⟩ := forges.exists_newline
    exact absurd broken (unbroken box (List.mem_append_left _ member))

/-- One statement, whose label has the end of its line and a line for another box. -/
def forging : Program where
  direction := .topDown
  nodes := [.expression 1 "a\x22]\n  3[\x22b" .square]

def forgingText : String := "'a\x22]\n  3[\x22b';"

def parted : Program where
  direction := .topDown
  nodes := [.expression 1 "a" .square, .leave 2, .expression 3 "b" .square]

def partedText : String := "a; return; \x7d b;"

theorem ofSource_forgingText : ofSource {} forgingText = .ok forging := by
  cbv

theorem ofSource_partedText : ofSource {} partedText = .ok parted := by
  cbv

theorem boxText_parted : parted.boxText .plain = forging.boxText .plain := by
  cbv

theorem boxes_eq_or_forges_parted :
    ofSource {} partedText = .ok parted ∧ ofSource {} forgingText = .ok forging ∧
    parted.boxText .plain = forging.boxText .plain ∧
    Box.Forges .plain parted.boxes forging.boxes := by
  have cases := (boxes_eq_or_forges ofSource_partedText ofSource_forgingText boxText_parted).1
  have boxes : parted.boxes = [⟨1, "a", .square⟩, ⟨3, "b", .square⟩] := rfl
  have boxes' : forging.boxes = [⟨1, "a\x22]\n  3[\x22b", .square⟩] := rfl
  have unbroken : ∀ box ∈ parted.boxes, '\n' ∉ box.text.toList := by simp [boxes]
  refine ⟨ofSource_partedText, ofSource_forgingText, boxText_parted, ?_⟩
  rcases cases with equal | forges | forges
  · simp [boxes, boxes'] at equal
  · exact forges
  · obtain ⟨box, member, broken⟩ := forges.exists_newline
    exact absurd broken (unbroken box member)

/-- Two programs with different boxes can have the same lines. -/
theorem exists_boxText_eq :
    ¬ ∀ (settings : Settings) (source source' : String) (p p' : Program),
        ofSource settings source = .ok p → ofSource settings source' = .ok p' →
        p.boxText settings.theme = p'.boxText settings.theme → p.boxes = p'.boxes := by
  intro determined
  have equal := determined {} partedText forgingText parted forging ofSource_partedText
    ofSource_forgingText boxText_parted
  simp [boxes, Node.boxesAll, Node.boxes, parted, forging] at equal

end Program

end Flowchart
