/-! Cutting a text at every occurrence of one character. -/
namespace Flowchart.Text

/-- One more part than there are separators, so the empty list has one empty part. -/
def splitList (sep : Char) (cs : List Char) : List (List Char) :=
  cs.foldr (fun c parts =>
    if c = sep then [] :: parts
    else match parts with
      | [] => [[c]]
      | part :: parts => (c :: part) :: parts) [[]]

@[simp] theorem splitList_nil (sep : Char) : splitList sep [] = [[]] := rfl

theorem splitList_cons_sep (sep : Char) (cs : List Char) :
    splitList sep (sep :: cs) = [] :: splitList sep cs := by
  simp [splitList]

theorem splitList_cons_of_ne {sep c : Char} {cs part : List Char} {parts : List (List Char)}
    (other : c ≠ sep) (h : splitList sep cs = part :: parts) :
    splitList sep (c :: cs) = (c :: part) :: parts := by
  unfold splitList at h ⊢
  rw [List.foldr_cons, if_neg other, h]

theorem splitList_ne_nil (sep : Char) (cs : List Char) : splitList sep cs ≠ [] := by
  cases cs with
  | nil => simp
  | cons c cs =>
    simp only [splitList, List.foldr_cons]
    split
    · simp
    · split <;> simp

def split (sep : Char) (text : String) : List String :=
  (splitList sep text.toList).map String.ofList

theorem split_ne_nil (sep : Char) (text : String) : split sep text ≠ [] := by
  simp [split, splitList_ne_nil]

end Flowchart.Text
