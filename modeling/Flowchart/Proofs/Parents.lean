import Flowchart.Proofs.Targets

/-! The directories around a path, as its text names them. A path is made of its parts again, each
directory around it is made of some of its first parts, and so it starts at the same place and takes
the first of the same steps. -/
namespace Flowchart

namespace Text

theorem ofList_cons (c : Char) (cs : List Char) :
    String.ofList (c :: cs) = String.ofList [c] ++ String.ofList cs := by
  rw [← String.ofList_append]
  rfl

theorem intercalate_splitList (sep : Char) (cs : List Char) :
    (String.ofList [sep]).intercalate ((splitList sep cs).map String.ofList) = String.ofList cs := by
  induction cs with
  | nil => rfl
  | cons c cs ih =>
    by_cases same : c = sep
    · rw [same, splitList_cons_sep, List.map_cons,
        String.intercalate_cons_of_ne_nil (by simp [splitList_ne_nil]), ih, ofList_cons sep]
      simp
    · obtain ⟨part, parts, parted⟩ := List.exists_cons_of_ne_nil (splitList_ne_nil sep cs)
      rw [parted, List.map_cons] at ih
      rw [splitList_cons_of_ne same parted, List.map_cons, ofList_cons c part,
        String.intercalate_cons_append, ih, ← ofList_cons]

theorem notMem_splitList (sep : Char) (cs : List Char) : ∀ part ∈ splitList sep cs, sep ∉ part := by
  induction cs with
  | nil => simp
  | cons c cs ih =>
    by_cases same : c = sep
    · rw [same, splitList_cons_sep, List.forall_mem_cons]
      exact ⟨by simp, ih⟩
    · obtain ⟨part, parts, parted⟩ := List.exists_cons_of_ne_nil (splitList_ne_nil sep cs)
      rw [parted, List.forall_mem_cons] at ih
      rw [splitList_cons_of_ne same parted, List.forall_mem_cons]
      exact ⟨by simp [ih.1, Ne.symm same], ih.2⟩

end Text

namespace Files

namespace Path

variable {first part : String} {parts : List String}

theorem ofNames_split (path : String) : ofNames (Text.split '/' path) = path := by
  have whole := Text.intercalate_splitList '/' path.toList
  rwa [String.ofList_toList] at whole

theorem slashless_split (path : String) : ∀ name ∈ Text.split '/' path, '/' ∉ name.toList := by
  simpa [Text.split] using Text.notMem_splitList '/' path.toList

/-- The path of the directory that the first part and these, which are in reverse, lead to. -/
def folder (first : String) (parts : List String) : String :=
  let around := (parts.dropWhile isIdle).reverse
  if around.isEmpty ∧ first = "" then "/" else ofNames (first :: around)

theorem parentsFrom_cons (idle : isIdle part = false) :
    parentsFrom first (part :: parts) = folder first parts :: parentsFrom first parts := by
  rw [parentsFrom, if_neg (by simp [idle])]
  rfl

theorem parentsFrom_cons_idle (idle : isIdle part = true) :
    parentsFrom first (part :: parts) = parentsFrom first parts := by
  rw [parentsFrom, if_pos idle]

theorem folder_cons (idle : isIdle part = false) :
    folder first (part :: parts) = ofNames (first :: (parts.reverse ++ [part])) := by
  simp [folder, idle]

theorem folder_cons_idle (idle : isIdle part = true) :
    folder first (part :: parts) = folder first parts := by
  simp [folder, idle]

theorem isIdle_iff : isIdle part = true ↔ step part = .stay := by
  unfold isIdle step
  grind

theorem isIdle_eq_false_iff : isIdle part = false ↔ step part ≠ .stay := by
  rw [← Bool.not_eq_true, isIdle_iff]

def stepsFrom (first : String) (parts : List String) : List Step :=
  step first :: parts.reverse.map step

theorem stepsFrom_cons (first part : String) (parts : List String) :
    stepsFrom first (part :: parts) = stepsFrom first parts ++ [step part] := by
  simp [stepsFrom]

theorem steps_folder_cons (slashless : ∀ name ∈ first :: part :: parts, '/' ∉ name.toList)
    (idle : isIdle part = false) :
    steps (folder first (part :: parts)) = stepsFrom first parts ++ [step part] := by
  have slashless' : ∀ name ∈ first :: (parts.reverse ++ [part]), '/' ∉ name.toList := by
    intro name member
    exact slashless name (by simpa [or_comm, or_assoc] using member)
  rw [folder_cons idle, steps, split_ofNames (by simp) slashless']
  simp [stepsFrom]

theorem isAbsolute_of_slashless (slashless : '/' ∉ first.toList) : isAbsolute first = false := by
  rw [isAbsolute, beq_eq_false_iff_ne]
  exact fun head => slashless (List.mem_of_head? head)

theorem isAbsolute_append_slash {below : String} (slashless : '/' ∉ first.toList) :
    isAbsolute (first ++ "/" ++ below) = decide (first = "") := by
  by_cases empty : first = ""
  · subst empty
    simp [isAbsolute]
  · have front : first.toList ≠ [] := by simpa using empty
    have same : isAbsolute (first ++ "/" ++ below) = isAbsolute first := by
      simp [isAbsolute, List.head?_append_of_ne_nil _ front]
    rw [same, isAbsolute_of_slashless slashless, decide_eq_false empty]

theorem isAbsolute_folder (slashless : '/' ∉ first.toList) :
    isAbsolute (folder first parts) = decide (first = "") := by
  unfold folder
  dsimp only
  cases around : (parts.dropWhile isIdle).reverse with
  | nil =>
    by_cases empty : first = ""
    · simp [empty, isAbsolute]
    · simp [empty, ofNames, isAbsolute_of_slashless slashless]
  | cons second others =>
    simp [ofNames, String.intercalate_cons_cons, isAbsolute_append_slash slashless]

theorem folder_ne (first : String) (parts : List String) : folder first parts ≠ "" := by
  unfold folder
  dsimp only
  cases around : (parts.dropWhile isIdle).reverse with
  | nil =>
    by_cases empty : first = ""
    · simp [empty]
    · simp [empty, ofNames]
  | cons second others =>
    simp [ofNames, String.intercalate_cons_cons]

theorem utf8ByteSize_folder_le (first part : String) (parts : List String) :
    (folder first parts).utf8ByteSize ≤
      (ofNames (first :: (parts.reverse ++ [part]))).utf8ByteSize := by
  have split : parts.reverse =
      (parts.dropWhile isIdle).reverse ++ (parts.takeWhile isIdle).reverse := by
    rw [← List.reverse_append, List.takeWhile_append_dropWhile]
  have whole : ofNames (first :: (parts.reverse ++ [part])) =
      ofNames (first :: (parts.dropWhile isIdle).reverse) ++ "/" ++
        ofNames ((parts.takeWhile isIdle).reverse ++ [part]) := by
    rw [split, List.append_assoc, ← List.cons_append]
    exact String.intercalate_append_of_ne_nil (by simp) (by simp)
  have slash : "/".utf8ByteSize = 1 := by decide
  rw [whole, String.utf8ByteSize_append, String.utf8ByteSize_append, slash]
  unfold folder
  dsimp only
  split
  next => omega
  next => omega

end Path

end Files

end Flowchart
