import Flowchart.Proofs.Writing

/-! Where charts go. Below a directory, whatever its path, proper names lead to the place that they
name, and different names to different places. The name of a chart keeps all of the name of its source
but the extension, so different sources have different targets. The one exception is a source whose name
is a dot before its extension: its target names a directory, and no file can be written there. -/
namespace Flowchart

namespace Text

theorem splitList_append_sep (sep : Char) (cs cs' : List Char) :
    splitList sep (cs ++ sep :: cs') = splitList sep cs ++ splitList sep cs' := by
  induction cs with
  | nil => simp [splitList_cons_sep]
  | cons c cs ih =>
    by_cases same : c = sep
    · rw [same, List.cons_append, splitList_cons_sep, splitList_cons_sep, ih, List.cons_append]
    · obtain ⟨part, parts, parted⟩ := List.exists_cons_of_ne_nil (splitList_ne_nil sep cs)
      rw [parted, List.cons_append] at ih
      rw [List.cons_append, splitList_cons_of_ne same ih, splitList_cons_of_ne same parted,
        List.cons_append]

theorem splitList_of_notMem {sep : Char} {cs : List Char} (h : sep ∉ cs) :
    splitList sep cs = [cs] := by
  induction cs with
  | nil => rfl
  | cons c cs ih =>
    simp only [List.mem_cons, not_or] at h
    exact splitList_cons_of_ne (Ne.symm h.1) (ih h.2)

end Text

namespace Files

theorem along_into (here : Place) (names : List String) :
    along here (names.map .into) = here ++ names := by
  induction names generalizing here with
  | nil => simp
  | cons name names ih => simp [Step.apply, ih]

structure Proper (name : String) : Prop where
  into : Path.step name = .into name
  slashless : '/' ∉ name.toList

instance (name : String) : Decidable (Proper name) :=
  decidable_of_iff (Path.step name = .into name ∧ '/' ∉ name.toList)
    ⟨fun ⟨into, slashless⟩ => ⟨into, slashless⟩, fun ⟨into, slashless⟩ => ⟨into, slashless⟩⟩

namespace Path

theorem split_append_slash (directory below : String) :
    Text.split '/' (directory ++ "/" ++ below) =
      Text.split '/' directory ++ Text.split '/' below := by
  have cut := Text.splitList_append_sep '/' directory.toList below.toList
  simp [Text.split, cut]

theorem split_of_slashless {name : String} (h : '/' ∉ name.toList) : Text.split '/' name = [name] := by
  simp [Text.split, Text.splitList_of_notMem h]

theorem split_ofNames {names : List String} (nonempty : names ≠ [])
    (slashless : ∀ name ∈ names, '/' ∉ name.toList) : Text.split '/' (ofNames names) = names := by
  induction names with
  | nil => exact absurd rfl nonempty
  | cons name names ih =>
    obtain ⟨first, others⟩ := List.forall_mem_cons.1 slashless
    cases names with
    | nil => rw [ofNames, String.intercalate_singleton, split_of_slashless first]
    | cons second names =>
      have rest := ih (by simp) others
      rw [ofNames] at rest ⊢
      rw [String.intercalate_cons_cons, split_append_slash, split_of_slashless first, rest]
      rfl

theorem steps_ofNames {names : List String} (nonempty : names ≠ [])
    (proper : ∀ name ∈ names, Proper name) : steps (ofNames names) = names.map .into := by
  rw [steps, split_ofNames nonempty fun name member => (proper name member).slashless]
  exact List.map_congr_left fun name member => (proper name member).into

theorem eq_append_slash {path : String} (h : endsInSlash path = true) :
    ∃ front, path = front ++ "/" := by
  obtain ⟨front, split⟩ := List.getLast?_eq_some_iff.1 (by simpa [endsInSlash] using h)
  exact ⟨String.ofList front, String.toList_injective (by simpa using split)⟩

theorem steps_append_slash (directory below : String) :
    steps (directory ++ "/" ++ below) = steps directory ++ steps below := by
  rw [steps, split_append_slash, List.map_append]
  rfl

theorem steps_join (directory below : String) :
    ∃ front, steps (join directory below) = front ++ steps below ∧
      ∀ here, along here front = along here (steps directory) := by
  unfold join
  split
  next slash =>
    rcases slash with rfl | slash
    · exact ⟨[], by simp, fun here => rfl⟩
    · obtain ⟨front, rfl⟩ := eq_append_slash slash
      refine ⟨steps front, steps_append_slash front below, fun here => ?_⟩
      have idle := steps_append_slash front ""
      rw [String.append_empty] at idle
      rw [idle]
      exact (along_append here (steps front) [.stay]).symm
  next =>
    exact ⟨steps directory, steps_append_slash directory below, fun here => rfl⟩

theorem join_injective {directory below below' : String}
    (h : join directory below = join directory below') : below = below' := by
  unfold join at h
  split at h <;> exact (String.append_right_inj _).1 h

theorem isAbsolute_ofNames {names : List String} (nonempty : names ≠ [])
    (proper : ∀ name ∈ names, Proper name) : isAbsolute (ofNames names) = false := by
  refine Bool.eq_false_iff.2 fun absolute => ?_
  obtain ⟨below, cut⟩ := List.head?_eq_some_iff.1 (by simpa [isAbsolute] using absolute)
  have path : ofNames names = "" ++ "/" ++ String.ofList below :=
    String.toList_injective (by simp [cut])
  have first := steps_ofNames nonempty proper
  rw [path, steps_append_slash] at first
  cases names with
  | nil => exact nonempty rfl
  | cons name names => cases first

theorem isAbsolute_join {directory below : String} (h : isAbsolute below = false) :
    isAbsolute (join directory below) = isAbsolute directory := by
  by_cases empty : directory = ""
  · rw [empty, join, if_pos (.inl rfl), String.empty_append, h]
    rfl
  · have front : directory.toList ≠ [] := by simpa using empty
    unfold join isAbsolute
    split <;> simp [List.head?_append_of_ne_nil _ front]

end Path

namespace Name

theorem eq_of_parted? {name stem extension : String} (h : parted? name = some (stem, extension)) :
    name = stem ++ "." ++ extension := by
  unfold parted? at h
  dsimp only at h
  split at h
  next => cases h
  next => cases h
  next c cs _ cut =>
    cases h
    have first := List.head?_dropWhile_not (· != '.') name.toList.reverse
    have whole := List.takeWhile_append_dropWhile (p := (· != '.')) (l := name.toList.reverse)
    rw [cut] at first whole
    have dot : c = '.' := by simpa using first
    have turned := congrArg List.reverse whole
    exact String.toList_injective (by simpa [dot] using turned.symm)

end Name

end Files

namespace Command
open Files

/-- The name of a chart, without the extension of its source. -/
def chartName (stem : String) : String := if stem = "." then ".." else stem ++ "." ++ chartExtension

theorem chartName_of_ne {stem : String} (h : stem ≠ ".") :
    chartName stem = stem ++ "." ++ chartExtension :=
  if_neg h

theorem length_chartName {stem : String} (h : stem ≠ ".") : 4 ≤ (chartName stem).length := by
  rw [chartName_of_ne h, String.length_append, String.length_append]
  change 4 ≤ stem.length + 1 + 3
  omega

theorem chartName_injective {stem stem' : String} (h : chartName stem = chartName stem') :
    stem = stem' := by
  by_cases dot : stem = "." <;> by_cases dot' : stem' = "."
  · rw [dot, dot']
  · have size := length_chartName dot'
    rw [← h, dot] at size
    exact absurd size (by decide)
  · have size := length_chartName dot
    rw [h, dot'] at size
    exact absurd size (by decide)
  · simpa [chartName_of_ne dot, chartName_of_ne dot'] using h

theorem slashless_chartName {stem extension : String}
    (h : '/' ∉ (stem ++ "." ++ extension).toList) : '/' ∉ (chartName stem).toList := by
  by_cases dot : stem = "."
  · subst dot
    decide
  · rw [chartName_of_ne dot]
    simp_all [chartExtension]

theorem step_chartName {stem : String} (h : stem ≠ ".") :
    Path.step (chartName stem) = .into (chartName stem) := by
  have size := length_chartName h
  have long {short : String} (few : short.length < 4) : chartName stem ≠ short := by
    rintro rfl
    omega
  rw [Path.step, if_neg (not_or.2 ⟨long (by decide), long (by decide)⟩), if_neg (long (by decide))]

theorem exists_stem {names : List String} (h : Folder.isSource names = true) :
    ∃ front stem, names = front ++ [stem ++ "." ++ Folder.sourceExtension] ∧
      ∀ output, target output names = Path.join output (Path.ofNames (front ++ [chartName stem])) := by
  have ends : names.getLast?.bind Name.extension? = some Folder.sourceExtension := by
    simpa [Folder.isSource] using h
  obtain ⟨name, last, extended⟩ := Option.bind_eq_some_iff.1 ends
  obtain ⟨front, rfl⟩ := List.getLast?_eq_some_iff.1 last
  obtain ⟨⟨stem, _⟩, parted, rfl⟩ := Option.map_eq_some_iff.1 extended
  refine ⟨front, stem, by rw [Name.eq_of_parted? parted], fun output => ?_⟩
  simp only [target, last, List.dropLast_concat, Name.withExtension, parted]
  rfl

theorem slashless_chart {front : List String} {stem extension : String}
    (proper : ∀ name ∈ front ++ [stem ++ "." ++ extension], Proper name) :
    ∀ name ∈ front ++ [chartName stem], '/' ∉ name.toList := by
  rw [List.forall_mem_append, List.forall_mem_singleton] at proper ⊢
  exact ⟨fun name member => (proper.1 name member).slashless, slashless_chartName proper.2.slashless⟩

/-- How a source in a folder is named. -/
structure Sourced (names : List String) : Prop where
  isSource : Folder.isSource names = true
  proper : ∀ name ∈ names, Proper name

section
variable {names names' : List String} {output : String}

theorem target_injective (h : Sourced names) (h' : Sourced names')
    (same : target output names = target output names') : names = names' := by
  obtain ⟨front, stem, rfl, there⟩ := exists_stem h.isSource
  obtain ⟨front', stem', rfl, there'⟩ := exists_stem h'.isSource
  rw [there, there'] at same
  have split := congrArg (Text.split '/') (Path.join_injective same)
  rw [Path.split_ofNames (by simp) (slashless_chart h.proper),
    Path.split_ofNames (by simp) (slashless_chart h'.proper)] at split
  obtain ⟨rfl, last⟩ := List.append_inj' split rfl
  rw [chartName_injective (List.singleton_injective last)]

/-- If the target names a file at all, its place is the one below the output folder to which the names
of the source lead, up to the extension. -/
theorem along_target (h : Sourced names) (named : Path.Named (target output names)) (here : Place) :
    ∃ front stem, names = front ++ [stem ++ "." ++ Folder.sourceExtension] ∧
      along (Tree.origin here (target output names)) (Path.steps (target output names)) =
        along (Tree.origin here output) (Path.steps output) ++ (front ++ [chartName stem]) := by
  obtain ⟨front, stem, rfl, there⟩ := exists_stem h.isSource
  obtain ⟨ahead, through, arrives⟩ :=
    Path.steps_join output (Path.ofNames (front ++ [chartName stem]))
  have slashless := slashless_chart h.proper
  have extended : stem ≠ "." := by
    rintro rfl
    obtain ⟨front', name, named⟩ := named
    rw [there, through, Path.steps, Path.split_ofNames (by simp) slashless] at named
    rw [List.map_append, ← List.append_assoc] at named
    have up : Path.step (chartName ".") = .up := by decide
    simpa [up] using (List.append_inj' named rfl).2
  have proper : ∀ name ∈ front ++ [chartName stem], Proper name := by
    refine fun name member => ⟨?_, slashless name member⟩
    rcases List.mem_append.1 member with inner | last
    · exact (h.proper name (List.mem_append_left _ inner)).into
    · rw [List.mem_singleton.1 last, step_chartName extended]
  have below := Path.steps_ofNames (by simp) proper
  have relative := Path.isAbsolute_ofNames (by simp) proper
  refine ⟨front, stem, rfl, ?_⟩
  rw [there, Tree.origin, Path.isAbsolute_join relative, through, along_append, arrives, below,
    along_into]
  rfl

theorem eq_of_locate_target {tree : Tree} (unlinked : tree.Unlinked) {place : Place}
    (h : Sourced names) (h' : Sourced names') (named : Path.Named (target output names))
    (named' : Path.Named (target output names'))
    (located : tree.locate (target output names) = .ok place)
    (located' : tree.locate (target output names') = .ok place) : names = names' := by
  obtain ⟨-, -, rfl⟩ := (Tree.locate_eq_ok_iff unlinked).1 located
  obtain ⟨-, -, same⟩ := (Tree.locate_eq_ok_iff unlinked).1 located'
  obtain ⟨front, stem, rfl, there⟩ := along_target h named tree.working
  obtain ⟨front', stem', rfl, there'⟩ := along_target h' named' tree.working
  rw [there, there', List.append_cancel_left_eq] at same
  obtain ⟨rfl, last⟩ := List.append_inj' same rfl
  rw [chartName_injective (List.singleton_injective last)]

end

end Command

end Flowchart
