import Flowchart.Proofs.Parents

/-! Making directories, in a file tree without links. The directories around a path are made from their
texts, the nearest first and the others only if that fails. What comes of it is what going along the
path would give if a directory were made wherever a name is free. -/
namespace Flowchart.Files

def Step.Fits : Step → Prop
  | into name => name.utf8ByteSize ≤ maxName
  | _ => True

namespace Tree

def extend (tree : Tree) (here : Place) : Step → Tree
  | .into name =>
    if (tree.get? (here ++ [name])).isNone then tree.put (here ++ [name]) .directory else tree
  | _ => tree

/-- The tree with directories along the steps, wherever nothing is. -/
def extended (tree : Tree) (here : Place) : List Step → Tree
  | [] => tree
  | step :: steps => (tree.extend here step).extended (step.apply here) steps

/-- The steps lead from directory to directory, once directories are made wherever nothing is. -/
def Extends (tree : Tree) (here : Place) : List Step → Prop
  | [] => tree.isDirectory here = true
  | step :: steps =>
    tree.isDirectory here = true ∧ step.Fits ∧
      (tree.extend here step).Extends (step.apply here) steps

variable {tree tree' : Tree} {here : Place} {step : Step} {steps steps' : List Step}
  {path : String} {links : Nat}

theorem Extends.isDirectory (h : tree.Extends here steps) : tree.isDirectory here = true := by
  cases steps with
  | nil => exact h
  | cons step steps => exact h.1

theorem extended_append (tree : Tree) (here : Place) (steps steps' : List Step) :
    tree.extended here (steps ++ steps') =
      (tree.extended here steps).extended (along here steps) steps' := by
  induction steps generalizing tree here with
  | nil => rfl
  | cons step steps ih => exact ih _ _

theorem extends_append (tree : Tree) (here : Place) (steps steps' : List Step) :
    tree.Extends here (steps ++ steps') ↔
      tree.Extends here steps ∧ (tree.extended here steps).Extends (along here steps) steps' := by
  induction steps generalizing tree here with
  | nil => exact ⟨fun h => ⟨h.isDirectory, h⟩, And.right⟩
  | cons step steps ih => simp [Extends, extended, ih, and_assoc]

theorem extend_free {name : String} (free : tree.get? (here ++ [name]) = none) :
    tree.extend here (.into name) = tree.put (here ++ [name]) .directory := by
  simp [extend, free]

theorem extend_held {name : String} {entry : Entry} (held : tree.get? (here ++ [name]) = some entry) :
    tree.extend here (.into name) = tree := by
  simp [extend, held]

theorem extend_built (tree : Tree) (here : Place) (step : Step) :
    tree.Built (tree.extend here step) := by
  cases step with
  | stay | up => exact .refl tree
  | into name =>
    cases there : tree.get? (here ++ [name]) with
    | none =>
      rw [extend_free there]
      exact built_put_directory (by simp) there
    | some entry =>
      rw [extend_held there]
      exact .refl tree

theorem extended_built (tree : Tree) (here : Place) (steps : List Step) :
    tree.Built (tree.extended here steps) := by
  induction steps generalizing tree here with
  | nil => exact .refl tree
  | cons step steps ih => exact (extend_built tree here step).trans (ih _ _)

theorem find?_of_fits {name : String} (fits : (Step.into name).Fits) (tree : Tree) (here : Place) :
    tree.find? here name = .ok (tree.get? (here ++ [name])) :=
  if_neg (Nat.not_lt.2 fits)

theorem fits_of_find? {name : String} {held : Option Entry} (h : tree.find? here name = .ok held) :
    (Step.into name).Fits := by
  unfold find? at h
  split at h
  next => cases h
  next short => exact Nat.not_lt.1 short

theorem extend_of_passes (passes : tree.Passes here step) :
    step.Fits ∧ tree.extend here step = tree := by
  cases step with
  | stay | up => exact ⟨trivial, rfl⟩
  | into name =>
    obtain ⟨entry, found⟩ := passes
    exact ⟨fits_of_find? found, extend_held (get?_of_find? found)⟩

theorem extended_of_leads (leads : tree.Leads here steps) : tree.extended here steps = tree := by
  induction steps generalizing here with
  | nil => rfl
  | cons step steps ih =>
    obtain ⟨-, passes, leads⟩ := leads
    rw [extended, (extend_of_passes passes).2, ih leads]

theorem extends_of_leads (leads : tree.Leads here steps)
    (inside : tree.isDirectory (along here steps) = true) : tree.Extends here steps := by
  induction steps generalizing here with
  | nil => exact inside
  | cons step steps ih =>
    obtain ⟨directory, passes, leads⟩ := leads
    obtain ⟨fits, same⟩ := extend_of_passes passes
    refine ⟨directory, fits, ?_⟩
    rw [same]
    exact ih leads inside

theorem passes_extend (fits : step.Fits) (tree : Tree) (here : Place) :
    (tree.extend here step).Passes here step := by
  cases step with
  | stay | up => trivial
  | into name =>
    cases there : tree.get? (here ++ [name]) with
    | none =>
      have made := get?_put_self tree .directory (List.concat_ne_nil name here)
      exact ⟨.directory, by rw [extend_free there, find?_of_fits fits, made]⟩
    | some entry => exact ⟨entry, by rw [extend_held there, find?_of_fits fits, there]⟩

theorem Extends.leads (h : tree.Extends here steps) :
    (tree.extended here steps).Leads here steps ∧
      (tree.extended here steps).isDirectory (along here steps) = true := by
  induction steps generalizing tree here with
  | nil => exact ⟨trivial, h⟩
  | cons step steps ih =>
    obtain ⟨directory, fits, h⟩ := h
    obtain ⟨leads, inside⟩ := ih h
    have grows := ((tree.extend here step).extended_built (step.apply here) steps).toGrows
    have first := (tree.extend_built here step).toGrows.isDirectory directory
    exact ⟨⟨grows.isDirectory first, grows.passes (passes_extend fits tree here), leads⟩, inside⟩

theorem Extends.walk (h : tree.Extends here steps) (unlinked : tree.Unlinked) :
    tree.Leads here steps ∨ tree.walk links here steps = .error .notFound := by
  induction steps generalizing here with
  | nil => exact .inl trivial
  | cons step steps ih =>
    obtain ⟨directory, fits, h⟩ := h
    unfold Tree.walk
    rw [if_pos directory]
    cases step with
    | stay | up => exact (ih h).imp_left fun leads => ⟨directory, trivial, leads⟩
    | into name =>
      have found := find?_of_fits fits tree here
      cases there : tree.get? (here ++ [name]) with
      | none =>
        rw [there] at found
        exact .inr (by simp [found])
      | some entry =>
        rw [there] at found
        rw [extend_held there] at h
        cases entry with
        | link target => exact absurd there (unlinked _ _)
        | file | directory =>
          simp only [found]
          exact (ih h).imp_left fun leads => ⟨directory, ⟨_, found⟩, leads⟩

theorem namesDirectory_iff (unlinked : tree.Unlinked) (checked : checkPath path = .ok ()) :
    tree.namesDirectory path = true ↔ tree.Leads (origin tree.working path) (Path.steps path) ∧
      tree.isDirectory (along (origin tree.working path) (Path.steps path)) = true := by
  unfold namesDirectory
  split
  next place found =>
    obtain ⟨-, leads, rfl⟩ := (locate_eq_ok_iff unlinked).1 found
    exact ⟨fun inside => ⟨leads, inside⟩, And.right⟩
  next fault failed =>
    constructor
    · exact fun inside => absurd inside Bool.false_ne_true
    · rintro ⟨leads, -⟩
      rw [(locate_eq_ok_iff unlinked).2 ⟨checked, leads, rfl⟩] at failed
      cases failed

def makeAt (tree : Tree) (here : Place) (step : Step) : Except Fault Tree :=
  if tree.isDirectory here then
    match step with
    | .into name =>
      match tree.find? here name with
      | .error fault => .error fault
      | .ok (some _) => .error .alreadyExists
      | .ok none => .ok (tree.put (here ++ [name]) .directory)
    | _ => .error .alreadyExists
  else .error .notDirectory

theorem makeDirectory_eq (checked : checkPath path = .ok ())
    (split : Path.steps path = steps ++ [step]) (moves : step ≠ .stay) :
    tree.makeDirectory path =
      tree.walk maxLinks (origin tree.working path) steps >>= fun arrival =>
        tree.makeAt arrival.place step := by
  have last : (Path.steps path).reverse.dropWhile (· = .stay) = step :: steps.reverse := by
    simp [split, moves]
  unfold makeDirectory
  rw [checked]
  simp only [last, List.reverse_reverse]
  change tree.walk maxLinks _ steps >>= _ = _
  refine congrArg _ (funext fun arrival => ?_)
  unfold makeAt
  by_cases directory : tree.isDirectory arrival.place = true
  · rw [directory]
    cases step with
    | stay | up => rfl
    | into name =>
      simp only [Bool.not_true, Bool.false_eq_true, if_false, if_true]
      rcases tree.find? arrival.place name with fault | _ | entry <;> rfl
  · rw [Bool.not_eq_true] at directory
    rw [directory]
    rfl

def attempt (tree : Tree) (path : String) : Tree × Option Fault :=
  match tree.makeDirectory path with
  | .ok made => (made, none)
  | .error fault => (tree, if tree.namesDirectory path then none else some fault)

theorem makeDirectories_cons {around : List String} (h : tree.makeDirectory path ≠ .error .notFound) :
    tree.makeDirectories (path :: around) = tree.attempt path := by
  unfold makeDirectories attempt
  split
  next => simp_all
  next => simp_all
  next => simp_all

theorem makeDirectories_cons_notFound {around : List String}
    (h : tree.makeDirectory path = .error .notFound) :
    tree.makeDirectories (path :: around) = (tree', none) ↔
      ∃ made, tree.makeDirectories around = (made, none) ∧ made.attempt path = (tree', none) := by
  rw [makeDirectories, h]
  simp only
  rcases tree.makeDirectories around with ⟨made, _ | fault⟩
  · constructor
    · exact fun done => ⟨made, rfl, done⟩
    · rintro ⟨_, ⟨⟩, done⟩
      exact done
  · simp

theorem attempt_of_error {fault : Fault} (h : tree.makeDirectory path = .error fault) :
    tree.attempt path = (tree', none) ↔ tree.namesDirectory path = true ∧ tree' = tree := by
  rw [attempt, h]
  by_cases named : tree.namesDirectory path = true
  · simp [named, eq_comm]
  · simp [named]

theorem exists_makeAt_error_of_passes (passes : tree.Passes here step) (moves : step ≠ .stay) :
    ∃ fault, tree.makeAt here step = .error fault := by
  by_cases directory : tree.isDirectory here = true
  · refine ⟨.alreadyExists, ?_⟩
    cases step with
    | stay => exact absurd rfl moves
    | up => simp [makeAt, directory]
    | into name =>
      obtain ⟨entry, found⟩ := passes
      simp [makeAt, directory, found]
  · exact ⟨.notDirectory, by simp [makeAt, directory]⟩

theorem makeAt_free {name : String} (directory : tree.isDirectory here = true)
    (fits : (Step.into name).Fits) (free : tree.get? (here ++ [name]) = none) :
    tree.makeAt here (.into name) = .ok (tree.extend here (.into name)) := by
  rw [makeAt, if_pos directory, extend_free free]
  simp only [find?_of_fits fits, free]

theorem isDirectory_extend_free {name : String} (free : tree.get? (here ++ [name]) = none) :
    (tree.extend here (.into name)).isDirectory (here ++ [name]) = true := by
  rw [extend_free free, Tree.isDirectory, get?_put_self _ _ (List.concat_ne_nil name here)]
  rfl

theorem exists_makeAt_error {name : String}
    (h : ¬ (tree.isDirectory here = true ∧ (Step.into name).Fits)) :
    ∃ fault, tree.makeAt here (.into name) = .error fault := by
  by_cases directory : tree.isDirectory here = true
  · have long : maxName < name.utf8ByteSize := Nat.not_le.1 fun fits => h ⟨directory, fits⟩
    exact ⟨.nameTooLong, by simp [makeAt, directory, find?, long]⟩
  · exact ⟨.notDirectory, by simp [makeAt, directory]⟩

theorem makeAt_ne_notFound (tree : Tree) (here : Place) (step : Step) :
    tree.makeAt here step ≠ .error .notFound := by
  unfold makeAt find?
  grind

section Nearest

variable (unlinked : tree.Unlinked) (checked : checkPath path = .ok ())
  (start : origin tree.working path = here) (split : Path.steps path = steps ++ [step])
  (moves : step ≠ .stay)
include unlinked checked start split moves

theorem makeDirectory_of_leads (leads : tree.Leads here steps) :
    tree.makeDirectory path = tree.makeAt (along here steps) step := by
  rw [makeDirectory_eq checked split moves, start, (walk_eq_ok_iff unlinked).2 ⟨leads, rfl⟩]
  rfl

theorem attempt_eq_iff (leads : tree.Leads here steps) :
    tree.attempt path = (tree', none) ↔
      tree.Extends (along here steps) [step] ∧ tree' = tree.extended (along here steps) [step] := by
  have made := makeDirectory_of_leads unlinked checked start split moves leads
  have named := namesDirectory_iff unlinked checked
  rw [start, split, leads_append, along_append] at named
  generalize along here steps = last at made named ⊢
  -- If there is something already, it is refused, and the question is whether it is a directory.
  by_cases passes : tree.Passes last step
  · obtain ⟨fits, same⟩ := extend_of_passes passes
    obtain ⟨fault, failed⟩ := exists_makeAt_error_of_passes passes moves
    rw [attempt_of_error (made.trans failed), named]
    simp [Extends, extended, same, fits, passes, leads, Leads]
  cases step with
  | stay | up => exact absurd trivial passes
  | into name =>
    by_cases ready : tree.isDirectory last = true ∧ (Step.into name).Fits
    · have free : tree.get? (last ++ [name]) = none := by
        rw [Option.eq_none_iff_forall_ne_some]
        intro entry held
        exact passes ⟨entry, by rw [find?_of_fits ready.2, held]⟩
      rw [attempt, made, makeAt_free ready.1 ready.2 free]
      simp [Extends, extended, ready.1, ready.2, isDirectory_extend_free free, Step.apply, eq_comm]
    · obtain ⟨fault, failed⟩ := exists_makeAt_error ready
      rw [attempt_of_error (made.trans failed), named]
      constructor
      · rintro ⟨⟨⟨-, -, held, -⟩, -⟩, -⟩
        exact absurd held passes
      · rintro ⟨⟨directory, fits, -⟩, -⟩
        exact absurd ⟨directory, fits⟩ ready

theorem makeDirectories_of_leads (leads : tree.Leads here steps) (around : List String) :
    tree.makeDirectories (path :: around) = (tree', none) ↔
      tree.Extends here (steps ++ [step]) ∧ tree' = tree.extended here (steps ++ [step]) := by
  have found : tree.makeDirectory path ≠ .error .notFound := by
    rw [makeDirectory_of_leads unlinked checked start split moves leads]
    exact makeAt_ne_notFound tree _ step
  rw [makeDirectories_cons found, attempt_eq_iff unlinked checked start split moves leads,
    extends_append, extended_append, extended_of_leads leads]
  exact and_congr_left fun _ => ⟨fun h => ⟨extends_of_leads leads h.isDirectory, h⟩, And.right⟩

theorem makeDirectories_of_not_leads (blocked : ¬ tree.Leads here steps) {around : List String}
    (outer : ∀ {made}, tree.makeDirectories around = (made, none) ↔
      tree.Extends here steps ∧ made = tree.extended here steps) :
    tree.makeDirectories (path :: around) = (tree', none) ↔
      tree.Extends here (steps ++ [step]) ∧ tree' = tree.extended here (steps ++ [step]) := by
  obtain ⟨fault, walked⟩ : ∃ fault, tree.walk maxLinks here steps = .error fault := by
    cases walked : tree.walk maxLinks here steps with
    | ok arrival => exact absurd ((walk_eq_ok_iff unlinked).1 walked).1 blocked
    | error fault => exact ⟨fault, rfl⟩
  have failed : tree.makeDirectory path = .error fault := by
    rw [makeDirectory_eq checked split moves, start, walked]
    rfl
  rw [extends_append, extended_append]
  by_cases free : fault = .notFound
  -- Once the directories around are made, only the nearest one is left.
  · subst free
    have built := tree.extended_built here steps
    have last (h : tree.Extends here steps) {made : Tree} :
        (tree.extended here steps).attempt path = (made, none) ↔ _ :=
      attempt_eq_iff (built.unlinked unlinked) checked (built.working ▸ start) split moves h.leads.1
    simp only [makeDirectories_cons_notFound failed, outer]
    constructor
    · rintro ⟨_, ⟨h, rfl⟩, done⟩
      obtain ⟨inner, rfl⟩ := (last h).1 done
      exact ⟨⟨h, inner⟩, rfl⟩
    · rintro ⟨⟨h, inner⟩, rfl⟩
      exact ⟨_, ⟨h, rfl⟩, (last h).2 ⟨inner, rfl⟩⟩
  · have found : tree.makeDirectory path ≠ .error .notFound := by simp [failed, free]
    rw [makeDirectories_cons found, attempt_of_error failed, namesDirectory_iff unlinked checked,
      start, split, leads_append]
    constructor
    · rintro ⟨⟨⟨leads, -⟩, -⟩, -⟩
      exact absurd leads blocked
    · rintro ⟨⟨h, -⟩, -⟩
      rcases h.walk unlinked with leads | stopped
      · exact absurd leads blocked
      · exact absurd (Except.error.inj (walked.symm.trans stopped)) free

end Nearest

variable {first : String} {parts : List String}

theorem checkPath_folder (short : (Path.folder first parts).utf8ByteSize ≤ Path.maxLength) :
    checkPath (Path.folder first parts) = .ok () := by
  rw [checkPath, if_neg (Path.folder_ne first parts), if_neg (Nat.not_lt.2 short)]

theorem origin_folder (here : Place) (slashless : '/' ∉ first.toList) (parts : List String) :
    origin here (Path.folder first parts) = if first = "" then [] else here := by
  rw [origin, Path.isAbsolute_folder slashless]
  simp

theorem along_stays (stays : ∀ step ∈ steps, step = .stay) (here : Place) :
    along here steps = here := by
  induction steps with
  | nil => rfl
  | cons step steps ih =>
    rw [List.forall_mem_cons] at stays
    rw [stays.1, along_cons, Step.apply, ih stays.2]

theorem leads_stays (stays : ∀ step ∈ steps, step = .stay) (directory : tree.isDirectory here = true) :
    tree.Leads here steps := by
  induction steps with
  | nil => trivial
  | cons step steps ih =>
    rw [List.forall_mem_cons] at stays
    rw [stays.1]
    exact ⟨directory, trivial, ih stays.2⟩

theorem makeDirectory_stays (checked : checkPath path = .ok ())
    (stays : ∀ step ∈ Path.steps path, step = .stay) :
    tree.makeDirectory path = .error .alreadyExists := by
  have noStep : (Path.steps path).reverse.dropWhile (· = .stay) = [] := by
    simpa [List.dropWhile_eq_nil_iff] using stays
  unfold makeDirectory
  rw [checked]
  simp only [noStep]
  rfl

theorem makeDirectories_first (unlinked : tree.Unlinked) (slashless : '/' ∉ first.toList)
    (short : (Path.folder first []).utf8ByteSize ≤ Path.maxLength)
    (start : here = if first = "" then [] else tree.working) :
    tree.makeDirectories [Path.folder first []] = (tree', none) ↔
      tree.Extends here [Path.step first] ∧ tree' = tree.extended here [Path.step first] := by
  have checked := checkPath_folder short
  have begins : origin tree.working (Path.folder first []) = here := by
    rw [origin_folder tree.working slashless, start]
  cases idle : Path.isIdle first with
  | true =>
    have stays : ∀ step ∈ Path.steps (Path.folder first []), step = .stay := by
      rcases (by simpa [Path.isIdle] using idle : first = "" ∨ first = ".") with rfl | rfl <;> decide
    have failed : tree.makeDirectory (Path.folder first []) = .error .alreadyExists :=
      makeDirectory_stays checked stays
    rw [makeDirectories_cons (by simp [failed]), attempt_of_error failed,
      namesDirectory_iff unlinked checked, begins, along_stays stays, Path.isIdle_iff.1 idle]
    refine and_congr_left fun _ => ⟨?_, ?_⟩
    · exact fun ⟨_, directory⟩ => ⟨directory, trivial, directory⟩
    · exact fun ⟨directory, _⟩ => ⟨leads_stays stays directory, directory⟩
  | false =>
    have nonempty : first ≠ "" := by
      rintro rfl
      cases idle
    have alone : Path.folder first [] = first := by simp [Path.folder, nonempty, Path.ofNames]
    have split : Path.steps (Path.folder first []) = [] ++ [Path.step first] := by
      rw [alone, Path.steps, Path.split_of_slashless slashless]
      rfl
    have moves := Path.isIdle_eq_false_iff.1 idle
    exact makeDirectories_of_leads unlinked checked begins split moves trivial []

/-- Directories are made from the nearest one outwards and back, as if one had gone along them. -/
theorem makeDirectories_folder (unlinked : tree.Unlinked)
    (slashless : ∀ name ∈ first :: parts, '/' ∉ name.toList)
    (short : (Path.folder first parts).utf8ByteSize ≤ Path.maxLength)
    (start : here = if first = "" then [] else tree.working) :
    tree.makeDirectories (Path.folder first parts :: Path.parentsFrom first parts) = (tree', none) ↔
      tree.Extends here (Path.stepsFrom first parts) ∧
        tree' = tree.extended here (Path.stepsFrom first parts) := by
  induction parts generalizing tree' with
  | nil => exact makeDirectories_first unlinked (slashless first List.mem_cons_self) short start
  -- The parts are in reverse: the first of them is the nearest directory.
  | cons part parts ih =>
    have slashless' : ∀ name ∈ first :: parts, '/' ∉ name.toList := by
      intro name member
      exact slashless name (by grind)
    rw [Path.stepsFrom_cons]
    cases idle : Path.isIdle part with
    | true =>
      rw [Path.folder_cons_idle idle] at short ⊢
      rw [Path.parentsFrom_cons_idle idle, ih slashless' short, Path.isIdle_iff.1 idle, extends_append,
        extended_append]
      exact and_congr_left fun _ =>
        ⟨fun h => ⟨h, h.leads.2, trivial, h.leads.2⟩, And.left⟩
    | false =>
      have split := Path.steps_folder_cons slashless idle
      have moves := Path.isIdle_eq_false_iff.1 idle
      have checked := checkPath_folder short
      have begins : origin tree.working (Path.folder first (part :: parts)) = here := by
        rw [origin_folder tree.working (slashless first List.mem_cons_self), start]
      rw [Path.folder_cons idle] at short
      have near := (Path.utf8ByteSize_folder_le first part parts).trans short
      have outer {made : Tree} :
          tree.makeDirectories (Path.folder first parts :: Path.parentsFrom first parts) =
            (made, none) ↔ _ := ih slashless' near
      rw [Path.parentsFrom_cons idle]
      by_cases leads : tree.Leads here (Path.stepsFrom first parts)
      · exact makeDirectories_of_leads unlinked checked begins split moves leads _
      · exact makeDirectories_of_not_leads unlinked checked begins split moves leads outer

theorem makeDirectories_parents {front : List Step} {name : String} (unlinked : tree.Unlinked)
    (short : path.utf8ByteSize ≤ Path.maxLength) (named : Path.steps path = front ++ [.into name])
    (start : here = origin tree.working path) :
    tree.makeDirectories (Path.parents path) = (tree', none) ∧
        tree'.isDirectory (along here front) = true ↔
      tree.Extends here front ∧ tree' = tree.extended here front := by
  have whole := Path.ofNames_split path
  have slashless := Path.slashless_split path
  obtain ⟨first, rest, split⟩ := List.exists_cons_of_ne_nil (Text.split_ne_nil '/' path)
  rw [Path.steps, split] at named
  rw [Path.parents, split]
  rw [split] at whole slashless
  rcases List.eq_nil_or_concat' rest with rfl | ⟨mid, last, rfl⟩
  · have alone : [] ++ [Path.step first] = front ++ [.into name] := named
    obtain ⟨rfl, -⟩ := List.append_inj' alone rfl
    constructor
    · rintro ⟨⟨⟩, directory⟩
      exact ⟨directory, rfl⟩
    · rintro ⟨directory, rfl⟩
      exact ⟨rfl, directory⟩
  · have parted : Path.stepsFrom first mid.reverse ++ [Path.step last] = front ++ [.into name] := by
      simpa [Path.stepsFrom] using named
    obtain ⟨rfl, ends⟩ := List.append_inj' parted rfl
    have busy : Path.isIdle last = false := by
      rw [Path.isIdle_eq_false_iff, List.singleton_inj.1 ends]
      simp
    have inner : ∀ part ∈ first :: mid.reverse, '/' ∉ part.toList := by
      intro part member
      exact slashless part (by grind)
    have near : (Path.folder first mid.reverse).utf8ByteSize ≤ Path.maxLength := by
      have le := Path.utf8ByteSize_folder_le first last mid.reverse
      rw [List.reverse_reverse, whole] at le
      exact le.trans short
    have begins : here = if first = "" then [] else tree.working := by
      have path_eq : path = first ++ "/" ++ Path.ofNames (mid ++ [last]) := by
        rw [← whole]
        exact String.intercalate_cons_of_ne_nil (by simp)
      rw [start, origin, path_eq, Path.isAbsolute_append_slash (inner first List.mem_cons_self)]
      simp
    have reversed : (mid ++ [last]).reverse = last :: mid.reverse := by simp
    simp only [reversed, Path.parentsFrom_cons busy, makeDirectories_folder unlinked inner near begins]
    constructor
    · exact And.left
    · rintro ⟨h, rfl⟩
      exact ⟨⟨h, rfl⟩, h.leads.2⟩

end Tree

end Flowchart.Files
