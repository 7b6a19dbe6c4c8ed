import Flowchart.Command.Run
import Mathlib

/-! Writing into a file tree without links. A path names one place there, whatever the tree holds, and
a walk succeeds when there are directories all the way. Making directories and writing files leaves
directories and files what they are, so that a walk that succeeds goes on to succeed; directories come
up only where nothing was, and of all files only the one that is written changes. -/
namespace Flowchart

theorem bind_eq_ok_iff {ε α β : Type} {x : Except ε α} {f : α → Except ε β} {b : β} :
    x >>= f = .ok b ↔ ∃ a, x = .ok a ∧ f a = .ok b := by
  cases x <;> simp [bind, Except.bind]

theorem map_eq_ok_iff {ε α β : Type} {x : Except ε α} {f : α → β} {b : β} :
    x.map f = .ok b ↔ ∃ a, x = .ok a ∧ f a = b := by
  cases x <;> simp [Except.map]

namespace Files

theorem fromUTF8?_eq_some_iff {bytes : ByteArray} {text : String} :
    String.fromUTF8? bytes = some text ↔ bytes = text.toUTF8 := by
  unfold String.fromUTF8?
  split
  next valid =>
    rw [Option.some.injEq, ← String.toByteArray_inj]
    rfl
  next invalid =>
    constructor
    · simp
    · rintro rfl
      exact absurd text.isValidUTF8 invalid

def Path.Named (path : String) : Prop := ∃ front name, Path.steps path = front ++ [.into name]

def Step.apply (here : Place) : Step → Place
  | stay => here
  | up => here.dropLast
  | into name => here ++ [name]

def along (here : Place) (steps : List Step) : Place := steps.foldl Step.apply here

@[simp] theorem along_nil (here : Place) : along here [] = here := rfl

@[simp] theorem along_cons (here : Place) (step : Step) (steps : List Step) :
    along here (step :: steps) = along (step.apply here) steps := rfl

theorem along_append (here : Place) (steps steps' : List Step) :
    along here (steps ++ steps') = along (along here steps) steps' :=
  List.foldl_append

namespace Tree

def Unlinked (tree : Tree) : Prop := ∀ place target, tree.get? place ≠ some (.link target)

/-- Whether a step can be taken in a directory: a name must be found there. -/
def Passes (tree : Tree) (here : Place) : Step → Prop
  | .into name => ∃ entry, tree.find? here name = .ok (some entry)
  | _ => True

/-- Steps can be taken one after the other, from directory to directory. -/
def Leads (tree : Tree) (here : Place) : List Step → Prop
  | [] => True
  | step :: steps =>
    tree.isDirectory here = true ∧ tree.Passes here step ∧ tree.Leads (step.apply here) steps

variable {tree tree' tree'' : Tree} {here place : Place} {steps : List Step} {links : Nat}
  {path text name : String} {entry : Entry} {bytes : ByteArray}

theorem get?_of_find? {held : Option Entry} (h : tree.find? here name = .ok held) :
    tree.get? (here ++ [name]) = held := by
  unfold find? at h
  split at h
  next => cases h
  next => exact Except.ok.inj h

theorem find?_of_find? {held : Option Entry} (h : tree.find? here name = .ok held)
    (tree' : Tree) : tree'.find? here name = .ok (tree'.get? (here ++ [name])) := by
  unfold find? at h ⊢
  split at h
  next => cases h
  next short => rw [if_neg short]

theorem leads_append (tree : Tree) (here : Place) (steps steps' : List Step) :
    tree.Leads here (steps ++ steps') ↔
      tree.Leads here steps ∧ tree.Leads (along here steps) steps' := by
  induction steps generalizing here with
  | nil => simp [Leads]
  | cons step steps ih => simp [Leads, ih, and_assoc]

theorem walk_eq_ok_iff (unlinked : tree.Unlinked) {arrival : Arrival} :
    tree.walk links here steps = .ok arrival ↔
      tree.Leads here steps ∧ arrival = ⟨along here steps, links⟩ := by
  fun_induction tree.walk links here steps with
  | case1 => simp [Leads, eq_comm]
  | case2 _ _ _ directory ih | case3 _ _ _ directory ih =>
    simp [Leads, Passes, Step.apply, directory, ih]
  | case4 _ _ _ _ _ _ found | case5 _ _ _ _ _ found => simp [Leads, Passes, found]
  | case6 _ _ _ _ _ found | case7 _ _ _ _ _ _ found =>
    exact absurd (get?_of_find? found) (unlinked _ _)
  | case8 _ _ directory _ _ _ _ _ found ih =>
    simp [Leads, Passes, Step.apply, directory, found, ih]
  | case9 _ _ _ _ other => simp [Leads, other]

/-- Where a file can be written: the path ends with a name, which is free in its directory or has a
file. -/
def Admits (tree : Tree) (here : Place) (steps : List Step) : Prop :=
  ∃ front name held, steps = front ++ [.into name] ∧ tree.Leads here front ∧
    tree.isDirectory (along here front) = true ∧
    tree.find? (along here front) name = .ok held ∧ held.any Entry.isDirectory = false

theorem Admits.cons {step : Step} (directory : tree.isDirectory here = true)
    (passes : tree.Passes here step) (h : tree.Admits (step.apply here) steps) :
    tree.Admits here (step :: steps) := by
  obtain ⟨front, name, held, rfl, leads, inside, found, other⟩ := h
  exact ⟨step :: front, name, held, rfl, ⟨directory, passes, leads⟩, inside, found, other⟩

theorem admits_singleton {held : Option Entry} (directory : tree.isDirectory here = true)
    (found : tree.find? here name = .ok held) (other : held.any Entry.isDirectory = false) :
    tree.Admits here [.into name] :=
  ⟨[], name, held, rfl, trivial, directory, found, other⟩

theorem destination_eq_ok (unlinked : tree.Unlinked) {slash : Bool}
    (h : tree.destination links here slash steps = .ok place) :
    tree.Admits here steps ∧ place = along here steps := by
  fun_induction tree.destination links here slash steps with
  | case1 | case4 | case5 | case7 | case14 => cases h
  | case2 _ _ _ _ directory ih | case3 _ _ _ _ directory ih =>
    obtain ⟨admits, rfl⟩ := ih h
    exact ⟨admits.cons directory trivial, rfl⟩
  | case6 _ here _ steps directory name _ found last =>
    obtain rfl := List.isEmpty_iff.1 last
    cases h
    exact ⟨admits_singleton directory found rfl, rfl⟩
  | case8 _ _ _ _ _ _ _ found | case9 _ _ _ _ _ _ _ _ found | case10 _ _ _ _ _ _ _ _ found =>
    exact absurd (get?_of_find? found) (unlinked _ _)
  | case11 _ _ _ directory _ _ _ _ found last =>
    obtain rfl := List.isEmpty_iff.1 last
    cases h
    exact ⟨admits_singleton directory found rfl, rfl⟩
  | case12 _ _ _ directory _ _ _ _ found _ ih | case13 _ _ _ directory _ _ _ found ih =>
    obtain ⟨admits, rfl⟩ := ih h
    exact ⟨admits.cons directory ⟨_, found⟩, rfl⟩

/-- One tree comes from another by making directories and by writing files. -/
structure Grows (tree tree' : Tree) : Prop where
  working : tree'.working = tree.working
  kept : ∀ place kind, (tree.get? place).map Entry.isDirectory = some kind →
    (tree'.get? place).map Entry.isDirectory = some kind
  unlinked : tree.Unlinked → tree'.Unlinked

theorem Grows.refl (tree : Tree) : tree.Grows tree := ⟨rfl, fun _ _ h => h, fun h => h⟩

theorem Grows.trans (h : tree.Grows tree') (h' : tree'.Grows tree'') : tree.Grows tree'' where
  working := h'.working.trans h.working
  kept place kind kept := h'.kept place kind (h.kept place kind kept)
  unlinked unlinked := h'.unlinked (h.unlinked unlinked)

theorem isDirectory_iff :
    tree.isDirectory place = true ↔ (tree.get? place).map Entry.isDirectory = some true := by
  cases there : tree.get? place <;> simp [Tree.isDirectory, there]

theorem Grows.isDirectory (h : tree.Grows tree') (directory : tree.isDirectory place = true) :
    tree'.isDirectory place = true :=
  isDirectory_iff.2 (h.kept place true (isDirectory_iff.1 directory))

theorem Grows.passes (h : tree.Grows tree') {step : Step} (passes : tree.Passes here step) :
    tree'.Passes here step := by
  cases step with
  | stay | up => trivial
  | into name =>
    obtain ⟨entry, found⟩ := passes
    have kept := h.kept (here ++ [name]) entry.isDirectory (by rw [get?_of_find? found]; rfl)
    obtain ⟨entry', there, -⟩ := Option.map_eq_some_iff.1 kept
    exact ⟨entry', by rw [find?_of_find? found, there]⟩

theorem Grows.leads (h : tree.Grows tree') (leads : tree.Leads here steps) :
    tree'.Leads here steps := by
  induction steps generalizing here with
  | nil => trivial
  | cons step steps ih =>
    obtain ⟨directory, passes, leads⟩ := leads
    exact ⟨h.isDirectory directory, h.passes passes, ih leads⟩

theorem grows_put (inner : place ≠ []) (noLink : ∀ target, entry ≠ .link target)
    (like : ∀ old, tree.get? place = some old → old.isDirectory = entry.isDirectory) :
    tree.Grows (tree.put place entry) where
  working := rfl
  kept other kind kept := by
    by_cases same : other = place
    · subst same
      obtain ⟨old, there, rfl⟩ := Option.map_eq_some_iff.1 kept
      rw [get?_put_self tree entry inner, like old there]
      rfl
    · rwa [get?_put_of_ne tree entry same]
  unlinked unlinked other target := by
    by_cases same : other = place
    · subst same
      rw [get?_put_self tree entry inner]
      exact fun link => noLink target (Option.some.inj link)
    · rw [get?_put_of_ne tree entry same]
      exact unlinked other target

theorem file?_put_of_ne (tree : Tree) {place other : Place} (entry : Entry) (h : other ≠ place) :
    (tree.put place entry).file? other = tree.file? other := by
  rw [file?, get?_put_of_ne tree entry h, file?]

structure Built (tree tree' : Tree) : Prop extends tree.Grows tree' where
  files : ∀ place, tree'.file? place = tree.file? place

theorem Built.refl (tree : Tree) : tree.Built tree := ⟨.refl tree, fun _ => rfl⟩

theorem Built.trans (h : tree.Built tree') (h' : tree'.Built tree'') : tree.Built tree'' :=
  ⟨h.toGrows.trans h'.toGrows, fun place => (h'.files place).trans (h.files place)⟩

theorem built_put_directory (inner : place ≠ []) (free : tree.get? place = none) :
    tree.Built (tree.put place .directory) where
  toGrows := grows_put inner (by simp) (by simp [free])
  files other := by
    by_cases same : other = place
    · subst same
      simp [file?, get?_put_self tree _ inner, free]
    · exact file?_put_of_ne tree _ same

theorem makeDirectory_built (h : tree.makeDirectory path = .ok tree') : tree.Built tree' := by
  obtain ⟨-, -, h⟩ := bind_eq_ok_iff.1 h
  split at h
  next => cases h
  next last around _ =>
    obtain ⟨⟨here, _⟩, -, h⟩ := bind_eq_ok_iff.1 h
    dsimp only at h
    split at h
    next => cases h
    next =>
      split at h
      next name =>
        obtain ⟨held, found, h⟩ := bind_eq_ok_iff.1 h
        split at h
        next => cases h
        next free =>
          cases h
          have there := get?_of_find? found
          exact built_put_directory (by simp) (by simpa [there] using free)
      next => cases h

theorem makeDirectories_built (tree : Tree) (paths : List String) :
    tree.Built (tree.makeDirectories paths).1 := by
  fun_induction tree.makeDirectories paths with
  | case1 | case6 => exact .refl tree
  | case2 _ _ _ made => exact makeDirectory_built made
  | case3 _ _ _ _ _ before ih | case5 _ _ _ _ before _ _ ih => rwa [before] at ih
  | case4 _ _ _ _ before _ made ih =>
    rw [before] at ih
    exact ih.trans (makeDirectory_built made)

theorem arrive_eq_ok_iff (unlinked : tree.Unlinked) {arrival : Arrival} :
    tree.arrive path = .ok arrival ↔ checkPath path = .ok () ∧
      tree.Leads (origin tree.working path) (Path.steps path) ∧
      arrival = ⟨along (origin tree.working path) (Path.steps path), maxLinks⟩ := by
  rw [arrive, bind_eq_ok_iff, Unique.exists_iff]
  exact and_congr_right fun _ => walk_eq_ok_iff unlinked

theorem locate_eq_ok_iff (unlinked : tree.Unlinked) :
    tree.locate path = .ok place ↔ checkPath path = .ok () ∧
      tree.Leads (origin tree.working path) (Path.steps path) ∧
      place = along (origin tree.working path) (Path.steps path) := by
  rw [locate, map_eq_ok_iff]
  constructor
  · rintro ⟨arrival, arrived, rfl⟩
    obtain ⟨checked, leads, rfl⟩ := (arrive_eq_ok_iff unlinked).1 arrived
    exact ⟨checked, leads, rfl⟩
  · rintro ⟨checked, leads, rfl⟩
    exact ⟨_, (arrive_eq_ok_iff unlinked).2 ⟨checked, leads, rfl⟩, rfl⟩

theorem Grows.locate (h : tree.Grows tree') (unlinked : tree.Unlinked)
    (located : tree.locate path = .ok place) : tree'.locate path = .ok place := by
  obtain ⟨checked, leads, rfl⟩ := (locate_eq_ok_iff unlinked).1 located
  rw [locate_eq_ok_iff (h.unlinked unlinked), h.working]
  exact ⟨checked, h.leads leads, rfl⟩

theorem file?_put_self (tree : Tree) (inner : place ≠ []) (bytes : ByteArray) :
    (tree.put place (.file bytes)).file? place = some bytes := by
  rw [file?, get?_put_self tree _ inner]

theorem Admits.put (h : tree.Admits here steps) (bytes : ByteArray) :
    along here steps ≠ [] ∧ tree.Grows (tree.put (along here steps) (.file bytes)) ∧
      (tree.put (along here steps) (.file bytes)).Leads here steps := by
  obtain ⟨front, name, held, rfl, leads, directory, found, other⟩ := h
  have place : along here (front ++ [.into name]) = along here front ++ [name] := along_append ..
  have inner : along here front ++ [name] ≠ [] := by simp
  have grows : tree.Grows (tree.put (along here front ++ [name]) (.file bytes)) := by
    refine grows_put inner (by simp) fun old there => ?_
    rw [get?_of_find? found] at there
    subst there
    exact other
  rw [place]
  refine ⟨inner, grows, (leads_append ..).2 ⟨grows.leads leads, ?_⟩⟩
  refine ⟨grows.isDirectory directory, ⟨.file bytes, ?_⟩, trivial⟩
  rw [find?_of_find? found, get?_put_self tree _ inner]

/-- A text was written to a path, and nothing else happened to files. -/
structure Wrote (tree : Tree) (path text : String) (place : Place) (tree' : Tree) : Prop
    extends tree.Grows tree' where
  located : tree'.locate path = .ok place
  written : tree'.file? place = some text.toUTF8
  others : ∀ other ≠ place, tree'.file? other = tree.file? other
  named : Path.Named path

theorem writeFile_wrote (unlinked : tree.Unlinked)
    (h : tree.writeFile path text.toUTF8 = .ok tree') : ∃ place, tree.Wrote path text place tree' := by
  obtain ⟨⟨⟩, checked, h⟩ := bind_eq_ok_iff.1 h
  obtain ⟨place, found, h⟩ := bind_eq_ok_iff.1 h
  cases h
  obtain ⟨admits, rfl⟩ := destination_eq_ok unlinked found
  obtain ⟨inner, grows, leads⟩ := admits.put text.toUTF8
  obtain ⟨front, name, -, named, -⟩ := admits
  exact ⟨_, grows, (locate_eq_ok_iff (grows.unlinked unlinked)).2 ⟨checked, leads, rfl⟩,
    file?_put_self tree inner _, fun other => file?_put_of_ne tree _, front, name, named⟩

theorem Wrote.after (built : tree.Built tree') (h : tree'.Wrote path text place tree'') :
    tree.Wrote path text place tree'' where
  toGrows := built.toGrows.trans h.toGrows
  located := h.located
  written := h.written
  others other apart := (h.others other apart).trans (built.files other)
  named := h.named

theorem readText_eq_ok (located : tree.locate path = .ok place)
    (written : tree.file? place = some text.toUTF8) : tree.readText path = .ok text := by
  have read : tree.readFile path = .ok text.toUTF8 := by
    refine bind_eq_ok_iff.2 ⟨place, located, ?_⟩
    unfold file? at written
    split at written
    next => rw [Option.some.inj written]; rfl
    next => cases written
  rw [readText, read]
  simp only [fromUTF8?_eq_some_iff.2 rfl]

end Tree

end Files

end Flowchart
