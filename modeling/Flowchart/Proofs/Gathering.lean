import Flowchart.Proofs.Targets

/-! The sources of a folder in a file tree without links: all files below the folder that are called so,
each once, in the order of their paths, with the texts that the tree holds. -/
namespace Flowchart

section
variable {ε α β : Type} {f : α → Except ε β} {as : List α} {bs : List β}

theorem mapM_eq_ok_iff : as.mapM f = .ok bs ↔ List.Forall₂ (fun a b => f a = .ok b) as bs := by
  induction as generalizing bs with
  | nil => simp [pure, Except.pure, eq_comm]
  | cons a as ih =>
    simp only [List.mapM_cons, bind_eq_ok_iff, List.forall₂_cons_left_iff, ih]
    simp [pure, Except.pure, eq_comm]

theorem mem_of_forall₂ {b : β} (h : List.Forall₂ (fun a b => f a = .ok b) as bs) :
    b ∈ bs ↔ ∃ a ∈ as, f a = .ok b := by
  induction h with
  | nil => simp
  | cons first _ ih => simp [ih, first, eq_comm]

theorem exists_of_forall₂ (h : List.Forall₂ (fun a b => f a = .ok b) as bs) :
    ∀ a ∈ as, ∃ b ∈ bs, f a = .ok b := by
  induction h with
  | nil => simp
  | cons first _ ih => simp_all

theorem bind_eq_error_iff {x : Except ε α} {e : ε} :
    x >>= f = .error e ↔ x = .error e ∨ ∃ a, x = .ok a ∧ f a = .error e := by
  cases x <;> simp [bind, Except.bind]

theorem exists_of_mapM_eq_error {e : ε} (h : as.mapM f = .error e) :
    ∃ before a after, as = before ++ a :: after ∧ f a = .error e ∧
      ∀ a' ∈ before, ∃ b, f a' = .ok b := by
  induction as with
  | nil => cases h
  | cons a as ih =>
    rw [List.mapM_cons] at h
    rcases bind_eq_error_iff.1 h with first | ⟨b, first, later⟩
    · exact ⟨[], a, as, rfl, first, by simp⟩
    · rcases bind_eq_error_iff.1 later with rest | ⟨bs, -, done⟩
      · obtain ⟨before, a', after, rfl, failed, fine⟩ := ih rest
        exact ⟨a :: before, a', after, rfl, failed, List.forall_mem_cons.2 ⟨⟨b, first⟩, fine⟩⟩
      · cases done

end

namespace Files

/-- A file tree without links: each place has one entry, and every name is one that a path can step
into. -/
structure Tree.Plain (tree : Tree) : Prop where
  distinct : (tree.entries.map Prod.fst).Nodup
  linkless : ∀ place target, (place, Entry.link target) ∉ tree.entries
  proper : ∀ entry ∈ tree.entries, ∀ name ∈ entry.1, Proper name

theorem plain_empty : Tree.Plain {} := ⟨by simp, by simp, by simp⟩

theorem descent?_eq_some_iff {here place : Place} {names : List String} :
    descent? here place = some names ↔ names ≠ [] ∧ place = here ++ names := by
  unfold descent?
  split
  next below =>
    obtain ⟨⟨rest, rfl⟩, longer⟩ := And.imp_left List.isPrefixOf_iff_prefix.1 below
    have nonempty : rest ≠ [] := by
      rintro rfl
      simp at longer
    rw [List.drop_left, Option.some.injEq, List.append_cancel_left_eq]
    exact ⟨fun same => ⟨same ▸ nonempty, same⟩, And.right⟩
  next other =>
    constructor
    · simp
    · rintro ⟨nonempty, rfl⟩
      simp_all

def gathered (here : Place) : Place × Entry → List Reached
  | (place, .file bytes) => (descent? here place).toList.map fun names => ⟨names, bytes⟩
  | _ => []

theorem mem_gathered_iff {here place : Place} {entry : Entry} {file : Reached} :
    file ∈ gathered here (place, entry) ↔
      entry = .file file.bytes ∧ file.names ≠ [] ∧ place = here ++ file.names := by
  cases entry with
  | link target | directory => simp [gathered]
  | file bytes =>
    obtain ⟨names, found⟩ := file
    simp only [gathered, List.mem_map, Option.mem_toList, descent?_eq_some_iff]
    grind

theorem Tree.file?_eq_some_iff {tree : Tree} {place : Place} {bytes : ByteArray} :
    tree.file? place = some bytes ↔ tree.get? place = some (.file bytes) := by
  unfold file?
  split <;> simp_all

namespace Tree.Plain

variable {tree : Tree}

theorem get?_eq_some_iff (plain : tree.Plain) {place : Place} {entry : Entry} (inner : place ≠ []) :
    tree.get? place = some entry ↔ (place, entry) ∈ tree.entries := by
  rw [get?, if_neg inner, List.lookup_eq_some_iff]
  constructor
  · rintro ⟨before, after, split, -⟩
    simp [split]
  · intro member
    obtain ⟨before, after, split⟩ := List.append_of_mem member
    refine ⟨before, after, split, fun other earlier => ?_⟩
    have apart := plain.distinct
    rw [split, List.map_append, List.map_cons] at apart
    have differ : place ≠ other.1 := fun same =>
      List.disjoint_of_nodup_append apart (List.mem_map_of_mem earlier) (same ▸ List.mem_cons_self)
    simpa using differ

theorem put (plain : tree.Plain) {place : Place} (proper : ∀ name ∈ place, Proper name)
    {entry : Entry} (noLink : ∀ target, entry ≠ .link target) : (tree.put place entry).Plain where
  distinct := by
    refine List.nodup_cons.2
      ⟨fun member => ?_, plain.distinct.sublist (List.filter_sublist.map Prod.fst)⟩
    simp at member
  linkless other target := by
    simp only [Tree.put, List.mem_cons, not_or]
    exact ⟨fun same => noLink target (Prod.mk.inj same).2.symm,
      fun member => plain.linkless other target (List.mem_of_mem_filter member)⟩
  proper := List.forall_mem_cons.2
    ⟨proper, fun other member => plain.proper other (List.mem_of_mem_filter member)⟩

theorem add (plain : tree.Plain) {place : Place} (proper : ∀ name ∈ place, Proper name)
    {entry : Entry} (noLink : ∀ target, entry ≠ .link target) : (tree.add place entry).Plain := by
  refine Plain.put ?_ proper noLink
  refine List.foldlRecOn _ _ plain fun around held outer member => ?_
  obtain ⟨length, -, rfl⟩ := List.mem_map.1 member
  split
  · exact held
  · exact held.put (fun name inside => proper name (List.mem_of_mem_take inside)) (by simp)

theorem unlinked (plain : tree.Plain) : tree.Unlinked := by
  intro place target there
  by_cases root : place = []
  · simp [get?, root] at there
  · exact plain.linkless place target ((plain.get?_eq_some_iff root).1 there)

theorem reach_eq (plain : tree.Plain) (links : Nat) (outer : List Around) (here : Around) :
    tree.reach links outer here = .ok (tree.entries.flatMap (gathered here.place)) := by
  rw [reach, survey]
  refine bind_eq_ok_iff.2 ⟨tree.entries.map (gathered here.place), ?_, rfl⟩
  rw [mapM_eq_ok_iff, List.forall₂_map_right_iff, List.forall₂_same]
  rintro ⟨place, entry⟩ member
  cases entry with
  | link target => exact absurd member (plain.linkless place target)
  | file | directory => cases below : descent? here.place place <;> simp [gathered, below]

theorem mem_reached_iff (plain : tree.Plain) {here : Place} {file : Reached} :
    file ∈ tree.entries.flatMap (gathered here) ↔
      file.names ≠ [] ∧ tree.file? (here ++ file.names) = some file.bytes := by
  rw [List.mem_flatMap, file?_eq_some_iff]
  constructor
  · rintro ⟨⟨place, entry⟩, member, found⟩
    obtain ⟨rfl, nonempty, rfl⟩ := mem_gathered_iff.1 found
    exact ⟨nonempty, (plain.get?_eq_some_iff (by simp [nonempty])).2 member⟩
  · rintro ⟨nonempty, there⟩
    exact ⟨_, (plain.get?_eq_some_iff (by simp [nonempty])).1 there,
      mem_gathered_iff.2 ⟨rfl, nonempty, rfl⟩⟩

end Tree.Plain

theorem places_reached_sublist (here : Place) (entries : List (Place × Entry)) :
    ((entries.flatMap (gathered here)).map fun file => here ++ file.names).Sublist
      (entries.map Prod.fst) := by
  induction entries with
  | nil => exact .slnil
  | cons head entries ih =>
    obtain ⟨place, entry⟩ := head
    have one : ((gathered here (place, entry)).map fun file => here ++ file.names).Sublist [place] := by
      cases entry with
      | link target | directory => exact List.nil_sublist _
      | file bytes =>
        cases below : descent? here place with
        | none => simp [gathered, below]
        | some names =>
          have place_eq := (descent?_eq_some_iff.1 below).2
          simp [gathered, below, ← place_eq]
    simpa using one.append ih

end Files

namespace Folder
open Files

theorem ne_nil_of_isSource {names : List String} (h : isSource names = true) : names ≠ [] := by
  rintro rfl
  cases h

/-- All sources in the folder at a place, in the order of their paths. -/
structure Lists (tree : Tree) (place : Place) (files : List SourceFile) : Prop where
  ordered : files.Pairwise fun file later =>
    Text.namesLe file.names later.names = true ∧ file.names ≠ later.names
  mem_iff : ∀ file, file ∈ files ↔
    isSource file.names = true ∧ tree.file? (place ++ file.names) = some file.contents.toUTF8

theorem decode_eq_ok_iff {file : Reached} {source : SourceFile} :
    decode file = .ok source ↔ source.names = file.names ∧ file.bytes = source.contents.toUTF8 := by
  obtain ⟨names, contents⟩ := source
  rw [← fromUTF8?_eq_some_iff, decode]
  split
  next text read => simp [read, eq_comm]
  next unread => simp [unread]

theorem exists_of_load {tree : Tree} (plain : tree.Plain) {start : Tree.Arrival} {root : String}
    {files : List SourceFile} (h : load tree start root = .ok files) :
    ∃ decoded, files = sorted decoded ∧ List.Forall₂ (fun file source => decode file = .ok source)
      ((tree.entries.flatMap (gathered start.place)).filter (isSource ·.names)) decoded := by
  obtain ⟨reached, found, h⟩ := bind_eq_ok_iff.1 h
  rw [Tree.reachable, plain.reach_eq] at found
  cases found
  obtain ⟨decoded, read, h⟩ := bind_eq_ok_iff.1 h
  exact ⟨decoded, (Except.ok.inj h).symm, mapM_eq_ok_iff.1 read⟩

theorem nodup_names_decoded {tree : Tree} (plain : tree.Plain) {here : Place}
    {decoded : List SourceFile} (h : List.Forall₂ (fun file source => decode file = .ok source)
      ((tree.entries.flatMap (gathered here)).filter (isSource ·.names)) decoded) :
    (decoded.map SourceFile.names).Nodup := by
  have same : ((tree.entries.flatMap (gathered here)).filter (isSource ·.names)).map Reached.names =
      decoded.map SourceFile.names := by
    rw [← List.forall₂_eq_eq_eq, List.forall₂_map_left_iff, List.forall₂_map_right_iff]
    exact h.imp fun _ _ read => (decode_eq_ok_iff.1 read).1.symm
  rw [← same]
  have places := plain.distinct.sublist (places_reached_sublist here tree.entries)
  have names : ((tree.entries.flatMap (gathered here)).map Reached.names).Nodup := by
    refine List.Nodup.of_map (here ++ ·) ?_
    rwa [List.map_map]
  exact names.sublist (List.filter_sublist.map _)

theorem lists_of_load {tree : Tree} (plain : tree.Plain) {start : Tree.Arrival} {root : String}
    {files : List SourceFile} (h : load tree start root = .ok files) :
    Lists tree start.place files := by
  obtain ⟨decoded, rfl, read⟩ := exists_of_load plain h
  constructor
  · have trans (file next later : SourceFile) (h : Text.namesLe file.names next.names = true)
        (h' : Text.namesLe next.names later.names = true) :
        Text.namesLe file.names later.names = true :=
      Text.namesLe_trans h h'
    have total (file later : SourceFile) :
        (Text.namesLe file.names later.names || Text.namesLe later.names file.names) = true := by
      simpa using Text.namesLe_total file.names later.names
    have rising : (sorted decoded).Pairwise fun file later =>
        Text.namesLe file.names later.names = true :=
      List.pairwise_mergeSort trans total decoded
    have once := nodup_names_decoded plain read
    have apart : (sorted decoded).Pairwise fun file later => file.names ≠ later.names :=
      List.pairwise_map.1 (((List.mergeSort_perm decoded _).map SourceFile.names).nodup_iff.2 once)
    exact rising.and apart
  · intro file
    rw [sorted, List.mem_mergeSort, mem_of_forall₂ read]
    simp only [List.mem_filter, plain.mem_reached_iff, decode_eq_ok_iff]
    constructor
    · rintro ⟨reached, ⟨⟨-, there⟩, source⟩, names, text⟩
      rw [names, ← text]
      exact ⟨source, there⟩
    · rintro ⟨source, there⟩
      exact ⟨⟨file.names, file.contents.toUTF8⟩,
        ⟨⟨ne_nil_of_isSource source, there⟩, source⟩, rfl, rfl⟩

theorem Lists.sourced {tree : Tree} (plain : tree.Plain) {place : Place} {files : List SourceFile}
    (h : Lists tree place files) : ∀ file ∈ files, Command.Sourced file.names := by
  intro file member
  obtain ⟨source, there⟩ := (h.mem_iff file).1 member
  have inner : place ++ file.names ≠ [] := by simp [ne_nil_of_isSource source]
  have held := (plain.get?_eq_some_iff inner).1 (Tree.file?_eq_some_iff.1 there)
  exact ⟨source, fun name inside => plain.proper _ held name (List.mem_append_right place inside)⟩

theorem Lists.eq_of_names {tree : Tree} {place : Place} {files : List SourceFile}
    (h : Lists tree place files) {file other : SourceFile} (member : file ∈ files)
    (member' : other ∈ files) (names : file.names = other.names) : file = other := by
  obtain ⟨-, there⟩ := (h.mem_iff file).1 member
  obtain ⟨-, there'⟩ := (h.mem_iff other).1 member'
  rw [names, there', Option.some.injEq] at there
  have contents : other.contents = file.contents := String.toByteArray_inj.1 there
  cases file
  cases other
  simp_all

theorem lists_of_sources {tree : Tree} (plain : tree.Plain) {root : String} {files : List SourceFile}
    (h : sources tree root = .ok files) :
    ∃ place, tree.locate root = .ok place ∧ Lists tree place files := by
  unfold sources at h
  split at h
  next => cases h
  next start arrived =>
    split at h
    next =>
      cases loaded : load tree start root with
      | error fault => simp [loaded, Except.mapError] at h
      | ok files' =>
        rw [loaded] at h
        cases h
        exact ⟨start.place, map_eq_ok_iff.2 ⟨start, arrived, rfl⟩, lists_of_load plain loaded⟩
    next => cases h

end Folder

end Flowchart
