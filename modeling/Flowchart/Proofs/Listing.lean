import Flowchart.Proofs.Gathering

/-! What is loaded from a folder, in a file tree without links. A file is a source if its name has the
extension of sources behind its last dot and something before that dot. Unless the bytes of a source are
no text, all sources of the folder are loaded, each once, in the order of their paths. This determines
what is loaded, so that it does not matter in which order the tree lists its entries. -/
namespace Flowchart

namespace Text

theorem listLe_and_ne_iff {α β : Type} [DecidableEq α] [LT β] {le : α → α → Bool} (key : α → β)
    (injective : ∀ a b, key a = key b → a = b) (h : ∀ a b, le a b = true ∧ a ≠ b ↔ key a < key b)
    (as bs : List α) : listLe le as bs = true ∧ as ≠ bs ↔ as.map key < bs.map key := by
  induction as generalizing bs with
  | nil =>
    cases bs with
    | nil => simp [List.not_lt_nil]
    | cons b bs => simp [listLe]
  | cons a as ih =>
    cases bs with
    | nil => simp [listLe]
    | cons b bs =>
      rw [List.map_cons, List.map_cons, List.cons_lt_cons_iff, ← h]
      by_cases same : a = b
      · subst same
        simpa [listLe] using ih bs
      · have keys : key a ≠ key b := fun equal => same (injective a b equal)
        simp [listLe, same, keys]

theorem byteLe_and_ne_iff (a b : UInt8) : byteLe a b = true ∧ a ≠ b ↔ a < b := by
  rw [byteLe, decide_eq_true_eq, UInt8.lt_iff_toNat_lt, Ne, ← UInt8.toNat_inj]
  omega

theorem nameLe_and_ne_iff (a b : String) : nameLe a b = true ∧ a ≠ b ↔ bytes a < bytes b := by
  have lists := listLe_and_ne_iff id (fun _ _ => id) byteLe_and_ne_iff (bytes a) (bytes b)
  rw [List.map_id, List.map_id] at lists
  rw [← lists, nameLe]
  exact and_congr_right fun _ => not_congr ⟨congrArg bytes, bytes_injective⟩

theorem namesLe_and_ne_iff (as bs : List String) :
    namesLe as bs = true ∧ as ≠ bs ↔ as.map bytes < bs.map bytes :=
  listLe_and_ne_iff bytes (fun _ _ => bytes_injective) nameLe_and_ne_iff as bs

end Text

namespace Files

theorem Name.extension?_eq_some_iff {name extension : String} :
    extension? name = some extension ↔
      '.' ∉ extension.toList ∧ ∃ stem, stem ≠ "" ∧ name = stem ++ "." ++ extension := by
  constructor
  · intro h
    obtain ⟨⟨stem, _⟩, parted, rfl⟩ := Option.map_eq_some_iff.1 h
    have whole := eq_of_parted? parted
    unfold parted? at parted
    dsimp only at parted
    split at parted
    next => cases parted
    next => cases parted
    next stem' before cut =>
      cases parted
      refine ⟨fun dot => ?_, _, fun stemless => ?_, whole⟩
      · simp only [String.toList_ofList, List.mem_reverse] at dot
        simpa using List.mem_takeWhile_imp dot
      · exact before (by simpa using congrArg String.toList stemless)
  · rintro ⟨dotless, stem, nonempty, rfl⟩
    have other : ∀ c ∈ extension.toList.reverse, (c != '.') = true := by
      intro c member
      simpa using ne_of_mem_of_not_mem (List.mem_reverse.1 member) dotless
    obtain ⟨c, cs, front⟩ :=
      List.exists_cons_of_ne_nil (show stem.toList.reverse ≠ [] by simpa using nonempty)
    simp [extension?, parted?, List.takeWhile_append_of_pos other,
      List.dropWhile_append_of_pos other, front]

end Files

namespace Folder
open Files

/-- Named like a source: the last name has the extension of sources behind its last dot, and something
before it. -/
def Called (names : List String) : Prop :=
  ∃ around stem, stem ≠ "" ∧ names = around ++ [stem ++ ".flow"]

theorem isSource_iff_called {names : List String} : isSource names = true ↔ Called names := by
  have dotless : '.' ∉ sourceExtension.toList := by decide
  have spelled (stem : String) : stem ++ "." ++ sourceExtension = stem ++ ".flow" :=
    String.append_assoc
  simp only [isSource, beq_iff_eq, Option.bind_eq_some_iff, List.getLast?_eq_some_iff,
    Name.extension?_eq_some_iff, dotless, not_false_eq_true, true_and, spelled]
  constructor
  · rintro ⟨name, ⟨around, rfl⟩, stem, nonempty, rfl⟩
    exact ⟨around, stem, nonempty, rfl⟩
  · rintro ⟨around, stem, nonempty, rfl⟩
    exact ⟨_, ⟨around, rfl⟩, stem, nonempty, rfl⟩

def Garbled (tree : Tree) (place : Place) : Prop :=
  ∃ names bytes, Called names ∧ tree.file? (place ++ names) = some bytes ∧ ¬ bytes.IsValidUTF8

/-- All sources below the place, each once, with rising paths. -/
structure Complete (tree : Tree) (place : Place) (files : List SourceFile) : Prop where
  rising : files.Pairwise fun file later =>
    file.names.map Text.bytes < later.names.map Text.bytes
  mem_iff : ∀ file, file ∈ files ↔
    Called file.names ∧ tree.file? (place ++ file.names) = some file.contents.toUTF8

theorem Lists.complete {tree : Tree} {place : Place} {files : List SourceFile}
    (h : Lists tree place files) : Complete tree place files where
  rising := h.ordered.imp fun ordered => (Text.namesLe_and_ne_iff _ _).1 ordered
  mem_iff file := by rw [h.mem_iff, isSource_iff_called]

theorem Complete.unique {tree tree' : Tree} {place : Place} {files files' : List SourceFile}
    (same : ∀ place, tree'.file? place = tree.file? place) (h : Complete tree place files)
    (h' : Complete tree' place files') : files' = files := by
  have irrefl : Std.Irrefl fun file later : SourceFile =>
      file.names.map Text.bytes < later.names.map Text.bytes := by
    constructor
    intro file less
    exact ((Text.namesLe_and_ne_iff _ _).2 less).2 rfl
  have antisymm : Std.Antisymm fun file later : SourceFile =>
      file.names.map Text.bytes < later.names.map Text.bytes := by
    constructor
    intro file later less more
    obtain ⟨before, apart⟩ := (Text.namesLe_and_ne_iff _ _).2 less
    obtain ⟨behind, -⟩ := (Text.namesLe_and_ne_iff _ _).2 more
    exact absurd (Text.namesLe_antisymm before behind) apart
  refine h'.rising.eq_of_mem_iff h.rising fun file => ?_
  rw [h'.mem_iff, h.mem_iff, same]

theorem decode_eq_error_iff {file : Reached} {fault : WalkFault} :
    decode file = .error fault ↔ ¬ file.bytes.IsValidUTF8 ∧ fault = .invalidText := by
  unfold decode String.fromUTF8?
  by_cases valid : file.bytes.IsValidUTF8 <;> simp [valid, eq_comm]

section
variable {tree : Tree} (plain : tree.Plain) {start : Tree.Arrival} {root : String}
include plain

theorem garbled_of_load {fault : WalkFault} (h : load tree start root = .error fault) :
    fault = .invalidText ∧ Garbled tree start.place := by
  have reached : tree.reachable start root = .ok (tree.entries.flatMap (gathered start.place)) :=
    plain.reach_eq start.links [] ⟨start.place, root⟩
  rw [load, reached] at h
  change ((tree.entries.flatMap (gathered start.place)).filter (isSource ·.names)).mapM decode >>=
    (fun decoded => .ok (sorted decoded)) = .error fault at h
  obtain undecoded | ⟨decoded, -, done⟩ := bind_eq_error_iff.1 h
  · obtain ⟨before, file, after, split, failed, -⟩ := exists_of_mapM_eq_error undecoded
    obtain ⟨invalid, rfl⟩ := decode_eq_error_iff.1 failed
    have member : file ∈ (tree.entries.flatMap (gathered start.place)).filter (isSource ·.names) := by
      simp [split]
    obtain ⟨found, source⟩ := List.mem_filter.1 member
    exact ⟨rfl, file.names, file.bytes, isSource_iff_called.1 source,
      (plain.mem_reached_iff.1 found).2, invalid⟩
  · cases done

theorem not_garbled_of_load {files : List SourceFile} (h : load tree start root = .ok files) :
    ¬ Garbled tree start.place := by
  rintro ⟨names, bytes, called, there, invalid⟩
  obtain ⟨decoded, -, read⟩ := exists_of_load plain h
  have source := isSource_iff_called.2 called
  have member : (⟨names, bytes⟩ : Reached) ∈
      (tree.entries.flatMap (gathered start.place)).filter (isSource ·.names) :=
    List.mem_filter.2 ⟨plain.mem_reached_iff.2 ⟨ne_nil_of_isSource source, there⟩, source⟩
  obtain ⟨file, -, text⟩ := exists_of_forall₂ read _ member
  have failed : decode ⟨names, bytes⟩ = .error .invalidText := decode_eq_error_iff.2 ⟨invalid, rfl⟩
  exact absurd (text.symm.trans failed) (by simp)

end

theorem exists_arrival {tree : Tree} {root : String} (h : tree.namesDirectory root = true) :
    ∃ start, tree.arrive root = .ok start ∧ tree.isDirectory start.place = true := by
  unfold Tree.namesDirectory at h
  split at h
  next place located =>
    obtain ⟨start, arrived, rfl⟩ := map_eq_ok_iff.1 located
    exact ⟨start, arrived, h⟩
  next => cases h

theorem sources_of_arrive {tree : Tree} {root : String} {start : Tree.Arrival}
    (h : tree.arrive root = .ok start) (directory : tree.isDirectory start.place = true) :
    sources tree root = (load tree start root).mapError .unreadableSource := by
  simp [sources, h, directory]

theorem sources_cases {tree : Tree} (plain : tree.Plain) {root : String} {start : Tree.Arrival}
    (arrived : tree.arrive root = .ok start) (directory : tree.isDirectory start.place = true) :
    sources tree root = .error (.unreadableSource .invalidText) ∧ Garbled tree start.place ∨
      ∃ files, sources tree root = .ok files ∧ ¬ Garbled tree start.place ∧
        Complete tree start.place files := by
  rw [sources_of_arrive arrived directory]
  cases loaded : load tree start root with
  | error fault =>
    obtain ⟨rfl, garbled⟩ := garbled_of_load plain loaded
    exact .inl ⟨rfl, garbled⟩
  | ok files =>
    exact .inr ⟨files, rfl, not_garbled_of_load plain loaded, (lists_of_load plain loaded).complete⟩

end Folder

namespace Files.Tree

variable {tree tree' : Tree}

theorem Plain.perm (plain : tree.Plain) (same : tree'.entries.Perm tree.entries) : tree'.Plain where
  distinct := ((same.map Prod.fst).nodup_iff).2 plain.distinct
  linkless place target := by
    rw [same.mem_iff]
    exact plain.linkless place target
  proper entry member := plain.proper entry (same.mem_iff.1 member)

theorem Plain.get?_perm (plain : tree.Plain) (same : tree'.entries.Perm tree.entries)
    (place : Place) : tree'.get? place = tree.get? place := by
  by_cases root : place = []
  · rw [get?, get?, if_pos root, if_pos root]
  · ext entry
    rw [(plain.perm same).get?_eq_some_iff root, plain.get?_eq_some_iff root, same.mem_iff]

theorem grows_of_get? (working : tree'.working = tree.working)
    (same : ∀ place, tree'.get? place = tree.get? place) : tree.Grows tree' where
  working := working
  kept place kind kept := by rwa [same]
  unlinked unlinked place target := by
    rw [same]
    exact unlinked place target

end Files.Tree

namespace Folder
open Files

theorem sources_perm {tree tree' : Tree} (plain : tree.Plain) {root : String}
    (directory : tree.namesDirectory root = true) (same : tree'.entries.Perm tree.entries)
    (working : tree'.working = tree.working) : sources tree' root = sources tree root := by
  have get (place : Place) := plain.get?_perm same place
  have file (place : Place) : tree'.file? place = tree.file? place := by
    rw [Tree.file?, get, Tree.file?]
  have garbled (place : Place) : Garbled tree' place ↔ Garbled tree place := by
    simp only [Garbled, file]
  have grows := Tree.grows_of_get? working get
  obtain ⟨start, arrived, inside⟩ := exists_arrival directory
  obtain ⟨checked, leads, rfl⟩ := (Tree.arrive_eq_ok_iff plain.unlinked).1 arrived
  have arrived' := (Tree.arrive_eq_ok_iff (grows.unlinked plain.unlinked)).2
    ⟨checked, grows.working ▸ grows.leads leads, rfl⟩
  rw [grows.working] at arrived'
  obtain ⟨failed, broken⟩ | ⟨files, loaded, fine, complete⟩ := sources_cases plain arrived inside
  · obtain ⟨failed', -⟩ | ⟨-, -, fine', -⟩ :=
      sources_cases (plain.perm same) arrived' (grows.isDirectory inside)
    · rw [failed, failed']
    · exact absurd ((garbled _).2 broken) fine'
  · obtain ⟨-, broken'⟩ | ⟨files', loaded', -, complete'⟩ :=
      sources_cases (plain.perm same) arrived' (grows.isDirectory inside)
    · exact absurd ((garbled _).1 broken') fine
    · rw [loaded, loaded', complete.unique file complete']

/-- Loading a folder fails if and only if some source in it is no text. Otherwise all its sources are
loaded, each once and in the order of their paths. A tree that lists the same entries in another order
gives the same result. -/
theorem sources_complete {tree : Tree} (plain : tree.Plain) {root : String}
    (directory : tree.namesDirectory root = true) :
    ∃ place, tree.locate root = .ok place ∧ tree.isDirectory place = true ∧
      ((∃ fault, sources tree root = .error (.unreadableSource fault)) ↔ Garbled tree place) ∧
      (¬ Garbled tree place →
        ∃ files, sources tree root = .ok files ∧ Complete tree place files) ∧
      ∀ tree' : Tree, tree'.entries.Perm tree.entries → tree'.working = tree.working →
        sources tree' root = sources tree root := by
  obtain ⟨start, arrived, inside⟩ := exists_arrival directory
  refine ⟨start.place, map_eq_ok_iff.2 ⟨start, arrived, rfl⟩, inside, ?_, ?_,
    fun tree' same working => sources_perm plain directory same working⟩
  · obtain ⟨failed, garbled⟩ | ⟨files, loaded, fine, -⟩ := sources_cases plain arrived inside
    · exact iff_of_true ⟨_, failed⟩ garbled
    · exact iff_of_false (by simp [loaded]) fine
  · intro fine
    obtain ⟨-, garbled⟩ | ⟨files, loaded, -, complete⟩ := sources_cases plain arrived inside
    · exact absurd garbled fine
    · exact ⟨files, loaded, complete⟩

def motley : Tree :=
  ({} : Tree)
    |>.add ["d", ".flow"] (.file "p;".toUTF8)
    |>.add ["d", "a-b.flow"] (.file "q;".toUTF8)
    |>.add ["d", "a", "z.flow"] (.file "r;".toUTF8)
    |>.add ["d", "..flow"] (.file "s;".toUTF8)
    |>.add ["d", "b.flow", "c.flow"] (.file "t;".toUTF8)

theorem plain_motley : motley.Plain :=
  plain_empty
    |>.add (by decide) (by simp)
    |>.add (by decide) (by simp)
    |>.add (by decide) (by simp)
    |>.add (by decide) (by simp)
    |>.add (by decide) (by simp)

theorem sources_complete_motley :
    motley.Plain ∧ motley.namesDirectory "d" = true ∧
    Complete motley ["d"] [⟨["..flow"], "s;"⟩, ⟨["a", "z.flow"], "r;"⟩, ⟨["a-b.flow"], "q;"⟩,
      ⟨["b.flow", "c.flow"], "t;"⟩] ∧
    sources { motley with entries := motley.entries.reverse } "d" = sources motley "d" := by
  have directory : motley.namesDirectory "d" = true := by cbv
  have located : motley.locate "d" = .ok ["d"] := by cbv
  have read : sources motley "d" = .ok [⟨["..flow"], "s;"⟩, ⟨["a", "z.flow"], "r;"⟩,
      ⟨["a-b.flow"], "q;"⟩, ⟨["b.flow", "c.flow"], "t;"⟩] := by cbv
  obtain ⟨place, located', -, fails, loads, listed⟩ := sources_complete plain_motley directory
  cases located.symm.trans located'
  have fine : ¬ Garbled motley ["d"] := by
    rw [← fails, read]
    simp
  obtain ⟨files, read', complete⟩ := loads fine
  cases read.symm.trans read'
  exact ⟨plain_motley, directory, complete, listed _ (List.reverse_perm _) rfl⟩

end Folder

end Flowchart
