import Flowchart.Proofs.Gathering

/-! Drawing a folder, in a file tree without links. Nothing is written unless all sources were read and
drawn. Then charts are written in the order of their sources, until one cannot be written; what was
written stays, and is what the sources gave before the run, even if the charts go to the same folder. -/
namespace Flowchart.Command
open Files

variable {tree tree' : Tree} {output : String}

theorem deliver_cases (unlinked : tree.Unlinked) (path text : String) :
    (∃ tree' trouble, deliver tree path text = (tree', some trouble) ∧ tree.Built tree') ∨
      ∃ tree' place, deliver tree path text = (tree', none) ∧ tree.Wrote path text place tree' := by
  have built := tree.makeDirectories_built (Path.parents path)
  unfold deliver
  dsimp only
  split
  next made fault stopped =>
    rw [stopped] at built
    exact .inl ⟨made, _, rfl, built⟩
  next made ready =>
    rw [ready] at built
    split
    next done written =>
      obtain ⟨place, wrote⟩ := Tree.writeFile_wrote (built.unlinked unlinked) written
      exact .inr ⟨done, place, rfl, wrote.after built⟩
    next => exact .inl ⟨made, _, rfl, built⟩

theorem deliver_built (unlinked : tree.Unlinked) {path text : String} {trouble : Trouble}
    (h : deliver tree path text = (tree', some trouble)) : tree.Built tree' := by
  rcases deliver_cases unlinked path text with ⟨_, _, stopped, built⟩ | ⟨_, _, done, -⟩
  · cases h.symm.trans stopped
    exact built
  · cases h.symm.trans done

structure Delivered (tree : Tree) (output : String) (charts : List Folder.ChartFile) (tree' : Tree) :
    Prop extends tree.Grows tree' where
  written : ∀ file ∈ charts, ∃ place, tree'.locate (target output file.names) = .ok place ∧
    tree'.file? place = some file.chart.toUTF8
  others : ∀ place, (∀ file ∈ charts, tree'.locate (target output file.names) ≠ .ok place) →
    tree'.file? place = tree.file? place
  named : ∀ file ∈ charts, Path.Named (target output file.names)

theorem delivered_nil (h : tree.Built tree') : Delivered tree output [] tree' where
  toGrows := h.toGrows
  written := by simp
  others place _ := h.files place
  named := by simp

theorem Delivered.cons {first : Folder.ChartFile} {charts : List Folder.ChartFile} {tree'' : Tree}
    {place : Place} (unlinked : tree.Unlinked) (h : Delivered tree' output charts tree'')
    (wrote : tree.Wrote (target output first.names) first.chart place tree')
    (sourced : ∀ file ∈ first :: charts, Sourced file.names)
    (apart : ∀ file ∈ charts, first.names ≠ file.names) :
    Delivered tree output (first :: charts) tree'' := by
  have unlinked' := wrote.unlinked unlinked
  have unlinked'' := h.unlinked unlinked'
  have located := h.toGrows.locate unlinked' wrote.located
  -- A later target at the same place would be the target of the same source.
  have kept : tree''.file? place = tree'.file? place := by
    refine h.others place fun file member located' => apart file member ?_
    exact eq_of_locate_target unlinked'' (sourced first List.mem_cons_self)
      (sourced file (List.mem_cons_of_mem _ member)) wrote.named (h.named file member) located located'
  refine ⟨wrote.toGrows.trans h.toGrows, ?_, fun other free => ?_, ?_⟩
  · exact List.forall_mem_cons.2 ⟨⟨place, located, kept.trans wrote.written⟩, h.written⟩
  · obtain ⟨here, free⟩ := List.forall_mem_cons.1 free
    have differ : other ≠ place := by
      rintro rfl
      exact here located
    rw [h.others other free, wrote.others other differ]
  · exact List.forall_mem_cons.2 ⟨wrote.named, h.named⟩

theorem Delivered.built {charts : List Folder.ChartFile} {tree'' : Tree} (unlinked : tree.Unlinked)
    (h : Delivered tree output charts tree') (built : tree'.Built tree'') :
    Delivered tree output charts tree'' := by
  have kept {file : Folder.ChartFile} {place : Place}
      (located : tree'.locate (target output file.names) = .ok place) :
      tree''.locate (target output file.names) = .ok place :=
    built.toGrows.locate (h.unlinked unlinked) located
  refine ⟨h.toGrows.trans built.toGrows, fun file member => ?_, fun place free => ?_, h.named⟩
  · obtain ⟨place, located, written⟩ := h.written file member
    exact ⟨place, kept located, (built.files place).trans written⟩
  · rw [built.files]
    exact h.others place fun file member located => free file member (kept located)

/-- Charts are delivered in order, up to the first one whose delivery fails. -/
theorem exists_delivered (output : String) (unlinked : tree.Unlinked) (charts : List Folder.ChartFile)
    (sourced : ∀ file ∈ charts, Sourced file.names)
    (apart : charts.Pairwise fun file later => file.names ≠ later.names) :
    ∃ done rest before, charts = done ++ rest ∧ Delivered tree output done before ∧
      match rest with
      | [] => (deliverAll tree output charts).1 = before ∧
          (deliverAll tree output charts).2.2 = none
      | next :: _ => ∃ trouble, (deliverAll tree output charts).2.2 = some trouble ∧
          deliver before (target output next.names) next.chart =
            ((deliverAll tree output charts).1, some trouble) := by
  induction charts generalizing tree with
  | nil => exact ⟨[], [], tree, rfl, delivered_nil (.refl tree), rfl, rfl⟩
  | cons first charts ih =>
    obtain ⟨ahead, apart⟩ := List.pairwise_cons.1 apart
    rcases deliver_cases unlinked (target output first.names) first.chart with
      ⟨tree', trouble, stopped, -⟩ | ⟨tree', place, done, wrote⟩
    · exact ⟨[], first :: charts, tree, rfl, delivered_nil (.refl tree), trouble,
        by simp [deliverAll, stopped], by simp [deliverAll, stopped]⟩
    · obtain ⟨written, rest, before, rfl, delivered, ending⟩ :=
        ih (wrote.unlinked unlinked) (fun file member => sourced file (by simp [member])) apart
      refine ⟨first :: written, rest, before, rfl, delivered.cons unlinked wrote ?_ ?_, ?_⟩
      · exact fun file member => sourced file (List.mem_append_left rest member)
      · exact fun file member => ahead file (List.mem_append_left rest member)
      · simpa [deliverAll, done] using ending

variable {settings : Settings} {files : List Folder.SourceFile} {root : String} {failure : Failure}

theorem draw_eq_ok_iff {file : Folder.SourceFile} {chart : Folder.ChartFile} :
    Folder.draw settings file = .ok chart ↔
      chart.names = file.names ∧ compile settings file.contents = .ok chart.chart := by
  obtain ⟨names, text⟩ := chart
  cases drawn : compile settings file.contents <;> simp [Folder.draw, drawn, eq_comm]

theorem draw_eq_error_iff {file : Folder.SourceFile} :
    Folder.draw settings file = .error failure ↔
      ∃ inner, compile settings file.contents = .error inner ∧ failure = .inSource file.path inner := by
  cases drawn : compile settings file.contents <;> simp [Folder.draw, drawn, eq_comm]

theorem exists_least {place : Place} (lists : Folder.Lists tree place files)
    (h : Folder.drawAll settings files = .error failure) :
    ∃ least ∈ files, ∃ inner, compile settings least.contents = .error inner ∧
      (∀ file ∈ files, (∃ failure, compile settings file.contents = .error failure) →
        Text.namesLe least.names file.names = true) ∧
      failure = .inSource least.path inner := by
  obtain ⟨before, least, after, rfl, failed, fine⟩ := exists_of_mapM_eq_error h
  obtain ⟨inner, undrawn, rfl⟩ := draw_eq_error_iff.1 failed
  refine ⟨least, by simp, inner, undrawn, fun file member ⟨fault, fails⟩ => ?_, rfl⟩
  rcases List.mem_append.1 member with early | late
  · obtain ⟨chart, drawn⟩ := fine file early
    exact absurd (fails.symm.trans (draw_eq_ok_iff.1 drawn).2) (by simp)
  · rcases List.mem_cons.1 late with rfl | later
    · exact (Text.namesLe_total file.names file.names).elim id id
    · have ordered := (List.pairwise_append.1 lists.ordered).2.1
      exact ((List.pairwise_cons.1 ordered).1 file later).1

structure Aborted (tree : Tree) (outcome : Outcome) (failure : Failure) : Prop where
  exit : outcome.exit = 1
  unchanged : outcome.tree = tree
  told : ∃ log, outcome.stderr = log ++ (Trouble.drawingFolder failure).text

theorem aborted_of_sources (a : Arguments) (h : Folder.sources tree root = .error failure) :
    Aborted tree (drawFolder a settings root output tree) failure := by
  unfold drawFolder
  rw [h]
  exact ⟨rfl, rfl, "", (String.empty_append).symm⟩

theorem aborted_of_drawAll (a : Arguments) (h : Folder.sources tree root = .ok files)
    (undrawn : Folder.drawAll settings files = .error failure) :
    Aborted tree (drawFolder a settings root output tree) failure := by
  unfold drawFolder
  rw [h]
  dsimp only
  rw [undrawn]
  exact ⟨rfl, rfl, _, rfl⟩

structure ChartsWritten (settings : Settings) (tree : Tree) (output : String)
    (files : List Folder.SourceFile) (tree' : Tree) : Prop where
  written : ∀ file ∈ files, ∃ chart, compile settings file.contents = .ok chart ∧
    tree'.readText (target output file.names) = .ok chart
  apart : ∀ file ∈ files, ∀ other ∈ files,
    tree'.locate (target output file.names) = tree'.locate (target output other.names) →
      file.names = other.names
  others : ∀ place, (∀ file ∈ files, tree'.locate (target output file.names) ≠ .ok place) →
    tree'.file? place = tree.file? place

section
variable {charts : List Folder.ChartFile}
  (drawn : List.Forall₂ (fun file chart => Folder.draw settings file = .ok chart) files charts)

include drawn in
theorem map_names_eq : files.map Folder.SourceFile.names = charts.map Folder.ChartFile.names := by
  rw [← List.forall₂_eq_eq_eq, List.forall₂_map_left_iff, List.forall₂_map_right_iff]
  exact drawn.imp fun _ _ drawn => (draw_eq_ok_iff.1 drawn).1.symm

include drawn in
theorem Delivered.chartsWritten (unlinked : tree.Unlinked)
    (sourced : ∀ chart ∈ charts, Sourced chart.names) (h : Delivered tree output charts tree') :
    ChartsWritten settings tree output files tree' := by
  constructor
  · intro file member
    obtain ⟨chart, among, drawn⟩ := exists_of_forall₂ drawn file member
    obtain ⟨names, compiled⟩ := draw_eq_ok_iff.1 drawn
    obtain ⟨place, located, written⟩ := h.written chart among
    exact ⟨chart.chart, compiled, Tree.readText_eq_ok (names ▸ located) written⟩
  · intro file member other member' same
    obtain ⟨chart, among, first⟩ := exists_of_forall₂ drawn file member
    obtain ⟨chart', among', second⟩ := exists_of_forall₂ drawn other member'
    rw [← (draw_eq_ok_iff.1 first).1, ← (draw_eq_ok_iff.1 second).1] at same ⊢
    obtain ⟨place, located, -⟩ := h.written chart among
    exact eq_of_locate_target (h.unlinked unlinked) (sourced chart among) (sourced chart' among')
      (h.named chart among) (h.named chart' among') located (same.symm.trans located)
  · refine fun place free => h.others place fun chart among => ?_
    obtain ⟨file, member, drawn⟩ := (mem_of_forall₂ drawn).1 among
    rw [(draw_eq_ok_iff.1 drawn).1]
    exact free file member

end

/-- A run that could not go on behind these sources: the chart of the next one could not be written. -/
def StopsAt (settings : Settings) (tree : Tree) (output : String) (files : List Folder.SourceFile)
    (next : Folder.SourceFile) (tree' : Tree) : Prop :=
  ∃ before chart trouble, ChartsWritten settings tree output files before ∧
    compile settings next.contents = .ok chart ∧
    deliver before (target output next.names) chart = (tree', some trouble)

theorem drawFolder_of_drawAll (a : Arguments) (output : String) {charts : List Folder.ChartFile}
    (h : Folder.sources tree root = .ok files) (drawn : Folder.drawAll settings files = .ok charts) :
    (drawFolder a settings root output tree).tree = (deliverAll tree output charts).1 ∧
      ((drawFolder a settings root output tree).exit = 0 ↔
        (deliverAll tree output charts).2.2 = none) := by
  unfold drawFolder
  rw [h]
  dsimp only
  rw [drawn]
  dsimp only
  split
  next delivered => simp [delivered]
  next delivered => simp [delivered]

theorem exists_chartsWritten (a : Arguments) (plain : tree.Plain) {place : Place}
    (lists : Folder.Lists tree place files) {charts : List Folder.ChartFile}
    (h : Folder.sources tree root = .ok files) (drawn : Folder.drawAll settings files = .ok charts) :
    ∃ done rest, files = done ++ rest ∧
      ChartsWritten settings tree output done (drawFolder a settings root output tree).tree ∧
      ((drawFolder a settings root output tree).exit = 0 ↔ rest = []) ∧
      ∀ next later, rest = next :: later →
        StopsAt settings tree output done next (drawFolder a settings root output tree).tree := by
  have related := mapM_eq_ok_iff.1 drawn
  have names := map_names_eq related
  have sourced : ∀ chart ∈ charts, Sourced chart.names := by
    rw [← List.forall_mem_map (P := Sourced), ← names, List.forall_mem_map]
    exact lists.sourced plain
  have apart : charts.Pairwise fun chart later => chart.names ≠ later.names := by
    rw [← List.pairwise_map (R := (· ≠ ·)), ← names, List.pairwise_map]
    exact lists.ordered.imp And.right
  obtain ⟨done, rest, before, rfl, delivered, ending⟩ :=
    exists_delivered output plain.unlinked charts sourced apart
  obtain ⟨final, exit⟩ := drawFolder_of_drawAll a output h drawn
  have front := List.forall₂_take_append files done rest related
  have back := List.forall₂_drop_append files done rest related
  have sourcedDone : ∀ chart ∈ done, Sourced chart.names :=
    fun chart member => sourced chart (List.mem_append_left rest member)
  refine ⟨files.take done.length, files.drop done.length, (List.take_append_drop ..).symm, ?_⟩
  rw [exit, final]
  cases rest with
  | nil =>
    obtain ⟨same, complete⟩ := ending
    rw [List.forall₂_nil_right_iff.1 back, same, complete]
    exact ⟨delivered.chartsWritten front plain.unlinked sourcedDone, by simp, by simp⟩
  | cons chart charts =>
    obtain ⟨trouble, incomplete, stopped⟩ := ending
    obtain ⟨next, later, drawn, -, split⟩ := List.forall₂_cons_right_iff.1 back
    obtain ⟨named, compiled⟩ := draw_eq_ok_iff.1 drawn
    have built := deliver_built (delivered.unlinked plain.unlinked) stopped
    have written := delivered.chartsWritten front plain.unlinked sourcedDone
    rw [split, incomplete]
    refine ⟨(delivered.built plain.unlinked built).chartsWritten front plain.unlinked sourcedDone,
      by simp, ?_⟩
    rintro _ _ ⟨⟩
    exact ⟨before, chart.chart, trouble, written, compiled, named ▸ stopped⟩

/-- The chart of one source stands where the other one needs a directory. -/
def crowded : Tree :=
  (({} : Tree).add ["d", "a.flow"] (.file "a;".toUTF8)).add ["d", "a.mmd", "b.flow"]
    (.file "b;".toUTF8)

def crowdedFiles : List Folder.SourceFile := [⟨["a.flow"], "a;"⟩, ⟨["a.mmd", "b.flow"], "b;"⟩]

theorem plain_crowded : crowded.Plain :=
  (plain_empty.add (by decide) (by simp)).add (by decide) (by simp)

end Flowchart.Command
