import Flowchart.Proofs.Batch
import Flowchart.Proofs.Openings

/-! Drawing one source, in a file tree without links. Either the chart goes entirely to where it is
wanted, or nothing is printed and no file is created or changed. -/
namespace Flowchart

namespace Files.Tree

variable {tree : Tree} {here : Place} {steps : List Step} {path : String} {links : Nat}

/-- A text can be written to the file that a path names, in directories that are there or can be
made. -/
def Writable (tree : Tree) (path : String) : Prop :=
  path.utf8ByteSize ≤ Path.maxLength ∧
  ∃ front name, Path.steps path = front ++ [.into name] ∧ name.utf8ByteSize ≤ maxName ∧
    tree.Extends (origin tree.working path) front ∧
    (tree.extended (origin tree.working path) front).isDirectory
      (along (origin tree.working path) front ++ [name]) = false

theorem destination_of_admits (unlinked : tree.Unlinked) (h : tree.Admits here steps) :
    tree.destination links here false steps = .ok (along here steps) := by
  obtain ⟨front, name, held, rfl, leads, directory, found, other⟩ := h
  induction front generalizing here with
  | nil =>
    rw [along_nil] at directory found
    rcases held with _ | ⟨bytes | _ | target⟩
    · simp [destination, directory, found, Step.apply]
    · simp [destination, directory, found, Step.apply]
    · cases other
    · exact absurd (get?_of_find? found) (unlinked _ _)
  | cons step front ih =>
    obtain ⟨inside, passes, leads⟩ := leads
    have rest := ih leads directory found
    rw [List.cons_append, along_cons]
    unfold destination
    simp only [inside, if_true, Bool.false_eq_true, false_and, if_false]
    cases step with
    | stay | up => exact rest
    | into name =>
      obtain ⟨entry, there⟩ := passes
      cases entry with
      | link target => exact absurd (get?_of_find? there) (unlinked _ _)
      | file | directory => simpa [there, Step.apply] using rest

theorem closesName_of_named (h : Path.Named path) : Path.closesName path = false := by
  obtain ⟨front, name, named⟩ := h
  have last : ((Text.split '/' path).map Path.step).getLast? = some (.into name) := by
    rw [← Path.steps, named, List.getLast?_concat]
  unfold Path.closesName
  split
  next parts turned =>
    have split : Text.split '/' path = parts.reverse ++ [""] := by
      rw [← List.reverse_reverse (Text.split '/' path), turned, List.reverse_cons]
    rw [split, List.map_append, List.map_singleton, List.getLast?_concat] at last
    cases last
  next => rfl

theorem checkPath_eq_ok_iff :
    checkPath path = .ok () ↔ path ≠ "" ∧ path.utf8ByteSize ≤ Path.maxLength := by
  unfold checkPath
  grind

theorem exists_writeFile_iff (unlinked : tree.Unlinked) (bytes : ByteArray) :
    (∃ tree', tree.writeFile path bytes = .ok tree') ↔ checkPath path = .ok () ∧
      tree.Admits (origin tree.working path) (Path.steps path) := by
  constructor
  · rintro ⟨tree', h⟩
    obtain ⟨⟨⟩, checked, h⟩ := bind_eq_ok_iff.1 h
    obtain ⟨place, found, -⟩ := bind_eq_ok_iff.1 h
    exact ⟨checked, (destination_eq_ok unlinked found).1⟩
  · rintro ⟨checked, admits⟩
    have named : Path.Named path := by
      obtain ⟨front, name, -, named, -⟩ := admits
      exact ⟨front, name, named⟩
    have found : tree.destination maxLinks (origin tree.working path) (Path.closesName path)
        (Path.steps path) = .ok (along (origin tree.working path) (Path.steps path)) := by
      rw [closesName_of_named named]
      exact destination_of_admits unlinked admits
    exact ⟨_, bind_eq_ok_iff.2 ⟨(), checked, bind_eq_ok_iff.2 ⟨_, found, rfl⟩⟩⟩

theorem readText_eq_ok_iff {text : String} :
    tree.readText path = .ok text ↔
      ∃ place, tree.locate path = .ok place ∧ tree.file? place = some text.toUTF8 := by
  constructor
  · intro h
    unfold readText at h
    split at h
    next => cases h
    next bytes read =>
      split at h
      next decoded =>
        cases h
        obtain rfl := fromUTF8?_eq_some_iff.1 decoded
        obtain ⟨place, located, held⟩ := bind_eq_ok_iff.1 read
        refine ⟨place, located, file?_eq_some_iff.2 ?_⟩
        split at held
        next there =>
          cases held
          exact there
        next => cases held
      next => cases h
  · rintro ⟨place, located, held⟩
    exact readText_eq_ok located held

end Files.Tree

namespace Command
open Files

theorem deliver_eq_none_iff {tree : Tree} {path text : String} :
    (deliver tree path text).2 = none ↔ ∃ made, tree.makeDirectories (Path.parents path) = (made, none) ∧
      ∃ tree', made.writeFile path text.toUTF8 = .ok tree' := by
  unfold deliver
  dsimp only
  rcases tree.makeDirectories (Path.parents path) with ⟨made, _ | fault⟩
  · cases written : made.writeFile path text.toUTF8 with
    | ok tree' => exact ⟨fun _ => ⟨made, rfl, tree', written⟩, fun _ => by simp only [written]⟩
    | error fault =>
      constructor
      · intro done
        simp only [written] at done
        cases done
      · rintro ⟨_, ⟨⟩, tree', done⟩
        cases written.symm.trans done
  · simp

theorem deliver_eq_none_iff_writable {tree : Tree} (unlinked : tree.Unlinked) (path text : String) :
    (deliver tree path text).2 = none ↔ tree.Writable path := by
  rw [deliver_eq_none_iff]
  constructor
  · rintro ⟨made, ready, written⟩
    have built := tree.makeDirectories_built (Path.parents path)
    rw [ready] at built
    obtain ⟨checked, admits⟩ := (Tree.exists_writeFile_iff (built.unlinked unlinked) _).1 written
    obtain ⟨front, name, held, named, -, directory, found, other⟩ := admits
    rw [built.working] at directory found
    obtain ⟨-, short⟩ := Tree.checkPath_eq_ok_iff.1 checked
    obtain ⟨h, rfl⟩ :=
      (Tree.makeDirectories_parents unlinked short named rfl).1 ⟨ready, directory⟩
    refine ⟨short, front, name, named, Tree.fits_of_find? found, h, ?_⟩
    rw [Tree.isDirectory, Tree.get?_of_find? found]
    exact other
  · rintro ⟨short, front, name, named, fits, h, other⟩
    obtain ⟨ready, directory⟩ :=
      (Tree.makeDirectories_parents unlinked short named rfl).2 ⟨h, rfl⟩
    refine ⟨_, ready, ?_⟩
    have built := tree.extended_built (Tree.origin tree.working path) front
    rw [Tree.exists_writeFile_iff (built.unlinked unlinked), built.working]
    have nonempty : path ≠ "" := by
      rintro rfl
      have stays : [] ++ [.stay] = front ++ [.into name] := named
      cases (List.append_inj' stays rfl).2
    exact ⟨Tree.checkPath_eq_ok_iff.2 ⟨nonempty, short⟩, front, name, _, named, h.leads.1,
      directory, Tree.find?_of_fits fits _ _, other⟩

/-- A direction or a theme that is not known. The direction is looked at first. -/
inductive Misset (a : Arguments) (failure : Failure) : Prop where
  | direction : Direction.ofText (a.direction.getD "TD") = .error failure → Misset a failure
  | theme {direction : Direction} : Direction.ofText (a.direction.getD "TD") = .ok direction →
      Theme.ofText (a.theme.getD "none") = .error failure → Misset a failure

/-- The settings that arguments ask for. An empty label asks for the default. -/
structure Denotes (a : Arguments) (settings : Settings) : Prop where
  direction : Direction.ofText (a.direction.getD "TD") = .ok settings.direction
  theme : Theme.ofText (a.theme.getD "none") = .ok settings.theme
  trueLabel : settings.trueLabel =
    if a.trueLabel.getD "" = "" then "True" else a.trueLabel.getD ""
  falseLabel : settings.falseLabel =
    if a.falseLabel.getD "" = "" then "False" else a.falseLabel.getD ""

def Given (a : Arguments) (stdin : ByteArray) (tree : Tree) (source : String) : Prop :=
  match a.input with
  | some path => ∃ place, tree.locate path = .ok place ∧ tree.file? place = some source.toUTF8
  | none => stdin = source.toUTF8

inductive Hindered (a : Arguments) (stdin : ByteArray) (tree : Tree) : Prop where
  | settings {failure : Failure} : Misset a failure → Hindered a stdin tree
  | input : (∀ source, ¬ Given a stdin tree source) → Hindered a stdin tree
  | source {settings : Settings} {source : String} {failure : Failure} : Denotes a settings →
      Given a stdin tree source → compile settings source = .error failure → Hindered a stdin tree
  | output {path : String} : a.output = some path → ¬ tree.Writable path → Hindered a stdin tree

/-- A run that came to nothing. At most, directories were made. -/
structure Fruitless (tree : Tree) (outcome : Outcome) : Prop where
  exit : outcome.exit = 1
  stdout : outcome.stdout = ""
  built : tree.Built outcome.tree

/-- A run that brought a chart to where it is wanted, and nothing else. -/
structure Published (a : Arguments) (tree : Tree) (chart : String) (outcome : Outcome) : Prop where
  exit : outcome.exit = 0
  shown : a.output = none → outcome.stdout = chart ∧ outcome.tree = tree
  written : ∀ path, a.output = some path →
    outcome.stdout = "" ∧ ∃ place, tree.Wrote path chart place outcome.tree

section Single

variable {a : Arguments} {settings : Settings} {stdin : ByteArray} {tree : Tree} {source : String}
  {failure : Failure}

theorem settings_eq (a : Arguments) :
    a.settings = Direction.ofText (a.direction.getD "TD") >>= fun direction =>
      (Theme.ofText (a.theme.getD "none")).map fun theme =>
        (({ direction, theme } : Settings).withTrueLabel (a.trueLabel.getD "")).withFalseLabel
          (a.falseLabel.getD "") := by
  have direction : (a.direction.map Direction.ofText).getD (.ok .topDown) =
      Direction.ofText (a.direction.getD "TD") := by
    cases a.direction with
    | none => cbv
    | some text => rfl
  have theme : (a.theme.map Theme.ofText).getD (.ok .plain) =
      Theme.ofText (a.theme.getD "none") := by
    cases a.theme with
    | none => cbv
    | some text => rfl
  rw [← direction, ← theme, Arguments.settings, Settings.ofTexts]
  cases (a.direction.map Direction.ofText).getD (.ok .topDown) with
  | error failure => rfl
  | ok direction => cases (a.theme.map Theme.ofText).getD (.ok .plain) <;> rfl

theorem withLabels_eq_iff {direction : Direction} {theme : Theme} {yes no : String} :
    (({ direction, theme } : Settings).withTrueLabel yes).withFalseLabel no = settings ↔
      direction = settings.direction ∧ theme = settings.theme ∧
      settings.trueLabel = (if yes = "" then "True" else yes) ∧
      settings.falseLabel = (if no = "" then "False" else no) := by
  obtain ⟨trueLabel, falseLabel, direction', theme', _, _⟩ := settings
  unfold Settings.withTrueLabel Settings.withFalseLabel
  grind

theorem settings_eq_ok_iff : a.settings = .ok settings ↔ Denotes a settings := by
  simp only [settings_eq, bind_eq_ok_iff, map_eq_ok_iff, withLabels_eq_iff]
  constructor
  · rintro ⟨direction, known, theme, known', rfl, rfl, trueLabel, falseLabel⟩
    exact ⟨known, known', trueLabel, falseLabel⟩
  · rintro ⟨known, known', trueLabel, falseLabel⟩
    exact ⟨_, known, _, known', rfl, rfl, trueLabel, falseLabel⟩

theorem settings_eq_error_iff : a.settings = .error failure ↔ Misset a failure := by
  rw [settings_eq, bind_eq_error_iff]
  constructor
  · rintro (unknown | ⟨direction, known, unknown⟩)
    · exact .direction unknown
    · cases theme : Theme.ofText (a.theme.getD "none") with
      | error fault =>
        rw [theme] at unknown
        cases unknown
        exact .theme known theme
      | ok theme' =>
        rw [theme] at unknown
        cases unknown
  · rintro (unknown | ⟨known, unknown⟩)
    · exact .inl unknown
    · exact .inr ⟨_, known, by rw [unknown]; rfl⟩

theorem readSource_eq_ok_iff :
    readSource a.input stdin tree = .ok source ↔ Given a stdin tree source := by
  unfold readSource Given
  cases a.input with
  | none =>
    rw [← fromUTF8?_eq_some_iff]
    cases String.fromUTF8? stdin <;> simp
  | some path =>
    dsimp only
    rw [← Tree.readText_eq_ok_iff]
    cases tree.readText path <;> simp [Except.mapError]

theorem not_hindered {chart : String} (denoted : Denotes a settings)
    (given : Given a stdin tree source) (compiled : compile settings source = .ok chart)
    (writable : ∀ path, a.output = some path → tree.Writable path) : ¬ Hindered a stdin tree := by
  have set := settings_eq_ok_iff.2 denoted
  have read := readSource_eq_ok_iff.2 given
  intro h
  cases h with
  | settings misset => cases set.symm.trans (settings_eq_error_iff.2 misset)
  | input unread => exact unread source given
  | source denoted' given' failed =>
    cases set.symm.trans (settings_eq_ok_iff.2 denoted')
    cases read.symm.trans (readSource_eq_ok_iff.2 given')
    cases compiled.symm.trans failed
  | output wanted refused => exact refused (writable _ wanted)

theorem drawOne_fruitless (unlinked : tree.Unlinked) (denoted : Denotes a settings)
    (h : Hindered a stdin tree) : Fruitless tree (drawOne a settings stdin tree) := by
  unfold drawOne
  split
  next => exact ⟨rfl, rfl, .refl tree⟩
  next source read =>
    have given := readSource_eq_ok_iff.1 read
    dsimp only
    split
    next => exact ⟨rfl, rfl, .refl tree⟩
    next chart compiled =>
      cases output : a.output with
      | none => exact absurd h (not_hindered denoted given compiled (by simp [output]))
      | some path =>
        rcases deliver_cases unlinked path chart with ⟨_, _, stopped, built⟩ | ⟨_, _, done, -⟩
        · simp only [stopped]
          exact ⟨rfl, rfl, built⟩
        · have writable := (deliver_eq_none_iff_writable unlinked path chart).1 (by rw [done])
          exact absurd h (not_hindered denoted given compiled (by simp [output, writable]))

theorem drawOne_published (unlinked : tree.Unlinked) (denoted : Denotes a settings)
    (h : ¬ Hindered a stdin tree) : ∃ source chart, Given a stdin tree source ∧
      compile settings source = .ok chart ∧
      Published a tree chart (drawOne a settings stdin tree) := by
  unfold drawOne
  split
  next trouble unread =>
    refine absurd (.input fun source given => ?_) h
    cases unread.symm.trans (readSource_eq_ok_iff.2 given)
  next source read =>
    have given := readSource_eq_ok_iff.1 read
    dsimp only
    split
    next failure failed => exact absurd (.source denoted given failed) h
    next chart compiled =>
      refine ⟨source, chart, given, compiled, ?_⟩
      cases output : a.output with
      | none => exact ⟨rfl, fun _ => ⟨rfl, rfl⟩, by simp [output]⟩
      | some path =>
        rcases deliver_cases unlinked path chart with ⟨_, _, stopped, -⟩ | ⟨_, place, done, wrote⟩
        · refine absurd (.output output fun writable => ?_) h
          have delivered := (deliver_eq_none_iff_writable unlinked path chart).2 writable
          rw [stopped] at delivered
          cases delivered
        · simp only [done]
          refine ⟨rfl, by simp [output], fun other same => ⟨rfl, place, ?_⟩⟩
          cases output.symm.trans same
          exact wrote

theorem drawOne_of_error (given : Given a stdin tree source)
    (failed : compile settings source = .error failure) :
    drawOne a settings stdin tree =
      { exit := 1
        stderr := logText a.verbose (drawingEvents settings source) ++
          failure.report.render source ++ (Trouble.drawing failure).text
        tree } := by
  rw [drawOne, readSource_eq_ok_iff.2 given]
  simp only [failed]

variable {args : List String}

theorem run_of_denotes (read : Arguments.read args = .ok a) (single : a.batch = none)
    (denoted : Denotes a settings) : run args stdin tree = drawOne a settings stdin tree := by
  rw [run, read]
  simp only [execute, settings_eq_ok_iff.2 denoted, single]

theorem run_of_misset (read : Arguments.read args = .ok a) (misset : Misset a failure) :
    run args stdin tree =
      { exit := 1, stderr := (Trouble.settings failure).text, tree := tree } := by
  rw [run, read]
  simp only [execute, settings_eq_error_iff.2 misset]

theorem denotes_or_misset (a : Arguments) :
    (∃ settings, Denotes a settings) ∨ ∃ failure, Misset a failure := by
  cases set : a.settings with
  | ok settings => exact .inl ⟨settings, settings_eq_ok_iff.1 set⟩
  | error failure => exact .inr ⟨failure, settings_eq_error_iff.1 set⟩

end Single

/-- A source that is to be drawn over itself, by a path through a directory that is not there. -/
def sketch : Tree := ({} : Tree).add ["a"] (.file "x;".toUTF8)

def overSketch : Arguments where
  input := some "a"
  output := some "b/../a"

theorem unlinked_sketch : sketch.Unlinked :=
  (plain_empty.add (by decide) (by simp)).unlinked

theorem given_sketch : Given overSketch .empty sketch "x;" := ⟨["a"], by cbv, by cbv⟩

theorem writable_sketch : sketch.Writable "b/../a" := by
  refine ⟨by decide, [.into "b", .up], "a", by decide, by decide, ⟨rfl, ?_, ?_, trivial, rfl⟩, ?_⟩
  · change "b".utf8ByteSize ≤ maxName
    decide
  · decide +kernel
  · decide +kernel

end Command

end Flowchart
