import Flowchart.Command.Arguments
import Flowchart.Command.Log
import Flowchart.Command.Trouble
import Flowchart.Report

/-! The command: a source is drawn to a file or to the standard output, or the sources of a folder are
drawn into another folder. -/
namespace Flowchart.Command
open Files

structure Outcome where
  exit : Nat := 0
  stdout : String := ""
  stderr : String := ""
  tree : Tree

def versionText : String := "flowscript-cli 0.1.0\n"

def helpText : String :=
  "Compile FlowScript pseudocode into a flowchart\n\n" ++
  "Usage: flowscript-cli [OPTIONS]\n\n" ++
  "Options:\n" ++
  "  -i, --input <INPUT>          Source file to compile (reads stdin when absent)\n" ++
  "  -o, --output <OUTPUT>        Output file, or output directory with --batch (writes stdout when absent)\n" ++
  "      --batch <DIR>            Compile every .flow file below DIR into the output directory\n" ++
  "      --direction <DIRECTION>  Flowchart direction: TD, LR [default: TD]\n" ++
  "      --true-label <LABEL>     [default: True]\n" ++
  "      --false-label <LABEL>    [default: False]\n" ++
  "      --theme <THEME>          Style theme: none, bright, vivid [default: none]\n" ++
  "  -v, --verbose                Log pipeline details to stderr\n" ++
  "  -h, --help                   Print help\n" ++
  "  -V, --version                Print version\n"

def usageText : String :=
  "Usage: flowscript-cli [OPTIONS]\n\nFor more information, try '--help'.\n"

def deliver (tree : Tree) (path text : String) : Tree × Option Trouble :=
  let parents := Path.parents path
  match tree.makeDirectories parents with
  | (tree, some fault) => (tree, some (.makingDirectory (parents.headD "") fault))
  | (tree, none) =>
    match tree.writeFile path text.toUTF8 with
    | .ok tree => (tree, none)
    | .error fault => (tree, some (.writing path fault))

def readSource (input : Option String) (stdin : ByteArray) (tree : Tree) : Except Trouble String :=
  match input with
  | some path => (tree.readText path).mapError (.readingInput path)
  | none =>
    match String.fromUTF8? stdin with
    | some text => .ok text
    | none => .error .readingStandardInput

def drawOne (a : Arguments) (settings : Settings) (stdin : ByteArray) (tree : Tree) : Outcome :=
  match readSource a.input stdin tree with
  | .error trouble => { exit := 1, stderr := trouble.text, tree }
  | .ok source =>
    let log := logText a.verbose (drawingEvents settings source)
    match compile settings source with
    | .error failure =>
      { exit := 1, stderr := log ++ failure.report.render source ++ (Trouble.drawing failure).text, tree }
    | .ok chart =>
      match a.output with
      | none => { stdout := chart, stderr := log, tree }
      | some path =>
        match deliver tree path chart with
        | (tree, none) => { stderr := log ++ logText a.verbose [.wrote path], tree }
        | (tree, some trouble) => { exit := 1, stderr := log ++ trouble.text, tree }

def chartExtension : String := "mmd"

/-- Where the chart of a source goes: to the same names below the output folder, with the extension of
charts. -/
def target (output : String) (names : List String) : String :=
  match names.getLast? with
  | some name =>
    Path.join output (Path.ofNames (names.dropLast ++ [Name.withExtension name chartExtension]))
  | none => output

/-- Writes charts one after the other. The first one that cannot be written ends the writing, and those
before it stay. -/
def deliverAll (tree : Tree) (output : String) :
    List Folder.ChartFile → Tree × List Event × Option Trouble
  | [] => (tree, [], none)
  | file :: files =>
    let path := target output file.names
    match deliver tree path file.chart with
    | (tree, some trouble) => (tree, [], some trouble)
    | (tree, none) =>
      let (tree, events, trouble) := deliverAll tree output files
      (tree, .wroteSource file.path path :: events, trouble)

def sourceReport (files : List Folder.SourceFile) : Failure → String
  | .inSource path inner =>
    match files.find? (·.path = path) with
    | some file => path ++ ": " ++ inner.report.render file.contents
    | none => ""
  | _ => ""

def drawFolder (a : Arguments) (settings : Settings) (root output : String) (tree : Tree) : Outcome :=
  match Folder.sources tree root with
  | .error failure => { exit := 1, stderr := (Trouble.drawingFolder failure).text, tree }
  | .ok files =>
    let log := logText a.verbose (.enteredFolder files.length :: folderEvents settings files)
    match Folder.drawAll settings files with
    | .error failure =>
      { exit := 1
        stderr := log ++ sourceReport files failure ++ (Trouble.drawingFolder failure).text
        tree }
    | .ok charts =>
      match deliverAll tree output charts with
      | (tree, events, some trouble) =>
        { exit := 1, stderr := log ++ logText a.verbose events ++ trouble.text, tree }
      | (tree, events, none) =>
        { stderr := log ++ logText a.verbose (events ++ [.finishedFolder charts.length]), tree }

def execute (a : Arguments) (stdin : ByteArray) (tree : Tree) : Outcome :=
  match a.settings with
  | .error failure => { exit := 1, stderr := (Trouble.settings failure).text, tree }
  | .ok settings =>
    match a.batch with
    | some root => drawFolder a settings root (a.output.getD "") tree
    | none => drawOne a settings stdin tree

def run (args : List String) (stdin : ByteArray) (tree : Tree) : Outcome :=
  match Arguments.read args with
  | .ok a => execute a stdin tree
  | .error .version => { stdout := versionText, tree }
  | .error .help => { stdout := helpText, tree }
  | .error .usage => { exit := 2, stderr := usageText, tree }

def readsStandardInput (args : List String) : Bool :=
  match Arguments.read args with
  | .ok a => a.batch.isNone && a.input.isNone
  | .error _ => false

end Flowchart.Command
