import Flowchart.Folder

/-! What the command tells on request about its progress. -/
namespace Flowchart.Command

inductive Event where
  | tokenized (tokens : Nat)
  | parsed (nodes : Nat)
  | rendered (boxes links : Nat) (theme : Theme)
  | enteredFolder (files : Nat)
  | wrote (path : String)
  | wroteSource (source target : String)
  | finishedFolder (files : Nat)
deriving DecidableEq, Repr

namespace Event

def line : Event → String
  | tokenized tokens =>
    "DEBUG flowscript_core::compiler: tokenized source tokens=" ++ toString tokens ++ "\n"
  | parsed nodes => "DEBUG flowscript_core::parser: parsed program nodes=" ++ toString nodes ++ "\n"
  | rendered boxes links theme =>
    "DEBUG flowscript_core::compiler: rendered flowchart boxes=" ++ toString boxes ++
      " links=" ++ toString links ++ " theme=" ++ theme.name ++ "\n"
  | enteredFolder files =>
    "DEBUG flowscript_core::compiler: compiling source directory files=" ++ toString files ++ "\n"
  | wrote path => " INFO flowscript_cli: wrote flowchart path=" ++ path ++ "\n"
  | wroteSource source target =>
    " INFO flowscript_cli: wrote flowchart source=" ++ source ++ " target=" ++ target ++ "\n"
  | finishedFolder files => " INFO flowscript_cli: batch complete files=" ++ toString files ++ "\n"

end Event

def logText (verbose : Bool) (events : List Event) : String :=
  if verbose then String.join (events.map Event.line) else ""

/-- The events of drawing one source, up to the stage that fails. -/
def drawingEvents (settings : Settings) (source : String) : List Event :=
  match tokenize source with
  | .error _ => []
  | .ok tokens => .tokenized tokens.length ::
    match Program.ofTokens settings.direction tokens with
    | .error _ => []
    | .ok program =>
      [.parsed program.size,
       .rendered program.boxes.length (program.links settings).count settings.theme]

def folderEvents (settings : Settings) : List Folder.SourceFile → List Event
  | [] => []
  | file :: files => drawingEvents settings file.contents ++
    match Folder.draw settings file with
    | .ok _ => folderEvents settings files
    | .error _ => []

end Flowchart.Command
