import Flowchart.Failure
import Flowchart.Text.Quoted
import Flowchart.Text.Split

/-! Why a command did not do its work, and how that is told: a message, and the causes behind it. -/
namespace Flowchart.Command

inductive Trouble where
  | settings (failure : Failure)
  | readingInput (path : String) (fault : Files.ReadFault)
  | readingStandardInput
  | drawing (failure : Failure)
  | drawingFolder (failure : Failure)
  | makingDirectory (path : String) (fault : Files.Fault)
  | writing (path : String) (fault : Files.Fault)
deriving DecidableEq, Repr

namespace Trouble

def message : Trouble → String
  | settings failure => failure.message
  | readingInput path _ => "failed to read input file " ++ path
  | readingStandardInput => "failed to read stdin"
  | drawing _ => "compilation failed"
  | drawingFolder _ => "batch compilation failed"
  | makingDirectory path _ => "failed to create directory " ++ Text.quote path
  | writing path _ => "failed to write output file " ++ path

def causes : Trouble → List String
  | settings failure => failure.causes
  | readingInput _ fault => [fault.message]
  | readingStandardInput => [Files.ReadFault.invalidText.message]
  | drawing failure | drawingFolder failure => failure.message :: failure.causes
  | makingDirectory _ fault | writing _ fault => [fault.message]

def indented (heading text : String) : String :=
  let margin := String.ofList (List.replicate heading.length ' ')
  heading ++ ("\n" ++ margin).intercalate (Text.split '\n' text) ++ "\n"

def causeText : List String → String
  | [] => ""
  | [cause] => "\nCaused by:\n" ++ indented "    " cause
  | causes => "\nCaused by:\n" ++ String.join (causes.mapIdx fun n cause =>
      indented (String.ofList (List.replicate (5 - (toString n).length) ' ') ++ toString n ++ ": ") cause)

def text (trouble : Trouble) : String :=
  "Error: " ++ trouble.message ++ "\n" ++ causeText trouble.causes

end Trouble

end Flowchart.Command
