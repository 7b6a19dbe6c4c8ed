import Flowchart.Token
import Flowchart.Files.Fault

/-! The causes for which no chart is drawn, each with its message and, where it points into the source
text, its position. -/
namespace Flowchart

inductive Failure where
  | unterminatedString (quote : Char) (pos : Position)
  | unterminatedComment (pos : Position)
  | unexpectedAssignment (pos : Position)
  /-- A character was asked for where the text has none left. -/
  | endOfInput (pos : Position)
  | unexpectedToken (kind : Kind) (pos : Position)
  | expectedToken (expected found : Kind) (pos : Position)
  | unexpectedEnd (expected : Kind)
  | notABracket (kind : Kind)
  | unreadableSource (fault : Files.WalkFault)
  | missingDirectory (path : String)
  | unknownDirection (value : String)
  | unknownTheme (value : String)
  /-- A failure in one file of a directory. -/
  | inSource (path : String) (inner : Failure)
deriving DecidableEq, Repr

namespace Failure

def message : Failure → String
  | unterminatedString quote _ =>
    "Unterminated string! Expected `" ++ String.singleton quote ++ "`, got EoF"
  | unterminatedComment _ => "Unterminated comment! Expected `*/`, got EoF"
  | unexpectedAssignment _ => "Unexpected assignment! Expected '>'"
  | endOfInput _ => "Cannot consume, end of file."
  | unexpectedToken kind pos =>
    "I don't know what to do with this " ++ kind.name ++ " at " ++ pos.display
  | expectedToken expected _ pos =>
    "Expected '" ++ expected.name ++ "' at pos " ++ toString pos.offset ++ " (" ++ pos.display ++ ")."
  | unexpectedEnd expected => "Expected '" ++ expected.name ++ "' at pos EoF."
  | notABracket _ => "Unknown bracket type! Could not match."
  | unreadableSource fault => "failed to read source: " ++ fault.message
  | missingDirectory path => "source directory was not found at " ++ path
  | unknownDirection value => "unknown flowchart direction: " ++ value
  | unknownTheme value => "unknown theme: " ++ value
  | inSource path inner => path ++ ": " ++ inner.message

def position? : Failure → Option Position
  | unterminatedString _ pos | unterminatedComment pos | unexpectedAssignment pos | endOfInput pos
  | unexpectedToken _ pos | expectedToken _ _ pos => some pos
  | inSource _ inner => inner.position?
  | _ => none

/-- The messages of the causes that lie behind a failure, nearest first. -/
def causes : Failure → List String
  | unreadableSource fault => fault.message :: fault.cause?.toList
  | inSource _ inner => inner.message :: inner.causes
  | _ => []

end Failure

def Kind.partner (k : Kind) : Except Failure Char :=
  match k.partner? with
  | some c => .ok c
  | none => .error (.notABracket k)

end Flowchart
