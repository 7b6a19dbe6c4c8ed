import Flowchart.Failure
import Flowchart.Text.Split

/-! What a reader is told about a failure: the message and, if the failure points into the source text,
the line in question with a caret below the column. -/
namespace Flowchart

structure Report where
  message : String
  position : Option Position
deriving DecidableEq, Repr

namespace Report

/-- Carriage returns at the end of a line are not shown. A line that is not there is shown empty. -/
def sourceLine (source : String) (line : Nat) : String :=
  let cs := ((Text.split '\n' source)[line - 1]?.getD "").toList
  String.ofList (cs.reverse.dropWhile (· == '\r')).reverse

def render (report : Report) (source : String) : String :=
  match report.position with
  | none => report.message ++ "\n"
  | some pos =>
    report.message ++ "\n" ++
    "Ln: " ++ toString pos.line ++ ", Col: " ++ toString pos.column ++ "\n\n" ++
    sourceLine source pos.line ++ "\n" ++
    String.ofList (List.replicate (pos.column - 1) ' ') ++ "^\n"

end Report

def Failure.report (failure : Failure) : Report := ⟨failure.message, failure.position?⟩

end Flowchart
