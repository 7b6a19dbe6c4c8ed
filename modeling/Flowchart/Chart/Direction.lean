import Flowchart.Failure
import Flowchart.Text.Space

/-! The direction in which a chart is laid out. -/
namespace Flowchart

inductive Direction where
  | topDown
  | leftRight
deriving DecidableEq, Repr

namespace Direction

def name : Direction → String
  | topDown => "TD"
  | leftRight => "LR"

/-- White space around the name and the case of ASCII letters do not matter. The failure shows the
text as it was given. -/
def ofText (text : String) : Except Failure Direction :=
  let key := (Text.trim text).map Char.toUpper
  if key = topDown.name then .ok topDown
  else if key = leftRight.name then .ok leftRight
  else .error (.unknownDirection text)

end Direction

end Flowchart
