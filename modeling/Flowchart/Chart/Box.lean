import Flowchart.Chart.Theme
import Flowchart.Program

/-! The boxes of a chart, one for each statement and each condition. -/
namespace Flowchart

structure Box where
  id : NodeId
  text : String
  shape : Shape
deriving DecidableEq, Repr

namespace Box

def line (theme : Theme) (box : Box) : String :=
  "  " ++ box.id.name ++ box.shape.brackets.1 ++ "\x22" ++ box.text ++ "\x22" ++ box.shape.brackets.2 ++
    theme.classSuffix box.shape ++ "\n"

end Box

namespace Node

mutual
def boxes : Node → List Box
  | expression id text shape => [⟨id, text, shape⟩]
  | condition id text _ thenNodes _ elseNodes =>
    ⟨id, text, .condition⟩ :: (boxesAll thenNodes ++ boxesAll elseNodes)
  | leave _ => []

def boxesAll : List Node → List Box
  | [] => []
  | node :: nodes => node.boxes ++ boxesAll nodes
end

end Node

namespace Program

def boxes (p : Program) : List Box := Node.boxesAll p.nodes

/-- Each shape that occurs, in the order of first use. -/
def shapes (p : Program) : List Shape := (p.boxes.map Box.shape).eraseDups

def boxText (p : Program) (theme : Theme) : String :=
  "flowchart " ++ p.direction.name ++ ";\n" ++ String.join (p.boxes.map (Box.line theme))

end Program

end Flowchart
