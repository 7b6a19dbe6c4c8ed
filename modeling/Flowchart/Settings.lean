import Flowchart.Chart.Direction
import Flowchart.Chart.Theme

/-! What the reader of a chart can choose: its direction, its theme, and the labels of the two ways out
of a condition. A label is never empty. -/
namespace Flowchart

structure Settings where
  trueLabel : String := "True"
  falseLabel : String := "False"
  direction : Direction := .topDown
  theme : Theme := .plain
  trueLabel_ne : trueLabel ≠ "" := by decide
  falseLabel_ne : falseLabel ≠ "" := by decide
deriving DecidableEq

namespace Settings

/-- An empty label leaves the one in force. -/
def withTrueLabel (s : Settings) (label : String) : Settings :=
  if h : label = "" then s else { s with trueLabel := label, trueLabel_ne := h }

def withFalseLabel (s : Settings) (label : String) : Settings :=
  if h : label = "" then s else { s with falseLabel := label, falseLabel_ne := h }

/-- The default settings with some of them given as texts. The direction is read before the theme. -/
def ofTexts (direction theme trueLabel falseLabel : Option String) : Except Failure Settings := do
  let base : Settings := {}
  let direction ← (direction.map Direction.ofText).getD (.ok base.direction)
  let theme ← (theme.map Theme.ofText).getD (.ok base.theme)
  return ({ base with direction, theme }.withTrueLabel (trueLabel.getD "")).withFalseLabel
    (falseLabel.getD "")

end Settings

end Flowchart
