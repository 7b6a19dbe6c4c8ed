import Flowchart.Chart.Box
import Flowchart.Chart.Link
import Flowchart.Program.Read
import Flowchart.Token.Scan

/-! Drawing: a program becomes the text of its chart, and a source text becomes a program first. -/
namespace Flowchart

/-- The boxes, the links, the styles of the shapes that occur, and the style of the links if there are
any. -/
def Program.render (p : Program) (settings : Settings) : String :=
  let links := p.links settings
  let classes := p.shapes.filterMap settings.theme.classLine?
  let linkStyle := if links.count = 0 then none else settings.theme.linkLine?
  p.boxText settings.theme ++ links.text ++ String.join classes ++ linkStyle.getD ""

def Program.ofSource (settings : Settings) (source : String) : Except Failure Program := do
  Program.ofTokens settings.direction (← tokenize source)

def compile (settings : Settings) (source : String) : Except Failure String :=
  (Program.ofSource settings source).map (·.render settings)

end Flowchart
