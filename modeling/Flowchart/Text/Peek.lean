import Flowchart.Text.Quoted

/-! The character under a scanner's cursor, or nothing at the end of the text, and the classes of
characters that a scanner tells apart. Every class here is a class of ASCII characters. -/
namespace Flowchart.Text

/-- Looking at a cursor gives `none` at the end of the text. -/
abbrev Peek := Option Char

def isQuote (c : Char) : Bool := c == '\x22' || c == '\x27'

def isBacktick (c : Char) : Bool := c == '\x60'

def isBlank (c : Char) : Bool := c == ' ' || c == '\t'

def isNewline (c : Char) : Bool := c == '\n'

/-- What may stand between two lexemes without meaning anything: blanks and line ends. -/
def isGap (c : Char) : Bool := isBlank c || isNewline c || c == '\r'

structure NotSingle where
  text : String
deriving DecidableEq, Repr

def NotSingle.message (e : NotSingle) : String :=
  quote e.text ++ " is not a single letter"

namespace Peek

def ofText (text : String) : Except NotSingle Peek :=
  match text.toList with
  | [c] => .ok (some c)
  | _ => .error ⟨text⟩

def display : Peek → String
  | some c => String.singleton c
  | none => "EoF"

def isOneOf (p : Peek) (set : List Char) : Bool := p.any set.contains

end Peek

end Flowchart.Text
