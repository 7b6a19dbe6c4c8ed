import Flowchart.Position
import Flowchart.Text.Peek

/-! The words and marks of which a source text is made. -/
namespace Flowchart

inductive Kind where
  | lParen | rParen | lBracket | rBracket | lBrace | rBrace
  | forwardSlash | backwardSlash
  | comment | string
  | semi | arrow
  | returnWord | ifWord | elseWord | whileWord | switchWord
deriving DecidableEq, Repr

namespace Kind

def all : List Kind :=
  [lParen, rParen, lBracket, rBracket, lBrace, rBrace, forwardSlash, backwardSlash, comment, string,
   semi, arrow, returnWord, ifWord, elseWord, whileWord, switchWord]

theorem mem_all (k : Kind) : k ∈ all := by cases k <;> decide

def name : Kind → String
  | lParen => "L_PAREN"
  | rParen => "R_PAREN"
  | lBracket => "L_BRACKET"
  | rBracket => "R_BRACKET"
  | lBrace => "L_BRACE"
  | rBrace => "R_BRACE"
  | forwardSlash => "FORWARD_SLASH"
  | backwardSlash => "BACKWARD_SLASH"
  | comment => "COMMENT"
  | string => "STRING"
  | semi => "SEMI"
  | arrow => "ARROW"
  | returnWord => "RETURN"
  | ifWord => "IF"
  | elseWord => "ELSE"
  | whileWord => "WHILE"
  | switchWord => "SWITCH"

/-- Behind these an unquoted text ends at the matching mark, behind all others at a semicolon. -/
def opens : Kind → Bool
  | lParen | lBracket | lBrace | forwardSlash | backwardSlash => true
  | _ => false

/-- The mark that pairs with this one. A slash pairs with itself. -/
def partner? : Kind → Option Char
  | lParen => some ')'
  | rParen => some '('
  | lBracket => some ']'
  | rBracket => some '['
  | lBrace => some '\x7d'
  | rBrace => some '\x7b'
  | forwardSlash => some '/'
  | backwardSlash => some '\\'
  | _ => none

def closer? (k : Kind) : Option Char := if k.opens then k.partner? else none

def ofBracket? (c : Char) : Option Kind :=
  if c = '(' then some lParen
  else if c = ')' then some rParen
  else if c = '[' then some lBracket
  else if c = ']' then some rBracket
  else if c = '\x7b' then some lBrace
  else if c = '\x7d' then some rBrace
  else none

def reserved? (word : String) : Option Kind :=
  if word = "return" then some returnWord
  else if word = "if" then some ifWord
  else if word = "while" then some whileWord
  else if word = "else" then some elseWord
  else if word = "switch" then some switchWord
  else none

/-- Whether a reserved word ends before `next`, which would otherwise continue a longer text. -/
def endsBefore (k : Kind) (next : Text.Peek) : Bool :=
  match next with
  | none => true
  | some c => Text.isGap c ||
    match k with
    | ifWord | whileWord | switchWord => c == '('
    | elseWord => c == '\x7b'
    | returnWord => c == ';'
    | _ => false

end Kind

structure Token where
  kind : Kind
  value : Option String := none
  pos : Position
deriving DecidableEq, Repr

def Token.text (t : Token) : String := t.value.getD ""

end Flowchart
