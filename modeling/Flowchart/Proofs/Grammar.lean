import Flowchart.Proofs.Braces
import Flowchart.Proofs.Outline
import Flowchart.Settings
import Mathlib.Data.Set.Subsingleton

/-! The grammar of programs, stated apart from the reader. Statements stand in the program itself or
in a block; a block includes the brace that ends it. The reader accepts exactly the token lists of
the grammar and reads the one outline that the grammar gives them, numbered from one on. -/
namespace Flowchart.Grammar
open Program Braces

inductive Place where
  | program
  | block
deriving DecidableEq, Repr

def ahead (tokens : List Token) : Option Kind := tokens.head?.map Token.kind

def Spells (kinds : List Kind) (tokens : List Token) : Prop := tokens.map Token.kind = kinds

/-- The tokens of a statement that draws a box, before a token of the kind `behind`. -/
inductive Draws (behind : Option Kind) : List Token → String → Shape → Prop where
  /-- The semicolon behind a bare text may be missing. Where it stands, it belongs to the text. -/
  | bare {label : Token} : Spells [.string] [label] → behind ≠ some .semi →
      Draws behind [label] label.text .square
  | square {label semi : Token} : Spells [.string, .semi] [label, semi] →
      Draws behind [label, semi] label.text .square
  | rounded {left label right semi : Token} :
      Spells [.lParen, .string, .rParen, .semi] [left, label, right, semi] →
      Draws behind [left, label, right, semi] label.text .rounded
  | circular {left left' label right right' semi : Token} :
      Spells [.lParen, .lParen, .string, .rParen, .rParen, .semi]
        [left, left', label, right, right', semi] →
      Draws behind [left, left', label, right, right', semi] label.text .circular
  | parallelogram {left label right semi : Token} :
      Spells [.forwardSlash, .string, .forwardSlash, .semi] [left, label, right, semi] →
      Draws behind [left, label, right, semi] label.text .parallelogram
  | reverseParallelogram {left label right semi : Token} :
      Spells [.backwardSlash, .string, .backwardSlash, .semi] [left, label, right, semi] →
      Draws behind [left, label, right, semi] label.text .reverseParallelogram

inductive Header : List Token → String → Prop where
  | mk {word left label right brace : Token} :
      Spells [.ifWord, .lParen, .string, .rParen, .lBrace] [word, left, label, right, brace] →
      Header [word, left, label, right, brace] label.text

inductive Statements : Place → List Token → List Outline → Prop where
  | nil : Statements .program [] []
  | close {brace : Token} : Spells [.rBrace] [brace] → Statements .block [brace] []
  /-- A brace that closes nothing. -/
  | stray {brace : Token} {tokens : List Token} {outlines : List Outline} :
      Spells [.rBrace] [brace] → Statements .program tokens outlines →
      Statements .program (brace :: tokens) outlines
  | comment {place : Place} {remark : Token} {tokens : List Token} {outlines : List Outline} :
      Spells [.comment] [remark] → Statements place tokens outlines →
      Statements place (remark :: tokens) outlines
  | box {place : Place} {tokens tokens' : List Token} {text : String} {shape : Shape}
      {outlines : List Outline} :
      Draws (ahead tokens') tokens text shape → Statements place tokens' outlines →
      Statements place (tokens ++ tokens') (.box text shape :: outlines)
  /-- The comments behind the then-branch are all taken, and no else follows them. -/
  | condition {place : Place} {header inner remarks tokens : List Token} {text : String}
      {thenPart outlines : List Outline} :
      Header header text → Statements .block inner thenPart →
      (∀ remark ∈ remarks, remark.kind = .comment) →
      ahead tokens ≠ some .comment → ahead tokens ≠ some .elseWord →
      Statements place tokens outlines →
      Statements place (header ++ (inner ++ (remarks ++ tokens)))
        (.branch text thenPart [] :: outlines)
  | conditionElse {place : Place} {header inner remarks inner' tokens : List Token}
      {word brace : Token} {text : String} {thenPart elsePart outlines : List Outline} :
      Header header text → Statements .block inner thenPart →
      (∀ remark ∈ remarks, remark.kind = .comment) →
      Spells [.elseWord, .lBrace] [word, brace] → Statements .block inner' elsePart →
      Statements place tokens outlines →
      Statements place (header ++ (inner ++ (remarks ++ word :: brace :: (inner' ++ tokens))))
        (.branch text thenPart elsePart :: outlines)
  /-- What stands behind a return in its block is not read. -/
  | leaveBlock {word semi brace : Token} {dead : List Token} :
      Spells [.returnWord, .semi] [word, semi] → Balanced dead → Spells [.rBrace] [brace] →
      Statements .block (word :: semi :: (dead ++ [brace])) [.leave]
  /-- In the program itself a brace that closes nothing ends what is not read. -/
  | leave {word semi brace : Token} {dead tokens : List Token} {outlines : List Outline} :
      Spells [.returnWord, .semi] [word, semi] → Balanced dead → Spells [.rBrace] [brace] →
      Statements .program tokens outlines →
      Statements .program (word :: semi :: (dead ++ brace :: tokens)) (.leave :: outlines)
  | leaveLast {word semi : Token} {dead : List Token} :
      Spells [.returnWord, .semi] [word, semi] → Sealed 0 dead →
      Statements .program (word :: semi :: dead) [.leave]

def Derives (tokens : List Token) (outlines : List Outline) : Prop :=
  Statements .program tokens outlines

theorem Statements.ne_nil {tokens : List Token} {outlines : List Outline}
    (h : Statements .block tokens outlines) : tokens ≠ [] := by
  cases h with
  | close => simp
  | comment => simp
  | box drawn =>
    cases drawn <;> simp
  | condition header =>
    cases header
    simp
  | conditionElse header =>
    cases header
    simp
  | leaveBlock => simp

theorem Statements.ahead_append {place : Place} {tokens rest : List Token} {outlines : List Outline}
    (h : Statements place tokens outlines) (last : place = .program → rest = []) :
    ahead (tokens ++ rest) = ahead tokens := by
  cases place with
  | program => rw [last rfl, List.append_nil]
  | block =>
    obtain ⟨token, tokens, rfl⟩ := List.exists_cons_of_ne_nil h.ne_nil
    rfl

/-- The tokens begin with statements that stand at the place and end there. -/
def Starts (place : Place) (tokens : List Token) : Prop :=
  ∃ inner rest outlines, tokens = inner ++ rest ∧ (place = .program → rest = []) ∧
    Statements place inner outlines

namespace Starts

variable {place : Place} {tokens rest header inner remarks dead : List Token}
  {token semi word brace : Token} {text : String} {thenPart elsePart : List Outline}

theorem box {shape : Shape} (drawn : Draws (ahead rest) tokens text shape) (h : Starts place rest) :
    Starts place (tokens ++ rest) := by
  obtain ⟨inner, rest, outlines, rfl, last, after⟩ := h
  rw [after.ahead_append last] at drawn
  exact ⟨tokens ++ inner, rest, _, by simp, last, .box drawn after⟩

theorem comment (spelled : Spells [.comment] [token]) (h : Starts place rest) :
    Starts place (token :: rest) := by
  obtain ⟨inner, rest, outlines, rfl, last, after⟩ := h
  exact ⟨token :: inner, rest, outlines, rfl, last, .comment spelled after⟩

theorem close (spelled : Spells [.rBrace] [token]) (h : place = .program → Starts .program rest) :
    Starts place (token :: rest) := by
  cases place with
  | block => exact ⟨[token], rest, [], rfl, by simp, .close spelled⟩
  | program =>
    obtain ⟨inner, rest, outlines, rfl, last, after⟩ := h rfl
    exact ⟨token :: inner, rest, outlines, rfl, last, .stray spelled after⟩

theorem leave (spelled : Spells [.returnWord, .semi] [token, semi]) (balanced : Balanced dead)
    (closes : Spells [.rBrace] [brace]) (h : place = .program → Starts .program rest) :
    Starts place (token :: semi :: (dead ++ brace :: rest)) := by
  cases place with
  | block =>
    exact ⟨token :: semi :: (dead ++ [brace]), rest, _, by simp, by simp,
      .leaveBlock spelled balanced closes⟩
  | program =>
    obtain ⟨inner, rest, outlines, rfl, last, after⟩ := h rfl
    exact ⟨token :: semi :: (dead ++ brace :: inner), rest, _, by simp, last,
      .leave spelled balanced closes after⟩

theorem condition (headed : Header header text) (thens : Statements .block inner thenPart)
    (comments : ∀ remark ∈ remarks, remark.kind = .comment) (behind : ahead rest ≠ some .comment)
    (noElse : ahead rest ≠ some .elseWord) (h : Starts place rest) :
    Starts place (header ++ (inner ++ (remarks ++ rest))) := by
  obtain ⟨tail, rest, outlines, rfl, last, after⟩ := h
  rw [after.ahead_append last] at behind noElse
  exact ⟨header ++ (inner ++ (remarks ++ tail)), rest, _, by simp, last,
    .condition headed thens comments behind noElse after⟩

theorem conditionElse {inner' : List Token} (headed : Header header text)
    (thens : Statements .block inner thenPart)
    (comments : ∀ remark ∈ remarks, remark.kind = .comment)
    (spelled : Spells [.elseWord, .lBrace] [word, brace])
    (elses : Statements .block inner' elsePart) (h : Starts place rest) :
    Starts place (header ++ (inner ++ (remarks ++ word :: brace :: (inner' ++ rest)))) := by
  obtain ⟨tail, rest, outlines, rfl, last, after⟩ := h
  exact ⟨header ++ (inner ++ (remarks ++ word :: brace :: (inner' ++ tail))), rest, _, by simp,
    last,
    .conditionElse headed thens comments spelled elses after⟩

end Starts

end Flowchart.Grammar
