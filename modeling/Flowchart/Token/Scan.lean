import Flowchart.Failure
import Flowchart.Token.Literal

/-! Source text to tokens. The scan keeps the tokens found so far, because the last of them decides
where an unquoted text ends, and because line comments that follow each other with nothing but white
space between them become one token. -/
namespace Flowchart.Token

inductive Lexeme where
  | token (kind : Kind) (value : Option String)
  | lineComment (text : String)
  | gap
  /-- A character without a meaning; it is passed over. -/
  | stray
deriving DecidableEq, Repr

def slashLexeme (start : Cursor) (cs : List Char) : Except Failure (Lexeme × Nat) :=
  match cs with
  | '/' :: cs =>
    let line := Literal.line cs
    .ok (.lineComment (String.ofList (Literal.remark line)), line.length + 1)
  | '*' :: cs =>
    match Literal.commentEnd? cs with
    | some n => .ok (.token .comment (String.ofList (cs.take n)), n + 3)
    | none => .error (.unterminatedComment (start.advance ('/' :: '*' :: cs)).here)
  | _ => .ok (.token .forwardSlash none, 0)

theorem slashLexeme_le {start : Cursor} {cs : List Char} {found : Lexeme} {n : Nat}
    (h : slashLexeme start cs = .ok (found, n)) : n ≤ cs.length := by
  unfold slashLexeme at h
  split at h
  next cs =>
    cases h
    have bound := (List.takeWhile_prefix (! Text.isNewline ·) (l := cs)).length_le
    simpa [Literal.line] using bound
  next cs =>
    split at h
    next m found =>
      cases h
      have bound := Literal.commentEnd?_lt found
      simp only [List.length_cons]
      omega
    next => cases h
  next =>
    cases h
    exact Nat.zero_le _

/-- The lexeme that begins with the character `c` before `cs`, and how many characters of `cs` belong
to it. The kind of the token before it is given. -/
def lexeme (start : Cursor) (previous : Option Kind) (c : Char) (cs : List Char) :
    Except Failure (Lexeme × Nat) :=
  if Text.isQuote c then
    match Literal.closing? c cs with
    | some n => .ok (.token .string (String.ofList (Literal.unescape (cs.take n))), n + 1)
    | none => .error (.unterminatedString c (start.advance (c :: cs)).here)
  else if Text.isBacktick c then
    match Literal.closing? c cs with
    | some n => .ok (.token .string (String.ofList (c :: cs.take (n + 1))), n + 1)
    | none => .error (.unterminatedString c (start.advance (c :: cs)).here)
  else if c.isAlphanum then
    let (kind, seen) := Literal.word (previous.bind Kind.closer?) (Text.Buffer.empty.push c) cs
    .ok (.token kind (if kind = .string then some seen.text else none), seen.length - 1)
  else if c = '=' then
    if cs.head? = some '>' then .ok (.token .arrow none, 1)
    else .error (.unexpectedAssignment (start.next c).here)
  else if c = ';' then .ok (.token .semi none, 0)
  else if c = '/' then slashLexeme start cs
  else if c = '\\' then .ok (.token .backwardSlash none, 0)
  else
    match Kind.ofBracket? c with
    | some kind => .ok (.token kind none, 0)
    | none => .ok (if Text.isGap c then .gap else .stray, 0)

theorem lexeme_le {start : Cursor} {previous : Option Kind} {c : Char} {cs : List Char}
    {found : Lexeme} {n : Nat} (h : lexeme start previous c cs = .ok (found, n)) :
    n ≤ cs.length := by
  unfold lexeme at h
  split at h
  · split at h
    next m closed =>
      cases h
      exact Literal.closing?_lt closed
    next => cases h
  split at h
  · split at h
    next m closed =>
      cases h
      exact Literal.closing?_lt closed
    next => cases h
  split at h
  · cases h
    have bound := (Literal.length_word (previous.bind Kind.closer?) (Text.Buffer.empty.push c) cs).2
    simp only [Text.Buffer.length_push] at bound
    have empty : Text.Buffer.empty.length = 0 := rfl
    omega
  split at h
  · split at h
    next arrow =>
      cases h
      cases cs with
      | nil => cases arrow
      | cons d cs => simp
    next => cases h
  split at h
  · cases h
    exact Nat.zero_le _
  split at h
  · exact slashLexeme_le h
  split at h
  · cases h
    exact Nat.zero_le _
  split at h
  all_goals
    cases h
    exact Nat.zero_le _

/-- The state of a scan: where it is, the tokens behind it with the last one first, and whether that
one is a line comment to which the next line comment belongs. -/
structure Scan where
  cursor : Cursor := {}
  tokens : List Token := []
  inRemarks : Bool := false
deriving DecidableEq, Repr

namespace Scan

def previous (s : Scan) : Option Kind := s.tokens.head?.map Token.kind

/-- A line comment goes into the token before it if that one is still open, else it opens its own. -/
def addRemark (s : Scan) (text : String) (pos : Position) : List Token :=
  match s.inRemarks, s.tokens with
  | true, t :: ts =>
    { t with value := some ((t.value.map (· ++ "\n")).getD "" ++ text), pos := t.pos.cover pos } :: ts
  | _, ts => ⟨.comment, some text, pos⟩ :: ts

def record (s : Scan) (lexeme : Lexeme) (cs : List Char) : Scan :=
  let pos := s.cursor.spanning cs.length
  let cursor := s.cursor.advance cs
  match lexeme with
  | .token kind value => ⟨cursor, ⟨kind, value, pos⟩ :: s.tokens, false⟩
  | .lineComment text => ⟨cursor, s.addRemark text pos, true⟩
  | .gap => { s with cursor }
  | .stray => { s with cursor, inRemarks := false }

@[simp] theorem cursor_record (s : Scan) (found : Lexeme) (cs : List Char) :
    (s.record found cs).cursor = s.cursor.advance cs := by
  cases found <;> rfl

def run (s : Scan) : List Char → Except Failure (List Token)
  | [] => .ok s.tokens.reverse
  | c :: cs =>
    match lexeme s.cursor s.previous c cs with
    | .error failure => .error failure
    | .ok (found, n) => (s.record found (c :: cs.take n)).run (cs.drop n)
termination_by cs => cs.length

theorem run_nil (s : Scan) : s.run [] = .ok s.tokens.reverse := by
  rw [run]

theorem run_cons_ok {s : Scan} {c : Char} {cs : List Char} {found : Lexeme} {n : Nat}
    (h : lexeme s.cursor s.previous c cs = .ok (found, n)) :
    s.run (c :: cs) = (s.record found (c :: cs.take n)).run (cs.drop n) := by
  rw [run, h]

theorem run_cons_error {s : Scan} {c : Char} {cs : List Char} {failure : Failure}
    (h : lexeme s.cursor s.previous c cs = .error failure) : s.run (c :: cs) = .error failure := by
  rw [run, h]

end Scan

end Flowchart.Token

namespace Flowchart

def tokenize (source : String) : Except Failure (List Token) := Token.Scan.run {} source.toList

end Flowchart
