import Flowchart.Text.Buffer
import Flowchart.Token

/-! The lexemes that run over several characters. Each function looks at the text behind the first
character or mark of a lexeme and finds how far the lexeme goes. -/
namespace Flowchart.Token.Literal

/-- How many characters stand before the closing delimiter. A backslash takes away the meaning of the
character behind it, so that one never closes. -/
def closing? (delimiter : Char) : List Char → Option Nat
  | [] => none
  | c :: cs =>
    if c = '\\' then
      match cs with
      | [] => none
      | _ :: cs => (closing? delimiter cs).map (· + 2)
    else if c = delimiter then some 0
    else (closing? delimiter cs).map (· + 1)

theorem getElem?_closing? {delimiter : Char} {cs : List Char} {n : Nat}
    (h : closing? delimiter cs = some n) : cs[n]? = some delimiter := by
  fun_induction closing? delimiter cs generalizing n with
  | case1 => cases h
  | case2 => cases h
  | case3 e cs ih =>
    obtain ⟨m, hm, rfl⟩ := Option.map_eq_some_iff.1 h
    simpa using ih hm
  | case4 cs escaped =>
    cases h
    rfl
  | case5 c cs escaped other ih =>
    obtain ⟨m, hm, rfl⟩ := Option.map_eq_some_iff.1 h
    simpa using ih hm

theorem closing?_lt {delimiter : Char} {cs : List Char} {n : Nat}
    (h : closing? delimiter cs = some n) : n < cs.length :=
  (List.getElem?_eq_some_iff.1 (getElem?_closing? h)).1

def unescape : List Char → List Char
  | [] => []
  | c :: cs =>
    if c = '\\' then
      match cs with
      | [] => []
      | e :: cs => e :: unescape cs
    else c :: unescape cs

theorem unescape_cons_of_ne {c : Char} (other : c ≠ '\\') (cs : List Char) :
    unescape (c :: cs) = c :: unescape cs := by
  rw [unescape.eq_def]
  exact if_neg other

def commentEnd? : List Char → Option Nat
  | [] => none
  | c :: cs => if c = '*' ∧ cs.head? = some '/' then some 0 else (commentEnd? cs).map (· + 1)

theorem commentEnd?_lt {cs : List Char} {n : Nat} (h : commentEnd? cs = some n) :
    n + 1 < cs.length := by
  induction cs generalizing n with
  | nil => cases h
  | cons c cs ih =>
    unfold commentEnd? at h
    split at h
    next found =>
      cases h
      cases cs with
      | nil => simp at found
      | cons d cs => simp
    next =>
      obtain ⟨m, hm, rfl⟩ := Option.map_eq_some_iff.1 h
      have bound := ih hm
      simp only [List.length_cons]
      omega

def line (cs : List Char) : List Char := cs.takeWhile (! Text.isNewline ·)

/-- The text of a line comment: blanks before it and one carriage return behind it do not belong
to it. -/
def remark (line : List Char) : List Char :=
  let text := line.dropWhile Text.isBlank
  if text.getLast? = some '\r' then text.dropLast else text

/-- Reads on in a word of which `seen` is read. The word ends before a semicolon or the closing mark,
and it ends early, as a reserved word, where it spells one that may end there. -/
def word (closer : Option Char) (seen : Text.Buffer) : List Char → Kind × Text.Buffer
  | [] => (.string, seen)
  | c :: cs =>
    if c = ';' ∨ closer = some c then (.string, seen)
    else
      match Kind.reserved? (seen.push c).text with
      | some kind =>
        if kind.endsBefore cs.head? then (kind, seen.push c) else word closer (seen.push c) cs
      | none => word closer (seen.push c) cs

theorem length_word (closer : Option Char) (seen : Text.Buffer) (cs : List Char) :
    seen.length ≤ (word closer seen cs).2.length ∧
      (word closer seen cs).2.length ≤ seen.length + cs.length := by
  fun_induction word closer seen cs with
  | case1 => simp
  | case2 => simp
  | case3 => simp
  | case4 seen c cs _ _ _ _ ih =>
    simp only [Text.Buffer.length_push, List.length_cons] at ih ⊢
    omega
  | case5 seen c cs _ _ ih =>
    simp only [Text.Buffer.length_push, List.length_cons] at ih ⊢
    omega

theorem text_word (closer : Option Char) (seen : Text.Buffer) (cs : List Char) :
    (word closer seen cs).2.text.toList =
      seen.text.toList ++ cs.take ((word closer seen cs).2.length - seen.length) := by
  fun_induction word closer seen cs with
  | case1 => simp
  | case2 => simp
  | case3 => simp
  | case4 seen c cs _ _ _ _ ih =>
    have grown := (length_word closer (seen.push c) cs).1
    simp only [Text.Buffer.length_push] at grown
    rw [ih, Text.Buffer.toList_push, Text.Buffer.length_push, List.append_assoc]
    congr 1
    rw [show (word closer (seen.push c) cs).2.length - seen.length =
      (word closer (seen.push c) cs).2.length - (seen.length + 1) + 1 by omega]
    rfl
  | case5 seen c cs _ _ ih =>
    have grown := (length_word closer (seen.push c) cs).1
    simp only [Text.Buffer.length_push] at grown
    rw [ih, Text.Buffer.toList_push, Text.Buffer.length_push, List.append_assoc]
    congr 1
    rw [show (word closer (seen.push c) cs).2.length - seen.length =
      (word closer (seen.push c) cs).2.length - (seen.length + 1) + 1 by omega]
    rfl

end Flowchart.Token.Literal
