import Flowchart.Proofs.Lexing

/-! How tokens are written. A mark is one character, an arrow two, a reserved word is itself; a text
is written as it is, between backticks that belong to it, or between quotes with backslashes that do
not; a comment runs to the first `*/`, or over lines of its own. Whatever a scan finds at the head
of a text is written in this way. -/
namespace Flowchart.Token

/-- The body of a quotation and what it says. A backslash is dropped and protects what is behind it,
so that the delimiter stands in the body only behind one. -/
inductive Quoted (delimiter : Char) : List Char → List Char → Prop where
  | nil : Quoted delimiter [] []
  | plain {c : Char} {body value : List Char} : c ≠ '\\' → c ≠ delimiter →
      Quoted delimiter body value → Quoted delimiter (c :: body) (c :: value)
  | escaped {c : Char} {body value : List Char} :
      Quoted delimiter body value → Quoted delimiter ('\\' :: c :: body) (c :: value)

/-- What a line comment has behind its slashes, and its text: without the blanks before it and
without a carriage return behind it. -/
inductive Remark : List Char → List Char → Prop where
  | bare {blanks value : List Char} : (∀ c ∈ blanks, Text.isBlank c = true) →
      (∀ c ∈ value.head?, Text.isBlank c = false) → '\n' ∉ value → value.getLast? ≠ some '\r' →
      Remark (blanks ++ value) value
  | returned {blanks value : List Char} : (∀ c ∈ blanks, Text.isBlank c = true) →
      (∀ c ∈ value.head?, Text.isBlank c = false) → '\n' ∉ value →
      Remark (blanks ++ (value ++ ['\r'])) value

/-- Line comments on lines of their own, with nothing but white space between them, and their texts
as lines. -/
inductive Remarks : List Char → List Char → Prop where
  | line {line value : List Char} : Remark line value → Remarks ('/' :: '/' :: line) value
  | more {text gap line value value' : List Char} : Remarks text value →
      (∀ c ∈ gap, Text.isGap c = true) → Remark line value' →
      Remarks (text ++ '\n' :: (gap ++ '/' :: '/' :: line)) (value ++ '\n' :: value')

def marks : List (Kind × Char) :=
  [(.lParen, '('), (.rParen, ')'), (.lBracket, '['), (.rBracket, ']'), (.lBrace, '\x7b'),
   (.rBrace, '\x7d'), (.forwardSlash, '/'), (.backwardSlash, '\\'), (.semi, ';')]

def reservedWords : List (Kind × String) :=
  [(.returnWord, "return"), (.ifWord, "if"), (.whileWord, "while"), (.elseWord, "else"),
   (.switchWord, "switch")]

inductive Written : Kind → Option String → List Char → Prop where
  | mark {kind : Kind} {c : Char} : (kind, c) ∈ marks → Written kind none [c]
  | arrow : Written .arrow none ['=', '>']
  | reserved {kind : Kind} {word : String} : (kind, word) ∈ reservedWords →
      Written kind none word.toList
  | word {c : Char} {cs : List Char} : c.isAlphanum = true →
      Written .string (String.ofList (c :: cs)) (c :: cs)
  /-- Backticks belong to the text, and so do the backslashes between them. -/
  | backticks {body value : List Char} : Quoted '\x60' body value →
      Written .string (String.ofList ('\x60' :: (body ++ ['\x60']))) ('\x60' :: (body ++ ['\x60']))
  | quotation {quote : Char} {body value : List Char} : Text.isQuote quote = true →
      Quoted quote body value → Written .string (String.ofList value) (quote :: (body ++ [quote]))
  /-- The first `*/` behind the opening is the one that ends the comment. -/
  | block {body : List Char} : ¬ ['*', '/'] <:+: body ++ ['*'] →
      Written .comment (String.ofList body) ('/' :: '*' :: (body ++ ['*', '/']))
  | remarks {text value : List Char} : Remarks text value →
      Written .comment (String.ofList value) text

theorem Written.isSome_iff {kind : Kind} {value : Option String} {text : List Char}
    (h : Written kind value text) : value.isSome = true ↔ kind = .string ∨ kind = .comment := by
  have markKinds : ∀ entry ∈ marks, ¬ (entry.1 = .string ∨ entry.1 = .comment) := by decide
  have wordKinds : ∀ entry ∈ reservedWords, ¬ (entry.1 = .string ∨ entry.1 = .comment) := by decide
  cases h with
  | mark member => simpa using markKinds _ member
  | reserved member => simpa using wordKinds _ member
  | arrow => decide
  | word | backticks | quotation | block | remarks => simp

theorem Written.ne_nil {kind : Kind} {value : Option String} {text : List Char}
    (h : Written kind value text) : text ≠ [] := by
  have wordLengths : ∀ entry ∈ reservedWords, entry.2.toList ≠ [] := by decide
  cases h with
  | reserved member => exact wordLengths _ member
  | remarks run => cases run <;> simp
  | mark | arrow | word | backticks | quotation | block => simp

def Idle (c : Char) : Prop :=
  c.isAlphanum = false ∧
    c ∉ ['\x27', '\x22', '\x60', '=', ';', '/', '\\', '(', ')', '[', ']', '\x7b', '\x7d']

theorem idle_of_isGap {c : Char} (h : Text.isGap c = true) : Idle c := by
  simp only [Text.isGap, Text.isBlank, Text.isNewline, Bool.or_eq_true, beq_iff_eq] at h
  obtain ((rfl | rfl) | rfl) | rfl := h <;> exact ⟨by decide, by decide⟩

/-- A lexeme is written with these characters before the rest of the text. A line comment takes all
of its line. -/
inductive Lexeme.Spelled (rest : List Char) : Lexeme → List Char → Prop where
  | token {kind : Kind} {value : Option String} {text : List Char} :
      Written kind value text → Spelled rest (.token kind value) text
  | lineComment {line value : List Char} : Remark line value → (∀ c ∈ rest.head?, c = '\n') →
      Spelled rest (.lineComment (String.ofList value)) ('/' :: '/' :: line)
  | gap {c : Char} : Text.isGap c = true → Spelled rest .gap [c]
  | stray {c : Char} : Idle c → Spelled rest .stray [c]

section Literals

variable {cs : List Char} {n : Nat}

theorem quoted_of_closing? {delimiter : Char} (h : Literal.closing? delimiter cs = some n) :
    Quoted delimiter (cs.take n) (Literal.unescape (cs.take n)) := by
  fun_induction Literal.closing? delimiter cs generalizing n with
  | case1 => cases h
  | case2 => cases h
  | case3 e cs ih =>
    obtain ⟨m, closed, rfl⟩ := Option.map_eq_some_iff.1 h
    simpa [Literal.unescape] using Quoted.escaped (ih closed)
  | case4 cs other =>
    cases h
    exact .nil
  | case5 c cs backslash other ih =>
    obtain ⟨m, closed, rfl⟩ := Option.map_eq_some_iff.1 h
    rw [List.take_succ_cons, Literal.unescape_cons_of_ne backslash]
    exact .plain backslash other (ih closed)

theorem take_of_closing? {delimiter : Char} (h : Literal.closing? delimiter cs = some n) :
    cs.take (n + 1) = cs.take n ++ [delimiter] := by
  rw [List.take_add_one, Literal.getElem?_closing? h]
  rfl

theorem take_of_commentEnd? (h : Literal.commentEnd? cs = some n) :
    cs.take (n + 2) = cs.take n ++ ['*', '/'] ∧ ¬ ['*', '/'] <:+: cs.take n ++ ['*'] := by
  induction cs generalizing n with
  | nil => cases h
  | cons c cs ih =>
    unfold Literal.commentEnd? at h
    split at h
    next found =>
      cases h
      obtain ⟨rfl, slash⟩ := found
      cases cs with
      | nil => cases slash
      | cons d cs =>
        cases slash
        exact ⟨rfl, by simp [List.infix_cons_iff]⟩
    next other =>
      obtain ⟨m, ends, rfl⟩ := Option.map_eq_some_iff.1 h
      obtain ⟨closed, first⟩ := ih ends
      refine ⟨by simpa using closed, ?_⟩
      rw [List.take_succ_cons, List.cons_append, List.infix_cons_iff]
      rintro (start | later)
      · -- The two characters would stand at the head of the comment, where they were not found.
        apply other
        obtain ⟨rfl, start⟩ := List.cons_prefix_cons.1 start
        refine ⟨rfl, ?_⟩
        cases m with
        | zero => simp at start
        | succ m =>
          cases cs with
          | nil => cases ends
          | cons d cs => simpa [eq_comm] using start
      · exact first later

theorem remark_remark {line : List Char} (single : '\n' ∉ line) :
    Remark line (Literal.remark line) := by
  have split : line.takeWhile Text.isBlank ++ line.dropWhile Text.isBlank = line :=
    List.takeWhile_append_dropWhile
  have blanks : ∀ c ∈ line.takeWhile Text.isBlank, Text.isBlank c = true :=
    List.all_eq_true.1 List.all_takeWhile
  have begins : ∀ c ∈ (line.dropWhile Text.isBlank).head?, Text.isBlank c = false := by
    intro c first
    simpa [Option.mem_def.1 first] using List.head?_dropWhile_not Text.isBlank line
  have noNewline : '\n' ∉ line.dropWhile Text.isBlank := fun member =>
    single ((List.dropWhile_suffix _).subset member)
  unfold Literal.remark
  simp only
  split
  next ends =>
    obtain ⟨value, text⟩ := List.getLast?_eq_some_iff.1 ends
    rw [text] at split begins noNewline ⊢
    have front : ∀ c ∈ value.head?, Text.isBlank c = false := by
      intro c first
      exact begins c (by simp [Option.mem_def.1 first])
    have parts := Remark.returned blanks front (fun member => noNewline (by simp [member]))
    rw [List.dropLast_concat]
    rwa [split] at parts
  next ends =>
    have parts := Remark.bare blanks begins noNewline ends
    rwa [split] at parts

theorem mem_reservedWords {text : String} {kind : Kind} (h : Kind.reserved? text = some kind) :
    (kind, text) ∈ reservedWords := by
  unfold Kind.reserved? at h
  unfold reservedWords
  grind

theorem reserved_of_word (closer : Option Char) (seen : Text.Buffer) (cs : List Char) :
    (Literal.word closer seen cs).1 = .string ∨
      ((Literal.word closer seen cs).1, (Literal.word closer seen cs).2.text) ∈ reservedWords := by
  fun_induction Literal.word closer seen cs with
  | case1 => exact .inl rfl
  | case2 => exact .inl rfl
  | case3 seen c cs inner kind reserved ends =>
    exact .inr (mem_reservedWords reserved)
  | case4 seen c cs inner kind reserved ends ih => exact ih
  | case5 seen c cs inner other ih => exact ih

end Literals

section Lexemes

variable {start : Cursor} {previous : Option Kind} {c : Char} {cs : List Char} {found : Lexeme}
  {n : Nat}

theorem slashLexeme_spelled (h : slashLexeme start cs = .ok (found, n)) :
    found.Spelled (cs.drop n) ('/' :: cs.take n) := by
  unfold slashLexeme at h
  split at h
  next cs =>
    cases h
    have single : '\n' ∉ Literal.line cs := by
      intro member
      have inside := List.all_eq_true.1 List.all_takeWhile _ member
      simp [Text.isNewline] at inside
    have split : Literal.line cs ++ cs.dropWhile (! Text.isNewline ·) = cs :=
      List.takeWhile_append_dropWhile
    have taken : cs.take (Literal.line cs).length = Literal.line cs :=
      (List.prefix_iff_eq_take.1 (List.takeWhile_prefix _)).symm
    have dropped : cs.drop (Literal.line cs).length = cs.dropWhile (! Text.isNewline ·) := by
      have behind : (Literal.line cs ++ cs.dropWhile (! Text.isNewline ·)).drop
          (Literal.line cs).length = cs.dropWhile (! Text.isNewline ·) := List.drop_left
      rwa [split] at behind
    rw [List.take_succ_cons, taken, List.drop_succ_cons, dropped]
    refine .lineComment (remark_remark single) ?_
    intro c first
    have stops := List.head?_dropWhile_not (! Text.isNewline ·) cs
    rw [Option.mem_def.1 first] at stops
    simpa [Text.isNewline] using stops
  next cs =>
    split at h
    next m ends =>
      cases h
      obtain ⟨closed, first⟩ := take_of_commentEnd? ends
      rw [List.take_succ_cons, closed]
      exact .token (.block first)
    next => cases h
  next =>
    cases h
    exact .token (.mark (by decide))

theorem mem_marks {kind : Kind} (h : Kind.ofBracket? c = some kind) : (kind, c) ∈ marks := by
  unfold Kind.ofBracket? at h
  unfold marks
  grind

theorem ofBracket?_eq_none (h : Kind.ofBracket? c = none) :
    c ∉ ['(', ')', '[', ']', '\x7b', '\x7d'] := by
  unfold Kind.ofBracket? at h
  grind

theorem written_word (closer : Option Char) (letter : c.isAlphanum = true) {kind : Kind}
    {seen : Text.Buffer}
    (h : Literal.word closer (Text.Buffer.empty.push c) cs = (kind, seen)) :
    Written kind (if kind = .string then some seen.text else none)
      (c :: cs.take (seen.length - 1)) := by
  have text := Literal.text_word closer (Text.Buffer.empty.push c) cs
  have reserved := reserved_of_word closer (Text.Buffer.empty.push c) cs
  rw [h] at text reserved
  have first : (Text.Buffer.empty.push c).text.toList = [c] := by
    rw [Text.Buffer.toList_push]
    rfl
  have spelled : c :: cs.take (seen.length - 1) = seen.text.toList := by
    rw [text, first]
    rfl
  rcases reserved with rfl | reserved
  · have whole : seen.text = String.ofList (c :: cs.take (seen.length - 1)) := by
      rw [spelled, String.ofList_toList]
    rw [if_pos rfl, whole]
    exact .word letter
  · have kinds : ∀ entry ∈ reservedWords, entry.1 ≠ .string := by decide
    rw [if_neg (kinds _ reserved), spelled]
    exact .reserved reserved

theorem lexeme_spelled (h : lexeme start previous c cs = .ok (found, n)) :
    found.Spelled (cs.drop n) (c :: cs.take n) := by
  unfold lexeme at h
  by_cases quote : Text.isQuote c = true
  · rw [if_pos quote] at h
    split at h
    next m closed =>
      cases h
      rw [take_of_closing? closed]
      exact .token (.quotation quote (quoted_of_closing? closed))
    next => cases h
  rw [if_neg quote] at h
  by_cases backtick : Text.isBacktick c = true
  · rw [if_pos backtick] at h
    split at h
    next m closed =>
      cases h
      obtain rfl : c = '\x60' := by simpa [Text.isBacktick] using backtick
      rw [take_of_closing? closed]
      exact .token (.backticks (quoted_of_closing? closed))
    next => cases h
  rw [if_neg backtick] at h
  by_cases letter : c.isAlphanum = true
  · rw [if_pos letter] at h
    cases h
    exact .token (written_word _ letter rfl)
  rw [if_neg letter] at h
  by_cases equals : c = '='
  · rw [if_pos equals] at h
    split at h
    next head =>
      cases h
      obtain ⟨cs, rfl⟩ := List.head?_eq_some_iff.1 head
      rw [equals]
      exact .token .arrow
    next => cases h
  rw [if_neg equals] at h
  by_cases semi : c = ';'
  · rw [if_pos semi] at h
    cases h
    exact .token (.mark (by simp [marks, semi]))
  rw [if_neg semi] at h
  by_cases slash : c = '/'
  · rw [if_pos slash] at h
    rw [slash]
    exact slashLexeme_spelled h
  rw [if_neg slash] at h
  by_cases backslash : c = '\\'
  · rw [if_pos backslash] at h
    cases h
    exact .token (.mark (by simp [marks, backslash]))
  rw [if_neg backslash] at h
  split at h
  next kind bracket =>
    cases h
    exact .token (.mark (mem_marks bracket))
  next bracket =>
    cases h
    split
    next blank => exact .gap blank
    next =>
      have brackets := ofBracket?_eq_none bracket
      simp only [Text.isQuote, Text.isBacktick, Bool.or_eq_true, beq_iff_eq, not_or] at quote backtick
      exact .stray ⟨by simpa using letter, by simp_all⟩

end Lexemes

end Flowchart.Token
