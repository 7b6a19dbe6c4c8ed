import Flowchart.Proofs.Spelling
import Mathlib

/-! Words without quotes. A reserved word is read as one where the text begins with it and something
stands behind it that may end it. Every other word is a text, and it goes as far as nothing ends
it: a semicolon, or behind an opening mark the mark that closes. -/
namespace Flowchart.Token

def closers : List (Kind × Char) :=
  [(.lParen, ')'), (.lBracket, ']'), (.lBrace, '\x7d'), (.forwardSlash, '/'),
   (.backwardSlash, '\\')]

def wordEnds : List (Kind × Char) :=
  [(.returnWord, ';'), (.ifWord, '('), (.whileWord, '('), (.elseWord, '\x7b'), (.switchWord, '(')]

/-- A reserved word may end before the end of the text, white space, or its own mark. -/
def EndsBefore (kind : Kind) (rest : List Char) : Prop :=
  ∀ c ∈ rest.head?, c ∈ [' ', '\t', '\n', '\r'] ∨ (kind, c) ∈ wordEnds

structure Reserves (kind : Kind) (word : String) (text : List Char) : Prop where
  mem_reservedWords : (kind, word) ∈ reservedWords
  exists_rest : ∃ rest, text = word.toList ++ rest ∧ EndsBefore kind rest

/-- Nothing in the text ends a word behind a token of the kind. -/
structure Unbroken (previous : Option Kind) (text : List Char) : Prop where
  semi_notMem : ';' ∉ text
  closer_notMem : ∀ entry ∈ closers, previous = some entry.1 → entry.2 ∉ text

structure Longest (p : List Char → Prop) (text part : List Char) : Prop where
  isPrefix : part <+: text
  holds : p part
  longest : ∀ other, other <+: text → p other → other <+: part

/-- What a word at the head of the text is, behind a token of the kind `previous`: the kind and the
value of its token, and its characters. -/
inductive WordRule (previous : Option Kind) (text : List Char) :
    Kind → Option String → List Char → Prop where
  | reserved {kind : Kind} {word : String} : Reserves kind word text →
      WordRule previous text kind none word.toList
  | free {word : List Char} : (∀ kind word, ¬ Reserves kind word text) →
      Longest (Unbroken previous) text word →
      WordRule previous text .string (some (String.ofList word)) word

section Tables

variable {kind : Kind} {word : String} {c : Char} {previous : Option Kind} {text rest : List Char}

theorem reserved?_of_mem (h : (kind, word) ∈ reservedWords) : Kind.reserved? word = some kind := by
  have entries : ∀ entry ∈ reservedWords, Kind.reserved? entry.2 = some entry.1 := by decide
  exact entries _ h

theorem endsBefore_iff : EndsBefore kind rest ↔ kind.endsBefore rest.head? = true := by
  cases rest with
  | nil => simp [EndsBefore, Kind.endsBefore]
  | cons c rest =>
    cases kind <;>
      simp [EndsBefore, Kind.endsBefore, wordEnds, Text.isGap, Text.isBlank, Text.isNewline,
        or_assoc]

theorem bind_closer?_eq_some_iff : previous.bind Kind.closer? = some c ↔
    ∃ entry ∈ closers, previous = some entry.1 ∧ entry.2 = c := by
  cases previous with
  | none => simp
  | some kind => cases kind <;> simp [closers, Kind.closer?, Kind.opens, Kind.partner?]

theorem unbroken_iff : Unbroken previous text ↔
    ∀ c ∈ text, ¬(c = ';' ∨ previous.bind Kind.closer? = some c) := by
  constructor
  · rintro ⟨semi, closer⟩ c member (rfl | closes)
    · exact semi member
    · obtain ⟨entry, listed, before, rfl⟩ := bind_closer?_eq_some_iff.1 closes
      exact closer entry listed before member
  · intro free
    refine ⟨fun member => free _ member (.inl rfl), fun entry listed before member => ?_⟩
    exact free _ member (.inr (bind_closer?_eq_some_iff.2 ⟨entry, listed, before, rfl⟩))

end Tables

section Rule

variable {previous : Option Kind} {text : List Char}

theorem Reserves.unique {kind kind' : Kind} {word word' : String} (h : Reserves kind word text)
    (h' : Reserves kind' word' text) : kind = kind' ∧ word = word' := by
  have apart : ∀ entry ∈ reservedWords, ∀ entry' ∈ reservedWords,
      entry.2.toList <+: entry'.2.toList → entry = entry' := by decide
  obtain ⟨rest, split, -⟩ := h.exists_rest
  obtain ⟨rest', split', -⟩ := h'.exists_rest
  have starts : word.toList <+: text := ⟨rest, split.symm⟩
  have starts' : word'.toList <+: text := ⟨rest', split'.symm⟩
  rcases List.prefix_or_prefix_of_prefix starts starts' with shorter | shorter
  · exact Prod.mk.inj (apart _ h.mem_reservedWords _ h'.mem_reservedWords shorter)
  · have same := Prod.mk.inj (apart _ h'.mem_reservedWords _ h.mem_reservedWords shorter)
    exact ⟨same.1.symm, same.2.symm⟩

theorem Longest.unique {p : List Char → Prop} {part part' : List Char} (h : Longest p text part)
    (h' : Longest p text part') : part = part' := by
  have le := h'.longest part h.isPrefix h.holds
  have ge := h.longest part' h'.isPrefix h'.holds
  exact le.eq_of_length (Nat.le_antisymm le.length_le ge.length_le)

theorem WordRule.unique {kind kind' : Kind} {value value' : Option String} {word word' : List Char}
    (h : WordRule previous text kind value word) (h' : WordRule previous text kind' value' word') :
    kind = kind' ∧ value = value' ∧ word = word' := by
  cases h with
  | reserved reserves =>
    cases h' with
    | reserved reserves' =>
      obtain ⟨rfl, rfl⟩ := reserves.unique reserves'
      exact ⟨rfl, rfl, rfl⟩
    | free unreserved => exact absurd reserves (unreserved _ _)
  | free unreserved longest =>
    cases h' with
    | reserved reserves' => exact absurd reserves' (unreserved _ _)
    | free _ longest' =>
      obtain rfl := longest.unique longest'
      exact ⟨rfl, rfl, rfl⟩

end Rule

def inWord (closer : Option Char) (c : Char) : Bool := ¬(c = ';' ∨ closer = some c)

theorem unbroken_iff_inWord {previous : Option Kind} {text : List Char} :
    Unbroken previous text ↔ ∀ c ∈ text, inWord (previous.bind Kind.closer?) c = true := by
  simp only [unbroken_iff, inWord, decide_eq_true_eq]

theorem longest_takeWhile (previous : Option Kind) (text : List Char) :
    Longest (Unbroken previous) text (text.takeWhile (inWord (previous.bind Kind.closer?))) where
  isPrefix := List.takeWhile_prefix _
  holds := unbroken_iff_inWord.2 (List.all_eq_true.1 List.all_takeWhile)
  longest := by
    rintro other ⟨rest, rfl⟩ unbroken
    rw [List.takeWhile_append_of_pos (unbroken_iff_inWord.1 unbroken)]
    exact List.prefix_append _ _

theorem word_free (closer : Option Char) (seen : Text.Buffer) (cs : List Char)
    (unreserved : ∀ kind word rest, Kind.reserved? word = some kind →
      seen.text.toList ++ cs = word.toList ++ rest → kind.endsBefore rest.head? = false) :
    (Literal.word closer seen cs).1 = .string ∧
      (Literal.word closer seen cs).2.text.toList =
        seen.text.toList ++ cs.takeWhile (inWord closer) := by
  -- What is seen and what is ahead make up the same text all the time.
  fun_induction Literal.word closer seen cs with
  | case1 => simp
  | case2 seen c cs ends => simp [inWord, ends]
  | case3 seen c cs inner kind reserved ends =>
    have longer := unreserved kind _ cs reserved (by simp)
    simp [longer] at ends
  | case4 seen c cs inner kind reserved ends ih =>
    have next := ih (by simpa using unreserved)
    simpa [List.takeWhile_cons, inWord, inner] using next
  | case5 seen c cs inner other ih =>
    have next := ih (by simpa using unreserved)
    simpa [List.takeWhile_cons, inWord, inner] using next

section Lexemes

variable (start : Cursor) (previous : Option Kind) {c : Char} {cs : List Char}

theorem lexeme_of_reserves {kind : Kind} {word : String} (h : Reserves kind word (c :: cs)) :
    lexeme start previous c cs = .ok (.token kind none, word.toList.length - 1) := by
  have reserved := reserved?_of_mem h.mem_reservedWords
  obtain ⟨rest, split, ends⟩ := h.exists_rest
  obtain ⟨first, after, spelled⟩ : ∃ first after, word.toList = first :: after := by
    have long := length_of_reserved? reserved
    exact List.exists_cons_of_length_pos (by omega)
  rw [spelled, List.cons_append, List.cons.injEq] at split
  obtain ⟨rfl, rfl⟩ := split
  rw [lexeme_reserved start previous reserved spelled (endsBefore_iff.1 ends), spelled]
  rfl

theorem takeWhile_inWord (letter : c.isAlphanum = true) :
    (c :: cs).takeWhile (inWord (previous.bind Kind.closer?)) =
      c :: cs.takeWhile (inWord (previous.bind Kind.closer?)) := by
  have other : c ≠ ';' := by
    rintro rfl
    exact absurd letter (by decide)
  apply List.takeWhile_cons_of_pos
  simp [inWord, other, closer?_ne previous letter]

theorem lexeme_of_not_reserves (letter : c.isAlphanum = true)
    (unreserved : ∀ kind word, ¬ Reserves kind word (c :: cs)) :
    lexeme start previous c cs = .ok
      (.token .string
        (some (String.ofList ((c :: cs).takeWhile (inWord (previous.bind Kind.closer?))))),
        ((c :: cs).takeWhile (inWord (previous.bind Kind.closer?))).length - 1) := by
  have first : (Text.Buffer.empty.push c).text.toList = [c] := Text.Buffer.toList_push _ c
  have longer (kind : Kind) (word : String) (rest : List Char)
      (reserved : Kind.reserved? word = some kind)
      (split : (Text.Buffer.empty.push c).text.toList ++ cs = word.toList ++ rest) :
      kind.endsBefore rest.head? = false := by
    rw [first] at split
    by_contra ends
    have ends := endsBefore_iff.2 (Bool.not_eq_false _ ▸ ends)
    exact unreserved kind word ⟨mem_reservedWords reserved, rest, split, ends⟩
  obtain ⟨kind, text⟩ := word_free (previous.bind Kind.closer?) (Text.Buffer.empty.push c) cs longer
  rw [first, List.singleton_append, ← takeWhile_inWord previous letter] at text
  rw [lexeme_of_isAlphanum start previous letter (Prod.ext kind rfl), if_pos rfl, ← text,
    String.ofList_toList, Text.Buffer.length_eq]
  rfl

theorem exists_wordRule (cs : List Char) (letter : c.isAlphanum = true) :
    ∃ kind value word, word <+: c :: cs ∧ word ≠ [] ∧
      WordRule previous (c :: cs) kind value word ∧
      lexeme start previous c cs = .ok (.token kind value, word.length - 1) := by
  by_cases reserved : ∃ kind word, Reserves kind word (c :: cs)
  · obtain ⟨kind, word, reserves⟩ := reserved
    obtain ⟨rest, split, -⟩ := reserves.exists_rest
    have nonempty : word.toList ≠ [] := by
      have long := length_of_reserved? (reserved?_of_mem reserves.mem_reservedWords)
      exact List.ne_nil_of_length_pos (by omega)
    exact ⟨kind, none, word.toList, ⟨rest, split.symm⟩, nonempty, .reserved reserves,
      lexeme_of_reserves start previous reserves⟩
  · have unreserved : ∀ kind word, ¬ Reserves kind word (c :: cs) := by simpa using reserved
    have longest := longest_takeWhile previous (c :: cs)
    refine ⟨.string, _, _, longest.isPrefix, ?_, .free unreserved longest,
      lexeme_of_not_reserves start previous letter unreserved⟩
    simp [takeWhile_inWord previous letter]

end Lexemes

/-- Whatever was scanned before, a word is one token, of which the rule says everything. -/
theorem run_word (s : Scan) {c : Char} (cs : List Char) (letter : c.isAlphanum = true) :
    ∃ kind value word rest, c :: cs = word ++ rest ∧
      (∀ kind' value' word', WordRule s.previous (c :: cs) kind' value' word' ↔
        kind' = kind ∧ value' = value ∧ word' = word) ∧
      lexeme s.cursor s.previous c cs = .ok (.token kind value, word.length - 1) ∧
      s.run (c :: cs) = Scan.run
        { cursor := s.cursor.advance word
          tokens := ⟨kind, value, s.cursor.spanning word.length⟩ :: s.tokens
          inRemarks := false } rest := by
  obtain ⟨kind, value, word, ⟨rest, split⟩, nonempty, rule, found⟩ :=
    exists_wordRule s.cursor s.previous cs letter
  refine ⟨kind, value, word, rest, split.symm, fun kind' value' word' => ?_, found, ?_⟩
  · constructor
    · exact fun rule' => rule'.unique rule
    · rintro ⟨rfl, rfl, rfl⟩
      exact rule
  · obtain ⟨first, after, rfl⟩ := List.exists_cons_of_ne_nil nonempty
    rw [List.cons_append, List.cons.injEq] at split
    obtain ⟨rfl, rfl⟩ := split
    rw [Scan.run_cons_ok found, List.length_cons, Nat.add_sub_cancel, List.take_left,
      List.drop_left]
    rfl

def behindRemark : Scan where
  cursor := ⟨4, 2, 1⟩
  tokens := [⟨.comment, some "a", ⟨0, 3, 1, 1⟩⟩]
  inRemarks := true

theorem run_word_behindRemark :
    'i'.isAlphanum = true ∧ Reserves .ifWord "if" ['i', 'f', '(', 'a', ')'] ∧
    behindRemark.run ['i', 'f', '(', 'a', ')'] = Scan.run
      { cursor := ⟨6, 2, 3⟩
        tokens := [⟨.ifWord, none, ⟨4, 2, 2, 1⟩⟩, ⟨.comment, some "a", ⟨0, 3, 1, 1⟩⟩] }
      ['(', 'a', ')'] := by
  have letter : 'i'.isAlphanum = true := by decide
  have reserves : Reserves .ifWord "if" ['i', 'f', '(', 'a', ')'] :=
    ⟨by decide, ['(', 'a', ')'], rfl, by simp [EndsBefore, wordEnds]⟩
  obtain ⟨kind, value, word, rest, split, rule, -, run⟩ :=
    run_word behindRemark ['f', '(', 'a', ')'] letter
  obtain ⟨rfl, rfl, rfl⟩ := (rule _ _ _).1 (.reserved reserves)
  obtain rfl : ['(', 'a', ')'] = rest := by simpa using split
  exact ⟨letter, reserves, run⟩

end Flowchart.Token
