import Flowchart.Token.Scan

/-! Texts that are scanned alike wherever they stand. Such a text says what its tokens are but not
where they lie; two of them one after the other have the tokens of both. -/
namespace Flowchart.Token

abbrev Word := Kind × Option String

def spelling (token : Token) : Word := (token.kind, token.value)

/-- Whatever was scanned before and whatever follows, scanning the characters adds tokens that say
these things. -/
def Reads (cs : List Char) (said : List Word) : Prop :=
  ∀ (s : Scan) (rest : List Char), ∃ (s' : Scan) (tokens : List Token),
    s.run (cs ++ rest) = s'.run rest ∧ s'.tokens = tokens.reverse ++ s.tokens ∧
      tokens.map spelling = said

namespace Reads

variable {cs cs' : List Char} {said said' : List Word} {c : Char} {kind : Kind}
  {value : Option String}

theorem nil : Reads [] [] := fun s _ => ⟨s, [], rfl, rfl, rfl⟩

theorem append (h : Reads cs said) (h' : Reads cs' said') : Reads (cs ++ cs') (said ++ said') := by
  intro s rest
  obtain ⟨s1, tokens, run, added, said⟩ := h s (cs' ++ rest)
  obtain ⟨s2, tokens', run', added', said'⟩ := h' s1 rest
  refine ⟨s2, tokens ++ tokens', ?_, ?_, ?_⟩
  · rw [List.append_assoc, run, run']
  · rw [added', added, List.reverse_append, List.append_assoc]
  · rw [List.map_append, said, said']

theorem token (h : ∀ start previous rest, lexeme start previous c (cs ++ (cs' ++ rest)) =
      .ok (.token kind value, cs.length)) (h' : Reads cs' said) :
    Reads (c :: (cs ++ cs')) ((kind, value) :: said) := by
  intro s rest
  have first := h s.cursor s.previous rest
  obtain ⟨s', tokens, run, added, said⟩ := h' (s.record (.token kind value) (c :: cs)) rest
  refine ⟨s', ⟨kind, value, s.cursor.spanning (c :: cs).length⟩ :: tokens, ?_, ?_, ?_⟩
  · rw [List.cons_append, List.append_assoc, Scan.run_cons_ok first, List.take_left,
      List.drop_left, run]
  · rw [added, Scan.record]
    simp
  · rw [List.map_cons, said]
    rfl

theorem mark (h : ∀ start previous rest, lexeme start previous c rest = .ok (.token kind none, 0))
    (h' : Reads cs said) : Reads (c :: cs) ((kind, none) :: said) := by
  have first : ∀ start previous rest, lexeme start previous c ([] ++ (cs ++ rest)) =
      .ok (.token kind none, ([] : List Char).length) := by
    intro start previous rest
    exact h start previous (cs ++ rest)
  exact token first h'

theorem gap (h : ∀ start previous rest, lexeme start previous c rest = .ok (.gap, 0))
    (h' : Reads cs said) : Reads (c :: cs) said := by
  intro s rest
  obtain ⟨s', tokens, run, added, said⟩ := h' (s.record .gap [c]) rest
  refine ⟨s', tokens, ?_, added, said⟩
  rw [List.cons_append, Scan.run_cons_ok (h s.cursor s.previous (cs ++ rest)), List.take_zero,
    List.drop_zero, run]

end Reads

section Words

variable {text : String} {kind : Kind} {before after rest : List Char} {c : Char}

theorem mem_of_reserved? (h : Kind.reserved? text = some kind) :
    text ∈ ["return", "if", "while", "else", "switch"] := by
  unfold Kind.reserved? at h
  grind

theorem ne_string_of_reserved? (h : Kind.reserved? text = some kind) : kind ≠ .string := by
  unfold Kind.reserved? at h
  grind

theorem isAlphanum_of_reserved? (h : Kind.reserved? text = some kind) :
    ∀ c ∈ text.toList, c.isAlphanum = true := by
  have letters : ∀ text ∈ ["return", "if", "while", "else", "switch"],
      text.toList.all Char.isAlphanum = true := by decide
  exact List.all_eq_true.1 (letters text (mem_of_reserved? h))

theorem length_of_reserved? (h : Kind.reserved? text = some kind) : 2 ≤ text.toList.length := by
  have lengths : ∀ text ∈ ["return", "if", "while", "else", "switch"], 2 ≤ text.toList.length := by
    decide
  exact lengths text (mem_of_reserved? h)

theorem reserved?_start (h : Kind.reserved? text = some kind)
    (split : text.toList = before ++ after) (more : after ≠ []) :
    Kind.reserved? (String.ofList before) = none := by
  have starts : ∀ text ∈ ["return", "if", "while", "else", "switch"],
      ∀ n < text.toList.length, Kind.reserved? (String.ofList (text.toList.take n)) = none := by
    decide
  have shorter : before.length < text.toList.length := by
    have := List.length_pos_iff.2 more
    rw [split, List.length_append]
    omega
  have start := starts text (mem_of_reserved? h) before.length shorter
  rwa [split, List.take_left] at start

theorem closer?_ne (previous : Option Kind) (h : c.isAlphanum = true) :
    previous.bind Kind.closer? ≠ some c := by
  cases previous with
  | none => simp
  | some kind =>
    cases kind <;> simp [Kind.closer?, Kind.opens, Kind.partner?] <;> rintro rfl <;> simp at h

theorem word_reserved {closer : Option Char} (seen : Text.Buffer)
    (h : Kind.reserved? text = some kind) (ends : kind.endsBefore rest.head? = true)
    (free : ∀ c : Char, c.isAlphanum = true → closer ≠ some c)
    (split : text.toList = seen.text.toList ++ after) (more : after ≠ []) :
    (Literal.word closer seen (after ++ rest)).1 = kind ∧
      (Literal.word closer seen (after ++ rest)).2.length = seen.length + after.length := by
  induction after generalizing seen with
  | nil => exact absurd rfl more
  | cons c after ih =>
    have letter := isAlphanum_of_reserved? h c (by simp [split])
    have inner : ¬(c = ';' ∨ closer = some c) := by
      rintro (rfl | closes)
      · exact absurd letter (by decide)
      · exact free c letter closes
    have split' : text.toList = (seen.push c).text.toList ++ after := by
      rw [split, Text.Buffer.toList_push, List.append_assoc]
      rfl
    rw [List.cons_append, Literal.word, if_neg inner]
    by_cases last : after = []
    · have whole : (seen.push c).text = text := by
        rw [← String.toList_inj, split', last, List.append_nil]
      rw [whole, h, last]
      simp [ends]
    · have start := reserved?_start h split' last
      rw [String.ofList_toList] at start
      rw [start]
      have next := ih (seen.push c) split' last
      simp only [Text.Buffer.length_push] at next
      refine ⟨next.1, ?_⟩
      rw [next.2, List.length_cons]
      omega

theorem lexeme_of_isAlphanum (start : Cursor) (previous : Option Kind) {cs : List Char}
    {seen : Text.Buffer} (letter : c.isAlphanum = true)
    (h : Literal.word (previous.bind Kind.closer?) (Text.Buffer.empty.push c) cs = (kind, seen)) :
    lexeme start previous c cs =
      .ok (.token kind (if kind = .string then some seen.text else none), seen.length - 1) := by
  have quote : Text.isQuote c = false := by
    rw [Text.isQuote, Bool.or_eq_false_iff, beq_eq_false_iff_ne, beq_eq_false_iff_ne]
    constructor <;> rintro rfl <;> exact absurd letter (by decide)
  have backtick : Text.isBacktick c = false := by
    rw [Text.isBacktick, beq_eq_false_iff_ne]
    rintro rfl
    exact absurd letter (by decide)
  simp [lexeme, quote, backtick, letter, h]

theorem lexeme_reserved (start : Cursor) (previous : Option Kind)
    (h : Kind.reserved? text = some kind) (spelled : text.toList = c :: after)
    (ends : kind.endsBefore rest.head? = true) :
    lexeme start previous c (after ++ rest) = .ok (.token kind none, after.length) := by
  have letter := isAlphanum_of_reserved? h c (by simp [spelled])
  have more : after ≠ [] := by
    have long := length_of_reserved? h
    rintro rfl
    simp [spelled] at long
  have first : text.toList = (Text.Buffer.empty.push c).text.toList ++ after := by
    rw [spelled, Text.Buffer.toList_push]
    rfl
  obtain ⟨found, length⟩ := word_reserved _ h ends (fun _ => closer?_ne previous) first more
  have taken : (Text.Buffer.empty.push c).length + after.length - 1 = after.length :=
    Nat.add_sub_cancel_left 1 after.length
  rw [lexeme_of_isAlphanum start previous letter (Prod.ext found rfl), length, taken,
    if_neg (ne_string_of_reserved? h)]

theorem Reads.reserved (text : String) {cs : List Char} {said : List Word}
    (h : Kind.reserved? text = some kind) (ends : kind.endsBefore (some c) = true)
    (h' : Reads (c :: cs) said) : Reads (text.toList ++ c :: cs) ((kind, none) :: said) := by
  have long := length_of_reserved? h
  cases spelled : text.toList with
  | nil => simp [spelled] at long
  | cons first after =>
    refine .token (fun start previous rest => ?_) h'
    exact lexeme_reserved start previous h spelled ends

end Words

section Marks

variable (start : Cursor) (previous : Option Kind) (rest : List Char)

theorem lexeme_lParen : lexeme start previous '(' rest = .ok (.token .lParen none, 0) := rfl

theorem lexeme_rParen : lexeme start previous ')' rest = .ok (.token .rParen none, 0) := rfl

theorem lexeme_lBrace : lexeme start previous '\x7b' rest = .ok (.token .lBrace none, 0) := rfl

theorem lexeme_rBrace : lexeme start previous '\x7d' rest = .ok (.token .rBrace none, 0) := rfl

theorem lexeme_semi : lexeme start previous ';' rest = .ok (.token .semi none, 0) := rfl

theorem lexeme_backwardSlash :
    lexeme start previous '\\' rest = .ok (.token .backwardSlash none, 0) := rfl

theorem lexeme_space : lexeme start previous ' ' rest = .ok (.gap, 0) := rfl

theorem lexeme_newline : lexeme start previous '\n' rest = .ok (.gap, 0) := rfl

theorem lexeme_of_isGap {c : Char} (h : Text.isGap c = true) :
    lexeme start previous c rest = .ok (.gap, 0) := by
  simp only [Text.isGap, Text.isBlank, Text.isNewline, Bool.or_eq_true, beq_iff_eq] at h
  obtain ((rfl | rfl) | rfl) | rfl := h <;> rfl

theorem lexeme_forwardSlash {c : Char} (line : c ≠ '/') (block : c ≠ '*') :
    lexeme start previous '/' (c :: rest) = .ok (.token .forwardSlash none, 0) := by
  have slash : lexeme start previous '/' (c :: rest) = slashLexeme start (c :: rest) := rfl
  rw [slash, slashLexeme]
  · intro cs h
    exact line (List.cons.inj h).1
  · intro cs h
    exact block (List.cons.inj h).1

end Marks

end Flowchart.Token
