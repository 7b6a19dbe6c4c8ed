import Flowchart.Proofs.Coordinates

/-! Sources one behind the other. A mark that closes something is a token whatever stands behind it,
and a scan begins anew there: no text waits for its end, and no line comment for the next one. So the
tokens of two sources of which the first ends with such a mark are those of the first and those of
the second, the latter moved by what is before them, and a failure in the second is moved alike. -/
namespace Flowchart

def Kind.closes : Kind → Bool
  | semi | rParen | rBracket | rBrace => true
  | _ => false

theorem Kind.closer?_of_closes {kind : Kind} (h : kind.closes = true) : kind.closer? = none := by
  cases kind <;> simp [closes] at h <;> rfl

/-- The same stretch with a text before the source. Columns count in their line, so that only those of
the first line change. -/
def Position.behind (pos : Position) (text : List Char) : Position where
  offset := pos.offset + text.length
  length := pos.length
  line := pos.line + text.count '\n'
  column := if pos.line = 1 then pos.column + (Text.lastLine text).length else pos.column

def Token.behind (token : Token) (text : List Char) : Token :=
  { token with pos := token.pos.behind text }

def Failure.behind (text : List Char) : Failure → Failure
  | unterminatedString quote pos => .unterminatedString quote (pos.behind text)
  | unterminatedComment pos => .unterminatedComment (pos.behind text)
  | unexpectedAssignment pos => .unexpectedAssignment (pos.behind text)
  | endOfInput pos => .endOfInput (pos.behind text)
  | unexpectedToken kind pos => .unexpectedToken kind (pos.behind text)
  | expectedToken expected found pos => .expectedToken expected found (pos.behind text)
  | inSource path inner => .inSource path (inner.behind text)
  | failure => failure

theorem Position.behind_cover (pos pos' : Position) (text : List Char) :
    (pos.cover pos').behind text = (pos.behind text).cover (pos'.behind text) := by
  have length : max pos.stop pos'.stop - pos.offset =
      max (pos.behind text).stop (pos'.behind text).stop - (pos.offset + text.length) := by
    simp only [behind, stop]
    omega
  exact congrArg (Position.mk _ · _ _) length

theorem Cursor.spanning_behind (text passed : List Char) (length : Nat) :
    (Cursor.advance {} (text ++ passed)).spanning length =
      ((Cursor.advance {} passed).spanning length).behind text := by
  have first : 1 + passed.count '\n' = 1 ↔ '\n' ∉ passed := by
    rw [← List.count_eq_zero]
    omega
  have column : 1 + (Text.lastLine (text ++ passed)).length =
      if 1 + passed.count '\n' = 1 then
        1 + (Text.lastLine passed).length + (Text.lastLine text).length
      else 1 + (Text.lastLine passed).length := by
    rw [Text.lastLine_append]
    by_cases newline : '\n' ∈ passed
    · rw [if_pos newline, if_neg fun line => first.1 line newline]
    · have whole : Text.lastLine passed = passed := by
        rw [Text.lastLine, List.rtakeWhile_eq_self_iff]
        simpa using fun c member => ne_of_mem_of_not_mem member newline
      rw [if_neg newline, if_pos (first.2 newline), whole, List.length_append]
      omega
  simp only [advance_start, spanning, Position.behind, ← column, List.length_append,
    List.count_append, Position.mk.injEq, true_and, and_true]
  omega

theorem Cursor.here_behind (text passed ahead : List Char) :
    ((Cursor.advance {} (text ++ passed)).advance ahead).here =
      ((Cursor.advance {} passed).advance ahead).here.behind text := by
  rw [← advance_append, ← advance_append, List.append_assoc]
  exact spanning_behind text (passed ++ ahead) 0

namespace Token

namespace Literal

variable {cs : List Char} {n : Nat}

theorem closing?_append {delimiter : Char} (rest : List Char)
    (h : closing? delimiter cs = some n) : closing? delimiter (cs ++ rest) = some n := by
  fun_induction closing? delimiter cs generalizing n with
  | case1 => cases h
  | case2 => cases h
  | case3 e cs ih =>
    obtain ⟨m, closed, rfl⟩ := Option.map_eq_some_iff.1 h
    simp [closing?, ih closed]
  | case4 cs escaped =>
    rw [List.cons_append, closing?.eq_def]
    simpa [escaped] using h
  | case5 c cs escaped other ih =>
    obtain ⟨m, closed, rfl⟩ := Option.map_eq_some_iff.1 h
    rw [List.cons_append, closing?.eq_def]
    simp [escaped, other, ih closed]

theorem commentEnd?_append (rest : List Char) (h : commentEnd? cs = some n) :
    commentEnd? (cs ++ rest) = some n := by
  induction cs generalizing n with
  | nil => cases h
  | cons c cs ih =>
    cases cs with
    | nil => simp [commentEnd?] at h
    | cons d cs =>
      have same : (d :: cs ++ rest).head? = (d :: cs).head? := rfl
      rw [commentEnd?] at h
      rw [List.cons_append, commentEnd?, same]
      by_cases found : c = '*' ∧ (d :: cs).head? = some '/'
      · rwa [if_pos found] at h ⊢
      · rw [if_neg found] at h ⊢
        obtain ⟨m, ends, rfl⟩ := Option.map_eq_some_iff.1 h
        rw [ih ends, Option.map_some]

theorem line_append (rest : List Char) (h : (line cs).length < cs.length) :
    line (cs ++ rest) = line cs := by
  rw [line] at h ⊢
  rw [List.takeWhile_append, if_neg (Nat.ne_of_lt h), line]

theorem word_append {closer : Option Char} {seen : Text.Buffer} (rest : List Char)
    (h : (word closer seen cs).2.length < seen.length + cs.length) :
    word closer seen (cs ++ rest) = word closer seen cs := by
  fun_induction word closer seen cs with
  | case1 => simp at h
  | case2 seen c cs ends => simp [word, ends]
  | case3 seen c cs inner kind reserved ends =>
    have more : cs ≠ [] := by
      rintro rfl
      simp at h
    rw [List.cons_append, word, if_neg inner, reserved, List.head?_append_of_ne_nil _ more]
    exact if_pos ends
  | case4 seen c cs inner kind reserved ends ih =>
    have more : cs ≠ [] := by
      rintro rfl
      simp [word] at h
    have behind := ih (by simp only [Text.Buffer.length_push, List.length_cons] at h ⊢; omega)
    rw [List.cons_append, word, if_neg inner, reserved, List.head?_append_of_ne_nil _ more, behind]
    exact if_neg ends
  | case5 seen c cs inner other ih =>
    have behind := ih (by simp only [Text.Buffer.length_push, List.length_cons] at h ⊢; omega)
    rw [List.cons_append, word, if_neg inner, other, behind]

end Literal

section Lexemes

variable {start : Cursor} {previous previous' : Option Kind} {c : Char} {cs : List Char}
  {found : Lexeme} {n : Nat}

theorem slashLexeme_append (rest : List Char) (h : slashLexeme start cs = .ok (found, n))
    (more : n < cs.length) : slashLexeme start (cs ++ rest) = .ok (found, n) := by
  unfold slashLexeme at h
  split at h
  next cs =>
    cases h
    rw [List.length_cons] at more
    rw [List.cons_append, slashLexeme, Literal.line_append rest (by omega)]
  next cs =>
    split at h
    next m ends =>
      have within := Literal.commentEnd?_lt ends
      cases h
      rw [List.cons_append, slashLexeme, Literal.commentEnd?_append rest ends]
      simp only [List.take_append_of_le_length (show m ≤ cs.length by omega)]
    next => cases h
  next line block =>
    cases h
    obtain ⟨d, cs, rfl⟩ := List.exists_cons_of_length_pos more
    rw [List.cons_append, slashLexeme]
    · rintro ds ⟨⟩
      exact line cs rfl
    · rintro ds ⟨⟩
      exact block cs rfl

theorem lexeme_append (rest : List Char) (h : lexeme start previous c cs = .ok (found, n))
    (more : n < cs.length) : lexeme start previous c (cs ++ rest) = .ok (found, n) := by
  unfold lexeme at h ⊢
  by_cases quote : Text.isQuote c = true
  · rw [if_pos quote] at h ⊢
    split at h
    next m closed =>
      have within := Literal.closing?_lt closed
      cases h
      rw [Literal.closing?_append rest closed]
      simp only [List.take_append_of_le_length (Nat.le_of_lt within)]
    next => cases h
  rw [if_neg quote] at h ⊢
  by_cases backtick : Text.isBacktick c = true
  · rw [if_pos backtick] at h ⊢
    split at h
    next m closed =>
      have within := Literal.closing?_lt closed
      cases h
      rw [Literal.closing?_append rest closed]
      simp only [List.take_append_of_le_length (Nat.succ_le_of_lt within)]
    next => cases h
  rw [if_neg backtick] at h ⊢
  by_cases letter : c.isAlphanum = true
  · rw [if_pos letter] at h ⊢
    cases h
    have one : (Text.Buffer.empty.push c).length = 1 := rfl
    rw [Literal.word_append rest (by omega)]
  rw [if_neg letter] at h ⊢
  have head : (cs ++ rest).head? = cs.head? :=
    List.head?_append_of_ne_nil _ (List.ne_nil_of_length_pos (by omega))
  by_cases slash : c = '/'
  · subst slash
    exact slashLexeme_append rest h more
  simpa [head, slash] using h

theorem lexeme_of_closes {kind : Kind} (mark : (kind, c) ∈ marks) (closes : kind.closes = true) :
    lexeme start previous c cs = .ok (.token kind none, 0) := by
  have closing : ∀ entry ∈ marks, entry.1.closes = true →
      entry ∈ [(.semi, ';'), (.rParen, ')'), (.rBracket, ']'), (.rBrace, '\x7d')] := by decide
  have member := closing _ mark closes
  simp only [List.mem_cons, Prod.mk.injEq, List.not_mem_nil, or_false] at member
  obtain ⟨rfl, rfl⟩ | ⟨rfl, rfl⟩ | ⟨rfl, rfl⟩ | ⟨rfl, rfl⟩ := member <;> rfl

theorem Written.mark_of_closes {kind : Kind} {value : Option String} {text : List Char}
    (h : Written kind value text) (closes : kind.closes = true) :
    value = none ∧ ∃ c, text = [c] ∧ (kind, c) ∈ marks := by
  have words : ∀ entry ∈ reservedWords, entry.1.closes = false := by decide
  cases h with
  | mark member => exact ⟨rfl, _, rfl, member⟩
  | reserved member => simp [words _ member] at closes
  | arrow | word | backticks | quotation | block | remarks => cases closes

theorem slashLexeme_behind (text passed cs : List Char) :
    slashLexeme (Cursor.advance {} (text ++ passed)) cs =
      (slashLexeme (Cursor.advance {} passed) cs).mapError (Failure.behind text) := by
  unfold slashLexeme
  split
  next => rfl
  next cs =>
    split
    next => rfl
    next => simp only [Except.mapError, Failure.behind, Cursor.here_behind]
  next => rfl

/-- What is before the source moves a failure and has no other part in what is found, if the same
mark would end a text. -/
theorem lexeme_behind (same : previous'.bind Kind.closer? = previous.bind Kind.closer?)
    (text passed : List Char) :
    lexeme (Cursor.advance {} (text ++ passed)) previous' c cs =
      (lexeme (Cursor.advance {} passed) previous c cs).mapError (Failure.behind text) := by
  have one (p : Cursor) : p.next c = p.advance [c] := rfl
  unfold lexeme
  rw [same]
  split
  · split
    next => rfl
    next => simp only [Except.mapError, Failure.behind, Cursor.here_behind]
  split
  · split
    next => rfl
    next => simp only [Except.mapError, Failure.behind, Cursor.here_behind]
  split
  · rfl
  split
  · split
    next => rfl
    next => simp only [Except.mapError, Failure.behind, one, Cursor.here_behind]
  split
  · rfl
  split
  · exact slashLexeme_behind text passed cs
  split
  · rfl
  split <;> rfl

end Lexemes

namespace Scan

variable {s s' : Scan} {source cs text rest passed : List Char} {c : Char} {found : Lexeme} {n : Nat}
  {tokens before : List Token} {last : Token}

theorem Sound.inRemarks_eq_false (h : s.Sound source) (final : s.tokens.head? = some last)
    (closes : last.kind.closes = true) : s.inRemarks = false := by
  by_contra waits
  obtain ⟨token, tokens, same, continues⟩ := h.continues (by simpa using waits)
  rw [same, List.head?_cons, Option.some.injEq] at final
  rw [← final, continues.kind_eq] at closes
  cases closes

theorem Sound.mark_of_record (h : s.Sound source)
    (ahead : source.drop s.cursor.offset = c :: text ++ rest) (spelled : found.Spelled rest (c :: text))
    (final : (s.record found (c :: text)).tokens.head? = some last)
    (closes : last.kind.closes = true)
    (stop : last.pos.stop = (s.record found (c :: text)).cursor.offset) :
    found = .token last.kind none ∧ text = [] ∧ (last.kind, c) ∈ marks := by
  have beyond : s.tokens.head? ≠ some last := by
    intro earlier
    have bound := h.laid.stop_le last (List.mem_reverse.2 (List.mem_of_head? earlier))
    rw [stop, cursor_record, Cursor.offset_advance, List.length_cons] at bound
    omega
  cases spelled with
  | token written =>
    simp only [Scan.record, List.head?_cons, Option.some.injEq] at final
    subst final
    obtain ⟨rfl, d, one, mark⟩ := written.mark_of_closes closes
    cases one
    exact ⟨rfl, rfl, mark⟩
  | lineComment remark ends =>
    have sound := h.record ahead (.lineComment remark ends)
    have waits := sound.inRemarks_eq_false final closes
    simp [Scan.record] at waits
  | gap | stray => exact absurd final beyond

theorem Sound.lexeme_append_of_last (h : s.Sound source)
    (ahead : source.drop s.cursor.offset = c :: cs)
    (lexed : lexeme s.cursor s.previous c cs = .ok (found, cs.length))
    (final : (s.record found (c :: cs)).tokens.head? = some last)
    (closes : last.kind.closes = true) (stop : last.pos.stop = source.length) (rest : List Char) :
    lexeme s.cursor s.previous c (cs ++ rest) = .ok (found, cs.length) := by
  have spelled : found.Spelled [] (c :: cs) := by simpa using lexeme_spelled lexed
  have whole : source.length = (s.record found (c :: cs)).cursor.offset := by
    have length := congrArg List.length ahead
    rw [List.length_drop, List.length_cons] at length
    rw [cursor_record, Cursor.offset_advance, List.length_cons]
    omega
  obtain ⟨rfl, rfl, mark⟩ :=
    h.mark_of_record (by simpa using ahead) spelled final closes (stop.trans whole)
  exact lexeme_of_closes mark closes

theorem Sound.run_append (h : s.Sound source) (ahead : source.drop s.cursor.offset = cs)
    (run : s.run cs = .ok tokens) (final : tokens.getLast? = some last)
    (closes : last.kind.closes = true) (stop : last.pos.stop = source.length) (rest : List Char) :
    ∃ s' : Scan, s.run (cs ++ rest) = s'.run rest ∧ s'.tokens = tokens.reverse ∧
      s'.inRemarks = false ∧ s'.cursor = s.cursor.advance cs := by
  fun_induction Scan.run s cs with
  | case1 s =>
    cases run
    rw [List.getLast?_reverse] at final
    exact ⟨s, rfl, (List.reverse_reverse _).symm, h.inRemarks_eq_false final closes, rfl⟩
  | case2 => cases run
  | case3 s c cs found n lexed ih =>
    have split : source.drop s.cursor.offset = (c :: cs.take n) ++ cs.drop n := by
      rw [ahead, List.cons_append, List.take_append_drop]
    have sound := h.record split (lexeme_spelled lexed)
    have within := lexeme_le lexed
    have ahead' : source.drop (s.record found (c :: cs.take n)).cursor.offset = cs.drop n := by
      rw [cursor_record, Cursor.offset_advance, ← List.drop_drop, split, List.drop_left]
    obtain ⟨s', reached, all, closed, cursor⟩ := ih sound ahead' run
    -- Only the last lexeme could reach into what follows, and that one is the closing mark.
    have lexed' : lexeme s.cursor s.previous c (cs ++ rest) = .ok (found, n) := by
      rcases Nat.lt_or_eq_of_le within with inside | rfl
      · exact lexeme_append rest lexed inside
      · rw [List.drop_length, run_nil, Except.ok.injEq] at run
        rw [← run, List.getLast?_reverse, List.take_length] at final
        exact h.lexeme_append_of_last ahead lexed final closes stop rest
    refine ⟨s', ?_, all, closed, ?_⟩
    · rw [List.cons_append, run_cons_ok lexed', List.take_append_of_le_length within,
        List.drop_append_of_le_length within, reached]
    · rw [cursor, cursor_record, ← Cursor.advance_append, List.cons_append, List.take_append_drop]

/-- A scan of a source and one of a text with the source behind it, which found the tokens `before` in
the text, where they have passed the same part of the source. -/
structure Behind (s s' : Scan) (text : List Char) (before : List Token) : Prop where
  passed : ∃ passed, s.cursor = Cursor.advance {} passed ∧
    s'.cursor = Cursor.advance {} (text ++ passed)
  tokens : s'.tokens = s.tokens.map (·.behind text) ++ before
  inRemarks : s'.inRemarks = s.inRemarks
  opened : s.inRemarks = true → s.tokens ≠ []
  closed : (before.head?.map Token.kind).bind Kind.closer? = none

namespace Behind

theorem closer?_eq (h : s.Behind s' text before) :
    s'.previous.bind Kind.closer? = s.previous.bind Kind.closer? := by
  rw [previous, previous, h.tokens]
  cases s.tokens with
  | nil => exact h.closed
  | cons token tokens => rfl

theorem lexeme_eq (h : s.Behind s' text before) (c : Char) (cs : List Char) :
    lexeme s'.cursor s'.previous c cs =
      (lexeme s.cursor s.previous c cs).mapError (Failure.behind text) := by
  obtain ⟨passed, cursor, cursor'⟩ := h.passed
  rw [cursor, cursor']
  exact lexeme_behind h.closer?_eq text passed

theorem spanning_eq (h : s.Behind s' text before) (length : Nat) :
    s'.cursor.spanning length = (s.cursor.spanning length).behind text := by
  obtain ⟨passed, cursor, cursor'⟩ := h.passed
  rw [cursor, cursor']
  exact Cursor.spanning_behind text passed length

theorem addRemark_eq (h : s.Behind s' text before) (value : String) (pos : Position) :
    s'.addRemark value (pos.behind text) =
      (s.addRemark value pos).map (·.behind text) ++ before := by
  rw [addRemark, addRemark, h.tokens, h.inRemarks]
  cases open' : s.inRemarks with
  | false => rfl
  | true =>
    -- The comment to be continued is one of the source, not one of the text before it.
    obtain ⟨token, tokens, same⟩ := List.exists_cons_of_ne_nil (h.opened open')
    simp [same, Token.behind, Position.behind_cover]

theorem record (h : s.Behind s' text before) (found : Lexeme) (cs : List Char) :
    (s.record found cs).Behind (s'.record found cs) text before where
  passed := by
    obtain ⟨passed, cursor, cursor'⟩ := h.passed
    refine ⟨passed ++ cs, ?_, ?_⟩
    · rw [cursor_record, cursor, Cursor.advance_append]
    · rw [cursor_record, cursor', ← Cursor.advance_append, List.append_assoc]
  tokens := by
    cases found with
    | token kind value => simp [Scan.record, h.tokens, h.spanning_eq, Token.behind]
    | lineComment value => simp only [Scan.record, h.spanning_eq, h.addRemark_eq]
    | gap | stray => exact h.tokens
  inRemarks := by
    cases found with
    | token | lineComment | stray => rfl
    | gap => exact h.inRemarks
  opened := by
    cases found with
    | token | stray => simp [Scan.record]
    | lineComment value =>
      intro _
      simp only [Scan.record, addRemark]
      split <;> simp
    | gap => exact h.opened
  closed := h.closed

theorem run_eq (h : s.Behind s' text before) (cs : List Char) :
    s'.run cs = ((s.run cs).map fun tokens => before.reverse ++ tokens.map (·.behind text)).mapError
      (Failure.behind text) := by
  fun_induction Scan.run s cs generalizing s' with
  | case1 s => simp [run_nil, h.tokens, Except.map, Except.mapError]
  | case2 s c cs failure failed =>
    have failed' := h.lexeme_eq c cs
    rw [failed] at failed'
    rw [run_cons_error failed']
    rfl
  | case3 s c cs found n lexed ih =>
    have lexed' := h.lexeme_eq c cs
    rw [lexed] at lexed'
    rw [run_cons_ok lexed']
    exact ih (h.record found (c :: cs.take n))

end Behind

end Scan

end Token

open Token

/-- Behind a source that ends with a closing mark another one has the tokens that it has alone, only
further on, or it fails as it fails alone, only further on. -/
theorem tokenize_append {front : String} {tokens : List Token} {last : Token}
    (h : tokenize front = .ok tokens) (final : tokens.getLast? = some last)
    (closes : last.kind.closes = true) (stop : last.pos.stop = front.length) (back : String) :
    tokenize (front ++ back) =
      match tokenize back with
      | .ok tokens' => .ok (tokens ++ tokens'.map (·.behind front.toList))
      | .error failure => .error (failure.behind front.toList) := by
  have start : Scan.Sound {} front.toList := ⟨Nat.zero_le _, .nil, by simp⟩
  have ahead : front.toList.drop (Scan.cursor {}).offset = front.toList := rfl
  obtain ⟨s, reached, found, closed, cursor⟩ :=
    start.run_append ahead h final closes (stop.trans String.length_toList.symm) back.toList
  have previous : (s.tokens.head?.map Token.kind).bind Kind.closer? = none := by
    rw [found, List.head?_reverse, final]
    exact Kind.closer?_of_closes closes
  have behind : Scan.Behind {} s front.toList s.tokens :=
    ⟨⟨[], rfl, by rw [cursor, List.append_nil]⟩, rfl, closed, by simp, previous⟩
  rw [tokenize, String.toList_append, reached, behind.run_eq, found, List.reverse_reverse, ← tokenize]
  cases tokenize back <;> rfl

def bracketed : String := "a;\n(b)"

theorem tokenize_append_bracketed :
    tokenize bracketed = .ok
      [⟨.string, some "a", ⟨0, 1, 1, 1⟩⟩, ⟨.semi, none, ⟨1, 1, 1, 2⟩⟩, ⟨.lParen, none, ⟨3, 1, 2, 1⟩⟩,
       ⟨.string, some "b", ⟨4, 1, 2, 2⟩⟩, ⟨.rParen, none, ⟨5, 1, 2, 3⟩⟩] ∧
    tokenize (bracketed ++ "c)d\ne;f") = .ok
      [⟨.string, some "a", ⟨0, 1, 1, 1⟩⟩, ⟨.semi, none, ⟨1, 1, 1, 2⟩⟩, ⟨.lParen, none, ⟨3, 1, 2, 1⟩⟩,
       ⟨.string, some "b", ⟨4, 1, 2, 2⟩⟩, ⟨.rParen, none, ⟨5, 1, 2, 3⟩⟩,
       ⟨.string, some "c)d\ne", ⟨6, 5, 2, 4⟩⟩, ⟨.semi, none, ⟨11, 1, 3, 2⟩⟩,
       ⟨.string, some "f", ⟨12, 1, 3, 3⟩⟩] ∧
    tokenize (bracketed ++ "c; =") = .error (.unexpectedAssignment ⟨10, 0, 2, 8⟩) := by
  have scanned : tokenize bracketed = .ok
      [⟨.string, some "a", ⟨0, 1, 1, 1⟩⟩, ⟨.semi, none, ⟨1, 1, 1, 2⟩⟩, ⟨.lParen, none, ⟨3, 1, 2, 1⟩⟩,
       ⟨.string, some "b", ⟨4, 1, 2, 2⟩⟩, ⟨.rParen, none, ⟨5, 1, 2, 3⟩⟩] := by cbv
  have behind : tokenize "c)d\ne;f" = .ok
      [⟨.string, some "c)d\ne", ⟨0, 5, 1, 1⟩⟩, ⟨.semi, none, ⟨5, 1, 2, 2⟩⟩,
       ⟨.string, some "f", ⟨6, 1, 2, 3⟩⟩] := by cbv
  have fails : tokenize "c; =" = .error (.unexpectedAssignment ⟨4, 0, 1, 5⟩) := by cbv
  have moved := tokenize_append scanned rfl rfl rfl "c)d\ne;f"
  have moved' := tokenize_append scanned rfl rfl rfl "c; ="
  rw [behind] at moved
  rw [fails] at moved'
  exact ⟨scanned, moved, moved'⟩

end Flowchart
