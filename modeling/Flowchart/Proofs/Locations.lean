import Flowchart.Token.Scan

/-! Where a scan says it is. A cursor counts lines and columns one character at a time; it is true to
the source if counting from the start leads there. The cursor of a scan stays true, so every token
is located where it begins, and a failure points to a place of the source too. -/
namespace Flowchart

/-- Counting from the start of the source leads to where the stretch begins, and the stretch does not
leave the source. -/
structure Position.Located (pos : Position) (source : List Char) : Prop where
  start_eq : Cursor.advance {} (source.take pos.offset) = ⟨pos.offset, pos.line, pos.column⟩
  stop_le : pos.stop ≤ source.length

namespace Position.Located

variable {pos pos' : Position} {p : Cursor} {source text rest : List Char}

theorem cover (h : pos.Located source) (h' : pos'.Located source) :
    (pos.cover pos').Located source where
  start_eq := h.start_eq
  stop_le := by
    rw [stop_cover]
    exact Nat.max_le.2 ⟨h.stop_le, h'.stop_le⟩

theorem spanning (h : p.here.Located source) (ahead : source.drop p.offset = text ++ rest) :
    (p.spanning text.length).Located source where
  start_eq := h.start_eq
  stop_le := by
    have inside : p.offset ≤ source.length := h.stop_le
    have length := congrArg List.length ahead
    rw [List.length_drop, List.length_append] at length
    change p.offset + text.length ≤ source.length
    omega

theorem advance (h : p.here.Located source) (ahead : source.drop p.offset = text ++ rest) :
    (p.advance text).here.Located source where
  start_eq := by
    have start : Cursor.advance {} (source.take p.offset) = p := h.start_eq
    have passed : source.take (p.advance text).offset = source.take p.offset ++ text := by
      rw [Cursor.offset_advance, List.take_add, ahead, List.take_left]
    calc Cursor.advance {} (source.take (p.advance text).offset)
      _ = (Cursor.advance {} (source.take p.offset)).advance text := by
        rw [passed, Cursor.advance_append]
      _ = p.advance text := by rw [start]
  stop_le := by
    have spanned := (h.spanning ahead).stop_le
    simpa [Cursor.here, Cursor.spanning, stop] using spanned

end Position.Located

namespace Token

variable {source text rest : List Char}

/-- The three ways in which no lexeme stands at the head of a text. -/
inductive Breaks (start : Cursor) : List Char → Failure → Prop where
  | quotation {quote : Char} {cs : List Char} :
      Text.isQuote quote = true ∨ Text.isBacktick quote = true →
      Literal.closing? quote cs = none →
      Breaks start (quote :: cs) (.unterminatedString quote (start.advance (quote :: cs)).here)
  | comment {cs : List Char} :
      Literal.commentEnd? cs = none →
      Breaks start ('/' :: '*' :: cs)
        (.unterminatedComment (start.advance ('/' :: '*' :: cs)).here)
  | assignment {cs : List Char} :
      cs.head? ≠ some '>' →
      Breaks start ('=' :: cs) (.unexpectedAssignment (start.next '=').here)

section Lexemes

variable {start : Cursor} {previous : Option Kind} {c : Char} {cs : List Char} {failure : Failure}

theorem slashLexeme_breaks (h : slashLexeme start cs = .error failure) :
    Breaks start ('/' :: cs) failure := by
  unfold slashLexeme at h
  split at h
  next => cases h
  next cs =>
    split at h
    next => cases h
    next unclosed =>
      cases h
      exact .comment unclosed
  next => cases h

theorem lexeme_breaks (h : lexeme start previous c cs = .error failure) :
    Breaks start (c :: cs) failure := by
  unfold lexeme at h
  split at h
  next quote =>
    split at h
    next => cases h
    next unclosed =>
      cases h
      exact .quotation (.inl quote) unclosed
  split at h
  next backtick =>
    split at h
    next => cases h
    next unclosed =>
      cases h
      exact .quotation (.inr backtick) unclosed
  split at h
  · cases h
  split at h
  next equals =>
    subst equals
    split at h
    next => cases h
    next other =>
      cases h
      exact .assignment other
  split at h
  · cases h
  split at h
  next slash =>
    subst slash
    exact slashLexeme_breaks h
  split at h
  · cases h
  split at h <;> cases h

theorem Breaks.exists_advance (h : Breaks start cs failure) :
    ∃ text rest, cs = text ++ rest ∧ failure.position? = some (start.advance text).here := by
  cases h with
  | quotation | comment => exact ⟨_, [], (List.append_nil _).symm, rfl⟩
  | @assignment cs => exact ⟨['='], cs, rfl, rfl⟩

end Lexemes

namespace Scan

structure Located (s : Scan) (source : List Char) : Prop where
  cursor : s.cursor.here.Located source
  tokens : ∀ token ∈ s.tokens, token.pos.Located source

variable {s : Scan} {found : Lexeme}

theorem Located.record (h : s.Located source) (ahead : source.drop s.cursor.offset = text ++ rest) :
    (s.record found text).Located source := by
  have spanned := h.cursor.spanning ahead
  refine ⟨by simpa using h.cursor.advance ahead, ?_⟩
  cases found with
  | token kind value => exact List.forall_mem_cons.2 ⟨spanned, h.tokens⟩
  | lineComment value =>
    simp only [Scan.record, addRemark]
    split
    next merging last =>
      obtain ⟨first, others⟩ := List.forall_mem_cons.1 (last ▸ h.tokens)
      exact List.forall_mem_cons.2 ⟨first.cover spanned, others⟩
    next => exact List.forall_mem_cons.2 ⟨spanned, h.tokens⟩
  | gap | stray => exact h.tokens

theorem Located.run {cs : List Char} (h : s.Located source)
    (ahead : source.drop s.cursor.offset = cs) :
    (∀ tokens, s.run cs = .ok tokens → ∀ token ∈ tokens, token.pos.Located source) ∧
      ∀ failure, s.run cs = .error failure →
        ∃ pos, failure.position? = some pos ∧ pos.Located source := by
  fun_induction Scan.run s cs with
  | case1 s =>
    refine ⟨?_, by simp⟩
    rintro tokens ⟨⟩ token member
    exact h.tokens token (List.mem_reverse.1 member)
  | case2 s c cs failure failed =>
    refine ⟨by simp, ?_⟩
    rintro failure ⟨⟩
    obtain ⟨text, rest, split, points⟩ := (lexeme_breaks failed).exists_advance
    exact ⟨_, points, h.cursor.advance (ahead.trans split)⟩
  | case3 s c cs found n lexed ih =>
    have split : source.drop s.cursor.offset = (c :: cs.take n) ++ cs.drop n := by
      rw [ahead, List.cons_append, List.take_append_drop]
    refine ih (h.record split) ?_
    rw [cursor_record, Cursor.offset_advance, ← List.drop_drop, split, List.drop_left]

end Scan

end Token

theorem located_start (source : List Char) : Token.Scan.Located {} source :=
  ⟨⟨rfl, Nat.zero_le _⟩, by simp⟩

theorem located_of_tokenize {source : String} {tokens : List Token}
    (h : tokenize source = .ok tokens) : ∀ token ∈ tokens, token.pos.Located source.toList :=
  ((located_start source.toList).run rfl).1 tokens h

theorem located_of_tokenize_error {source : String} {failure : Failure}
    (h : tokenize source = .error failure) :
    ∃ pos, failure.position? = some pos ∧ pos.Located source.toList :=
  ((located_start source.toList).run rfl).2 failure h

end Flowchart
