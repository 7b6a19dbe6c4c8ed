import Flowchart.Proofs.Locations
import Flowchart.Proofs.Spans

/-! What line and column say. A cursor counts one character at a time; where it comes to can be read
off the text it has passed: its line from the newlines there, its column from what stands behind the
last of them. So the position of every token tells how much text of which lines is before it, also
where tokens run over several lines and where line comments became one token. -/
namespace Flowchart

/-- What stands behind the last newline, which is everything if there is none. -/
def Text.lastLine (cs : List Char) : List Char := cs.rtakeWhile (· ≠ '\n')

theorem Text.lastLine_append (cs ds : List Char) :
    lastLine (cs ++ ds) = if '\n' ∈ ds then lastLine ds else lastLine cs ++ ds := by
  induction ds using List.reverseRecOn with
  | nil => simp
  | append_singleton ds d ih =>
    rw [← List.append_assoc, lastLine, lastLine, List.rtakeWhile_concat, List.rtakeWhile_concat]
    by_cases newline : d = '\n'
    · simp [newline]
    · simp only [ne_eq, newline, not_false_eq_true, decide_true, if_true, List.mem_append,
        List.mem_singleton, Ne.symm newline, or_false]
      rw [← lastLine, ← lastLine, ih]
      split
      · rfl
      · rw [List.append_assoc]

theorem Cursor.advance_start (cs : List Char) :
    Cursor.advance {} cs = ⟨cs.length, 1 + cs.count '\n', 1 + (Text.lastLine cs).length⟩ := by
  induction cs using List.reverseRecOn with
  | nil => rfl
  | append_singleton cs c ih =>
    rw [advance_append, ih, advance_cons, advance_nil, next, Text.lastLine_append]
    by_cases newline : c = '\n'
    · simp [newline, Text.lastLine, Nat.add_assoc]
    · simp [newline, Ne.symm newline, Nat.add_assoc]

theorem Position.Located.line_column_eq {pos : Position} {source : List Char}
    (h : pos.Located source) :
    pos.line = 1 + (source.take pos.offset).count '\n' ∧
      pos.column = 1 + (Text.lastLine (source.take pos.offset)).length := by
  have start := h.start_eq
  rw [Cursor.advance_start, Cursor.mk.injEq] at start
  exact ⟨start.2.1.symm, start.2.2.symm⟩

/-- The position of a token is true: the newlines before it are those of the lines before its own, and
as many characters stand before it in its line as its column says. -/
theorem tokenize_positions {source : String} {tokens : List Token}
    (h : tokenize source = .ok tokens) : ∀ token ∈ tokens,
      token.pos.stop ≤ source.length ∧
      token.pos.line = 1 + (source.toList.take token.pos.offset).count '\n' ∧
      token.pos.column = 1 + (Text.lastLine (source.toList.take token.pos.offset)).length := by
  intro token member
  have located := located_of_tokenize h token member
  exact ⟨located.stop_le, located.line_column_eq⟩

/-- A text over two lines, line comments that become one token, and a letter of two bytes before a
mark. -/
def scattered : String := "\x22a\nb\x22; // c\r\n\t// d\n é;"

theorem tokenize_positions_scattered :
    ∃ tokens, tokenize scattered = .ok tokens ∧
      tokens.map Token.pos = [⟨0, 5, 1, 1⟩, ⟨5, 1, 2, 3⟩, ⟨7, 11, 2, 5⟩, ⟨21, 1, 4, 3⟩] ∧
      ∀ token ∈ tokens, token.pos.stop ≤ scattered.length ∧
        token.pos.line = 1 + (scattered.toList.take token.pos.offset).count '\n' ∧
        token.pos.column =
          1 + (Text.lastLine (scattered.toList.take token.pos.offset)).length := by
  have scanned : tokenize scattered = .ok
      [⟨.string, some "a\nb", ⟨0, 5, 1, 1⟩⟩, ⟨.semi, none, ⟨5, 1, 2, 3⟩⟩,
       ⟨.comment, some "c\nd", ⟨7, 11, 2, 5⟩⟩, ⟨.semi, none, ⟨21, 1, 4, 3⟩⟩] := by cbv
  exact ⟨_, scanned, rfl, tokenize_positions scanned⟩

end Flowchart
