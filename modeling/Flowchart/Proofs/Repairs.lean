import Flowchart.Proofs.Feed
import Flowchart.Proofs.Seams

/-! Sources that break off. A scan fails where a quotation or a comment is not closed, which it only
knows at the end of the source, and at an equals sign that begins no arrow. What is open can be closed
behind the source: everything before it is scanned as it was, and it becomes the last token. -/
namespace Flowchart

namespace Text

def backslashes (cs : List Char) : Nat := (cs.rtakeWhile (· = '\\')).length

theorem backslashes_le (cs : List Char) : backslashes cs ≤ cs.length :=
  (List.rtakeWhile_suffix _ cs).length_le

theorem backslashes_cons (c : Char) (cs : List Char) :
    backslashes (c :: cs) =
      if backslashes cs = cs.length ∧ c = '\\' then backslashes cs + 1 else backslashes cs := by
  simp only [backslashes, List.rtakeWhile, List.length_reverse, List.reverse_cons,
    List.takeWhile_append]
  by_cases all : (List.takeWhile (· = '\\') cs.reverse).length = cs.length
  · by_cases backslash : c = '\\' <;> simp [all, backslash]
  · simp [all]

theorem backslashes_cons_of_ne {c : Char} (other : c ≠ '\\') (cs : List Char) :
    backslashes (c :: cs) = backslashes cs := by
  rw [backslashes_cons, if_neg fun both => other both.2]

theorem backslashes_escape (e : Char) (cs : List Char) :
    backslashes ('\\' :: e :: cs) % 2 = backslashes cs % 2 := by
  have bound := backslashes_le cs
  rw [backslashes_cons, backslashes_cons, List.length_cons]
  by_cases all : backslashes cs = cs.length ∧ e = '\\'
  · rw [if_pos all, if_pos ⟨by omega, rfl⟩]
    omega
  · rw [if_neg all, if_neg (by omega)]

/-- What is missing behind a text that awaits its delimiter: the delimiter, and before it any one
character if the backslash at the end still has none to protect. -/
inductive Closes (delimiter : Char) (text : List Char) : List Char → Prop where
  | plain : backslashes text % 2 = 0 → Closes delimiter text [delimiter]
  | protecting (c : Char) : backslashes text % 2 = 1 → Closes delimiter text [c, delimiter]

variable {delimiter : Char} {cs closer : List Char}

theorem Closes.length_pos (h : Closes delimiter cs closer) : 0 < closer.length := by
  cases h <;> simp

theorem Closes.of_parity {ds : List Char} (h : Closes delimiter ds closer)
    (same : backslashes ds % 2 = backslashes cs % 2) : Closes delimiter cs closer := by
  cases h with
  | plain even => exact .plain (same ▸ even)
  | protecting c odd => exact .protecting c (same ▸ odd)

end Text

namespace Token

namespace Literal

variable {delimiter : Char} {cs closer : List Char}

theorem closing?_closes (other : delimiter ≠ '\\') (h : closing? delimiter cs = none)
    (closes : Text.Closes delimiter cs closer) :
    closing? delimiter (cs ++ closer) = some (cs.length + closer.length - 1) := by
  fun_induction closing? delimiter cs with
  | case1 =>
    cases closes with
    | plain even => simp [closing?, other]
    | protecting c odd => exact absurd odd (by decide)
  | case2 =>
    cases closes with
    | plain even => exact absurd even (by decide)
    | protecting c odd => simp [closing?, other]
  | case3 e cs ih =>
    have step := ih (Option.map_eq_none_iff.1 h) (closes.of_parity (Text.backslashes_escape e cs))
    have nonempty := closes.length_pos
    rw [List.cons_append, List.cons_append, closing?, if_pos rfl, step]
    simp only [List.length_cons, Option.map_some, Option.some.injEq]
    omega
  | case4 cs escaped => cases h
  | case5 c cs escaped different ih =>
    have step := ih (Option.map_eq_none_iff.1 h)
      (closes.of_parity (congrArg (· % 2) (Text.backslashes_cons_of_ne escaped cs)))
    have nonempty := closes.length_pos
    rw [List.cons_append, closing?.eq_def]
    simp only [escaped, different, if_false, step, List.length_cons, Option.map_some,
      Option.some.injEq]
    omega

theorem commentEnd?_closes (h : commentEnd? cs = none) :
    commentEnd? (cs ++ ['*', '/']) = some cs.length := by
  induction cs with
  | nil => rfl
  | cons c cs ih =>
    rw [commentEnd?] at h
    split at h
    next => cases h
    next inside =>
      have inside' : ¬(c = '*' ∧ (cs ++ ['*', '/']).head? = some '/') := by
        cases cs with
        | nil => simp
        | cons d cs => exact inside
      rw [List.cons_append, commentEnd?, if_neg inside', ih (Option.map_eq_none_iff.1 h)]
      rfl

end Literal

section Lexemes

variable {start : Cursor} {previous : Option Kind} {quote : Char} {cs closer : List Char}

theorem ne_backslash_of_quote (h : Text.isQuote quote = true ∨ Text.isBacktick quote = true) :
    quote ≠ '\\' := by
  rintro rfl
  revert h
  decide

theorem lexeme_quotation (delimits : Text.isQuote quote = true ∨ Text.isBacktick quote = true)
    (unclosed : Literal.closing? quote cs = none) (closes : Text.Closes quote cs closer) :
    ∃ value, lexeme start previous quote (cs ++ closer) =
      .ok (.token .string value, (cs ++ closer).length) := by
  have closed := Literal.closing?_closes (ne_backslash_of_quote delimits) unclosed closes
  have whole : cs.length + closer.length - 1 + 1 = (cs ++ closer).length := by
    have nonempty := closes.length_pos
    rw [List.length_append]
    omega
  unfold lexeme
  by_cases double : Text.isQuote quote = true
  · rw [if_pos double, closed, ← whole]
    exact ⟨_, rfl⟩
  · rw [if_neg double, if_pos (delimits.resolve_left double), closed, ← whole]
    exact ⟨_, rfl⟩

theorem lexeme_comment (unclosed : Literal.commentEnd? cs = none) :
    ∃ value, lexeme start previous '/' ('*' :: cs ++ ['*', '/']) =
      .ok (.token .comment value, ('*' :: cs ++ ['*', '/']).length) := by
  have slash : lexeme start previous '/' ('*' :: cs ++ ['*', '/']) =
      slashLexeme start ('*' :: cs ++ ['*', '/']) := rfl
  have whole : ('*' :: cs ++ ['*', '/']).length = cs.length + 3 := by simp
  rw [slash, whole, List.cons_append, slashLexeme, Literal.commentEnd?_closes unclosed]
  exact ⟨_, rfl⟩

end Lexemes

namespace Scan

variable {s : Scan} {c : Char} {cs : List Char} {failure : Failure} {kind : Kind}
  {value : Option String}

/-- A scan that fails comes to a place where no lexeme stands, and it comes there in the same state
whatever follows the text, because what it passed ends before the text does. -/
theorem exists_breaks_of_run (h : s.run cs = .error failure) :
    ∃ (passed ahead : List Char) (s' : Scan), cs = passed ++ ahead ∧
      s'.cursor = s.cursor.advance passed ∧ Breaks s'.cursor ahead failure ∧
      ∀ more, s.run (cs ++ more) = s'.run (ahead ++ more) := by
  fun_induction Scan.run s cs with
  | case1 => cases h
  | case2 s c cs failure' failed =>
    cases h
    exact ⟨[], c :: cs, s, rfl, rfl, lexeme_breaks failed, fun more => rfl⟩
  | case3 s c cs found n lexed ih =>
    obtain ⟨passed, ahead, s', split, cursor, breaks, runs⟩ := ih h
    have inside : n < cs.length := by
      have length := congrArg List.length split
      have nonempty : 0 < ahead.length := by cases breaks <;> simp
      rw [List.length_drop, List.length_append] at length
      omega
    refine ⟨c :: cs.take n ++ passed, ahead, s', ?_, ?_, breaks, fun more => ?_⟩
    · rw [List.append_assoc, ← split, List.cons_append, List.take_append_drop]
    · rw [cursor, cursor_record, ← Cursor.advance_append]
    · rw [List.cons_append, run_cons_ok (lexeme_append more lexed inside),
        List.take_append_of_le_length inside.le, List.drop_append_of_le_length inside.le, runs]

theorem run_of_lexeme_whole
    (h : lexeme s.cursor s.previous c cs = .ok (.token kind value, cs.length)) :
    s.run (c :: cs) =
      .ok (s.tokens.reverse ++ [⟨kind, value, s.cursor.spanning (cs.length + 1)⟩]) := by
  rw [run_cons_ok h, List.drop_length, run_nil, List.take_length, record, List.length_cons,
    List.reverse_cons]

end Scan

end Token

open Token

/-- The last token of the source is of the kind, begins at the offset and goes to the end of the
source. -/
def EndsWith (source : String) (kind : Kind) (offset : Nat) : Prop :=
  ∃ tokens last, tokenize source = .ok (tokens ++ [last]) ∧ last.kind = kind ∧
    last.pos.offset = offset ∧ last.pos.stop = source.length

theorem exists_breaks_of_tokenize {source : String} {failure : Failure}
    (h : tokenize source = .error failure) :
    ∃ (front : String) (ahead : List Char) (s : Scan), source = front ++ String.ofList ahead ∧
      s.cursor.offset = front.length ∧ Breaks s.cursor ahead failure ∧
      ∀ more : String, tokenize (source ++ more) = s.run (ahead ++ more.toList) := by
  obtain ⟨passed, ahead, s, split, cursor, breaks, runs⟩ := Scan.exists_breaks_of_run h
  refine ⟨String.ofList passed, ahead, s, ?_, ?_, breaks, fun more => ?_⟩
  · rw [← String.ofList_append, ← split, String.ofList_toList]
  · simp [cursor, Cursor.offset_advance, ← String.length_toList]
  · rw [tokenize, String.toList_append, runs]

section Open

variable {source front closer : String} {s : Scan} {c quote : Char} {cs : List Char} {kind : Kind}
  {value : Option String} {pos : Position}

theorem here_eq_end (split : source = front ++ String.ofList cs)
    (offset : s.cursor.offset = front.length) :
    (s.cursor.advance cs).here.offset = source.length ∧ (s.cursor.advance cs).here.length = 0 := by
  refine ⟨?_, rfl⟩
  rw [Cursor.here, Cursor.spanning, Cursor.offset_advance, offset, split, String.length_append,
    String.length_ofList]

theorem endsWith_of_lexeme (split : source = front ++ String.ofList (c :: cs))
    (offset : s.cursor.offset = front.length)
    (runs : tokenize (source ++ closer) = s.run (c :: cs ++ closer.toList))
    (lexed : lexeme s.cursor s.previous c (cs ++ closer.toList) =
      .ok (.token kind value, (cs ++ closer.toList).length)) :
    EndsWith (source ++ closer) kind front.length := by
  rw [List.cons_append, Scan.run_of_lexeme_whole lexed] at runs
  refine ⟨_, _, runs, rfl, offset, ?_⟩
  simp only [Position.stop, Cursor.spanning, offset, split, String.length_append,
    String.length_ofList, List.length_append, List.length_cons, String.length_toList]
  omega

theorem unterminatedString_repair (h : tokenize source = .error (.unterminatedString quote pos)) :
    pos.offset = source.length ∧ pos.length = 0 ∧
      ∃ front text : String, source = front ++ (String.singleton quote ++ text) ∧
        ∀ closer : String, Text.Closes quote text.toList closer.toList →
          EndsWith (source ++ closer) .string front.length := by
  obtain ⟨front, ahead, s, split, offset, breaks, runs⟩ := exists_breaks_of_tokenize h
  cases breaks with
  | @quotation _ cs delimits unclosed =>
    obtain ⟨atEnd, empty⟩ := here_eq_end split offset
    refine ⟨atEnd, empty, front, String.ofList cs, ?_, fun closer closes => ?_⟩
    · rw [split, String.singleton_eq_ofList, ← String.ofList_append, List.singleton_append]
    · rw [String.toList_ofList] at closes
      obtain ⟨value, lexed⟩ := lexeme_quotation delimits unclosed closes
      exact endsWith_of_lexeme split offset (runs closer) lexed

theorem unterminatedComment_repair (h : tokenize source = .error (.unterminatedComment pos)) :
    pos.offset = source.length ∧ pos.length = 0 ∧
      ∃ front text : String, source = front ++ ("/*" ++ text) ∧
        EndsWith (source ++ "*/") .comment front.length := by
  obtain ⟨front, ahead, s, split, offset, breaks, runs⟩ := exists_breaks_of_tokenize h
  cases breaks with
  | @comment cs unclosed =>
    obtain ⟨atEnd, empty⟩ := here_eq_end split offset
    obtain ⟨value, lexed⟩ := lexeme_comment unclosed
    refine ⟨atEnd, empty, front, String.ofList cs, ?_, ?_⟩
    · rw [split, ← String.toList_inj]
      simp
    · exact endsWith_of_lexeme split offset (runs "*/") lexed

theorem unexpectedAssignment_neighbours
    (h : tokenize source = .error (.unexpectedAssignment pos)) :
    0 < pos.offset ∧ source.toList[pos.offset - 1]? = some '=' ∧
      source.toList[pos.offset]? ≠ some '>' := by
  obtain ⟨front, ahead, s, split, offset, breaks, -⟩ := exists_breaks_of_tokenize h
  cases breaks with
  | @assignment cs other =>
    have points : (s.cursor.next '=').here.offset = front.toList.length + 1 := by
      rw [Cursor.here, Cursor.spanning, Cursor.offset_next, offset, String.length_toList]
    have spelled : source.toList = front.toList ++ '=' :: cs := by
      rw [split, String.toList_append, String.toList_ofList]
    rw [points, spelled, Nat.add_sub_cancel]
    refine ⟨Nat.succ_pos _, by simp, ?_⟩
    rwa [List.getElem?_append_right (Nat.le_add_right _ 1), Nat.add_sub_cancel_left,
      List.getElem?_cons_succ, ← List.head?_eq_getElem?]

end Open

/-- Taking a character fails at the end of the source, and so does asking for a partner that is
missing; a scan that may fail in these ways finds what the scan finds, and neither of them fails so.
What is reported as open is open to the end of the source, and the missing closer put behind the
source makes it the last token. An equals sign is refused where no arrow is, and the failure points
behind it. -/
theorem tokenize_failure_repair (source : String) :
    (∀ f : Feed, f.ahead = [] → f.consume = .error (.endOfInput f.cursor.here)) ∧
    (∀ kind : Kind, kind.partner? = none → kind.partner = .error (.notABracket kind)) ∧
    feed source = tokenize source ∧
    (∀ pos, feed source ≠ .error (.endOfInput pos)) ∧
    (∀ kind, feed source ≠ .error (.notABracket kind)) ∧
    (∀ pos, tokenize source ≠ .error (.endOfInput pos)) ∧
    (∀ kind, tokenize source ≠ .error (.notABracket kind)) ∧
    (∀ kind : Kind, kind.opens = true → ∃ c, kind.partner = .ok c ∧ kind.closer? = some c) ∧
    (∀ quote pos, tokenize source = .error (.unterminatedString quote pos) →
      pos.offset = source.length ∧ pos.length = 0 ∧
      ∃ front text : String, source = front ++ (String.singleton quote ++ text) ∧
        ∀ closer : String, Text.Closes quote text.toList closer.toList →
          EndsWith (source ++ closer) .string front.length) ∧
    (∀ pos, tokenize source = .error (.unterminatedComment pos) →
      pos.offset = source.length ∧ pos.length = 0 ∧
      ∃ front text : String, source = front ++ ("/*" ++ text) ∧
        EndsWith (source ++ "*/") .comment front.length) ∧
    (∀ pos, tokenize source = .error (.unexpectedAssignment pos) →
      0 < pos.offset ∧ source.toList[pos.offset - 1]? = some '=' ∧
      source.toList[pos.offset]? ≠ some '>') := by
  have noEnd (pos : Position) : tokenize source ≠ .error (.endOfInput pos) := by
    intro h
    obtain ⟨front, ahead, s, -, -, breaks, -⟩ := exists_breaks_of_tokenize h
    cases breaks
  have noBracket (kind : Kind) : tokenize source ≠ .error (.notABracket kind) := by
    intro h
    obtain ⟨front, ahead, s, -, -, breaks, -⟩ := exists_breaks_of_tokenize h
    cases breaks
  have same := feed_eq_tokenize source
  refine ⟨fun f => Feed.consume_nil, fun kind alone => by rw [Kind.partner, alone], same,
    same ▸ noEnd, same ▸ noBracket, noEnd, noBracket, fun kind => Kind.partner_of_opens,
    fun quote pos => unterminatedString_repair, fun pos => unterminatedComment_repair,
    fun pos => unexpectedAssignment_neighbours⟩

theorem tokenize_failure_repair_brokenOff :
    feed "a; 'b\\" = .error (.unterminatedString '\x27' ⟨6, 0, 1, 7⟩) ∧
    tokenize "a; 'b\\" = .error (.unterminatedString '\x27' ⟨6, 0, 1, 7⟩) ∧
    EndsWith ("a; 'b\\" ++ "c'") .string 3 ∧
    tokenize "if /* b\n*" = .error (.unterminatedComment ⟨9, 0, 2, 2⟩) ∧
    EndsWith ("if /* b\n*" ++ "*/") .comment 3 ∧
    tokenize "(a) = >" = .error (.unexpectedAssignment ⟨5, 0, 1, 6⟩) ∧
    "(a) = >".toList[4]? = some '=' ∧ "(a) = >".toList[5]? ≠ some '>' := by
  have quotation : tokenize "a; 'b\\" = .error (.unterminatedString '\x27' ⟨6, 0, 1, 7⟩) := by cbv
  have comment : tokenize "if /* b\n*" = .error (.unterminatedComment ⟨9, 0, 2, 2⟩) := by cbv
  have assignment : tokenize "(a) = >" = .error (.unexpectedAssignment ⟨5, 0, 1, 6⟩) := by cbv
  obtain ⟨-, -, same, -, -, -, -, -, strings, -, -⟩ := tokenize_failure_repair "a; 'b\\"
  obtain ⟨-, -, front, text, split, repaired⟩ := strings _ _ quotation
  have parts : front.toList = ['a', ';', ' '] ∧ text.toList = ['b', '\\'] := by
    simpa [List.cons_eq_append_iff] using congrArg String.toList split
  obtain ⟨-, -, -, -, -, -, -, -, -, comments, -⟩ := tokenize_failure_repair "if /* b\n*"
  obtain ⟨-, -, front', text', split', repaired'⟩ := comments _ comment
  have parts' : front'.toList = ['i', 'f', ' '] ∧ text'.toList = [' ', 'b', '\n', '*'] := by
    simpa [List.cons_eq_append_iff] using congrArg String.toList split'
  obtain ⟨-, -, -, -, -, -, -, -, -, -, assignments⟩ := tokenize_failure_repair "(a) = >"
  rw [parts.2, ← String.length_toList, parts.1] at repaired
  rw [← String.length_toList, parts'.1] at repaired'
  exact ⟨same.trans quotation, quotation, repaired "c'" (.protecting 'c' (by decide)), comment,
    repaired', assignment, (assignments _ assignment).2⟩

end Flowchart
