import Flowchart.Proofs.Lexing

/-! Scanning one character at a time. Beside the scan, which finds how far a lexeme goes before it
passes it, the same tokens can be found by functions that look at the next character or two and take
one at a time. Taking a character fails where none is left, and so does asking a mark for its partner
where it has none. Neither happens: each function looks before it takes, and from every place it finds
what the scan finds there. -/
namespace Flowchart

theorem Kind.partner_of_opens {kind : Kind} (h : kind.opens = true) :
    ∃ c, kind.partner = .ok c ∧ kind.closer? = some c := by
  cases kind with
  | lParen | lBracket | lBrace | forwardSlash | backwardSlash => exact ⟨_, rfl, rfl⟩
  | _ => cases h

namespace Token

/-- A scan with the characters that lie ahead of it and those that it collects for a value. -/
structure Feed extends Scan where
  ahead : List Char
  buffer : Text.Buffer := .empty

namespace Feed

abbrev Later (f : Feed) := { next : Feed // next.ahead.length < f.ahead.length }

def peek (f : Feed) : Text.Peek := f.ahead.head?

def peekAt (f : Feed) (n : Nat) : Text.Peek := f.ahead[n]?

/-- Takes the next character. There must be one. -/
def consume (f : Feed) : Except Failure (Char × f.Later) :=
  match h : f.ahead with
  | [] => .error (.endOfInput f.cursor.here)
  | c :: cs => .ok (c, ⟨{ f with cursor := f.cursor.next c, ahead := cs }, by simp [h]⟩)

def collect (f : Feed) (c : Char) : Feed := { f with buffer := f.buffer.push c }

def clear (f : Feed) : Feed := { f with buffer := .empty }

def spanFrom (f : Feed) (start : Cursor) : Position :=
  start.spanning (f.cursor.offset - start.offset)

def emit (f : Feed) (start : Cursor) (kind : Kind) (value : Option String) : Feed :=
  { f with tokens := ⟨kind, value, f.spanFrom start⟩ :: f.tokens, inRemarks := false }

def emitCollected (f : Feed) (start : Cursor) (kind : Kind) : Feed :=
  let (text, buffer) := f.buffer.take
  { f.emit start kind text with buffer }

def emitRemark (f : Feed) (start : Cursor) (text : String) : Feed :=
  { f with tokens := f.addRemark text (f.spanFrom start), inRemarks := true }

def mark (f : Feed) (kind : Kind) : Except Failure Feed := do
  let (_, next) ← f.consume
  return next.val.emit f.cursor kind none

/-- What a quotation keeps of its delimiter and of backslashes that protect. -/
def keep (f : Feed) (verbatim : Bool) (c : Char) : Feed := if verbatim then f.collect c else f

@[simp] theorem ahead_collect (f : Feed) (c : Char) : (f.collect c).ahead = f.ahead := rfl

@[simp] theorem ahead_keep (f : Feed) (verbatim : Bool) (c : Char) :
    (f.keep verbatim c).ahead = f.ahead := by
  cases verbatim <;> rfl

def quotation (delimiter : Char) (verbatim : Bool) (f : Feed) : Except Failure Feed := do
  if f.peek = none then throw (.unterminatedString delimiter f.cursor.here)
  else
    let (c, next) ← f.consume
    if c = '\\' then
      let kept := next.val.keep verbatim c
      if kept.peek = none then throw (.unterminatedString delimiter kept.cursor.here)
      else
        let (escaped, last) ← kept.consume
        quotation delimiter verbatim (last.val.collect escaped)
    else if c = delimiter then return next.val.keep verbatim c
    else quotation delimiter verbatim (next.val.collect c)
termination_by f.ahead.length
decreasing_by
  · have kept : (next.val.keep verbatim c).ahead.length = next.val.ahead.length :=
      congrArg List.length (ahead_keep _ _ _)
    exact Nat.lt_trans (Nat.lt_of_lt_of_eq last.property kept) next.property
  · exact next.property

def quoted (f : Feed) (delimiter : Char) (verbatim : Bool) : Except Failure Feed := do
  let (opener, next) ← f.consume
  let read ← quotation delimiter verbatim (next.val.keep verbatim opener)
  return read.emitCollected f.cursor .string

/-- The mark at which an unquoted text ends, if the last token opens a pair. -/
def closingBracket (f : Feed) : Except Failure (Option Char) :=
  match f.tokens.head? with
  | some token => if token.kind.opens then token.kind.partner.map some else .ok none
  | none => .ok none

def wordRest (start : Cursor) (closer : Option Char) (f : Feed) : Except Failure Feed := do
  if f.peek = none ∨ f.peek = some ';' ∨ f.peek = closer then
    return f.emitCollected start .string
  else
    let (c, next) ← f.consume
    let seen := next.val.collect c
    match Kind.reserved? seen.buffer.text with
    | some kind =>
      if kind.endsBefore seen.peek then return seen.emit start kind none
      else wordRest start closer seen
    | none => wordRest start closer seen
termination_by f.ahead.length
decreasing_by
  · exact next.property
  · exact next.property

def word (f : Feed) : Except Failure Feed := do
  let closer ← f.closingBracket
  let (first, next) ← f.consume
  wordRest f.cursor closer (next.val.collect first)

def arrow (f : Feed) : Except Failure Feed := do
  let (_, next) ← f.consume
  if next.val.peek = some '>' then
    let (_, last) ← next.val.consume
    return last.val.emit f.cursor .arrow none
  else throw (.unexpectedAssignment next.val.cursor.here)

def skipBlanks (f : Feed) : Except Failure Feed := do
  if f.peek.any Text.isBlank then
    let (_, next) ← f.consume
    skipBlanks next.val
  else return f
termination_by f.ahead.length
decreasing_by exact next.property

def collectLine (f : Feed) : Except Failure Feed := do
  if f.peek.any Text.isNewline ∨ f.peek = none then return f
  else
    let (c, next) ← f.consume
    collectLine (next.val.collect c)
termination_by f.ahead.length
decreasing_by exact next.property

/-- A carriage return before the line end does not belong to the comment. -/
def lineComment (start : Cursor) (f : Feed) : Except Failure Feed := do
  let line ← (← f.skipBlanks).collectLine
  let (text, buffer) := line.buffer.take
  let value := if text.toList.getLast? = some '\r' then text.toList.dropLast else text.toList
  return { line.emitRemark start (String.ofList value) with buffer }

def blockComment (start : Cursor) (f : Feed) : Except Failure Feed := do
  if f.peek = none then throw (.unterminatedComment f.cursor.here)
  else if f.peek = some '*' ∧ f.peekAt 1 = some '/' then
    let (_, next) ← f.consume
    let (_, last) ← next.val.consume
    return last.val.emitCollected start .comment
  else
    let (c, next) ← f.consume
    blockComment start (next.val.collect c)
termination_by f.ahead.length
decreasing_by exact next.property

def slash (f : Feed) : Except Failure Feed := do
  if f.peekAt 1 = some '/' then
    let (_, next) ← f.consume
    let (_, last) ← next.val.consume
    last.val.lineComment f.cursor
  else if f.peekAt 1 = some '*' then
    let (_, next) ← f.consume
    let (_, last) ← next.val.consume
    last.val.blockComment f.cursor
  else f.mark .forwardSlash

def skip (f : Feed) : Except Failure Feed := do
  let (c, next) ← f.consume
  return if Text.isGap c then next.val else { next.val with inRemarks := false }

/-- Reads what begins with the character, which is the next one. -/
def dispatch (f : Feed) (c : Char) : Except Failure Feed :=
  if Text.isQuote c then f.quoted c false
  else if Text.isBacktick c then f.quoted c true
  else if c.isAlphanum then f.word
  else if c = '=' then f.arrow
  else if c = ';' then f.mark .semi
  else if c = '/' then f.slash
  else if c = '\\' then f.mark .backwardSlash
  else
    match Kind.ofBracket? c with
    | some kind => f.mark kind
    | none => f.skip

section Moves

variable {f : Feed} {c : Char} {cs : List Char}

/-- Passes `n` characters and collects the ones that are kept. -/
def move (f : Feed) (n : Nat) (kept : List Char) : Feed :=
  { f with
    cursor := f.cursor.advance (f.ahead.take n)
    ahead := f.ahead.drop n
    buffer := kept.foldl Text.Buffer.push f.buffer }

@[simp] theorem ahead_move (f : Feed) (n : Nat) (kept : List Char) :
    (f.move n kept).ahead = f.ahead.drop n := rfl

@[simp] theorem cursor_move (f : Feed) (n : Nat) (kept : List Char) :
    (f.move n kept).cursor = f.cursor.advance (f.ahead.take n) := rfl

theorem collect_move (f : Feed) (n : Nat) (kept : List Char) (c : Char) :
    (f.move n kept).collect c = f.move n (kept ++ [c]) := by
  simp [collect, move]

theorem keep_move (f : Feed) (n : Nat) (kept : List Char) (verbatim : Bool) (c : Char) :
    (f.move n kept).keep verbatim c = f.move n (kept ++ if verbatim then [c] else []) := by
  cases verbatim
  · simp [keep]
  · exact collect_move f n kept c

theorem move_move (f : Feed) (m n : Nat) (kept kept' : List Char) :
    (f.move m kept).move n kept' = f.move (m + n) (kept ++ kept') := by
  simp [move, List.take_add, Cursor.advance_append]

theorem move_zero (f : Feed) : f.move 0 [] = f := rfl

theorem consume_nil (h : f.ahead = []) : f.consume = .error (.endOfInput f.cursor.here) := by
  obtain ⟨s, ahead, buffer⟩ := f
  cases h
  rfl

theorem ahead_move_one (h : f.ahead = c :: cs) (kept : List Char) : (f.move 1 kept).ahead = cs := by
  simp [h]

theorem ahead_move_two {d : Char} (h : f.ahead = c :: d :: cs) (kept : List Char) :
    (f.move 2 kept).ahead = cs := by
  simp [h]

theorem length_move_one_lt (h : f.ahead = c :: cs) :
    (f.move 1 []).ahead.length < f.ahead.length := by
  simp [h]

theorem consume_bind {α : Type} (h : f.ahead = c :: cs)
    (k : Char × f.Later → Except Failure α) :
    (f.consume >>= k) = k (c, ⟨f.move 1 [], length_move_one_lt h⟩) := by
  obtain ⟨s, ahead, buffer⟩ := f
  cases h
  rfl

theorem consume_twice {α : Type} {d : Char} (h : f.ahead = c :: d :: cs)
    (k : Feed → Except Failure α) :
    (do
      let (_, next) ← f.consume
      let (_, last) ← next.val.consume
      k last.val) = k (f.move 2 []) := by
  rw [consume_bind h]
  dsimp only
  rw [consume_bind (ahead_move_one h _)]
  dsimp only
  rw [move_move]
  rfl

theorem mark_eq (h : f.ahead = c :: cs) (kind : Kind) :
    f.mark kind = .ok ((f.move 1 []).emit f.cursor kind none) :=
  consume_bind h _

def body (verbatim : Bool) (cs : List Char) (n : Nat) : List Char :=
  if verbatim then cs.take (n + 1) else Literal.unescape (cs.take n)

theorem body_zero (verbatim : Bool) (c : Char) (cs : List Char) :
    body verbatim (c :: cs) 0 = if verbatim then [c] else [] := by
  cases verbatim <;> rfl

theorem body_cons (verbatim : Bool) (other : c ≠ '\\') (cs : List Char) (n : Nat) :
    body verbatim (c :: cs) (n + 1) = c :: body verbatim cs n := by
  cases verbatim
  · exact Literal.unescape_cons_of_ne other _
  · rfl

theorem body_escape (verbatim : Bool) (e : Char) (cs : List Char) (n : Nat) :
    body verbatim ('\\' :: e :: cs) (n + 2) =
      (if verbatim then ['\\'] else []) ++ e :: body verbatim cs n := by
  cases verbatim <;> rfl

theorem quotation_eq {delimiter : Char} {verbatim : Bool} (h : f.ahead = cs) :
    quotation delimiter verbatim f =
      match Literal.closing? delimiter cs with
      | some n => .ok (f.move (n + 1) (body verbatim cs n))
      | none => .error (.unterminatedString delimiter (f.cursor.advance cs).here) := by
  fun_induction Literal.closing? delimiter cs generalizing f with
  | case1 =>
    rw [quotation, if_pos (by simp [peek, h])]
    rfl
  | case2 =>
    rw [quotation, if_neg (by simp [peek, h]), consume_bind h]
    dsimp only
    rw [if_pos rfl, keep_move, if_pos (by simp [peek, h]), cursor_move, h]
    rfl
  | case3 e cs ih =>
    rw [quotation, if_neg (by simp [peek, h]), consume_bind h]
    dsimp only
    rw [if_pos rfl, keep_move, if_neg (by simp [peek, h]), consume_bind (ahead_move_one h _)]
    dsimp only
    rw [move_move, collect_move, ih (ahead_move_two h _)]
    cases Literal.closing? delimiter cs with
    | none => simp [h]
    | some n =>
      simp only [move_move, Option.map_some, body_escape, List.append_nil, List.nil_append,
        List.append_assoc, List.singleton_append]
      congr 2
      omega
  | case4 cs escaped =>
    rw [quotation, if_neg (by simp [peek, h]), consume_bind h]
    dsimp only
    rw [if_neg escaped, if_pos rfl, keep_move, body_zero]
    rfl
  | case5 c cs escaped other ih =>
    rw [quotation, if_neg (by simp [peek, h]), consume_bind h]
    dsimp only
    rw [if_neg escaped, if_neg other, collect_move, ih (ahead_move_one h _)]
    cases Literal.closing? delimiter cs with
    | none => simp [h]
    | some n =>
      simp only [move_move, Option.map_some, body_cons verbatim escaped, List.nil_append,
        List.singleton_append]
      congr 2
      omega

theorem clear_emit_move (f : Feed) (n : Nat) (kept : List Char) (start : Cursor) (kind : Kind)
    (value : Option String) :
    ((f.move n kept).emit start kind value).clear =
      ((f.move n []).emit start kind value).clear := rfl

theorem clear_emit_behind (f : Feed) (c : Char) {m n : Nat} (passed : n = m + 1) (start : Cursor)
    (kind : Kind) (value : Option String) :
    ((((f.move 1 []).collect c).move m []).emit start kind value).clear =
      ((f.move n []).emit start kind value).clear := by
  rw [collect_move, move_move, clear_emit_move, passed, Nat.add_comm]

theorem wordRest_eq (start : Cursor) {closer : Option Char} {seen : Text.Buffer}
    (h : f.ahead = cs) (collected : f.buffer = seen) :
    (wordRest start closer f).map clear =
      .ok ((f.move ((Literal.word closer seen cs).2.length - seen.length) []).emit start
        (Literal.word closer seen cs).1
        (if (Literal.word closer seen cs).1 = .string then some (Literal.word closer seen cs).2.text
          else none)).clear := by
  have ends {f : Feed} {c : Char} {cs : List Char} (h : f.ahead = c :: cs) :
      (f.peek = none ∨ f.peek = some ';' ∨ f.peek = closer) ↔ (c = ';' ∨ closer = some c) := by
    simp [peek, h, eq_comm]
  have grown (f : Feed) (c : Char) : ((f.move 1 []).collect c).buffer = f.buffer.push c := rfl
  have longer (seen : Text.Buffer) (c : Char) (cs : List Char) :
      (Literal.word closer (seen.push c) cs).2.length - seen.length =
        (Literal.word closer (seen.push c) cs).2.length - (seen.push c).length + 1 := by
    have bound := (Literal.length_word closer (seen.push c) cs).1
    rw [Text.Buffer.length_push] at bound ⊢
    omega
  -- What is collected grows with what the word has seen, and the two are compared at each place.
  fun_induction Literal.word closer seen cs generalizing f with
  | case1 seen =>
    rw [wordRest, if_pos (by simp [peek, h]), Nat.sub_self, move_zero, if_pos rfl, ← collected]
    rfl
  | case2 seen c cs stop =>
    rw [wordRest, if_pos ((ends h).2 stop), Nat.sub_self, move_zero, if_pos rfl, ← collected]
    rfl
  | case3 seen c cs inside kind found boundary =>
    rw [wordRest, if_neg (mt (ends h).1 inside), consume_bind h]
    dsimp only
    rw [grown, collected, found]
    dsimp only
    rw [if_pos (by simpa [peek, h] using boundary), if_neg (ne_string_of_reserved? found),
      Text.Buffer.length_push, Nat.add_sub_cancel_left]
    rfl
  | case4 seen c cs inside kind found boundary ih =>
    rw [wordRest, if_neg (mt (ends h).1 inside), consume_bind h]
    dsimp only
    rw [grown, collected, found]
    dsimp only
    rw [if_neg (by simpa [peek, h] using boundary), ih (by simp [h]) (by rw [grown, collected]),
      clear_emit_behind f c (longer seen c cs)]
  | case5 seen c cs inside found ih =>
    rw [wordRest, if_neg (mt (ends h).1 inside), consume_bind h]
    dsimp only
    rw [grown, collected, found]
    dsimp only
    rw [ih (by simp [h]) (by rw [grown, collected]), clear_emit_behind f c (longer seen c cs)]

theorem skipBlanks_eq (h : f.ahead = cs) :
    f.skipBlanks = .ok (f.move (cs.takeWhile Text.isBlank).length []) := by
  induction cs generalizing f with
  | nil =>
    rw [skipBlanks, if_neg (by simp [peek, h])]
    rfl
  | cons c cs ih =>
    rw [skipBlanks]
    by_cases blank : Text.isBlank c = true
    · rw [if_pos (by simp [peek, h, blank]), consume_bind h]
      dsimp only
      rw [ih (by simp [h]), move_move, List.takeWhile_cons_of_pos blank, List.length_cons,
        Nat.add_comm 1]
      rfl
    · rw [if_neg (by simp [peek, h, blank]), List.takeWhile_cons_of_neg blank]
      rfl

theorem collectLine_eq (h : f.ahead = cs) :
    f.collectLine = .ok (f.move (Literal.line cs).length (Literal.line cs)) := by
  induction cs generalizing f with
  | nil =>
    rw [collectLine, if_pos (by simp [peek, h])]
    rfl
  | cons c cs ih =>
    rw [collectLine]
    by_cases ends : Text.isNewline c = true
    · rw [if_pos (by simp [peek, h, ends]), Literal.line, List.takeWhile_cons_of_neg (by simp [ends])]
      rfl
    · rw [if_neg (by simp [peek, h, ends]), consume_bind h]
      dsimp only
      have line : Literal.line (c :: cs) = c :: Literal.line cs :=
        List.takeWhile_cons_of_pos (by simp [ends])
      rw [collect_move, ih (ahead_move_one h _), move_move, line, List.length_cons, Nat.add_comm 1]
      rfl

theorem blockComment_eq (start : Cursor) (h : f.ahead = cs) :
    f.blockComment start =
      match Literal.commentEnd? cs with
      | some n => .ok ((f.move (n + 2) (cs.take n)).emitCollected start .comment)
      | none => .error (.unterminatedComment (f.cursor.advance cs).here) := by
  induction cs generalizing f with
  | nil =>
    rw [blockComment, if_pos (by simp [peek, h])]
    rfl
  | cons c cs ih =>
    rw [blockComment, if_neg (by simp [peek, h]), Literal.commentEnd?]
    by_cases ends : c = '*' ∧ cs.head? = some '/'
    · obtain ⟨rfl, slash⟩ := ends
      obtain ⟨rest, rfl⟩ := List.head?_eq_some_iff.1 slash
      rw [if_pos (by simp [peek, peekAt, h]), if_pos ⟨rfl, slash⟩]
      exact consume_twice h fun last => .ok (last.emitCollected start .comment)
    · rw [if_neg (by simpa [peek, peekAt, h, List.head?_eq_getElem?] using ends), if_neg ends,
        consume_bind h]
      dsimp only
      rw [collect_move, ih (ahead_move_one h _)]
      cases Literal.commentEnd? cs with
      | none => simp [h]
      | some n =>
        simp only [move_move, Option.map_some]
        rw [show 1 + (n + 2) = n + 1 + 2 by omega]
        rfl

end Moves

/-- The feed behind a lexeme of `n` characters, with nothing collected. -/
def passed (f : Feed) (found : Lexeme) (n : Nat) : Feed :=
  { f.record found (f.ahead.take n) with ahead := f.ahead.drop n }

section Steps

variable {f : Feed} {c : Char} {cs : List Char}

theorem clear_emit_eq_passed (f : Feed) (n : Nat) (kept : List Char) (kind : Kind)
    (value : Option String) :
    ((f.move n kept).emit f.cursor kind value).clear = f.passed (.token kind value) n := by
  simp [clear, emit, spanFrom, move, passed, Scan.record]

theorem clear_emitRemark_eq_passed (f : Feed) (n : Nat) (kept : List Char) (text : String) :
    ((f.move n kept).emitRemark f.cursor text).clear = f.passed (.lineComment text) n := by
  simp [clear, emitRemark, spanFrom, move, passed, Scan.record, Scan.addRemark]

theorem toList_foldl_push (buffer : Text.Buffer) (cs : List Char) :
    (cs.foldl Text.Buffer.push buffer).text.toList = buffer.text.toList ++ cs := by
  induction cs generalizing buffer with
  | nil => simp
  | cons c cs ih => simp [ih]

theorem text_buffer_move (empty : f.buffer = .empty) (n : Nat) (kept : List Char) :
    (f.move n kept).buffer.text = String.ofList kept := by
  rw [← String.toList_inj, String.toList_ofList, move, toList_foldl_push, empty]
  rfl

theorem clear_emitCollected_eq_passed (empty : f.buffer = .empty) (n : Nat) (kept : List Char)
    (kind : Kind) :
    ((f.move n kept).emitCollected f.cursor kind).clear =
      f.passed (.token kind (String.ofList kept)) n := by
  rw [← clear_emit_eq_passed f n kept, ← text_buffer_move empty n kept]
  rfl

theorem clear_mark (h : f.ahead = c :: cs) (kind : Kind) :
    (f.mark kind).map clear = .ok (f.passed (.token kind none) 1) := by
  rw [mark_eq h, Except.map, clear_emit_eq_passed]

theorem clear_quoted (h : f.ahead = c :: cs) (empty : f.buffer = .empty) (delimiter : Char)
    (verbatim : Bool) :
    (f.quoted delimiter verbatim).map clear =
      match Literal.closing? delimiter cs with
      | some n =>
        let text := (if verbatim then [c] else []) ++ body verbatim cs n
        .ok (f.passed (.token .string (String.ofList text)) (n + 2))
      | none => .error (.unterminatedString delimiter (f.cursor.advance (c :: cs)).here) := by
  rw [quoted, consume_bind h]
  dsimp only
  rw [keep_move, quotation_eq (ahead_move_one h _)]
  cases Literal.closing? delimiter cs with
  | none => simp [h, bind, Except.bind, Except.map]
  | some n =>
    simp only [move_move]
    rw [show 1 + (n + 1) = n + 2 by omega]
    exact congrArg Except.ok (clear_emitCollected_eq_passed empty _ _ _)

theorem closingBracket_eq (f : Feed) : f.closingBracket = .ok (f.previous.bind Kind.closer?) := by
  rw [closingBracket, Scan.previous]
  cases f.tokens.head? with
  | none => rfl
  | some token =>
    dsimp only
    split
    next opens =>
      obtain ⟨c, partner, closer⟩ := Kind.partner_of_opens opens
      simp [partner, closer, Except.map]
    next => simp_all [Kind.closer?]

theorem clear_word (h : f.ahead = c :: cs) (empty : f.buffer = .empty) :
    f.word.map clear =
      let (kind, seen) := Literal.word (f.previous.bind Kind.closer?) (Text.Buffer.empty.push c) cs
      .ok (f.passed (.token kind (if kind = .string then some seen.text else none)) seen.length) := by
  have ahead : ((f.move 1 []).collect c).ahead = cs := ahead_move_one h []
  have grown : ((f.move 1 []).collect c).buffer = Text.Buffer.empty.push c := by
    rw [← empty]
    rfl
  have first := (Literal.length_word (f.previous.bind Kind.closer?) (Text.Buffer.empty.push c) cs).1
  rw [word, closingBracket_eq]
  change (f.consume >>= _).map clear = _
  rw [consume_bind h]
  dsimp only
  rw [wordRest_eq f.cursor ahead grown, clear_emit_behind f c rfl, clear_emit_eq_passed,
    ← Nat.sub_add_comm first]
  rfl

theorem clear_arrow (h : f.ahead = c :: cs) :
    f.arrow.map clear =
      if cs.head? = some '>' then .ok (f.passed (.token .arrow none) 2)
      else .error (.unexpectedAssignment (f.cursor.next c).here) := by
  have next : (f.move 1 []).peek = cs.head? := by simp [peek, h]
  rw [arrow, consume_bind h]
  dsimp only
  rw [next]
  split
  next follows =>
    obtain ⟨rest, rfl⟩ := List.head?_eq_some_iff.1 follows
    rw [consume_bind (ahead_move_one h _)]
    dsimp only
    rw [move_move]
    exact congrArg Except.ok (clear_emit_eq_passed f 2 [] .arrow none)
  next =>
    rw [cursor_move, h]
    rfl

theorem line_behind_blanks (cs : List Char) :
    Literal.line (cs.drop (cs.takeWhile Text.isBlank).length) =
        (Literal.line cs).dropWhile Text.isBlank ∧
      (cs.takeWhile Text.isBlank).length +
        (Literal.line (cs.drop (cs.takeWhile Text.isBlank).length)).length =
        (Literal.line cs).length := by
  induction cs with
  | nil => exact ⟨rfl, rfl⟩
  | cons c cs ih =>
    by_cases blank : Text.isBlank c = true
    · have inside : (! Text.isNewline c) = true := by
        simp only [Text.isBlank, Bool.or_eq_true, beq_iff_eq] at blank
        rcases blank with rfl | rfl <;> decide
      have line : Literal.line (c :: cs) = c :: Literal.line cs := List.takeWhile_cons_of_pos inside
      rw [List.takeWhile_cons_of_pos blank, List.length_cons, List.drop_succ_cons, line,
        List.dropWhile_cons_of_pos blank, List.length_cons]
      exact ⟨ih.1, by omega⟩
    · rw [List.takeWhile_cons_of_neg blank, List.length_nil, List.drop_zero, Nat.zero_add]
      refine ⟨?_, rfl⟩
      rw [Literal.line, List.takeWhile_cons]
      split
      · rw [List.dropWhile_cons_of_neg blank]
      · rfl

theorem clear_lineComment (h : f.ahead = '/' :: '/' :: cs) (empty : f.buffer = .empty) :
    ((f.move 2 []).lineComment f.cursor).map clear =
      .ok (f.passed (.lineComment (String.ofList (Literal.remark (Literal.line cs))))
        ((Literal.line cs).length + 2)) := by
  obtain ⟨text, length⟩ := line_behind_blanks cs
  have blanks : (f.move 2 []).skipBlanks =
      .ok (f.move (2 + (cs.takeWhile Text.isBlank).length) []) := by
    rw [skipBlanks_eq (ahead_move_two h []), move_move]
    rfl
  have line : (f.move (2 + (cs.takeWhile Text.isBlank).length) []).collectLine =
      .ok (f.move ((Literal.line cs).length + 2) ((Literal.line cs).dropWhile Text.isBlank)) := by
    have ahead : (f.move (2 + (cs.takeWhile Text.isBlank).length) []).ahead =
        cs.drop (cs.takeWhile Text.isBlank).length := by
      simp [h, Nat.add_comm 2]
    rw [collectLine_eq ahead, move_move, Nat.add_assoc, length, text, Nat.add_comm 2]
    rfl
  have collected := text_buffer_move empty ((Literal.line cs).length + 2)
    ((Literal.line cs).dropWhile Text.isBlank)
  rw [lineComment, blanks]
  change ((f.move (2 + (cs.takeWhile Text.isBlank).length) []).collectLine >>= _).map clear = _
  rw [line]
  change Except.ok ((f.move _ _).emitRemark f.cursor (String.ofList (if
    (f.move _ _).buffer.text.toList.getLast? = _ then _ else _))).clear = _
  rw [collected, String.toList_ofList, clear_emitRemark_eq_passed]
  rfl

theorem clear_slash (h : f.ahead = '/' :: cs) (empty : f.buffer = .empty) :
    f.slash.map clear =
      (slashLexeme f.cursor cs).map fun found => f.passed found.1 (found.2 + 1) := by
  have next : f.peekAt 1 = cs.head? := by simp [peekAt, h, List.head?_eq_getElem?]
  rw [slash, next]
  split
  next line =>
    obtain ⟨rest, rfl⟩ := List.head?_eq_some_iff.1 line
    rw [consume_twice h fun last => last.lineComment f.cursor]
    exact clear_lineComment h empty
  next other =>
    split
    next block =>
      obtain ⟨rest, rfl⟩ := List.head?_eq_some_iff.1 block
      rw [consume_twice h fun last => last.blockComment f.cursor,
        blockComment_eq f.cursor (ahead_move_two h _), slashLexeme]
      cases Literal.commentEnd? rest with
      | none => simp [h, Except.map]
      | some n =>
        dsimp only
        rw [move_move, Nat.add_comm 2]
        exact congrArg Except.ok (clear_emitCollected_eq_passed empty _ _ _)
    next other' =>
      have mark : slashLexeme f.cursor cs = .ok (.token .forwardSlash none, 0) := by
        unfold slashLexeme
        split <;> simp_all
      rw [mark, clear_mark h]
      rfl

theorem clear_skip (h : f.ahead = c :: cs) :
    f.skip.map clear = .ok (f.passed (if Text.isGap c then .gap else .stray) 1) := by
  rw [skip, consume_bind h]
  dsimp only
  split
  · simp [pure, Except.pure, Except.map, clear, passed, Scan.record, move]
  · simp [pure, Except.pure, Except.map, clear, passed, Scan.record, move]

/-- From every place with nothing collected, what is found is the lexeme there. -/
theorem clear_dispatch (h : f.ahead = c :: cs) (empty : f.buffer = .empty) :
    (f.dispatch c).map clear =
      (lexeme f.cursor f.previous c cs).map fun found => f.passed found.1 (found.2 + 1) := by
  rw [dispatch, lexeme]
  by_cases quote : Text.isQuote c = true
  · rw [if_pos quote, if_pos quote, clear_quoted h empty]
    cases Literal.closing? c cs <;> rfl
  rw [if_neg quote, if_neg quote]
  by_cases backtick : Text.isBacktick c = true
  · rw [if_pos backtick, if_pos backtick, clear_quoted h empty]
    cases Literal.closing? c cs <;> rfl
  rw [if_neg backtick, if_neg backtick]
  by_cases letter : c.isAlphanum = true
  · have first : 1 ≤ (Literal.word (f.previous.bind Kind.closer?) (.push .empty c) cs).2.length :=
      (Literal.length_word _ (.push .empty c) cs).1
    rw [if_pos letter, if_pos letter, clear_word h empty]
    dsimp only [Except.map]
    rw [Nat.sub_add_cancel first]
  rw [if_neg letter, if_neg letter]
  by_cases equals : c = '='
  · rw [if_pos equals, if_pos equals, clear_arrow h]
    split <;> rfl
  rw [if_neg equals, if_neg equals]
  by_cases semi : c = ';'
  · rw [if_pos semi, if_pos semi, clear_mark h]
    rfl
  rw [if_neg semi, if_neg semi]
  by_cases slash : c = '/'
  · rw [if_pos slash, if_pos slash, clear_slash (slash ▸ h) empty]
  rw [if_neg slash, if_neg slash]
  by_cases backslash : c = '\\'
  · rw [if_pos backslash, if_pos backslash, clear_mark h]
    rfl
  rw [if_neg backslash, if_neg backslash]
  cases Kind.ofBracket? c with
  | some kind => exact clear_mark h kind
  | none => exact clear_skip h

theorem lexeme_of_dispatch_error {failure : Failure} (h : f.ahead = c :: cs)
    (empty : f.buffer = .empty) (failed : f.dispatch c = .error failure) :
    lexeme f.cursor f.previous c cs = .error failure := by
  have same := clear_dispatch h empty
  rw [failed] at same
  cases lexed : lexeme f.cursor f.previous c cs with
  | error failure' =>
    rw [lexed] at same
    cases same
    rfl
  | ok found =>
    rw [lexed] at same
    cases same

theorem exists_lexeme_of_dispatch_ok {next : Feed} (h : f.ahead = c :: cs)
    (empty : f.buffer = .empty) (read : f.dispatch c = .ok next) :
    ∃ found n, lexeme f.cursor f.previous c cs = .ok (found, n) ∧
      next.clear = f.passed found (n + 1) := by
  have same := clear_dispatch h empty
  rw [read] at same
  cases lexed : lexeme f.cursor f.previous c cs with
  | error failure =>
    rw [lexed] at same
    cases same
  | ok found =>
    rw [lexed] at same
    exact ⟨found.1, found.2, rfl, Except.ok.inj same⟩

theorem length_ahead_dispatch_lt {next : Feed} (h : f.peek = some c) (empty : f.buffer = .empty)
    (read : f.dispatch c = .ok next) : next.clear.ahead.length < f.ahead.length := by
  obtain ⟨cs, ahead⟩ := List.head?_eq_some_iff.1 h
  obtain ⟨found, n, -, behind⟩ := exists_lexeme_of_dispatch_ok ahead empty read
  have shorter : next.clear.ahead = cs.drop n := by simp [behind, passed, ahead]
  rw [shorter, ahead, List.length_drop, List.length_cons]
  omega

end Steps

/-- Reads tokens up to the end of the text. Nothing is collected between two of them. -/
def run (f : Feed) (_ : f.buffer = .empty) : Except Failure (List Token) :=
  match _ : f.peek with
  | none => .ok f.tokens.reverse
  | some c =>
    match _ : f.dispatch c with
    | .error failure => .error failure
    | .ok next => next.clear.run rfl
termination_by f.ahead.length
decreasing_by exact length_ahead_dispatch_lt ‹_› ‹_› ‹_›

theorem run_eq (f : Feed) (empty : f.buffer = .empty) : f.run empty = f.toScan.run f.ahead := by
  fun_induction Feed.run f empty with
  | case1 f empty atEnd => rw [List.head?_eq_none_iff.1 atEnd, Scan.run_nil]
  | case2 f empty c first failure failed =>
    obtain ⟨cs, ahead⟩ := List.head?_eq_some_iff.1 first
    rw [ahead, Scan.run_cons_error (lexeme_of_dispatch_error ahead empty failed)]
  | case3 f empty c first next read ih =>
    obtain ⟨cs, ahead⟩ := List.head?_eq_some_iff.1 first
    obtain ⟨found, n, lexed, behind⟩ := exists_lexeme_of_dispatch_ok ahead empty read
    rw [ih, behind, ahead, Scan.run_cons_ok lexed]
    simp [passed, ahead]

end Feed

end Token

def feed (source : String) : Except Failure (List Token) :=
  Token.Feed.run { ahead := source.toList } rfl

theorem feed_eq_tokenize (source : String) : feed source = tokenize source :=
  Token.Feed.run_eq _ rfl

end Flowchart
