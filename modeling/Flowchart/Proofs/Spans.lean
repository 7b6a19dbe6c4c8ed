import Flowchart.Proofs.Spelling
import Mathlib

/-! Where tokens lie. The tokens of a source lie one behind the other, each on the characters with
which it is written, and between them stands nothing that could begin a token. The scan keeps this
true of what it has passed; while line comments are joined, it also keeps that the last token is a
run of them with only white space behind it. -/
namespace Flowchart.Token

def span (token : Token) (source : List Char) : List Char :=
  source.extract token.pos.offset token.pos.stop

def Covers (token : Token) (i : Nat) : Prop := token.pos.offset ≤ i ∧ i < token.pos.stop

/-- The tokens are those of the first `n` characters. -/
structure Laid (source : List Char) (n : Nat) (tokens : List Token) : Prop where
  length_pos : ∀ token ∈ tokens, 0 < token.pos.length
  stop_le : ∀ token ∈ tokens, token.pos.stop ≤ n
  ordered : tokens.Pairwise fun token token' => token.pos.stop ≤ token'.pos.offset
  idle : ∀ i < n, ∀ c ∈ source[i]?, (∀ token ∈ tokens, ¬ token.Covers i) → Idle c
  written : ∀ token ∈ tokens, Written token.kind token.value (token.span source)

theorem extract_append {source : List Char} {i j k : Nat} (h : i ≤ j) (h' : j ≤ k) :
    source.extract i j ++ source.extract j k = source.extract i k := by
  have length : k - i = (j - i) + (k - j) := by omega
  have start : i + (j - i) = j := by omega
  rw [List.extract, List.extract, List.extract, length, List.take_add, List.drop_drop, start]

theorem extract_of_drop {source text rest : List Char} {n : Nat}
    (ahead : source.drop n = text ++ rest) : source.extract n (n + text.length) = text := by
  rw [List.extract, ahead, Nat.add_sub_cancel_left, List.take_left]

theorem getElem?_of_drop {source ahead : List Char} {n : Nat} (h : source.drop n = ahead) (i : Nat) :
    source[n + i]? = ahead[i]? := by
  rw [← h, List.getElem?_drop]

theorem forall_mem_extract {source : List Char} {i j : Nat} {p : Char → Prop}
    (h : ∀ k < j, i ≤ k → ∀ c ∈ source[k]?, p c) : ∀ c ∈ source.extract i j, p c := by
  intro c member
  obtain ⟨k, found⟩ := List.mem_iff_getElem?.1 member
  rw [List.extract, List.getElem?_take] at found
  split at found
  next bound =>
    rw [List.getElem?_drop] at found
    exact h (i + k) (by omega) (by omega) c found
  next => cases found

namespace Laid

variable {source : List Char} {n : Nat} {tokens : List Token} {token : Token}

theorem nil : Laid source 0 [] where
  length_pos := by simp
  stop_le := by simp
  ordered := .nil
  idle := by simp
  written := by simp

theorem pass {c : Char} (h : Laid source n tokens) (next : source[n]? = some c) (idle : Idle c) :
    Laid source (n + 1) tokens where
  length_pos := h.length_pos
  stop_le token member := Nat.le_succ_of_le (h.stop_le token member)
  ordered := h.ordered
  idle i bound d found free := by
    by_cases last : i = n
    · rw [last, next] at found
      cases found
      exact idle
    · exact h.idle i (by omega) d found free
  written := h.written

theorem add (h : Laid source n tokens) (start : token.pos.offset = n)
    (written : Written token.kind token.value (token.span source)) :
    Laid source token.pos.stop (tokens ++ [token]) where
  length_pos := by
    have nonempty : token.pos.offset < token.pos.stop := by
      apply Nat.lt_of_not_le
      intro empty
      apply written.ne_nil
      rw [span, List.extract, Nat.sub_eq_zero_of_le empty, List.take_zero]
    intro token' member
    rcases List.mem_append.1 member with member | member
    · exact h.length_pos token' member
    · rw [List.mem_singleton.1 member]
      rw [Position.stop] at nonempty
      omega
  stop_le := by
    intro token' member
    rcases List.mem_append.1 member with member | member
    · have bound := h.stop_le token' member
      exact Nat.le_trans (start ▸ bound) (Nat.le_add_right _ _)
    · exact Nat.le_of_eq (by rw [List.mem_singleton.1 member])
  ordered := by
    rw [List.pairwise_append]
    refine ⟨h.ordered, List.pairwise_singleton _ _, ?_⟩
    intro token' member last last_mem
    rw [List.mem_singleton.1 last_mem, start]
    exact h.stop_le token' member
  idle := by
    intro i bound c found free
    have outside : i < n := by
      apply Nat.lt_of_not_le
      intro inside
      exact free token (by simp) ⟨by omega, bound⟩
    exact h.idle i outside c found fun token' member => free token' (by simp [member])
  written := by
    intro token' member
    rcases List.mem_append.1 member with member | member
    · exact h.written token' member
    · rwa [List.mem_singleton.1 member]

theorem front (h : Laid source n (tokens ++ [token])) : Laid source token.pos.offset tokens where
  length_pos token' member := h.length_pos token' (by simp [member])
  stop_le token' member := (List.pairwise_append.1 h.ordered).2.2 token' member token (by simp)
  ordered := (List.pairwise_append.1 h.ordered).1
  idle := by
    intro i bound c found free
    have within : token.pos.stop ≤ n := h.stop_le token (by simp)
    refine h.idle i (by rw [Position.stop] at within; omega) c found ?_
    intro token' member
    rcases List.mem_append.1 member with member | member
    · exact free token' member
    · rw [List.mem_singleton.1 member]
      intro covers
      exact Nat.not_lt_of_le covers.1 bound
  written token' member := h.written token' (by simp [member])

theorem length_le (h : Laid source n tokens) : tokens.length ≤ n := by
  induction tokens using List.reverseRecOn generalizing n with
  | nil => exact Nat.zero_le n
  | append_singleton tokens token ih =>
    have before := ih h.front
    have positive := h.length_pos token (by simp)
    have within := h.stop_le token (by simp)
    rw [Position.stop] at within
    rw [List.length_append, List.length_singleton]
    omega

end Laid

/-- A run of line comments that one more line comment at the offset `n` would continue. -/
structure Continues (source : List Char) (n : Nat) (token : Token) : Prop where
  kind_eq : token.kind = .comment
  remarks : ∃ value, token.value = some (String.ofList value) ∧ Remarks (token.span source) value
  newline : ∀ c ∈ source[token.pos.stop]?, c = '\n'
  gap : ∀ i < n, token.pos.stop ≤ i → ∀ c ∈ source[i]?, Text.isGap c = true

namespace Continues

variable {source rest line value : List Char} {n : Nat} {token : Token}

theorem exists_gap (h : Continues source n token) (before : token.pos.stop ≤ n)
    (ahead : source.drop n = '/' :: rest) :
    ∃ gap, source.extract token.pos.stop n = '\n' :: gap ∧ ∀ c ∈ gap, Text.isGap c = true := by
  have slash : source[n]? = some '/' := getElem?_of_drop ahead 0
  have apart : token.pos.stop < n := by
    apply Nat.lt_of_le_of_ne before
    intro same
    have newline := h.newline '/' (by rw [same, slash]; rfl)
    exact absurd newline (by decide)
  have gaps := forall_mem_extract h.gap
  obtain ⟨bound, -⟩ := List.getElem?_eq_some_iff.1 slash
  have first : (source.extract token.pos.stop n)[0]? = source[token.pos.stop]? := by
    rw [List.extract, List.getElem?_take_of_lt (by omega), List.getElem?_drop, Nat.add_zero]
  cases between : source.extract token.pos.stop n with
  | nil =>
    have missing : source[token.pos.stop]? = none := by
      rw [← first, between]
      rfl
    have short := List.getElem?_eq_none_iff.1 missing
    omega
  | cons c gap =>
    rw [between] at first gaps
    have newline := h.newline c first.symm
    rw [newline]
    exact ⟨gap, rfl, fun d member => gaps d (by simp [member])⟩

theorem more (h : Continues source n token) (before : token.pos.stop ≤ n)
    (ahead : source.drop n = '/' :: '/' :: line ++ rest) (remark : Remark line value) :
    ∃ value', token.value = some (String.ofList value') ∧
      Remarks (source.extract token.pos.offset (n + ('/' :: '/' :: line).length))
        (value' ++ '\n' :: value) := by
  obtain ⟨value', said, remarks⟩ := h.remarks
  obtain ⟨gap, between, blank⟩ := h.exists_gap before ahead
  have starts : token.pos.offset ≤ token.pos.stop := Nat.le_add_right _ _
  have reach : n ≤ n + ('/' :: '/' :: line).length := Nat.le_add_right _ _
  have whole : source.extract token.pos.offset (n + ('/' :: '/' :: line).length) =
      token.span source ++ '\n' :: (gap ++ '/' :: '/' :: line) := by
    rw [← extract_append starts (Nat.le_trans before reach), ← extract_append before reach,
      extract_of_drop ahead, between]
    rfl
  rw [whole]
  exact ⟨value', said, .more remarks blank remark⟩

end Continues

namespace Scan

structure Sound (s : Scan) (source : List Char) : Prop where
  inside : s.cursor.offset ≤ source.length
  laid : Laid source s.cursor.offset s.tokens.reverse
  continues : s.inRemarks = true →
    ∃ token tokens, s.tokens = token :: tokens ∧ Continues source s.cursor.offset token

variable {s : Scan} {source text rest line value : List Char} {c : Char} {found : Lexeme}
  {tokens : List Token}

theorem Sound.inside_record (h : s.Sound source)
    (ahead : source.drop s.cursor.offset = text ++ rest) :
    (s.record found text).cursor.offset ≤ source.length := by
  have length := congrArg List.length ahead
  rw [List.length_drop, List.length_append] at length
  have bound := h.inside
  rw [cursor_record, Cursor.offset_advance]
  omega

theorem Sound.token {kind : Kind} {value : Option String} (h : s.Sound source)
    (ahead : source.drop s.cursor.offset = text ++ rest) (written : Written kind value text) :
    (s.record (.token kind value) text).Sound source := by
  refine ⟨h.inside_record ahead, ?_, by simp [Scan.record]⟩
  have start : (Token.pos ⟨kind, value, s.cursor.spanning text.length⟩).offset = s.cursor.offset :=
    rfl
  have added := h.laid.add start
    (by rwa [span, Position.stop, Cursor.spanning, extract_of_drop ahead])
  simpa [Scan.record, Position.stop, Cursor.spanning] using added

theorem Sound.gap (h : s.Sound source) (ahead : source.drop s.cursor.offset = c :: rest)
    (blank : Text.isGap c = true) : (s.record .gap [c]).Sound source := by
  have next : source[s.cursor.offset]? = some c := getElem?_of_drop ahead 0
  refine ⟨h.inside_record ahead, ?_, ?_⟩
  · simpa [Scan.record] using h.laid.pass next (idle_of_isGap blank)
  · intro open'
    obtain ⟨token, tokens, same, continues⟩ := h.continues open'
    refine ⟨token, tokens, same, continues.kind_eq, continues.remarks, continues.newline, ?_⟩
    intro i bound behind d found
    rw [cursor_record, Cursor.offset_advance, List.length_singleton] at bound
    by_cases last : i = s.cursor.offset
    · rw [last, next] at found
      cases found
      exact blank
    · exact continues.gap i (by omega) behind d found

theorem Sound.stray (h : s.Sound source) (ahead : source.drop s.cursor.offset = c :: rest)
    (idle : Idle c) : (s.record .stray [c]).Sound source := by
  have next : source[s.cursor.offset]? = some c := getElem?_of_drop ahead 0
  refine ⟨h.inside_record ahead, ?_, by simp [Scan.record]⟩
  simpa [Scan.record] using h.laid.pass next idle

theorem sound_of_remarks {token : Token} (inside : s.cursor.offset ≤ source.length)
    (last : s.tokens = token :: tokens) (stop : token.pos.stop = s.cursor.offset)
    (laid : Laid source token.pos.offset tokens.reverse) (kind : token.kind = .comment)
    (said : token.value = some (String.ofList value)) (remarks : Remarks (token.span source) value)
    (newline : ∀ c ∈ source[s.cursor.offset]?, c = '\n') : s.Sound source := by
  have written : Written token.kind token.value (token.span source) := by
    rw [kind, said]
    exact .remarks remarks
  refine ⟨inside, ?_, fun _ => ⟨token, tokens, last, kind, ⟨value, said, remarks⟩, ?_, ?_⟩⟩
  · rw [last, List.reverse_cons, ← stop]
    exact laid.add rfl written
  · rwa [stop]
  · intro i bound behind
    omega

theorem addRemark_open {token : Token} {value : List Char} (text : String) (pos : Position)
    (merging : s.inRemarks = true) (last : s.tokens = token :: tokens)
    (said : token.value = some (String.ofList value)) :
    s.addRemark text pos =
      { token with
        value := some (String.ofList (value ++ '\n' :: text.toList)), pos := token.pos.cover pos } ::
      tokens := by
  have joined : String.ofList value ++ "\n" ++ text =
      String.ofList (value ++ '\n' :: text.toList) := by
    rw [← String.toList_inj]
    simp
  rw [addRemark, merging, last]
  simp only [said, Option.map_some, Option.getD_some, joined]

theorem Sound.lineComment (h : s.Sound source)
    (ahead : source.drop s.cursor.offset = '/' :: '/' :: line ++ rest) (remark : Remark line value)
    (ends : ∀ c ∈ rest.head?, c = '\n') :
    (s.record (.lineComment (String.ofList value)) ('/' :: '/' :: line)).Sound source := by
  have inside : (s.record (.lineComment (String.ofList value)) ('/' :: '/' :: line)).cursor.offset ≤
      source.length := h.inside_record ahead
  have newline : ∀ c ∈ source[s.cursor.offset + ('/' :: '/' :: line).length]?, c = '\n' := by
    rw [getElem?_of_drop ahead, List.getElem?_append_right (Nat.le_refl _), Nat.sub_self,
      ← List.head?_eq_getElem?]
    exact ends
  by_cases merging : s.inRemarks = true
  · obtain ⟨token, tokens, last, continues⟩ := h.continues merging
    have laid : Laid source s.cursor.offset (tokens.reverse ++ [token]) := by
      simpa [last] using h.laid
    have before : token.pos.stop ≤ s.cursor.offset := laid.stop_le token (by simp)
    obtain ⟨value', said, remarks⟩ := continues.more before ahead remark
    have joined := addRemark_open (String.ofList value)
      (s.cursor.spanning ('/' :: '/' :: line).length) merging last said
    have stop : (token.pos.cover (s.cursor.spanning ('/' :: '/' :: line).length)).stop =
        s.cursor.offset + ('/' :: '/' :: line).length := by
      rw [Position.stop_cover]
      exact Nat.max_eq_right (Nat.le_trans before (Nat.le_add_right _ _))
    refine sound_of_remarks inside joined ?_ laid.front continues.kind_eq rfl ?_ ?_
    · rw [stop, cursor_record, Cursor.offset_advance]
    · rwa [span, stop, Position.offset_cover, String.toList_ofList]
    · rwa [cursor_record, Cursor.offset_advance]
  · have opened : (s.record (.lineComment (String.ofList value)) ('/' :: '/' :: line)).tokens =
        ⟨.comment, String.ofList value, s.cursor.spanning ('/' :: '/' :: line).length⟩ :: s.tokens := by
      simp [Scan.record, addRemark, merging]
    refine sound_of_remarks inside opened ?_ h.laid rfl rfl ?_ ?_
    · rw [cursor_record, Cursor.offset_advance]
      rfl
    · rw [span, Position.stop, Cursor.spanning, extract_of_drop ahead]
      exact .line remark
    · rwa [cursor_record, Cursor.offset_advance]

theorem Sound.record (h : s.Sound source) (ahead : source.drop s.cursor.offset = text ++ rest)
    (spelled : found.Spelled rest text) : (s.record found text).Sound source := by
  cases spelled with
  | token written => exact h.token ahead written
  | lineComment remark ends => exact h.lineComment ahead remark ends
  | gap blank => exact h.gap ahead blank
  | stray idle => exact h.stray ahead idle

theorem Sound.run {cs : List Char} (h : s.Sound source) (ahead : source.drop s.cursor.offset = cs)
    (run : s.run cs = .ok tokens) : Laid source source.length tokens := by
  fun_induction Scan.run s cs with
  | case1 s =>
    cases run
    have whole : s.cursor.offset = source.length :=
      Nat.le_antisymm h.inside (List.drop_eq_nil_iff.1 ahead)
    exact whole ▸ h.laid
  | case2 => cases run
  | case3 s c cs found n lexed ih =>
    have split : source.drop s.cursor.offset = (c :: cs.take n) ++ cs.drop n := by
      rw [ahead, List.cons_append, List.take_append_drop]
    refine ih (h.record split (lexeme_spelled lexed)) ?_ run
    rw [cursor_record, Cursor.offset_advance, ← List.drop_drop, split, List.drop_left]

end Scan

end Flowchart.Token

namespace Flowchart
open Token

theorem laid_of_tokenize {source : String} {tokens : List Token}
    (h : tokenize source = .ok tokens) : Laid source.toList source.length tokens := by
  have start : Scan.Sound {} source.toList := ⟨Nat.zero_le _, .nil, by simp⟩
  rw [← String.length_toList]
  exact start.run rfl h

/-- Scanning loses nothing: the tokens lie one behind the other in the source, each is written where
it lies, only comments and texts say something of their own, and no character outside of the tokens
could have begun one. -/
theorem tokenize_lossless {source : String} {tokens : List Token}
    (h : tokenize source = .ok tokens) :
    Laid source.toList source.length tokens ∧
      ∀ token ∈ tokens, token.value.isSome = true ↔ token.kind = .string ∨ token.kind = .comment := by
  have laid := laid_of_tokenize h
  exact ⟨laid, fun token member => (laid.written token member).isSome_iff⟩

def remarked : String := "//  a\r\n\t//b\n# (\x22\\\x22q\x22);"

theorem tokenize_lossless_remarked :
    ∃ tokens, tokenize remarked = .ok tokens ∧
      tokens.map Token.value = [some "a\nb", none, some "\x22q", none, none] ∧
      Laid remarked.toList remarked.length tokens ∧
      ∀ token ∈ tokens, token.value.isSome = true ↔ token.kind = .string ∨ token.kind = .comment := by
  have scanned : tokenize remarked = .ok
      [⟨.comment, some "a\nb", ⟨0, 11, 1, 1⟩⟩, ⟨.lParen, none, ⟨14, 1, 3, 3⟩⟩,
       ⟨.string, some "\x22q", ⟨15, 5, 3, 4⟩⟩, ⟨.rParen, none, ⟨20, 1, 3, 9⟩⟩,
       ⟨.semi, none, ⟨21, 1, 3, 10⟩⟩] := by
    cbv
  exact ⟨_, scanned, rfl, tokenize_lossless scanned⟩

end Flowchart
