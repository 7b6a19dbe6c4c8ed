import Flowchart.Proofs.Spans

/-! Line comments are joined while a source is scanned. They could as well be joined afterwards: if the
scan gives each line comment a token of its own, it fails for the same sources with the same failures,
and of its tokens the longest runs of line comments with nothing but white space between them are what
the scan that joins has as one token. -/
namespace Flowchart.Token

namespace Scan

/-- Takes in a lexeme as `record` does, but gives every line comment a token of its own. -/
def recordApart (s : Scan) (found : Lexeme) (cs : List Char) : Scan :=
  match found with
  | .lineComment text => s.record (.token .comment text) cs
  | found => s.record found cs

def own (s : Scan) (text : String) (cs : List Char) : Token :=
  ⟨.comment, text, s.cursor.spanning cs.length⟩

theorem tokens_recordApart (s : Scan) (text : String) (cs : List Char) :
    (s.recordApart (.lineComment text) cs).tokens = s.own text cs :: s.tokens := rfl

@[simp] theorem cursor_recordApart (s : Scan) (found : Lexeme) (cs : List Char) :
    (s.recordApart found cs).cursor = s.cursor.advance cs := by
  cases found <;> rfl

def runApart (s : Scan) : List Char → Except Failure (List Token)
  | [] => .ok s.tokens.reverse
  | c :: cs =>
    match lexeme s.cursor s.previous c cs with
    | .error failure => .error failure
    | .ok (found, n) => (s.recordApart found (c :: cs.take n)).runApart (cs.drop n)
termination_by cs => cs.length

end Scan

/-- A line comment, as opposed to one between `/*` and `*/`. -/
def isRemark (source : List Char) (token : Token) : Bool :=
  token.kind = .comment && ['/', '/'].isPrefixOf (token.span source)

/-- Two line comments with nothing but white space between them. -/
def joins (source : List Char) (token next : Token) : Bool :=
  token.isRemark source && next.isRemark source &&
    (source.extract token.pos.stop next.pos.offset).all Text.isGap

/-- One token for a run of them: their texts as lines, from where the first begins to where the last
ends. -/
def fuse : List Token → Option Token
  | [] => none
  | [token] => token
  | token :: tokens => some
    { token with
      value := "\n".intercalate ((token :: tokens).map text)
      pos := { token.pos with length := (tokens.getLastD token).pos.stop - token.pos.offset } }

def joined (source : List Char) (tokens : List Token) : List Token :=
  (tokens.splitBy (joins source)).filterMap fuse

end Flowchart.Token

namespace Flowchart

def tokenizeApart (source : String) : Except Failure (List Token) :=
  Token.Scan.runApart {} source.toList

namespace Token

section Lexemes

variable {start : Cursor} {previous : Option Kind} {c : Char} {cs : List Char} {n : Nat}

theorem lexeme_slash : lexeme start previous '/' cs = slashLexeme start cs := rfl

theorem not_remark_of_lexeme {kind : Kind} {value : Option String}
    (h : lexeme start previous c cs = .ok (.token kind value, n)) (comment : kind = .comment) :
    ¬ ['/', '/'] <+: c :: cs.take n := by
  subst comment
  intro begins
  obtain ⟨rfl, second⟩ := List.cons_prefix_cons.1 begins
  rw [lexeme_slash, slashLexeme.eq_def] at h
  split at h
  next => cases h
  next cs =>
    split at h
    next m ends =>
      cases h
      simp at second
    next => cases h
  next => cases h

theorem isGap_of_lexeme_stray (h : lexeme start previous c cs = .ok (.stray, n)) :
    Text.isGap c = false := by
  by_contra gap
  rw [lexeme_of_isGap start previous cs (by simpa using gap)] at h
  cases h

end Lexemes

theorem splitBy_concat {α : Type} {r : α → α → Bool} {l : List α} {last a : α}
    (final : l.getLast? = some last) (related : r last a = true) :
    ∃ front run, l.splitBy r = front ++ [run] ∧ run.getLast? = some last ∧
      (l ++ [a]).splitBy r = front ++ [run ++ [a]] := by
  have nonempty : l.splitBy r ≠ [] := by
    rw [List.splitBy_ne_nil]
    rintro rfl
    cases final
  obtain ⟨front, run, split⟩ := (List.eq_nil_or_concat' (l.splitBy r)).resolve_left nonempty
  have runs (m : List α) (member : m ∈ front ++ [run]) :
      m ≠ [] ∧ m.IsChain fun x y => r x y = true := by
    rw [← split] at member
    exact ⟨List.ne_nil_of_mem_splitBy member, List.isChain_of_mem_splitBy member⟩
  obtain ⟨filled, chain⟩ := runs run (by simp)
  have parts : l = front.flatten ++ run := by
    rw [← List.flatten_splitBy r l, split]
    simp
  have ends : run.getLast? = some last := by
    rwa [parts, List.getLast?_append_of_ne_nil _ filled] at final
  refine ⟨front, run, split, ends, List.splitBy_eq_iff.2 ⟨by simp [parts], ?_, ?_, ?_⟩⟩
  · intro member
    rcases List.mem_append.1 member with early | late
    · exact (runs [] (by simp [early])).1 rfl
    · simp at late
  · intro m member
    rcases List.mem_append.1 member with early | late
    · exact (runs m (by simp [early])).2
    · rw [List.mem_singleton.1 late, List.isChain_append]
      refine ⟨chain, .singleton a, ?_⟩
      simpa [ends] using related
  · have apart := List.isChain_getLast_head_splitBy r l
    rw [split, List.isChain_append] at apart
    obtain ⟨fronts, -, seam⟩ := apart
    refine List.isChain_append.2 ⟨fronts, .singleton _, fun m member next first => ?_⟩
    obtain ⟨before, behind, unrelated⟩ := seam m member run rfl
    cases first
    exact ⟨before, by simp, by rwa [List.head_append_of_ne_nil behind]⟩

theorem fuse_cons (first : Token) {more : List Token} (filled : more ≠ []) :
    fuse (first :: more) = some
      { first with
        value := "\n".intercalate ((first :: more).map text)
        pos := { first.pos with length := (more.getLastD first).pos.stop - first.pos.offset } } := by
  cases more with
  | nil => exact absurd rfl filled
  | cons second more => rfl

section Runs

variable {source : List Char} {run tokens : List Token} {token last : Token}

theorem fuse_concat (filled : run ≠ []) (said : ∀ t ∈ run, t.value.isSome = true)
    (ordered : ∀ t ∈ run, t.pos.stop ≤ token.pos.offset) :
    ∃ whole value, fuse run = some whole ∧ whole.value = some value ∧ fuse (run ++ [token]) = some
      { whole with value := some (value ++ "\n" ++ token.text), pos := whole.pos.cover token.pos } := by
  have reaches (t : Token) (member : t ∈ run) : t.pos.stop ≤ token.pos.stop :=
    Nat.le_trans (ordered t member) (Nat.le_add_right _ _)
  obtain ⟨first, more, rfl⟩ := List.exists_cons_of_ne_nil filled
  have start := reaches first List.mem_cons_self
  have stretch (stop : Nat) (h : stop ≤ token.pos.stop) :
      max (first.pos.offset + (stop - first.pos.offset)) token.pos.stop = token.pos.stop := by
    rw [Position.stop] at start
    omega
  have longer : fuse (first :: more ++ [token]) = some
      { first with
        value := some ("\n".intercalate ((first :: more).map text) ++ "\n" ++ token.text)
        pos := { first.pos with length := token.pos.stop - first.pos.offset } } := by
    have lines : "\n".intercalate ((first :: (more ++ [token])).map text) =
        "\n".intercalate ((first :: more).map text) ++ "\n" ++ token.text := by
      rw [← List.cons_append, List.map_append,
        String.intercalate_append_of_ne_nil (by simp) (by simp), List.map_singleton,
        String.intercalate_singleton]
    rw [List.cons_append, fuse_cons first (by simp), List.getLastD_concat, lines]
  rw [longer]
  by_cases alone : more = []
  · subst alone
    obtain ⟨value, same⟩ := Option.isSome_iff_exists.1 (said first List.mem_cons_self)
    refine ⟨first, value, rfl, same, ?_⟩
    simp [text, same, Position.cover, start]
  · have finish := stretch _ (reaches (more.getLastD first) List.getLastD_mem_cons)
    refine ⟨_, _, fuse_cons first alone, rfl, ?_⟩
    simp only [Position.cover, Position.stop] at finish ⊢
    rw [finish]

theorem joined_concat_of_not (h : ∀ last ∈ tokens.getLast?, joins source last token = false) :
    joined source (tokens ++ [token]) = joined source tokens ++ [token] := by
  rw [joined, List.splitBy_append_cons [] h, List.filterMap_append]
  rfl

theorem isRemark_of_mem (chain : run.IsChain fun t u => joins source t u = true)
    (ends : run.getLast? = some last) (remark : last.isRemark source = true) :
    ∀ t ∈ run, t.isRemark source = true := by
  induction run with
  | nil => simp
  | cons t run ih =>
    cases run with
    | nil =>
      cases ends
      simpa using remark
    | cons u run =>
      obtain ⟨first, rest⟩ := List.isChain_cons_cons.1 chain
      simp only [joins, Bool.and_eq_true] at first
      exact List.forall_mem_cons.2 ⟨first.1.1, ih rest (by simpa using ends)⟩

theorem joined_concat (final : tokens.getLast? = some last) (continues : joins source last token = true)
    (said : ∀ t ∈ tokens, t.kind = .comment → t.value.isSome = true)
    (ordered : ∀ t ∈ tokens, t.pos.stop ≤ token.pos.offset) :
    ∃ front whole value, joined source tokens = front ++ [whole] ∧ whole.value = some value ∧
      joined source (tokens ++ [token]) = front ++
        [{ whole with
          value := some (value ++ "\n" ++ token.text), pos := whole.pos.cover token.pos }] := by
  obtain ⟨front, run, split, ends, longer⟩ := splitBy_concat final continues
  have member : run ∈ tokens.splitBy (joins source) := by simp [split]
  have inside (t : Token) (h : t ∈ run) : t ∈ tokens := by
    rw [← List.flatten_splitBy (joins source) tokens]
    exact List.mem_flatten_of_mem member h
  have remarks : ∀ t ∈ run, t.isRemark source = true := by
    simp only [joins, Bool.and_eq_true] at continues
    exact isRemark_of_mem (List.isChain_of_mem_splitBy member) ends continues.1.1
  have comments (t : Token) (h : t ∈ run) : t.kind = .comment := by
    have remark := remarks t h
    simp only [isRemark, Bool.and_eq_true, decide_eq_true_eq] at remark
    exact remark.1
  obtain ⟨whole, value, fused, same, fused'⟩ :=
    fuse_concat (List.ne_nil_of_mem_splitBy member)
      (fun t h => said t (inside t h) (comments t h)) (fun t h => ordered t (inside t h))
  refine ⟨front.filterMap fuse, whole, value, ?_, same, ?_⟩
  · rw [joined, split, List.filterMap_append, List.filterMap_cons_some fused, List.filterMap_nil]
  · rw [joined, longer, List.filterMap_append, List.filterMap_cons_some fused', List.filterMap_nil]

end Runs

namespace Scan

/-- The last token is a line comment, and only white space stands between it and the cursor. -/
def waits (s : Scan) (source : List Char) : Bool :=
  s.tokens.head?.any fun token =>
    token.isRemark source && (source.extract token.pos.stop s.cursor.offset).all Text.isGap

/-- A scan that joins line comments and one that does not, at the same place in the source. -/
structure Merges (source : List Char) (s apart : Scan) : Prop where
  sound : apart.Sound source
  cursor_eq : s.cursor = apart.cursor
  tokens_eq : s.tokens.reverse = joined source apart.tokens.reverse
  inRemarks_eq : s.inRemarks = apart.waits source
  previous_eq : s.previous = apart.previous

variable {s apart : Scan} {source text rest line value : List Char} {c : Char} {found : Lexeme}

theorem waits_pass (sound : apart.Sound source) (ahead : source.drop apart.cursor.offset = [c] ++ rest)
    (kept : (apart.record found [c]).tokens = apart.tokens) :
    (apart.record found [c]).waits source = (apart.waits source && Text.isGap c) := by
  unfold waits
  rw [kept, cursor_record, Cursor.offset_advance, List.length_singleton]
  cases last : apart.tokens.head? with
  | none => rfl
  | some token =>
    have before : token.pos.stop ≤ apart.cursor.offset :=
      sound.laid.stop_le token (List.mem_reverse.2 (List.mem_of_mem_head? last))
    have one : source.extract apart.cursor.offset (apart.cursor.offset + 1) = [c] :=
      extract_of_drop ahead
    have longer : source.extract token.pos.stop (apart.cursor.offset + 1) =
        source.extract token.pos.stop apart.cursor.offset ++ [c] := by
      rw [← extract_append before (Nat.le_succ _), one]
    simp [longer, Bool.and_assoc]

namespace Merges

theorem start (source : List Char) : Merges source {} {} where
  sound := ⟨Nat.zero_le _, .nil, by simp⟩
  cursor_eq := rfl
  tokens_eq := rfl
  inRemarks_eq := rfl
  previous_eq := rfl

theorem gap (h : Merges source s apart) (ahead : source.drop apart.cursor.offset = c :: rest)
    (blank : Text.isGap c = true) : Merges source (s.record .gap [c]) (apart.record .gap [c]) where
  sound := h.sound.gap ahead blank
  cursor_eq := by simp [h.cursor_eq]
  tokens_eq := h.tokens_eq
  inRemarks_eq := by
    rw [waits_pass h.sound ahead rfl, blank, Bool.and_true, ← h.inRemarks_eq]
    rfl
  previous_eq := h.previous_eq

theorem stray (h : Merges source s apart) (ahead : source.drop apart.cursor.offset = c :: rest)
    (idle : Idle c) (other : Text.isGap c = false) :
    Merges source (s.record .stray [c]) (apart.record .stray [c]) where
  sound := h.sound.stray ahead idle
  cursor_eq := by simp [h.cursor_eq]
  tokens_eq := h.tokens_eq
  inRemarks_eq := by
    rw [waits_pass h.sound ahead rfl, other, Bool.and_false]
    rfl
  previous_eq := h.previous_eq

theorem isRemark_spanning (kind : Kind) (value : Option String)
    (ahead : source.drop apart.cursor.offset = text ++ rest) :
    isRemark source ⟨kind, value, apart.cursor.spanning text.length⟩ =
      (kind = .comment && ['/', '/'].isPrefixOf text) := by
  rw [isRemark, span, Position.stop, Cursor.spanning, extract_of_drop ahead]

theorem token {kind : Kind} {value : Option String} (h : Merges source s apart)
    (ahead : source.drop apart.cursor.offset = text ++ rest) (written : Written kind value text)
    (other : kind = .comment → ¬ ['/', '/'] <+: text) :
    Merges source (s.record (.token kind value) text) (apart.record (.token kind value) text) := by
  have unlike : isRemark source ⟨kind, value, apart.cursor.spanning text.length⟩ = false := by
    rw [isRemark_spanning kind value ahead, Bool.and_eq_false_imp, ← Bool.not_eq_true,
      List.isPrefixOf_iff_prefix]
    simpa using other
  refine ⟨h.sound.token ahead written, by simp [h.cursor_eq], ?_, ?_, rfl⟩
  · have alone : ∀ last ∈ apart.tokens.reverse.getLast?,
        joins source last ⟨kind, value, apart.cursor.spanning text.length⟩ = false := by
      simp [joins, unlike]
    simp only [Scan.record, List.reverse_cons, h.cursor_eq, h.tokens_eq]
    rw [joined_concat_of_not alone]
  · simp [Scan.record, waits, unlike]

section LineComment

variable (ahead : source.drop apart.cursor.offset = '/' :: '/' :: line ++ rest)
include ahead

theorem isRemark_own (text : String) :
    (apart.own text ('/' :: '/' :: line)).isRemark source = true :=
  isRemark_spanning .comment _ ahead

theorem joins_own (last : Token) (text : String) :
    joins source last (apart.own text ('/' :: '/' :: line)) =
      (last.isRemark source && (source.extract last.pos.stop apart.cursor.offset).all Text.isGap) := by
  rw [joins, isRemark_own ahead, Bool.and_true]
  rfl

theorem waits_own (text : String) :
    (apart.recordApart (.lineComment text) ('/' :: '/' :: line)).waits source = true := by
  have stop : (apart.own text ('/' :: '/' :: line)).pos.stop =
      (apart.recordApart (.lineComment text) ('/' :: '/' :: line)).cursor.offset := by
    rw [cursor_recordApart, Cursor.offset_advance]
    rfl
  rw [waits, tokens_recordApart, List.head?_cons, Option.any_some, isRemark_own ahead, ← stop]
  simp [List.extract]

theorem lineComment (h : Merges source s apart) (remark : Remark line value) :
    Merges source (s.record (.lineComment (String.ofList value)) ('/' :: '/' :: line))
      (apart.recordApart (.lineComment (String.ofList value)) ('/' :: '/' :: line)) := by
  have sound := h.sound.token ahead (.remarks (.line remark))
  have waiting := waits_own ahead (String.ofList value)
  cases merging : s.inRemarks with
  | true =>
    have waits := h.inRemarks_eq.symm.trans merging
    obtain ⟨last, final, continues⟩ := (Option.any_eq_true ..).1 waits
    have comment : last.kind = .comment := by
      simp only [isRemark, Bool.and_eq_true, decide_eq_true_eq] at continues
      exact continues.1.1
    rw [← joins_own ahead last (String.ofList value)] at continues
    obtain ⟨front, whole, value', before, said, after⟩ := joined_concat
      (by simpa using final) continues
      (fun t member comment => (h.sound.laid.written t member).isSome_iff.2 (.inr comment))
      (fun t member => h.sound.laid.stop_le t member)
    have tokens : s.tokens = whole :: front.reverse := by
      rw [← List.reverse_inj, h.tokens_eq, before]
      simp
    have kind : whole.kind = .comment := by
      have kinds := h.previous_eq
      simpa [previous, tokens, final, comment] using kinds
    have added : (s.record (.lineComment (String.ofList value)) ('/' :: '/' :: line)).tokens =
        { whole with
          value := some (value' ++ "\n" ++ String.ofList value)
          pos := whole.pos.cover (apart.cursor.spanning ('/' :: '/' :: line).length) } ::
        front.reverse := by
      simp [Scan.record, addRemark, merging, tokens, said, h.cursor_eq]
    refine ⟨sound, by simp [h.cursor_eq], ?_, waiting.symm, ?_⟩
    · rw [added, List.reverse_cons, List.reverse_reverse, tokens_recordApart, List.reverse_cons, after]
      rfl
    · rw [previous, added, previous, tokens_recordApart]
      exact congrArg some kind
  | false =>
    have unwaits := h.inRemarks_eq.symm.trans merging
    have alone : ∀ last ∈ apart.tokens.reverse.getLast?,
        joins source last (apart.own (String.ofList value) ('/' :: '/' :: line)) = false := by
      intro last final
      rw [joins_own ahead]
      simpa [Scan.waits, show apart.tokens.head? = some last by simpa using final] using unwaits
    have added : (s.record (.lineComment (String.ofList value)) ('/' :: '/' :: line)).tokens =
        apart.own (String.ofList value) ('/' :: '/' :: line) :: s.tokens := by
      simp [Scan.record, addRemark, merging, own, h.cursor_eq]
    refine ⟨sound, by simp [h.cursor_eq], ?_, waiting.symm, ?_⟩
    · rw [added, List.reverse_cons, h.tokens_eq, tokens_recordApart, List.reverse_cons,
        joined_concat_of_not alone]
    · rw [previous, added, previous, tokens_recordApart]
      rfl

end LineComment

theorem record {previous : Option Kind} {start : Cursor} {cs : List Char} {n : Nat}
    (h : Merges source s apart) (ahead : source.drop apart.cursor.offset = c :: cs)
    (lexed : lexeme start previous c cs = .ok (found, n)) :
    Merges source (s.record found (c :: cs.take n)) (apart.recordApart found (c :: cs.take n)) := by
  have split : source.drop apart.cursor.offset = (c :: cs.take n) ++ cs.drop n := by
    rw [ahead, List.cons_append, List.take_append_drop]
  have spelled := lexeme_spelled lexed
  generalize text_eq : c :: cs.take n = text at split spelled ⊢
  cases spelled with
  | token written => exact h.token split written (text_eq ▸ not_remark_of_lexeme lexed)
  | lineComment remark ends => exact lineComment split h remark
  | gap blank => exact h.gap split blank
  | stray idle =>
    obtain ⟨rfl, -⟩ := List.cons.inj text_eq
    exact h.stray split idle (isGap_of_lexeme_stray lexed)

/-- To the end of the source: the same failure, or the tokens of the one scan are those of the other
with line comments joined. -/
theorem run {cs : List Char} (h : Merges source s apart)
    (ahead : source.drop apart.cursor.offset = cs) :
    s.run cs = (apart.runApart cs).map (joined source) := by
  fun_induction apart.runApart cs generalizing s with
  | case1 apart => rw [run_nil, h.tokens_eq, Except.map]
  | case2 apart c cs failure lexed =>
    rw [← h.cursor_eq, ← h.previous_eq] at lexed
    rw [run_cons_error lexed, Except.map]
  | case3 apart c cs found n lexed ih =>
    have next := h.record ahead lexed
    rw [← h.cursor_eq, ← h.previous_eq] at lexed
    rw [run_cons_ok lexed]
    have split : c :: cs = (c :: cs.take n) ++ cs.drop n := by
      rw [List.cons_append, List.take_append_drop]
    refine ih next ?_
    rw [cursor_recordApart, Cursor.offset_advance, ← List.drop_drop, ahead, split, List.drop_left]

end Merges

end Scan

end Token

/-- Joining line comments while scanning is joining them afterwards. -/
theorem tokenize_eq_joined (source : String) :
    tokenize source = (tokenizeApart source).map (Token.joined source.toList) :=
  (Token.Scan.Merges.start source.toList).run rfl

example : (tokenizeApart remarked).map (·.map Token.value) =
    .ok [some "a", some "b", none, some "\x22q", none, none] := by
  cbv

end Flowchart
