import Flowchart.Proofs.Simulation
import Flowchart.Proofs.WellFormed

/-! The descent makes progress. Statements pass at least one token where there is one, so that runs
of statements come to the end of the tokens, and at most two calls more are open at a time than
tokens lie ahead; no part leaves the tokens, slices beyond their end or lowers a depth below zero;
and a program is read exactly as the reader reads it. -/
namespace Flowchart.Program.Descent
open Grammar

variable {tokens : List Token} {base : Point} {c c1 : Course}

theorem Tells.further {read : List Node × Bool} {c' : Course} (h : Tells tokens c (.ok read) c')
    (nonempty : c.rest tokens ≠ []) : c.here.index < c'.here.index := by
  cases h with
  | closed _ further _ => exact further
  | ended _ last _ =>
    have before : c.here.index < tokens.length := by
      by_contra beyond
      exact nonempty (List.drop_eq_nil_iff.2 (Nat.le_of_not_lt beyond))
    exact before.trans_le (List.drop_eq_nil_iff.1 last)

theorem Tells.exists_run {read : List Node × Bool} {c' : Course}
    (h : Tells tokens c (.ok read) c') :
    ∃ outlines, read.1 = Outline.numberAll c.here.next outlines ∧
      c.here.Takes (Outline.sizeAll outlines) c'.here ∧
      ∀ r : Reader, r.next = c.here.next → r.place = .program →
        r.run (c.rest tokens) = (r.extend outlines).run (c'.rest tokens) := by
  cases h with
  | closed takes _ reads =>
    refine ⟨_, rfl, takes, fun r next top => ?_⟩
    rw [reads r next, (r.extend _).resume_program top]
  | ended takes last reads =>
    refine ⟨_, rfl, takes, fun r next _ => ?_⟩
    rw [reads r next, last]

inductive Finishes (tokens : List Token) (c : Course) :
    Except Failure (List Node) → Course → Prop where
  | nodes {outlines : List Outline} {c' : Course} :
      c.here.Takes (Outline.sizeAll outlines) c'.here →
      (∀ r : Reader, r.next = c.here.next → r.place = .program →
        r.run (c.rest tokens) = (r.extend outlines).run []) →
      Finishes tokens c (.ok (Outline.numberAll c.here.next outlines)) c'
  | failed {failure : Failure} {c' : Course} :
      (∀ r : Reader, r.next = c.here.next → r.place = .program →
        r.run (c.rest tokens) = .error failure) →
      Finishes tokens c (.error failure) c'

theorem Finishes.behind {front : List Outline} {result : Except Failure (List Node)} {c' : Course}
    (h : Finishes tokens c1 result c') (takes : c.here.Takes (Outline.sizeAll front) c1.here)
    (reads : ∀ r : Reader, r.next = c.here.next → r.place = .program →
      r.run (c.rest tokens) = (r.extend front).run (c1.rest tokens)) :
    Finishes tokens c (result.map (Outline.numberAll c.here.next front ++ ·)) c' := by
  cases h with
  | nodes takes' reads' =>
    rw [Except.map, takes.next_eq, ← Outline.numberAll_append]
    refine .nodes ?_ fun r next top => ?_
    · rw [Outline.sizeAll_append]
      exact takes.trans takes'
    · rw [reads r next top, reads' _ (takes.next_extend next) top, Reader.extend_append]
  | failed fails =>
    refine .failed fun r next top => ?_
    rw [reads r next top, fails _ (takes.next_extend next) top]

theorem keeps_runs {calls : Nat} (h : c.Within tokens base)
    (ample : tokens.length + 1 < c.here.index + calls) :
    Keeps tokens base (runs tokens calls) c (Finishes tokens c) := by
  -- Each run of statements passes a token.
  induction calls generalizing c with
  | zero =>
    have := h.here.index_le_length
    omega
  | succ calls ih =>
  rw [runs]
  refine .bind_of_run (run_cursor c) ?_
  rw [c.getElem?_index]
  cases left : c.rest tokens with
  | nil =>
    have finished : Finishes tokens c (.ok (Outline.numberAll c.here.next [])) c :=
      .nodes (.refl _) fun r _ _ => by rw [left, r.extend_nil]
    exact .pure h finished
  | cons token rest =>
    refine (reads_of_within h calls (by omega)).bind (fun read c1 inside tells => ?_)
      fun failure c1 tells => ?_
    · have further := tells.further (by simp [left])
      have later := ih inside (by omega)
      obtain ⟨outlines, first, takes, reads⟩ := tells.exists_run
      rw [first]
      exact later.bind (fun nodes c2 inside2 ends => .pure inside2 (ends.behind takes reads))
        fun failure c2 ends => ends.behind takes reads
    · cases tells with
      | failed fails => exact .failed fun r next _ => fails r next

/-- Where the nodes of a program begin to be read: the root has its number. -/
def top : Point := ⟨0, 1, 1⟩

theorem within_top (tokens : List Token) : ({} : Course).give.Within tokens top := by
  have points : ({} : Course).give.points = [top, {}] := rfl
  intro p member
  rw [points, List.mem_cons, List.mem_singleton] at member
  rcases member with rfl | rfl
  · exact ⟨Nat.le_refl _, Nat.zero_le _, Nat.le_refl _, rfl⟩
  · exact ⟨Nat.le_refl _, Nat.zero_le _, Nat.zero_le _, rfl⟩

/-- A descent from the first token reads what the reader reads, and gives as many numbers as the
program has. -/
theorem keeps_program (direction : Direction) {tokens : List Token} {calls : Nat}
    (ample : tokens.length + 1 < calls) :
    Keeps tokens top (program tokens direction calls) {} fun result c =>
      result = ofTokens direction tokens ∧
      ∀ p, ofTokens direction tokens = .ok p → c.here.given = p.size := by
  have start : ({} : Course).give.rest tokens = tokens := rfl
  rw [program]
  refine .bind_of_run (run_fresh {}) ?_
  refine (keeps_runs (within_top tokens) (by simpa using ample)).bind
    (fun nodes c inside ends => .pure inside ?_) fun failure c ends => ?_
  · cases ends with
    | @nodes outlines _ takes reads =>
      have read : ofTokens direction tokens =
          .ok { direction, nodes := Outline.numberAll 1 outlines } := by
        have ran := reads {} rfl rfl
        rw [start, Reader.run_nil] at ran
        simp [ofTokens, ran, Reader.extend, Except.map]
      refine ⟨read.symm, fun p read' => ?_⟩
      rw [read] at read'
      cases read'
      rw [size_numbered, takes.given_eq]
      rfl
  · cases ends with
    | failed fails =>
      have failed : ofTokens direction tokens = .error failure :=
        ofTokens_eq_error_iff.2 (fails {} rfl rfl)
      refine ⟨failed.symm, fun p read => ?_⟩
      rw [failed] at read
      cases read

/-- Begun at a place, the part comes to an end if two calls more may be open than tokens lie ahead,
and on its way it neither goes back nor leaves the tokens. -/
def Settles {α : Type} (tokens : List Token) (x : Nat → Descent α) (p : Point) : Prop :=
  ∀ calls, tokens.length + 1 < p.index + calls →
    Ends (x calls) ⟨p, []⟩ fun _ c => ∀ q ∈ c.points, p.index ≤ q.index ∧ q.index ≤ tokens.length

theorem within_self {p : Point} (h : p.index ≤ tokens.length) :
    Course.Within ⟨p, []⟩ tokens p := by
  intro q member
  rw [List.mem_singleton.1 member]
  exact ⟨Nat.le_refl _, h, Nat.le_refl _, rfl⟩

theorem settles_of_keeps {α : Type} {x : Nat → Descent α} {p : Point}
    {P : Except Failure α → Course → Prop}
    (h : ∀ calls, tokens.length + 1 < p.index + calls → Keeps tokens p (x calls) ⟨p, []⟩ P) :
    Settles tokens x p := by
  intro calls ample
  refine Ends.mono (h calls ample) fun result c => ?_
  rintro ⟨inside, -⟩ q member
  exact ⟨(inside q member).index_le, (inside q member).index_le_length⟩

/-- Where tokens lie ahead, statements that are read pass at least one. From every place among the
tokens each part comes to an end and stays among them: its calls do not go too deep, no slice is out
of range and no depth is lowered below zero. The whole descent reads what the reader reads, whose
own steps pass no more tokens than there are. -/
theorem descent_progress (settings : Settings) (tokens : List Token) :
    (∀ (p : Point) (calls : Nat), p.index < tokens.length → tokens.length < p.index + calls →
      Ends (statements tokens calls) ⟨p, []⟩ fun result c =>
        ∀ read, result = .ok read → p.index < c.here.index) ∧
    (∀ p : Point, p.index ≤ tokens.length →
      Settles tokens (statements tokens) p ∧ Settles tokens (block tokens) p ∧
      Settles tokens (condition tokens) p ∧ Settles tokens (runs tokens) p ∧
      (∀ depth, Settles tokens (skipBlock tokens · depth) p) ∧
      ∀ form ∈ forms, seenAt tokens p.index (kinds form) = true →
        Settles tokens (fun _ => shaped tokens form) p) ∧
    Settles tokens (program tokens settings.direction) {} ∧
    (∀ calls, tokens.length + 1 < calls →
      ∃ c, run (program tokens settings.direction calls) {} =
        ((ofTokens settings.direction tokens).mapError .failure, c)) ∧
    ∀ (r r' : Reader) (token : Token) (rest : List Token) (n : Nat),
      r.step token rest = .ok (r', n) → n ≤ rest.length := by
  refine ⟨fun p calls before ample => ?_, fun p inside => ?_, fun calls ample => ?_,
    fun calls ample => ?_, fun _ _ _ _ _ => Reader.step_le⟩
  · have nonempty : Course.rest ⟨p, []⟩ tokens ≠ [] := by
      rw [Course.rest, Ne, List.drop_eq_nil_iff]
      exact Nat.not_le_of_lt before
    refine Ends.mono (reads_of_within (within_self before.le) calls ample) ?_
    rintro _ c ⟨-, tells⟩ read rfl
    exact tells.further nonempty
  · have within := within_self inside
    have word : Kind.ifWord.anywhere.kind = .ifWord := rfl
    refine ⟨?_, ?_, ?_, ?_, fun depth => ?_, fun form member seen => ?_⟩
    · exact settles_of_keeps fun calls ample =>
        reads_of_within within calls (Nat.lt_of_succ_lt ample)
    · exact settles_of_keeps fun calls => keeps_block within (reads_of_within within)
    · exact settles_of_keeps fun calls ample =>
        keeps_condition word within (fun c' _ => reads_of_within) (Nat.lt_of_succ_lt ample)
    · exact settles_of_keeps fun calls => keeps_runs within
    · exact settles_of_keeps fun calls ample =>
        keeps_skipBlock depth within (Nat.lt_of_succ_lt ample)
    · exact settles_of_keeps fun _ _ => keeps_shaped within member seen
  · refine Ends.mono (keeps_program settings.direction (by simpa using ample)) ?_
    rintro result c ⟨inside, -⟩ q member
    exact ⟨Nat.zero_le _, (inside q member).index_le_length⟩
  · obtain ⟨result, c, ran, -, rfl, -⟩ := keeps_program settings.direction ample
    exact ⟨c, ran⟩

def strewn : List Token :=
  [.rBrace, .comment, .ifWord, .lParen, .string, .rParen, .lBrace, .returnWord, .semi, .lBrace,
   .rBrace, .rBrace, .comment, .elseWord, .lBrace, .lParen, .string, .rParen, .semi,
   .rBrace].map Kind.anywhere

theorem descent_progress_strewn :
    (0 < strewn.length ∧ strewn.length < 21 ∧ Ends (statements strewn 21) ⟨{}, []⟩ fun result c =>
      ∀ read, result = .ok read → 0 < c.here.index) ∧
    Settles strewn (condition strewn) ⟨3, 1, 1⟩ ∧
    (seenAt strewn 15 [.lParen, .string, .rParen, .semi] = true ∧
      Settles strewn (fun _ => shaped strewn ⟨[.lParen], [.rParen], .rounded⟩) ⟨15, 5, 5⟩) ∧
    (strewn.length + 1 < 22 ∧ ∃ c, run (program strewn .topDown 22) {} = (.ok ⟨0, .topDown,
      [.condition 1 "" 2 [.leave 4] 3 [.expression 5 "" .rounded]]⟩, c)) ∧
    Reader.step {} Kind.ifWord.anywhere (strewn.drop 3) = .ok (Reader.enter {} "", 4) ∧
      4 ≤ (strewn.drop 3).length := by
  obtain ⟨further, within, -, reads, bounded⟩ := descent_progress {} strewn
  obtain ⟨-, -, condition, -⟩ := within ⟨3, 1, 1⟩ (by decide)
  obtain ⟨-, -, -, -, -, shaped⟩ := within ⟨15, 5, 5⟩ (by decide)
  obtain ⟨c, ran⟩ := reads 22 (by decide)
  have read : ofTokens .topDown strewn = .ok ⟨0, .topDown,
      [.condition 1 "" 2 [.leave 4] 3 [.expression 5 "" .rounded]]⟩ := by cbv
  have stepped : Reader.step {} Kind.ifWord.anywhere (strewn.drop 3) =
      .ok (Reader.enter {} "", 4) := rfl
  refine ⟨⟨by decide, by decide, further {} 21 (by decide) (by decide)⟩, condition, ⟨by decide, ?_⟩,
    ⟨by decide, c, ran.trans ?_⟩, stepped, bounded _ _ _ _ _ stepped⟩
  · exact shaped _ (by decide) (by decide)
  · rw [read]
    rfl

end Flowchart.Program.Descent
