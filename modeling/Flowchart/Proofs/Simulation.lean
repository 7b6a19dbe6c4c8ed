import Flowchart.Proofs.Descent

/-! The descent follows the reader. Whatever a part of the descent reads from a place, the reader
reads there: it takes in the same outlines, with the same numbers, and goes on where the part ends;
and where the part fails, the reader fails alike. Each part has a relation that says this of its
result, and the relations are put together along the recursion, which goes to later places only. -/
namespace Flowchart.Program
open Grammar Braces

theorem Reader.extend_append (r : Reader) (outlines outlines' : List Outline) :
    (r.extend outlines).extend outlines' = r.extend (outlines ++ outlines') := by
  simp [extend, Outline.numberAll_append, Outline.sizeAll_append, UInt32.ofNat_add,
    UInt32.add_assoc]

theorem Reader.resume_error (r : Reader) {text : String} {thenPart : List Outline}
    {rest : List Token} {failure : Failure} (h : elseBranch rest = .error failure) :
    ((r.enter text).extend thenPart).resume rest = .error failure := by
  simp [resume, close, enter, extend, h, Except.map]

theorem Point.Takes.next_extend {p p' : Point} {outlines : List Outline} {r : Reader}
    (h : p.Takes (Outline.sizeAll outlines) p') (next : r.next = p.next) :
    (r.extend outlines).next = p'.next := by
  rw [h.next_eq, ← next]
  rfl

theorem exists_of_ahead {kind : Kind} {tokens : List Token} (h : ahead tokens = some kind) :
    ∃ token rest, tokens = token :: rest ∧ token.kind = kind := by
  cases tokens with
  | nil => cases h
  | cons token rest => exact ⟨token, rest, rfl, by simpa [ahead] using h⟩

theorem expectAll_one {kind : Kind} {tokens : List Token} {failure : Failure} :
    expectAll [kind] tokens = .error failure ↔ expect kind tokens = .error failure := by
  rw [expectAll]
  cases expect kind tokens <;> simp [bind, Except.bind, expectAll]

namespace Descent

section Results

variable (tokens : List Token) (c : Course)

/-- What comes of a part that reads a node behind the tokens of `front`. -/
inductive Adds (front : List Token) : Except Failure Node → Course → Prop where
  | node {outline : Outline} {c' : Course} : c.here.Takes outline.size c'.here →
      c.here.index < c'.here.index →
      (∀ r : Reader, r.next = c.here.next →
        r.run (front ++ c.rest tokens) = (r.extend [outline]).run (c'.rest tokens)) →
      Adds front (.ok (outline.number c.here.next)) c'
  | failed {failure : Failure} {c' : Course} :
      (∀ r : Reader, r.next = c.here.next → r.run (front ++ c.rest tokens) = .error failure) →
      Adds front (.error failure) c'

/-- What comes of a block behind its opening brace. A reader that fails there is inside a block. -/
inductive Fills : Except Failure (List Node) → Course → Prop where
  | nodes {outlines : List Outline} {c' : Course} :
      c.here.Takes (Outline.sizeAll outlines) c'.here → c.here.index < c'.here.index →
      (∀ r : Reader, r.next = c.here.next →
        r.run (c.rest tokens) = (r.extend outlines).resume (c'.rest tokens)) →
      Fills (.ok (Outline.numberAll c.here.next outlines)) c'
  | failed {failure : Failure} {c' : Course} :
      (∀ r : Reader, r.next = c.here.next → r.pending ≠ [] →
        r.run (c.rest tokens) = .error failure) →
      Fills (.error failure) c'

inductive Branches : Except Failure (List Node) → Course → Prop where
  | nodes {elsePart : List Outline} {c' : Course} :
      c.here.Takes (Outline.sizeAll elsePart) c'.here →
      (∀ (r : Reader) (text : String) (thenPart : List Outline),
        ((r.enter text).extend thenPart).next = c.here.next →
        ((r.enter text).extend thenPart).resume (c.rest tokens) =
          (r.extend [.branch text thenPart elsePart]).run (c'.rest tokens)) →
      Branches (.ok (Outline.numberAll c.here.next elsePart)) c'
  | failed {failure : Failure} {c' : Course} :
      (∀ (r : Reader) (text : String) (thenPart : List Outline),
        ((r.enter text).extend thenPart).next = c.here.next →
        ((r.enter text).extend thenPart).resume (c.rest tokens) = .error failure) →
      Branches (.error failure) c'

/-- What comes of statements: their block ends, or the tokens end, or they cannot be read. -/
inductive Tells : Except Failure (List Node × Bool) → Course → Prop where
  | closed {outlines : List Outline} {c' : Course} :
      c.here.Takes (Outline.sizeAll outlines) c'.here → c.here.index < c'.here.index →
      (∀ r : Reader, r.next = c.here.next →
        r.run (c.rest tokens) = (r.extend outlines).resume (c'.rest tokens)) →
      Tells (.ok (Outline.numberAll c.here.next outlines, true)) c'
  | ended {outlines : List Outline} {c' : Course} :
      c.here.Takes (Outline.sizeAll outlines) c'.here → c'.rest tokens = [] →
      (∀ r : Reader, r.next = c.here.next → r.run (c.rest tokens) = (r.extend outlines).run []) →
      Tells (.ok (Outline.numberAll c.here.next outlines, false)) c'
  | failed {failure : Failure} {c' : Course} :
      (∀ r : Reader, r.next = c.here.next → r.run (c.rest tokens) = .error failure) →
      Tells (.error failure) c'

/-- Statements read from the place tell what the reader reads there, if more calls may be open than
tokens lie ahead. -/
def Reads (base : Point) : Prop :=
  ∀ calls, tokens.length < c.here.index + calls →
    Keeps tokens base (statements tokens calls) c (Tells tokens c)

def ReadsLater (base : Point) : Prop :=
  ∀ c' : Course, c.here.index < c'.here.index → c'.Within tokens base → Reads tokens c' base

end Results

variable {tokens rest : List Token} {base : Point} {c c1 : Course} {token : Token}

theorem ReadsLater.trans (h : ReadsLater tokens c base) (le : c.here.index ≤ c1.here.index) :
    ReadsLater tokens c1 base :=
  fun c' further => h c' (le.trans_lt further)

theorem length_kinds (form : Form) : (kinds form).length = form.length := by
  simp [kinds, Form.length]
  omega

theorem label?_of_spells {form : Form} {front : List Token} (member : form ∈ forms)
    (h : Spells (kinds form) front) (rest : List Token) :
    form.label? (front ++ rest) = some (labelText front) := by
  obtain ⟨opening, behind, rfl, opens, more⟩ := List.map_eq_append_iff.1 h
  obtain ⟨label, closing, rfl, string, closes⟩ := List.map_eq_cons_iff.1 more
  have unlabelled : ∀ form ∈ forms, .string ∉ form.opening := by decide
  have first : opening.find? (·.kind = .string) = none := by
    rw [List.find?_eq_none]
    intro token inside
    have other : token.kind ≠ .string := fun same =>
      unlabelled form member (same ▸ opens ▸ List.mem_map_of_mem inside)
    simpa using other
  rw [List.append_assoc, List.cons_append, Form.label?, strip?_of_spells opens]
  simp [string, strip?_of_spells closes, labelText, first]

theorem keeps_box {front : List Token} {text : String} {shape : Shape}
    (h : c.Within tokens base) (inside : c1.Within tokens base) (takes : c.here.Takes 0 c1.here)
    (further : c.here.index < c1.here.index)
    (left : c.rest tokens = front ++ c1.rest tokens)
    (drawn : Draws (ahead (c1.rest tokens)) front text shape) :
    Keeps tokens base (expression text shape) c1 (Adds tokens c []) := by
  have paid := h.here.paid
  have given := takes.given_eq
  have next : c1.here.next = c.here.next := by simpa using takes.next_eq
  have takes' : c.here.Takes (Outline.box text shape).size c1.give.here := takes.trans c1.takes_give
  refine .bind_of_run (run_fresh c1) (.pure (inside.give (by omega)) ?_)
  rw [next]
  refine .node takes' further fun r _ => ?_
  rw [List.nil_append, left, r.run_box drawn]
  rfl

theorem keeps_bare (h : c.Within tokens base) (left : c.rest tokens = token :: rest)
    (string : token.kind = .string) :
    Keeps tokens base (bare tokens token) c (Adds tokens c []) := by
  obtain ⟨inside, behind⟩ := h.pass_one left
  rw [bare]
  refine .bind_of_run (run_advance 1 c) (.bind_of_run (run_cursor _) ?_)
  by_cases semi : ahead ((c.pass 1).rest tokens) = some .semi
  · obtain ⟨mark, more, split, ends⟩ := exists_of_ahead semi
    obtain ⟨inside', behind'⟩ := inside.pass_one split
    rw [if_pos (seenAt_one.2 semi)]
    refine .bind_of_run (run_advance 1 _) ?_
    have spelled : Spells [.string, .semi] [token, mark] := by simp [Spells, string, ends]
    have takes := (c.takes_pass 1).trans (Course.takes_pass _ 1)
    refine keeps_box h inside' takes ?_ ?_ (.square spelled)
    · simp
    · rw [left, ← behind, split, behind']
      rfl
  · rw [if_neg (mt seenAt_one.1 semi)]
    have spelled : Spells [.string] [token] := by simp [Spells, string]
    refine keeps_box h inside (c.takes_pass 1) (by simp) ?_ (.bare spelled semi)
    simp [left]

theorem keeps_shaped {form : Form} (h : c.Within tokens base) (member : form ∈ forms)
    (seen : seenAt tokens c.here.index (kinds form) = true) :
    Keeps tokens base (shaped tokens form) c (Adds tokens c []) := by
  obtain ⟨rest, stripped⟩ := Option.isSome_iff_exists.1 seen
  obtain ⟨front, left, spelled⟩ := exists_of_strip? stripped
  have length : front.length = (kinds form).length := by rw [← spelled, List.length_map]
  have ahead : c.rest tokens = front ++ rest := left
  have fits : c.here.index + (kinds form).length ≤ tokens.length := by
    have room := h.length_rest
    rw [ahead, List.length_append] at room
    omega
  have sliced : run (slice tokens (kinds form).length) c = (.ok front, c) := by
    rw [slice, run_bind_ok (run_cursor c), if_pos fits, left, ← length, List.take_left]
    rfl
  obtain ⟨front', rest', split, length', drawn⟩ :=
    exists_box_of_label? member (label?_of_spells member spelled rest)
  obtain ⟨rfl, rfl⟩ := List.append_inj split (by rw [length, length', length_kinds])
  have inside : (c.pass (kinds form).length).Within tokens base := h.pass (by simp [ahead, length])
  rw [shaped]
  refine .bind_of_run sliced (.bind_of_run (run_advance _ c) ?_)
  refine keeps_box h inside (c.takes_pass _) ?_ ?_ (drawn _)
  · simp [kinds]
  · rw [Course.rest_pass, ahead, ← length, List.drop_left]

theorem keeps_block {calls : Nat} (h : c.Within tokens base) (read : Reads tokens c base)
    (ample : tokens.length + 1 < c.here.index + calls) :
    Keeps tokens base (block tokens calls) c (Fills tokens c) := by
  obtain ⟨calls, rfl⟩ := h.exists_succ (Nat.lt_of_succ_lt ample)
  rw [block]
  refine (read calls (by omega)).bind (fun result c' inside tells => ?_)
    fun failure c' tells => ?_
  · cases tells with
    | closed takes further reads => exact .pure inside (.nodes takes further reads)
    | ended takes last reads =>
      refine .throw inside (.failed fun r next waiting => ?_)
      rw [reads r next, Reader.run_nil, if_neg (by simpa [Reader.extend] using waiting)]
  · cases tells with
    | failed fails => exact .failed fun r next _ => fails r next

theorem branches_of_fills {remarks : List Token} {word brace : Token}
    {result : Except Failure (List Node)} {c' : Course} (takes : c.here.Takes 0 c1.here)
    (left : c.rest tokens = remarks ++ word :: brace :: c1.rest tokens)
    (comments : ∀ remark ∈ remarks, remark.kind = .comment)
    (spelled : Spells [.elseWord, .lBrace] [word, brace]) (h : Fills tokens c1 result c') :
    Branches tokens c result c' := by
  have same : c1.here.next = c.here.next := by simpa using takes.next_eq
  have enters (r : Reader) (text : String) (thenPart : List Outline) :
      ((r.enter text).extend thenPart).resume (c.rest tokens) =
        (r.enterElse text thenPart).run (c1.rest tokens) := by
    rw [left, r.resume_else comments spelled]
  cases h with
  | nodes takes' _ reads =>
    rw [same]
    refine .nodes (by simpa using takes.trans takes') fun r text thenPart next => ?_
    rw [enters, reads (r.enterElse text thenPart) (next.trans same.symm), r.resume_end]
  | failed fails =>
    refine .failed fun r text thenPart next => ?_
    rw [enters]
    exact fails _ (next.trans same.symm) (by simp [Reader.enterElse])

theorem keeps_elseBlock {calls : Nat} (h : c.Within tokens base)
    (later : ReadsLater tokens c base) (ample : tokens.length + 1 < c.here.index + calls) :
    Keeps tokens base (elseBlock tokens calls) c (Branches tokens c) := by
  obtain ⟨calls, rfl⟩ := h.exists_succ (Nat.lt_of_succ_lt ample)
  have deep : tokens.length < c.here.index + calls := by omega
  rw [elseBlock]
  refine (keeps_skipComments h deep).bind (fun _ c1 inside1 clears => ?_)
    fun failure c1 clears => by cases clears.result_eq
  obtain ⟨-, takes1, ⟨remarks, split, comments⟩, behind⟩ := clears
  refine .bind_of_run (run_cursor c1) ?_
  by_cases elses : ahead (c1.rest tokens) = some .elseWord
  · obtain ⟨word, rest, left, kind⟩ := exists_of_ahead elses
    obtain ⟨inside2, behind2⟩ := inside1.pass_one left
    have takes2 := takes1.trans (c1.takes_pass 1)
    rw [if_pos (seenAt_one.2 elses)]
    refine .bind_of_run (run_advance 1 c1) ?_
    refine (keeps_expectEach [.lBrace] inside2).bind (fun passed c3 inside3 opened => ?_)
      fun failure c3 opened => ?_
    · cases opened with
      | all takes length split' spelled =>
        obtain ⟨brace, _, rfl, opens, rfl⟩ := by
          simpa only [Spells, List.map_eq_cons_iff, List.map_eq_nil_iff] using spelled
        have further : c.here.index + 2 ≤ c3.here.index := by
          have := takes1.index_le
          simp only [Course.index_pass, List.length_singleton] at length
          omega
        have ends : c.rest tokens = remarks ++ word :: brace :: c3.rest tokens := by
          rw [split, left, ← behind2, split']
          rfl
        have spelled' : Spells [.elseWord, .lBrace] [word, brace] := by simp [Spells, kind, opens]
        have read := later c3 (by omega) inside3
        exact (keeps_block inside3 read (by omega)).mono fun result c4 =>
          branches_of_fills (takes2.trans takes) ends comments spelled'
    · cases opened with
      | missed missing =>
        rw [behind2, expectAll_one] at missing
        refine .failed fun r text thenPart _ => r.resume_error ?_
        rw [split, left]
        exact elseBranch_error comments kind missing
  · have noElse : Branches tokens c (.ok (Outline.numberAll c.here.next [])) c1 := by
      refine .nodes takes1 fun r text thenPart _ => ?_
      rw [split]
      exact r.resume_then comments behind elses
    rw [if_neg (mt seenAt_one.1 elses)]
    exact .pure inside1 noElse

structure Opens (tokens : List Token) (front : List Token) (c : Course) (text : String)
    (c' : Course) : Prop where
  takes : c.here.Takes 3 c'.here
  further : c.here.index < c'.here.index
  enters : ∀ r : Reader, r.run (front ++ c.rest tokens) = (r.enter text).run (c'.rest tokens)

theorem header_of_passed {word : Token} {passed : List Token} (reserved : word.kind = .ifWord)
    (h : Spells headKinds passed) : Header (word :: passed) (labelText passed) := by
  obtain ⟨left, _, rfl, hl, label, _, rfl, hs, right, _, rfl, hr, brace, _, rfl, hb, rfl⟩ := by
    simpa only [Spells, headKinds, List.map_eq_cons_iff, List.map_eq_nil_iff] using h
  have text : labelText [left, label, right, brace] = label.text := by simp [labelText, hl, hs]
  rw [text]
  exact .mk (by simp [Spells, reserved, hl, hs, hr, hb])

theorem opens_of_spells {word : Token} {passed : List Token} (reserved : word.kind = .ifWord)
    (takes : c.here.Takes 0 c1.here) (further : c.here.index < c1.here.index)
    (left : c.rest tokens = passed ++ c1.rest tokens) (spelled : Spells headKinds passed) :
    Opens tokens [word] c (labelText passed) c1.give.give.give where
  takes := takes.trans (c1.takes_give.trans (c1.give.takes_give.trans c1.give.give.takes_give))
  further := further
  enters r := by
    rw [List.singleton_append, left, ← List.cons_append,
      r.run_header (header_of_passed reserved spelled)]
    rfl

theorem Opens.next_enter {front : List Token} {text : String} {r : Reader}
    (h : Opens tokens front c text c1) (next : r.next = c.here.next) :
    (r.enter text).next = c1.here.next := by
  rw [h.takes.next_eq, ← next]
  rfl

theorem Opens.adds {front : List Token} {text : String} {c2 c3 : Course} {thenPart : List Outline}
    {elseResult : Except Failure (List Node)} (h : Opens tokens front c text c1)
    (takes : c1.here.Takes (Outline.sizeAll thenPart) c2.here)
    (further : c1.here.index < c2.here.index)
    (reads : ∀ r : Reader, r.next = c1.here.next →
        r.run (c1.rest tokens) = (r.extend thenPart).resume (c2.rest tokens))
    (branches : Branches tokens c2 elseResult c3) :
    Adds tokens c front (elseResult.map fun elseNodes =>
      .condition c.here.next text (c.here.next + 1) (Outline.numberAll c1.here.next thenPart)
        (c.here.next + 2) elseNodes) c3 := by
  have opens (r : Reader) (next : r.next = c.here.next) :
      r.run (front ++ c.rest tokens) =
        ((r.enter text).extend thenPart).resume (c2.rest tokens) := by
    rw [h.enters r, reads _ (h.next_enter next)]
  have extended {r : Reader} (next : r.next = c.here.next) :
      ((r.enter text).extend thenPart).next = c2.here.next :=
    takes.next_extend (h.next_enter next)
  cases branches with
  | @nodes elsePart _ takes' reads' =>
    have number : (Outline.branch text thenPart elsePart).number c.here.next =
        .condition c.here.next text (c.here.next + 1) (Outline.numberAll c1.here.next thenPart)
          (c.here.next + 2) (Outline.numberAll c2.here.next elsePart) := by
      simp [Outline.number, takes.next_eq, h.takes.next_eq]
    rw [Except.map, ← number]
    refine .node ((h.takes.trans takes).trans takes') ?_ fun r next => ?_
    · exact (h.further.trans further).trans_le takes'.index_le
    · rw [opens r next]
      exact reads' r text thenPart (extended next)
  | failed fails =>
    refine .failed fun r next => ?_
    rw [opens r next]
    exact fails r text thenPart (extended next)

theorem keeps_condition {word : Token} {calls : Nat} (reserved : word.kind = .ifWord)
    (h : c.Within tokens base) (later : ReadsLater tokens c base)
    (ample : tokens.length < c.here.index + calls) :
    Keeps tokens base (condition tokens calls) c (Adds tokens c [word]) := by
  have paid := h.here.paid
  obtain ⟨calls, rfl⟩ := h.exists_succ ample
  rw [condition]
  refine (keeps_expectEach headKinds h).bind (fun passed c1 inside1 heads => ?_)
    fun failure c1 heads => ?_
  · cases heads with
    | all takes1 length split spelled =>
      simp only [headKinds, List.length_cons, List.length_nil] at length
      have opens := opens_of_spells reserved takes1 (by omega) split spelled
      have first : c1.here.next = c.here.next := by simpa using takes1.next_eq
      have second : c1.here.next + 1 + 1 = c1.here.next + 2 := by
        rw [UInt32.add_assoc]
        rfl
      have given := takes1.given_eq
      have inside2 : c1.give.give.give.Within tokens base :=
        ((inside1.give (by omega)).give (by simp; omega)).give (by simp; omega)
      refine .bind_of_run (run_fresh c1) ?_
      refine .bind_of_run (run_fresh _) (.bind_of_run (run_fresh _) ?_)
      have read := later _ opens.further inside2
      refine (keeps_block inside2 read (by simp; omega)).bind
        (fun thenNodes c3 inside3 fills => ?_) fun failure c3 fills => ?_
      · cases fills with
        | nodes takes further reads =>
          have later3 := later.trans (opens.further.trans further).le
          have ample3 : tokens.length + 1 < c3.here.index + calls := by
            simp only [Course.index_give] at further
            omega
          refine (keeps_elseBlock inside3 later3 ample3).bind
            (fun elseNodes c4 inside4 branches => .pure inside4 ?_)
            fun failure c4 => opens.adds takes further reads
          have adds := opens.adds takes further reads branches
          rwa [Except.map, ← first, ← second] at adds
      · cases fills with
        | failed fails =>
          refine .failed fun r next => ?_
          rw [opens.enters r]
          exact fails _ (opens.next_enter next) (by simp [Reader.enter])
  · cases heads with
    | missed missing =>
      have headless := header_eq_error_iff.2 (expectAll_eq_error_iff.1 missing)
      refine .failed fun r _ => Reader.run_cons_error ?_
      simp [Reader.step, item, reserved, headless, Except.map]

theorem Tells.behind {front : List Outline} {result : Except Failure (List Node × Bool)}
    {c' : Course} (h : Tells tokens c1 result c')
    (takes : c.here.Takes (Outline.sizeAll front) c1.here)
    (reads : ∀ r : Reader, r.next = c.here.next →
      r.run (c.rest tokens) = (r.extend front).run (c1.rest tokens)) :
    Tells tokens c (result.map (before (Outline.numberAll c.here.next front))) c' := by
  have numbered (outlines : List Outline) : Outline.numberAll c.here.next front ++
      Outline.numberAll c1.here.next outlines =
        Outline.numberAll c.here.next (front ++ outlines) := by
    rw [Outline.numberAll_append, takes.next_eq]
  cases h with
  | closed takes' further reads' =>
    simp only [Except.map, before, numbered]
    refine .closed ?_ (takes.index_le.trans_lt further) fun r next => ?_
    · rw [Outline.sizeAll_append]
      exact takes.trans takes'
    · rw [reads r next, reads' _ (takes.next_extend next), Reader.extend_append]
  | ended takes' last reads' =>
    simp only [Except.map, before, numbered]
    refine .ended ?_ last fun r next => ?_
    · rw [Outline.sizeAll_append]
      exact takes.trans takes'
    · rw [reads r next, reads' _ (takes.next_extend next), Reader.extend_append]
  | failed fails =>
    refine .failed fun r next => ?_
    rw [reads r next, fails _ (takes.next_extend next)]

theorem keeps_before {x : Descent Node} {front : List Token} {calls : Nat}
    (takes : c.here.Takes 0 c1.here) (left : c.rest tokens = front ++ c1.rest tokens)
    (h : Keeps tokens base x c1 (Adds tokens c1 front)) (later : ReadsLater tokens c base)
    (ample : tokens.length ≤ c.here.index + calls) :
    Keeps tokens base (do return before [← x] (← statements tokens calls)) c1 (Tells tokens c) := by
  have same : c1.here.next = c.here.next := by simpa using takes.next_eq
  refine h.bind (fun node c2 inside adds => ?_) fun failure c2 adds => ?_
  · cases adds with
    | @node outline _ takes' further reads =>
      have takes2 : c.here.Takes (Outline.sizeAll [outline]) c2.here := by
        simpa using takes.trans takes'
      have reads2 (r : Reader) (next : r.next = c.here.next) :
          r.run (c.rest tokens) = (r.extend [outline]).run (c2.rest tokens) := by
        rw [left, reads r (next.trans same.symm)]
      have later2 := takes.index_le.trans_lt further
      rw [same]
      exact (later c2 later2 inside calls (by omega)).bind
        (fun result c3 inside3 tells => .pure inside3 (tells.behind takes2 reads2))
        fun failure c3 tells => tells.behind takes2 reads2
  · cases adds with
    | failed fails =>
      refine .failed fun r next => ?_
      rw [left, fails r (next.trans same.symm)]

theorem keeps_leave {calls : Nat} (h : c.Within tokens base)
    (seen : seenAt tokens c.here.index [.returnWord, .semi] = true)
    (ample : tokens.length ≤ c.here.index + calls) :
    Keeps tokens base (leave tokens calls) c (Tells tokens c) := by
  obtain ⟨rest, stripped⟩ := Option.isSome_iff_exists.1 seen
  obtain ⟨front, left, spelled⟩ := exists_of_strip? stripped
  obtain ⟨word, _, rfl, -, semi, _, rfl, -, rfl⟩ := by
    simpa only [Spells, List.map_eq_cons_iff, List.map_eq_nil_iff] using spelled
  have ahead : c.rest tokens = word :: semi :: rest := left
  have behind : (c.pass 2).give.rest tokens = rest := by simp [ahead]
  have paid := h.here.paid
  have inside : (c.pass 2).give.Within tokens base :=
    (h.pass (by simp [ahead])).give (by simp; omega)
  have takes : c.here.Takes (Outline.sizeAll [.leave]) (c.pass 2).give.here :=
    (c.takes_pass 2).trans (c.pass 2).takes_give
  rw [leave]
  refine .bind_of_run (run_advance 2 c) (.bind_of_run (run_fresh _) ?_)
  refine (keeps_skipBlock 0 inside (by simp; omega)).bind
    (fun closed c' inside' skips => .pure inside' ?_) fun failure c' skips => by cases skips.result_eq
  have takes' := takes.trans skips.takes
  have further : c.here.index < c'.here.index := by
    have := skips.takes.index_le
    simp only [Course.index_give, Course.index_pass] at this
    omega
  have ends := skips.result_eq
  have rest_eq := skips.rest_eq
  rw [behind] at ends rest_eq
  cases found : blockEnd? 0 rest with
  | some n =>
    rw [found] at ends rest_eq
    cases ends
    obtain ⟨dead, brace, more, rfl, closes, sealed, level, rfl⟩ := exists_of_blockEnd? found
    refine .closed takes' further fun r _ => ?_
    rw [ahead, r.run_return spelled (balanced_iff.2 ⟨sealed, level⟩) (by simp [Spells, closes]),
      rest_eq]
    simp
  | none =>
    rw [found] at ends rest_eq
    cases ends
    have last : c'.rest tokens = [] := by simpa using rest_eq
    refine .ended takes' last fun r _ => ?_
    rw [ahead, r.run_last_return spelled (blockEnd?_eq_none_iff.1 found)]

theorem seenAt_of_label? {form : Form} {text : String}
    (h : form.label? (c.rest tokens) = some text) :
    seenAt tokens c.here.index (kinds form) = true := by
  obtain ⟨opening, label, closing, rest, split, opens, string, closes, -⟩ := exists_of_label? h
  have spelled : Spells (kinds form) (opening ++ label :: closing) := by
    rw [Spells, List.map_append, List.map_cons, opens, string, closes, kinds]
  have split' : c.rest tokens = (opening ++ label :: closing) ++ rest := by simp [split]
  rw [seenAt, ← Course.rest, split', strip?_of_spells spelled]
  rfl

theorem item_of_unseen (left : c.rest tokens = token :: rest)
    (string : ¬ seenAt tokens c.here.index [.string] = true)
    (form : forms.find? (seenAt tokens c.here.index <| kinds ·) = none)
    (brace : ¬ seenAt tokens c.here.index [.rBrace] = true)
    (word : ¬ seenAt tokens c.here.index [.ifWord] = true)
    (leaves : ¬ seenAt tokens c.here.index [.returnWord, .semi] = true)
    (comment : ¬ seenAt tokens c.here.index [.comment] = true) :
    item token rest = .error (.unexpectedToken token.kind token.pos) := by
  simp only [seenAt_one, left, ahead, List.head?_cons, Option.map_some, Option.some.injEq]
    at string brace word comment
  have unformed : forms.findSome? (fun form => (form.label? (token :: rest)).map
      fun text => (Item.box text form.shape, form.length - 1)) = none := by
    rw [List.findSome?_eq_none_iff]
    intro form' member
    have unseen := List.find?_eq_none.1 form form' member
    rw [Option.map_eq_none_iff, ← left]
    cases labelled : form'.label? (c.rest tokens) with
    | none => rfl
    | some text => exact absurd (seenAt_of_label? labelled) unseen
  unfold item
  simp only
  split
  · contradiction
  · contradiction
  · contradiction
  · contradiction
  next returns =>
    refine if_neg fun semi => leaves ?_
    obtain ⟨mark, more, rfl, ends⟩ := exists_of_ahead semi
    rw [seenAt, ← Course.rest, left]
    simp [strip?, returns, ends]
  next => rw [unformed]

theorem reads_of_later (h : c.Within tokens base) (later : ReadsLater tokens c base) :
    Reads tokens c base := by
  intro calls ample
  obtain ⟨calls, rfl⟩ := h.exists_succ ample
  have ample' : tokens.length ≤ c.here.index + calls := Nat.le_of_lt_succ ample
  rw [statements]
  refine .bind_of_run (run_cursor c) ?_
  rw [c.getElem?_index]
  cases left : c.rest tokens with
  | nil =>
    have ended : Tells tokens c (.ok (Outline.numberAll c.here.next [], false)) c :=
      .ended (.refl _) left fun r _ => by rw [left, r.extend_nil]
    exact .pure h ended
  | cons token rest =>
    obtain ⟨inside, behind⟩ := h.pass_one left
    have passes := c.takes_pass 1
    have ample1 : tokens.length < (c.pass 1).here.index + calls := by simp; omega
    have kind {kind : Kind} (seen : seenAt tokens c.here.index [kind] = true) :
        token.kind = kind := by
      simpa [seenAt_one, left, ahead] using seen
    change Keeps tokens base (if seenAt tokens c.here.index [.string] = true then _ else _) c _
    split
    next string => exact keeps_before (.refl _) rfl (keeps_bare h left (kind string)) later ample'
    next string =>
    split
    next form found =>
      have seen := List.find?_some found
      have read := keeps_shaped h (List.mem_of_find?_eq_some found) seen
      exact keeps_before (.refl _) rfl read later ample'
    next form =>
    split
    next brace =>
      have closed : Tells tokens c (.ok (Outline.numberAll c.here.next [], true)) (c.pass 1) := by
        refine .closed passes (Nat.lt_add_one _) fun r _ => ?_
        rw [left, behind, r.run_brace (by simp [Spells, kind brace]), r.extend_nil]
      exact .bind_of_run (run_advance 1 c) (.pure inside closed)
    next brace =>
    split
    next word =>
      have read := keeps_condition (kind word) inside (later.trans passes.index_le) ample1
      refine .bind_of_run (run_advance 1 c) (keeps_before passes ?_ read later ample')
      rw [left, behind]
      rfl
    next word =>
    split
    next leaves => exact keeps_leave h leaves ample'
    next leaves =>
    split
    next comment =>
      have read := later _ (Nat.lt_add_one _) inside calls ample1
      refine .bind_of_run (run_advance 1 c) (read.mono ?_)
      intro result c' tells
      have skipped : Tells tokens c (result.map (before (Outline.numberAll c.here.next []))) c' :=
        tells.behind passes fun r _ => by
          rw [left, behind, r.run_comment (by simp [Spells, kind comment]), r.extend_nil]
      cases result <;> exact skipped
    next comment =>
      refine .throw h (.failed fun r _ => ?_)
      rw [left]
      refine Reader.run_cons_error ?_
      simp [Reader.step, item_of_unseen left string form brace word leaves comment]

theorem reads_of_within (h : c.Within tokens base) : Reads tokens c base := by
  -- Fewer tokens lie ahead of every later place.
  induction room : tokens.length - c.here.index using Nat.strong_induction_on generalizing c with
  | _ room' ih =>
  subst room
  refine reads_of_later h fun c' further inside => ih _ ?_ inside rfl
  have := inside.here.index_le_length
  omega

end Descent

end Flowchart.Program
