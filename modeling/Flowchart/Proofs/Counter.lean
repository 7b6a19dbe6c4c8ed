import Flowchart.Proofs.Forward
import Flowchart.Proofs.Progress

/-! The numbers that a reading gives. Each is paid for by a token that has been passed: a box and a
return take one number for at least one token, and a condition takes three for the five tokens up to
its then-branch. So the next number never exceeds the number of tokens passed by more than the
root's own number, whether the tokens can be read or not, and where a source is short enough the
numbers do not wrap around. -/
namespace Flowchart

theorem Node.sizeAll_reverse (nodes : List Node) :
    Node.sizeAll nodes.reverse = Node.sizeAll nodes := by
  induction nodes with
  | nil => rfl
  | cons node nodes ih =>
    rw [List.reverse_cons, sizeAll_append, ih]
    simp only [sizeAll]
    omega

namespace Program

def Pending.held (condition : Pending) : Nat :=
  3 + Node.sizeAll condition.before + Node.sizeAll (condition.thenNodes?.getD [])

namespace Reader

def held (r : Reader) : Nat := Node.sizeAll r.nodes + (r.pending.map Pending.held).sum

inductive Advances : Reader → List Token → Reader → List Token → Prop where
  | refl (r : Reader) (tokens : List Token) : Advances r tokens r tokens
  | step {r r' last : Reader} {token : Token} {tokens rest : List Token} {n : Nat} :
      r.step token tokens = .ok (r', n) → Advances r' (tokens.drop n) last rest →
      Advances r (token :: tokens) last rest

/-- Behind `passed` tokens the next number says how many were given, and none was given without a
token. -/
structure Counted (r : Reader) (passed : Nat) : Prop where
  next_eq : r.next = .ofNat (1 + r.held)
  held_le : r.held ≤ passed

variable {r r' : Reader} {token : Token} {tokens rest : List Token} {n passed : Nat}

theorem Counted.push {node : Node} (h : r.Counted passed) (one : node.size = 1) :
    (r.push node).Counted (passed + 1) := by
  have held : (r.push node).held = r.held + 1 := by
    simp only [Reader.held, Reader.push, Node.sizeAll, one]
    omega
  refine ⟨?_, by have := h.held_le; omega⟩
  rw [held, ← Nat.add_assoc, UInt32.ofNat_add, ← h.next_eq]
  rfl

theorem Counted.enter (h : r.Counted passed) (text : String) :
    (r.enter text).Counted (passed + 3) := by
  have held : (r.enter text).held = r.held + 3 := by
    simp only [Reader.held, Reader.enter, Pending.held, List.map_cons, List.sum_cons,
      Option.getD_none, Node.sizeAll]
    omega
  refine ⟨?_, by have := h.held_le; omega⟩
  rw [held, ← Nat.add_assoc, UInt32.ofNat_add, ← h.next_eq]
  rfl

theorem held_close (h : r.close tokens = .ok (r', n)) : r'.held = r.held ∧ r'.next = r.next := by
  unfold close at h
  split at h
  · cases h
    exact ⟨rfl, rfl⟩
  next condition pending waiting =>
    split at h
    next thenNodes thens =>
      cases h
      refine ⟨?_, rfl⟩
      simp only [held, finish, waiting, Pending.held, thens, Node.sizeAll, Node.size, List.map_cons,
        List.sum_cons, Option.getD_some, Node.sizeAll_reverse]
      omega
    next thens =>
      cases branch : elseBranch tokens with
      | error failure => simp [branch, Except.map] at h
      | ok result =>
        simp only [branch, Except.map, Except.ok.injEq] at h
        split at h <;> cases h <;> refine ⟨?_, rfl⟩
        · simp only [held, waiting, Pending.held, thens, Node.sizeAll, List.map_cons,
            List.sum_cons, Option.getD_some, Option.getD_none, Node.sizeAll_reverse]
          omega
        · simp only [held, finish, waiting, Pending.held, thens, Node.sizeAll, Node.size,
            List.map_cons, List.sum_cons, Option.getD_none, Node.sizeAll_reverse]
          omega

theorem Counted.closeBehind {m : Nat} (h : r.Counted passed)
    (closed : r.closeBehind tokens n = .ok (r', m)) : r'.Counted passed := by
  unfold Reader.closeBehind at closed
  cases result : r.close (tokens.drop n) with
  | error failure => simp [result, Except.map] at closed
  | ok found =>
    obtain ⟨held, next⟩ := held_close result
    simp only [result, Except.map, Except.ok.injEq, Prod.mk.injEq] at closed
    obtain ⟨rfl, rfl⟩ := closed
    exact ⟨by rw [next, held, h.next_eq], held ▸ h.held_le⟩

theorem Counted.mono {passed' : Nat} (h : r.Counted passed) (le : passed ≤ passed') :
    r.Counted passed' := ⟨h.next_eq, h.held_le.trans le⟩

theorem Counted.step (h : r.Counted passed) (stepped : r.step token tokens = .ok (r', n)) :
    r'.Counted (passed + (1 + n)) := by
  unfold Reader.step at stepped
  split at stepped
  · cases stepped
  next found =>
    cases stepped
    exact (h.push rfl).mono (by omega)
  next found =>
    cases stepped
    cases begins_of_item found with
    | condition front headed =>
      have length := headed.length_eq
      rw [List.length_cons] at length
      exact (h.enter _).mono (by omega)
  next found =>
    cases stepped
    exact h.mono (by omega)
  next found => exact (h.closeBehind stepped).mono (by omega)
  next found => exact ((h.push rfl).closeBehind stepped).mono (by omega)
  next found =>
    cases stepped
    exact (h.push rfl).mono (by omega)

theorem Counted.advances (h : r.Counted passed) (along : Advances r tokens r' rest) :
    ∃ front, tokens = front ++ rest ∧ r'.Counted (passed + front.length) := by
  induction along generalizing passed with
  | refl r tokens => exact ⟨[], rfl, h⟩
  | @step r r' last token tokens rest n stepped _ ih =>
    obtain ⟨front, split, counted⟩ := ih (h.step stepped)
    refine ⟨token :: (tokens.take n ++ front), ?_, counted.mono ?_⟩
    · rw [List.cons_append, List.append_assoc, ← split, List.take_append_drop]
    · have := step_le stepped
      simp only [List.length_cons, List.length_append, List.length_take]
      omega

theorem counted_start : Counted {} 0 := ⟨rfl, Nat.le_refl _⟩

end Reader

/-- Behind `passed` tokens the next number says how many were given, and each of these but the
root's has its token. -/
structure Paid (next : NodeId) (given passed : Nat) : Prop where
  next_eq : next = .ofNat given
  given_le : given ≤ 1 + passed
  toNat_le : next.toNat ≤ 1 + passed

theorem paid_of_le {next : NodeId} {given passed : Nat} (next_eq : next = .ofNat given)
    (given_le : given ≤ 1 + passed) : Paid next given passed := by
  refine ⟨next_eq, given_le, ?_⟩
  rw [next_eq, UInt32.toNat_ofNat']
  exact (Nat.mod_le _ _).trans given_le

theorem Paid.toNat_eq {next : NodeId} {given passed : Nat} (h : Paid next given passed)
    (short : passed < UInt32.size - 1) : next.toNat = given := by
  have given_le := h.given_le
  rw [h.next_eq]
  exact UInt32.toNat_ofNat_of_lt' (by omega)

theorem Reader.Advances.paid {tokens rest : List Token} {r : Reader}
    (h : Reader.Advances {} tokens r rest) :
    ∃ front, tokens = front ++ rest ∧ Paid r.next (1 + r.held) front.length := by
  obtain ⟨front, split, counted⟩ := Reader.counted_start.advances h
  refine ⟨front, split, paid_of_le counted.next_eq ?_⟩
  have := counted.held_le
  omega

theorem Point.Within.paid_since_top {q : Point} {tokens : List Token}
    (h : q.Within tokens Descent.top) : Paid q.next q.given q.index := by
  refine paid_of_le ?_ h.paid
  have next : q.next + 1 = 1 + .ofNat q.given := h.next_add
  grind

/-- A program has at most one number more than it has tokens. This holds at each point of a reading,
whether it succeeds or fails: of the tokens passed there, each number but the root's has one. The
tokens of a source are no more than its characters, so that in a short source no number wraps. -/
theorem numbers_paid (settings : Settings) (tokens : List Token) :
    (∀ p, ofTokens settings.direction tokens = .ok p → p.size ≤ 1 + tokens.length) ∧
    (∀ r rest, Reader.Advances {} tokens r rest →
      ∃ front, tokens = front ++ rest ∧ Paid r.next (1 + r.held) front.length) ∧
    ∀ calls, tokens.length + 1 < calls →
      ∃ c, Descent.run (Descent.program tokens settings.direction calls) {} =
        ((ofTokens settings.direction tokens).mapError .failure, c) ∧
      (∀ p, ofTokens settings.direction tokens = .ok p → c.here.given = p.size) ∧
      (∀ q ∈ c.points, Paid q.next q.given q.index) ∧
      ∀ source, source.length < UInt32.size - 1 → tokenize source = .ok tokens →
        tokens.length ≤ source.length ∧ (∀ q ∈ c.points, q.next.toNat = q.given) ∧
        ∀ r rest, Reader.Advances {} tokens r rest → r.next.toNat = 1 + r.held := by
  refine ⟨fun p => size_le_of_ofTokens, fun r rest => Reader.Advances.paid, fun calls ample => ?_⟩
  obtain ⟨result, c, ran, inside, rfl, given⟩ := Descent.keeps_program settings.direction ample
  refine ⟨c, ran, given, fun q member => (inside q member).paid_since_top,
    fun source short scanned => ?_⟩
  have tokens_le := (laid_of_tokenize scanned).length_le
  refine ⟨tokens_le, fun q member => ?_, fun r rest along => ?_⟩
  · have before := (inside q member).index_le_length
    exact (inside q member).paid_since_top.toNat_eq (by omega)
  · obtain ⟨front, split, paid⟩ := along.paid
    have length := congrArg List.length split
    rw [List.length_append] at length
    exact paid.toNat_eq (by omega)

def headText : String := "if (a) \x7b x; if ("

def headTokens : List Token :=
  [⟨.ifWord, none, ⟨0, 2, 1, 1⟩⟩, ⟨.lParen, none, ⟨3, 1, 1, 4⟩⟩,
   ⟨.string, some "a", ⟨4, 1, 1, 5⟩⟩, ⟨.rParen, none, ⟨5, 1, 1, 6⟩⟩,
   ⟨.lBrace, none, ⟨7, 1, 1, 8⟩⟩, ⟨.string, some "x", ⟨9, 1, 1, 10⟩⟩,
   ⟨.semi, none, ⟨10, 1, 1, 11⟩⟩, ⟨.ifWord, none, ⟨12, 2, 1, 13⟩⟩,
   ⟨.lParen, none, ⟨15, 1, 1, 16⟩⟩]

def headReader : Reader :=
  { nodes := [.expression 4 "x" .square]
    pending := [{ id := 1, text := "a", before := [] }]
    next := 5 }

theorem advances_headTokens : Reader.Advances {} headTokens headReader (headTokens.drop 7) := by
  have entered : Reader.step {} ⟨.ifWord, none, ⟨0, 2, 1, 1⟩⟩ headTokens.tail =
      .ok (⟨[], headReader.pending, 4⟩, 4) := rfl
  exact .step entered (.step rfl (.refl _ _))

theorem numbers_paid_broken :
    (tokenize headText = .ok headTokens ∧ headText.length < UInt32.size - 1 ∧
      headTokens.length ≤ headText.length ∧
      headReader.next.toNat = 1 + headReader.held ∧ Paid headReader.next (1 + headReader.held) 7 ∧
      ∃ c, Descent.run (Descent.program headTokens .topDown 11) {} =
          (.error (.failure (.unexpectedEnd .string)), c) ∧
        ∀ q ∈ c.points, q.next.toNat = q.given ∧ Paid q.next q.given q.index) ∧
    ∃ tokens, tokenize mergedText = .ok tokens ∧ merged.size ≤ 1 + tokens.length ∧
      ∃ c, Descent.run (Descent.program tokens .topDown (tokens.length + 2)) {} = (.ok merged, c) ∧
        c.here.given = merged.size := by
  constructor
  · have scanned : tokenize headText = .ok headTokens := by cbv
    have short : headText.length < UInt32.size - 1 := by decide
    have fails : ofTokens .topDown headTokens = .error (.unexpectedEnd .string) := by cbv
    obtain ⟨-, reader, descent⟩ := numbers_paid {} headTokens
    obtain ⟨c, ran, -, paid, unwrapped⟩ := descent 11 (by decide)
    obtain ⟨length, counts, counts'⟩ := unwrapped headText short scanned
    obtain ⟨front, split, paid'⟩ := reader _ _ advances_headTokens
    have seven : front.length = 7 := by
      have length := congrArg List.length split
      rw [List.length_append] at length
      simpa [headTokens] using length.symm
    refine ⟨scanned, short, length, counts' _ _ advances_headTokens, seven ▸ paid', c, ?_,
      fun q member => ⟨counts q member, paid q member⟩⟩
    exact ran.trans (by rw [fails]; rfl)
  · obtain ⟨tokens, scanned, read⟩ := exists_tokens_of_ofSource ofSource_mergedText
    obtain ⟨size_le, -, descent⟩ := numbers_paid {} tokens
    obtain ⟨c, ran, given, -⟩ := descent (tokens.length + 2) (Nat.lt_succ_self _)
    refine ⟨tokens, scanned, size_le _ read, c, ran.trans ?_, given _ read⟩
    rw [read]
    rfl

end Program

end Flowchart
