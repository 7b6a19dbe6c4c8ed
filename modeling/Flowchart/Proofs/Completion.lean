import Flowchart.Proofs.Stops

/-! Tokens that end too early. Whatever the reader waits for, there are tokens with which it comes
to an end: it can go on with the one that the failure names, and then braces close the blocks that
are open, those of conditions and those in code that is passed over behind a return. -/
namespace Flowchart

def braces (n : Nat) : List Token := List.replicate n Kind.rBrace.anywhere

theorem braces_succ (n : Nat) : braces (n + 1) = Kind.rBrace.anywhere :: braces n := rfl

namespace Braces

theorem behind?_cons_close {depth : Nat} {token : Token} {tokens : List Token}
    (h : token.kind = .rBrace) : behind? (depth + 1) (token :: tokens) = behind? depth tokens := by
  have inside : Sealed (depth + 1) [token] := (sealed_cons_close h).2 sealed_nil
  rw [← List.singleton_append, behind?_append inside, openFrom_cons, openBehind_close h]
  rfl

theorem behind?_braces (depth n : Nat) :
    behind? depth (braces (depth + 1 + n)) = some (braces n) := by
  induction depth with
  | zero =>
    rw [Nat.zero_add, Nat.add_comm, braces_succ]
    exact behind?_cons_end rfl
  | succ depth ih =>
    rw [Nat.add_right_comm, braces_succ, behind?_cons_close rfl, ih]

end Braces

namespace Program
open Grammar Braces

theorem replaces_braces (n : Nat) (rest : List Token) : Replaces (braces n) rest := by
  cases n with
  | zero => exact .nil rest
  | succ n => exact .inr (by simp [ahead, braces_succ, Kind.anywhere])

theorem exists_of_expect_end {kind expected : Kind} {more : List Token}
    (h : expect kind more = .error (.unexpectedEnd expected)) : more = [] ∧ kind = expected := by
  cases more with
  | nil =>
    cases h
    exact ⟨rfl, rfl⟩
  | cons token more =>
    simp only [expect] at h
    split at h <;> cases h

theorem follows_braces (n : Nat) : Follows (braces n) false 0 := by
  have other : ∀ kind ∈ [Kind.comment, .elseWord], ahead (braces n) ≠ some kind := by
    cases n with
    | zero => simp [ahead, braces]
    | succ n => simp [ahead, braces_succ, Kind.anywhere]
  exact @Follows.none [] (braces n) (by simp) (other _ (by simp)) (other _ (by simp))

namespace Reader

theorem exists_close_braces (r : Reader) (n : Nat) :
    ∃ r', r.close (braces n) = .ok (r', 0) ∧ r'.pending = r.pending.tail := by
  unfold close
  cases waiting : r.pending with
  | nil => exact ⟨r, rfl, waiting⟩
  | cons condition pending =>
    cases thens : condition.thenNodes? with
    | some thenNodes =>
      refine ⟨r.finish condition pending thenNodes r.nodes.reverse, ?_, rfl⟩
      simp only [thens]
    | none =>
      refine ⟨r.finish condition pending r.nodes.reverse [], ?_, rfl⟩
      simp [thens, elseBranch_of_follows (follows_braces n), Except.map]

theorem exists_run_braces {n : Nat} (r : Reader) (enough : r.pending.length ≤ n) :
    ∃ nodes, r.run (braces n) = .ok nodes := by
  induction n generalizing r with
  | zero =>
    have noPending : r.pending = [] := List.length_eq_zero_iff.1 (Nat.le_zero.1 enough)
    refine ⟨r.nodes.reverse, ?_⟩
    simp [braces, run_nil, noPending]
  | succ n ih =>
    obtain ⟨r', closed, fewer⟩ := r.exists_close_braces n
    obtain ⟨nodes, read⟩ := ih r' (by rw [fewer, List.length_tail]; omega)
    refine ⟨nodes, ?_⟩
    have brace : Spells [.rBrace] [Kind.rBrace.anywhere] := rfl
    rw [braces_succ, run_brace r brace, resume, closed]
    exact read

theorem exists_resume_braces {n : Nat} (r : Reader) (enough : r.pending.length ≤ n + 1) :
    ∃ nodes, r.resume (braces n) = .ok nodes := by
  obtain ⟨nodes, read⟩ := r.exists_run_braces enough
  have brace : Spells [.rBrace] [Kind.rBrace.anywhere] := rfl
  rw [braces_succ, run_brace r brace] at read
  exact ⟨nodes, read⟩

theorem exists_run_left (r : Reader) {word semi : Token} {dead : List Token}
    (spelled : Spells [.returnWord, .semi] [word, semi]) (inside : Sealed 0 dead) :
    ∃ nodes, r.run (word :: semi :: dead ++ braces (openFrom 0 dead + 1 + r.pending.length)) =
      .ok nodes := by
  obtain ⟨nodes, read⟩ :=
    (r.extend [.leave]).exists_resume_braces (Nat.le_succ r.pending.length)
  refine ⟨nodes, ?_⟩
  rw [List.cons_append, List.cons_append, run_return_eq r spelled, behind?_append inside,
    behind?_braces]
  exact read

theorem Demands.exists_completion {r : Reader} {used : List Token} {kind : Kind}
    (h : r.Demands used kind) :
    ∃ ext, ahead ext = some kind ∧ ∃ nodes, r.run (used ++ ext) = .ok nodes := by
  obtain ⟨ext, r', first, reads⟩ := h.goesOn
  obtain ⟨nodes, read⟩ := r'.exists_run_braces (Nat.le_refl _)
  refine ⟨ext ++ braces r'.pending.length, ?_, nodes, ?_⟩
  · cases ext with
    | nil => cases first
    | cons token ext => exact first
  · rw [reads, read]

theorem Stops.exists_completion {r : Reader} {tokens : List Token} {expected : Kind}
    (h : r.Stops tokens (.unexpectedEnd expected)) :
    ∃ ext, ahead ext = some expected ∧ ∃ nodes, r.run (tokens ++ ext) = .ok nodes := by
  obtain ⟨front, rest, r', rfl, reads, halts⟩ := h
  generalize named : Failure.unexpectedEnd expected = failure at halts
  cases halts with
  | refused => cases named
  | unclosed waiting =>
    cases named
    obtain ⟨condition, pending, same⟩ := List.exists_cons_of_ne_nil waiting
    obtain ⟨nodes, read⟩ := r'.exists_run_braces (Nat.le_refl _)
    refine ⟨braces r'.pending.length, ?_, nodes, ?_⟩
    · rw [same]
      rfl
    · rw [List.append_nil, reads _ (replaces_braces _ _), read]
  | @left word semi dead spelled inside waiting =>
    cases named
    obtain ⟨nodes, read⟩ := r'.exists_run_left spelled inside
    refine ⟨braces (openFrom 0 dead + 1 + r'.pending.length), ?_, nodes, ?_⟩
    · rw [Nat.add_right_comm]
      rfl
    · rw [List.append_assoc, reads (word :: semi :: dead ++ _) (.inl rfl), read]
  | @missed used more kind _ nonempty demands missing =>
    subst named
    obtain ⟨rfl, rfl⟩ := exists_of_expect_end missing
    obtain ⟨ext, first, nodes, read⟩ := demands.exists_completion
    obtain ⟨token, used, rfl⟩ := List.exists_cons_of_ne_nil nonempty
    refine ⟨ext, first, nodes, ?_⟩
    rw [List.append_nil, List.append_assoc, reads (token :: used ++ ext) (.inl rfl), read]

end Reader

/-- Tokens that end too early can be completed. The failure names the kind of the first one that is
missing. -/
theorem ofTokens_completion (settings : Settings) {tokens : List Token} {expected : Kind}
    (h : ofTokens settings.direction tokens = .error (.unexpectedEnd expected)) :
    ∃ ext : List Token, ext.head?.map Token.kind = some expected ∧
      ∃ p, ofTokens settings.direction (tokens ++ ext) = .ok p := by
  obtain ⟨ext, first, nodes, read⟩ :=
    (Reader.stops_of_run (ofTokens_eq_error_iff.1 h)).exists_completion
  exact ⟨ext, first, _, by rw [ofTokens, read, Except.map]⟩

/-- Behind a return in the else-branch of an inner condition a block is open, in which a condition
begins. -/
def brokenOff : List Token :=
  [.ifWord, .lParen, .string, .rParen, .lBrace, .ifWord, .lParen, .string, .rParen, .lBrace,
   .rBrace, .comment, .elseWord, .lBrace, .string, .returnWord, .semi, .lBrace, .ifWord,
   .lParen].map Kind.anywhere

def headless : List Token :=
  [.ifWord, .lParen, .string, .rParen, .lBrace, .ifWord, .lParen].map Kind.anywhere

theorem ofTokens_completion_brokenOff :
    ofTokens .topDown brokenOff = .error (.unexpectedEnd .rBrace) ∧
    ofTokens .topDown headless = .error (.unexpectedEnd .string) ∧
    (∃ ext : List Token, ext.head?.map Token.kind = some .rBrace ∧
      ∃ p, ofTokens .topDown (brokenOff ++ ext) = .ok p) ∧
    ∃ ext : List Token, ext.head?.map Token.kind = some .string ∧
      ∃ p, ofTokens .topDown (headless ++ ext) = .ok p := by
  have ends : ofTokens .topDown brokenOff = .error (.unexpectedEnd .rBrace) := by cbv
  have ends' : ofTokens .topDown headless = .error (.unexpectedEnd .string) := by cbv
  exact ⟨ends, ends', ofTokens_completion {} ends, ofTokens_completion {} ends'⟩

end Program

end Flowchart
