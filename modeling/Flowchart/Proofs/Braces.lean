import Flowchart.Program.Read

/-! Braces among tokens. Tokens are sealed when none of their closing braces reaches out of them,
and balanced when moreover every block that they open is closed again. The end of a block, which the
reader looks for behind a return, is the first closing brace behind balanced tokens. -/
namespace Flowchart.Braces
open Program

def count (kind : Kind) (tokens : List Token) : Nat := tokens.countP (·.kind = kind)

/-- However many of the tokens are read, they close no more blocks than the `depth` that are open
before them and those that they open themselves. -/
def Sealed (depth : Nat) (tokens : List Token) : Prop :=
  ∀ n, count .rBrace (tokens.take n) ≤ depth + count .lBrace (tokens.take n)

/-- Every closing brace has its opening brace before it, and every block is closed. -/
structure Balanced (tokens : List Token) : Prop where
  closed_le : Sealed 0 tokens
  closed_eq : count .rBrace tokens = count .lBrace tokens

/-- How many blocks are open behind a token if `depth` are open before it. A brace that closes
nothing changes nothing. -/
def openBehind (depth : Nat) (token : Token) : Nat :=
  match token.kind with
  | .lBrace => depth + 1
  | .rBrace => depth - 1
  | _ => depth

def openFrom (depth : Nat) (tokens : List Token) : Nat := tokens.foldl openBehind depth

theorem depthInduction {motive : Nat → List Token → Prop} (nil : ∀ depth, motive depth [])
    (opens : ∀ depth token tokens, token.kind = .lBrace → motive (depth + 1) tokens →
      motive depth (token :: tokens))
    (closes : ∀ depth token tokens, token.kind = .rBrace → motive depth tokens →
      motive (depth + 1) (token :: tokens))
    (ends : ∀ token tokens, token.kind = .rBrace → motive 0 (token :: tokens))
    (other : ∀ depth token tokens, token.kind ≠ .lBrace → token.kind ≠ .rBrace →
      motive depth tokens → motive depth (token :: tokens)) (depth : Nat) (tokens : List Token) :
    motive depth tokens := by
  induction tokens generalizing depth with
  | nil => exact nil depth
  | cons token tokens ih =>
    by_cases left : token.kind = .lBrace
    · exact opens depth token tokens left (ih (depth + 1))
    · by_cases right : token.kind = .rBrace
      · cases depth with
        | zero => exact ends token tokens right
        | succ depth => exact closes depth token tokens right (ih depth)
      · exact other depth token tokens left right (ih depth)

@[simp] theorem count_nil (kind : Kind) : count kind [] = 0 := rfl

theorem count_cons (kind : Kind) (token : Token) (tokens : List Token) :
    count kind (token :: tokens) = count kind tokens + if token.kind = kind then 1 else 0 := by
  simp [count, List.countP_cons]

section Cons

variable {token : Token} {tokens : List Token} {depth : Nat}

@[simp] theorem sealed_nil : Sealed depth [] := by
  intro n
  simp

theorem sealed_cons : Sealed depth (token :: tokens) ↔
    ∀ n, count .rBrace (tokens.take n) + (if token.kind = .rBrace then 1 else 0) ≤
      depth + (count .lBrace (tokens.take n) + if token.kind = .lBrace then 1 else 0) := by
  constructor
  · intro h n
    have bound := h (n + 1)
    rwa [List.take_succ_cons, count_cons, count_cons] at bound
  · intro h n
    cases n with
    | zero => simp
    | succ n => simpa only [List.take_succ_cons, count_cons] using h n

theorem sealed_cons_open (h : token.kind = .lBrace) :
    Sealed depth (token :: tokens) ↔ Sealed (depth + 1) tokens := by
  rw [sealed_cons]
  apply forall_congr'
  intro n
  simp only [h, reduceCtorEq, if_true, if_false]
  omega

theorem sealed_cons_close (h : token.kind = .rBrace) :
    Sealed (depth + 1) (token :: tokens) ↔ Sealed depth tokens := by
  rw [sealed_cons]
  apply forall_congr'
  intro n
  simp only [h, reduceCtorEq, if_true, if_false]
  omega

theorem not_sealed_cons_close (h : token.kind = .rBrace) : ¬ Sealed 0 (token :: tokens) := by
  intro bound
  have first := sealed_cons.1 bound 0
  simp [h] at first

theorem sealed_cons_other (left : token.kind ≠ .lBrace) (right : token.kind ≠ .rBrace) :
    Sealed depth (token :: tokens) ↔ Sealed depth tokens := by
  rw [sealed_cons]
  apply forall_congr'
  intro n
  simp only [left, right, if_false]
  omega

theorem openFrom_cons :
    openFrom depth (token :: tokens) = openFrom (openBehind depth token) tokens :=
  rfl

theorem openBehind_open (h : token.kind = .lBrace) : openBehind depth token = depth + 1 := by
  simp [openBehind, h]

theorem openBehind_close (h : token.kind = .rBrace) : openBehind depth token = depth - 1 := by
  simp [openBehind, h]

theorem openBehind_other (left : token.kind ≠ .lBrace) (right : token.kind ≠ .rBrace) :
    openBehind depth token = depth := by
  unfold openBehind
  split <;> simp_all

theorem blockEnd?_cons_open (h : token.kind = .lBrace) :
    blockEnd? depth (token :: tokens) = (blockEnd? (depth + 1) tokens).map (· + 1) := by
  simp [blockEnd?, h]

theorem blockEnd?_cons_close (h : token.kind = .rBrace) :
    blockEnd? (depth + 1) (token :: tokens) = (blockEnd? depth tokens).map (· + 1) := by
  simp [blockEnd?, h]

theorem blockEnd?_cons_end (h : token.kind = .rBrace) :
    blockEnd? 0 (token :: tokens) = some 1 := by
  simp [blockEnd?, h]

theorem blockEnd?_cons_other (left : token.kind ≠ .lBrace) (right : token.kind ≠ .rBrace) :
    blockEnd? depth (token :: tokens) = (blockEnd? depth tokens).map (· + 1) := by
  simp [blockEnd?, right]

end Cons

theorem openFrom_append (depth : Nat) (tokens tokens' : List Token) :
    openFrom depth (tokens ++ tokens') = openFrom (openFrom depth tokens) tokens' := by
  simp [openFrom]

section Append

variable {depth : Nat} {tokens tokens' : List Token}

theorem openFrom_add_count (h : Sealed depth tokens) :
    openFrom depth tokens + count .rBrace tokens = depth + count .lBrace tokens := by
  induction depth, tokens using depthInduction with
  | nil depth => rfl
  | opens depth token tokens left ih =>
    have rest := ih ((sealed_cons_open left).1 h)
    simp only [openFrom_cons, openBehind_open left, count_cons, left, reduceCtorEq, if_true,
      if_false]
    omega
  | closes depth token tokens right ih =>
    have rest := ih ((sealed_cons_close right).1 h)
    simp only [openFrom_cons, openBehind_close right, count_cons, right, reduceCtorEq, if_true,
      if_false, Nat.add_sub_cancel]
    omega
  | ends token tokens right => exact absurd h (not_sealed_cons_close right)
  | other depth token tokens left right ih =>
    have rest := ih ((sealed_cons_other left right).1 h)
    simp only [openFrom_cons, openBehind_other left right, count_cons, left, right, if_false]
    omega

theorem blockEnd?_append (h : Sealed depth tokens) :
    blockEnd? depth (tokens ++ tokens') =
      (blockEnd? (openFrom depth tokens) tokens').map (· + tokens.length) := by
  induction depth, tokens using depthInduction with
  | nil depth => simp [openFrom]
  | opens depth token tokens left ih =>
    rw [List.cons_append, blockEnd?_cons_open left, ih ((sealed_cons_open left).1 h), openFrom_cons,
      openBehind_open left, Option.map_map]
    rfl
  | closes depth token tokens right ih =>
    rw [List.cons_append, blockEnd?_cons_close right, ih ((sealed_cons_close right).1 h),
      openFrom_cons, openBehind_close right, Nat.add_sub_cancel, Option.map_map]
    rfl
  | ends token tokens right => exact absurd h (not_sealed_cons_close right)
  | other depth token tokens left right ih =>
    rw [List.cons_append, blockEnd?_cons_other left right,
      ih ((sealed_cons_other left right).1 h), openFrom_cons, openBehind_other left right,
      Option.map_map]
    rfl

theorem blockEnd?_eq_none_iff : blockEnd? depth tokens = none ↔ Sealed depth tokens := by
  induction depth, tokens using depthInduction with
  | nil depth => simp [blockEnd?]
  | opens depth token tokens left ih =>
    rw [blockEnd?_cons_open left, sealed_cons_open left, Option.map_eq_none_iff, ih]
  | closes depth token tokens right ih =>
    rw [blockEnd?_cons_close right, sealed_cons_close right, Option.map_eq_none_iff, ih]
  | ends token tokens right => simp [blockEnd?_cons_end right, not_sealed_cons_close right]
  | other depth token tokens left right ih =>
    rw [blockEnd?_cons_other left right, sealed_cons_other left right, Option.map_eq_none_iff, ih]

theorem exists_of_blockEnd? {n : Nat} (h : blockEnd? depth tokens = some n) :
    ∃ inner brace rest, tokens = inner ++ brace :: rest ∧ brace.kind = .rBrace ∧
      Sealed depth inner ∧ openFrom depth inner = 0 ∧ n = inner.length + 1 := by
  induction depth, tokens using depthInduction generalizing n with
  | nil depth => cases h
  | opens depth token tokens left ih =>
    rw [blockEnd?_cons_open left] at h
    obtain ⟨m, found, rfl⟩ := Option.map_eq_some_iff.1 h
    obtain ⟨inner, brace, rest, rfl, closes, inside, level, rfl⟩ := ih found
    refine ⟨token :: inner, brace, rest, rfl, closes, (sealed_cons_open left).2 inside, ?_, rfl⟩
    rw [openFrom_cons, openBehind_open left, level]
  | closes depth token tokens right ih =>
    rw [blockEnd?_cons_close right] at h
    obtain ⟨m, found, rfl⟩ := Option.map_eq_some_iff.1 h
    obtain ⟨inner, brace, rest, rfl, closes, inside, level, rfl⟩ := ih found
    refine ⟨token :: inner, brace, rest, rfl, closes, (sealed_cons_close right).2 inside, ?_, rfl⟩
    rw [openFrom_cons, openBehind_close right, Nat.add_sub_cancel, level]
  | ends token tokens right =>
    rw [blockEnd?_cons_end right] at h
    cases h
    exact ⟨[], token, tokens, rfl, right, sealed_nil, rfl, rfl⟩
  | other depth token tokens left right ih =>
    rw [blockEnd?_cons_other left right] at h
    obtain ⟨m, found, rfl⟩ := Option.map_eq_some_iff.1 h
    obtain ⟨inner, brace, rest, rfl, closes, inside, level, rfl⟩ := ih found
    refine ⟨token :: inner, brace, rest, rfl, closes, (sealed_cons_other left right).2 inside, ?_,
      rfl⟩
    rw [openFrom_cons, openBehind_other left right, level]

end Append

theorem balanced_iff {tokens : List Token} :
    Balanced tokens ↔ Sealed 0 tokens ∧ openFrom 0 tokens = 0 := by
  constructor
  · intro h
    have level := openFrom_add_count h.closed_le
    have even := h.closed_eq
    exact ⟨h.closed_le, by omega⟩
  · intro ⟨inside, level⟩
    have moved := openFrom_add_count inside
    exact ⟨inside, by omega⟩

theorem balanced_nil : Balanced [] := ⟨sealed_nil, rfl⟩

theorem Balanced.openFrom_eq {tokens : List Token} (h : Balanced tokens) (depth : Nat) :
    openFrom depth tokens = depth := by
  have wider : Sealed depth tokens := by
    intro n
    have bound := h.closed_le n
    omega
  have moved := openFrom_add_count wider
  have even := h.closed_eq
  omega

theorem blockEnd?_of_balanced {tokens rest : List Token} {brace : Token} (h : Balanced tokens)
    (closes : brace.kind = .rBrace) :
    blockEnd? 0 (tokens ++ brace :: rest) = some (tokens.length + 1) := by
  rw [blockEnd?_append h.closed_le, (balanced_iff.1 h).2, blockEnd?_cons_end closes,
    Option.map_some, Nat.add_comm]

end Flowchart.Braces
