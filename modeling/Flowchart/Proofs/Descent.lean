import Flowchart.Proofs.Stops

/-! Reading by recursive descent. Beside the reader, which keeps open conditions on a stack, the
same programs can be read by functions that call one another: statements are read up to the end of
their block, a condition reads its blocks, and a cursor moves over the tokens. Nothing in the tokens
bounds how deep the calls go, so that each function is told how many may be open at a time. A slice
may reach beyond the tokens, a depth may be lowered below zero, and the calls may go too deep. None
of this happens where the calls may go somewhat deeper than there are tokens ahead: from every place
among the tokens the functions come to an end and fail only as the reader fails, and what they read
is what the reader reads. -/
namespace Flowchart.Program
open Grammar Braces

/-- A place in a reading: how many tokens lie before it, the next number to give, and how many
numbers have been given. The last of these is a count that no width bounds. -/
structure Point where
  index : Nat := 0
  next : NodeId := 0
  given : Nat := 0
deriving DecidableEq, Repr

/-- The place to which a reading has come, and the places through which it has come there, the last
one first. -/
structure Course where
  here : Point := {}
  passed : List Point := []
deriving DecidableEq, Repr

namespace Course

def points (c : Course) : List Point := c.here :: c.passed

def pass (c : Course) (n : Nat) : Course := ⟨{ c.here with index := c.here.index + n }, c.points⟩

def give (c : Course) : Course :=
  ⟨{ c.here with next := c.here.next + 1, given := c.here.given + 1 }, c.points⟩

def rest (c : Course) (tokens : List Token) : List Token := tokens.drop c.here.index

end Course

/-- Why a descent breaks off. Only the first is a fault of the tokens. -/
inductive Fault where
  | failure (failure : Failure)
  | outOfRange
  | underflow
  | tooDeep
deriving DecidableEq, Repr

abbrev Descent (α : Type) := ExceptT Fault (StateM Course) α

namespace Descent

def run {α : Type} (x : Descent α) (c : Course) : Except Fault α × Course :=
  Id.run (StateT.run (ExceptT.run x) c)

def advance (n : Nat) : Descent Unit := modify (·.pass n)

def fresh : Descent NodeId := modifyGet fun c => (c.here.next, c.give)

def cursor : Descent Nat := return (← get).here.index

def expression (text : String) (shape : Shape) : Descent Node :=
  return .expression (← fresh) text shape

/-- Lowers the number of open blocks, which must not be zero. -/
def lower (depth : Nat) : Descent Nat := if depth < 1 then throw .underflow else return depth - 1

def labelText (passed : List Token) : String :=
  ((passed.find? (·.kind = .string)).map Token.text).getD ""

def before (front : List Node) : List Node × Bool → List Node × Bool
  | (nodes, closed) => (front ++ nodes, closed)

section Tokens

variable (tokens : List Token)

def seenAt (i : Nat) (kinds : List Kind) : Bool := (strip? kinds (tokens.drop i)).isSome

/-- The next tokens, all of which must be there. -/
def slice (n : Nat) : Descent (List Token) := do
  let i ← cursor
  if i + n ≤ tokens.length then return (tokens.drop i).take n else throw .outOfRange

def expectNext (kind : Kind) : Descent Token := do
  match expect kind (tokens.drop (← cursor)) with
  | .ok (token, _) =>
    advance 1
    return token
  | .error failure => throw (.failure failure)

def expectEach : List Kind → Descent (List Token)
  | [] => return []
  | kind :: kinds => return (← expectNext tokens kind) :: (← expectEach kinds)

def skipComments : (calls : Nat) → Descent Unit
  | 0 => throw .tooDeep
  | calls + 1 => do
    if seenAt tokens (← cursor) [.comment] then
      advance 1
      skipComments calls

/-- Passes over the rest of a block in which `depth` inner blocks are open, and says whether its end
was found. -/
def skipBlock : (calls depth : Nat) → Descent Bool
  | 0, _ => throw .tooDeep
  | calls + 1, depth => do
    match tokens[← cursor]? with
    | none => return false
    | some token =>
      advance 1
      match token.kind with
      | .lBrace => skipBlock calls (depth + 1)
      | .rBrace => if depth = 0 then return true else skipBlock calls (← lower depth)
      | _ => skipBlock calls depth

def bare (token : Token) : Descent Node := do
  advance 1
  if seenAt tokens (← cursor) [.semi] then advance 1
  expression token.text .square

def kinds (form : Form) : List Kind := form.opening ++ .string :: (form.closing ++ [.semi])

def shaped (form : Form) : Descent Node := do
  let taken ← slice tokens (kinds form).length
  advance (kinds form).length
  expression (labelText taken) form.shape

def leave (calls : Nat) : Descent (List Node × Bool) := do
  advance 2
  let node := Node.leave (← fresh)
  return ([node], ← skipBlock tokens calls 0)

mutual
/-- The nodes up to the end of a block or of the tokens, and whether it was a block that ended. -/
def statements : (calls : Nat) → Descent (List Node × Bool)
  | 0 => throw .tooDeep
  | calls + 1 => do
    let i ← cursor
    match tokens[i]? with
    | none => return ([], false)
    | some token =>
      if seenAt tokens i [.string] then
        return before [← bare tokens token] (← statements calls)
      else match forms.find? (seenAt tokens i <| kinds ·) with
      | some form => return before [← shaped tokens form] (← statements calls)
      | none =>
        if seenAt tokens i [.rBrace] then
          advance 1
          return ([], true)
        else if seenAt tokens i [.ifWord] then
          advance 1
          return before [← condition calls] (← statements calls)
        else if seenAt tokens i [.returnWord, .semi] then leave tokens calls
        else if seenAt tokens i [.comment] then
          advance 1
          statements calls
        else throw (.failure (.unexpectedToken token.kind token.pos))

def block : (calls : Nat) → Descent (List Node)
  | 0 => throw .tooDeep
  | calls + 1 => do
    let (nodes, closed) ← statements calls
    if closed then return nodes else throw (.failure (.unexpectedEnd .rBrace))

def elseBlock : (calls : Nat) → Descent (List Node)
  | 0 => throw .tooDeep
  | calls + 1 => do
    skipComments tokens calls
    if seenAt tokens (← cursor) [.elseWord] then
      advance 1
      let _ ← expectEach tokens [.lBrace]
      block calls
    else return []

def condition : (calls : Nat) → Descent Node
  | 0 => throw .tooDeep
  | calls + 1 => do
    let passed ← expectEach tokens headKinds
    let id ← fresh
    let thenId ← fresh
    let elseId ← fresh
    return .condition id (labelText passed) thenId (← block calls) elseId (← elseBlock calls)
end

/-- Statements up to the end of the tokens. A brace that ends no block ends one run of them. -/
def runs : (calls : Nat) → Descent (List Node)
  | 0 => throw .tooDeep
  | calls + 1 => do
    if (tokens[← cursor]?).isSome then return (← statements tokens calls).1 ++ (← runs calls)
    else return []

def program (direction : Direction) (calls : Nat) : Descent Program := do
  let id ← fresh
  return { id, direction, nodes := ← runs tokens calls }

end Tokens

section Run

variable {α β : Type} {x : Descent α} {f : α → Descent β} {a : α} {fault : Fault} {c c' : Course}

theorem run_bind (x : Descent α) (f : α → Descent β) (c : Course) :
    run (x >>= f) c = match run x c with
      | (.ok a, c') => run (f a) c'
      | (.error fault, c') => (.error fault, c') := by
  change Id.run (ExceptT.bindCont f (run x c).1 (run x c).2) = _
  rcases run x c with ⟨result, c'⟩
  cases result <;> rfl

theorem run_bind_ok (h : run x c = (.ok a, c')) : run (x >>= f) c = run (f a) c' := by
  rw [run_bind, h]

theorem run_bind_error (h : run x c = (.error fault, c')) :
    run (x >>= f) c = (.error fault, c') := by
  rw [run_bind, h]

/-- The part comes to an end, and where it breaks off the tokens are at fault. What it gives, and
the place to which it comes, are as they should be. -/
def Ends (x : Descent α) (c : Course) (Q : Except Failure α → Course → Prop) : Prop :=
  ∃ result c', run x c = (result.mapError .failure, c') ∧ Q result c'

theorem Ends.mono {P P' : Except Failure α → Course → Prop} (h : Ends x c P)
    (weaker : ∀ result c', P result c' → P' result c') : Ends x c P' := by
  obtain ⟨result, c', ran, holds⟩ := h
  exact ⟨result, c', ran, weaker result c' holds⟩

end Run

end Descent

/-- Between two places some tokens are passed and `n` numbers are given. -/
structure Point.Takes (p : Point) (n : Nat) (p' : Point) : Prop where
  index_le : p.index ≤ p'.index
  given_eq : p'.given = p.given + n
  next_eq : p'.next = p.next + .ofNat n

/-- A place behind `base` and within the tokens, such that each number given since `base` is paid
for by a token passed since then, and the next number says how many were given. -/
structure Point.Within (p : Point) (tokens : List Token) (base : Point) : Prop where
  index_le : base.index ≤ p.index
  index_le_length : p.index ≤ tokens.length
  paid : p.given + base.index ≤ base.given + p.index
  next_add : p.next + .ofNat base.given = base.next + .ofNat p.given

def Course.Within (c : Course) (tokens : List Token) (base : Point) : Prop :=
  ∀ p ∈ c.points, p.Within tokens base

namespace Point

variable {p p' p'' : Point} {n n' : Nat}

theorem Takes.refl (p : Point) : p.Takes 0 p where
  index_le := Nat.le_refl _
  given_eq := rfl
  next_eq := by simp

theorem Takes.trans (h : p.Takes n p') (h' : p'.Takes n' p'') : p.Takes (n + n') p'' where
  index_le := h.index_le.trans h'.index_le
  given_eq := by rw [h'.given_eq, h.given_eq, Nat.add_assoc]
  next_eq := by rw [h'.next_eq, h.next_eq, UInt32.ofNat_add, UInt32.add_assoc]

end Point

namespace Course

variable {c : Course} {tokens rest : List Token} {token : Token} {base : Point} {n : Nat}

@[simp] theorem index_pass (c : Course) (n : Nat) : (c.pass n).here.index = c.here.index + n := rfl

@[simp] theorem next_pass (c : Course) (n : Nat) : (c.pass n).here.next = c.here.next := rfl

@[simp] theorem given_pass (c : Course) (n : Nat) : (c.pass n).here.given = c.here.given := rfl

@[simp] theorem index_give (c : Course) : c.give.here.index = c.here.index := rfl

@[simp] theorem next_give (c : Course) : c.give.here.next = c.here.next + 1 := rfl

@[simp] theorem given_give (c : Course) : c.give.here.given = c.here.given + 1 := rfl

@[simp] theorem rest_pass (c : Course) (tokens : List Token) (n : Nat) :
    (c.pass n).rest tokens = (c.rest tokens).drop n := by
  rw [rest, rest, List.drop_drop, index_pass]

@[simp] theorem rest_give (c : Course) (tokens : List Token) : c.give.rest tokens = c.rest tokens :=
  rfl

theorem takes_pass (c : Course) (n : Nat) : c.here.Takes 0 (c.pass n).here where
  index_le := Nat.le_add_right _ _
  given_eq := rfl
  next_eq := by simp

theorem takes_give (c : Course) : c.here.Takes 1 c.give.here where
  index_le := Nat.le_refl _
  given_eq := rfl
  next_eq := by simp

theorem getElem?_index (c : Course) (tokens : List Token) :
    tokens[c.here.index]? = (c.rest tokens).head? := by
  rw [rest, List.head?_drop]

namespace Within

theorem here (h : c.Within tokens base) : c.here.Within tokens base := h _ (by simp [points])

theorem length_rest (h : c.Within tokens base) :
    c.here.index + (c.rest tokens).length = tokens.length := by
  have inside := h.here.index_le_length
  rw [rest, List.length_drop]
  omega

theorem pass (h : c.Within tokens base) (le : n ≤ (c.rest tokens).length) :
    (c.pass n).Within tokens base := by
  obtain ⟨index_le, -, paid, next_add⟩ := h.here
  have length := h.length_rest
  intro p member
  rcases List.mem_cons.1 member with rfl | member
  · exact ⟨Nat.le_add_right_of_le index_le, by simp; omega, by simp; omega, next_add⟩
  · exact h p member

theorem exists_succ {calls : Nat} (h : c.Within tokens base)
    (ample : tokens.length < c.here.index + calls) : ∃ calls', calls = calls' + 1 := by
  have := h.here.index_le_length
  exact ⟨calls - 1, by omega⟩

theorem pass_one (h : c.Within tokens base) (left : c.rest tokens = token :: rest) :
    (c.pass 1).Within tokens base ∧ (c.pass 1).rest tokens = rest :=
  ⟨h.pass (by simp [left]), by simp [left]⟩

theorem pass_call {calls : Nat} (h : c.Within tokens base)
    (ample : tokens.length < c.here.index + calls) (left : c.rest tokens = token :: rest) :
    ∃ calls', calls = calls' + 1 ∧ (c.pass 1).Within tokens base ∧ (c.pass 1).rest tokens = rest ∧
      tokens.length < (c.pass 1).here.index + calls' := by
  obtain ⟨calls', rfl⟩ := h.exists_succ ample
  obtain ⟨inside, behind⟩ := h.pass_one left
  exact ⟨calls', rfl, inside, behind, by simp; omega⟩

theorem give (h : c.Within tokens base)
    (credit : c.here.given + base.index < base.given + c.here.index) :
    c.give.Within tokens base := by
  obtain ⟨index_le, inside, -, next_add⟩ := h.here
  intro p member
  rcases List.mem_cons.1 member with rfl | member
  · refine ⟨index_le, inside, by simp; omega, ?_⟩
    rw [next_give, given_give, UInt32.ofNat_add]
    grind
  · exact h p member

end Within

end Course

namespace Descent

/-- The part comes to an end and stays within the tokens on its way. -/
def Keeps {α : Type} (tokens : List Token) (base : Point) (x : Descent α) (c : Course)
    (Q : Except Failure α → Course → Prop) : Prop :=
  Ends x c fun result c' => c'.Within tokens base ∧ Q result c'

section Keeps

variable {α β : Type} {tokens : List Token} {base : Point} {x : Descent α} {f : α → Descent β}
  {a : α} {c c' : Course} {failure : Failure} {P P' : Except Failure α → Course → Prop}
  {Q : Except Failure β → Course → Prop}

namespace Keeps

theorem pure (inside : c.Within tokens base) (h : P (.ok a) c) : Keeps tokens base (pure a) c P :=
  ⟨.ok a, c, rfl, inside, h⟩

theorem throw (inside : c.Within tokens base) (h : P (.error failure) c) :
    Keeps tokens base (throw (.failure failure)) c P :=
  ⟨.error failure, c, rfl, inside, h⟩

theorem bind (h : Keeps tokens base x c P)
    (ok : ∀ a c', c'.Within tokens base → P (.ok a) c' → Keeps tokens base (f a) c' Q)
    (error : ∀ failure c', P (.error failure) c' → Q (.error failure) c') :
    Keeps tokens base (x >>= f) c Q := by
  obtain ⟨result, c', ran, inside, holds⟩ := h
  cases result with
  | ok a =>
    rw [Keeps, Ends, run_bind_ok ran]
    exact ok a c' inside holds
  | error failure =>
    exact ⟨.error failure, c', run_bind_error ran, inside, error failure c' holds⟩

theorem bind_of_run (h : run x c = (.ok a, c')) (ok : Keeps tokens base (f a) c' Q) :
    Keeps tokens base (x >>= f) c Q := by
  rwa [Keeps, Ends, run_bind_ok h]

theorem mono (h : Keeps tokens base x c P) (weaker : ∀ result c', P result c' → P' result c') :
    Keeps tokens base x c P' :=
  Ends.mono h fun result c' told => ⟨told.1, weaker result c' told.2⟩

end Keeps

theorem run_advance (n : Nat) (c : Course) : run (advance n) c = (.ok (), c.pass n) := rfl

theorem run_fresh (c : Course) : run fresh c = (.ok c.here.next, c.give) := rfl

theorem run_cursor (c : Course) : run cursor c = (.ok c.here.index, c) := rfl

theorem seenAt_one {kind : Kind} :
    seenAt tokens c.here.index [kind] = true ↔ ahead (c.rest tokens) = some kind := by
  rw [seenAt, ← Course.rest]
  cases c.rest tokens <;> simp [strip?, ahead]

theorem keeps_expectNext {kind : Kind} {f : Token → Descent β} (h : c.Within tokens base)
    (ok : ∀ token rest, c.rest tokens = token :: rest → token.kind = kind →
      (c.pass 1).Within tokens base → Keeps tokens base (f token) (c.pass 1) Q)
    (error : ∀ failure, expect kind (c.rest tokens) = .error failure → Q (.error failure) c) :
    Keeps tokens base (expectNext tokens kind >>= f) c Q := by
  have looked : run (expectNext tokens kind) c =
      run (match expect kind (c.rest tokens) with
        | .ok (token, _) => do
          advance 1
          return token
        | .error failure => throw (.failure failure)) c := by
    rw [expectNext, run_bind_ok (run_cursor c)]
    rfl
  cases found : expect kind (c.rest tokens) with
  | error failure =>
    rw [found] at looked
    exact ⟨.error failure, c, run_bind_error looked, h, error failure found⟩
  | ok result =>
    rw [found] at looked
    obtain ⟨left, same⟩ := eq_cons_of_expect found
    exact .bind_of_run looked (ok _ _ left same (h.pass_one left).1)

inductive Passes (tokens : List Token) (kinds : List Kind) (c : Course) :
    Except Failure (List Token) → Course → Prop where
  | all {passed : List Token} {c' : Course} : c.here.Takes 0 c'.here →
      c'.here.index = c.here.index + kinds.length → c.rest tokens = passed ++ c'.rest tokens →
      Spells kinds passed → Passes tokens kinds c (.ok passed) c'
  | missed {failure : Failure} {c' : Course} :
      expectAll kinds (c.rest tokens) = .error failure → Passes tokens kinds c (.error failure) c'

theorem keeps_expectEach (kinds : List Kind) (h : c.Within tokens base) :
    Keeps tokens base (expectEach tokens kinds) c (Passes tokens kinds c) := by
  induction kinds generalizing c with
  | nil => exact .pure h (.all (.refl _) rfl rfl rfl)
  | cons kind kinds ih =>
    rw [expectEach]
    refine keeps_expectNext h (fun token rest left same inside => ?_) fun failure missing => ?_
    · have found : expect kind (c.rest tokens) = .ok (token, rest) := by simp [left, expect, same]
      have behind : (c.pass 1).rest tokens = rest := by simp [left]
      refine (ih inside).bind (fun passed c' inside' later => .pure inside' ?_)
        fun failure c' later => ?_
      · cases later with
        | all takes length split spelled =>
          refine .all ((c.takes_pass 1).trans takes) ?_ ?_ ?_
          · rw [length, Course.index_pass, List.length_cons]
            omega
          · rw [left, List.cons_append, ← split, behind]
          · simpa [Spells, same] using spelled
      · cases later with
        | missed missing =>
          rw [behind] at missing
          refine .missed ?_
          rw [expectAll, found]
          exact missing
    · refine .missed ?_
      rw [expectAll, missing]
      rfl

structure Clears (tokens : List Token) (c : Course) (result : Except Failure Unit) (c' : Course) :
    Prop where
  result_eq : result = .ok ()
  takes : c.here.Takes 0 c'.here
  exists_remarks : ∃ remarks, c.rest tokens = remarks ++ c'.rest tokens ∧
    ∀ remark ∈ remarks, remark.kind = .comment
  ahead_ne : ahead (c'.rest tokens) ≠ some .comment

theorem keeps_skipComments {calls : Nat} (h : c.Within tokens base)
    (ample : tokens.length < c.here.index + calls) :
    Keeps tokens base (skipComments tokens calls) c (Clears tokens c) := by
  -- A comment that is seen stands before the others.
  induction left : c.rest tokens generalizing c calls with
  | nil =>
    obtain ⟨calls, rfl⟩ := h.exists_succ ample
    have other : ahead (c.rest tokens) ≠ some .comment := by simp [left, ahead]
    rw [skipComments]
    refine .bind_of_run (run_cursor c) ?_
    rw [if_neg (mt seenAt_one.1 other)]
    exact .pure h ⟨rfl, .refl _, ⟨[], rfl, by simp⟩, other⟩
  | cons token rest ih =>
    obtain ⟨calls, rfl, inside, behind, ample'⟩ := h.pass_call ample left
    rw [skipComments]
    refine .bind_of_run (run_cursor c) ?_
    by_cases comment : ahead (c.rest tokens) = some .comment
    · rw [if_pos (seenAt_one.2 comment)]
      refine .bind_of_run (run_advance 1 c) ((ih inside ample' behind).mono ?_)
      rintro result c' ⟨done, takes, ⟨remarks, split, comments⟩, next⟩
      have first : token.kind = .comment := by simpa [left, ahead] using comment
      refine ⟨done, (c.takes_pass 1).trans takes, ⟨token :: remarks, ?_, ?_⟩, next⟩
      · rw [left, List.cons_append, ← split, behind]
      · simpa [first] using comments
    · rw [if_neg (mt seenAt_one.1 comment)]
      exact .pure h ⟨rfl, .refl _, ⟨[], rfl, by simp⟩, comment⟩

structure Skips (tokens : List Token) (depth : Nat) (c : Course) (result : Except Failure Bool)
    (c' : Course) : Prop where
  result_eq : result = .ok (blockEnd? depth (c.rest tokens)).isSome
  takes : c.here.Takes 0 c'.here
  rest_eq : c'.rest tokens =
    (c.rest tokens).drop ((blockEnd? depth (c.rest tokens)).getD (c.rest tokens).length)

theorem Skips.behind {depth depth' : Nat} {token : Token} {rest : List Token}
    {result : Except Failure Bool} (h : Skips tokens depth' (c.pass 1) result c')
    (left : c.rest tokens = token :: rest)
    (found : blockEnd? depth (token :: rest) = (blockEnd? depth' rest).map (· + 1)) :
    Skips tokens depth c result c' := by
  obtain ⟨done, takes, behind⟩ := h
  simp only [Course.rest_pass, left, List.drop_one, List.tail_cons] at done behind
  refine ⟨by simp [done, left, found], (c.takes_pass 1).trans takes, ?_⟩
  rw [behind, left, found]
  cases blockEnd? depth' rest <;> simp

theorem keeps_skipBlock_cons {calls depth : Nat} {token : Token} {rest : List Token}
    {Q : Except Failure Bool → Course → Prop} (left : c.rest tokens = token :: rest)
    (h : Keeps tokens base (match token.kind with
      | .lBrace => skipBlock tokens calls (depth + 1)
      | .rBrace => if depth = 0 then pure true else do skipBlock tokens calls (← lower depth)
      | _ => skipBlock tokens calls depth) (c.pass 1) Q) :
    Keeps tokens base (skipBlock tokens (calls + 1) depth) c Q := by
  rw [skipBlock]
  refine .bind_of_run (run_cursor c) ?_
  rw [c.getElem?_index, left]
  exact .bind_of_run (run_advance 1 c) h

theorem keeps_skipBlock {calls : Nat} (depth : Nat) (h : c.Within tokens base)
    (ample : tokens.length < c.here.index + calls) :
    Keeps tokens base (skipBlock tokens calls depth) c (Skips tokens depth c) := by
  generalize left : c.rest tokens = rest
  induction depth, rest using depthInduction generalizing c calls with
  | nil depth =>
    obtain ⟨calls, rfl⟩ := h.exists_succ ample
    rw [skipBlock]
    refine .bind_of_run (run_cursor c) ?_
    rw [c.getElem?_index, left]
    exact .pure h ⟨by simp [left, blockEnd?], .refl _, by simp [left]⟩
  | opens depth token rest opens ih =>
    obtain ⟨calls, rfl, inside, behind, ample'⟩ := h.pass_call ample left
    apply keeps_skipBlock_cons left
    simp only [opens]
    exact (ih inside ample' behind).mono fun _ _ skips =>
      skips.behind left (blockEnd?_cons_open opens)
  | closes depth token rest closes ih =>
    obtain ⟨calls, rfl, inside, behind, ample'⟩ := h.pass_call ample left
    have lowered : run (lower (depth + 1)) (c.pass 1) = (.ok depth, c.pass 1) := rfl
    apply keeps_skipBlock_cons left
    simp only [closes, if_neg (Nat.succ_ne_zero depth)]
    exact .bind_of_run lowered <| (ih inside ample' behind).mono fun _ _ skips =>
      skips.behind left (blockEnd?_cons_close closes)
  | ends token rest closes =>
    obtain ⟨calls, rfl⟩ := h.exists_succ ample
    apply keeps_skipBlock_cons left
    simp only [closes, if_true]
    exact .pure (h.pass_one left).1 ⟨by simp [left, blockEnd?_cons_end closes], c.takes_pass 1,
      by simp [left, blockEnd?_cons_end closes]⟩
  | other depth token rest noOpen noClose ih =>
    obtain ⟨calls, rfl, inside, behind, ample'⟩ := h.pass_call ample left
    apply keeps_skipBlock_cons left
    split
    · contradiction
    · contradiction
    · exact (ih inside ample' behind).mono fun _ _ skips =>
        skips.behind left (blockEnd?_cons_other noOpen noClose)

end Keeps

end Descent

end Flowchart.Program
