import Flowchart.Program

/-! Tokens to a program. Statements are read one after the other; a condition whose branches are not
yet complete waits on a stack. Nodes are numbered in the order in which they begin, and a condition
takes the numbers of both its branches together with its own. -/
namespace Flowchart.Program

/-- A statement with marks around its label, which give the box its shape. -/
structure Form where
  opening : List Kind
  closing : List Kind
  shape : Shape
deriving DecidableEq, Repr

def forms : List Form :=
  [⟨[.lParen], [.rParen], .rounded⟩,
   ⟨[.lParen, .lParen], [.rParen, .rParen], .circular⟩,
   ⟨[.forwardSlash], [.forwardSlash], .parallelogram⟩,
   ⟨[.backwardSlash], [.backwardSlash], .reverseParallelogram⟩]

def Form.length (form : Form) : Nat := form.opening.length + form.closing.length + 2

/-- What is left when tokens of the given kinds are taken from the front. -/
def strip? : List Kind → List Token → Option (List Token)
  | [], tokens => some tokens
  | _ :: _, [] => none
  | kind :: kinds, token :: tokens => if token.kind = kind then strip? kinds tokens else none

theorem length_strip? {kinds : List Kind} {tokens rest : List Token}
    (h : strip? kinds tokens = some rest) : tokens.length = kinds.length + rest.length := by
  induction kinds generalizing tokens with
  | nil =>
    cases h
    simp
  | cons kind kinds ih =>
    cases tokens with
    | nil => cases h
    | cons token tokens =>
      unfold strip? at h
      split at h
      · have bound := ih h
        simp only [List.length_cons]
        omega
      · cases h

def Form.label? (form : Form) (tokens : List Token) : Option String :=
  match strip? form.opening tokens with
  | some (label :: rest) =>
    if label.kind = .string ∧ (strip? (form.closing ++ [.semi]) rest).isSome then some label.text
    else none
  | _ => none

theorem Form.length_le {form : Form} {tokens : List Token} {text : String}
    (h : form.label? tokens = some text) : form.length ≤ tokens.length := by
  unfold label? at h
  split at h
  next label rest opened =>
    split at h
    next fits =>
      obtain ⟨after, closed⟩ := Option.isSome_iff_exists.1 fits.2
      have before := length_strip? opened
      have behind := length_strip? closed
      simp only [List.length_append, List.length_cons, List.length_nil] at before behind
      unfold Form.length
      omega
    next => cases h
  next => cases h

inductive Item where
  | box (text : String) (shape : Shape)
  /-- A condition, up to the brace that opens its then-branch. -/
  | condition (text : String)
  /-- Leaving the program. What follows in the same block is never reached and is passed over; the
  brace that ends the block may or may not have been found. -/
  | leave (closed : Bool)
  | close
  | comment
deriving DecidableEq, Repr

def expect (kind : Kind) : List Token → Except Failure (Token × List Token)
  | [] => .error (.unexpectedEnd kind)
  | token :: tokens =>
    if token.kind = kind then .ok (token, tokens)
    else .error (.expectedToken kind token.kind token.pos)

theorem eq_cons_of_expect {kind : Kind} {tokens rest : List Token} {token : Token}
    (h : expect kind tokens = .ok (token, rest)) : tokens = token :: rest ∧ token.kind = kind := by
  cases tokens with
  | nil => cases h
  | cons first tokens =>
    simp only [expect] at h
    split at h
    next same =>
      cases h
      exact ⟨rfl, same⟩
    next => cases h

/-- The label of a condition, behind whose reserved word four tokens follow. -/
def header (tokens : List Token) : Except Failure String := do
  let (_, tokens) ← expect .lParen tokens
  let (label, tokens) ← expect .string tokens
  let (_, tokens) ← expect .rParen tokens
  let _ ← expect .lBrace tokens
  return label.text

theorem length_header {tokens : List Token} {text : String} (h : header tokens = .ok text) :
    4 ≤ tokens.length := by
  unfold header at h
  cases h1 : expect .lParen tokens with
  | error e => simp [h1, bind, Except.bind] at h
  | ok r1 =>
    cases h2 : expect .string r1.2 with
    | error e => simp [h1, h2, bind, Except.bind] at h
    | ok r2 =>
      cases h3 : expect .rParen r2.2 with
      | error e => simp [h1, h2, h3, bind, Except.bind] at h
      | ok r3 =>
        cases h4 : expect .lBrace r3.2 with
        | error e => simp [h1, h2, h3, h4, bind, Except.bind] at h
        | ok r4 =>
          have e1 := (eq_cons_of_expect h1).1
          have e2 := (eq_cons_of_expect h2).1
          have e3 := (eq_cons_of_expect h3).1
          have e4 := (eq_cons_of_expect h4).1
          rw [e1, e2, e3, e4]
          simp

/-- How many tokens there are to the end of a block in which `depth` inner blocks are open, its closing
brace included. -/
def blockEnd? (depth : Nat) : List Token → Option Nat
  | [] => none
  | token :: tokens =>
    match token.kind, depth with
    | .lBrace, depth => (blockEnd? (depth + 1) tokens).map (· + 1)
    | .rBrace, 0 => some 1
    | .rBrace, depth + 1 => (blockEnd? depth tokens).map (· + 1)
    | _, depth => (blockEnd? depth tokens).map (· + 1)

theorem blockEnd?_le {depth : Nat} {tokens : List Token} {n : Nat}
    (h : blockEnd? depth tokens = some n) : n ≤ tokens.length := by
  induction tokens generalizing depth n with
  | nil => cases h
  | cons token tokens ih =>
    unfold blockEnd? at h
    split at h
    case h_2 =>
      cases h
      simp
    all_goals
      obtain ⟨m, hm, rfl⟩ := Option.map_eq_some_iff.1 h
      simpa using ih hm

/-- The item that begins with `token`, and how many of the tokens behind it belong to it. -/
def item (token : Token) (tokens : List Token) : Except Failure (Item × Nat) :=
  let unexpected := Except.error (.unexpectedToken token.kind token.pos)
  let next := tokens.head?.map Token.kind
  match token.kind with
  | .string => .ok (.box token.text .square, if next = some .semi then 1 else 0)
  | .rBrace => .ok (.close, 0)
  | .comment => .ok (.comment, 0)
  | .ifWord => (header tokens).map fun text => (.condition text, 4)
  | .returnWord =>
    if next = some .semi then
      match blockEnd? 0 tokens.tail with
      | some n => .ok (.leave true, n + 1)
      | none => .ok (.leave false, tokens.length)
    else unexpected
  | _ =>
    match forms.findSome? fun form =>
        (form.label? (token :: tokens)).map fun text => (Item.box text form.shape, form.length - 1) with
    | some found => .ok found
    | none => unexpected

theorem item_le {token : Token} {tokens : List Token} {found : Item} {n : Nat}
    (h : item token tokens = .ok (found, n)) : n ≤ tokens.length := by
  unfold item at h
  simp only at h
  split at h
  · cases h
    cases tokens with
    | nil => simp
    | cons next tokens => split <;> simp
  · cases h
    exact Nat.zero_le _
  · cases h
    exact Nat.zero_le _
  · cases text : header tokens with
    | error failure => simp [text, Except.map] at h
    | ok text' =>
      simp only [text, Except.map, Except.ok.injEq, Prod.mk.injEq] at h
      have bound := length_header text
      omega
  · split at h
    next semi =>
      split at h
      next m closed =>
        cases h
        have bound := blockEnd?_le closed
        cases tokens with
        | nil => cases semi
        | cons next tokens => simpa using bound
      next =>
        cases h
        exact Nat.le_refl _
    next => cases h
  · split at h
    next shaped =>
      cases h
      obtain ⟨form, _, labelled⟩ := List.exists_of_findSome?_eq_some shaped
      obtain ⟨text, label, same⟩ := Option.map_eq_some_iff.1 labelled
      cases same
      have bound := Form.length_le label
      simp only [List.length_cons] at bound
      omega
    next => cases h

/-- Behind the end of a then-branch: whether an else-branch begins, and how many tokens to pass, which
are the comments there and the two tokens that begin the branch. -/
def elseBranch (tokens : List Token) : Except Failure (Bool × Nat) :=
  let comments := (tokens.takeWhile (·.kind = .comment)).length
  match tokens.drop comments with
  | [] => .ok (false, comments)
  | token :: tokens =>
    if token.kind = .elseWord then (expect .lBrace tokens).map fun _ => (true, comments + 2)
    else .ok (false, comments)

theorem elseBranch_le {tokens : List Token} {found : Bool} {n : Nat}
    (h : elseBranch tokens = .ok (found, n)) : n ≤ tokens.length := by
  have comments := (List.takeWhile_prefix (·.kind = .comment) (l := tokens)).length_le
  unfold elseBranch at h
  simp only at h
  split at h
  · cases h
    exact comments
  next token rest dropped =>
    have length := congrArg List.length dropped
    simp only [List.length_drop, List.length_cons] at length
    split at h
    · cases opened : expect .lBrace rest with
      | error failure => simp [opened, Except.map] at h
      | ok result =>
        simp only [opened, Except.map, Except.ok.injEq, Prod.mk.injEq] at h
        have open' := congrArg List.length (eq_cons_of_expect opened).1
        simp only [List.length_cons] at open'
        omega
    · cases h
      exact comments

structure Pending where
  id : NodeId
  text : String
  /-- The nodes before the condition in its own block, the last one first. -/
  before : List Node
  /-- The then-branch, once it is complete. -/
  thenNodes? : Option (List Node) := none
deriving Repr

/-- The block being read, the last node first, inside the conditions that wait for it, the innermost
first; and the next number to give. -/
structure Reader where
  nodes : List Node := []
  pending : List Pending := []
  next : NodeId := 1
deriving Repr

namespace Reader

def push (r : Reader) (node : Node) : Reader := { r with nodes := node :: r.nodes, next := r.next + 1 }

def enter (r : Reader) (text : String) : Reader :=
  ⟨[], { id := r.next, text, before := r.nodes } :: r.pending, r.next + 3⟩

def finish (r : Reader) (condition : Pending) (pending : List Pending)
    (thenNodes elseNodes : List Node) : Reader :=
  let node := Node.condition condition.id condition.text (condition.id + 1) thenNodes
    (condition.id + 2) elseNodes
  { r with nodes := node :: condition.before, pending }

/-- Ends the block being read, and says how many of the tokens behind its brace belong to the end. A
brace that ends no block is passed over. -/
def close (r : Reader) (tokens : List Token) : Except Failure (Reader × Nat) :=
  match r.pending with
  | [] => .ok (r, 0)
  | condition :: pending =>
    match condition.thenNodes? with
    | some thenNodes => .ok (r.finish condition pending thenNodes r.nodes.reverse, 0)
    | none => (elseBranch tokens).map fun (found, n) =>
      if found then
        let condition := { condition with thenNodes? := some r.nodes.reverse }
        ({ r with nodes := [], pending := condition :: pending }, n)
      else (r.finish condition pending r.nodes.reverse [], n)

theorem close_le {r r' : Reader} {tokens : List Token} {n : Nat}
    (h : r.close tokens = .ok (r', n)) : n ≤ tokens.length := by
  unfold close at h
  split at h
  · cases h
    exact Nat.zero_le _
  split at h
  · cases h
    exact Nat.zero_le _
  next =>
    cases e : elseBranch tokens with
    | error failure => simp [e, Except.map] at h
    | ok result =>
      obtain ⟨found, m⟩ := result
      have bound := elseBranch_le e
      simp only [e, Except.map, Except.ok.injEq] at h
      split at h <;> cases h <;> exact bound

def closeBehind (r : Reader) (tokens : List Token) (n : Nat) : Except Failure (Reader × Nat) :=
  (r.close (tokens.drop n)).map fun (r, m) => (r, n + m)

/-- Takes in the item that begins with `token`, and says how many of the tokens behind it are used. -/
def step (r : Reader) (token : Token) (tokens : List Token) : Except Failure (Reader × Nat) :=
  match item token tokens with
  | .error failure => .error failure
  | .ok (.box text shape, n) => .ok (r.push (.expression r.next text shape), n)
  | .ok (.condition text, n) => .ok (r.enter text, n)
  | .ok (.comment, n) => .ok (r, n)
  | .ok (.close, n) => r.closeBehind tokens n
  | .ok (.leave true, n) => (r.push (.leave r.next)).closeBehind tokens n
  | .ok (.leave false, n) => .ok (r.push (.leave r.next), n)

theorem closeBehind_le {r r' : Reader} {tokens : List Token} {n m : Nat} (h : n ≤ tokens.length)
    (closed : r.closeBehind tokens n = .ok (r', m)) : n ≤ m ∧ m ≤ tokens.length := by
  unfold closeBehind at closed
  cases e : r.close (tokens.drop n) with
  | error failure => simp [e, Except.map] at closed
  | ok result =>
    have bound := close_le e
    simp only [e, Except.map, Except.ok.injEq, Prod.mk.injEq, List.length_drop] at closed bound
    omega

theorem step_le {r r' : Reader} {token : Token} {tokens : List Token} {n : Nat}
    (h : r.step token tokens = .ok (r', n)) : n ≤ tokens.length := by
  unfold step at h
  split at h
  · cases h
  next found =>
    cases h
    exact item_le found
  next found =>
    cases h
    exact item_le found
  next found =>
    cases h
    exact item_le found
  next found => exact (closeBehind_le (item_le found) h).2
  next found => exact (closeBehind_le (item_le found) h).2
  next found =>
    cases h
    exact item_le found

def run (r : Reader) : List Token → Except Failure (List Node)
  | [] => if r.pending.isEmpty then .ok r.nodes.reverse else .error (.unexpectedEnd .rBrace)
  | token :: tokens =>
    match r.step token tokens with
    | .error failure => .error failure
    | .ok (r, n) => r.run (tokens.drop n)
termination_by tokens => tokens.length

theorem run_nil (r : Reader) :
    r.run [] = if r.pending.isEmpty then .ok r.nodes.reverse else .error (.unexpectedEnd .rBrace) := by
  rw [run]

theorem run_cons_ok {r r' : Reader} {token : Token} {tokens : List Token} {n : Nat}
    (h : r.step token tokens = .ok (r', n)) : r.run (token :: tokens) = r'.run (tokens.drop n) := by
  rw [run, h]

theorem run_cons_error {r : Reader} {token : Token} {tokens : List Token} {failure : Failure}
    (h : r.step token tokens = .error failure) : r.run (token :: tokens) = .error failure := by
  rw [run, h]

end Reader

/-- The root has the number zero. -/
def ofTokens (direction : Direction) (tokens : List Token) : Except Failure Program :=
  (Reader.run {} tokens).map fun nodes => { direction, nodes }

end Flowchart.Program
