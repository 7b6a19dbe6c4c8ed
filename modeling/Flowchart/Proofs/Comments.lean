import Flowchart.Proofs.Concatenation
import Flowchart.Proofs.Spans

/-! Comments make no difference to what can be read. They stand before statements, between a
then-branch and its else, and in code that is passed over, and in each of these places the statements
of the grammar stay what they are without them. The tokens that come together then are not ones that
the reader would take together: no statement begins with a semicolon or an else. -/
namespace Flowchart

def withoutComments (tokens : List Token) : List Token := tokens.filter (·.kind ≠ .comment)

theorem withoutComments_cons_of_ne {token : Token} (h : token.kind ≠ .comment)
    (tokens : List Token) : withoutComments (token :: tokens) = token :: withoutComments tokens :=
  List.filter_cons_of_pos (by simpa using h)

theorem withoutComments_cons_comment {token : Token} (h : token.kind = .comment)
    (tokens : List Token) : withoutComments (token :: tokens) = withoutComments tokens :=
  List.filter_cons_of_neg (by simpa using h)

@[simp] theorem withoutComments_append (tokens tokens' : List Token) :
    withoutComments (tokens ++ tokens') = withoutComments tokens ++ withoutComments tokens' :=
  List.filter_append ..

theorem withoutComments_remarks {remarks : List Token}
    (h : ∀ remark ∈ remarks, remark.kind = .comment) : withoutComments remarks = [] := by
  simpa [withoutComments] using h

namespace Braces

theorem openFrom_withoutComments (depth : Nat) (tokens : List Token) :
    openFrom depth (withoutComments tokens) = openFrom depth tokens := by
  induction tokens generalizing depth with
  | nil => rfl
  | cons token tokens ih =>
    by_cases comment : token.kind = .comment
    · have idle : openBehind depth token = depth :=
        openBehind_other (by simp [comment]) (by simp [comment])
      rw [withoutComments_cons_comment comment, openFrom_cons, idle, ih]
    · rw [withoutComments_cons_of_ne comment, openFrom_cons, openFrom_cons, ih]

theorem sealed_withoutComments {depth : Nat} {tokens : List Token} (h : Sealed depth tokens) :
    Sealed depth (withoutComments tokens) := by
  induction depth, tokens using depthInduction with
  | nil depth => exact h
  | opens depth token tokens left ih =>
    rw [withoutComments_cons_of_ne (by simp [left]), sealed_cons_open left]
    exact ih ((sealed_cons_open left).1 h)
  | closes depth token tokens right ih =>
    rw [withoutComments_cons_of_ne (by simp [right]), sealed_cons_close right]
    exact ih ((sealed_cons_close right).1 h)
  | ends token tokens right => exact absurd h (not_sealed_cons_close right)
  | other depth token tokens left right ih =>
    have rest := ih ((sealed_cons_other left right).1 h)
    by_cases comment : token.kind = .comment
    · rwa [withoutComments_cons_comment comment]
    · rwa [withoutComments_cons_of_ne comment, sealed_cons_other left right]

theorem Balanced.withoutComments {tokens : List Token} (h : Balanced tokens) :
    Balanced (withoutComments tokens) := by
  obtain ⟨inside, level⟩ := balanced_iff.1 h
  exact balanced_iff.2 ⟨sealed_withoutComments inside, by rw [openFrom_withoutComments, level]⟩

end Braces

namespace Grammar
open Braces

variable {place : Place} {tokens : List Token} {outlines : List Outline} {behind : Option Kind}
  {text : String} {shape : Shape}

theorem withoutComments_of_spells {kinds : List Kind} (h : Spells kinds tokens)
    (noComment : .comment ∉ kinds) : withoutComments tokens = tokens := by
  refine List.filter_eq_self.2 fun token member => ?_
  have kind : token.kind ∈ kinds := h ▸ List.mem_map_of_mem member
  have other : token.kind ≠ .comment := fun comment => noComment (comment ▸ kind)
  simpa using other

theorem withoutComments_word {kind : Kind} {token : Token} (h : Spells [kind] [token])
    (other : kind ≠ .comment) (rest : List Token) :
    withoutComments (token :: rest) = token :: withoutComments rest :=
  withoutComments_cons_of_ne ((List.cons.inj h).1.trans_ne other) rest

theorem withoutComments_words {kind kind' : Kind} {token token' : Token}
    (h : Spells [kind, kind'] [token, token']) (other : kind ≠ .comment) (other' : kind' ≠ .comment)
    (rest : List Token) :
    withoutComments (token :: token' :: rest) = token :: token' :: withoutComments rest := by
  obtain ⟨first, second⟩ := List.cons.inj h
  rw [withoutComments_cons_of_ne (first.trans_ne other), withoutComments_word second other']

theorem Draws.withoutComments_eq (h : Draws behind tokens text shape) :
    withoutComments tokens = tokens := by
  cases h with
  | bare spelled | square spelled | rounded spelled | circular spelled | parallelogram spelled
  | reverseParallelogram spelled => exact withoutComments_of_spells spelled (by decide)

theorem Header.withoutComments_eq (h : Header tokens text) : withoutComments tokens = tokens := by
  cases h with
  | mk spelled => exact withoutComments_of_spells spelled (by decide)

theorem ahead_withoutComments (tokens : List Token) :
    ahead (withoutComments tokens) ≠ some .comment := by
  intro first
  obtain ⟨token, head, comment⟩ := Option.map_eq_some_iff.1 first
  have kept := List.of_mem_filter (List.mem_of_mem_head? head)
  simp [comment] at kept

theorem Statements.withoutComments (h : Statements place tokens outlines) :
    Statements place (withoutComments tokens) outlines := by
  induction h with
  | nil => exact .nil
  | close spelled =>
    rw [withoutComments_of_spells spelled (by decide)]
    exact .close spelled
  | stray spelled _ ih =>
    rw [withoutComments_word spelled (by decide)]
    exact .stray spelled ih
  | comment spelled _ ih =>
    rwa [withoutComments_cons_comment (List.cons.inj spelled).1]
  | box drawn _ ih =>
    rw [withoutComments_append, drawn.withoutComments_eq]
    exact .box (drawn.of_ne_semi ih.ahead_ne_semi) ih
  | condition headed _ comments _ _ _ ihThen ih =>
    have noElse := ih.ahead_ne .elseWord (by decide)
    simp only [withoutComments_append, headed.withoutComments_eq, withoutComments_remarks comments]
    exact .condition headed ihThen (by simp) (ahead_withoutComments _) noElse ih
  | conditionElse headed _ comments spelled _ _ ihThen ihElse ih =>
    simp only [withoutComments_append, headed.withoutComments_eq, withoutComments_remarks comments,
      withoutComments_words spelled (by decide) (by decide)]
    exact .conditionElse headed ihThen (by simp) spelled ihElse ih
  | leaveBlock spelled balanced closes =>
    rw [withoutComments_words spelled (by decide) (by decide), withoutComments_append,
      withoutComments_of_spells closes (by decide)]
    exact .leaveBlock spelled balanced.withoutComments closes
  | leave spelled balanced closes _ ih =>
    rw [withoutComments_words spelled (by decide) (by decide), withoutComments_append,
      withoutComments_word closes (by decide)]
    exact .leave spelled balanced.withoutComments closes ih
  | leaveLast spelled inside =>
    rw [withoutComments_words spelled (by decide) (by decide)]
    exact .leaveLast spelled (sealed_withoutComments inside)

end Grammar

namespace Program

/-- What is read with comments is read without them, with the same numbers. -/
theorem ofTokens_withoutComments (settings : Settings) {tokens : List Token} {p : Program}
    (h : ofTokens settings.direction tokens = .ok p) :
    ofTokens settings.direction (withoutComments tokens) = .ok p := by
  obtain ⟨outlines, derived, rfl⟩ := ofTokens_eq_ok_iff.1 h
  exact ofTokens_eq_ok_iff.2 ⟨outlines, derived.withoutComments, rfl⟩

def commented : List Token :=
  [.comment, .ifWord, .lParen, .string, .rParen, .lBrace, .comment, .string, .comment, .returnWord,
   .semi, .comment, .lBrace, .comment, .rBrace, .comment, .rBrace, .comment, .comment, .elseWord,
   .lBrace, .string, .semi, .comment, .rBrace, .comment, .lParen, .string, .rParen, .semi,
   .comment].map fun kind => ⟨kind, some "t", ⟨0, 1, 1, 1⟩⟩

def commentedProgram : Program where
  direction := .topDown
  nodes :=
    [.condition 1 "t" 2 [.expression 4 "t" .square, .leave 5] 3 [.expression 6 "t" .square],
     .expression 7 "t" .rounded]

theorem ofTokens_withoutComments_commented :
    ofTokens .topDown commented = .ok commentedProgram ∧
    (withoutComments commented).length = 20 ∧
    ofTokens .topDown (withoutComments commented) = .ok commentedProgram := by
  have read : ofTokens .topDown commented = .ok commentedProgram := by cbv
  exact ⟨read, by decide, ofTokens_withoutComments {} read⟩

end Program

end Flowchart
