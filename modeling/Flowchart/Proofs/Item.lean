import Flowchart.Proofs.Grammar

/-! The two places where the reader looks ahead, against the grammar: the item that begins with a
token, and what stands behind a then-branch. Each is described by a relation on the tokens, and the
reader's function finds exactly what the relation allows. -/
namespace Flowchart.Program
open Grammar Braces

/-- The item that the grammar lets begin with a token, and how many of the tokens behind it belong
to it. -/
inductive Begins (token : Token) : List Token → Item → Nat → Prop where
  | box (front : List Token) {rest : List Token} {text : String} {shape : Shape} :
      Draws (ahead rest) (token :: front) text shape →
      Begins token (front ++ rest) (.box text shape) front.length
  | condition (front : List Token) {rest : List Token} {text : String} :
      Header (token :: front) text →
      Begins token (front ++ rest) (.condition text) front.length
  | comment {rest : List Token} : Spells [.comment] [token] → Begins token rest .comment 0
  | close {rest : List Token} : Spells [.rBrace] [token] → Begins token rest .close 0
  | leave {semi brace : Token} {dead rest : List Token} :
      Spells [.returnWord, .semi] [token, semi] → Balanced dead → Spells [.rBrace] [brace] →
      Begins token (semi :: (dead ++ brace :: rest)) (.leave true) (dead.length + 2)
  | leaveLast {semi : Token} {dead : List Token} : Spells [.returnWord, .semi] [token, semi] →
      Sealed 0 dead → Begins token (semi :: dead) (.leave false) (dead.length + 1)

inductive Follows : List Token → Bool → Nat → Prop where
  | none {remarks rest : List Token} : (∀ remark ∈ remarks, remark.kind = .comment) →
      ahead rest ≠ some .comment → ahead rest ≠ some .elseWord →
      Follows (remarks ++ rest) false remarks.length
  | branch {remarks rest : List Token} {word brace : Token} :
      (∀ remark ∈ remarks, remark.kind = .comment) → Spells [.elseWord, .lBrace] [word, brace] →
      Follows (remarks ++ word :: brace :: rest) true (remarks.length + 2)

section Items

variable {token : Token} {tokens rest : List Token} {found : Item} {n : Nat}

theorem item_of_begins (h : Begins token tokens found n) : item token tokens = .ok (found, n) := by
  cases h with
  | box front drawn =>
    cases drawn with
    | bare spelled behind => simp_all [item, Spells, ahead]
    | square spelled => simp_all [item, Spells]
    | rounded spelled => simp_all [item, Spells, forms, Form.label?, Form.length, strip?]
    | circular spelled => simp_all [item, Spells, forms, Form.label?, Form.length, strip?]
    | parallelogram spelled => simp_all [item, Spells, forms, Form.label?, Form.length, strip?]
    | reverseParallelogram spelled =>
      simp_all [item, Spells, forms, Form.label?, Form.length, strip?]
  | condition front headed =>
    cases headed with
    | mk spelled =>
      simp_all [item, Spells, header, expect, bind, Except.bind, pure, Except.pure, Except.map]
  | comment spelled => simp_all [item, Spells]
  | close spelled => simp_all [item, Spells]
  | @leave semi brace dead rest spelled balanced closes =>
    have kind : brace.kind = .rBrace := by simpa [Spells] using closes
    have closed : blockEnd? 0 (dead ++ brace :: rest) = some (dead.length + 1) :=
      blockEnd?_of_balanced balanced kind
    simp_all [item, Spells]
  | leaveLast spelled inside =>
    have missing := blockEnd?_eq_none_iff.2 inside
    simp_all [item, Spells]

theorem exists_of_strip? {kinds : List Kind} (h : strip? kinds tokens = some rest) :
    ∃ front, tokens = front ++ rest ∧ Spells kinds front := by
  induction kinds generalizing tokens with
  | nil =>
    cases h
    exact ⟨[], rfl, rfl⟩
  | cons kind kinds ih =>
    cases tokens with
    | nil => cases h
    | cons token tokens =>
      unfold strip? at h
      split at h
      next same =>
        obtain ⟨front, rfl, spelled⟩ := ih h
        exact ⟨token :: front, rfl, by simpa [Spells, same] using spelled⟩
      next => cases h

theorem strip?_of_spells {kinds : List Kind} {front : List Token} (h : Spells kinds front)
    (rest : List Token) : strip? kinds (front ++ rest) = some rest := by
  subst h
  induction front with
  | nil => rfl
  | cons token front ih => simpa [strip?] using ih

theorem exists_of_label? {form : Form} {text : String} (h : form.label? tokens = some text) :
    ∃ opening label closing rest, tokens = opening ++ label :: (closing ++ rest) ∧
      Spells form.opening opening ∧ label.kind = .string ∧
      Spells (form.closing ++ [.semi]) closing ∧ text = label.text := by
  unfold Form.label? at h
  split at h
  next label behind opened =>
    split at h
    next fits =>
      cases h
      obtain ⟨after, closed⟩ := Option.isSome_iff_exists.1 fits.2
      obtain ⟨opening, rfl, opens⟩ := exists_of_strip? opened
      obtain ⟨closing, rfl, closes⟩ := exists_of_strip? closed
      exact ⟨opening, label, closing, after, rfl, opens, fits.1, closes, rfl⟩
    next => cases h
  next => cases h

theorem exists_box_of_label? {form : Form} {text : String} (member : form ∈ forms)
    (h : form.label? tokens = some text) :
    ∃ front rest, tokens = front ++ rest ∧ front.length = form.length ∧
      ∀ behind, Draws behind front text form.shape := by
  obtain ⟨opening, label, closing, rest, rfl, opens, string, closes, rfl⟩ := exists_of_label? h
  refine ⟨opening ++ label :: closing, rest, by simp, ?_, ?_⟩
  · have before : opening.length = form.opening.length := by
      simpa [Spells] using congrArg List.length opens
    have behind : closing.length = form.closing.length + 1 := by
      simpa [Spells] using congrArg List.length closes
    simp only [List.length_append, List.length_cons, Form.length, before, behind]
    omega
  · intro behind
    simp only [forms, List.mem_cons, List.not_mem_nil, or_false] at member
    rcases member with rfl | rfl | rfl | rfl <;>
      simp only [Spells, List.cons_append, List.nil_append, List.map_eq_cons_iff,
        List.map_eq_nil_iff] at opens closes
    · obtain ⟨left, _, rfl, hl, rfl⟩ := opens
      obtain ⟨right, _, rfl, hr, semi, _, rfl, hs, rfl⟩ := closes
      exact .rounded (by simp [Spells, hl, string, hr, hs])
    · obtain ⟨left, _, rfl, hl, left', _, rfl, hl', rfl⟩ := opens
      obtain ⟨right, _, rfl, hr, right', _, rfl, hr', semi, _, rfl, hs, rfl⟩ := closes
      exact .circular (by simp [Spells, hl, hl', string, hr, hr', hs])
    · obtain ⟨left, _, rfl, hl, rfl⟩ := opens
      obtain ⟨right, _, rfl, hr, semi, _, rfl, hs, rfl⟩ := closes
      exact .parallelogram (by simp [Spells, hl, string, hr, hs])
    · obtain ⟨left, _, rfl, hl, rfl⟩ := opens
      obtain ⟨right, _, rfl, hr, semi, _, rfl, hs, rfl⟩ := closes
      exact .reverseParallelogram (by simp [Spells, hl, string, hr, hs])

private theorem exists_of_bind {α β : Type} {x : Except Failure α} {f : α → Except Failure β}
    {y : β} (h : (x >>= f) = .ok y) : ∃ a, x = .ok a ∧ f a = .ok y := by
  cases x with
  | error failure => cases h
  | ok a => exact ⟨a, rfl, h⟩

theorem exists_of_header {text : String} (h : header tokens = .ok text) :
    ∃ left label right brace rest, tokens = left :: label :: right :: brace :: rest ∧
      Spells [.lParen, .string, .rParen, .lBrace] [left, label, right, brace] ∧
      text = label.text := by
  obtain ⟨⟨left, tokens1⟩, h1, next1⟩ := exists_of_bind h
  obtain ⟨⟨label, tokens2⟩, h2, next2⟩ := exists_of_bind next1
  obtain ⟨⟨right, tokens3⟩, h3, next3⟩ := exists_of_bind next2
  obtain ⟨⟨brace, rest⟩, h4, last⟩ := exists_of_bind next3
  have k1 := eq_cons_of_expect h1
  have k2 := eq_cons_of_expect h2
  have k3 := eq_cons_of_expect h3
  have k4 := eq_cons_of_expect h4
  refine ⟨left, label, right, brace, rest, ?_, ?_, ?_⟩
  · rw [k1.1, k2.1, k3.1, k4.1]
  · simp [Spells, k1.2, k2.2, k3.2, k4.2]
  · cases last
    rfl

theorem begins_string (h : token.kind = .string) :
    Begins token tokens (.box token.text .square)
      (if tokens.head?.map Token.kind = some .semi then 1 else 0) := by
  split
  next ends =>
    cases tokens with
    | nil => cases ends
    | cons semi tokens =>
      have spelled : Spells [.string, .semi] [token, semi] := by simpa [Spells, h] using ends
      exact .box [semi] (.square spelled)
  next other => exact .box [] (.bare (by simp [Spells, h]) other)

theorem begins_leave {semi : Token} (h : Spells [.returnWord, .semi] [token, semi])
    (closed : blockEnd? 0 tokens = some n) :
    Begins token (semi :: tokens) (.leave true) (n + 1) := by
  obtain ⟨dead, brace, rest, rfl, closes, inside, level, rfl⟩ := exists_of_blockEnd? closed
  exact .leave h (balanced_iff.2 ⟨inside, level⟩) (by simp [Spells, closes])

theorem begins_form {form : Form} {text : String} (member : form ∈ forms)
    (h : form.label? (token :: tokens) = some text) :
    Begins token tokens (.box text form.shape) (form.length - 1) := by
  obtain ⟨front, rest, split, length, drawn⟩ := exists_box_of_label? member h
  cases front with
  | nil => cases drawn none
  | cons first front =>
    obtain ⟨rfl, rfl⟩ := List.cons.inj split
    rw [← length]
    exact .box front (drawn _)

theorem begins_of_item (h : item token tokens = .ok (found, n)) : Begins token tokens found n := by
  unfold item at h
  simp only at h
  split at h
  next string =>
    cases h
    exact begins_string string
  next brace =>
    cases h
    exact .close (by simp [Spells, brace])
  next remark =>
    cases h
    exact .comment (by simp [Spells, remark])
  next word =>
    cases headed : header tokens with
    | error failure => simp [headed, Except.map] at h
    | ok text =>
      simp only [headed, Except.map, Except.ok.injEq, Prod.mk.injEq] at h
      obtain ⟨rfl, rfl⟩ := h
      obtain ⟨left, label, right, brace, rest, rfl, spelled, rfl⟩ := exists_of_header headed
      exact .condition [left, label, right, brace] (.mk (by simpa [Spells, word] using spelled))
  next word =>
    split at h
    next ends =>
      cases tokens with
      | nil => cases ends
      | cons semi tokens =>
        have spelled : Spells [.returnWord, .semi] [token, semi] := by
          simpa [Spells, word] using ends
        simp only [List.tail_cons] at h
        split at h
        next closed =>
          cases h
          exact begins_leave spelled closed
        next missing =>
          cases h
          exact .leaveLast spelled (blockEnd?_eq_none_iff.1 missing)
    next => cases h
  next =>
    split at h
    next shaped =>
      cases h
      obtain ⟨form, member, labelled⟩ := List.exists_of_findSome?_eq_some shaped
      obtain ⟨text, label, same⟩ := Option.map_eq_some_iff.1 labelled
      cases same
      exact begins_form member label
    next => cases h

theorem takeWhile_remarks {remarks : List Token} (h : ∀ remark ∈ remarks, remark.kind = .comment)
    (behind : ahead rest ≠ some .comment) :
    (remarks ++ rest).takeWhile (·.kind = .comment) = remarks := by
  rw [List.takeWhile_append_of_pos (by simpa using h)]
  cases rest with
  | nil => simp
  | cons token rest => simp_all [ahead]

theorem elseBranch_of_follows {any : Bool} (h : Follows tokens any n) :
    elseBranch tokens = .ok (any, n) := by
  cases h with
  | @none remarks rest comments behind noElse =>
    simp only [elseBranch, takeWhile_remarks comments behind, List.drop_left]
    cases rest with
    | nil => rfl
    | cons token rest => simp_all [ahead]
  | @branch remarks rest word brace comments spelled =>
    have behind : ahead (word :: brace :: rest) ≠ some .comment := by simp_all [ahead, Spells]
    simp only [elseBranch, takeWhile_remarks comments behind, List.drop_left]
    simp_all [Spells, expect, Except.map]

theorem exists_remarks (tokens : List Token) :
    ∃ remarks rest, tokens = remarks ++ rest ∧ (∀ remark ∈ remarks, remark.kind = .comment) ∧
      ahead rest ≠ some .comment := by
  induction tokens with
  | nil => exact ⟨[], [], rfl, by simp, by simp [ahead]⟩
  | cons token tokens ih =>
    by_cases comment : token.kind = .comment
    · obtain ⟨remarks, rest, rfl, comments, behind⟩ := ih
      exact ⟨token :: remarks, rest, rfl, by simpa [comment] using comments, behind⟩
    · exact ⟨[], token :: tokens, rfl, by simp, by simpa [ahead] using comment⟩

theorem follows_of_elseBranch {any : Bool} (h : elseBranch tokens = .ok (any, n)) :
    Follows tokens any n := by
  obtain ⟨remarks, rest, rfl, comments, behind⟩ := exists_remarks tokens
  simp only [elseBranch, takeWhile_remarks comments behind, List.drop_left] at h
  cases rest with
  | nil =>
    cases h
    exact .none comments behind (by simp [ahead])
  | cons word rest =>
    by_cases elses : word.kind = .elseWord
    · simp only [elses, if_true] at h
      cases opened : expect .lBrace rest with
      | error failure => simp [opened, Except.map] at h
      | ok result =>
        obtain ⟨rfl, brace⟩ := eq_cons_of_expect opened
        rw [opened] at h
        cases h
        exact .branch comments (by simp [Spells, elses, brace])
    · simp only [elses, if_false] at h
      cases h
      exact .none comments behind (by simpa [ahead] using elses)

end Items

end Flowchart.Program
