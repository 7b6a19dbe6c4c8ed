import Flowchart.Proofs.Acceptance
import Mathlib.Data.List.Basic

/-! What stands behind a return in its block has no influence, whether or not it could be read. The
reader looks ahead from one token to a few others, but never past a return. So it comes to the
return in the same state whatever is behind it, and goes on behind the end of the block. -/
namespace Flowchart

namespace Braces
open Program

/-- What stands behind the end of a block in which `depth` inner blocks are open. -/
def behind? (depth : Nat) (tokens : List Token) : Option (List Token) :=
  (blockEnd? depth tokens).map tokens.drop

variable {depth : Nat} {token : Token} {front tokens dead : List Token}

theorem Sealed.mono {depth' : Nat} (h : Sealed depth tokens) (le : depth ≤ depth') :
    Sealed depth' tokens := by
  intro n
  have bound := h n
  omega

theorem behind?_append (h : Sealed depth front) :
    behind? depth (front ++ tokens) = behind? (openFrom depth front) tokens := by
  rw [behind?, blockEnd?_append h, Option.map_map, behind?]
  congr 1
  funext n
  rw [Function.comp_apply, Nat.add_comm, ← List.drop_drop, List.drop_left]

theorem behind?_cons_end (h : token.kind = .rBrace) : behind? 0 (token :: tokens) = some tokens := by
  rw [behind?, blockEnd?_cons_end h]
  rfl

theorem behind?_cons_other (left : token.kind ≠ .lBrace) (right : token.kind ≠ .rBrace) :
    behind? depth (token :: tokens) = behind? depth tokens := by
  have inside : Sealed depth [token] := (sealed_cons_other left right).2 sealed_nil
  rw [← List.singleton_append, behind?_append inside, openFrom_cons, openBehind_other left right]
  rfl

theorem Balanced.behind?_append (h : Balanced dead) :
    behind? depth (dead ++ tokens) = behind? depth tokens := by
  rw [Braces.behind?_append (h.closed_le.mono (Nat.zero_le depth)), h.openFrom_eq]

theorem behind?_append_cases (depth : Nat) (front : List Token) :
    (∃ rest, rest.length < front.length ∧
      ∀ tokens, behind? depth (front ++ tokens) = some (rest ++ tokens)) ∨
    ∃ depth', ∀ tokens, behind? depth (front ++ tokens) = behind? depth' tokens := by
  cases ended : blockEnd? depth front with
  | none => exact .inr ⟨_, fun tokens => behind?_append (blockEnd?_eq_none_iff.1 ended)⟩
  | some n =>
    obtain ⟨inner, brace, rest, rfl, closes, inside, level, -⟩ := exists_of_blockEnd? ended
    refine .inl ⟨rest, by simp; omega, fun tokens => ?_⟩
    rw [List.append_assoc, behind?_append inside, level, List.cons_append, behind?_cons_end closes]

end Braces

namespace Program
open Grammar Braces

section Lookahead

variable {token word : Token} {front rest : List Token} {kinds : List Kind} {form : Form}
  {found : Item} {n : Nat}

theorem strip?_append (returns : word.kind = .returnWord) (other : .returnWord ∉ kinds) :
    strip? kinds (front ++ word :: rest) = (strip? kinds front).map (· ++ word :: rest) := by
  induction kinds generalizing front with
  | nil => rfl
  | cons kind kinds ih =>
    obtain ⟨first, others⟩ := not_or.1 (mt List.mem_cons.2 other)
    cases front with
    | nil => simp [strip?, returns, first]
    | cons token front =>
      simp only [List.cons_append, strip?]
      split
      · exact ih others
      · rfl

theorem Form.label?_append (returns : word.kind = .returnWord) (member : form ∈ forms) :
    form.label? (front ++ word :: rest) = form.label? front := by
  have marks : ∀ form ∈ forms,
      .returnWord ∉ form.opening ∧ .returnWord ∉ form.closing ++ [.semi] := by decide
  obtain ⟨opening, closing⟩ := marks form member
  unfold Form.label?
  rw [strip?_append returns opening]
  cases strip? form.opening front with
  | none => rfl
  | some after =>
    cases after with
    | nil => simp [returns]
    | cons label after => simp [strip?_append returns closing]

theorem expect_bind_append {α : Type} {kind : Kind} {f : Token × List Token → Except Failure α}
    (returns : word.kind = .returnWord) (other : kind ≠ .returnWord)
    (same : ∀ token front, f (token, front ++ word :: rest) = f (token, front ++ [word])) :
    (expect kind (front ++ word :: rest) >>= f) = (expect kind (front ++ [word]) >>= f) := by
  cases front with
  | nil => simp [expect, returns, other.symm, bind, Except.bind]
  | cons token front =>
    simp only [List.cons_append, expect]
    split
    · exact same token front
    · rfl

theorem header_append (returns : word.kind = .returnWord) :
    header (front ++ word :: rest) = header (front ++ [word]) := by
  refine expect_bind_append returns (by decide) fun _ front => ?_
  refine expect_bind_append returns (by decide) fun _ front => ?_
  refine expect_bind_append returns (by decide) fun _ front => ?_
  exact expect_bind_append returns (by decide) fun _ front => rfl

theorem length_of_header {text : String} (returns : word.kind = .returnWord)
    (h : header (front ++ [word]) = .ok text) : 4 ≤ front.length := by
  obtain ⟨left, label, right, brace, rest, split, spelled, -⟩ := exists_of_header h
  rcases front with _ | ⟨a, _ | ⟨b, _ | ⟨c, _ | ⟨d, front⟩⟩⟩⟩ <;> simp_all [Spells]

theorem item_append (returns : word.kind = .returnWord) (noHeader : token.kind ≠ .ifWord)
    (reads : token.kind = .returnWord → ahead front ≠ some .semi) :
    item token (front ++ word :: rest) = item token front := by
  have next : (front ++ word :: rest).head?.map Token.kind = some .semi ↔
      front.head?.map Token.kind = some .semi := by
    cases front <;> simp [returns]
  have shaped : ∀ form ∈ forms,
      form.label? (token :: (front ++ word :: rest)) = form.label? (token :: front) := by
    intro form member
    rw [← List.cons_append, Form.label?_append returns member]
  have sought := List.filterMap_congr (g := fun form => (form.label? (token :: front)).map
    fun text => (Item.box text form.shape, form.length - 1))
    fun form member => congrArg (Option.map _) (shaped form member)
  unfold item
  simp only [next, ← List.head?_filterMap, sought]
  cases kind : token.kind with
  | ifWord => exact absurd kind noHeader
  | returnWord =>
    have bare : ¬ front.head?.map Token.kind = some .semi := reads kind
    simp only [bare, if_false]
  | _ => rfl

/-- Whatever stands behind the return, the function finds the same, and takes no more tokens than
there are before it. -/
def Settled {α : Type} (front : List Token) (word : Token)
    (f : List Token → Except Failure (α × Nat)) : Prop :=
  ∃ result, (∀ found n, result = .ok (found, n) → n ≤ front.length) ∧
    ∀ rest, f (front ++ word :: rest) = result

theorem item_settled (returns : word.kind = .returnWord)
    (reads : token.kind = .returnWord → ahead front ≠ some .semi) :
    Settled front word (item token) := by
  by_cases headed : token.kind = .ifWord
  · refine ⟨(header (front ++ [word])).map fun text => (.condition text, 4), ?_, ?_⟩
    · intro found n read
      cases text : header (front ++ [word]) with
      | error failure => simp [text, Except.map] at read
      | ok label =>
        simp only [text, Except.map, Except.ok.injEq, Prod.mk.injEq] at read
        exact read.2 ▸ length_of_header returns text
    · intro rest
      simp only [item, headed, header_append returns]
  · exact ⟨item token front, fun _ _ => item_le, fun _ => item_append returns headed reads⟩

theorem elseBranch_settled (returns : word.kind = .returnWord) : Settled front word elseBranch := by
  have remarks : ∀ rest, (front ++ word :: rest).takeWhile (·.kind = .comment) =
      front.takeWhile (·.kind = .comment) := by
    intro rest
    rw [List.takeWhile_append]
    split
    next all =>
      rw [List.takeWhile_cons_of_neg (by simp [returns]), List.append_nil]
      exact ((List.takeWhile_prefix _).eq_of_length all).symm
    next => rfl
  have bound := (List.takeWhile_prefix (·.kind = .comment) (l := front)).length_le
  have dropped : ∀ rest, (front ++ word :: rest).drop (front.takeWhile (·.kind = .comment)).length =
      front.drop (front.takeWhile (·.kind = .comment)).length ++ word :: rest :=
    fun rest => List.drop_append_of_le_length bound
  unfold Settled elseBranch
  simp only [remarks, dropped]
  generalize (front.takeWhile (·.kind = .comment)).length = comments at bound
  cases left : front.drop comments with
  | nil => exact ⟨.ok (false, comments), by simpa using bound, by simp [returns]⟩
  | cons token after =>
    have length := congrArg List.length left
    simp only [List.length_drop, List.length_cons] at length
    by_cases elses : token.kind = .elseWord
    · cases after with
      | nil =>
        refine ⟨.error (.expectedToken .lBrace word.kind word.pos), by simp, ?_⟩
        simp [elses, expect, returns, Except.map]
      | cons brace after =>
        by_cases opens : brace.kind = .lBrace
        · refine ⟨.ok (true, comments + 2), ?_, by simp [elses, expect, opens, Except.map]⟩
          rintro found n ⟨⟩
          rw [List.length_cons] at length
          omega
        · refine ⟨.error (.expectedToken .lBrace brace.kind brace.pos), by simp, ?_⟩
          simp [elses, expect, opens, Except.map]
    · exact ⟨.ok (false, comments), by simpa using bound, by simp [elses]⟩

end Lookahead

namespace Reader

variable {token word semi : Token} {front tokens tail tail' : List Token}

theorem close_settled (r : Reader) (returns : word.kind = .returnWord) :
    Settled front word r.close := by
  unfold Settled close
  cases r.pending with
  | nil => exact ⟨_, by simp, fun _ => rfl⟩
  | cons condition pending =>
    dsimp only
    cases condition.thenNodes? with
    | some thenNodes => exact ⟨_, by simp, fun _ => rfl⟩
    | none =>
      have settled : Settled front word elseBranch := elseBranch_settled returns
      obtain ⟨result, bound, same⟩ := settled
      simp only [same]
      refine ⟨_, ?_, fun _ => rfl⟩
      intro found n closed
      cases result with
      | error failure => cases closed
      | ok branch =>
        have within := bound branch.1 branch.2 rfl
        simp only [Except.map, Except.ok.injEq] at closed
        split at closed <;> cases closed <;> exact within

theorem closeBehind_settled (r : Reader) {n : Nat} (returns : word.kind = .returnWord)
    (before : n ≤ front.length) : Settled front word (r.closeBehind · n) := by
  have settled : Settled (front.drop n) word r.close := r.close_settled returns
  obtain ⟨result, bound, same⟩ := settled
  unfold Settled closeBehind
  simp only [List.drop_append_of_le_length before, same]
  refine ⟨_, ?_, fun _ => rfl⟩
  intro found m closed
  cases result with
  | error failure => cases closed
  | ok ended =>
    have within := bound ended.1 ended.2 rfl
    simp only [Except.map, Except.ok.injEq, Prod.mk.injEq, List.length_drop] at closed within
    omega

/-- What the reader does with a token before the return does not depend on what is behind it. -/
theorem step_settled (r : Reader) (returns : word.kind = .returnWord)
    (reads : token.kind = .returnWord → ahead front ≠ some .semi) :
    Settled front word (r.step token) := by
  obtain ⟨result, bound, same⟩ := item_settled returns reads
  unfold Settled step
  simp only [same]
  cases result with
  | error failure => exact ⟨.error failure, by simp, fun _ => rfl⟩
  | ok item =>
    obtain ⟨found, n⟩ := item
    have before := bound found n rfl
    cases found with
    | box | condition | comment => exact ⟨_, by simpa using before, fun _ => rfl⟩
    | close => exact closeBehind_settled r returns before
    | leave closed =>
      cases closed with
      | true => exact closeBehind_settled _ returns before
      | false => exact ⟨_, by simpa using before, fun _ => rfl⟩

/-- A reading that fails before the return, or comes to it in one state with at most `size` tokens
before it, whatever stands behind. -/
def Comes (word : Token) (size : Nat) (reading : List Token → Except Failure (List Node)) : Prop :=
  (∃ failure, ∀ rest, reading rest = .error failure) ∨
    ∃ (r : Reader) (front : List Token), front.length ≤ size ∧
      ∀ rest, reading rest = r.run (front ++ word :: rest)

theorem comes_of_settled {f : List Token → Except Failure (Reader × Nat)}
    (h : Settled front word f) :
    Comes word front.length fun rest =>
      match f (front ++ word :: rest) with
      | .error failure => .error failure
      | .ok (r, n) => r.run ((front ++ word :: rest).drop n) := by
  obtain ⟨result, bound, same⟩ := h
  simp only [same]
  cases result with
  | error failure => exact .inl ⟨failure, fun _ => rfl⟩
  | ok read =>
    have before := bound read.1 read.2 rfl
    refine .inr ⟨read.1, front.drop read.2, by simp, fun rest => ?_⟩
    simp only [List.drop_append_of_le_length before]

theorem resume_comes (r : Reader) (front : List Token) (returns : word.kind = .returnWord) :
    Comes word front.length fun rest => r.resume (front ++ word :: rest) :=
  comes_of_settled (r.close_settled returns)

theorem run_comes (r : Reader) (returns : word.kind = .returnWord)
    (reads : token.kind = .returnWord → ahead front ≠ some .semi) :
    Comes word front.length fun rest => r.run (token :: (front ++ word :: rest)) := by
  simp only [run]
  exact comes_of_settled (r.step_settled returns reads)

theorem run_return_eq (r : Reader) (spelled : Spells [.returnWord, .semi] [word, semi]) :
    r.run (word :: semi :: tokens) =
      match behind? 0 tokens with
      | some rest => (r.extend [.leave]).resume rest
      | none => (r.extend [.leave]).run [] := by
  cases ended : blockEnd? 0 tokens with
  | none =>
    rw [behind?, ended, run_last_return r spelled (blockEnd?_eq_none_iff.1 ended)]
    rfl
  | some n =>
    obtain ⟨dead, brace, rest, rfl, closes, inside, level, rfl⟩ := exists_of_blockEnd? ended
    rw [run_return r spelled (balanced_iff.2 ⟨inside, level⟩) (by simp [Spells, closes]),
      behind?_append inside, level, behind?_cons_end closes]

theorem run_append_return (spelled : Spells [.returnWord, .semi] [word, semi])
    (same : ∀ depth, behind? depth tail = behind? depth tail') (r : Reader) (front : List Token) :
    r.run (front ++ word :: semi :: tail) = r.run (front ++ word :: semi :: tail') := by
  have returns : word.kind = .returnWord := by simp_all [Spells]
  have ends : semi.kind = .semi := by simp_all [Spells]
  induction size : front.length using Nat.strong_induction_on generalizing r front with
  | _ size' ih =>
  subst size
  have alike : ∀ {size reading}, Comes word size reading → size < front.length →
      reading (semi :: tail) = reading (semi :: tail') := by
    rintro size reading (⟨failure, fails⟩ | ⟨r, rest, bound, reads⟩) shorter
    · rw [fails, fails]
    · rw [reads, reads]
      exact ih rest.length (by omega) r rest rfl
  cases front with
  | nil =>
    rw [List.nil_append, List.nil_append, run_return_eq r spelled, run_return_eq r spelled, same]
  | cons token front =>
    by_cases reads : token.kind = .returnWord → ahead front ≠ some .semi
    · exact alike (r.run_comes returns reads) (by simp)
    · -- The return stands among what another return passes over, or behind that.
      obtain ⟨returns', next⟩ := Classical.not_imp.1 reads
      cases front with
      | nil => simp [ahead] at next
      | cons semi' front =>
        have spelled' : Spells [.returnWord, .semi] [token, semi'] := by simp_all [Spells, ahead]
        simp only [List.cons_append, run_return_eq r spelled']
        rcases behind?_append_cases 0 front with ⟨rest, shorter, found⟩ | ⟨depth, found⟩
        · simp only [found]
          exact alike (resume_comes _ rest returns) (by simp only [List.length_cons]; omega)
        · have passed : ∀ tokens, behind? depth (word :: semi :: tokens) = behind? depth tokens := by
            intro tokens
            rw [behind?_cons_other (by simp [returns]) (by simp [returns]),
              behind?_cons_other (by simp [ends]) (by simp [ends])]
          simp only [found, passed, same]

end Reader

/-- Whatever is behind the end of its block, what stands behind a return can be exchanged, and it can
be left out at the end of the tokens. -/
theorem ofTokens_behind_return (settings : Settings) (front : List Token) {word semi : Token}
    {dead dead' : List Token} (spelled : Spells [.returnWord, .semi] [word, semi])
    (balanced : Balanced dead) (balanced' : Balanced dead') :
    (∀ brace rest, brace.kind = .rBrace →
      ofTokens settings.direction (front ++ [word, semi] ++ dead ++ [brace] ++ rest) =
        ofTokens settings.direction (front ++ [word, semi] ++ dead' ++ [brace] ++ rest)) ∧
    ofTokens settings.direction (front ++ [word, semi] ++ dead) =
      ofTokens settings.direction (front ++ [word, semi]) := by
  have exchange : ∀ {dead dead' : List Token}, Balanced dead → Balanced dead' → ∀ rest,
      Reader.run {} (front ++ word :: semi :: (dead ++ rest)) =
        Reader.run {} (front ++ word :: semi :: (dead' ++ rest)) := by
    intro dead dead' balanced balanced' rest
    refine Reader.run_append_return spelled (fun depth => ?_) {} front
    rw [balanced.behind?_append, balanced'.behind?_append]
  constructor
  · intro brace rest _
    have read := exchange balanced balanced' (brace :: rest)
    simp only [ofTokens, List.append_assoc, List.cons_append, List.nil_append, read]
  · have read := exchange balanced balanced_nil []
    simp only [List.append_nil] at read
    simp only [ofTokens, List.append_assoc, List.cons_append, List.nil_append, read]

def opening : List Token :=
  [⟨.ifWord, none, ⟨0, 2, 1, 1⟩⟩, ⟨.lParen, none, ⟨3, 1, 1, 4⟩⟩, ⟨.string, some "a", ⟨4, 1, 1, 5⟩⟩,
   ⟨.rParen, none, ⟨5, 1, 1, 6⟩⟩, ⟨.lBrace, none, ⟨7, 1, 1, 8⟩⟩]

def unreadable : List Token :=
  [⟨.elseWord, none, ⟨17, 4, 1, 18⟩⟩, ⟨.lBrace, none, ⟨22, 1, 1, 23⟩⟩,
   ⟨.rBrace, none, ⟨23, 1, 1, 24⟩⟩]

theorem ofTokens_behind_return_unreadable :
    let word : Token := ⟨.returnWord, none, ⟨9, 6, 1, 10⟩⟩
    let semi : Token := ⟨.semi, none, ⟨15, 1, 1, 16⟩⟩
    let brace : Token := ⟨.rBrace, none, ⟨25, 1, 1, 26⟩⟩
    Spells [.returnWord, .semi] [word, semi] ∧ Balanced unreadable ∧ Balanced [] ∧
    ofTokens .topDown (opening ++ [word, semi] ++ unreadable ++ [brace] ++ []) =
      ofTokens .topDown (opening ++ [word, semi] ++ [] ++ [brace] ++ []) ∧
    ofTokens .topDown (opening ++ [word, semi] ++ unreadable) =
      ofTokens .topDown (opening ++ [word, semi]) := by
  intro word semi brace
  have spelled : Spells [.returnWord, .semi] [word, semi] := rfl
  have balanced : Balanced unreadable := balanced_iff.2 ⟨blockEnd?_eq_none_iff.1 rfl, rfl⟩
  have exchanged := ofTokens_behind_return {} opening spelled balanced balanced_nil
  exact ⟨spelled, balanced, balanced_nil, exchanged.1 brace [] rfl, exchanged.2⟩

end Program

end Flowchart
