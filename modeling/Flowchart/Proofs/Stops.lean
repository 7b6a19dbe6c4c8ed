import Flowchart.Proofs.Concatenation
import Flowchart.Proofs.DeadCode
import Mathlib

/-! Where a reading stops. The reader looks at one token behind the items that it has taken in, and
only to see whether it belongs to them. So it comes to the place where it stops from the tokens
before it alone, and what it finds there is one of four things: the end of the tokens inside a
block, a return whose block does not end, a token with which nothing begins, or the place of a token
without which a condition cannot be read. -/
namespace Flowchart

def Kind.anywhere (kind : Kind) : Token := ⟨kind, none, ⟨0, 0, 1, 1⟩⟩

namespace Program
open Grammar Braces

theorem spells_anywhere (kinds : List Kind) : Spells kinds (kinds.map Kind.anywhere) := by
  have same (kind : Kind) : kind.anywhere.kind = kind := rfl
  simp [Spells, Function.comp_def, same]

/-- What can stand in the place of `rest` behind items that are taken in: the same kind of token is
ahead, or one that no item and no end of a branch takes in. -/
def Replaces (rest' rest : List Token) : Prop :=
  ahead rest' = ahead rest ∨ ahead rest' ∉ [some .semi, some .comment, some .elseWord]

namespace Replaces

variable {rest rest' tokens : List Token}

theorem nil (rest : List Token) : Replaces [] rest := .inr (by simp [ahead])

theorem append (front : List Token) (h : Replaces rest' rest) :
    Replaces (front ++ rest') (front ++ rest) := by
  cases front with
  | nil => exact h
  | cons token front => exact .inl rfl

theorem ahead_ne (h : Replaces rest' rest) {kind : Kind}
    (member : some kind ∈ [some Kind.semi, some .comment, some .elseWord])
    (other : ahead rest ≠ some kind) : ahead rest' ≠ some kind := by
  rcases h with same | idle
  · rwa [same]
  · exact fun taken => idle (taken ▸ member)

theorem draws {text : String} {shape : Shape} (h : Replaces rest' rest)
    (drawn : Draws (ahead rest) tokens text shape) : Draws (ahead rest') tokens text shape := by
  rcases h with same | idle
  · rwa [same]
  · exact drawn.of_ne_semi fun taken => idle (by simp [taken])

end Replaces

section Lookahead

variable {token word : Token} {tokens more remarks : List Token} {failure : Failure}

def expectAll : List Kind → List Token → Except Failure Unit
  | [], _ => .ok ()
  | kind :: kinds, tokens => do
    let (_, tokens) ← expect kind tokens
    expectAll kinds tokens

/-- The tokens spell some of the kinds and then miss one. -/
def Misses (kinds : List Kind) (tokens : List Token) (failure : Failure) : Prop :=
  ∃ front kind behind used more, kinds = front ++ kind :: behind ∧ tokens = used ++ more ∧
    Spells front used ∧ expect kind more = .error failure

theorem expectAll_eq_error_iff {kinds : List Kind} :
    expectAll kinds tokens = .error failure ↔ Misses kinds tokens failure := by
  induction kinds generalizing tokens with
  | nil => simp [expectAll, Misses]
  | cons kind kinds ih =>
    rw [expectAll]
    constructor
    · intro h
      cases found : expect kind tokens with
      | error failure' =>
        rw [found] at h
        cases h
        exact ⟨[], kind, kinds, [], tokens, rfl, rfl, rfl, found⟩
      | ok result =>
        obtain ⟨rfl, same⟩ := eq_cons_of_expect found
        rw [found] at h
        obtain ⟨front, kind', behind, used, more, rfl, split, spelled, missing⟩ := ih.1 h
        refine ⟨kind :: front, kind', behind, result.1 :: used, more, rfl, ?_, ?_, missing⟩
        · rw [split, List.cons_append]
        · rw [Spells, List.map_cons, same, spelled]
    · rintro ⟨front, kind', behind, used, more, split, rfl, spelled, missing⟩
      cases front with
      | nil =>
        cases split
        cases List.map_eq_nil_iff.1 spelled
        rw [List.nil_append, missing]
        rfl
      | cons first front =>
        cases split
        obtain ⟨token, used, rfl, same, spelled⟩ := List.map_eq_cons_iff.1 spelled
        have found : expect kind (token :: (used ++ more)) = .ok (token, used ++ more) :=
          if_pos same
        rw [List.cons_append, found]
        exact ih.2 ⟨front, kind', behind, used, more, rfl, rfl, spelled, missing⟩

def headKinds : List Kind := [.lParen, .string, .rParen, .lBrace]

theorem header_eq_error_iff :
    header tokens = .error failure ↔ Misses headKinds tokens failure := by
  rw [← expectAll_eq_error_iff, headKinds]
  cases h1 : expect .lParen tokens with
  | error failure => simp [header, expectAll, h1, bind, Except.bind]
  | ok r1 =>
    cases h2 : expect .string r1.2 with
    | error failure => simp [header, expectAll, h1, h2, bind, Except.bind]
    | ok r2 =>
      cases h3 : expect .rParen r2.2 with
      | error failure => simp [header, expectAll, h1, h2, h3, bind, Except.bind]
      | ok r3 =>
        cases h4 : expect .lBrace r3.2 with
        | error failure => simp [header, expectAll, h1, h2, h3, h4, bind, Except.bind]
        | ok r4 => simp [header, expectAll, h1, h2, h3, h4, bind, Except.bind, pure, Except.pure]

theorem header_of_spells (h : Spells (.ifWord :: headKinds) tokens) :
    ∃ text, Header tokens text := by
  obtain ⟨word, _, rfl, -, left, _, rfl, -, label, _, rfl, -, right, _, rfl, -, brace, _, rfl, -,
    rfl⟩ := by
    simpa only [Spells, headKinds, List.map_eq_cons_iff, List.map_eq_nil_iff] using h
  exact ⟨label.text, .mk h⟩

theorem item_error (h : item token tokens = .error failure) :
    failure = .unexpectedToken token.kind token.pos ∨
      token.kind = .ifWord ∧ header tokens = .error failure := by
  unfold item at h
  simp only at h
  split at h
  · cases h
  · cases h
  · cases h
  next word =>
    refine .inr ⟨word, ?_⟩
    cases headed : header tokens with
    | error failure' => simpa [headed, Except.map] using h
    | ok text => simp [headed, Except.map] at h
  · split at h
    · split at h <;> cases h
    · exact .inl (Except.error.inj h).symm
  · split at h
    · cases h
    · exact .inl (Except.error.inj h).symm

theorem elseBranch_error (comments : ∀ remark ∈ remarks, remark.kind = .comment)
    (elses : word.kind = .elseWord) (h : expect .lBrace more = .error failure) :
    elseBranch (remarks ++ word :: more) = .error failure := by
  have behind : ahead (word :: more) ≠ some .comment := by simp [ahead, elses]
  simp only [elseBranch, takeWhile_remarks comments behind, List.drop_left]
  simp [elses, h, Except.map]

theorem exists_of_elseBranch_error (h : elseBranch tokens = .error failure) :
    ∃ remarks word more, tokens = remarks ++ word :: more ∧
      (∀ remark ∈ remarks, remark.kind = .comment) ∧ word.kind = .elseWord ∧
      expect .lBrace more = .error failure := by
  obtain ⟨remarks, rest, rfl, comments, behind⟩ := exists_remarks tokens
  simp only [elseBranch, takeWhile_remarks comments behind, List.drop_left] at h
  cases rest with
  | nil => cases h
  | cons word rest =>
    by_cases elses : word.kind = .elseWord
    · simp only [elses, if_true] at h
      refine ⟨remarks, word, rest, rfl, comments, elses, ?_⟩
      cases opened : expect .lBrace rest with
      | error failure' => simpa [opened, Except.map] using h
      | ok result => simp [opened, Except.map] at h
    · simp [elses] at h

theorem elseBranch_append {any : Bool} {n : Nat} (h : elseBranch tokens = .ok (any, n)) :
    ∃ used rest, tokens = used ++ rest ∧ n = used.length ∧
      ∀ rest', Replaces rest' rest → elseBranch (used ++ rest') = .ok (any, n) := by
  cases follows_of_elseBranch h with
  | @none remarks rest comments behind noElse =>
    refine ⟨remarks, rest, rfl, rfl, fun rest' replaces => ?_⟩
    have behind' := replaces.ahead_ne (by simp) behind
    have noElse' := replaces.ahead_ne (by simp) noElse
    exact elseBranch_of_follows (.none comments behind' noElse')
  | @branch remarks rest word brace comments spelled =>
    refine ⟨remarks ++ [word, brace], rest, by simp, by simp, fun rest' _ => ?_⟩
    rw [List.append_assoc]
    exact elseBranch_of_follows (.branch comments spelled)

end Lookahead

namespace Reader

/-- The reader needs a token of the kind behind the tokens. With any other token, or none, it fails
right there, and there are tokens, the first of the kind, with which it goes on. -/
structure Demands (r : Reader) (used : List Token) (kind : Kind) : Prop where
  fails : ∀ {more failure}, expect kind more = .error failure →
    r.run (used ++ more) = .error failure
  goesOn : ∃ (ext : List Token) (r' : Reader), ahead ext = some kind ∧
    ∀ rest, r.run (used ++ (ext ++ rest)) = r'.run rest

inductive Halts (r : Reader) : List Token → Failure → Prop where
  | unclosed : r.pending ≠ [] → Halts r [] (.unexpectedEnd .rBrace)
  | left {word semi : Token} {dead : List Token} : Spells [.returnWord, .semi] [word, semi] →
      Sealed 0 dead → r.pending ≠ [] → Halts r (word :: semi :: dead) (.unexpectedEnd .rBrace)
  | refused {token : Token} {tokens : List Token} :
      item token tokens = .error (.unexpectedToken token.kind token.pos) →
      Halts r (token :: tokens) (.unexpectedToken token.kind token.pos)
  | missed {used more : List Token} {kind : Kind} {failure : Failure} : used ≠ [] →
      r.Demands used kind → expect kind more = .error failure → Halts r (used ++ more) failure

/-- The reader takes in the items of some tokens, whatever then takes the place of the others, and
fails where these begin. -/
def Stops (r : Reader) (tokens : List Token) (failure : Failure) : Prop :=
  ∃ (front rest : List Token) (r' : Reader), tokens = front ++ rest ∧
    (∀ rest', Replaces rest' rest → r.run (front ++ rest') = r'.run rest') ∧
    r'.Halts rest failure

variable {r r' : Reader} {token : Token} {tokens front rest ending : List Token} {failure : Failure}

theorem exists_demands_header (r : Reader) (word : token.kind = .ifWord)
    (h : header tokens = .error failure) :
    ∃ used more kind, tokens = used ++ more ∧ r.Demands (token :: used) kind ∧
      expect kind more = .error failure := by
  obtain ⟨front, kind, behind, used, more, split, rfl, spelled, missing⟩ :=
    header_eq_error_iff.1 h
  refine ⟨used, more, kind, rfl, ⟨fun {more' failure'} missing' => ?_, ?_⟩, missing⟩
  · have headless : header (used ++ more') = .error failure' :=
      header_eq_error_iff.2 ⟨front, kind, behind, used, more', split, rfl, spelled, missing'⟩
    apply run_cons_error
    simp [step, item, word, headless, Except.map]
  · obtain ⟨text, headed⟩ : ∃ text,
        Header (token :: (used ++ (kind :: behind).map Kind.anywhere)) text := by
      apply header_of_spells
      rw [split, Spells, List.map_cons, List.map_append, spells_anywhere, word, spelled]
    refine ⟨(kind :: behind).map Kind.anywhere, r.enter text, rfl, fun rest => ?_⟩
    have read : r.run (token :: (used ++ (kind :: behind).map Kind.anywhere) ++ rest) =
        (r.enter text).run rest := run_header r headed
    simpa using read

theorem exists_of_close_error (h : r.close tokens = .error failure) :
    ∃ condition pending, r.pending = condition :: pending ∧ condition.thenNodes? = none ∧
      elseBranch tokens = .error failure := by
  unfold close at h
  split at h
  · cases h
  next condition pending waiting =>
    split at h
    · cases h
    next thens =>
      refine ⟨condition, pending, waiting, thens, ?_⟩
      cases branch : elseBranch tokens with
      | error failure' => simpa [branch, Except.map] using h
      | ok result => simp [branch, Except.map] at h

theorem exists_demands_branch (ends : ∀ rest, r.run (ending ++ rest) = r'.resume rest)
    (h : r'.close tokens = .error failure) :
    ∃ used more kind, tokens = used ++ more ∧ r.Demands (ending ++ used) kind ∧
      expect kind more = .error failure := by
  obtain ⟨condition, pending, waiting, thens, branch⟩ := exists_of_close_error h
  obtain ⟨remarks, word, more, rfl, comments, elses, missing⟩ := exists_of_elseBranch_error branch
  have reads (rest : List Token) : r.run (ending ++ (remarks ++ [word]) ++ rest) =
      r'.resume (remarks ++ word :: rest) := by
    simpa using ends (remarks ++ word :: rest)
  refine ⟨remarks ++ [word], more, .lBrace, by simp, ⟨fun missing' => ?_, ?_⟩, missing⟩
  · rw [reads, resume, close, waiting]
    simp only [thens, elseBranch_error comments elses missing', Except.map]
  · have spelled : Spells [.elseWord, .lBrace] [word, Kind.lBrace.anywhere] := by
      simp [Spells, elses, Kind.anywhere]
    let entered : Reader :=
      { r' with
        nodes := []
        pending := { condition with thenNodes? := some r'.nodes.reverse } :: pending }
    refine ⟨[Kind.lBrace.anywhere], entered, rfl, fun rest => ?_⟩
    rw [reads, resume, close, waiting]
    simp [thens, elseBranch_of_follows (.branch comments spelled), Except.map, entered]

theorem close_append {n : Nat} (h : r.close tokens = .ok (r', n)) :
    ∃ used rest, tokens = used ++ rest ∧ n = used.length ∧
      ∀ rest', Replaces rest' rest → r.close (used ++ rest') = .ok (r', n) := by
  unfold close at h ⊢
  cases waiting : r.pending with
  | nil =>
    simp only [waiting] at h ⊢
    exact ⟨[], tokens, rfl, (Prod.mk.inj (Except.ok.inj h)).2.symm, fun _ _ => h⟩
  | cons condition pending =>
    cases thens : condition.thenNodes? with
    | some thenNodes =>
      simp only [waiting, thens] at h ⊢
      exact ⟨[], tokens, rfl, (Prod.mk.inj (Except.ok.inj h)).2.symm, fun _ _ => h⟩
    | none =>
      simp only [waiting, thens] at h ⊢
      cases branch : elseBranch tokens with
      | error failure' => simp [branch, Except.map] at h
      | ok result =>
        obtain ⟨used, rest, split, length, same⟩ := elseBranch_append branch
        rw [branch] at h
        refine ⟨used, rest, split, ?_, fun rest' replaces => by rwa [same rest' replaces]⟩
        simp only [Except.map, Except.ok.injEq] at h
        split at h <;> cases h <;> exact length

theorem Halts.stops (h : r.Halts tokens failure) : r.Stops tokens failure :=
  ⟨[], tokens, r, rfl, fun _ _ => rfl, h⟩

theorem Stops.behind (h : r'.Stops rest failure)
    (reads : ∀ rest', Replaces rest' rest → r.run (front ++ rest') = r'.run rest') :
    r.Stops (front ++ rest) failure := by
  obtain ⟨front', rest, last, rfl, same, halts⟩ := h
  refine ⟨front ++ front', rest, last, (List.append_assoc ..).symm, fun rest' replaces => ?_, halts⟩
  rw [List.append_assoc, reads _ (replaces.append front'), same rest' replaces]

theorem stops_of_resume (ends : ∀ rest, r.run (ending ++ rest) = r'.resume rest)
    (nonempty : ending ≠ []) (h : r'.resume tokens = .error failure)
    (later : ∀ (r : Reader) (rest : List Token), rest.length ≤ tokens.length →
      r.run rest = .error failure → r.Stops rest failure) :
    r.Stops (ending ++ tokens) failure := by
  rw [resume] at h
  split at h
  next failure' failed =>
    cases h
    obtain ⟨used, more, kind, rfl, demands, missing⟩ := exists_demands_branch ends failed
    rw [← List.append_assoc]
    exact (Halts.missed (by simp [nonempty]) demands missing).stops
  next next n closed =>
    obtain ⟨used, rest, rfl, rfl, same⟩ := close_append closed
    rw [List.drop_left] at h
    rw [← List.append_assoc]
    refine (later next rest (by simp) h).behind fun rest' replaces => ?_
    rw [List.append_assoc, ends, resume, same rest' replaces]
    simp only [List.drop_left]

theorem stops_of_item_error (r : Reader) (h : item token tokens = .error failure) :
    r.Stops (token :: tokens) failure := by
  rcases item_error h with rfl | ⟨word, headed⟩
  · exact (Halts.refused h).stops
  · obtain ⟨used, more, kind, rfl, demands, missing⟩ := exists_demands_header r word headed
    exact (Halts.missed (by simp) demands missing).stops

theorem stops_of_begins {found : Item} {n : Nat} (begins : Begins token tokens found n)
    (h : r.run (token :: tokens) = .error failure)
    (later : ∀ (r : Reader) (rest : List Token), rest.length < (token :: tokens).length →
      r.run rest = .error failure → r.Stops rest failure) :
    r.Stops (token :: tokens) failure := by
  cases begins with
  | @box front rest text shape drawn =>
    rw [← List.cons_append] at h ⊢
    rw [run_box r drawn] at h
    have stops := later _ rest (by simp) h
    exact stops.behind fun rest' replaces => run_box r (replaces.draws drawn)
  | @condition front rest text headed =>
    rw [← List.cons_append] at h ⊢
    rw [run_header r headed] at h
    have stops := later _ rest (by simp) h
    exact stops.behind fun rest' _ => run_header r headed
  | comment spelled =>
    rw [run_comment r spelled] at h
    have stops := later _ tokens (by simp) h
    rw [← List.singleton_append]
    exact stops.behind fun rest' _ => run_comment r spelled
  | close spelled =>
    have ends (rest : List Token) : r.run ([token] ++ rest) = r.resume rest :=
      run_brace r spelled
    rw [← List.singleton_append] at h ⊢
    rw [ends] at h
    exact stops_of_resume ends (by simp) h fun r rest shorter => later r rest (by grind)
  | @leave semi brace dead rest spelled balanced closes =>
    have ends (rest : List Token) : r.run (token :: semi :: (dead ++ [brace]) ++ rest) =
        (r.extend [.leave]).resume rest := by
      simpa using run_return r spelled balanced closes
    have split : token :: semi :: (dead ++ brace :: rest) =
        token :: semi :: (dead ++ [brace]) ++ rest := by simp
    rw [split] at h ⊢
    rw [ends] at h
    exact stops_of_resume ends (by simp) h fun r rest shorter => later r rest (by grind)
  | @leaveLast semi dead spelled inside =>
    rw [run_last_return r spelled inside, run_nil] at h
    split at h
    next => cases h
    next waiting =>
      cases h
      exact (Halts.left spelled inside (by simpa [extend] using waiting)).stops

theorem stops_of_run (h : r.run tokens = .error failure) : r.Stops tokens failure := by
  -- Each item leaves fewer tokens.
  induction size : tokens.length using Nat.strong_induction_on generalizing r tokens with
  | _ size' ih =>
  subst size
  cases tokens with
  | nil =>
    rw [run_nil] at h
    split at h
    next => cases h
    next inside =>
      cases h
      exact (Halts.unclosed (by simpa using inside)).stops
  | cons token tokens =>
    cases first : item token tokens with
    | error failure' =>
      have failed : r.step token tokens = .error failure' := by simp [step, first]
      rw [run_cons_error failed] at h
      cases h
      exact r.stops_of_item_error first
    | ok found =>
      exact stops_of_begins (begins_of_item first) h fun r rest shorter fails =>
        ih rest.length shorter fails rfl

end Reader

theorem ofTokens_eq_error_iff {direction : Direction} {tokens : List Token} {failure : Failure} :
    ofTokens direction tokens = .error failure ↔ Reader.run {} tokens = .error failure := by
  unfold ofTokens
  cases Reader.run {} tokens <;> simp [Except.map]

end Program

end Flowchart
