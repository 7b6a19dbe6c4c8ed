import Flowchart.Proofs.Stops

/-! Failures that name a token. The reader stops at a token that is not the one it needs, or at one
with which no statement begins. In both cases the tokens before it are the beginning of a program,
and what stands further behind has no influence on the failure. -/
namespace Flowchart

namespace Program

section Window

variable {token : Token} {front rest : List Token} {kinds : List Kind} {form : Form}

theorem strip?_append_of_le (long : kinds.length ≤ front.length) (rest : List Token) :
    strip? kinds (front ++ rest) = (strip? kinds front).map (· ++ rest) := by
  induction kinds generalizing front with
  | nil => rfl
  | cons kind kinds ih =>
    cases front with
    | nil => simp at long
    | cons token front =>
      simp only [List.cons_append, strip?]
      split
      · exact ih (by simpa using long)
      · rfl

theorem Form.label?_append_of_le (long : form.length ≤ front.length) (rest : List Token) :
    form.label? (front ++ rest) = form.label? front := by
  rw [Form.length] at long
  unfold Form.label?
  rw [strip?_append_of_le (by omega)]
  cases opened : strip? form.opening front with
  | none => rfl
  | some after =>
    have length := length_strip? opened
    cases after with
    | nil =>
      rw [List.length_nil] at length
      omega
    | cons label after =>
      have enough : (form.closing ++ [Kind.semi]).length ≤ after.length := by
        simp only [List.length_append, List.length_cons, List.length_nil] at length ⊢
        omega
      simp [strip?_append_of_le enough]

theorem expect_ne_unexpectedToken {kind kind' : Kind} {pos : Position} (tokens : List Token) :
    expect kind tokens ≠ .error (.unexpectedToken kind' pos) := by
  cases tokens with
  | nil => simp [expect]
  | cons token tokens =>
    simp only [expect]
    split <;> simp

/-- No form has more than six tokens. So five behind a token show that nothing begins with it. -/
theorem item_window {near far : List Token} (wide : 5 ≤ near.length)
    (h : item token (near ++ far) = .error (.unexpectedToken token.kind token.pos))
    (far' : List Token) :
    item token (near ++ far') = .error (.unexpectedToken token.kind token.pos) := by
  have short : ∀ form ∈ forms, form.length ≤ 6 := by decide
  have shaped (far : List Token) (form : Form) (member : form ∈ forms) :
      form.label? (token :: (near ++ far)) = form.label? (token :: near) := by
    rw [← List.cons_append]
    exact Form.label?_append_of_le (Nat.le_trans (short form member) (by simpa using wide)) far
  have next (far : List Token) : (near ++ far).head? = near.head? :=
    List.head?_append_of_ne_nil _ (List.ne_nil_of_length_pos (by omega))
  have sought (far : List Token) := List.filterMap_congr (g := fun form =>
    (form.label? (token :: near)).map fun text => (Item.box text form.shape, form.length - 1))
    fun form member => congrArg (Option.map _) (shaped far form member)
  unfold item at h ⊢
  simp only [next, ← List.head?_filterMap, sought] at h ⊢
  cases kind : token.kind with
  | ifWord =>
    simp only [kind] at h
    cases headed : header (near ++ far) with
    | error failure =>
      obtain ⟨front, kind', behind, used, more, -, -, -, missing⟩ :=
        header_eq_error_iff.1 headed
      rw [headed] at h
      cases h
      exact absurd missing (expect_ne_unexpectedToken more)
    | ok text => simp [headed, Except.map] at h
  | returnWord =>
    simp only [kind] at h ⊢
    split at h
    next => split at h <;> cases h
    next other => rw [if_neg other]
  | _ => simpa only [kind] using h

end Window

theorem exists_of_expect_error {kind expected found : Kind} {pos : Position} {more : List Token}
    (h : expect kind more = .error (.expectedToken expected found pos)) :
    kind = expected ∧ ∃ token rest, more = token :: rest ∧ token.kind = found ∧ found ≠ expected ∧
      token.pos = pos := by
  cases more with
  | nil => simp [expect] at h
  | cons token rest =>
    simp only [expect] at h
    split at h
    next => cases h
    next other =>
      cases h
      exact ⟨rfl, token, rest, rfl, rfl, other, rfl⟩

namespace Reader

variable {r : Reader} {tokens : List Token}

theorem Stops.exists_wrong {expected found : Kind} {pos : Position}
    (h : r.Stops tokens (.expectedToken expected found pos)) :
    ∃ before token behind, tokens = before ++ token :: behind ∧ token.kind = found ∧
      found ≠ expected ∧ token.pos = pos ∧ r.run before = .error (.unexpectedEnd expected) ∧
      ∀ more, r.run (before ++ token :: more) = .error (.expectedToken expected found pos) := by
  obtain ⟨front, rest, r', rfl, reads, halts⟩ := h
  generalize named : Failure.expectedToken expected found pos = failure at halts
  cases halts with
  | unclosed | left | refused => cases named
  | @missed used more kind _ nonempty demands missing =>
    subst named
    obtain ⟨rfl, token, behind, rfl, rfl, other, rfl⟩ := exists_of_expect_error missing
    obtain ⟨first, used, rfl⟩ := List.exists_cons_of_ne_nil nonempty
    have reads' (rest : List Token) : r.run (front ++ (first :: used ++ rest)) =
        r'.run (first :: used ++ rest) := reads _ (.inl rfl)
    refine ⟨front ++ first :: used, token, behind, by simp, rfl, other, rfl, ?_, fun more => ?_⟩
    · have ended := reads' []
      rw [List.append_nil] at ended
      rw [ended]
      exact List.append_nil (first :: used) ▸ demands.fails rfl
    · rw [List.append_assoc, reads']
      exact demands.fails (if_neg other)

theorem Stops.exists_refused {kind : Kind} {pos : Position}
    (h : r.Stops tokens (.unexpectedToken kind pos)) :
    ∃ before token behind, tokens = before ++ token :: behind ∧ token.kind = kind ∧
      token.pos = pos ∧
      ((∃ nodes, r.run before = .ok nodes) ∨ r.run before = .error (.unexpectedEnd .rBrace)) ∧
      (5 ≤ behind.length → ∀ more, r.run (before ++ token :: (behind.take 5 ++ more)) =
        .error (.unexpectedToken kind pos)) := by
  obtain ⟨front, rest, r', rfl, reads, halts⟩ := h
  generalize named : Failure.unexpectedToken kind pos = failure at halts
  cases halts with
  | unclosed | left => cases named
  | @missed used more kind' _ nonempty demands missing =>
    subst named
    exact absurd missing (expect_ne_unexpectedToken more)
  | @refused token behind refused =>
    cases named
    refine ⟨front, token, behind, rfl, rfl, rfl, ?_, fun wide more => ?_⟩
    · have ended := reads [] (.nil _)
      rw [List.append_nil, run_nil] at ended
      rw [ended]
      split
      · exact .inl ⟨_, rfl⟩
      · exact .inr rfl
    · have reached : r.run (front ++ token :: (behind.take 5 ++ more)) =
          r'.run (token :: (behind.take 5 ++ more)) := reads _ (.inl rfl)
      rw [reached]
      rw [← List.take_append_drop 5 behind] at refused
      have again := item_window (by simpa using wide) refused more
      exact run_cons_error (by simp [step, again])

end Reader

/-- A failure names the first token that cannot be read. Where another token is expected, the tokens
before it lack that one, and nothing behind it matters. Where nothing begins with the token, the
tokens before it are statements, and only the five behind it matter. -/
theorem ofTokens_refusal (settings : Settings) (tokens : List Token) :
    (∀ expected found pos,
      ofTokens settings.direction tokens = .error (.expectedToken expected found pos) →
      ∃ i token, tokens[i]? = some token ∧ token.kind = found ∧ found ≠ expected ∧
        token.pos = pos ∧
        ofTokens settings.direction (tokens.take i) = .error (.unexpectedEnd expected) ∧
        ∀ more, ofTokens settings.direction (tokens.take (i + 1) ++ more) =
          .error (.expectedToken expected found pos)) ∧
    (∀ kind pos, ofTokens settings.direction tokens = .error (.unexpectedToken kind pos) →
      ∃ i token, tokens[i]? = some token ∧ token.kind = kind ∧ token.pos = pos ∧
        ((∃ p, ofTokens settings.direction (tokens.take i) = .ok p) ∨
          ofTokens settings.direction (tokens.take i) = .error (.unexpectedEnd .rBrace)) ∧
        (i + 6 ≤ tokens.length →
          ∀ more, ofTokens settings.direction (tokens.take (i + 6) ++ more) =
            .error (.unexpectedToken kind pos))) := by
  simp only [ofTokens_eq_error_iff]
  constructor
  · intro expected found pos h
    obtain ⟨before, token, behind, rfl, kind, other, place, lacks, fails⟩ :=
      (Reader.stops_of_run h).exists_wrong
    refine ⟨before.length, token, by simp, kind, other, place, ?_, fun more => ?_⟩
    · rwa [List.take_left]
    · simpa [List.take_length_add_append] using fails more
  · intro kind pos h
    obtain ⟨before, token, behind, rfl, same, place, reads, fails⟩ :=
      (Reader.stops_of_run h).exists_refused
    refine ⟨before.length, token, by simp, same, place, ?_, fun wide more => ?_⟩
    · rw [List.take_left]
      refine reads.imp_left ?_
      rintro ⟨nodes, read⟩
      exact ⟨_, by rw [ofTokens, read, Except.map]⟩
    · have window := fails (by simp at wide; omega) more
      simpa [List.take_length_add_append] using window

def row (kinds : List Kind) : List Token :=
  kinds.zipIdx.map fun (kind, n) => ⟨kind, some "t", ⟨n, 1, 1, n + 1⟩⟩

theorem offset_of_getElem?_row {kinds : List Kind} {i : Nat} {token : Token}
    (h : (row kinds)[i]? = some token) : token.pos.offset = i := by
  rw [row, List.getElem?_map] at h
  obtain ⟨⟨kind, n⟩, found, rfl⟩ := Option.map_eq_some_iff.1 h
  rw [List.getElem?_zipIdx, Option.map_eq_some_iff] at found
  obtain ⟨_, -, same⟩ := found
  cases same
  exact Nat.zero_add i

def bareElse : List Token :=
  row [.ifWord, .lParen, .string, .rParen, .lBrace, .returnWord, .semi, .lBrace, .arrow, .rBrace,
    .rBrace, .comment, .comment, .elseWord, .semi, .arrow]

/-- In a block, a text in two pairs of parentheses of which one is not closed. -/
def halfClosed : List Token :=
  row [.ifWord, .lParen, .string, .rParen, .lBrace, .string, .lParen, .lParen, .string, .rParen,
    .semi, .semi, .rBrace]

theorem ofTokens_refusal_rows :
    ofTokens .topDown bareElse = .error (.expectedToken .lBrace .semi ⟨14, 1, 1, 15⟩) ∧
    ofTokens .topDown (bareElse.take 14) = .error (.unexpectedEnd .lBrace) ∧
    (∀ more, ofTokens .topDown (bareElse.take 15 ++ more) =
      .error (.expectedToken .lBrace .semi ⟨14, 1, 1, 15⟩)) ∧
    ofTokens .topDown halfClosed = .error (.unexpectedToken .lParen ⟨6, 1, 1, 7⟩) ∧
    ∀ more, ofTokens .topDown (halfClosed.take 12 ++ more) =
      .error (.unexpectedToken .lParen ⟨6, 1, 1, 7⟩) := by
  have fails : ofTokens .topDown bareElse =
      .error (.expectedToken .lBrace .semi ⟨14, 1, 1, 15⟩) := by cbv
  have fails' : ofTokens .topDown halfClosed =
      .error (.unexpectedToken .lParen ⟨6, 1, 1, 7⟩) := by cbv
  obtain ⟨i, token, found, -, -, place, lacks, same⟩ := (ofTokens_refusal {} bareElse).1 _ _ _ fails
  obtain ⟨j, token', found', -, place', -, window⟩ := (ofTokens_refusal {} halfClosed).2 _ _ fails'
  have index := offset_of_getElem?_row found
  have index' := offset_of_getElem?_row found'
  rw [place] at index
  rw [place'] at index'
  subst index index'
  exact ⟨fails, lacks, same, fails', window (by decide)⟩

end Program

end Flowchart
