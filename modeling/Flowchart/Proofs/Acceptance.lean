import Flowchart.Proofs.Item

/-! The reader accepts exactly the grammar. Along statements of the grammar the reader runs to the
state that has their outlines, numbered, behind what it had before; and wherever it runs to the end,
the tokens before it begin with such statements. -/
namespace Flowchart.Program
open Grammar Braces

namespace Reader

def place (r : Reader) : Place := if r.pending = [] then .program else .block

def extend (r : Reader) (outlines : List Outline) : Reader :=
  { r with
    nodes := (Outline.numberAll r.next outlines).reverse ++ r.nodes
    next := r.next + .ofNat (Outline.sizeAll outlines) }

def enterElse (r : Reader) (text : String) (thenPart : List Outline) : Reader :=
  { nodes := []
    pending := { id := r.next, text, before := r.nodes,
                 thenNodes? := some (Outline.numberAll (r.next + 3) thenPart) } :: r.pending
    next := r.next + 3 + .ofNat (Outline.sizeAll thenPart) }

/-- How reading goes on behind the brace that ends the block being read. -/
def resume (r : Reader) (tokens : List Token) : Except Failure (List Node) :=
  match r.close tokens with
  | .error failure => .error failure
  | .ok (r, n) => r.run (tokens.drop n)

@[simp] theorem place_extend (r : Reader) (outlines : List Outline) :
    (r.extend outlines).place = r.place := rfl

@[simp] theorem place_enter (r : Reader) (text : String) : (r.enter text).place = .block := rfl

@[simp] theorem place_enterElse (r : Reader) (text : String) (thenPart : List Outline) :
    (r.enterElse text thenPart).place = .block := rfl

theorem extend_nil (r : Reader) : r.extend [] = r := by
  simp [extend]

theorem extend_cons (r : Reader) (outline : Outline) (outlines : List Outline) :
    (r.extend [outline]).extend outlines = r.extend (outline :: outlines) := by
  simp [extend, UInt32.ofNat_add, UInt32.add_assoc]

section Run

variable (r : Reader) {token : Token} {tokens rest : List Token} {text : String}

theorem run_of_step {r r' : Reader} (h : r.step token (tokens ++ rest) = .ok (r', tokens.length)) :
    r.run (token :: (tokens ++ rest)) = r'.run rest := by
  rw [run_cons_ok h, List.drop_left]

theorem run_box {shape : Shape} (h : Draws (ahead rest) tokens text shape) :
    r.run (tokens ++ rest) = (r.extend [.box text shape]).run rest := by
  cases tokens with
  | nil => cases h
  | cons token tokens =>
    apply run_of_step
    simp [step, item_of_begins (.box _ h), push, extend, Outline.number, Outline.size]

theorem run_header (h : Header tokens text) : r.run (tokens ++ rest) = (r.enter text).run rest := by
  cases tokens with
  | nil => cases h
  | cons token tokens =>
    apply run_of_step
    simp [step, item_of_begins (.condition _ h)]

theorem run_comment (h : Spells [.comment] [token]) : r.run (token :: rest) = r.run rest := by
  have behind : r.step token rest = .ok (r, 0) := by simp [step, item_of_begins (.comment h)]
  rw [run_cons_ok behind, List.drop_zero]

theorem run_of_closeBehind {r r' : Reader} {n : Nat}
    (h : r.step token tokens = r'.closeBehind tokens n) :
    r.run (token :: tokens) = r'.resume (tokens.drop n) := by
  unfold resume
  cases closed : r'.close (tokens.drop n) with
  | error failure =>
    have behind : r.step token tokens = .error failure := by
      rw [h, closeBehind, closed]
      rfl
    exact run_cons_error behind
  | ok result =>
    have behind : r.step token tokens = .ok (result.1, n + result.2) := by
      rw [h, closeBehind, closed]
      rfl
    rw [run_cons_ok behind, ← List.drop_drop]

theorem run_brace (h : Spells [.rBrace] [token]) : r.run (token :: rest) = r.resume rest := by
  apply run_of_closeBehind (n := 0)
  simp only [step, item_of_begins (.close h)]

theorem run_return {semi brace : Token} (h : Spells [.returnWord, .semi] [token, semi])
    (balanced : Balanced tokens) (closes : Spells [.rBrace] [brace]) :
    r.run (token :: semi :: (tokens ++ brace :: rest)) = (r.extend [.leave]).resume rest := by
  have pushed : r.push (.leave r.next) = r.extend [.leave] := by
    simp [push, extend, Outline.number, Outline.size]
  have dropped : (semi :: (tokens ++ brace :: rest)).drop (tokens.length + 2) = rest := by simp
  have behind : r.step token (semi :: (tokens ++ brace :: rest)) =
      (r.extend [.leave]).closeBehind (semi :: (tokens ++ brace :: rest)) (tokens.length + 2) := by
    simp only [step, item_of_begins (.leave h balanced closes), pushed]
  rw [run_of_closeBehind behind, dropped]

theorem run_last_return {semi : Token} (h : Spells [.returnWord, .semi] [token, semi])
    (inside : Sealed 0 tokens) :
    r.run (token :: semi :: tokens) = (r.extend [.leave]).run [] := by
  have behind : r.step token (semi :: tokens) =
      .ok (r.extend [.leave], (semi :: tokens).length) := by
    simp [step, item_of_begins (.leaveLast h inside), push, extend, Outline.number, Outline.size]
  rw [run_cons_ok behind, List.drop_length]

theorem resume_program (h : r.place = .program) : r.resume rest = r.run rest := by
  have noPending : r.pending = [] := by
    by_contra pending
    simp [place, pending] at h
  simp [resume, close, noPending]

theorem resume_then {remarks : List Token} {thenPart : List Outline}
    (h : ∀ remark ∈ remarks, remark.kind = .comment) (behind : ahead rest ≠ some .comment)
    (noElse : ahead rest ≠ some .elseWord) :
    ((r.enter text).extend thenPart).resume (remarks ++ rest) =
      (r.extend [.branch text thenPart []]).run rest := by
  have finished : ((r.enter text).extend thenPart).close (remarks ++ rest) =
      .ok (r.extend [.branch text thenPart []], remarks.length) := by
    simp [close, enter, extend, finish, elseBranch_of_follows (.none h behind noElse), Except.map,
      Outline.number, Outline.size, UInt32.ofNat_add, UInt32.add_assoc]
  simp [resume, finished]

theorem resume_else {remarks : List Token} {word brace : Token} {thenPart : List Outline}
    (h : ∀ remark ∈ remarks, remark.kind = .comment)
    (spelled : Spells [.elseWord, .lBrace] [word, brace]) :
    ((r.enter text).extend thenPart).resume (remarks ++ word :: brace :: rest) =
      (r.enterElse text thenPart).run rest := by
  have entered : ((r.enter text).extend thenPart).close (remarks ++ word :: brace :: rest) =
      .ok (r.enterElse text thenPart, remarks.length + 2) := by
    simp [close, enter, extend, enterElse, elseBranch_of_follows (.branch h spelled), Except.map]
  simp [resume, entered]

theorem resume_end {thenPart elsePart : List Outline} :
    ((r.enterElse text thenPart).extend elsePart).resume rest =
      (r.extend [.branch text thenPart elsePart]).run rest := by
  have finished : ((r.enterElse text thenPart).extend elsePart).close rest =
      .ok (r.extend [.branch text thenPart elsePart], 0) := by
    simp [close, enterElse, extend, finish, Outline.number, Outline.size, UInt32.ofNat_add,
      UInt32.add_assoc]
  simp [resume, finished]

end Run

/-- Along statements of the grammar the reader takes in their outlines, and behind them it goes on
as behind a brace. In the program itself nothing follows. -/
theorem run_statements {place : Place} {tokens : List Token} {outlines : List Outline}
    (h : Statements place tokens outlines) (r : Reader) (rest : List Token)
    (here : r.place = place) (last : place = .program → rest = []) :
    r.run (tokens ++ rest) = (r.extend outlines).resume rest := by
  induction h generalizing r rest with
  | nil => rw [extend_nil, resume_program r here, List.nil_append]
  | close spelled => rw [extend_nil, List.singleton_append, run_brace r spelled]
  | stray spelled _ ih =>
    rw [List.cons_append, run_brace r spelled, resume_program r here, ih r rest here last]
  | comment spelled _ ih =>
    rw [List.cons_append, run_comment r spelled, ih r rest here last]
  | box drawn after ih =>
    rw [← after.ahead_append last] at drawn
    rw [List.append_assoc, run_box r drawn, ih (r.extend _) rest here last, extend_cons]
  | condition header _ remarks behind noElse after ihThen ih =>
    rw [← after.ahead_append last] at behind noElse
    rw [List.append_assoc, run_header r header, List.append_assoc, List.append_assoc,
      ihThen (r.enter _) _ rfl (by simp), resume_then r remarks behind noElse,
      ih (r.extend _) rest here last, extend_cons]
  | conditionElse header _ remarks spelled _ _ ihThen ihElse ih =>
    rw [List.append_assoc, run_header r header, List.append_assoc, List.append_assoc,
      List.cons_append, List.cons_append, List.append_assoc, ihThen (r.enter _) _ rfl (by simp),
      resume_else r remarks spelled, ihElse (r.enterElse _ _) _ rfl (by simp), resume_end,
      ih (r.extend _) rest here last, extend_cons]
  | leaveBlock spelled balanced closes =>
    rw [List.cons_append, List.cons_append, List.append_assoc, List.singleton_append,
      run_return r spelled balanced closes]
  | leave spelled balanced closes _ ih =>
    rw [List.cons_append, List.cons_append, List.append_assoc, List.cons_append,
      run_return r spelled balanced closes, resume_program (r.extend _) here,
      ih (r.extend _) rest here last, extend_cons]
  | leaveLast spelled inside =>
    rw [last rfl, List.append_nil, run_last_return r spelled inside,
      resume_program (r.extend _) here]

theorem exists_follows {r : Reader} {tokens : List Token} {text : String}
    {thenPart : List Outline} {nodes : List Node}
    (h : ((r.enter text).extend thenPart).resume tokens = .ok nodes) :
    ∃ any n, Follows tokens any n := by
  cases branch : elseBranch tokens with
  | error failure => simp [resume, close, enter, extend, branch, Except.map] at h
  | ok result => exact ⟨result.1, result.2, follows_of_elseBranch branch⟩

theorem place_of_run_nil {r : Reader} {nodes : List Node} (h : r.run [] = .ok nodes) :
    r.place = .program := by
  rw [run_nil] at h
  by_contra inside
  simp_all [place]

theorem exists_begins {r : Reader} {token : Token} {tokens : List Token} {nodes : List Node}
    (h : r.run (token :: tokens) = .ok nodes) : ∃ found n, Begins token tokens found n := by
  cases first : item token tokens with
  | error failure =>
    have failed : r.step token tokens = .error failure := by simp [step, first]
    simp [run_cons_error failed] at h
  | ok result => exact ⟨result.1, result.2, begins_of_item first⟩

theorem starts_of_run {r : Reader} {tokens : List Token} {nodes : List Node}
    (h : r.run tokens = .ok nodes) : Starts r.place tokens := by
  -- The blocks of a condition are shorter than the tokens, and so is what follows it.
  induction size : tokens.length using Nat.strong_induction_on generalizing r tokens with
  | _ size' ih =>
  subst size
  cases tokens with
  | nil =>
    have top : r.place = .program := place_of_run_nil h
    exact ⟨[], [], [], rfl, fun _ => rfl, top ▸ .nil⟩
  | cons token tokens =>
    obtain ⟨found, n, begins⟩ := exists_begins h
    cases begins with
    | @box front rest text shape drawn =>
      rw [← List.cons_append, run_box r drawn] at h
      have after := ih rest.length (by grind) h rfl
      exact after.box drawn
    | comment spelled =>
      rw [run_comment r spelled] at h
      have after := ih tokens.length (by simp) h rfl
      exact after.comment spelled
    | close spelled =>
      apply Starts.close spelled
      intro here
      rw [run_brace r spelled, resume_program r here] at h
      exact here ▸ ih tokens.length (by simp) h rfl
    | @leave semi brace dead rest spelled balanced closes =>
      apply Starts.leave spelled balanced closes
      intro here
      rw [run_return r spelled balanced closes, resume_program (r.extend _) here] at h
      have after := ih rest.length (by grind) h rfl
      exact here ▸ after
    | @leaveLast semi dead spelled inside =>
      rw [run_last_return r spelled inside] at h
      have top := place_of_run_nil h
      rw [place_extend] at top
      rw [top]
      exact ⟨_, [], _, (List.append_nil _).symm, fun _ => rfl, .leaveLast spelled inside⟩
    | @condition front rest text headed =>
      rw [← List.cons_append, run_header r headed] at h
      obtain ⟨inner, rest, thenPart, rfl, -, thens⟩ := ih rest.length (by grind) h rfl
      rw [run_statements thens (r.enter text) rest rfl (by simp)] at h
      obtain ⟨any, n, follows⟩ := exists_follows h
      cases follows with
      | @none remarks rest comments behind noElse =>
        rw [resume_then r comments behind noElse] at h
        have after := ih rest.length (by grind) h rfl
        exact after.condition headed thens comments behind noElse
      | @branch remarks rest word brace comments spelled =>
        rw [resume_else r comments spelled] at h
        obtain ⟨inner', rest, elsePart, rfl, -, elses⟩ := ih rest.length (by grind) h rfl
        rw [run_statements elses (r.enterElse text thenPart) rest rfl (by simp), resume_end] at h
        have after := ih rest.length (by grind) h rfl
        exact after.conditionElse headed thens comments spelled elses

theorem run_eq_ok_iff {tokens : List Token} {nodes : List Node} :
    run {} tokens = .ok nodes ↔
      ∃ outlines, Derives tokens outlines ∧ nodes = Outline.numberAll 1 outlines := by
  have complete : ∀ outlines, Derives tokens outlines →
      run {} tokens = .ok (Outline.numberAll 1 outlines) := by
    intro outlines derived
    have read := run_statements derived {} [] rfl (fun _ => rfl)
    rw [List.append_nil, resume_program (extend {} outlines) rfl, run_nil] at read
    simpa [extend] using read
  constructor
  · intro h
    obtain ⟨inner, rest, outlines, rfl, last, derived⟩ := starts_of_run h
    rw [last rfl, List.append_nil] at h complete ⊢
    have read := complete outlines derived
    rw [h, Except.ok.injEq] at read
    exact ⟨outlines, derived, read⟩
  · rintro ⟨outlines, derived, rfl⟩
    exact complete outlines derived

end Reader

theorem ofTokens_eq_ok_iff {direction : Direction} {tokens : List Token} {p : Program} :
    ofTokens direction tokens = .ok p ↔
      ∃ outlines, Derives tokens outlines ∧
        p = { direction, nodes := Outline.numberAll 1 outlines } := by
  have mapped : ofTokens direction tokens = .ok p ↔
      ∃ nodes, Reader.run {} tokens = .ok nodes ∧ p = { direction, nodes } := by
    unfold ofTokens
    cases Reader.run {} tokens with
    | error failure => simp [Except.map]
    | ok nodes => simp [Except.map, eq_comm]
  rw [mapped]
  constructor
  · rintro ⟨nodes, read, rfl⟩
    obtain ⟨outlines, derived, rfl⟩ := Reader.run_eq_ok_iff.1 read
    exact ⟨outlines, derived, rfl⟩
  · rintro ⟨outlines, derived, rfl⟩
    exact ⟨_, Reader.run_eq_ok_iff.2 ⟨outlines, derived, rfl⟩, rfl⟩

theorem derives_unique {tokens : List Token} {outlines outlines' : List Outline}
    (h : Derives tokens outlines) (h' : Derives tokens outlines') : outlines = outlines' := by
  have read := Reader.run_eq_ok_iff.2 ⟨outlines, h, rfl⟩
  have read' := Reader.run_eq_ok_iff.2 ⟨outlines', h', rfl⟩
  rw [read, Except.ok.injEq] at read'
  rw [← Node.outlineAll_numberAll 1 outlines, read', Node.outlineAll_numberAll]

/-- The reader accepts exactly the programs of the grammar, whatever the settings, and reads the
outlines that the grammar gives them, of which there are no two. -/
theorem exists_ofTokens_iff_derives (settings : Settings) (tokens : List Token) :
    (∀ outlines, (∃ p, ofTokens settings.direction tokens = .ok p ∧
      Node.outlineAll p.nodes = outlines) ↔ Derives tokens outlines) ∧
    {outlines | Derives tokens outlines}.Subsingleton := by
  refine ⟨?_, fun _ h _ h' => derives_unique h h'⟩
  intro outlines
  constructor
  · rintro ⟨p, read, rfl⟩
    obtain ⟨outlines, derived, rfl⟩ := ofTokens_eq_ok_iff.1 read
    rwa [Node.outlineAll_numberAll]
  · intro derived
    exact ⟨_, ofTokens_eq_ok_iff.2 ⟨outlines, derived, rfl⟩, Node.outlineAll_numberAll 1 outlines⟩

end Flowchart.Program
