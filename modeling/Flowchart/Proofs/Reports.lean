import Flowchart.Chart
import Flowchart.Proofs.Locations
import Flowchart.Report
import Mathlib

/-! What a report shows. A failure of the reader points to one of the tokens, and a failure of the
scan to a place of its own; both are places of the source. So the line of which a report speaks is
there, and the caret stands below the character in question, or right behind the last one of its
line. -/
namespace Flowchart

/-- The place lies on the line. Places are counted through all lines, each with its newline. -/
structure Position.OnLine (pos : Position) (lines : List String) (line : String) : Prop where
  line_pos : 1 ≤ pos.line
  line_le : pos.line ≤ lines.length
  line_eq : lines[pos.line - 1]? = some line
  column_pos : 1 ≤ pos.column
  column_le : pos.column ≤ line.length + 1
  offset_eq : ((lines.take (pos.line - 1)).map (·.length + 1)).sum + (pos.column - 1) = pos.offset

theorem Cursor.exists_line (p : Cursor) {cs : List Char} {n : Nat} (bound : n ≤ cs.length) :
    ∃ before line after column, Text.splitList '\n' cs = before ++ line :: after ∧
      column ≤ line.length ∧ n = (before.map (·.length + 1)).sum + column ∧
      p.advance (cs.take n) =
        ⟨p.offset + n, p.line + before.length, (if before = [] then p.column else 1) + column⟩ := by
  induction cs generalizing p n with
  | nil =>
    have zero : n = 0 := Nat.le_zero.1 bound
    exact ⟨[], [], [], 0, rfl, Nat.le_refl 0, zero, by simp [zero]⟩
  | cons c cs ih =>
    cases n with
    | zero =>
      obtain ⟨line, after, split⟩ :=
        List.exists_cons_of_ne_nil (Text.splitList_ne_nil '\n' (c :: cs))
      exact ⟨[], line, after, 0, split, Nat.zero_le _, rfl, by simp⟩
    | succ n =>
      obtain ⟨before, line, after, column, split, within, count, reached⟩ :=
        ih (p.next c) (Nat.le_of_succ_le_succ bound)
      rw [List.take_succ_cons, Cursor.advance_cons, reached]
      by_cases newline : c = '\n'
      · subst newline
        refine ⟨[] :: before, line, after, column, ?_, within, ?_, ?_⟩
        · rw [Text.splitList_cons_sep, split, List.cons_append]
        · simp [count]
          omega
        · simp [Cursor.next]
          omega
      · cases before with
        | nil =>
          refine ⟨[], c :: line, after, column + 1, Text.splitList_cons_of_ne newline split,
            ?_, ?_, ?_⟩
          · simpa using within
          · simp [count]
          · simp [Cursor.next, newline]
            omega
        | cons first before =>
          refine ⟨(c :: first) :: before, line, after, column,
            Text.splitList_cons_of_ne newline split, within, ?_, ?_⟩
          · simp [count]
            omega
          · simp [Cursor.next, newline]
            omega

theorem Position.Located.exists_onLine {pos : Position} {source : String}
    (h : pos.Located source.toList) : ∃ line, pos.OnLine (Text.split '\n' source) line := by
  have inside : pos.offset ≤ source.toList.length := Nat.le_trans (Nat.le_add_right _ _) h.stop_le
  obtain ⟨before, line, after, column, split, within, count, reached⟩ :=
    Cursor.exists_line {} inside
  rw [h.start_eq, Cursor.mk.injEq, ite_self] at reached
  have lines : pos.line = 1 + before.length := reached.2.1
  have columns : pos.column = 1 + column := reached.2.2
  have cut : Text.split '\n' source =
      before.map String.ofList ++ String.ofList line :: after.map String.ofList := by
    rw [Text.split, split, List.map_append, List.map_cons]
  have index : pos.line - 1 = (before.map String.ofList).length := by
    rw [List.length_map]
    omega
  refine ⟨String.ofList line, ⟨by omega, ?_, ?_, by omega, ?_, ?_⟩⟩
  · rw [cut, List.length_append, List.length_cons]
    omega
  · rw [cut, index, List.getElem?_append_right (Nat.le_refl _), Nat.sub_self]
    rfl
  · rw [String.length_ofList]
    omega
  · rw [cut, index, List.take_left, List.map_map]
    simp only [Function.comp_def, String.length_ofList]
    omega

def Failure.PointsInto (failure : Failure) (tokens : List Token) : Prop :=
  ∀ pos, failure.position? = some pos → ∃ token ∈ tokens, token.pos = pos

theorem Failure.PointsInto.mono {failure : Failure} {tokens tokens' : List Token}
    (h : failure.PointsInto tokens) (part : tokens ⊆ tokens') : failure.PointsInto tokens' := by
  intro pos points
  obtain ⟨token, member, same⟩ := h pos points
  exact ⟨token, part member, same⟩

namespace Program

variable {token : Token} {tokens : List Token} {failure : Failure} {kind : Kind}

theorem error_of_map {α β : Type} {f : α → β} {x : Except Failure α}
    (h : x.map f = .error failure) : x = .error failure := by
  cases x with
  | error failure' => simpa [Except.map] using h
  | ok a => cases h

theorem pointsInto_unexpected :
    (Failure.unexpectedToken kind token.pos).PointsInto (token :: tokens) := by
  rintro pos ⟨⟩
  exact ⟨token, List.mem_cons_self, rfl⟩

theorem pointsInto_of_expect (h : expect kind tokens = .error failure) :
    failure.PointsInto tokens := by
  unfold expect at h
  split at h
  · cases h
    simp [Failure.PointsInto, Failure.position?]
  · split at h
    · cases h
    · cases h
      rintro pos ⟨⟩
      exact ⟨_, List.mem_cons_self, rfl⟩

theorem pointsInto_of_expect_bind {α : Type} {f : Token × List Token → Except Failure α}
    (h : (expect kind tokens >>= f) = .error failure)
    (behind : ∀ token rest, f (token, rest) = .error failure → failure.PointsInto rest) :
    failure.PointsInto tokens := by
  cases expected : expect kind tokens with
  | error failure' =>
    rw [expected] at h
    cases h
    exact pointsInto_of_expect expected
  | ok found =>
    rw [expected] at h
    rw [(eq_cons_of_expect expected).1]
    exact (behind found.1 found.2 h).mono (List.subset_cons_self _ _)

theorem pointsInto_of_header (h : header tokens = .error failure) : failure.PointsInto tokens := by
  refine pointsInto_of_expect_bind h fun _ _ h => ?_
  refine pointsInto_of_expect_bind h fun _ _ h => ?_
  refine pointsInto_of_expect_bind h fun _ _ h => ?_
  refine pointsInto_of_expect_bind h fun _ _ h => ?_
  cases h

theorem pointsInto_of_item (h : item token tokens = .error failure) :
    failure.PointsInto (token :: tokens) := by
  unfold item at h
  simp only at h
  split at h
  · cases h
  · cases h
  · cases h
  · exact (pointsInto_of_header (error_of_map h)).mono (List.subset_cons_self _ _)
  · split at h
    · split at h <;> cases h
    · cases h
      exact pointsInto_unexpected
  · split at h
    · cases h
    · cases h
      exact pointsInto_unexpected

theorem pointsInto_of_elseBranch (h : elseBranch tokens = .error failure) :
    failure.PointsInto tokens := by
  unfold elseBranch at h
  simp only at h
  split at h
  · cases h
  next word rest dropped =>
    split at h
    · refine (pointsInto_of_expect (error_of_map h)).mono ?_
      exact List.Subset.trans (List.subset_cons_self word rest) (dropped ▸ List.drop_subset _ _)
    · cases h

namespace Reader

variable {r : Reader}

theorem pointsInto_of_close (h : r.close tokens = .error failure) : failure.PointsInto tokens := by
  unfold close at h
  split at h
  · cases h
  · split at h
    · cases h
    · exact pointsInto_of_elseBranch (error_of_map h)

theorem pointsInto_of_closeBehind {n : Nat} (h : r.closeBehind tokens n = .error failure) :
    failure.PointsInto tokens :=
  (pointsInto_of_close (error_of_map h)).mono (List.drop_subset _ _)

theorem pointsInto_of_step (h : r.step token tokens = .error failure) :
    failure.PointsInto (token :: tokens) := by
  unfold step at h
  split at h
  next failed =>
    cases h
    exact pointsInto_of_item failed
  · cases h
  · cases h
  · cases h
  · exact (pointsInto_of_closeBehind h).mono (List.subset_cons_self _ _)
  · exact (pointsInto_of_closeBehind h).mono (List.subset_cons_self _ _)
  · cases h

theorem pointsInto_of_run (h : r.run tokens = .error failure) : failure.PointsInto tokens := by
  fun_induction Reader.run r tokens with
  | case1 => cases h
  | case2 =>
    cases h
    simp [Failure.PointsInto, Failure.position?]
  | case3 r token tokens failure' failed =>
    cases h
    exact pointsInto_of_step failed
  | case4 r token tokens r' n stepped ih =>
    exact (ih h).mono (List.Subset.trans (List.drop_subset _ _) (List.subset_cons_self _ _))

end Reader

theorem located_of_ofSource_error {settings : Settings} {source : String} {pos : Position}
    (h : ofSource settings source = .error failure) (points : failure.position? = some pos) :
    pos.Located source.toList := by
  unfold ofSource at h
  cases scanned : tokenize source with
  | error failure' =>
    rw [scanned] at h
    cases h
    obtain ⟨pos', points', located⟩ := located_of_tokenize_error scanned
    rw [points, Option.some.injEq] at points'
    exact points' ▸ located
  | ok tokens =>
    rw [scanned] at h
    obtain ⟨token, member, rfl⟩ := Reader.pointsInto_of_run (error_of_map h) pos points
    exact located_of_tokenize scanned token member

end Program

theorem Report.exists_sourceLine {source line : String} {n : Nat}
    (h : (Text.split '\n' source)[n - 1]? = some line) :
    ∃ returns, line = sourceLine source n ++ String.ofList (List.replicate returns '\r') ∧
      (sourceLine source n).toList.getLast? ≠ some '\r' := by
  have shown : (sourceLine source n).toList =
      (line.toList.reverse.dropWhile (· == '\r')).reverse := by
    simp [sourceLine, h]
  have returns : (line.toList.reverse.takeWhile (· == '\r')).reverse =
      List.replicate (line.toList.reverse.takeWhile (· == '\r')).length '\r' := by
    rw [List.eq_replicate_iff]
    refine ⟨List.length_reverse, fun c member => ?_⟩
    simpa using List.all_eq_true.1 List.all_takeWhile c (List.mem_reverse.1 member)
  refine ⟨(line.toList.reverse.takeWhile (· == '\r')).length, ?_, ?_⟩
  · rw [← String.toList_inj, String.toList_append, String.toList_ofList, shown, ← returns,
      ← List.reverse_append, List.takeWhile_append_dropWhile, List.reverse_reverse]
  · rw [shown, List.getLast?_reverse]
    intro last
    have other := List.head?_dropWhile_not (· == '\r') line.toList.reverse
    simp [last] at other

/-- A failure with a place points at a line of the source, and its report shows that line with a
caret below the place. -/
theorem report_points_at_line {settings : Settings} {source : String} {failure : Failure}
    {pos : Position} (h : compile settings source = .error failure)
    (points : failure.position? = some pos) :
    ∃ line shown returns, pos.OnLine (Text.split '\n' source) line ∧ pos.stop ≤ source.length ∧
      line = shown ++ String.ofList (List.replicate returns '\r') ∧
      shown.toList.getLast? ≠ some '\r' ∧
      failure.report.render source = String.join (List.map (· ++ "\n")
        [failure.message,
         "Ln: " ++ toString pos.line ++ ", Col: " ++ toString pos.column,
         "",
         shown,
         String.ofList (List.replicate (pos.column - 1) ' ') ++ "^"]) := by
  have located := Program.located_of_ofSource_error (Program.error_of_map h) points
  obtain ⟨line, onLine⟩ := located.exists_onLine
  obtain ⟨returns, whole, last⟩ := Report.exists_sourceLine onLine.line_eq
  refine ⟨line, Report.sourceLine source pos.line, returns, onLine, located.stop_le, whole, last, ?_⟩
  rw [← String.toList_inj]
  simp [Failure.report, Report.render, points]

def faulty : String := "a;\r\n=b\r\nc;"

theorem report_points_at_line_faulty :
    compile {} faulty = .error (.unexpectedAssignment ⟨5, 0, 2, 2⟩) ∧
    ∃ line shown returns, Position.OnLine ⟨5, 0, 2, 2⟩ (Text.split '\n' faulty) line ∧
      line = shown ++ String.ofList (List.replicate returns '\r') ∧
      shown.toList.getLast? ≠ some '\r' ∧
      (Failure.unexpectedAssignment ⟨5, 0, 2, 2⟩).report.render faulty =
        String.join (List.map (· ++ "\n")
          ["Unexpected assignment! Expected '>'", "Ln: 2, Col: 2", "", shown, " ^"]) := by
  have failed : compile {} faulty = .error (.unexpectedAssignment ⟨5, 0, 2, 2⟩) := by cbv
  obtain ⟨line, shown, returns, onLine, -, whole, last, rendered⟩ := report_points_at_line failed rfl
  exact ⟨failed, line, shown, returns, onLine, whole, last, rendered⟩

end Flowchart
