import Flowchart.Proofs.Appearance

/-! Links asked for one after the other. Links of one's own and the links of whole programs can be
asked for in any order; what is drawn in the end is every line that was asked for once, where it was
first asked for, so that asking again changes nothing. Boxes have numbers for names, and so it is the
same link that is asked for where a line is the same: no link is lost to another one. -/
namespace Flowchart

inductive Call where
  | single (link : Link)
  | program (p : Program)

def Call.requests (settings : Settings) : Call → List Link
  | .single link => [link]
  | .program p => (p.edges settings).map Edge.link

/-- The lines that are asked for, in this order and with repetitions. A link that lacks an end has
none. -/
def Call.asked (settings : Settings) (calls : List Call) : List String :=
  ((calls.flatMap (requests settings)).filter fun link =>
    link.source ≠ "" ∧ link.target ≠ "").map Link.line

theorem Call.exists_names {settings : Settings} {p : Program} {link : Link}
    (h : link ∈ requests settings (.program p)) :
    ∃ sources target label, sources ≠ [] ∧ (∀ name ∈ sources, Decimal name) ∧ Decimal target ∧
      link = .ofNames sources target label := by
  obtain ⟨edge, drawn, rfl⟩ := List.mem_map.1 h
  have nonempty := Node.sources_ne_nil_of_mem_blockEdges drawn
  exact ⟨edge.sources.map NodeId.name, edge.target.name, edge.label, by simpa using nonempty,
    fun _ => Edge.decimal_of_mem_sources, edge.target.decimal_name, edge.link_eq⟩

namespace Links

variable {settings : Settings}

def answer (settings : Settings) (links : Links) : Call → Links
  | .single link => links.add link
  | .program p => links.addAll ((p.edges settings).map Edge.link)

def answerAll (settings : Settings) (calls : List Call) : Links :=
  calls.foldl (answer settings) {}

theorem answer_eq_addAll (links : Links) (call : Call) :
    links.answer settings call = links.addAll (call.requests settings) := by
  cases call <;> rfl

theorem answerAll_eq_addAll (settings : Settings) (calls : List Call) :
    answerAll settings calls = addAll {} (calls.flatMap (Call.requests settings)) := by
  induction calls using List.reverseRecOn with
  | nil => rfl
  | append_singleton calls call ih =>
    have step : answerAll settings (calls ++ [call]) =
        (answerAll settings calls).answer settings call := by
      simp [answerAll]
    rw [step, ih, answer_eq_addAll, ← addAll_append, List.flatMap_append, List.flatMap_singleton]

theorem inStep_answerAll (settings : Settings) (calls : List Call) :
    (answerAll settings calls).InStep := by
  rw [answerAll_eq_addAll]
  exact inStep_empty.addAll _

theorem addAll_eq_self {links : Links} {new : List Link}
    (known : ∀ link ∈ new, link.isWhole = true → link.line ∈ links.seen) :
    links.addAll new = links := by
  induction new with
  | nil => rfl
  | cons link new ih =>
    obtain ⟨first, others⟩ := List.forall_mem_cons.1 known
    calc links.addAll (link :: new)
      _ = (links.add link).addAll new := rfl
      _ = links := by rw [add_of_known first, ih others]

theorem answer_eq_self {calls : List Call} {call : Call} (earlier : call ∈ calls) :
    (answerAll settings calls).answer settings call = answerAll settings calls := by
  rw [answer_eq_addAll]
  refine addAll_eq_self fun link asked whole => ?_
  rw [(inStep_answerAll settings calls).mem_seen_iff, answerAll_eq_addAll,
    inStep_empty.mem_lines_addAll]
  exact .inr ⟨link, List.mem_flatMap.2 ⟨call, earlier, asked⟩, whole, rfl⟩

theorem lines_answerAll (settings : Settings) (calls : List Call) :
    (answerAll settings calls).lines = (Call.asked settings calls).eraseDups := by
  have whole : Link.isWhole = fun link : Link => decide (link.source ≠ "" ∧ link.target ≠ "") := by
    funext link
    rw [Bool.eq_iff_iff]
    simp [Link.isWhole]
  rw [answerAll_eq_addAll, lines_addAll, whole, Call.asked]

/-- Whatever is asked for, the set of lines stays in step with the list, and each line is drawn once
and where it was first asked for. Asking again changes nothing, and links between numbered boxes, such
as those of programs, have a line of their own each. -/
theorem answerAll_draws (settings : Settings) (calls : List Call) :
    (answerAll settings calls).InStep ∧
    (answerAll settings calls).text = String.join (Call.asked settings calls).eraseDups ∧
    (answerAll settings calls).count = (Call.asked settings calls).eraseDups.length ∧
    (∀ before after call, calls = before ++ after → call ∈ before →
      answerAll settings (before ++ call :: after) = answerAll settings calls) ∧
    (∀ p, ∀ link ∈ (Call.program p).requests settings,
      ∃ sources target label, sources ≠ [] ∧ (∀ name ∈ sources, Decimal name) ∧ Decimal target ∧
        link = .ofNames sources target label) ∧
    ∀ sources sources' target target' label label',
      sources ≠ [] → (∀ name ∈ sources, Decimal name) → Decimal target →
      sources' ≠ [] → (∀ name ∈ sources', Decimal name) → Decimal target' →
      ((Link.ofNames sources target label).line = (Link.ofNames sources' target' label').line ↔
        sources = sources' ∧ target = target' ∧ label = label') := by
  have drawn := lines_answerAll settings calls
  refine ⟨inStep_answerAll settings calls, by rw [text, drawn], by rw [count, drawn], ?_,
    fun p link => Call.exists_names, ?_⟩
  · rintro before after call rfl earlier
    have again : answerAll settings (before ++ [call]) = answerAll settings before := by
      rw [← answer_eq_self earlier]
      simp [answerAll]
    have parts (calls : List Call) : answerAll settings (calls ++ after) =
        after.foldl (answer settings) (answerAll settings calls) := by
      simp [answerAll]
    rw [List.append_cons, parts, parts, again]
  · intro sources sources' target target' label label'
      nonempty decimal into nonempty' decimal' into'
    constructor
    · exact Link.line_ofNames_injective nonempty nonempty' decimal decimal' into into'
    · rintro ⟨rfl, rfl, rfl⟩
      rfl

/-- A link that the program has too, one that lacks an end, and one whose label looks like the ends of
two links. -/
def mixedCalls : List Call :=
  [.single ⟨"4", "5", none⟩, .program forkedProgram, .single ⟨"", "7", none⟩,
   .single ⟨"4", "5", some "|5\n  4-->|"⟩]

theorem answerAll_draws_mixedCalls :
    "  1-->|True|4\n" ∈ (answerAll {} mixedCalls).seen ∧
    (answerAll {} mixedCalls).text =
      "  4-->5\n  1-->|True|4\n  1-->|False|5\n  4-->||5\n  4-->||5\n" ∧
    (answerAll {} mixedCalls).count = 4 ∧
    answerAll {} (mixedCalls ++ [.program forkedProgram]) = answerAll {} mixedCalls ∧
    (∃ sources target label, sources ≠ [] ∧ (∀ name ∈ sources, Decimal name) ∧ Decimal target ∧
      Link.mk "1" "4" (some "True") = .ofNames sources target label) ∧
    (Link.ofNames ["4"] "5" (some "|5\n  4-->|")).line ≠ (Link.ofNames ["4"] "5" none).line := by
  have lines : (Call.asked {} mixedCalls).eraseDups =
      ["  4-->5\n", "  1-->|True|4\n", "  1-->|False|5\n", "  4-->||5\n  4-->||5\n"] := by cbv
  have decimal : Decimal "4" ∧ Decimal "5" := ⟨⟨by simp, by simp⟩, ⟨by simp, by simp⟩⟩
  have request : Link.mk "1" "4" (some "True") ∈ (Call.program forkedProgram).requests {} := by
    exact List.mem_of_mem_head? (by cbv)
  obtain ⟨inStep, text, count, repeated, named, apart⟩ := answerAll_draws {} mixedCalls
  rw [lines] at text count
  refine ⟨(inStep.mem_seen_iff _).2 ?_, text, count, repeated mixedCalls [] _ (by simp) ?_,
    named _ _ request, ?_⟩
  · rw [lines_answerAll, lines]
    exact .tail _ (.head _)
  · exact .tail _ (.head _)
  · intro same
    have equal := (apart ["4"] ["4"] "5" "5" _ _ (by simp) (by simpa using decimal.1) decimal.2
      (by simp) (by simpa using decimal.1) decimal.2).1 same
    cases equal.2.2

end Links

end Flowchart
