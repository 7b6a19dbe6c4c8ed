import Flowchart.Proofs.Forward

/-! Where the links of a condition go. A condition that has an else-branch goes to the first node of
each branch, and the branches go on behind it. Only where it ends the then-branch of a condition
without an else-branch, a link leads from it past its own branches. -/
namespace Flowchart

namespace Node

/-- The passages that start at a condition with an else-branch, which stands somewhere in a block. -/
inductive Departs (settings : Settings) (nodes : List Node) (node : Node) : Edge → Prop where
  | whenTrue {first : Node} : node.onTrue.head? = some first → first.isLeave = false →
      Departs settings nodes node ⟨[node.id], first.id, settings.trueLabel⟩
  | whenFalse {first : Node} : node.onFalse.head? = some first → first.isLeave = false →
      Departs settings nodes node ⟨[node.id], first.id, settings.falseLabel⟩
  /-- The condition ends the then-branch of one without an else-branch. -/
  | merge {outer behind : Node} : Placed nodes outer (some behind) → outer.onFalse = [] →
      outer.onTrue.getLast? = some node → behind.isLeave = false →
      Departs settings nodes node ⟨[node.id], behind.id, none⟩

variable {settings : Settings} {node outer : Node} {next next' : Option Node} {nodes : List Node}
  {edge : Edge}

theorem isCondition_of_onTrue (h : node.onTrue ≠ []) : node.isCondition = true := by
  cases node with
  | condition => rfl
  | expression | leave => exact absurd rfl h

theorem isCondition_of_onFalse (h : node.onFalse ≠ []) : node.isCondition = true := by
  cases node with
  | condition => rfl
  | expression | leave => exact absurd rfl h

theorem isLeave_of_isCondition (h : node.isCondition = true) : node.isLeave = false := by
  cases node with
  | condition => rfl
  | expression | leave => cases h

theorem Arises.departs (h : Arises settings outer next' edge) (distinct : (idsAll nodes).Nodup)
    (placed' : Placed nodes outer next') (placed : Placed nodes node next)
    (hasElse : node.onFalse ≠ []) (starts : node.id ∈ edge.sources) :
    Departs settings nodes node edge := by
  cases h with
  | onward =>
    -- Control leaves `outer` from boxes that are no conditions.
    obtain ⟨box, behind, placedBox, same, -, plain⟩ := placed'.exists_exit starts
    obtain ⟨rfl, -⟩ := placedBox.eq_of_id distinct placed same
    rw [isCondition_of_onFalse hasElse] at plain
    cases plain
  | whenTrue found stays =>
    obtain ⟨rfl, -⟩ := placed.eq_of_id distinct placed' (List.mem_singleton.1 starts)
    exact .whenTrue found stays
  | whenFalse found stays =>
    obtain ⟨rfl, -⟩ := placed.eq_of_id distinct placed' (List.mem_singleton.1 starts)
    exact .whenFalse found stays
  | merge noElse found _ stays =>
    obtain ⟨_, placedLast⟩ :=
      placed'.exists_inner (List.mem_append_left _ (List.mem_of_getLast? found))
    obtain ⟨rfl, -⟩ := placed.eq_of_id distinct placedLast (List.mem_singleton.1 starts)
    exact .merge placed' noElse found stays
  | past _ noElse =>
    obtain ⟨rfl, -⟩ := placed.eq_of_id distinct placed' (List.mem_singleton.1 starts)
    exact absurd noElse hasElse

theorem Departs.exists_arises (h : Departs settings nodes node edge)
    (placed : Placed nodes node next) (hasElse : node.onFalse ≠ []) :
    ∃ outer next', Placed nodes outer next' ∧ Arises settings outer next' edge := by
  cases h with
  | whenTrue found stays => exact ⟨node, next, placed, .whenTrue found stays⟩
  | whenFalse found stays => exact ⟨node, next, placed, .whenFalse found stays⟩
  | merge placed' noElse found onward =>
    have stays := isLeave_of_isCondition (isCondition_of_onFalse hasElse)
    exact ⟨_, _, placed', .merge noElse found stays onward⟩

end Node

namespace Program

variable {p : Program} {settings : Settings} {source : String} {node : Node} {next : Option Node}
  {edge : Edge}

/-- The links that start at a condition with an else-branch lead into its branches, apart from one
where it ends the then-branch of a condition without an else-branch. -/
theorem line_mem_links_iff_departs (short : source.length < UInt32.size - 1)
    (h : ofSource settings source = .ok p) (placed : Node.Placed p.nodes node next)
    (hasElse : node.onFalse ≠ []) (starts : node.id ∈ edge.sources) :
    edge.link.line ∈ (p.links settings).lines ↔ Node.Departs settings p.nodes node edge := by
  have distinct := nodup_idsAll short h
  rw [line_mem_links_iff (List.ne_nil_of_mem starts), mem_edges_iff]
  constructor
  · rintro ⟨outer, next', placed', arises⟩
    exact arises.departs distinct placed' placed hasElse starts
  · intro departs
    exact departs.exists_arises placed hasElse

theorem placed_twoSided : Node.Placed merged.nodes twoSided none := .inTrue .here

def pastBranches : Edge := ⟨[4], 9, none⟩

theorem line_pastBranches : pastBranches.link.line ∈ (merged.links {}).lines := by
  rw [lines_merged]
  decide

theorem departs_twoSided :
    mergedText.length < UInt32.size - 1 ∧ ofSource {} mergedText = .ok merged ∧
      Node.Placed merged.nodes twoSided none ∧ twoSided.onFalse ≠ [] ∧ twoSided.id ∈ pastBranches.sources ∧
      pastBranches.link.line ∈ (merged.links {}).lines ∧
      Node.Departs {} merged.nodes twoSided pastBranches := by
  have short : mergedText.length < UInt32.size - 1 := by decide
  have hasElse : twoSided.onFalse ≠ [] := by decide
  have starts : twoSided.id ∈ pastBranches.sources := by decide
  have departs := line_mem_links_iff_departs short ofSource_mergedText placed_twoSided hasElse starts
  exact ⟨short, ofSource_mergedText, placed_twoSided, hasElse, starts, line_pastBranches,
    departs.1 line_pastBranches⟩

/-- A link can lead from a condition past both of its branches. -/
theorem exists_link_past_branches :
    ¬ ∀ (settings : Settings) (source : String) (p : Program) (node : Node) (next : Option Node)
        (edge : Edge), source.length < UInt32.size - 1 → ofSource settings source = .ok p →
        Node.Placed p.nodes node next → node.onFalse ≠ [] → node.id ∈ edge.sources →
        edge.link.line ∈ (p.links settings).lines →
        (∃ first, node.onTrue.head? = some first ∧
          edge = ⟨[node.id], first.id, settings.trueLabel⟩) ∨
        ∃ first, node.onFalse.head? = some first ∧
          edge = ⟨[node.id], first.id, settings.falseLabel⟩ := by
  intro onlyBranches
  have labelled := onlyBranches {} mergedText merged twoSided none pastBranches (by decide)
    ofSource_mergedText placed_twoSided (by decide) (by decide) line_pastBranches
  simp [pastBranches] at labelled

end Program

end Flowchart
