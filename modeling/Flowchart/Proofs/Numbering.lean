import Flowchart.Chart
import Flowchart.Proofs.Passages
import Flowchart.Proofs.Spans
import Flowchart.Proofs.WellFormed

/-! Numbers and places. In a program that was read from a source the numbers grow in the order in
which nodes stand, so that a number belongs to one place only. The numbers of nodes that have a box
and the numbers that have none are kept apart. -/
namespace Flowchart

namespace Node

section Numbers

variable {node node' : Node} {next next' : Option Node} {nodes : List Node} {id : NodeId}

theorem id_cons_sublist_ids (node : Node) :
    (node.id :: (idsAll node.onTrue ++ idsAll node.onFalse)).Sublist node.ids := by
  cases node with
  | expression | leave => simp [ids, idsAll, Node.id, onTrue, onFalse]
  | condition id text thenId thenNodes elseId elseNodes =>
    exact (((List.Sublist.refl _).cons elseId).cons thenId).cons_cons id

theorem id_mem_ids (node : Node) : node.id ∈ node.ids := (id_cons_sublist_ids node).subset (by simp)

theorem Placed.ids_sublist (h : Placed nodes node next) :
    (idsAll (node :: next.toList)).Sublist (idsAll nodes) := by
  induction h with
  | @here node nodes => cases nodes <;> simp [idsAll]
  | @inTrue first _ nodes _ _ ih =>
    have branch := (List.sublist_append_left _ _).trans
      ((List.sublist_cons_self _ _).trans (id_cons_sublist_ids first))
    exact (ih.trans branch).trans (List.sublist_append_left _ _)
  | @inFalse first _ nodes _ _ ih =>
    have branch := (List.sublist_append_right _ _).trans
      ((List.sublist_cons_self _ _).trans (id_cons_sublist_ids first))
    exact (ih.trans branch).trans (List.sublist_append_left _ _)
  | later _ ih => exact ih.trans (List.sublist_append_right _ _)

theorem blockExits_concat (front : List Node) (last : Node) :
    blockExits (front ++ [last]) = last.exits := by
  induction front with
  | nil => rfl
  | cons node front ih =>
    cases front with
    | nil => rfl
    | cons node' front => rwa [List.cons_append, List.cons_append, blockExits_cons_cons]

theorem ids_sublist_of_mem (h : node ∈ nodes) : node.ids.Sublist (idsAll nodes) := by
  obtain ⟨next, placed⟩ := exists_placed h
  exact (List.sublist_append_left _ _).trans placed.ids_sublist

theorem exits_sublist (node : Node) : node.exits.Sublist node.ids := by
  have blocks : ∀ nodes : List Node, (∀ inner ∈ nodes, inner.exits.Sublist inner.ids) →
      (blockExits nodes).Sublist (idsAll nodes) := by
    intro nodes inside
    rcases List.eq_nil_or_concat' nodes with rfl | ⟨front, last, rfl⟩
    · simp [blockExits]
    · rw [blockExits_concat]
      exact (inside last (by simp)).trans (ids_sublist_of_mem (by simp))
  induction node using branchInduction with
  | step node ih =>
    obtain ⟨ihTrue, ihFalse⟩ := List.forall_mem_append.1 ih
    cases node with
    | expression => simp [exits, ids]
    | leave => simp [exits]
    | condition =>
      have branches := (blocks _ ihTrue).append (blocks _ ihFalse)
      exact branches.trans ((List.sublist_cons_self _ _).trans (id_cons_sublist_ids _))

theorem Placed.exists_exit (h : Placed nodes node next) (left : id ∈ node.exits) :
    ∃ box behind, Placed nodes box behind ∧ box.id = id ∧ box.isLeave = false ∧
      box.isCondition = false := by
  induction node using branchInduction generalizing next with
  | step node ih =>
    have blocks : ∀ branch : List Node, (∀ inner ∈ branch, inner ∈ node.onTrue ++ node.onFalse) →
        id ∈ blockExits branch → ∃ box behind, Placed nodes box behind ∧ box.id = id ∧
          box.isLeave = false ∧ box.isCondition = false := by
      intro branch inside left
      rcases List.eq_nil_or_concat' branch with rfl | ⟨front, last, rfl⟩
      · simp [blockExits] at left
      · rw [blockExits_concat] at left
        have member := inside last (by simp)
        obtain ⟨next', placed⟩ := h.exists_inner member
        exact ih last member placed left
    cases node with
    | expression => exact ⟨_, _, h, (List.mem_singleton.1 left).symm, rfl, rfl⟩
    | leave => simp [exits] at left
    | condition =>
      rcases List.mem_append.1 left with left | left
      · exact blocks _ (fun _ => List.mem_append_left _) left
      · exact blocks _ (fun _ => List.mem_append_right _) left

mutual
def innerPlaces : Node → List (Node × Option Node)
  | expression _ _ _ => []
  | condition _ _ _ thenNodes _ elseNodes => places thenNodes ++ places elseNodes
  | leave _ => []

/-- Each node of a block with what is behind it, and so on in its branches. -/
def places : List Node → List (Node × Option Node)
  | [] => []
  | node :: nodes => (node, nodes.head?) :: (node.innerPlaces ++ places nodes)
end

theorem places_cons (node : Node) (nodes : List Node) :
    places (node :: nodes) =
      (node, nodes.head?) :: (places node.onTrue ++ places node.onFalse ++ places nodes) := by
  cases node <;> simp [places, innerPlaces, onTrue, onFalse]

theorem Placed.mem_places (h : Placed nodes node next) : (node, next) ∈ places nodes := by
  induction h with
  | here => simp [places_cons]
  | inTrue _ ih => simp [places_cons, ih]
  | inFalse _ ih => simp [places_cons, ih]
  | later _ ih => simp [places_cons, ih]

theorem map_id_places_sublist (nodes : List Node) :
    ((places nodes).map (·.1.id)).Sublist (idsAll nodes) := by
  induction nodes using consInduction with
  | nil => simp [places]
  | cons node nodes ihTrue ihFalse ih =>
    have first := ((ihTrue.append ihFalse).cons_cons node.id).trans (id_cons_sublist_ids node)
    simpa [places_cons, idsAll] using first.append ih

theorem Placed.eq_of_id (distinct : (idsAll nodes).Nodup) (h : Placed nodes node next)
    (h' : Placed nodes node' next') (same : node.id = node'.id) : node = node' ∧ next = next' := by
  have injective := List.inj_on_of_nodup_map (distinct.sublist (map_id_places_sublist nodes))
  exact Prod.mk.inj (injective h.mem_places h'.mem_places same)

mutual
/-- The numbers without a box: those of branches and of nodes that leave the program. -/
def unboxed : Node → List NodeId
  | expression _ _ _ => []
  | condition _ _ thenId thenNodes elseId elseNodes =>
    thenId :: elseId :: (unboxedAll thenNodes ++ unboxedAll elseNodes)
  | leave id => [id]

def unboxedAll : List Node → List NodeId
  | [] => []
  | node :: nodes => node.unboxed ++ unboxedAll nodes
end

theorem idsAll_perm (nodes : List Node) :
    (idsAll nodes).Perm ((boxesAll nodes).map Box.id ++ unboxedAll nodes) := by
  rw [List.perm_iff_count]
  intro a
  induction nodes using blockInduction with
  | nil => simp [idsAll, boxesAll, unboxedAll]
  | expression id text shape nodes ih =>
    simp only [idsAll, ids, boxesAll, boxes, unboxedAll, unboxed, List.map_append, List.map_cons,
      List.map_nil, List.count_append, List.count_cons, List.count_nil] at ih ⊢
    omega
  | condition id text thenId thenNodes elseId elseNodes nodes ihThen ihElse ih =>
    simp only [idsAll, ids, boxesAll, boxes, unboxedAll, unboxed, List.map_append, List.map_cons,
      List.count_append, List.count_cons] at ihThen ihElse ih ⊢
    omega
  | leave id nodes ih =>
    simp only [idsAll, ids, boxesAll, boxes, unboxedAll, unboxed, List.map_append, List.map_nil,
      List.count_append, List.count_cons, List.count_nil] at ih ⊢
    omega

theorem Placed.id_mem_boxes (h : Placed nodes node next) (stays : node.isLeave = false) :
    node.id ∈ (boxesAll nodes).map Box.id := by
  have inside (first : Node) : boxesAll first.onTrue ++ boxesAll first.onFalse ⊆ first.boxes := by
    cases first <;> simp [onTrue, onFalse, boxes, boxesAll]
  have within {first : Node} {nodes branch : List Node}
      (part : boxesAll branch ⊆ boxesAll first.onTrue ++ boxesAll first.onFalse) :
      boxesAll branch ⊆ boxesAll (first :: nodes) :=
    List.Subset.trans (List.Subset.trans part (inside first)) (List.subset_append_left _ _)
  induction h with
  | @here node nodes =>
    cases node with
    | expression => simp [boxesAll, boxes, Node.id]
    | condition => simp [boxesAll, boxes, Node.id]
    | leave => cases stays
  | inTrue _ ih => exact List.map_subset _ (within (List.subset_append_left _ _)) (ih stays)
  | inFalse _ ih => exact List.map_subset _ (within (List.subset_append_right _ _)) (ih stays)
  | later _ ih => exact List.map_subset _ (List.subset_append_right _ _) (ih stays)

end Numbers

end Node

namespace Program

def unboxed (p : Program) : List NodeId := p.id :: Node.unboxedAll p.nodes

variable {p : Program} {settings : Settings} {source : String}

theorem exists_tokens_of_ofSource (h : ofSource settings source = .ok p) :
    ∃ tokens, tokenize source = .ok tokens ∧ ofTokens settings.direction tokens = .ok p := by
  unfold ofSource at h
  cases scanned : tokenize source with
  | error failure => rw [scanned] at h; cases h
  | ok tokens => rw [scanned] at h; exact ⟨tokens, rfl, h⟩

theorem ids_increasing_of_size {direction : Direction} {tokens : List Token}
    (h : ofTokens direction tokens = .ok p) (fits : p.size ≤ UInt32.size) :
    p.ids.Pairwise (· < ·) := by
  obtain ⟨outlines, derived, rfl⟩ := ofTokens_eq_ok_iff.1 h
  rw [size_numbered] at fits
  have increasing : ((NodeId.series 0 (1 + Outline.sizeAll outlines)).map UInt32.toNat).Pairwise
      (· < ·) := by
    rw [NodeId.map_toNat_series fits]
    exact List.pairwise_lt_range
  rw [ids_numbered]
  exact (List.pairwise_map.1 increasing).imp UInt32.lt_iff_toNat_lt.2

theorem size_le_of_ofTokens {direction : Direction} {tokens : List Token}
    (h : ofTokens direction tokens = .ok p) : p.size ≤ 1 + tokens.length := by
  obtain ⟨outlines, derived, rfl⟩ := ofTokens_eq_ok_iff.1 h
  rw [size_numbered]
  exact Nat.add_le_add_left derived.sizeAll_le 1

theorem ids_increasing (short : source.length < UInt32.size - 1)
    (h : ofSource settings source = .ok p) : p.ids.Pairwise (· < ·) := by
  obtain ⟨tokens, scanned, read⟩ := exists_tokens_of_ofSource h
  apply ids_increasing_of_size read
  have size_le := size_le_of_ofTokens read
  have tokens_le := (laid_of_tokenize scanned).length_le
  omega

theorem nodup_idsAll (short : source.length < UInt32.size - 1)
    (h : ofSource settings source = .ok p) : (Node.idsAll p.nodes).Nodup :=
  (List.pairwise_cons.1 (ids_increasing short h)).2.imp UInt32.ne_of_lt

end Program

end Flowchart
