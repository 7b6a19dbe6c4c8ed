import Flowchart.Program

/-! A program without its numbers, and the one way in which numbers are given back to it: a node
takes the next number, a condition also the two numbers behind its own, and then come the nodes of
its then-branch, of its else-branch, and the nodes behind it. A tree whose numbers read in this
order are consecutive is the numbering of its outline. -/
namespace Flowchart

/-- A node without its number. -/
inductive Outline where
  | box (text : String) (shape : Shape)
  | branch (text : String) (thenPart elsePart : List Outline)
  | leave
deriving Repr

namespace Outline

mutual
private theorem cons_of_parts {motive : List Outline → Prop} (nil : motive [])
    (box : ∀ text shape outlines, motive outlines → motive (.box text shape :: outlines))
    (branch : ∀ text thenPart elsePart outlines, motive thenPart → motive elsePart →
      motive outlines → motive (.branch text thenPart elsePart :: outlines))
    (leave : ∀ outlines, motive outlines → motive (.leave :: outlines)) :
    (outline : Outline) → (outlines : List Outline) → motive outlines →
      motive (outline :: outlines)
  | .box text shape, outlines, h => box text shape outlines h
  | .branch text thenPart elsePart, outlines, h =>
    branch text thenPart elsePart outlines
      (partInduction nil box branch leave thenPart)
      (partInduction nil box branch leave elsePart) h
  | .leave, outlines, h => leave outlines h

theorem partInduction {motive : List Outline → Prop} (nil : motive [])
    (box : ∀ text shape outlines, motive outlines → motive (.box text shape :: outlines))
    (branch : ∀ text thenPart elsePart outlines, motive thenPart → motive elsePart →
      motive outlines → motive (.branch text thenPart elsePart :: outlines))
    (leave : ∀ outlines, motive outlines → motive (.leave :: outlines)) :
    (outlines : List Outline) → motive outlines
  | [] => nil
  | outline :: outlines => cons_of_parts nil box branch leave outline outlines
      (partInduction nil box branch leave outlines)
end

mutual
def size : Outline → Nat
  | box _ _ => 1
  | branch _ thenPart elsePart => 3 + sizeAll thenPart + sizeAll elsePart
  | leave => 1

def sizeAll : List Outline → Nat
  | [] => 0
  | outline :: outlines => outline.size + sizeAll outlines
end

@[simp] theorem sizeAll_nil : sizeAll [] = 0 := rfl

@[simp] theorem sizeAll_cons (outline : Outline) (outlines : List Outline) :
    sizeAll (outline :: outlines) = outline.size + sizeAll outlines := rfl

mutual
/-- The node with this outline when `next` is the first number to give. -/
def number (next : NodeId) : Outline → Node
  | box text shape => .expression next text shape
  | branch text thenPart elsePart =>
    .condition next text (next + 1) (numberAll (next + 3) thenPart) (next + 2)
      (numberAll (next + 3 + .ofNat (sizeAll thenPart)) elsePart)
  | leave => .leave next

def numberAll (next : NodeId) : List Outline → List Node
  | [] => []
  | outline :: outlines => outline.number next :: numberAll (next + .ofNat outline.size) outlines
end

@[simp] theorem numberAll_nil (next : NodeId) : numberAll next [] = [] := rfl

@[simp] theorem numberAll_cons (next : NodeId) (outline : Outline) (outlines : List Outline) :
    numberAll next (outline :: outlines) =
      outline.number next :: numberAll (next + .ofNat outline.size) outlines := rfl

mutual
/-- No box has the outline of a condition, and in a branch nothing stands behind a return. -/
def WellFormed : Outline → Prop
  | box _ shape => shape ≠ .condition
  | branch _ thenPart elsePart =>
    (leave ∉ thenPart.dropLast ∧ AllWellFormed thenPart) ∧
      (leave ∉ elsePart.dropLast ∧ AllWellFormed elsePart)
  | leave => True

def AllWellFormed : List Outline → Prop
  | [] => True
  | outline :: outlines => outline.WellFormed ∧ AllWellFormed outlines
end

end Outline

namespace Node

mutual
def outline : Node → Outline
  | expression _ text shape => .box text shape
  | condition _ text _ thenNodes _ elseNodes =>
    .branch text (outlineAll thenNodes) (outlineAll elseNodes)
  | leave _ => .leave

def outlineAll : List Node → List Outline
  | [] => []
  | node :: nodes => node.outline :: outlineAll nodes
end

@[simp] theorem outlineAll_nil : outlineAll [] = [] := rfl

@[simp] theorem outlineAll_cons (node : Node) (nodes : List Node) :
    outlineAll (node :: nodes) = node.outline :: outlineAll nodes := rfl

theorem outlineAll_eq_map (nodes : List Node) : outlineAll nodes = nodes.map outline := by
  induction nodes with
  | nil => rfl
  | cons node nodes ih => rw [outlineAll_cons, ih, List.map_cons]

theorem outline_eq_leave_iff (node : Node) : node.outline = .leave ↔ node.isLeave = true := by
  cases node <;> simp [outline, isLeave]

theorem outlineAll_numberAll (next : NodeId) (outlines : List Outline) :
    outlineAll (Outline.numberAll next outlines) = outlines := by
  induction outlines using Outline.partInduction generalizing next with
  | nil => rfl
  | box text shape outlines ih => simp [Outline.number, outline, ih]
  | branch text thenPart elsePart outlines ihThen ihElse ih =>
    simp [Outline.number, outline, ihThen, ihElse, ih]
  | leave outlines ih => simp [Outline.number, outline, ih]

theorem sizeAll_outlineAll (nodes : List Node) :
    Outline.sizeAll (outlineAll nodes) = sizeAll nodes := by
  induction nodes using blockInduction with
  | nil => rfl
  | expression id text shape nodes ih => simp [outline, Outline.size, sizeAll, size, ih]
  | condition id text thenId thenNodes elseId elseNodes nodes ihThen ihElse ih =>
    simp [outline, Outline.size, sizeAll, size, ihThen, ihElse, ih]
  | leave id nodes ih => simp [outline, Outline.size, sizeAll, size, ih]

mutual
/-- The numbers in a node, a condition's three before those of the nodes in its branches. -/
def ids : Node → List NodeId
  | expression id _ _ => [id]
  | condition id _ thenId thenNodes elseId elseNodes =>
    id :: thenId :: elseId :: (idsAll thenNodes ++ idsAll elseNodes)
  | leave id => [id]

def idsAll : List Node → List NodeId
  | [] => []
  | node :: nodes => node.ids ++ idsAll nodes
end

theorem length_idsAll (nodes : List Node) : (idsAll nodes).length = sizeAll nodes := by
  induction nodes using blockInduction with
  | nil => rfl
  | expression id text shape nodes ih =>
    simp only [idsAll, ids, sizeAll, size, List.length_append, List.length_cons, List.length_nil,
      ih]
  | condition id text thenId thenNodes elseId elseNodes nodes ihThen ihElse ih =>
    simp only [idsAll, ids, sizeAll, size, List.length_append, List.length_cons, ihThen, ihElse, ih]
    omega
  | leave id nodes ih =>
    simp only [idsAll, ids, sizeAll, size, List.length_append, List.length_cons, List.length_nil,
      ih]

end Node

/-- `count` numbers from `first` on. They wrap around where the type ends. -/
def NodeId.series (first : NodeId) (count : Nat) : List NodeId :=
  (List.range count).map (first + .ofNat ·)

namespace NodeId

@[simp] theorem length_series (first : NodeId) (count : Nat) :
    (series first count).length = count := by
  simp [series]

theorem series_add (first : NodeId) (m n : Nat) :
    series first (m + n) = series first m ++ series (first + .ofNat m) n := by
  simp only [series, List.range_add, List.map_append, List.map_map]
  congr 1
  apply List.map_congr_left
  intro i _
  simp only [Function.comp_apply, UInt32.ofNat_add, UInt32.add_assoc]

theorem series_one (first : NodeId) : series first 1 = [first] := by
  simp [series]

theorem series_three (first : NodeId) : series first 3 = [first, first + 1, first + 2] := by
  simp [series, List.range_succ]

theorem map_toNat_series {count : Nat} (h : count ≤ UInt32.size) :
    (series 0 count).map UInt32.toNat = List.range count := by
  have same : ∀ i ∈ List.range count, (UInt32.toNat ∘ (0 + UInt32.ofNat ·)) i = i := by
    intro i hi
    have bound : i < UInt32.size := Nat.lt_of_lt_of_le (List.mem_range.1 hi) h
    simp [UInt32.toNat_ofNat_of_lt' bound]
  rw [series, List.map_map, List.map_congr_left same, List.map_id']

end NodeId

namespace Node

theorem idsAll_numberAll (next : NodeId) (outlines : List Outline) :
    idsAll (Outline.numberAll next outlines) = next.series (Outline.sizeAll outlines) := by
  induction outlines using Outline.partInduction generalizing next with
  | nil => rfl
  | box text shape outlines ih =>
    simp only [Outline.numberAll_cons, Outline.sizeAll_cons, Outline.number, Outline.size, idsAll,
      ids, ih, NodeId.series_add, NodeId.series_one]
  | branch text thenPart elsePart outlines ihThen ihElse ih =>
    simp only [Outline.numberAll_cons, Outline.sizeAll_cons, Outline.number, Outline.size, idsAll,
      ids, ihThen, ihElse, ih, NodeId.series_add, NodeId.series_three]
    simp [UInt32.add_assoc, UInt32.ofNat_add]
  | leave outlines ih =>
    simp only [Outline.numberAll_cons, Outline.sizeAll_cons, Outline.number, Outline.size, idsAll,
      ids, ih, NodeId.series_add, NodeId.series_one]

theorem eq_numberAll_of_idsAll {nodes : List Node} {next : NodeId}
    (h : idsAll nodes = next.series (sizeAll nodes)) :
    nodes = Outline.numberAll next (outlineAll nodes) := by
  induction nodes using blockInduction generalizing next with
  | nil => rfl
  | expression id text shape nodes ih =>
    simp only [idsAll, ids, sizeAll, size, NodeId.series_add, NodeId.series_one] at h
    obtain ⟨head, tail⟩ := List.append_inj h rfl
    cases head
    simp only [outlineAll_cons, outline, Outline.numberAll_cons, Outline.number, Outline.size]
    rw [← ih tail]
  | condition id text thenId thenNodes elseId elseNodes nodes ihThen ihElse ih =>
    simp only [idsAll, ids, sizeAll, size, NodeId.series_add, NodeId.series_three] at h
    obtain ⟨head, tail⟩ := List.append_inj h (by simp [length_idsAll])
    simp only [List.cons_append, List.nil_append, List.cons.injEq] at head
    obtain ⟨rfl, rfl, rfl, parts⟩ := head
    obtain ⟨thenIds, elseIds⟩ := List.append_inj parts (by simp [length_idsAll])
    rw [UInt32.ofNat_add, ← UInt32.add_assoc] at elseIds
    have thens : thenNodes = Outline.numberAll (id + 3) (outlineAll thenNodes) := ihThen thenIds
    have elses : elseNodes =
        Outline.numberAll (id + 3 + .ofNat (sizeAll thenNodes)) (outlineAll elseNodes) :=
      ihElse elseIds
    simp only [outlineAll_cons, outline, Outline.numberAll_cons, Outline.number, Outline.size,
      sizeAll_outlineAll]
    rw [← thens, ← elses, ← ih tail]
  | leave id nodes ih =>
    simp only [idsAll, ids, sizeAll, size, NodeId.series_add, NodeId.series_one] at h
    obtain ⟨head, tail⟩ := List.append_inj h rfl
    cases head
    simp only [outlineAll_cons, outline, Outline.numberAll_cons, Outline.number, Outline.size]
    rw [← ih tail]

end Node

end Flowchart
