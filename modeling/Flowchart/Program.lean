import Flowchart.Chart.Direction
import Flowchart.Chart.Shape

/-! A program as a tree of numbered nodes. A condition has two branches, each of which has a number of
its own; a condition without an else-branch has an empty one. -/
namespace Flowchart

/-- The number of a node, which is also the name of its box. -/
abbrev NodeId := UInt32

def NodeId.name (id : NodeId) : String := toString id.toNat

inductive Node where
  | expression (id : NodeId) (text : String) (shape : Shape)
  | condition (id : NodeId) (text : String) (thenId : NodeId) (thenNodes : List Node)
      (elseId : NodeId) (elseNodes : List Node)
  /-- Leaves the program. No link starts or ends here. -/
  | leave (id : NodeId)
deriving Repr

structure Program where
  id : NodeId := 0
  direction : Direction
  nodes : List Node
deriving Repr

namespace Node

def id : Node → NodeId
  | expression id _ _ => id
  | condition id _ _ _ _ _ => id
  | leave id => id

def isLeave : Node → Bool
  | leave _ => true
  | _ => false

/-- The node's number, unless it leaves the program and so takes part in no link. -/
def linkable? (node : Node) : Option NodeId := if node.isLeave then none else some node.id

mutual
def size : Node → Nat
  | expression _ _ _ => 1
  | condition _ _ _ thenNodes _ elseNodes => 3 + sizeAll thenNodes + sizeAll elseNodes
  | leave _ => 1

def sizeAll : List Node → Nat
  | [] => 0
  | node :: nodes => node.size + sizeAll nodes
end

mutual
/-- The nodes from which control goes on to what follows this node. -/
def exits : Node → List NodeId
  | expression id _ _ => [id]
  | condition _ _ _ thenNodes _ elseNodes => blockExits thenNodes ++ blockExits elseNodes
  | leave _ => []

def blockExits : List Node → List NodeId
  | [] => []
  | [node] => node.exits
  | _ :: node :: nodes => blockExits (node :: nodes)
end

mutual
/-- The conditions in a node, outer before inner and then-branch before else-branch, each with the
nodes from which control leaves it. -/
def conditions : Node → List (NodeId × List NodeId)
  | expression _ _ _ => []
  | condition id _ _ thenNodes _ elseNodes =>
    (id, blockExits thenNodes ++ blockExits elseNodes) ::
      (conditionsAll thenNodes ++ conditionsAll elseNodes)
  | leave _ => []

def conditionsAll : List Node → List (NodeId × List NodeId)
  | [] => []
  | node :: nodes => node.conditions ++ conditionsAll nodes
end

mutual
private theorem cons_of_forall {motive : List Node → Prop} (nil : motive [])
    (expression : ∀ id text shape nodes, motive nodes → motive (.expression id text shape :: nodes))
    (condition : ∀ id text thenId thenNodes elseId elseNodes nodes, motive thenNodes →
      motive elseNodes → motive nodes →
      motive (.condition id text thenId thenNodes elseId elseNodes :: nodes))
    (leave : ∀ id nodes, motive nodes → motive (.leave id :: nodes)) :
    (node : Node) → (nodes : List Node) → motive nodes → motive (node :: nodes)
  | .expression id text shape, nodes, h => expression id text shape nodes h
  | .condition id text thenId thenNodes elseId elseNodes, nodes, h =>
    condition id text thenId thenNodes elseId elseNodes nodes
      (blockInduction nil expression condition leave thenNodes)
      (blockInduction nil expression condition leave elseNodes) h
  | .leave id, nodes, h => leave id nodes h

/-- Induction over a block: both branches of a condition and the nodes behind it are smaller. -/
theorem blockInduction {motive : List Node → Prop} (nil : motive [])
    (expression : ∀ id text shape nodes, motive nodes → motive (.expression id text shape :: nodes))
    (condition : ∀ id text thenId thenNodes elseId elseNodes nodes, motive thenNodes →
      motive elseNodes → motive nodes →
      motive (.condition id text thenId thenNodes elseId elseNodes :: nodes))
    (leave : ∀ id nodes, motive nodes → motive (.leave id :: nodes)) :
    (nodes : List Node) → motive nodes
  | [] => nil
  | node :: nodes => cons_of_forall nil expression condition leave node nodes
      (blockInduction nil expression condition leave nodes)
end

theorem sizeAll_append (nodes nodes' : List Node) :
    sizeAll (nodes ++ nodes') = sizeAll nodes + sizeAll nodes' := by
  induction nodes with
  | nil => simp [sizeAll]
  | cons node nodes ih =>
    simp only [List.cons_append, sizeAll, ih]
    omega

end Node

def Program.size (p : Program) : Nat := 1 + Node.sizeAll p.nodes

end Flowchart
