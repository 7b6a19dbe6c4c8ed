/-! The outlines that a box of a chart can have. -/
namespace Flowchart

inductive Shape where
  | square
  | rounded
  | circular
  | parallelogram
  | reverseParallelogram
  | condition
deriving DecidableEq, Repr

namespace Shape

def all : List Shape :=
  [square, rounded, circular, parallelogram, reverseParallelogram, condition]

theorem mem_all (s : Shape) : s ∈ all := by cases s <;> decide

def name : Shape → String
  | square => "square"
  | rounded => "rounded"
  | circular => "circular"
  | parallelogram => "parallelogram"
  | reverseParallelogram => "reverse_parallelogram"
  | condition => "condition"

def brackets : Shape → String × String
  | square => ("[", "]")
  | rounded => ("(", ")")
  | circular => ("((", "))")
  | parallelogram => ("[/", "/]")
  | reverseParallelogram => ("[\\", "\\]")
  | condition => ("\x7b", "\x7d")

end Shape

end Flowchart
