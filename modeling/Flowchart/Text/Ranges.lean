/-! Sets of characters that are given by ranges of code points. -/
namespace Flowchart.Text

abbrev Ranges := List (Nat × Nat)

namespace Ranges

def covers (ranges : Ranges) (c : Char) : Bool :=
  ranges.any fun (lo, hi) => lo ≤ c.toNat && c.toNat ≤ hi

end Ranges

end Flowchart.Text
