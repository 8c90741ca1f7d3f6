/-! Tables of ranges of code points. -/
namespace Brainfuck.Text

/-- Searches ascending disjoint ranges between two indices, halving their distance each time. -/
def memRangesBetween (ranges : Array (Nat × Nat)) (n : Nat) : Nat → Nat → Nat → Bool
  | 0, _, _ => false
  | fuel + 1, lo, hi =>
    if lo < hi then
      let mid := (lo + hi) / 2
      match ranges[mid]? with
      | none => false
      | some (first, last) =>
        if n < first then memRangesBetween ranges n fuel lo mid
        else if last < n then memRangesBetween ranges n fuel (mid + 1) hi
        else true
    else false

def memRanges (ranges : Array (Nat × Nat)) (n : Nat) : Bool :=
  memRangesBetween ranges n ranges.size 0 ranges.size

end Brainfuck.Text
