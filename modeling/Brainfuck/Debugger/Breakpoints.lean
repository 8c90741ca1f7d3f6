/-! Sets of breakpoints. -/
namespace Brainfuck

/-- Breakpoints, each once, in ascending order. -/
structure Breakpoints where
  positions : List Int := []
  deriving DecidableEq, Repr

namespace Breakpoints

/-- Puts a position into its place in ascending positions, unless it is there. -/
def place (p : Int) : List Int → List Int
  | [] => [p]
  | q :: qs => if p < q then p :: q :: qs else if p = q then q :: qs else q :: place p qs

def contains (b : Breakpoints) (p : Int) : Bool :=
  b.positions.contains p

def insert (b : Breakpoints) (p : Int) : Breakpoints :=
  ⟨place p b.positions⟩

def erase (b : Breakpoints) (p : Int) : Breakpoints :=
  ⟨b.positions.filter (· != p)⟩

end Breakpoints

end Brainfuck
