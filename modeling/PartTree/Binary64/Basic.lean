/-!
Finite double-precision numbers, exactly.

The magnitudes are counted from zero upwards: a number is its sign and the rank of its magnitude.
Every magnitude is a whole number of units of `2 ^ -1074`, so the arithmetic is that of integers.
-/

namespace PartTree

/-- The number of ranks after which the gap between them doubles, `2 ^ 52`. -/
abbrev binade : Nat := 4503599627370496

structure Binary64 where
  negative : Bool
  rank : Nat
  finite : rank < 2047 * binade
  deriving DecidableEq

namespace Binary64

/-- The magnitude of a rank in units. Below `2 ^ 53` the ranks are the units themselves; from there
on the gap doubles with every binade. -/
def unitsOf (rank : Nat) : Nat :=
  if rank < binade then rank else (binade + rank % binade) <<< (rank / binade - 1)

def units (x : Binary64) : Nat := unitsOf x.rank

def signedUnits (x : Binary64) : Int := if x.negative then -x.units else x.units

def zero (negative : Bool) : Binary64 := ⟨negative, 0, by decide⟩

instance : Inhabited Binary64 := ⟨zero false⟩

def isZero (x : Binary64) : Bool := x.rank == 0

/-- Equality of numbers, under which both zeros are one. -/
instance : BEq Binary64 := ⟨fun x y => x = y || (x.isZero && y.isZero)⟩

theorem beq_iff {x y : Binary64} : (x == y) = true ↔ x = y ∨ (x.rank = 0 ∧ y.rank = 0) := by
  change (decide (x = y) || (x.rank == 0 && y.rank == 0)) = true ↔ _
  simp

end Binary64

end PartTree
