import PartTree.Binary64.Basic

/-!
Rounding of a ratio to the nearest number, and the arithmetic made of it: each operation is the
exact result rounded once, or nothing where that leaves the finite numbers.
-/

namespace PartTree.Binary64

/-- The whole number nearest to a ratio; a half goes to the even neighbour. -/
def divEven (num den : Nat) : Nat :=
  let floor := num / den
  let twice := 2 * (num % den)
  if twice < den then floor else if den < twice then floor + 1 else floor + floor % 2

/-- The rank nearest to a ratio of units. A magnitude with `53 + shift` binary places keeps the
first 53; a carry out of them leads to the next rank all the same, since ranks count straight on. -/
def nearestRank (num den : Nat) : Nat :=
  let shift := (num / den).log2 - 52
  shift * binade + divEven num (den <<< shift)

def ofRank? (negative : Bool) (rank : Nat) : Option Binary64 :=
  if finite : rank < 2047 * binade then some ⟨negative, rank, finite⟩ else none

def round? (negative : Bool) (num den : Nat) : Option Binary64 :=
  ofRank? negative (nearestRank num den)

def ofInt? (value : Int) : Option Binary64 :=
  round? (value < 0) (value.natAbs <<< 1074) 1

def mul? (x y : Binary64) : Option Binary64 :=
  round? (x.negative ^^ y.negative) (x.units * y.units) (1 <<< 1074)

/-- A sum of zero is negative only if both terms are. -/
def add? (x y : Binary64) : Option Binary64 :=
  let sum := x.signedUnits + y.signedUnits
  if sum = 0 then some (zero (x.negative && y.negative)) else round? (sum < 0) sum.natAbs 1

theorem ofRank?_eq_some {negative : Bool} {rank : Nat} {x : Binary64} :
    ofRank? negative rank = some x ↔ x.negative = negative ∧ x.rank = rank := by
  unfold ofRank?
  split
  · cases x
    simp [eq_comm]
  · rename_i large
    simp only [reduceCtorEq, false_iff, not_and]
    intro _ same
    exact large (same ▸ x.finite)

end PartTree.Binary64
