import PartTree.Binary64.Round

/-!
Decimal numbers: reading one as the nearest double, and the shortest decimal that reads back.
-/

namespace PartTree

structure Decimal where
  digits : Nat
  exponent : Int
  deriving DecidableEq

namespace Decimal

/-- A decimal as a ratio of units of `2 ^ -1074`. -/
def numerator (d : Decimal) : Nat := (d.digits * Nat.pow 10 d.exponent.toNat) <<< 1074

def denominator (d : Decimal) : Nat := Nat.pow 10 (-d.exponent).toNat

end Decimal

namespace Binary64

/-- The double nearest to a decimal, or nothing above the largest. From `10 ^ 400` on nothing is
finite and below `10 ^ -400` all is zero, so powers beyond these are not computed. -/
def ofDecimal? (negative : Bool) (d : Decimal) : Option Binary64 :=
  if d.digits = 0 then some (zero negative)
  else if 400 < d.exponent then none
  else if d.exponent + (d.digits.log2 + 1) < -400 then some (zero negative)
  else round? negative d.numerator d.denominator

/-- Whether a ratio of units rounds to a rank: it lies between the midpoints to the neighbours, and
the midpoints themselves go to an even rank. -/
def rounds (rank num den : Nat) : Bool :=
  let low := (unitsOf (rank - 1) + unitsOf rank) * den
  let high := (unitsOf rank + unitsOf (rank + 1)) * den
  if rank % 2 = 0 then low ≤ 2 * num && 2 * num ≤ high else low < 2 * num && 2 * num < high

/-- The multiple of `10 ^ exponent` that reads back as a rank, the nearest to it if two do. -/
def onGrid? (rank : Nat) (exponent : Int) : Option Decimal :=
  let step : Decimal := ⟨1, exponent⟩
  let below := unitsOf rank * step.denominator / step.numerator
  let twice := 2 * (unitsOf rank * step.denominator % step.numerator)
  let lowerFirst := twice < step.numerator || (twice == step.numerator && below % 2 == 0)
  let candidates := if lowerFirst then [below, below + 1] else [below + 1, below]
  (candidates.map fun digits => ⟨digits, exponent⟩).find? fun d : Decimal =>
    rounds rank d.numerator d.denominator

def shortestFrom (rank : Nat) : Nat → Int → Decimal
  | 0, _ => ⟨unitsOf rank * Nat.pow 5 1074, -1074⟩
  | grids + 1, exponent =>
    (onGrid? rank exponent).getD (shortestFrom rank grids (exponent - 1))

/-- The decimal with the fewest digits that reads back as the magnitude, nearest to it among those.
The search starts above the first digit, and seventeen digits always do. -/
def shortest (x : Binary64) : Decimal :=
  shortestFrom x.rank 25 (((x.units.log2 : Int) - 1073) * 30103 / 100000 + 1)

end Binary64

end PartTree
