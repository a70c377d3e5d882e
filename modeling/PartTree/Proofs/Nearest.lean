import PartTree.Binary64.Decimal
import PartTree.Proofs.Rounding
import Mathlib.Order.Monotone.Basic
import Mathlib.Tactic.Ring

/-!
The rank that a ratio rounds to. Midpoints between neighbouring magnitudes part the ratios, and a
midpoint belongs to the even rank beside it. Rounding finds the one rank to which a ratio belongs,
so that the shortest decimal of a number, written in any way, is read as that number.
-/

namespace PartTree

namespace Binary64

/-- From a binade on, a magnitude is a number of gaps: so many as fill one binade or two. -/
theorem unitsOf_add {shift places : Nat} (low : shift = 0 ∨ binade ≤ places)
    (high : places ≤ 2 * binade) : unitsOf (shift * binade + places) = places * 2 ^ shift := by
  by_cases small : shift * binade + places < binade
  · obtain rfl : shift = 0 := by
      rcases low with zero | low
      · exact zero
      · exact absurd small (by omega)
    rw [Nat.zero_mul, Nat.zero_add] at small ⊢
    rw [unitsOf, if_pos small, Nat.pow_zero, Nat.mul_one]
  · have wide : binade ≤ places := by
      rcases low with rfl | low
      · omega
      · exact low
    rw [unitsOf, if_neg small, Nat.shiftLeft_eq]
    by_cases full : places = 2 * binade
    · have quotient : (shift * binade + places) / binade = shift + 2 := by
        simp only [binade] at full ⊢
        omega
      have remainder : (shift * binade + places) % binade = 0 := by
        simp only [binade] at full ⊢
        omega
      rw [quotient, remainder, full, show shift + 2 - 1 = shift + 1 by omega, Nat.pow_succ]
      ring
    · have quotient : (shift * binade + places) / binade = shift + 1 := by
        simp only [binade] at full wide high ⊢
        omega
      have remainder : binade + (shift * binade + places) % binade = places := by
        simp only [binade] at full wide high ⊢
        omega
      rw [quotient, remainder, Nat.add_sub_cancel]

theorem exists_places (rank : Nat) : ∃ shift places, (shift = 0 ∨ binade ≤ places) ∧
    places < 2 * binade ∧ rank = shift * binade + places := by
  by_cases small : rank < binade
  · exact ⟨0, rank, .inl rfl, by omega, by omega⟩
  · refine ⟨rank / binade - 1, binade + rank % binade, .inr (Nat.le_add_right ..), ?_, ?_⟩
    · simp only [binade]
      omega
    · simp only [binade] at small ⊢
      omega

theorem strictMono_unitsOf : StrictMono unitsOf := by
  apply strictMono_nat_of_lt_succ
  intro rank
  obtain ⟨shift, places, low, high, rfl⟩ := exists_places rank
  rw [Nat.add_assoc, unitsOf_add low (Nat.le_of_lt high), unitsOf_add (by omega) (by omega)]
  exact Nat.mul_lt_mul_of_pos_right (Nat.lt_succ_self places) (Nat.pow_pos (by decide))

/-- Twice the midpoint below a rank, and twice the one above it. -/
def midBelow (rank : Nat) : Nat := unitsOf (rank - 1) + unitsOf rank

def midAbove (rank : Nat) : Nat := unitsOf rank + unitsOf (rank + 1)

/-- Whether a ratio belongs to a rank. -/
structure Nearest (rank num den : Nat) : Prop where
  low : midBelow rank * den ≤ 2 * num
  high : 2 * num ≤ midAbove rank * den
  odd : rank % 2 = 1 → midBelow rank * den < 2 * num ∧ 2 * num < midAbove rank * den

variable {rank other num den : Nat}

theorem rounds_iff : rounds rank num den = true ↔ Nearest rank num den := by
  rw [rounds]
  split
  · rename_i even
    rw [Bool.and_eq_true, decide_eq_true_eq, decide_eq_true_eq]
    constructor
    · intro inside
      exact ⟨inside.1, inside.2, fun odd => by omega⟩
    · intro nearest
      exact ⟨nearest.low, nearest.high⟩
  · rename_i odd
    rw [Bool.and_eq_true, decide_eq_true_eq, decide_eq_true_eq]
    constructor
    · intro inside
      exact ⟨Nat.le_of_lt inside.1, Nat.le_of_lt inside.2, fun _ => inside⟩
    · intro nearest
      exact nearest.odd (by omega)

theorem midAbove_le_midBelow (less : rank < other) : midAbove rank ≤ midBelow other :=
  Nat.add_le_add (strictMono_unitsOf.monotone (by omega)) (strictMono_unitsOf.monotone (by omega))

/-- Of two ranks with a midpoint between them one is odd, and a midpoint does not belong to it. -/
theorem Nearest.not_lt (first : Nearest rank num den) (second : Nearest other num den)
    (positive : 0 < den) : ¬ rank < other := by
  intro less
  have ordered := Nat.mul_le_mul_right den (midAbove_le_midBelow less)
  have same : midAbove rank * den = midBelow other * den := by
    have := first.high
    have := second.low
    omega
  have touching : midAbove rank = midBelow other := Nat.eq_of_mul_eq_mul_right positive same
  have next : other = rank + 1 := by
    by_contra apart
    have left : unitsOf rank < unitsOf (other - 1) := strictMono_unitsOf (by omega)
    have right : unitsOf (rank + 1) ≤ unitsOf other := strictMono_unitsOf.monotone (by omega)
    rw [midAbove, midBelow] at touching
    omega
  have upper := first.high
  have lower := second.low
  rcases Nat.mod_two_eq_zero_or_one rank with even | odd
  · have := (second.odd (by omega)).1
    omega
  · have := (first.odd odd).2
    omega

theorem Nearest.unique (first : Nearest rank num den) (second : Nearest other num den)
    (positive : 0 < den) : rank = other :=
  Nat.le_antisymm (Nat.not_lt.mp (second.not_lt first positive))
    (Nat.not_lt.mp (first.not_lt second positive))

theorem le_divEven (num den : Nat) : num / den ≤ divEven num den := by
  unfold divEven
  simp only
  split
  · exact Nat.le_refl _
  · split <;> omega

/-- The whole number nearest to a ratio is at most half away from it, and less if it is odd. -/
theorem divEven_nearest (num : Nat) (positive : 0 < den) :
    2 * (divEven num den * den) ≤ 2 * num + den ∧ 2 * num ≤ 2 * (divEven num den * den) + den ∧
      (divEven num den % 2 = 1 →
        2 * (divEven num den * den) < 2 * num + den ∧
          2 * num < 2 * (divEven num den * den) + den) := by
  have parts := Nat.div_add_mod' num den
  have rest := Nat.mod_lt num positive
  have next : (num / den + 1) * den = num / den * den + den := Nat.succ_mul ..
  unfold divEven
  simp only
  split
  · omega
  · split
    · rw [next]
      omega
    · rcases Nat.mod_two_eq_zero_or_one (num / den) with even | odd
      · rw [even, Nat.add_zero]
        omega
      · rw [odd, next]
        omega

theorem midBelow_lt (positive : 0 < rank) : midBelow rank < 2 * unitsOf rank := by
  have less : unitsOf (rank - 1) < unitsOf rank := strictMono_unitsOf (by omega)
  rw [midBelow]
  omega

/-- Inside a binade, and below the first, the neighbours are a gap away. -/
theorem midBelow_add {shift places : Nat} (inside : shift = 0 ∨ binade < places)
    (some : 0 < places) (high : places ≤ 2 * binade) :
    midBelow (shift * binade + places) + 2 ^ shift = 2 * (places * 2 ^ shift) := by
  obtain ⟨fewer, rfl⟩ : ∃ fewer, places = fewer + 1 := ⟨places - 1, by omega⟩
  rw [midBelow, unitsOf_add (by omega) high, ← Nat.add_assoc, Nat.add_sub_cancel,
    unitsOf_add (by omega) (by omega)]
  ring

theorem le_midAbove {shift places : Nat} (low : shift = 0 ∨ binade ≤ places)
    (high : places ≤ 2 * binade) :
    2 * (places * 2 ^ shift) + 2 ^ shift ≤ midAbove (shift * binade + places) := by
  rw [midAbove, unitsOf_add low high]
  by_cases full : places = 2 * binade
  · -- The gap doubles here.
    have next : shift * binade + places + 1 = (shift + 1) * binade + (binade + 1) := by
      rw [full]
      ring
    rw [next, unitsOf_add (.inr (Nat.le_succ binade)) (by decide), full]
    calc
      2 * (2 * binade * 2 ^ shift) + 2 ^ shift ≤ 2 * (2 * binade * 2 ^ shift) + 2 * 2 ^ shift := by
        omega
      _ = 2 * binade * 2 ^ shift + (binade + 1) * 2 ^ (shift + 1) := by ring
  · rw [Nat.add_assoc, unitsOf_add (by omega) (by omega)]
    exact Nat.le_of_eq (by ring)

/-- The binary places that are kept of a ratio make at most as many gaps as fill two binades. -/
theorem divEven_shift_le (num den : Nat) :
    divEven num (den <<< ((num / den).log2 - 52)) ≤ 2 * binade := by
  have few := div_shift_lt num den
  have rounded := divEven_le num (den <<< ((num / den).log2 - 52))
  have double : 2 ^ 53 = 2 * binade := by decide
  omega

theorem binade_mul_le {shift : Nat} (shifted : (num / den).log2 = 52 + shift)
    (positive : 0 < den) : binade * (den <<< shift) ≤ num := by
  have places : 2 ^ (52 + shift) ≤ num / den := by
    rw [← shifted]
    apply Nat.log2_self_le
    intro zero
    rw [zero, Nat.log2_zero] at shifted
    omega
  calc
    binade * (den <<< shift) = 2 ^ (52 + shift) * den := by
      rw [Nat.shiftLeft_eq, Nat.pow_add]
      ring
    _ ≤ num := (Nat.le_div_iff_mul_le positive).mp places

theorem mul_shiftLeft (places den shift : Nat) :
    places * (den <<< shift) = places * 2 ^ shift * den := by
  rw [Nat.shiftLeft_eq]
  ring

theorem nearest_nearestRank (num : Nat) (positive : 0 < den) :
    Nearest (nearestRank num den) num den := by
  have high := divEven_shift_le num den
  rw [nearestRank]
  generalize shifted : (num / den).log2 - 52 = shift at high ⊢
  have gap : den <<< shift = 2 ^ shift * den := by rw [Nat.shiftLeft_eq, Nat.mul_comm]
  have gap_positive : 0 < den <<< shift := gap ▸ Nat.mul_pos (Nat.pow_pos (by decide)) positive
  have full : shift = 0 ∨ binade * (den <<< shift) ≤ num := by
    rcases Nat.eq_zero_or_pos shift with zero | some
    · exact .inl zero
    · exact .inr (binade_mul_le (by omega) positive)
  have wide : shift = 0 ∨ binade ≤ divEven num (den <<< shift) := by
    rcases full with zero | full
    · exact .inl zero
    · exact .inr (Nat.le_trans ((Nat.le_div_iff_mul_le gap_positive).mpr full) (le_divEven ..))
  obtain ⟨lower, upper, strict⟩ := divEven_nearest num gap_positive
  generalize divEven num (den <<< shift) = places at high wide lower upper strict ⊢
  have parity : (shift * binade + places) % 2 = places % 2 := by
    simp only [binade]
    omega
  have above_far := Nat.mul_le_mul_right den (le_midAbove wide high)
  rw [Nat.add_mul, Nat.mul_assoc, ← mul_shiftLeft, ← gap] at above_far
  by_cases inside : 0 < places ∧ (shift = 0 ∨ binade < places)
  · have below_near := congrArg (· * den) (midBelow_add inside.2 inside.1 high)
    simp only [Nat.add_mul, Nat.mul_assoc 2] at below_near
    rw [← mul_shiftLeft, ← gap] at below_near
    refine ⟨by omega, by omega, fun odd => ?_⟩
    have := strict (parity ▸ odd)
    omega
  · -- The rank is zero, or it begins a binade, and below it the gap is but half as wide.
    have edge : shift = 0 ∧ places = 0 ∨ places = binade ∧ binade * (den <<< shift) ≤ num := by
      omega
    rcases edge with ⟨rfl, rfl⟩ | ⟨begins, full⟩
    · have none_below : midBelow (0 * binade + 0) * den = 0 := by
        rw [show midBelow (0 * binade + 0) = 0 by decide, Nat.zero_mul]
      exact ⟨by omega, by omega, fun odd => by omega⟩
    · have nonzero : 0 < shift * binade + places := by
        simp only [binade] at begins ⊢
        omega
      have below_near := Nat.mul_lt_mul_of_pos_right (midBelow_lt nonzero) positive
      rw [unitsOf_add wide high, Nat.mul_assoc, ← mul_shiftLeft] at below_near
      rw [← begins] at full
      refine ⟨by omega, by omega, fun odd => ?_⟩
      have := strict (parity ▸ odd)
      omega

theorem Nearest.congr {num' den' : Nat} (nearest : Nearest rank num den) (positive : 0 < den)
    (positive' : 0 < den') (same : num * den' = num' * den) : Nearest rank num' den' := by
  have scale (bound : Nat) : bound * den' * den = bound * den * den' := Nat.mul_right_comm ..
  have ratio : 2 * num' * den = 2 * num * den' := by
    rw [Nat.mul_assoc, ← same, Nat.mul_assoc]
  refine ⟨?_, ?_, fun odd => ⟨?_, ?_⟩⟩
  · apply Nat.le_of_mul_le_mul_right _ positive
    rw [scale, ratio]
    exact Nat.mul_le_mul_right den' nearest.low
  · apply Nat.le_of_mul_le_mul_right _ positive
    rw [scale, ratio]
    exact Nat.mul_le_mul_right den' nearest.high
  · apply Nat.lt_of_mul_lt_mul_right (a := den)
    rw [scale, ratio]
    exact Nat.mul_lt_mul_of_pos_right (nearest.odd odd).1 positive'
  · apply Nat.lt_of_mul_lt_mul_right (a := den)
    rw [scale, ratio]
    exact Nat.mul_lt_mul_of_pos_right (nearest.odd odd).2 positive'

theorem nearest_unitsOf (rank : Nat) (positive : 0 < den) :
    Nearest rank (unitsOf rank * den) den := by
  have next : 2 * unitsOf rank < midAbove rank := by
    have more : unitsOf rank < unitsOf (rank + 1) := strictMono_unitsOf (Nat.lt_succ_self rank)
    rw [midAbove]
    omega
  have upper := Nat.mul_lt_mul_of_pos_right next positive
  rw [Nat.mul_assoc] at upper
  rcases Nat.eq_zero_or_pos rank with rfl | nonzero
  · have none_below : midBelow 0 * den = 0 := by rw [show midBelow 0 = 0 by decide, Nat.zero_mul]
    exact ⟨by omega, Nat.le_of_lt upper, fun odd => by omega⟩
  · have lower := Nat.mul_lt_mul_of_pos_right (midBelow_lt nonzero) positive
    rw [Nat.mul_assoc] at lower
    exact ⟨Nat.le_of_lt lower, Nat.le_of_lt upper, fun _ => ⟨lower, upper⟩⟩

end Binary64

namespace Decimal

open Binary64 (Nearest)

variable {d : Decimal} {rank : Nat}

def RoundsTo (d : Decimal) (rank : Nat) : Prop := Nearest rank d.numerator d.denominator

theorem numerator_eq (d : Decimal) :
    d.numerator = (d.digits * 10 ^ d.exponent.toNat) <<< 1074 := rfl

theorem denominator_eq (d : Decimal) : d.denominator = 10 ^ (-d.exponent).toNat := rfl

theorem denominator_pos (d : Decimal) : 0 < d.denominator := by
  rw [denominator_eq]
  exact Nat.pow_pos (by decide)

theorem shiftLeft_mul (n shift factor : Nat) : (n <<< shift) * factor = (n * factor) <<< shift := by
  rw [Nat.shiftLeft_eq, Nat.shiftLeft_eq]
  ring

/-- Zeros at the end, taken back by the exponent, change nothing. -/
theorem RoundsTo.append_zeros (rounds : d.RoundsTo rank) (zeros : Nat) :
    RoundsTo ⟨d.digits * 10 ^ zeros, d.exponent - zeros⟩ rank := by
  apply Nearest.congr rounds (denominator_pos d) (denominator_pos _)
  rw [numerator_eq, numerator_eq, denominator_eq, denominator_eq, shiftLeft_mul, shiftLeft_mul]
  congr 1
  have exponents : d.exponent.toNat + (-(d.exponent - zeros)).toNat =
      zeros + (d.exponent - zeros).toNat + (-d.exponent).toNat := by omega
  rw [Nat.mul_assoc, ← Nat.pow_add, exponents, Nat.pow_add, Nat.pow_add]
  ring

/-- The exact value of a magnitude has as many places after the point as the unit. -/
theorem roundsTo_exact (rank : Nat) :
    RoundsTo ⟨Binary64.unitsOf rank * Nat.pow 5 1074, -1074⟩ rank := by
  have upper : (-1074 : Int).toNat = 0 := rfl
  have lower : (-(-1074) : Int).toNat = 1074 := rfl
  rw [RoundsTo, numerator_eq, denominator_eq]
  simp only [upper, lower]
  generalize 1074 = places
  rw [Nat.shiftLeft_eq, Nat.pow_zero, Nat.mul_one, Nat.mul_assoc, Nat.pow_eq, ← Nat.mul_pow]
  exact Binary64.nearest_unitsOf rank (Nat.pow_pos (by decide))

end Decimal

namespace Binary64

variable {rank : Nat} {d : Decimal}

theorem roundsTo_of_onGrid? {exponent : Int} (hit : onGrid? rank exponent = some d) :
    d.RoundsTo rank := by
  rw [onGrid?] at hit
  have found := List.find?_some hit
  exact rounds_iff.mp found

theorem roundsTo_shortestFrom (rank grids : Nat) (exponent : Int) :
    (shortestFrom rank grids exponent).RoundsTo rank := by
  induction grids generalizing exponent with
  | zero => exact Decimal.roundsTo_exact rank
  | succ grids ih =>
      rw [shortestFrom]
      cases hit : onGrid? rank exponent with
      | none => exact ih (exponent - 1)
      | some d => exact roundsTo_of_onGrid? hit

theorem roundsTo_shortest (x : Binary64) : x.shortest.RoundsTo x.rank :=
  roundsTo_shortestFrom ..

theorem two_pow_le_ten_pow (n : Nat) : 2 ^ (3 * n) ≤ 10 ^ n := by
  rw [Nat.pow_mul]
  exact Nat.pow_le_pow_left (by decide) n

/-- All midpoints around finite magnitudes lie in the units of the largest binade. -/
theorem midAbove_le (finite : rank < 2047 * binade) : midAbove rank ≤ 2 ^ 2099 := by
  have top (shift : Nat) : unitsOf ((shift + 2) * binade) = 2 ^ (shift + 53) := by
    have double : 2 * binade = 2 ^ 53 := by decide
    rw [Nat.add_mul, unitsOf_add (.inr (by decide)) (Nat.le_refl _), double, ← Nat.pow_add,
      Nat.add_comm]
  have here : unitsOf rank ≤ 2 ^ (2045 + 53) := top 2045 ▸ strictMono_unitsOf.monotone (by omega)
  have next : unitsOf (rank + 1) ≤ 2 ^ (2045 + 53) :=
    top 2045 ▸ strictMono_unitsOf.monotone (by omega)
  rw [midAbove]
  omega

theorem exponent_le_of_le {digits exponent places bound : Nat} (some : 0 < digits)
    (le : (digits * 10 ^ exponent) <<< places ≤ 2 ^ bound) : 3 * exponent + places ≤ bound := by
  rw [Nat.shiftLeft_eq] at le
  apply (Nat.pow_le_pow_iff_right (show 1 < 2 by decide)).mp
  calc
    2 ^ (3 * exponent + places) = 2 ^ (3 * exponent) * 2 ^ places := Nat.pow_add ..
    _ ≤ digits * 10 ^ exponent * 2 ^ places := by
      apply Nat.mul_le_mul_right
      exact Nat.le_trans (two_pow_le_ten_pow exponent) (Nat.le_mul_of_pos_left _ some)
    _ ≤ 2 ^ bound := le

theorem lt_of_ten_pow_le {digits n places : Nat} (le : 10 ^ n ≤ 2 * (digits <<< places)) :
    3 * n < digits.log2 + places + 2 := by
  rw [Nat.shiftLeft_eq] at le
  apply (Nat.pow_lt_pow_iff_right (show 1 < 2 by decide)).mp
  calc
    2 ^ (3 * n) ≤ 10 ^ n := two_pow_le_ten_pow n
    _ ≤ 2 * (digits * 2 ^ places) := le
    _ < 2 * (2 ^ (digits.log2 + 1) * 2 ^ places) := by
      apply Nat.mul_lt_mul_of_pos_left _ (by decide)
      exact Nat.mul_lt_mul_of_pos_right Nat.lt_log2_self (Nat.pow_pos (by decide))
    _ = 2 ^ (digits.log2 + places + 2) := by ring

theorem midBelow_pos (nonzero : rank ≠ 0) : 0 < midBelow rank := by
  have more : unitsOf (rank - 1) < unitsOf rank := strictMono_unitsOf (by omega)
  rw [midBelow]
  omega

theorem digits_ne_zero (rounds : d.RoundsTo rank) (nonzero : rank ≠ 0) : d.digits ≠ 0 := by
  intro none
  have low := rounds.low
  have some_below := Nat.mul_pos (midBelow_pos nonzero) d.denominator_pos
  rw [Decimal.numerator_eq, none, Nat.zero_mul, Nat.zero_shiftLeft] at low
  omega

/-- A decimal that rounds to the magnitude of a number is read as the number. -/
theorem ofDecimal?_of_roundsTo {x : Binary64} (rounds : d.RoundsTo x.rank) (nonzero : x.rank ≠ 0) :
    ofDecimal? x.negative d = some x := by
  have low := rounds.low
  have high := rounds.high
  have some_below := Nat.mul_le_mul_right d.denominator (midBelow_pos nonzero)
  have some_digits := digits_ne_zero rounds nonzero
  have not_large : ¬ 400 < d.exponent := by
    intro large
    have one : d.denominator = 1 := by
      rw [Decimal.denominator_eq, Int.toNat_eq_zero.mpr (by omega), Nat.pow_zero]
    rw [one, Nat.mul_one, Decimal.numerator_eq] at high
    have finite := midAbove_le x.finite
    have := exponent_le_of_le (Nat.pos_of_ne_zero some_digits)
      (show (d.digits * 10 ^ d.exponent.toNat) <<< 1074 ≤ 2 ^ 2099 by omega)
    omega
  have not_small : ¬ d.exponent + (d.digits.log2 + 1) < -400 := by
    intro small
    rw [Decimal.numerator_eq, Int.toNat_eq_zero.mpr (by omega), Nat.pow_zero, Nat.mul_one] at low
    have := lt_of_ten_pow_le (Nat.le_trans (Nat.one_mul _ ▸ some_below) low)
    omega
  rw [ofDecimal?, if_neg some_digits, if_neg not_large, if_neg not_small, round?]
  exact ofRank?_eq_some.mpr
    ⟨rfl, rounds.unique (nearest_nearestRank _ d.denominator_pos) d.denominator_pos⟩

end Binary64

end PartTree
