import PartTree.Binary64.Decimal

/-!
The numbers of a document: whole numbers in the two 64-bit ranges, kept exactly, and doubles.
-/

namespace PartTree

/-- A whole number that a signed or an unsigned 64-bit word can hold, from `-2 ^ 63` on and below
`2 ^ 64`. -/
structure Integer where
  val : Int
  lower : -9223372036854775808 ≤ val
  upper : val < 18446744073709551616
  deriving DecidableEq

inductive Number
  | int (n : Integer)
  | float (x : Binary64)
  deriving DecidableEq

namespace Number

def whole (n : Int) (lower : -9223372036854775808 ≤ n := by decide)
    (upper : n < 18446744073709551616 := by decide) : Number :=
  .int ⟨n, lower, upper⟩

def whole? (n : Int) : Option Number :=
  if range : -9223372036854775808 ≤ n ∧ n < 18446744073709551616 then
    some (whole n range.1 range.2)
  else none

def ofUInt64 (n : UInt64) : Number :=
  whole n.toNat (by omega) (by have := n.toNat_lt; omega)

def toUInt64? : Number → Option UInt64
  | .int n => if 0 ≤ n.val then some (UInt64.ofNat n.val.toNat) else none
  | .float _ => none

def signed? : Number → Option Int
  | .int n => if n.val < 9223372036854775808 then some n.val else none
  | .float _ => none

/-- The nearest double; every whole number here has one. -/
def toBinary64? : Number → Option Binary64
  | .int n => Binary64.ofInt? n.val
  | .float x => some x

/-- Whole numbers never equal doubles, not even `1` and `1.0`. -/
instance : BEq Number where
  beq
    | .int n, .int m => n = m
    | .float x, .float y => x == y
    | _, _ => false

@[simp] theorem toUInt64?_ofUInt64 (n : UInt64) : (ofUInt64 n).toUInt64? = some n := by
  simp [ofUInt64, whole, toUInt64?]

theorem toUInt64?_eq_some_iff {number : Number} {n : UInt64} :
    number.toUInt64? = some n ↔ number = ofUInt64 n := by
  constructor
  · intro h
    cases number with
    | float x => cases h
    | int m =>
      obtain ⟨val, lower, upper⟩ := m
      simp only [toUInt64?] at h
      split at h
      · rename_i positive
        cases h
        have small : val.toNat < UInt64.size := by
          rw [UInt64.size]
          omega
        simp [ofUInt64, whole, UInt64.toNat_ofNat_of_lt' small, Int.toNat_of_nonneg positive]
      · cases h
  · rintro rfl
    exact toUInt64?_ofUInt64 n

end Number

end PartTree
