import PartTree.Json.Number

/-!
The text of a number: writing one, and reading the longest numeral at the start of a text.
-/

namespace PartTree.Number

/-- A decimal with at least one place after the point: positional for magnitudes from `1e-5` up to
`1e16`, and otherwise one digit before the point and a signed exponent. -/
def layOut (d : Decimal) : List Char :=
  let digits := Nat.toDigits 10 d.digits
  let point := digits.length + d.exponent
  if -5 < point ∧ point ≤ 16 then
    if point ≤ 0 then '0' :: '.' :: List.replicate (-point).toNat '0' ++ digits
    else if 0 ≤ d.exponent then digits ++ List.replicate d.exponent.toNat '0' ++ ['.', '0']
    else digits.take point.toNat ++ '.' :: digits.drop point.toNat
  else
    let fraction := digits.drop 1
    let sign := if point < 1 then '-' else '+'
    digits.take 1 ++ (if fraction.isEmpty then [] else '.' :: fraction) ++
      'e' :: sign :: Nat.toDigits 10 (point - 1).natAbs

def signed (negative : Bool) (magnitude : List Char) : List Char :=
  if negative then '-' :: magnitude else magnitude

def chars : Number → List Char
  | .int n => signed (n.val < 0) (Nat.toDigits 10 n.val.natAbs)
  | .float x => signed x.negative (if x.isZero then ['0', '.', '0'] else layOut x.shortest)

def text (number : Number) : String := String.ofList number.chars

structure Numeral where
  negative : Bool
  whole : List Char
  fraction : Option (List Char)
  exponent : Option Int

namespace Numeral

def digits (n : Numeral) : Nat := Nat.ofDigitChars 10 (n.whole ++ n.fraction.getD []) 0

def magnitude (n : Numeral) : Decimal :=
  ⟨n.digits, n.exponent.getD 0 - (n.fraction.getD []).length⟩

/-- A numeral without fraction and exponent is a whole number where the range allows; `-0` and what
is out of range is a double. A double beyond the largest is no number. -/
def value? (n : Numeral) : Option Number :=
  let integral := n.fraction.isNone && n.exponent.isNone && !(n.negative && n.digits == 0)
  let value : Int := if n.negative then -n.digits else n.digits
  match if integral then Number.whole? value else none with
  | some number => some number
  | none => (Binary64.ofDecimal? n.negative n.magnitude).map .float

end Numeral

def digitsOf (text : List Char) : Option (List Char × List Char) :=
  let digits := text.takeWhile Char.isDigit
  if digits.isEmpty then none else some (digits, text.dropWhile Char.isDigit)

def readSign : List Char → Bool × List Char
  | '-' :: rest => (true, rest)
  | '+' :: rest => (false, rest)
  | text => (false, text)

def readFraction : List Char → Option (Option (List Char) × List Char)
  | '.' :: text => (digitsOf text).map fun (digits, rest) => (some digits, rest)
  | text => some (none, text)

def readExponent (text : List Char) : Option (Option Int × List Char) :=
  match text with
  | [] => some (none, [])
  | mark :: after =>
    if mark = 'e' ∨ mark = 'E' then
      let (negative, after) := readSign after
      (digitsOf after).map fun (digits, rest) =>
        let size : Int := Nat.ofDigitChars 10 digits 0
        (some (if negative then -size else size), rest)
    else some (none, text)

/-- A leading zero stands alone before the point. -/
def read? (text : List Char) : Option (Number × List Char) := do
  let negative := text.head? == some '-'
  let (whole, rest) ← digitsOf (if negative then text.tail else text)
  if whole.head? = some '0' ∧ whole.length ≠ 1 then none
  let (fraction, rest) ← readFraction rest
  let (exponent, rest) ← readExponent rest
  let number ← Numeral.value? ⟨negative, whole, fraction, exponent⟩
  pure (number, rest)

end PartTree.Number
