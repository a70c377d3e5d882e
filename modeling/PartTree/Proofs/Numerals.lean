import PartTree.Json.Numeral
import PartTree.Proofs.Nearest

/-!
The text of a number is read as the number. Each number is written as a numeral, whose text can be
taken apart again in one way only; a whole number is its digits, and the numeral of a double has the
value of its shortest decimal.
-/

namespace PartTree.Number

def continues (c : Char) : Bool := c.isDigit || c == '.' || c == 'e' || c == 'E'

/-- Whether a numeral before the text ends there. -/
def Ends (text : List Char) : Prop := ∀ c ∈ text.head?, continues c = false

theorem ends_nil : Ends [] := nofun

def NoDigitFirst (text : List Char) : Prop := ∀ c ∈ text.head?, c.isDigit = false

theorem Ends.noDigitFirst {text : List Char} (ends : Ends text) : NoDigitFirst text := by
  intro c first
  have stops := ends c first
  simp only [continues, Bool.or_eq_false_iff] at stops
  exact stops.1.1.1

/-- Digits, and at least one of them. -/
structure Digits (text : List Char) : Prop where
  each : ∀ c ∈ text, c.isDigit = true
  some : text ≠ []

theorem digits_zero : Digits ['0'] where
  each := by simp
  some := List.cons_ne_nil _ _

theorem zeros_isDigit {n : Nat} : ∀ c ∈ List.replicate n '0', c.isDigit = true := by
  intro c member
  rw [List.eq_of_mem_replicate member]
  rfl

theorem Digits.append {text more : List Char} (run : Digits text)
    (each : ∀ c ∈ more, c.isDigit = true) : Digits (text ++ more) where
  each := fun c member => (List.mem_append.mp member).elim (run.each c) (each c)
  some := List.append_ne_nil_of_left_ne_nil run.some more

theorem Digits.prepend {text more : List Char} (run : Digits text)
    (each : ∀ c ∈ more, c.isDigit = true) : Digits (more ++ text) where
  each := fun c member => (List.mem_append.mp member).elim (each c) (run.each c)
  some := List.append_ne_nil_of_right_ne_nil more run.some

theorem Digits.take {text : List Char} {n : Nat} (run : Digits text) (positive : 0 < n) :
    Digits (text.take n) where
  each := fun c member => run.each c (List.mem_of_mem_take member)
  some := by
    rw [ne_eq, List.take_eq_nil_iff, not_or]
    exact ⟨Nat.ne_of_gt positive, run.some⟩

theorem Digits.drop {text : List Char} {n : Nat} (run : Digits text) (inside : n < text.length) :
    Digits (text.drop n) where
  each := fun c member => run.each c (List.mem_of_mem_drop member)
  some := by
    rw [ne_eq, List.drop_eq_nil_iff]
    exact Nat.not_le.mpr inside

theorem Digits.head?_append {text : List Char} (run : Digits text) (more : List Char) :
    (text ++ more).head? = text.head? := by
  cases text with
  | nil => exact absurd rfl run.some
  | cons c text => rfl

theorem digits_toDigits (n : Nat) : Digits (Nat.toDigits 10 n) where
  each := fun _ => Nat.isDigit_of_mem_toDigits (by decide) (by decide)
  some := Nat.toDigits_ne_nil

theorem digitsOf_append {digits rest : List Char} (run : Digits digits) (stop : NoDigitFirst rest) :
    digitsOf (digits ++ rest) = some (digits, rest) := by
  have none_taken : rest.takeWhile Char.isDigit = [] ∧ rest.dropWhile Char.isDigit = rest := by
    cases rest with
    | nil => exact ⟨rfl, rfl⟩
    | cons c rest =>
        have no_digit := stop c rfl
        simp [no_digit]
  rw [digitsOf, List.takeWhile_append_of_pos run.each, List.dropWhile_append_of_pos run.each,
    none_taken.1, none_taken.2, List.append_nil]
  simp [run.some]

namespace Numeral

/-- The text of a numeral. -/
def fractionChars : Option (List Char) → List Char
  | none => []
  | some places => '.' :: places

def exponentChars : Option Int → List Char
  | none => []
  | some exponent => 'e' :: (if exponent < 0 then '-' else '+') :: Nat.toDigits 10 exponent.natAbs

def chars (n : Numeral) : List Char :=
  signed n.negative (n.whole ++ fractionChars n.fraction ++ exponentChars n.exponent)

/-- Whether a numeral can be read: a leading zero stands alone before the point. -/
structure WellFormed (n : Numeral) : Prop where
  whole : Digits n.whole
  zero : n.whole.head? = some '0' → n.whole.length = 1
  fraction : ∀ places ∈ n.fraction, Digits places

end Numeral

theorem readFraction_append {fraction : Option (List Char)} {rest : List Char}
    (digits : ∀ places ∈ fraction, Digits places) (stop : NoDigitFirst rest)
    (noPoint : ∀ c ∈ rest.head?, c ≠ '.') :
    readFraction (Numeral.fractionChars fraction ++ rest) = some (fraction, rest) := by
  cases fraction with
  | none =>
      rw [Numeral.fractionChars, List.nil_append, readFraction]
      intro text point
      exact noPoint '.' (point ▸ rfl) rfl
  | some places =>
      rw [Numeral.fractionChars, List.cons_append, readFraction,
        digitsOf_append (digits places rfl) stop, Option.map_some]

theorem readExponent_append {exponent : Option Int} {rest : List Char} (ends : Ends rest) :
    readExponent (Numeral.exponentChars exponent ++ rest) = some (exponent, rest) := by
  cases exponent with
  | none =>
      rw [Numeral.exponentChars, List.nil_append]
      cases rest with
      | nil => rfl
      | cons mark after =>
          have stops := ends mark rfl
          simp only [continues, Bool.or_eq_false_iff, beq_eq_false_iff_ne] at stops
          rw [readExponent, if_neg (by simp [stops.1.2, stops.2])]
  | some exponent =>
      have run := digitsOf_append (digits_toDigits exponent.natAbs) ends.noDigitFirst
      rw [Numeral.exponentChars, List.cons_append, List.cons_append, readExponent,
        if_pos (.inl rfl)]
      by_cases negative : exponent < 0
      · simp only [if_pos negative, readSign, run, Option.map_some, Nat.ofDigitChars_ten_toDigits,
          ↓reduceIte, Option.some.injEq, Prod.mk.injEq, and_true]
        omega
      · simp only [if_neg negative, readSign, run, Option.map_some, Nat.ofDigitChars_ten_toDigits,
          Bool.false_eq_true, ↓reduceIte, Option.some.injEq, Prod.mk.injEq, and_true]
        omega

theorem Ends.append_exponent {rest : List Char} (ends : Ends rest) (exponent : Option Int) :
    NoDigitFirst (Numeral.exponentChars exponent ++ rest) ∧
      ∀ c ∈ (Numeral.exponentChars exponent ++ rest).head?, c ≠ '.' := by
  cases exponent with
  | none =>
      refine ⟨ends.noDigitFirst, fun c first => ?_⟩
      have stops := ends c first
      simp only [continues, Bool.or_eq_false_iff, beq_eq_false_iff_ne] at stops
      exact stops.1.1.2
  | some exponent => simp [NoDigitFirst, Numeral.exponentChars]

theorem noDigitFirst_fraction (fraction : Option (List Char)) {rest : List Char}
    (stop : NoDigitFirst rest) : NoDigitFirst (Numeral.fractionChars fraction ++ rest) := by
  cases fraction with
  | none => exact stop
  | some places => simp [NoDigitFirst, Numeral.fractionChars]

theorem head?_ne_of_digits {digits : List Char} (run : Digits digits) (rest : List Char) {c : Char}
    (other : c.isDigit = false) : (digits ++ rest).head? ≠ some c := by
  cases digits with
  | nil => exact absurd rfl run.some
  | cons first digits =>
      intro same
      have digit := run.each first List.mem_cons_self
      cases same
      rw [digit] at other
      cases other

/-- The sign of a numeral is seen, and what follows it. -/
theorem head?_chars_append {n : Numeral} (rest : List Char) (formed : n.WellFormed) :
    ((n.chars ++ rest).head? == some '-') = n.negative ∧
      (if n.negative then (n.chars ++ rest).tail else n.chars ++ rest) =
        n.whole ++ (Numeral.fractionChars n.fraction ++
          (Numeral.exponentChars n.exponent ++ rest)) := by
  rw [Numeral.chars, signed]
  cases n.negative with
  | true => simp
  | false =>
      have unsigned := head?_ne_of_digits (c := '-') formed.whole
        (Numeral.fractionChars n.fraction ++ (Numeral.exponentChars n.exponent ++ rest)) rfl
      simp only [Bool.false_eq_true, ↓reduceIte, List.append_assoc]
      exact ⟨beq_false_of_ne unsigned, trivial⟩

/-- A numeral is read up to its end, which is found in one way only. -/
theorem read?_append {n : Numeral} {rest : List Char} (formed : n.WellFormed) (ends : Ends rest) :
    read? (n.chars ++ rest) = n.value?.map fun number => (number, rest) := by
  obtain ⟨stop, noPoint⟩ := ends.append_exponent n.exponent
  have run := digitsOf_append formed.whole (noDigitFirst_fraction n.fraction stop)
  have leading : ¬ (n.whole.head? = some '0' ∧ n.whole.length ≠ 1) :=
    fun wrong => wrong.2 (formed.zero wrong.1)
  obtain ⟨sign, unsigned⟩ := head?_chars_append rest formed
  simp only [read?, sign, unsigned, run, Option.bind_eq_bind, Option.bind_some, if_neg leading,
    readFraction_append formed.fraction stop noPoint, readExponent_append ends]
  exact Option.map_eq_bind.symm

theorem head?_toDigits_ne_zero {n : Nat} (nonzero : n ≠ 0) :
    (Nat.toDigits 10 n).head? ≠ some '0' := by
  induction n using Nat.base_induction 10 (by decide) with
  | single digit small =>
      rw [Nat.toDigits_of_lt_base small]
      simpa using nonzero
  | digit high low small positive ih =>
      rw [← Nat.toDigits_append_toDigits (by decide) positive small,
        (digits_toDigits high).head?_append]
      exact ih (Nat.ne_of_gt positive)

/-- The digits of a number have no leading zero, but for zero itself. -/
theorem length_of_head?_toDigits {n : Nat} (zero : (Nat.toDigits 10 n).head? = some '0') :
    (Nat.toDigits 10 n).length = 1 := by
  obtain rfl : n = 0 := by
    by_contra nonzero
    exact head?_toDigits_ne_zero nonzero zero
  rfl

namespace Numeral

/-- The numeral that a decimal is laid out as. -/
def ofDecimal (negative : Bool) (d : Decimal) : Numeral :=
  let digits := Nat.toDigits 10 d.digits
  let point := digits.length + d.exponent
  if -5 < point ∧ point ≤ 16 then
    if point ≤ 0 then
      ⟨negative, ['0'], some (List.replicate (-point).toNat '0' ++ digits), none⟩
    else if 0 ≤ d.exponent then
      ⟨negative, digits ++ List.replicate d.exponent.toNat '0', some ['0'], none⟩
    else ⟨negative, digits.take point.toNat, some (digits.drop point.toNat), none⟩
  else
    ⟨negative, digits.take 1, if (digits.drop 1).isEmpty then none else some (digits.drop 1),
      some (point - 1)⟩

variable (negative : Bool) (d : Decimal)

theorem negative_ofDecimal : (ofDecimal negative d).negative = negative := by
  unfold ofDecimal
  simp only
  split
  · split
    · rfl
    · split <;> rfl
  · rfl

theorem chars_ofDecimal : (ofDecimal negative d).chars = signed negative (layOut d) := by
  rw [chars, negative_ofDecimal]
  congr 1
  unfold ofDecimal layOut
  simp only
  split
  · split
    · simp [fractionChars, exponentChars]
    · split <;> simp [fractionChars, exponentChars]
  · have sign : ((Nat.toDigits 10 d.digits).length + d.exponent - 1 < 0) =
        ((Nat.toDigits 10 d.digits).length + d.exponent < 1) := by
      simp only [eq_iff_iff]
      omega
    simp only [exponentChars, sign]
    split <;> rfl

theorem not_integral_ofDecimal :
    ((ofDecimal negative d).fraction.isNone && (ofDecimal negative d).exponent.isNone) = false := by
  unfold ofDecimal
  simp only
  split
  · split
    · rfl
    · split <;> rfl
  · simp

theorem wellFormed_ofDecimal (nonzero : d.digits ≠ 0) : (ofDecimal negative d).WellFormed := by
  have run := digits_toDigits d.digits
  have first := head?_toDigits_ne_zero nonzero
  have some_digit := List.length_pos_iff.mpr run.some
  unfold ofDecimal
  simp only
  split
  · split
    · refine ⟨digits_zero, fun _ => rfl, ?_⟩
      intro places same
      cases same
      exact run.prepend zeros_isDigit
    · split
      · refine ⟨run.append zeros_isDigit, ?_, ?_⟩
        · intro zero
          exact absurd ((run.head?_append _).symm.trans zero) first
        · intro places same
          cases same
          exact digits_zero
      · have inside : 0 < ((Nat.toDigits 10 d.digits).length + d.exponent).toNat := by omega
        refine ⟨run.take inside, ?_, ?_⟩
        · intro zero
          rw [List.head?_take, if_neg (Nat.ne_of_gt inside)] at zero
          exact absurd zero first
        · intro places same
          cases same
          exact run.drop (by omega)
  · refine ⟨run.take Nat.one_pos, ?_, ?_⟩
    · intro _
      rw [List.length_take, Nat.min_eq_left some_digit]
    · intro places same
      split at same
      · cases same
      · cases same
        rename_i more
        rw [List.isEmpty_iff, List.drop_eq_nil_iff, Nat.not_le] at more
        exact run.drop more

/-- Laying out a decimal may append zeros to it, and changes nothing else. -/
theorem magnitude_ofDecimal : ∃ zeros : Nat,
    (ofDecimal negative d).magnitude = ⟨d.digits * 10 ^ zeros, d.exponent - zeros⟩ := by
  unfold ofDecimal
  simp only
  split
  · split
    · refine ⟨0, congrArg₂ Decimal.mk ?_ ?_⟩
      · simp [Numeral.digits, Nat.ofDigitChars_cons, Nat.ofDigitChars_append]
      · simp only [Option.getD_none, Option.getD_some, List.length_append, List.length_replicate]
        omega
    · split
      · refine ⟨d.exponent.toNat + 1, congrArg₂ Decimal.mk ?_ ?_⟩
        · simp only [Numeral.digits, Option.getD_some, List.append_assoc, Nat.ofDigitChars_append,
            Nat.ofDigitChars_ten_toDigits, Nat.ofDigitChars_replicate_zero, Nat.ofDigitChars_cons,
            Char.reduceToNat, Nat.sub_self, Nat.add_zero, Nat.ofDigitChars_nil, Nat.pow_succ]
          ring
        · simp only [Option.getD_none, Option.getD_some, List.length_singleton]
          omega
      · refine ⟨0, congrArg₂ Decimal.mk ?_ ?_⟩
        · simp [Numeral.digits, List.take_append_drop]
        · simp only [Option.getD_none, Option.getD_some, List.length_drop]
          omega
  · have places : ((if (List.drop 1 (Nat.toDigits 10 d.digits)).isEmpty then none
        else some (List.drop 1 (Nat.toDigits 10 d.digits))).getD []) =
        List.drop 1 (Nat.toDigits 10 d.digits) := by
      split
      · rename_i none_left
        exact (List.isEmpty_iff.mp none_left).symm
      · rfl
    have some_digit := List.length_pos_iff.mpr (digits_toDigits d.digits).some
    refine ⟨0, congrArg₂ Decimal.mk ?_ ?_⟩
    · simp only [Numeral.digits, places, List.take_append_drop, Nat.ofDigitChars_ten_toDigits,
        Nat.pow_zero, Nat.mul_one]
    · simp only [places, Option.getD_some, List.length_drop]
      omega

end Numeral

/-- The numeral that a number is written as. -/
def numeral : Number → Numeral
  | .int n => ⟨n.val < 0, Nat.toDigits 10 n.val.natAbs, none, none⟩
  | .float x =>
    if x.isZero then ⟨x.negative, ['0'], some ['0'], none⟩ else .ofDecimal x.negative x.shortest

theorem chars_numeral (number : Number) : number.numeral.chars = number.chars := by
  cases number with
  | int n => simp [numeral, Numeral.chars, Numeral.fractionChars, Numeral.exponentChars,
      Number.chars]
  | float x =>
      rw [numeral, Number.chars]
      split
      · rfl
      · exact Numeral.chars_ofDecimal ..

theorem rank_ne_zero {x : Binary64} (nonzero : ¬ x.isZero = true) : x.rank ≠ 0 := by
  simpa [Binary64.isZero] using nonzero

theorem wellFormed_numeral (number : Number) : number.numeral.WellFormed := by
  cases number with
  | int n => exact ⟨digits_toDigits _, length_of_head?_toDigits, nofun⟩
  | float x =>
      rw [numeral]
      split
      · refine ⟨digits_zero, fun _ => rfl, ?_⟩
        intro places same
        cases same
        exact digits_zero
      · rename_i nonzero
        exact Numeral.wellFormed_ofDecimal _ _
          (Binary64.digits_ne_zero x.roundsTo_shortest (rank_ne_zero nonzero))

theorem value?_int (n : Integer) : (numeral (.int n)).value? = some (.int n) := by
  have digits : (numeral (.int n)).digits = n.val.natAbs := by
    simp [numeral, Numeral.digits]
  have signed : (if n.val < 0 then -(n.val.natAbs : Int) else n.val.natAbs) = n.val := by
    split <;> omega
  have nonzero : (decide (n.val < 0) && n.val.natAbs == 0) = false := by
    simp only [Bool.and_eq_false_iff, decide_eq_false_iff_not, beq_eq_false_iff_ne]
    omega
  have whole : whole? n.val = some (.int n) := dif_pos ⟨n.lower, n.upper⟩
  rw [Numeral.value?, digits]
  simp only [numeral, decide_eq_true_eq, signed, nonzero, Option.isNone_none, Bool.not_false,
    Bool.and_self, ↓reduceIte, whole]

theorem value?_zero {x : Binary64} (zero : x.isZero = true) :
    (numeral (.float x)).value? = some (.float x) := by
  have same : Binary64.zero x.negative = x := by
    cases x
    cases eq_of_beq zero
    rfl
  rw [numeral, if_pos zero]
  exact congrArg (fun y => some (Number.float y)) same

theorem value?_float {x : Binary64} (nonzero : ¬ x.isZero = true) :
    (numeral (.float x)).value? = some (.float x) := by
  have rank := rank_ne_zero nonzero
  obtain ⟨zeros, magnitude⟩ := Numeral.magnitude_ofDecimal x.negative x.shortest
  have read := Binary64.ofDecimal?_of_roundsTo (x.roundsTo_shortest.append_zeros zeros) rank
  rw [numeral, if_neg nonzero, Numeral.value?, Numeral.not_integral_ofDecimal, magnitude,
    Numeral.negative_ofDecimal, read]
  rfl

theorem value?_numeral (number : Number) : number.numeral.value? = some number := by
  cases number with
  | int n => exact value?_int n
  | float x =>
      by_cases zero : x.isZero = true
      · exact value?_zero zero
      · exact value?_float zero

/-- A number is read from its text, whatever follows that cannot go on with it. -/
theorem read?_chars (number : Number) {rest : List Char} (ends : Ends rest) :
    read? (number.chars ++ rest) = some (number, rest) := by
  rw [← chars_numeral, read?_append number.wellFormed_numeral ends, value?_numeral,
    Option.map_some]

end PartTree.Number
