import PartTree.Repeat
import PartTree.Proofs.Rounding

/-!
The copies that a repeat rule stands for, component by component. Each is placed from the node and
not from the copy before it. Whole numbers stay whole and exact for as long as signed words hold
what they are made of; after that they are doubles, whether or not the sum would fit a word.
-/

namespace PartTree

namespace Number

def integer? : Number → Option Int
  | .int n => some n.val
  | .float _ => none

/-- Whether base, delta, step, product and sum all fit a signed word. -/
def inSigned (base delta : Int) (step : Nat) : Bool :=
  fitsSigned base && fitsSigned delta && fitsSigned step && fitsSigned (step * delta) &&
    fitsSigned (base + step * delta)

variable {x y : Number} {base delta : Int} {step : Nat}

theorem signed?_of_integer? (whole : x.integer? = some base) :
    x.signed? = if fitsSigned base = true then some base else none := by
  cases x with
  | float x => cases whole
  | int n =>
      cases whole
      have lower := n.lower
      simp [signed?, fitsSigned, lower]

theorem integer?_whole? {n : Int} (fits : fitsSigned n = true) :
    ∃ x, whole? n = some x ∧ x.integer? = some n := by
  have range : -9223372036854775808 ≤ n ∧ n < 18446744073709551616 := by
    simp only [fitsSigned, Bool.and_eq_true, decide_eq_true_eq] at fits
    omega
  exact ⟨whole n range.1 range.2, dif_pos range, rfl⟩

theorem exists_toBinary64? (whole : x.integer? = some base) :
    ∃ double, x.toBinary64? = some double ∧ double.Within (64 + 1076) := by
  cases x with
  | float x => cases whole
  | int n =>
      have small : n.val.natAbs < 2 ^ 64 := by
        have lower := n.lower
        have upper := n.upper
        omega
      exact Binary64.exists_ofInt? small (by decide)

theorem exists_offsetDouble? (first : x.integer? = some base) (second : y.integer? = some delta)
    (small : step < 2 ^ 64) : ∃ sum, x.offsetDouble? y step = some (.float sum) := by
  have steps : (step : Int).natAbs < 2 ^ 64 := by rwa [Int.natAbs_natCast]
  rcases exists_toBinary64? first with ⟨b, b_eq, b_within⟩
  rcases exists_toBinary64? second with ⟨d, d_eq, d_within⟩
  rcases Binary64.exists_ofInt? steps (by decide) with ⟨s, s_eq, s_within⟩
  -- Units are of the size 2 ^ -1074, so a product of units has 1074 places to drop.
  have places : 64 + 1076 + (64 + 1076) = 1074 + (1153 + 53) := rfl
  rcases Binary64.exists_mul? s_within d_within places (by decide) with
    ⟨product, product_eq, product_within⟩
  have b_below : b.Within (1156 + 52) := b_within.mono (by decide)
  rcases Binary64.exists_add? b_below product_within (by decide) with ⟨sum, sum_eq⟩
  refine ⟨sum, ?_⟩
  simp only [offsetDouble?, Option.bind_eq_bind, Option.bind_eq_some_iff]
  exact ⟨s, s_eq, d, d_eq, product, product_eq, b, b_eq, sum, sum_eq, rfl⟩

theorem offsetWhole?_of_integer? (first : x.integer? = some base)
    (second : y.integer? = some delta) :
    x.offsetWhole? y step =
      if inSigned base delta step = true then whole? (base + step * delta) else none := by
  rw [offsetWhole?, signed?_of_integer? first, signed?_of_integer? second, inSigned,
    Option.bind_eq_bind]
  by_cases base_fits : fitsSigned base = true
  · rw [if_pos base_fits, base_fits, Option.bind_some]
    by_cases delta_fits : fitsSigned delta = true
    · rw [if_pos delta_fits, delta_fits, Option.bind_some, Int.mul_comm delta, Bool.true_and,
        Bool.true_and]
    · simp [delta_fits]
  · simp [base_fits]

/-- A component that is whole stays whole exactly as long as signed words hold what it is made of;
then it is the exact sum. -/
theorem integer?_offset (first : x.integer? = some base) (second : y.integer? = some delta)
    (small : step < 2 ^ 64) :
    (x.offset y step).integer? =
      if step = 0 ∨ inSigned base delta step = true then some (base + step * delta) else none := by
  by_cases still : step = 0
  · rw [offset, if_pos still, first, still]
    simp
  · rw [offset, if_neg still, offsetWhole?_of_integer? first second]
    by_cases fits : inSigned base delta step = true
    · have sum_fits : fitsSigned (base + step * delta) = true := by
        simp only [inSigned, Bool.and_eq_true] at fits
        exact fits.2
      rcases integer?_whole? sum_fits with ⟨sum, sum_eq, whole⟩
      rw [if_pos fits, sum_eq, if_pos (.inr fits)]
      exact whole
    · rcases exists_offsetDouble? first second small with ⟨sum, sum_eq⟩
      rw [if_neg fits, sum_eq, if_neg (not_or.mpr ⟨still, fits⟩)]
      rfl

end Number

namespace Vec

def integerAt? (v : Vec) (i : Nat) : Option Int := v[i]?.bind Number.integer?

variable {v offsets : Vec} {delta : Option Vec} {i step : Nat} {base change : Int}

theorem length_offset (v : Vec) (delta : Option Vec) (step : Nat) :
    (v.offset delta step).length = v.length := by
  cases delta with
  | none => rfl
  | some offsets =>
      rw [offset]
      split
      · rename_i lengths
        rw [List.length_zipWith, ← lengths, Nat.min_self]
      · rfl

theorem offset_zero (v : Vec) (delta : Option Vec) : v.offset delta 0 = v := by
  cases delta with
  | none => rfl
  | some offsets =>
      apply List.ext_getElem
      · exact length_offset v (some offsets) 0
      · intro i _ _
        simp only [offset]
        split
        · rw [List.getElem_zipWith, Number.offset, if_pos rfl]
        · rfl

theorem offset_of_lengths_ne (lengths : ∀ offsets, delta = some offsets →
    offsets.length ≠ v.length) (step : Nat) : v.offset delta step = v := by
  cases delta with
  | none => rfl
  | some offsets => exact if_neg (lengths offsets rfl).symm

theorem integerAt?_offset (lengths : offsets.length = v.length)
    (first : v.integerAt? i = some base) (second : offsets.integerAt? i = some change)
    (small : step < 2 ^ 64) :
    i < (v.offset (some offsets) step).length ∧
      (v.offset (some offsets) step).integerAt? i =
        if step = 0 ∨ Number.inSigned base change step = true then some (base + step * change)
        else none := by
  rcases Option.bind_eq_some_iff.mp first with ⟨x, x_at, x_whole⟩
  rcases Option.bind_eq_some_iff.mp second with ⟨y, y_at, y_whole⟩
  have moved : (v.offset (some offsets) step)[i]? = some (x.offset y step) := by
    simp only [offset, if_pos lengths.symm, List.getElem?_zipWith, x_at, y_at]
  constructor
  · exact (List.getElem?_eq_some_iff.mp moved).1
  · rw [integerAt?, moved, Option.bind_some]
    exact Number.integer?_offset x_whole y_whole small

/-- What is whole is moved to what is whole, and exactly so, just while signed words hold it. The
first copy always has it. -/
def WholeWhileSigned (base : Vec) (delta : Option Vec) (times : Nat) (moved : Nat → Vec) : Prop :=
  ∀ offsets, delta = some offsets → offsets.length = base.length →
    ∀ j < times, ∀ i b o, base.integerAt? i = some b → offsets.integerAt? i = some o →
      i < (moved j).length ∧ (moved j).integerAt? i =
        if j = 0 ∨ Number.inSigned b o j = true then some (b + j * o) else none

theorem wholeWhileSigned_offset (v : Vec) (delta : Option Vec) {times : Nat}
    (bound : times ≤ 2 ^ 64) : v.WholeWhileSigned delta times (v.offset delta) := by
  intro offsets same lengths j inside i b o first second
  rw [same]
  exact integerAt?_offset lengths first second (by omega)

/-- How a vector moves from copy to copy: the first has it as it is, and so have all if there is no
delta of its length; what is whole moves by exactly the delta while signed words hold it. -/
structure Advances (base : Vec) (delta : Option Vec) (times : Nat) (moved : Nat → Vec) : Prop where
  first : moved 0 = base
  length_eq : ∀ j < times, (moved j).length = base.length
  unmoved : (∀ offsets, delta = some offsets → offsets.length ≠ base.length) →
    ∀ j < times, moved j = base
  exact : ∀ offsets, delta = some offsets → offsets.length = base.length →
    ∀ j < times, ∀ i b o, base.integerAt? i = some b → offsets.integerAt? i = some o →
      Number.inSigned b o j = true → (moved j).integerAt? i = some (b + j * o)
  steady : ∀ offsets, delta = some offsets → offsets.length = base.length →
    ∀ j, j + 1 < times → ∀ i b o, base.integerAt? i = some b → offsets.integerAt? i = some o →
      Number.inSigned b o j = true → Number.inSigned b o (j + 1) = true →
      ∃ here next, (moved j).integerAt? i = some here ∧
        (moved (j + 1)).integerAt? i = some next ∧ next = here + o

theorem advances_offset (v : Vec) (delta : Option Vec) {times : Nat} (bound : times ≤ 2 ^ 64) :
    v.Advances delta times (v.offset delta) := by
  have exact : ∀ offsets, delta = some offsets → offsets.length = v.length →
      ∀ j < times, ∀ i b o, v.integerAt? i = some b → offsets.integerAt? i = some o →
        Number.inSigned b o j = true → (v.offset delta j).integerAt? i = some (b + j * o) := by
    intro offsets same lengths j inside i b o first second fits
    have whole := wholeWhileSigned_offset v delta bound offsets same lengths j inside i b o first
      second
    rw [whole.2, if_pos (.inr fits)]
  refine ⟨offset_zero v delta, ?_, ?_, exact, ?_⟩
  · intro j _
    exact length_offset v delta j
  · intro lengths j _
    exact offset_of_lengths_ne lengths j
  · intro offsets same lengths j inside i b o first second fits fits_next
    refine ⟨b + j * o, b + (j + 1 : Nat) * o,
      exact offsets same lengths j (by omega) i b o first second fits,
      exact offsets same lengths (j + 1) inside i b o first second fits_next, ?_⟩
    rw [Int.natCast_succ, Int.add_mul, Int.one_mul, Int.add_assoc]

end Vec

namespace Definition

/-- The node without its rule, at another place. -/
def placed (d : Definition) (position rotation : Vec) : Definition :=
  d.mapAttributes fun a =>
    { a with position := some position, rotation := some rotation, rule := none }

/-- A plain composite of copies of a node, so many and in order, each at the place of its number. -/
def RowOf (d : Definition) (times : Nat) (position rotation : Nat → Vec) (row : Definition) :
    Prop :=
  ∃ parts, row = .composite (some parts) ⟨none, none, none, none, .nil⟩ ∧ parts.length = times ∧
    ∀ j < times, parts[j]? = some (d.placed (position j) (rotation j))

theorem placed_inj {d : Definition} {p q r s : Vec} (same : d.placed p r = d.placed q s) :
    p = q ∧ r = s := by
  cases d <;> simpa [placed, mapAttributes] using same

theorem RowOf.places {d row : Definition} {times : Nat} {position rotation : Nat → Vec}
    (copies : d.RowOf times position rotation row) {j : Nat} (inside : j < times) {p r : Vec}
    (copy : row.parts?.bind (·[j]?) = some (d.placed p r)) :
    position j = p ∧ rotation j = r := by
  rcases copies with ⟨parts, rfl, -, each⟩
  have same : some (d.placed (position j) (rotation j)) = some (d.placed p r) :=
    (each j inside).symm.trans copy
  exact placed_inj (Option.some.inj same)

theorem rowOf_expandRepeat {d : Definition} {rule : RepeatRule}
    (ruled : d.attributes.rule = some rule) :
    d.RowOf rule.times.toNat (Vec.offset (d.attributes.position.getD zeroVec) rule.position)
      (Vec.offset (d.attributes.rotation.getD zeroVec) rule.rotation) d.expandRepeat := by
  refine ⟨rule.copies d, expandRepeat_of_rule ruled, ?_, ?_⟩
  · rw [RepeatRule.copies, List.length_map, List.length_range]
  · intro j inside
    rw [RepeatRule.copies, List.getElem?_map, List.getElem?_range inside, Option.map_some]
    cases d <;> rfl

/-- Expanding makes a plain composite of exactly as many copies as the rule says, in order, each of
them the node without its rule at its own place. -/
theorem expandRepeat_exact (d : Definition) :
    (d.attributes.rule = none → d.expandRepeat = d) ∧
    ∀ rule, d.attributes.rule = some rule →
      ∃ position rotation, d.RowOf rule.times.toNat position rotation d.expandRepeat ∧
        Vec.Advances (d.attributes.position.getD zeroVec) rule.position rule.times.toNat
          position ∧
        Vec.Advances (d.attributes.rotation.getD zeroVec) rule.rotation rule.times.toNat
          rotation := by
  constructor
  · exact expandRepeat_of_no_rule
  · intro rule ruled
    have bound : rule.times.toNat ≤ 2 ^ 64 := Nat.le_of_lt rule.times.toNat_lt
    exact ⟨_, _, rowOf_expandRepeat ruled, Vec.advances_offset _ _ bound,
      Vec.advances_offset _ _ bound⟩

def crateAttributes : Attributes where
  position := some [.ofUInt64 1, .float (.zero true), .ofUInt64 3]
  fields := KeyMap.ofList [("label", .string "fragile")]

def crateRule : RepeatRule where
  times := 3
  position := some [.ofUInt64 10, .ofUInt64 0, .ofUInt64 5]
  rotation := some [.ofUInt64 0, .ofUInt64 90]

def crate : Definition := .primitive "box" crateAttributes

def crateRow : Definition := .primitive "box" { crateAttributes with rule := some crateRule }

theorem crateRow_expandRepeat_exact :
    (crate.attributes.rule = none ∧ crate.expandRepeat = crate) ∧
    crateRow.attributes.rule = some crateRule ∧ ∃ position rotation,
      crateRow.RowOf crateRule.times.toNat position rotation crateRow.expandRepeat ∧
      Vec.Advances (crateRow.attributes.position.getD zeroVec) crateRule.position
        crateRule.times.toNat position ∧
      Vec.Advances (crateRow.attributes.rotation.getD zeroVec) crateRule.rotation
        crateRule.times.toNat rotation ∧
      (position 1 = [.ofUInt64 11, .float (.zero false), .ofUInt64 8] ∧ rotation 1 = zeroVec) ∧
      position 2 = [.ofUInt64 21, .float (.zero false), .ofUInt64 13] ∧ rotation 2 = zeroVec := by
  obtain ⟨position, rotation, copies, moves, turns⟩ := (expandRepeat_exact crateRow).2 crateRule rfl
  refine ⟨⟨rfl, (expandRepeat_exact crate).1 rfl⟩, rfl, position, rotation, copies, moves, turns,
    ?_, ?_⟩
  · exact copies.places (by decide) (by decide +kernel)
  · exact copies.places (by decide) (by decide +kernel)

/-- In the copies of a node, what is whole stays whole and exact while signed words hold base,
delta, number, product and sum, and becomes a double in every other copy. -/
theorem expandRepeat_whole_iff_signed (d : Definition) (rule : RepeatRule)
    (ruled : d.attributes.rule = some rule) :
    ∃ position rotation, d.RowOf rule.times.toNat position rotation d.expandRepeat ∧
      Vec.WholeWhileSigned (d.attributes.position.getD zeroVec) rule.position rule.times.toNat
        position ∧
      Vec.WholeWhileSigned (d.attributes.rotation.getD zeroVec) rule.rotation rule.times.toNat
        rotation := by
  have bound : rule.times.toNat ≤ 2 ^ 64 := Nat.le_of_lt rule.times.toNat_lt
  exact ⟨_, _, rowOf_expandRepeat ruled, Vec.wholeWhileSigned_offset _ _ bound,
    Vec.wholeWhileSigned_offset _ _ bound⟩

/-- The double `2 ^ 63`, next to the largest signed word. -/
def beyond : Number := .float ⟨false, 1086 * binade, by decide⟩

def brinkRule : RepeatRule where
  times := 3
  position := some [.ofUInt64 2, .ofUInt64 0]

def brinkRow : Definition :=
  .primitive "box" {
    position := some [.ofUInt64 9223372036854775805, .ofUInt64 0]
    rule := some brinkRule }

theorem brinkRow_whole_iff_signed :
    brinkRow.attributes.rule = some brinkRule ∧ ∃ position rotation,
      brinkRow.RowOf brinkRule.times.toNat position rotation brinkRow.expandRepeat ∧
      Vec.WholeWhileSigned (brinkRow.attributes.position.getD zeroVec) brinkRule.position
        brinkRule.times.toNat position ∧
      Vec.WholeWhileSigned (brinkRow.attributes.rotation.getD zeroVec) brinkRule.rotation
        brinkRule.times.toNat rotation ∧
      (position 1 = [.ofUInt64 9223372036854775807, .ofUInt64 0] ∧ rotation 1 = zeroVec) ∧
      position 2 = [beyond, .ofUInt64 0] ∧ rotation 2 = zeroVec := by
  obtain ⟨position, rotation, copies, moves, turns⟩ :=
    expandRepeat_whole_iff_signed brinkRow brinkRule rfl
  refine ⟨rfl, position, rotation, copies, moves, turns, ?_, ?_⟩
  · exact copies.places (by decide) (by decide +kernel)
  · exact copies.places (by decide) (by decide +kernel)

def towerPosition : Vec := [.ofUInt64 9223372036854775809, .ofUInt64 0, .ofUInt64 0]

def towerDelta : Vec := [.ofUInt64 1, .ofUInt64 0, .ofUInt64 0]

def towerRow : Definition :=
  .primitive "box" {
    position := some towerPosition
    rule := some { times := 2, position := some towerDelta } }

theorem towerRow_copy_not_whole :
    towerPosition.integerAt? 0 = some 9223372036854775809 ∧ towerDelta.integerAt? 0 = some 1 ∧
      Number.whole? (9223372036854775809 + (1 : Nat) * 1) ≠ none ∧
      ∃ parts part position component, towerRow.expandRepeat.parts? = some parts ∧
        parts[1]? = some part ∧ part.attributes.position = some position ∧
        position[0]? = some component ∧ component.integer? = none := by
  refine ⟨by decide +kernel, by decide +kernel, by decide +kernel, ?_⟩
  exact ⟨_, _, _, _, rfl, rfl, rfl, rfl, by decide +kernel⟩

end Definition

end PartTree
