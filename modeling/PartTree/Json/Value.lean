import PartTree.Json.Number
import PartTree.KeyMap.Lemmas

/-!
Documents as data: trees of arrays and objects over scalars, the keys of an object in order.
-/

namespace PartTree

inductive Value
  | null
  | bool (b : Bool)
  | number (n : Number)
  | string (s : String)
  | array (items : List Value)
  | object (fields : KeyMap Value none)

abbrev Object := KeyMap Value none

namespace Value

instance : Inhabited Value := ⟨.null⟩

mutual

/-- A measure under which the items and the field values of a value are smaller than it. -/
def size : Value → Nat
  | .array items => 1 + sizeItems items
  | .object fields => 1 + sizeFields fields
  | _ => 1

def sizeItems : List Value → Nat
  | [] => 0
  | item :: items => 1 + item.size + sizeItems items

def sizeFields {bound : Option String} : KeyMap Value bound → Nat
  | .nil => 0
  | .cons _ _ value rest => value.size + sizeFields rest

end

mutual

/-- How deep the arrays and objects of a value nest. -/
def depth : Value → Nat
  | .array items => 1 + depthItems items
  | .object fields => 1 + depthFields fields
  | _ => 0

def depthItems : List Value → Nat
  | [] => 0
  | item :: items => max item.depth (depthItems items)

def depthFields {bound : Option String} : KeyMap Value bound → Nat
  | .nil => 0
  | .cons _ _ value rest => max value.depth (depthFields rest)

end

mutual

/-- Equality up to an equality of the numbers. -/
def sameBy (eq : Number → Number → Bool) : Value → Value → Bool
  | .null, .null => true
  | .bool a, .bool b => a == b
  | .number a, .number b => eq a b
  | .string a, .string b => a == b
  | .array a, .array b => sameItems eq a b
  | .object a, .object b => sameFields eq a b
  | _, _ => false

def sameItems (eq : Number → Number → Bool) : List Value → List Value → Bool
  | [], [] => true
  | a :: as, b :: bs => sameBy eq a b && sameItems eq as bs
  | _, _ => false

def sameFields (eq : Number → Number → Bool) {first second : Option String} :
    KeyMap Value first → KeyMap Value second → Bool
  | .nil, .nil => true
  | .cons key _ a as, .cons other _ b bs => key == other && sameBy eq a b && sameFields eq as bs
  | _, _ => false

end

/-- Equality of documents: that of the numbers in them, so that `0.0` equals `-0.0`. -/
instance : BEq Value := ⟨sameBy (· == ·)⟩

instance {bound : Option String} : BEq (KeyMap Value bound) := ⟨sameFields (· == ·)⟩

mutual

theorem sameBy_iff : (a b : Value) → (sameBy (fun x y => decide (x = y)) a b = true ↔ a = b)
  | .array a, .array b => by simpa [sameBy] using sameItems_iff a b
  | .object a, .object b => by simpa [sameBy] using sameFields_iff a b
  | .null, b => by cases b <;> simp [sameBy]
  | .bool _, b => by cases b <;> simp [sameBy]
  | .number _, b => by cases b <;> simp [sameBy]
  | .string _, b => by cases b <;> simp [sameBy]
  | .array _, .null | .array _, .bool _ | .array _, .number _ | .array _, .string _
  | .array _, .object _ | .object _, .null | .object _, .bool _ | .object _, .number _
  | .object _, .string _ | .object _, .array _ => by simp [sameBy]

theorem sameItems_iff : (as bs : List Value) →
    (sameItems (fun x y => decide (x = y)) as bs = true ↔ as = bs)
  | [], bs => by cases bs <;> simp [sameItems]
  | _ :: _, [] => by simp [sameItems]
  | a :: as, b :: bs => by simp [sameItems, sameBy_iff a b, sameItems_iff as bs]

theorem sameFields_iff {bound : Option String} : (as bs : KeyMap Value bound) →
    (sameFields (fun x y => decide (x = y)) as bs = true ↔ as = bs)
  | .nil, bs => by cases bs <;> simp [sameFields]
  | .cons .., .nil => by simp [sameFields]
  | .cons key _ a as, .cons other _ b bs => by
    simp only [sameFields, Bool.and_eq_true, beq_iff_eq, sameBy_iff a b, KeyMap.cons.injEq]
    constructor
    · rintro ⟨⟨rfl, rfl⟩, rest⟩
      exact ⟨rfl, rfl, heq_of_eq ((sameFields_iff as bs).mp rest)⟩
    · rintro ⟨rfl, rfl, rest⟩
      exact ⟨⟨rfl, rfl⟩, (sameFields_iff as bs).mpr (eq_of_heq rest)⟩

end

instance : DecidableEq Value := fun a b => decidable_of_iff _ (sameBy_iff a b)

instance {bound : Option String} : DecidableEq (KeyMap Value bound) :=
  fun a b => decidable_of_iff _ (sameFields_iff a b)

def ofInts (items : List Int)
    (range : ∀ n ∈ items, -9223372036854775808 ≤ n ∧ n < 18446744073709551616 := by decide) :
    Value :=
  .array (items.attach.map fun n => .number (.whole n.1 (range n.1 n.2).1 (range n.1 n.2).2))

def ofStrings (items : List String) : Value := .array (items.map .string)

/-- The size of the value of a key; nothing for a key that is missing. -/
def sizeUnder {bound : Option String} (key : String) (fields : KeyMap Value bound) : Nat :=
  ((fields.find? key).map size).getD 0

theorem size_le_sizeFields {bound : Option String} {fields : KeyMap Value bound} {key : String}
    {value : Value} (found : fields.find? key = some value) : value.size ≤ sizeFields fields := by
  induction fields with
  | nil => cases found
  | cons other _ head rest ih =>
    rw [KeyMap.find?] at found
    rw [sizeFields]
    split at found
    · cases found
      omega
    · have := ih found
      omega

theorem sizeUnder_le {bound : Option String} (key : String) (fields : KeyMap Value bound) :
    sizeUnder key fields ≤ sizeFields fields := by
  rw [sizeUnder]
  cases found : fields.find? key with
  | none => exact Nat.zero_le _
  | some value => exact size_le_sizeFields found

theorem sizeUnder_of_find? {bound : Option String} {key : String} {fields : KeyMap Value bound}
    {value : Value} (found : fields.find? key = some value) :
    sizeUnder key fields = value.size := by
  rw [sizeUnder, found]
  rfl

end Value

end PartTree
