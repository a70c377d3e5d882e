import PartTree.Proofs.Canonical

/-!
Equality up to the numbers in them, of documents and of trees. Everything equals itself, and equal
trees have the same keys at each node, so that both are canonical or neither is.
-/

namespace PartTree

instance : ReflBEq Number where
  rfl := by
    intro n
    cases n with
    | int n => exact decide_eq_true rfl
    | float x => exact Binary64.beq_iff.mpr (.inl rfl)

namespace Value

mutual

theorem sameBy_self : (v : Value) → sameBy (· == ·) v v = true
  | .array items => sameItems_self items
  | .object fields => sameFields_self fields
  | .number n => BEq.refl n
  | .null => rfl
  | .bool b => BEq.refl b
  | .string s => BEq.refl s

theorem sameItems_self : (items : List Value) → sameItems (· == ·) items items = true
  | [] => rfl
  | item :: items => by rw [sameItems, sameBy_self item, sameItems_self items, Bool.and_self]

theorem sameFields_self {bound : Option String} :
    (fields : KeyMap Value bound) → sameFields (· == ·) fields fields = true
  | .nil => rfl
  | .cons key _ value rest => by
    rw [sameFields, BEq.refl key, sameBy_self value, sameFields_self rest, Bool.and_self,
      Bool.and_self]

end

instance : ReflBEq Value := ⟨sameBy_self _⟩

instance {bound : Option String} : ReflBEq (KeyMap Value bound) := ⟨sameFields_self _⟩

/-- Equal objects have the same keys. -/
theorem contains_of_sameFields {eq : Number → Number → Bool} {first second : Option String}
    {fields : KeyMap Value first} {others : KeyMap Value second}
    (same : sameFields eq fields others = true) (wanted : String) :
    fields.contains wanted = others.contains wanted := by
  induction fields generalizing second with
  | nil =>
      cases others with
      | nil => rfl
      | cons => cases same
  | cons key _ value rest ih =>
      cases others with
      | nil => cases same
      | cons other _ otherValue otherRest =>
          simp only [sameFields, Bool.and_eq_true, beq_iff_eq] at same
          obtain ⟨⟨rfl, -⟩, below⟩ := same
          have later := ih below
          rw [KeyMap.contains, KeyMap.contains, KeyMap.find?, KeyMap.find?]
          split
          · rfl
          · exact later

end Value

theorem RepeatRule.beq_eq (rule other : RepeatRule) :
    (rule == other) = (rule.times == other.times && (rule.position == other.position &&
      rule.rotation == other.rotation)) := rfl

instance : ReflBEq RepeatRule where
  rfl := by
    intro rule
    simp [RepeatRule.beq_eq]

namespace Attributes

theorem beq_eq (a b : Attributes) :
    (a == b) = (a.position == b.position && (a.rotation == b.rotation && (a.rule == b.rule &&
      (a.overflow == b.overflow && a.fields == b.fields)))) := rfl

instance : ReflBEq Attributes where
  rfl := by
    intro a
    simp [beq_eq]

variable {a b : Attributes}

theorem absent_of_beq (same : (a == b) = true) {key : String}
    (absent : a.fields.find? key = none) : b.fields.find? key = none := by
  simp only [beq_eq, Bool.and_eq_true] at same
  obtain ⟨-, -, -, -, fields_same⟩ := same
  have kept := Value.contains_of_sameFields fields_same key
  rw [KeyMap.contains, KeyMap.contains, absent] at kept
  simpa using kept.symm

theorem unstructured_of_beq (same : (a == b) = true) (unstructured : a.Unstructured) :
    b.Unstructured := by
  intro key structural
  exact absent_of_beq same (unstructured key structural)

end Attributes

namespace Definition

mutual

theorem sameBy_self : (d : Definition) → sameBy (· == ·) d d = true
  | .primitive typeName a => by rw [sameBy, BEq.refl typeName, BEq.refl a, Bool.and_self]
  | .composite none a => BEq.refl a
  | .composite (some parts) a => by rw [sameBy, sameAll_self parts, BEq.refl a, Bool.and_self]
  | .reference name a => by rw [sameBy, BEq.refl name, BEq.refl a, Bool.and_self]

theorem sameAll_self : (parts : List Definition) → sameAll (· == ·) parts parts = true
  | [] => rfl
  | part :: parts => by rw [sameAll, sameBy_self part, sameAll_self parts, Bool.and_self]

end

instance : ReflBEq Definition := ⟨sameBy_self _⟩

theorem sameAll_iff_forall₂ {eq : Attributes → Attributes → Bool} {parts others : List Definition} :
    sameAll eq parts others = true ↔
      List.Forall₂ (fun part other => sameBy eq part other = true) parts others := by
  induction parts generalizing others with
  | nil => cases others <;> simp [sameAll]
  | cons part parts ih => cases others <;> simp [sameAll, ih]

/-- Equal trees have equal nodes. -/
theorem exists_within_of_sameBy {eq : Attributes → Attributes → Bool} {c d node : Definition}
    (same : sameBy eq c d = true) (inside : Within node d) :
    ∃ other, Within other c ∧ sameBy eq other node = true := by
  induction inside generalizing c with
  | root => exact ⟨c, .root, same⟩
  | part member _ ih =>
      rcases c with _ | ⟨_ | parts, a⟩ | _
      · simp [sameBy] at same
      · simp [sameBy] at same
      · simp only [sameBy, Bool.and_eq_true] at same
        obtain ⟨part, belongs, part_same⟩ :=
          exists_left_of_forall₂ (sameAll_iff_forall₂.mp same.1) member
        obtain ⟨other, within, alike⟩ := ih part_same
        exact ⟨other, .part belongs within, alike⟩
      · simp [sameBy] at same

theorem keyed_of_sameBy {c d : Definition} (same : sameBy (· == ·) c d = true)
    (keyed : c.Keyed) : d.Keyed := by
  cases c with
  | primitive typeName a =>
      cases d with
      | primitive other b =>
          simp only [sameBy, Bool.and_eq_true, beq_iff_eq] at same
          obtain ⟨rfl, same⟩ := same
          obtain ⟨notComposite, notReference, unstructured⟩ := keyed
          exact ⟨notComposite, notReference, Attributes.unstructured_of_beq same unstructured⟩
      | _ => simp [sameBy] at same
  | composite parts a =>
      obtain ⟨unstructured, absent⟩ := keyed
      cases d with
      | composite others b =>
          have attributes_same : (a == b) = true := by
            cases parts <;> cases others <;> simp_all [sameBy]
          exact ⟨Attributes.unstructured_of_beq attributes_same unstructured,
            Attributes.absent_of_beq attributes_same absent⟩
      | _ => cases parts <;> simp [sameBy] at same
  | reference name a =>
      obtain ⟨unstructured, unnamed⟩ := keyed
      cases d with
      | reference other b =>
          simp only [sameBy, Bool.and_eq_true, beq_iff_eq] at same
          exact ⟨Attributes.unstructured_of_beq same.2 unstructured,
            Attributes.absent_of_beq same.2 unnamed⟩
      | _ => simp [sameBy] at same

theorem canonical_of_beq {c d : Definition} (same : (c == d) = true) (canonical : c.Canonical) :
    d.Canonical := by
  intro node inside
  obtain ⟨other, within, alike⟩ := exists_within_of_sameBy same inside
  exact keyed_of_sameBy alike (canonical other within)

end Definition

end PartTree
