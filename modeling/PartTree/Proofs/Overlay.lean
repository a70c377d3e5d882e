import PartTree.Compile
import PartTree.Proofs.Written

/-!
Laying the fields of a reference over its entry. Unless the reference brings parts of its own, the
result is the entry with other attributes at its root, and reading it again cannot fail.
-/

namespace PartTree

namespace Attributes

def layOver (upper lower : Attributes) : Attributes where
  position := upper.position.or lower.position
  rotation := upper.rotation.or lower.rotation
  rule := upper.rule.or lower.rule
  overflow := upper.overflow.or lower.overflow
  fields := upper.fields.layOver lower.fields

variable {upper lower : Attributes} {key : String}

theorem unstructured_layOver (first : upper.Unstructured) (second : lower.Unstructured) :
    (upper.layOver lower).Unstructured := by
  intro key structural
  simp [layOver, first key structural, second key structural]

theorem layOver_withField (absent : upper.fields.find? key = none) (value : Value) :
    upper.layOver (lower.withField key value) = (upper.layOver lower).withField key value := by
  have same : upper.fields.layOver (lower.fields.insert key value) =
      (upper.fields.layOver lower.fields).insert key value := by
    apply KeyMap.ext
    intro other
    by_cases here : other = key
    · simp [here, absent]
    · simp [here]
  simp [layOver, withField, same]

theorem layOver_toObject (typeName : String) (first : upper.Unstructured)
    (second : lower.Unstructured) (unnamed : upper.fields.find? "name" = none) (name : Value) :
    (((upper.withField "name" name).toObject "ref").filter
        fun key _ => key != "type" && key != "name").layOver (lower.toObject typeName) =
      (upper.layOver lower).toObject typeName := by
  apply KeyMap.ext
  intro key
  rw [KeyMap.find?_layOver, KeyMap.find?_filter_key (fun key => key != "type" && key != "name")]
  cases structural : Definition.isStructural key with
  | false =>
      rw [find?_toObject_of_not_structural structural, find?_toObject_of_not_structural structural,
        find?_toObject_of_not_structural structural]
      have notType : key ≠ "type" := by
        intro here
        rcases here with rfl
        cases structural
      by_cases here : key = "name"
      · simp [here, layOver, unnamed]
      · simp [here, notType, layOver, withField]
  | true =>
      have absent := first key structural
      have missing := second key structural
      simp only [Definition.isStructural, Bool.or_eq_true, beq_iff_eq] at structural
      rcases structural with (((rfl | rfl) | rfl) | rfl) | rfl
      · simp [toObject]
      all_goals simp [toObject, withField, layOver, absent, missing, Option.map_or]

end Attributes

namespace Definition

variable {entry : Definition} {name : String} {a : Attributes}

theorem canonical_layOver (canonical : entry.Canonical) (keyed : (reference name a).Keyed)
    (keeps : entry.typeName = "composite" → a.fields.find? "parts" = none) :
    (entry.mapAttributes a.layOver).Canonical := by
  apply canonical.mapAttributes
  have unstructured := keyed.1
  have unnamed := keyed.2
  cases entry with
  | primitive typeName b =>
      rcases canonical.here with ⟨notComposite, notReference, below⟩
      exact ⟨notComposite, notReference, Attributes.unstructured_layOver unstructured below⟩
  | composite parts b =>
      rcases canonical.here with ⟨below, absent⟩
      have partless := keeps rfl
      exact ⟨Attributes.unstructured_layOver unstructured below, by simp [Attributes.layOver, *]⟩
  | reference other b =>
      rcases canonical.here with ⟨below, absent⟩
      exact ⟨Attributes.unstructured_layOver unstructured below, by simp [Attributes.layOver, *]⟩

theorem layOver_overrides (canonical : entry.Canonical) (keyed : (reference name a).Keyed)
    (keeps : entry.typeName = "composite" → a.fields.find? "parts" = none) :
    (reference name a).overrides.layOver entry.toObject =
      (entry.mapAttributes a.layOver).toObject := by
  rw [overrides, toObject]
  have unstructured := keyed.1
  have unnamed := keyed.2
  cases entry with
  | primitive typeName b =>
      exact Attributes.layOver_toObject typeName unstructured canonical.here.2.2 unnamed _
  | reference other b =>
      have below := Attributes.unstructured_withField "name" (.string other) canonical.here.1 rfl
      have merged := Attributes.layOver_toObject "ref" unstructured below unnamed (.string name)
      rw [Attributes.layOver_withField unnamed] at merged
      exact merged
  | composite parts b =>
      cases parts with
      | none =>
          exact Attributes.layOver_toObject "composite" unstructured canonical.here.1 unnamed _
      | some parts =>
          have below := Attributes.unstructured_withField "parts" (.array (toValues parts))
            canonical.here.1 rfl
          have merged := Attributes.layOver_toObject "composite" unstructured below unnamed
            (.string name)
          rw [Attributes.layOver_withField (keeps rfl)] at merged
          exact merged

/-- Where the reference does not replace the parts of a composite, only the attributes change. -/
theorem overlay_eq (canonical : entry.Canonical) (keyed : (reference name a).Keyed)
    (keeps : entry.typeName = "composite" → a.fields.find? "parts" = none) :
    (entry.overlay (.reference name a)).result = .ok (entry.mapAttributes a.layOver) := by
  have merged := canonical_layOver canonical keyed keeps
  calc
    (entry.overlay (.reference name a)).result =
        (read (.object ((reference name a).overrides.layOver entry.toObject))).result := rfl
    _ = (read (entry.mapAttributes a.layOver).toValue).result := by
      rw [layOver_overrides canonical keyed keeps]
      rfl
    _ = .ok (entry.mapAttributes a.layOver) := read_toValue merged

/-- A reference to a reference is one to what that refers to. -/
theorem overlay_reference {inner : String} {b : Attributes}
    (canonical : (reference inner b).Canonical) (keyed : (reference name a).Keyed) :
    ((reference inner b).overlay (.reference name a)).result =
      .ok (.reference inner (a.layOver b)) :=
  overlay_eq canonical keyed fun composite => by simp [typeName] at composite

end Definition

end PartTree
