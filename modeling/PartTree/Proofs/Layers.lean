import PartTree.Proofs.Overlay
import PartTree.Proofs.Reading

/-!
References over references. To lay one reference over what another makes of an entry is to lay both
over the entry at once, and the node that comes out has the kind of the entry and the repeat rule of
the highest layer with one.
-/

namespace PartTree

namespace Definition

variable {entry d : Definition} {name other : String} {a b : Attributes}

theorem find?_overrides (key : String) :
    (reference name a).overrides.find? key =
      if key != "type" && key != "name" then (reference name a).toObject.find? key else none := by
  rw [overrides, KeyMap.find?_filter_key fun key => key != "type" && key != "name"]

theorem overrides_layOver (upper : (reference other a).Keyed) (lower : (reference name b).Keyed) :
    (reference name (a.layOver b)).overrides =
      (reference other a).overrides.layOver (reference name b).overrides := by
  have notComposite : (reference name b).typeName ≠ "composite" := by simp [typeName]
  have written := layOver_overrides (everywhere_reference.mpr lower) upper
    fun composite => absurd composite notComposite
  have merged : (reference name (a.layOver b)).toObject =
      (reference other a).overrides.layOver (reference name b).toObject := written.symm
  apply KeyMap.ext
  intro key
  rw [find?_overrides, merged, KeyMap.find?_layOver, KeyMap.find?_layOver, find?_overrides,
    find?_overrides]
  split <;> rfl

/-- An entry reached over two references has the fields of both, those of the upper one first. -/
theorem result_overlay_overlay (upper : (reference other a).Keyed)
    (lower : (reference name b).Keyed)
    (merged : (entry.overlay (.reference name b)).result = .ok d) :
    (d.overlay (.reference other a)).result =
      (entry.overlay (.reference name (a.layOver b))).result := by
  have typeless : (reference other a).overrides.find? "type" = none := find?_overrides "type"
  have alike := ReadAlike.layOver (.refl _) typeless rfl (readAlike_of_read merged)
  calc
    (d.overlay (.reference other a)).result =
        (read (.object ((reference other a).overrides.layOver d.toObject))).result := rfl
    _ = (read (.object ((reference other a).overrides.layOver
          ((reference name b).overrides.layOver entry.toObject)))).result := alike.result_read
    _ = (entry.overlay (.reference name (a.layOver b))).result := by
      rw [← KeyMap.layOver_assoc, ← overrides_layOver upper lower]
      rfl

/-- Where the reference brings parts, those of a composite are not looked at. -/
theorem result_overlay_of_parts (brings : a.fields.find? "parts" ≠ none)
    (parts others : List Definition) :
    ((composite (some parts) b).overlay (.reference name a)).result =
      ((composite (some others) b).overlay (.reference name a)).result := by
  have own : (reference name a).overrides.find? "parts" = a.fields.find? "parts" := by
    rw [find?_overrides]
    exact find?_parts_toObject (reference name a)
  have same : (reference name a).overrides.layOver (composite (some parts) b).toObject =
      (reference name a).overrides.layOver (composite (some others) b).toObject := by
    apply KeyMap.ext
    intro key
    rw [KeyMap.find?_layOver, KeyMap.find?_layOver]
    by_cases here : key = "parts"
    · obtain ⟨value, found⟩ := Option.ne_none_iff_exists'.mp brings
      rw [here, own, found, Option.some_or, Option.some_or]
    · simp [toObject, Attributes.toObject, Attributes.withField, here]
  rw [overlay, overlay, same]

theorem typeName_overlay (merged : (entry.overlay (.reference name a)).result = .ok d) :
    d.typeName = entry.typeName := by
  have typed := (readAlike_of_read merged).verbatim "type" (by decide) (by decide)
  rw [KeyMap.find?_layOver, find?_overrides, find?_type_toObject, find?_type_toObject] at typed
  simpa using typed

theorem referenceName?_overlay (canonical : entry.Canonical) (keyed : (reference name a).Keyed)
    (merged : (entry.overlay (.reference name a)).result = .ok d) :
    d.referenceName? = entry.referenceName? := by
  have typed := typeName_overlay merged
  cases entry with
  | reference inner b =>
      cases (overlay_reference canonical keyed).symm.trans merged
      rfl
  | primitive typeName b =>
      cases d with
      | reference inner c => exact absurd typed.symm canonical.here.2.1
      | _ => rfl
  | composite parts b =>
      cases d with
      | reference inner c => simp [typeName] at typed
      | _ => rfl

theorem readField?_repeat_toObject (keyed : d.Keyed) :
    d.toObject.readField? "repeat" RepeatRule.ofValue = .ok d.attributes.rule :=
  readField?_map RepeatRule.toValue (find?_repeat_toObject keyed) RepeatRule.ofValue_toValue

theorem rule_overlay (below : entry.Keyed) (keyed : (reference name a).Keyed)
    (merged : (entry.overlay (.reference name a)).result = .ok d) :
    d.attributes.rule = a.rule.or entry.attributes.rule := by
  have own : (reference name a).overrides.readField? "repeat" RepeatRule.ofValue = .ok a.rule := by
    rw [readField?_congr (find?_overrides "repeat")]
    exact readField?_repeat_toObject keyed
  have rule := (readAlike_of_read merged).rule
  rw [readField?_repeat_toObject (keyed_of_read merged), readField?_layOver, own,
    readField?_repeat_toObject below] at rule
  cases upper : a.rule
  all_goals
    rw [upper] at rule
    exact Except.ok.inj rule

theorem rule_of_overlay {rule : RepeatRule}
    (merged : (entry.overlay (.reference name a)).result = .ok d) (ruled : a.rule = some rule) :
    d.attributes.rule = some rule := by
  have own : (reference name a).overrides.readField? "repeat" RepeatRule.ofValue =
      .ok (some rule) := by
    rw [readField?_congr (find?_overrides "repeat")]
    refine readField?_map RepeatRule.toValue ?_ RepeatRule.ofValue_toValue
    simp [toObject, Attributes.toObject, Attributes.withField, ruled]
  have read_rule := (readAlike_of_read merged).rule
  rw [readField?_repeat_toObject (keyed_of_read merged), readField?_layOver, own] at read_rule
  exact Except.ok.inj read_rule

end Definition

end PartTree
