import PartTree.Proofs.Canonical

/-!
What is written of a tree. A canonical tree is read back from its document, and the nodes of the
document are the documents of its nodes.
-/

namespace PartTree

theorem ofItems_map_number (slot : Slot) (v : Vec) :
    Vec.ofItems slot (v.map .number) = .ok v := by
  induction v with
  | nil => rfl
  | cons n v ih =>
      rw [List.map_cons, Vec.ofItems, ih]
      rfl

/-- A field that was written from an optional value is read as that value. -/
theorem readField?_map {ε α : Type} {fields : Object} {key : String}
    {read : Value → Except ε α} (write : α → Value) {x : Option α}
    (written : fields.find? key = x.map write) (inverse : ∀ y, read (write y) = .ok y) :
    fields.readField? key read = .ok x := by
  rw [KeyMap.readField?, written]
  cases x with
  | none => rfl
  | some y => simp [inverse, Functor.map, Except.map]

theorem RepeatRule.ofValue_toValue (rule : RepeatRule) :
    RepeatRule.ofValue rule.toValue = .ok rule := by
  have times :
      rule.toObject.readField? "times" RepeatRule.countOfValue = .ok (some rule.times) := by
    refine readField?_map (fun n => .number (.ofUInt64 n)) ?_ ?_
    · simp [RepeatRule.toObject]
    · intro n
      simp [RepeatRule.countOfValue]
  have position : rule.toObject.readField? "position" (Vec.ofValue .repeatPosition) =
      .ok rule.position := by
    refine readField?_map Vec.toValue ?_ (ofItems_map_number _)
    simp [RepeatRule.toObject]
  have rotation : rule.toObject.readField? "rotation" (Vec.ofValue .repeatRotation) =
      .ok rule.rotation := by
    refine readField?_map Vec.toValue ?_ (ofItems_map_number _)
    simp [RepeatRule.toObject]
  rw [RepeatRule.toValue, RepeatRule.ofValue, times, position, rotation]
  rfl

namespace Attributes

variable {a : Attributes} {key : String}

theorem find?_toObject_of_not_structural {typeName : String}
    (other : Definition.isStructural key = false) :
    (a.toObject typeName).find? key = a.fields.find? key := by
  simp only [Definition.isStructural, Bool.or_eq_false_iff, beq_eq_false_iff_ne] at other
  simp [toObject, other]

theorem readHeader_toObject (typeName : String) (unstructured : a.Unstructured) :
    Definition.readHeader (a.toObject typeName) = .ok (typeName, a) := by
  have position : (a.toObject typeName).readField? "position" (Vec.ofValue .position) =
      .ok a.position := by
    refine readField?_map Vec.toValue ?_ (ofItems_map_number _)
    simp [toObject, unstructured "position" rfl]
  have rotation : (a.toObject typeName).readField? "rotation" (Vec.ofValue .rotation) =
      .ok a.rotation := by
    refine readField?_map Vec.toValue ?_ (ofItems_map_number _)
    simp [toObject, unstructured "rotation" rfl]
  have rule : (a.toObject typeName).readField? "repeat" RepeatRule.ofValue = .ok a.rule := by
    refine readField?_map RepeatRule.toValue ?_ RepeatRule.ofValue_toValue
    simp [toObject, unstructured "repeat" rfl]
  have overflow : (a.toObject typeName).readField? "_dustbin" Definition.bagOfValue =
      .ok a.overflow := by
    refine readField?_map Value.object ?_ (fun _ => rfl)
    simp [toObject, unstructured "_dustbin" rfl]
  have others : (a.toObject typeName).filter (fun key _ => !Definition.isStructural key) =
      a.fields := by
    apply KeyMap.ext
    intro key
    rw [KeyMap.find?_filter_key]
    cases structural : Definition.isStructural key with
    | true => simp [unstructured key structural]
    | false => simp [find?_toObject_of_not_structural structural]
  have type : (a.toObject typeName).find? "type" = some (.string typeName) := by
    simp [toObject]
  rw [Definition.readHeader, type]
  simp only [position, rotation, rule, overflow, others]
  rfl

theorem unstructured_withField (key : String) (value : Value) (unstructured : a.Unstructured)
    (other : Definition.isStructural key = false) :
    (a.withField key value).Unstructured := by
  intro wanted structural
  have elsewhere : wanted ≠ key := by
    intro here
    rcases here with rfl
    rw [structural] at other
    cases other
  simp [withField, elsewhere, unstructured wanted structural]

theorem eraseField_of_absent (absent : a.fields.find? key = none) : a.eraseField key = a := by
  have same : a.fields.erase key = a.fields := by
    apply KeyMap.ext
    intro other
    by_cases here : other = key
    · simp [here, absent]
    · simp [here]
  rw [eraseField, same]

theorem eraseField_withField (value : Value) :
    (a.withField key value).eraseField key = a.eraseField key := by
  have same : (a.fields.insert key value).erase key = a.fields.erase key := by
    apply KeyMap.ext
    intro other
    by_cases here : other = key <;> simp [here]
  rw [eraseField, eraseField, withField, same]

end Attributes

namespace Definition

theorem toValues_eq_map (parts : List Definition) : toValues parts = parts.map toValue := by
  induction parts with
  | nil => rfl
  | cons part parts ih => rw [toValues, ih, List.map_cons, toValue]

theorem readAll_map_toValue {parts : List Definition}
    (each : ∀ part ∈ parts, (read part.toValue).result = .ok part) :
    (readAll (parts.map toValue)).result = .ok parts := by
  rw [result_readAll, List.mapM_map]
  exact mapM_eq_self.mpr each

/-- A canonical tree is read back from its written form. -/
theorem read_toValue {d : Definition} (canonical : d.Canonical) :
    (read d.toValue).result = .ok d := by
  induction d using tree_induction with
  | primitive typeName a =>
      obtain ⟨notComposite, notReference, unstructured⟩ := canonical.here
      have header := Attributes.readHeader_toObject typeName unstructured
      simp [toValue, toObject, read, header, notComposite, notReference, bind]
  | childless a =>
      obtain ⟨unstructured, absent⟩ := canonical.here
      have header := Attributes.readHeader_toObject "composite" unstructured
      have parts_ok : (readParts (a.toObject "composite")).result = .ok none := by
        apply readParts_eq_none
        rw [Attributes.find?_toObject_of_not_structural rfl, absent]
      simp [toValue, toObject, read, header, parts_ok, Attributes.eraseField_of_absent absent,
        bind]
  | reference name a =>
      obtain ⟨unstructured, absent⟩ := canonical.here
      have header := Attributes.readHeader_toObject "ref"
        (Attributes.unstructured_withField "name" (.string name) unstructured rfl)
      have name_ok : readName ((a.withField "name" (.string name)).toObject "ref") = .ok name := by
        rw [readName, Attributes.find?_toObject_of_not_structural rfl]
        simp [Attributes.withField]
      simp [toValue, toObject, read, header, name_ok, Attributes.eraseField_withField,
        Attributes.eraseField_of_absent absent, bind]
  | composite parts a each =>
      obtain ⟨⟨unstructured, absent⟩, below⟩ := everywhere_composite.mp canonical
      have header := Attributes.readHeader_toObject "composite"
        (Attributes.unstructured_withField "parts" (.array (toValues parts)) unstructured rfl)
      have parts_ok : (readParts ((a.withField "parts" (.array (toValues parts))).toObject
          "composite")).result = .ok (some parts) := by
        rw [readParts_eq_some]
        refine ⟨toValues parts, ?_, ?_⟩
        · rw [Attributes.find?_toObject_of_not_structural rfl]
          simp [Attributes.withField]
        · rw [toValues_eq_map]
          exact readAll_map_toValue fun part member => each part member (below part member)
      simp [toValue, toObject, read, header, parts_ok, Attributes.eraseField_withField,
        Attributes.eraseField_of_absent absent, bind]

@[simp] theorem find?_type_toObject (d : Definition) :
    d.toObject.find? "type" = some (.string d.typeName) := by
  cases d with
  | composite parts a => cases parts <;> simp [toObject, Attributes.toObject, typeName]
  | _ => simp [toObject, Attributes.toObject, typeName]

/-- What is written under the key of the parts. -/
theorem find?_parts_toObject (d : Definition) :
    d.toObject.find? "parts" =
      match d with
      | .composite (some parts) _ => some (.array (parts.map toValue))
      | d => d.attributes.fields.find? "parts" := by
  rcases d with ⟨typeName, a⟩ | ⟨_ | parts, a⟩ | ⟨name, a⟩ <;>
    rw [toObject, Attributes.find?_toObject_of_not_structural rfl] <;>
    simp [attributes, Attributes.withField, toValues_eq_map]

theorem find?_repeat_toObject {d : Definition} (keyed : d.Keyed) :
    d.toObject.find? "repeat" = d.attributes.rule.map RepeatRule.toValue := by
  cases d with
  | primitive typeName a =>
      have absent := keyed.2.2 "repeat" rfl
      simp [toObject, Attributes.toObject, attributes, absent]
  | reference name a =>
      have absent := keyed.1 "repeat" rfl
      simp [toObject, Attributes.toObject, Attributes.withField, attributes, absent]
  | composite parts a =>
      have absent := keyed.1 "repeat" rfl
      cases parts <;>
        simp [toObject, Attributes.toObject, Attributes.withField, attributes, absent]

/-- The nodes of the document of a canonical tree are the documents of its nodes. -/
theorem exists_node_of_within {d : Definition} (canonical : d.Canonical) {v : Value}
    (inside : Value.Within v d.toValue) : ∃ node, Within node d ∧ v = node.toValue := by
  induction d using tree_induction with
  | primitive typeName a =>
      cases inside with
      | root => exact ⟨_, .root, rfl⟩
      | part composite _ _ _ =>
          rw [find?_type_toObject] at composite
          cases composite
          exact absurd rfl canonical.here.1
  | childless a =>
      cases inside with
      | root => exact ⟨_, .root, rfl⟩
      | part _ parts _ _ =>
          cases parts.symm.trans ((find?_parts_toObject _).trans canonical.here.2)
  | reference name a =>
      cases inside with
      | root => exact ⟨_, .root, rfl⟩
      | part composite _ _ _ =>
          rw [find?_type_toObject] at composite
          simp [typeName] at composite
  | composite parts a each =>
      cases inside with
      | root => exact ⟨_, .root, rfl⟩
      | part _ listed member inside =>
          cases (find?_parts_toObject _).symm.trans listed
          rcases List.mem_map.mp member with ⟨part, belongs, rfl⟩
          have below := (everywhere_composite.mp canonical).2
          rcases each part belongs (below part belongs) inside with ⟨node, deeper, same⟩
          exact ⟨node, .part belongs deeper, same⟩

end Definition

end PartTree
