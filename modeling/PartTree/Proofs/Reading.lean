import PartTree.Proofs.Rendering

/-!
What reading a node depends on. Objects that differ in how a repeat rule is spelled out, or in what
the parts of a composite look like before they are read, are read as one node. What is written of a
node is such an object to the one that the node was read from, also below fields that go over both.
-/

namespace PartTree

section

variable {ε α : Type} {first second upper lower : Object} {key : String} {read : Value → Except ε α}

theorem readField?_congr (same : first.find? key = second.find? key) :
    first.readField? key read = second.readField? key read := by
  rw [KeyMap.readField?, KeyMap.readField?, same]

theorem readField?_layOver :
    (upper.layOver lower).readField? key read =
      match upper.readField? key read with
      | .ok none => lower.readField? key read
      | outcome => outcome := by
  rw [KeyMap.readField?, KeyMap.readField?, KeyMap.find?_layOver]
  cases upper.find? key with
  | none => rfl
  | some value =>
      simp only [Option.some_or]
      cases read value <;> rfl

end

namespace Definition

variable {first second upper other lower below fields : Object} {d : Definition}

theorem readHeader_congr (same : ∀ key, key ≠ "repeat" → first.find? key = second.find? key)
    (rule : first.readField? "repeat" RepeatRule.ofValue =
      second.readField? "repeat" RepeatRule.ofValue) :
    readHeader first = readHeader second := by
  have others : first.filter (fun key _ => !isStructural key) =
      second.filter fun key _ => !isStructural key := by
    apply KeyMap.ext
    intro key
    rw [KeyMap.find?_filter_key, KeyMap.find?_filter_key]
    cases structural : isStructural key with
    | true => rfl
    | false =>
        have notRule : key ≠ "repeat" := by
          intro here
          rcases here with rfl
          cases structural
        rw [same key notRule]
  rw [readHeader, readHeader, same "type" (by decide),
    readField?_congr (same "position" (by decide)), readField?_congr (same "rotation" (by decide)),
    readField?_congr (same "_dustbin" (by decide)), rule, others]

/-- A key without a meaning can be taken out before or after reading. -/
theorem readHeader_erase (fields : Object) {key : String} (verbatim : isStructural key = false) :
    readHeader (fields.erase key) =
      (fun (typeName, a) => (typeName, a.eraseField key)) <$> readHeader fields := by
  have kept : ∀ wanted, isStructural wanted = true →
      (fields.erase key).find? wanted = fields.find? wanted := by
    intro wanted structural
    have elsewhere : wanted ≠ key := by
      intro here
      rw [here, verbatim] at structural
      cases structural
    rw [KeyMap.find?_erase, if_neg elsewhere]
  have others : (fields.erase key).filter (fun key _ => !isStructural key) =
      (fields.filter fun key _ => !isStructural key).erase key := by
    apply KeyMap.ext
    intro wanted
    by_cases here : wanted = key <;> simp [here]
  rw [readHeader, readHeader, kept "type" rfl, readField?_congr (kept "position" rfl),
    readField?_congr (kept "rotation" rfl), readField?_congr (kept "repeat" rfl),
    readField?_congr (kept "_dustbin" rfl), others]
  cases fields.find? "type" with
  | none => rfl
  | some value =>
      cases value with
      | string typeName =>
          simp only [map_bind, map_pure]
          rfl
      | _ => rfl

theorem result_read_of_composite (typed : fields.find? "type" = some (.string "composite")) :
    (read (.object fields)).result = (do
      let (_, a) ← readHeader (fields.erase "parts")
      let parts ← (readParts fields).result
      pure (.composite parts a)) := by
  rw [result_read_object, readHeader_erase fields rfl, bind_map_left]
  cases header : readHeader fields with
  | error cause => rfl
  | ok named =>
      obtain ⟨typeName, a⟩ := named
      cases typed.symm.trans (readHeader_eq_ok header).1
      rfl

/-- Whether two objects are read as one node: all keys are the same but those of the rule and of the
parts, the rules are read alike, and so are the parts, unless they are kept as they stand. -/
structure ReadAlike (first second : Object) : Prop where
  verbatim : ∀ key, key ≠ "repeat" → key ≠ "parts" → first.find? key = second.find? key
  rule : first.readField? "repeat" RepeatRule.ofValue =
    second.readField? "repeat" RepeatRule.ofValue
  parts : first.find? "parts" = second.find? "parts" ∨
    first.find? "type" = some (.string "composite") ∧
      (readParts first).result = (readParts second).result

namespace ReadAlike

theorem refl (fields : Object) : ReadAlike fields fields where
  verbatim _ _ _ := rfl
  rule := rfl
  parts := .inl rfl

theorem readHeader_erase_parts (alike : ReadAlike first second) :
    readHeader (first.erase "parts") = readHeader (second.erase "parts") := by
  have apart : ∀ fields : Object, (fields.erase "parts").readField? "repeat" RepeatRule.ofValue =
      fields.readField? "repeat" RepeatRule.ofValue :=
    fun fields => readField?_congr (by simp)
  apply readHeader_congr
  · intro key notRule
    by_cases here : key = "parts"
    · simp [here]
    · simp [here, alike.verbatim key notRule here]
  · rw [apart, apart, alike.rule]

theorem result_read (alike : ReadAlike first second) :
    (read (.object first)).result = (read (.object second)).result := by
  rcases alike.parts with parts | ⟨typed, parts⟩
  · have header : readHeader first = readHeader second := by
      apply readHeader_congr
      · intro key notRule
        by_cases here : key = "parts"
        · rw [here, parts]
        · exact alike.verbatim key notRule here
      · exact alike.rule
    have name : readName first = readName second := by
      rw [readName, readName, alike.verbatim "name" (by decide) (by decide)]
    rw [result_read_object, result_read_object, header, name, result_readParts, result_readParts,
      parts]
  · have typed_too := (alike.verbatim "type" (by decide) (by decide)).symm.trans typed
    rw [result_read_of_composite typed, result_read_of_composite typed_too,
      alike.readHeader_erase_parts, parts]

/-- Objects that are read alike stay so below fields that go over them, and so do fields that are
read alike over such objects. -/
theorem layOver (alike : ReadAlike first second) (typeless : first.find? "type" = none)
    (parts : first.find? "parts" = second.find? "parts") (below : ReadAlike lower other) :
    ReadAlike (first.layOver lower) (second.layOver other) where
  verbatim key notRule notParts := by
    rw [KeyMap.find?_layOver, KeyMap.find?_layOver, alike.verbatim key notRule notParts,
      below.verbatim key notRule notParts]
  rule := by rw [readField?_layOver, readField?_layOver, alike.rule, below.rule]
  parts := by
    rw [result_readParts, result_readParts, KeyMap.find?_layOver, KeyMap.find?_layOver,
      KeyMap.find?_layOver, typeless, parts]
    cases second.find? "parts" with
    | some value => exact .inl rfl
    | none =>
        have kept := below.parts
        rw [result_readParts, result_readParts] at kept
        simpa only [Option.none_or] using kept

theorem filter_key (alike : ReadAlike first second)
    (parts : first.find? "parts" = second.find? "parts") (keep : String → Bool) :
    ReadAlike (first.filter fun key _ => keep key) (second.filter fun key _ => keep key) where
  verbatim key notRule notParts := by
    rw [KeyMap.find?_filter_key, KeyMap.find?_filter_key, alike.verbatim key notRule notParts]
  rule := by
    have rule := alike.rule
    rw [KeyMap.readField?, KeyMap.readField?] at rule ⊢
    rw [KeyMap.find?_filter_key, KeyMap.find?_filter_key]
    split_ifs
    · exact rule
    · rfl
  parts := by
    rw [KeyMap.find?_filter_key, KeyMap.find?_filter_key, parts]
    exact .inl rfl

end ReadAlike

/-- What is written of attributes is read as the object that they were read from, if it has the
verbatim fields of that object. -/
theorem readAlike_toObject {typeName : String} {a : Attributes} {others : Object}
    (header : readHeader fields = .ok (typeName, a))
    (unstructured : ({ a with fields := others } : Attributes).Unstructured)
    (verbatim : ∀ key, isStructural key = false → key ≠ "parts" →
      others.find? key = fields.find? key)
    (parts : others.find? "parts" = fields.find? "parts" ∨ typeName = "composite" ∧
      (readParts (({ a with fields := others } : Attributes).toObject typeName)).result =
        (readParts fields).result) :
    ReadAlike (({ a with fields := others } : Attributes).toObject typeName) fields := by
  obtain ⟨type, position, rotation, overflow, rule_ok⟩ := readHeader_eq_ok header
  constructor
  · intro key notRule notParts
    cases structural : isStructural key with
    | false =>
        rw [Attributes.find?_toObject_of_not_structural structural]
        exact verbatim key structural notParts
    | true =>
        have absent : others.find? key = none := unstructured key structural
        simp only [isStructural, Bool.or_eq_true, beq_iff_eq] at structural
        rcases structural with (((rfl | rfl) | rfl) | rfl) | rfl
        · simp [Attributes.toObject, type]
        · simp [Attributes.toObject, absent, position]
        · simp [Attributes.toObject, absent, rotation]
        · exact absurd rfl notRule
        · simp [Attributes.toObject, absent, overflow]
  · rw [rule_ok]
    have absent : others.find? "repeat" = none := unstructured "repeat" rfl
    refine readField?_map RepeatRule.toValue ?_ RepeatRule.ofValue_toValue
    simp [Attributes.toObject, absent]
  · rw [Attributes.find?_toObject_of_not_structural rfl]
    refine parts.imp id fun composite => ⟨?_, composite.2⟩
    simp [Attributes.toObject, composite.1]

theorem readAlike_of_read (ok : (read (.object fields)).result = .ok d) :
    ReadAlike d.toObject fields := by
  cases d with
  | primitive typeName a =>
      obtain ⟨_, same, header, -⟩ := eq_object_of_read_primitive ok
      cases same
      exact readAlike_toObject header (unstructured_of_readHeader header)
        (fun key other _ => find?_of_readHeader header other)
        (.inl (find?_of_readHeader header rfl))
  | reference name a =>
      obtain ⟨_, b, same, header, found, rfl⟩ := eq_object_of_read_reference ok
      cases same
      have still := unstructured_insert? (unstructured_of_readHeader header)
        (show isStructural "name" = false from rfl) (some (.string name))
      apply readAlike_toObject header still
      · intro key other _
        by_cases here : key = "name"
        · simp [here, found]
        · simp [here, find?_of_readHeader header other]
      · simp [find?_of_readHeader header (show isStructural "parts" = false from rfl)]
  | composite parts a =>
      obtain ⟨_, b, same, header, parts_ok, rfl⟩ := eq_object_of_read_composite ok
      cases same
      have still := unstructured_insert? (unstructured_of_readHeader header)
        (show isStructural "parts" = false from rfl)
        (parts.map fun parts => .array (toValues parts))
      obtain ⟨written, _, same, -, written_ok, -⟩ :=
        eq_object_of_read_composite (read_toValue (canonical_of_read ok))
      cases same
      have shape : (composite parts (b.eraseField "parts")).toObject =
          ({ b with
              fields := (b.fields.erase "parts").insert? "parts"
                (parts.map fun parts => .array (toValues parts)) } : Attributes).toObject
            "composite" := by
        cases parts <;> rfl
      rw [shape] at written_ok ⊢
      apply readAlike_toObject header still
      · intro key other notParts
        simp [notParts, find?_of_readHeader header other]
      · exact .inr ⟨rfl, written_ok.trans parts_ok.symm⟩

/-- A reference keeps the parts that it brings as they stand. -/
theorem find?_parts_of_read_reference {name : String} {a : Attributes}
    (ok : (read (.object fields)).result = .ok (.reference name a)) :
    (reference name a).toObject.find? "parts" = fields.find? "parts" := by
  rcases (readAlike_of_read ok).parts with same | ⟨typed, -⟩
  · exact same
  · rw [find?_type_toObject] at typed
    simp [typeName] at typed

end Definition

end PartTree
