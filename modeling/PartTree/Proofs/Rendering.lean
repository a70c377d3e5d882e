import PartTree.Proofs.Written

/-!
What a document loses when it is read and written again. Every field but the repeat rule comes back
as it was, so that a document comes back whole exactly when its composites list their parts and its
rules say how often they repeat and nothing that has no meaning.
-/

namespace PartTree

theorem eq_map_number_of_ofItems {slot : Slot} {items : List Value} {v : Vec}
    (ok : Vec.ofItems slot items = .ok v) : items = v.map .number := by
  induction items generalizing v with
  | nil =>
      cases ok
      rfl
  | cons item items ih =>
      cases item with
      | number n =>
          obtain ⟨rest, rest_ok, rfl⟩ := map_eq_ok.mp ok
          rw [List.map_cons, ih rest_ok]
      | _ => cases ok

theorem eq_toValue_of_ofValue {slot : Slot} {value : Value} {v : Vec}
    (ok : Vec.ofValue slot value = .ok v) : value = v.toValue := by
  cases value with
  | array items => rw [eq_map_number_of_ofItems ok, Vec.toValue]
  | _ => cases ok

theorem eq_object_of_bagOfValue {value : Value} {bag : Object}
    (ok : Definition.bagOfValue value = .ok bag) : value = .object bag := by
  cases value with
  | object fields =>
      cases ok
      rfl
  | _ => cases ok

theorem eq_number_of_countOfValue {value : Value} {n : UInt64}
    (ok : RepeatRule.countOfValue value = .ok n) : value = .number (.ofUInt64 n) := by
  cases value with
  | number number =>
      simp only [RepeatRule.countOfValue] at ok
      split at ok
      · rename_i count counted
        cases ok
        rw [Number.toUInt64?_eq_some_iff.mp counted]
      · cases ok
  | _ => cases ok

theorem find?_of_readField? {ε α : Type} {fields : Object} {key : String}
    {read : Value → Except ε α} {x : Option α} (write : α → Value)
    (ok : fields.readField? key read = .ok x)
    (inverse : ∀ value y, read value = .ok y → value = write y) :
    fields.find? key = x.map write := by
  rw [KeyMap.readField?] at ok
  split at ok
  · rename_i absent
    cases ok
    exact absent
  · rename_i value found
    obtain ⟨y, read_ok, rfl⟩ := map_eq_ok.mp ok
    rw [found, inverse value y read_ok]
    rfl

namespace RepeatRule

/-- A rule that is written out in full: it says how often, and has no key without a meaning. -/
structure Stated (rule : Object) : Prop where
  counted : rule.contains "times" = true
  known : ∀ key, rule.contains key = true → key = "times" ∨ key = "position" ∨ key = "rotation"

theorem find?_toObject (rule : RepeatRule) (key : String) :
    rule.toObject.find? key =
      if key = "times" then some (.number (.ofUInt64 rule.times))
      else if key = "position" then rule.position.map Vec.toValue
      else if key = "rotation" then rule.rotation.map Vec.toValue
      else none := by
  by_cases times : key = "times"
  · simp [toObject, times]
  · by_cases position : key = "position"
    · simp [toObject, position]
    · by_cases rotation : key = "rotation" <;> simp [toObject, times, position, rotation]

theorem toObject_eq_iff {fields : Object} {rule : RepeatRule}
    (ok : ofValue (.object fields) = .ok rule) : rule.toObject = fields ↔ Stated fields := by
  simp only [ofValue, bind_eq_ok, pure, Except.pure, Except.ok.injEq] at ok
  obtain ⟨times, times_ok, position, position_ok, rotation, rotation_ok, rfl⟩ := ok
  have times_found := find?_of_readField? (fun n => .number (.ofUInt64 n)) times_ok
    (fun _ _ => eq_number_of_countOfValue)
  have position_found := find?_of_readField? Vec.toValue position_ok
    (fun _ _ => eq_toValue_of_ofValue)
  have rotation_found := find?_of_readField? Vec.toValue rotation_ok
    (fun _ _ => eq_toValue_of_ofValue)
  constructor
  · intro same
    constructor
    · rw [← same, KeyMap.contains, find?_toObject]
      rfl
    · intro key present
      rw [← same, KeyMap.contains, find?_toObject] at present
      by_contra other
      simp only [not_or] at other
      simp [other] at present
  · intro stated
    apply KeyMap.ext
    intro key
    rw [find?_toObject]
    split
    · rename_i here
      subst here
      have counted := stated.counted
      rw [KeyMap.contains, times_found] at counted
      rw [times_found]
      cases times with
      | none => cases counted
      | some n => rfl
    · rename_i notTimes
      split
      · rename_i here
        rw [here, position_found]
      · rename_i notPosition
        split
        · rename_i here
          rw [here, rotation_found]
        · rename_i notRotation
          cases found : fields.find? key with
          | none => rfl
          | some value =>
              have known := stated.known key (by rw [KeyMap.contains, found]; rfl)
              simp [notTimes, notPosition, notRotation] at known

end RepeatRule

namespace Value

/-- What holds of every node of a document. -/
def Everywhere (P : Value → Prop) (v : Value) : Prop := ∀ node, Within node v → P node

/-- Whether the parts of a composite, if it has any, are a list. -/
def ListsParts : Value → Prop
  | .object fields => fields.find? "type" = some (.string "composite") →
      ∀ value, fields.find? "parts" = some value → ∃ items, value = .array items
  | _ => True

/-- Whether the rule of a node, if it has one, is written out in full. -/
def StatesRule : Value → Prop
  | .object fields => ∀ rule, fields.find? "repeat" = some (.object rule) → RepeatRule.Stated rule
  | _ => True

variable {P : Value → Prop} {fields : Object} {items : List Value}

theorem everywhere_leaf (leaf : fields.find? "type" = some (.string "composite") →
    ∀ items, fields.find? "parts" ≠ some (.array items)) :
    (object fields).Everywhere P ↔ P (.object fields) := by
  constructor
  · intro all
    exact all _ .root
  · intro here node inside
    cases inside with
    | root => exact here
    | part composite parts _ _ => exact absurd parts (leaf composite _)

theorem everywhere_composite (composite : fields.find? "type" = some (.string "composite"))
    (parts : fields.find? "parts" = some (.array items)) :
    (object fields).Everywhere P ↔ P (.object fields) ∧ ∀ item ∈ items, item.Everywhere P := by
  constructor
  · intro all
    refine ⟨all _ .root, fun item member node inside => ?_⟩
    exact all node (.part composite parts member inside)
  · intro both node inside
    obtain ⟨here, below⟩ := both
    cases inside with
    | root => exact here
    | part _ listed member inside =>
        cases parts.symm.trans listed
        exact below _ member node inside

theorem everywhere_of_not_composite (other : fields.find? "type" ≠ some (.string "composite")) :
    ((object fields).Everywhere fun node => node.ListsParts ∧ node.StatesRule) ↔
      (object fields).StatesRule := by
  have lists : (object fields).ListsParts := fun typed => absurd typed other
  rw [everywhere_leaf fun typed => absurd typed other, and_iff_right lists]

theorem listsParts_iff_of_not_listed (composite : fields.find? "type" = some (.string "composite"))
    (notListed : ∀ items, fields.find? "parts" ≠ some (.array items)) :
    (object fields).ListsParts ↔ fields.find? "parts" = none := by
  constructor
  · intro lists
    cases found : fields.find? "parts" with
    | none => rfl
    | some value =>
        obtain ⟨items, rfl⟩ := lists composite value found
        exact absurd found (notListed items)
  · intro absent _ value found
    rw [absent] at found
    cases found

end Value

namespace Definition

variable {fields others : Object} {typeName name : String} {a : Attributes} {v : Value}

theorem readHeader_eq_ok (header : readHeader fields = .ok (typeName, a)) :
    fields.find? "type" = some (.string typeName) ∧
    fields.find? "position" = a.position.map Vec.toValue ∧
    fields.find? "rotation" = a.rotation.map Vec.toValue ∧
    fields.find? "_dustbin" = a.overflow.map Value.object ∧
    fields.readField? "repeat" RepeatRule.ofValue = .ok a.rule := by
  unfold readHeader at header
  split at header
  · rename_i found
    simp only [bind_eq_ok, pure, Except.pure] at header
    obtain ⟨position, position_ok, rotation, rotation_ok, rule, rule_ok, overflow, overflow_ok,
      same⟩ := header
    cases same
    exact ⟨found,
      find?_of_readField? Vec.toValue position_ok fun _ _ => eq_toValue_of_ofValue,
      find?_of_readField? Vec.toValue rotation_ok fun _ _ => eq_toValue_of_ofValue,
      find?_of_readField? Value.object overflow_ok fun _ _ => eq_object_of_bagOfValue, rule_ok⟩
  · cases header

/-- The rule that was read is written as it stood if it was written out in full. -/
theorem find?_repeat_eq_iff {rule : Option RepeatRule}
    (ok : fields.readField? "repeat" RepeatRule.ofValue = .ok rule) :
    rule.map RepeatRule.toValue = fields.find? "repeat" ↔ (Value.object fields).StatesRule := by
  rw [KeyMap.readField?] at ok
  split at ok
  · rename_i absent
    cases ok
    simp [Value.StatesRule, absent]
  · rename_i value found
    obtain ⟨read, read_ok, rfl⟩ := map_eq_ok.mp ok
    cases value with
    | object raw =>
        have same := RepeatRule.toObject_eq_iff read_ok
        simp [Value.StatesRule, found, RepeatRule.toValue, same]
    | _ => cases read_ok

/-- Attributes that were read are written as they stood, if the verbatim fields are those of the
document and its rule is written out in full. -/
theorem toObject_eq_iff (header : readHeader fields = .ok (typeName, a))
    (unstructured : ({ a with fields := others } : Attributes).Unstructured) :
    ({ a with fields := others } : Attributes).toObject typeName = fields ↔
      (Value.object fields).StatesRule ∧
        ∀ key, isStructural key = false → others.find? key = fields.find? key := by
  obtain ⟨type, position, rotation, overflow, rule_ok⟩ := readHeader_eq_ok header
  have rule := find?_repeat_eq_iff rule_ok
  constructor
  · intro same
    constructor
    · apply rule.mp
      rw [← same]
      simp [Attributes.toObject, unstructured "repeat" rfl]
    · intro key other
      rw [← same, Attributes.find?_toObject_of_not_structural other]
  · intro both
    obtain ⟨states, verbatim⟩ := both
    have written := rule.mpr states
    apply KeyMap.ext
    intro key
    cases structural : isStructural key with
    | false =>
        rw [Attributes.find?_toObject_of_not_structural structural]
        exact verbatim key structural
    | true =>
        have absent : others.find? key = none := unstructured key structural
        simp only [isStructural, Bool.or_eq_true, beq_iff_eq] at structural
        rcases structural with (((rfl | rfl) | rfl) | rfl) | rfl
        all_goals simp [Attributes.toObject, absent, type, position, rotation, overflow, written]

theorem eq_object_of_read_primitive (ok : (read v).result = .ok (.primitive typeName a)) :
    ∃ fields, v = .object fields ∧ readHeader fields = .ok (typeName, a) ∧
      typeName ≠ "composite" := by
  obtain ⟨fields, typeName, b, rfl, header, shape⟩ := read_eq_ok ok
  rcases shape with ⟨-, _, -, same⟩ | ⟨-, _, -, same⟩ | ⟨notComposite, -, same⟩
  · cases same
  · cases same
  · cases same
    exact ⟨fields, rfl, header, notComposite⟩

theorem eq_object_of_read_reference (ok : (read v).result = .ok (.reference name a)) :
    ∃ fields b, v = .object fields ∧ readHeader fields = .ok ("ref", b) ∧
      fields.find? "name" = some (.string name) ∧ a = b.eraseField "name" := by
  obtain ⟨fields, typeName, b, rfl, header, shape⟩ := read_eq_ok ok
  rcases shape with ⟨-, _, -, same⟩ | ⟨rfl, other, name_ok, same⟩ | ⟨-, -, same⟩
  · cases same
  · cases same
    refine ⟨fields, b, rfl, header, ?_, rfl⟩
    unfold readName at name_ok
    split at name_ok
    · rename_i found
      cases name_ok
      exact found
    · cases name_ok
    · cases name_ok
  · cases same

theorem eq_object_of_read_composite {parts : Option (List Definition)}
    (ok : (read v).result = .ok (.composite parts a)) :
    ∃ fields b, v = .object fields ∧ readHeader fields = .ok ("composite", b) ∧
      (readParts fields).result = .ok parts ∧ a = b.eraseField "parts" := by
  obtain ⟨fields, typeName, b, rfl, header, shape⟩ := read_eq_ok ok
  rcases shape with ⟨rfl, read_parts, parts_ok, same⟩ | ⟨-, _, -, same⟩ | ⟨-, -, same⟩
  · cases same
    exact ⟨fields, b, rfl, header, parts_ok, rfl⟩
  · cases same
  · cases same

theorem find?_of_readHeader {key : String} (header : readHeader fields = .ok (typeName, a))
    (other : isStructural key = false) : a.fields.find? key = fields.find? key := by
  rw [fields_of_readHeader header, KeyMap.find?_filter_key fun key => !isStructural key]
  simp [other]

theorem toValue_eq_iff_of_primitive (header : readHeader fields = .ok (typeName, a))
    (notComposite : typeName ≠ "composite") :
    (primitive typeName a).toValue = .object fields ↔
      (Value.object fields).Everywhere fun node => node.ListsParts ∧ node.StatesRule := by
  have type := (readHeader_eq_ok header).1
  have otherType : fields.find? "type" ≠ some (.string "composite") := by
    simp [type, notComposite]
  have written := toObject_eq_iff header (unstructured_of_readHeader header)
  rw [Value.everywhere_of_not_composite otherType, toValue, Value.object.injEq, toObject, written,
    and_iff_left_iff_imp]
  intro _ key other
  exact find?_of_readHeader header other

theorem unstructured_insert? (unstructured : a.Unstructured) {key : String}
    (other : isStructural key = false) (field : Option Value) :
    ({ a with fields := (a.fields.erase key).insert? key field } : Attributes).Unstructured := by
  intro wanted structural
  have elsewhere : wanted ≠ key := by
    intro here
    rw [here, other] at structural
    cases structural
  simp [elsewhere, unstructured wanted structural]

/-- Attributes that were read, but for one verbatim field that is given or left out. -/
theorem toObject_insert?_eq_iff (header : readHeader fields = .ok (typeName, a)) (key : String)
    (other : isStructural key = false) (field : Option Value) :
    ({ a with fields := (a.fields.erase key).insert? key field } : Attributes).toObject typeName =
        fields ↔
      (Value.object fields).StatesRule ∧ field = fields.find? key := by
  have still := unstructured_insert? (unstructured_of_readHeader header) other field
  refine (toObject_eq_iff header still).trans (and_congr_right fun _ => ?_)
  constructor
  · intro verbatim
    simpa using verbatim key other
  · intro found wanted plain
    by_cases here : wanted = key
    · simp [here, found]
    · simp [here, find?_of_readHeader header plain]

/-- A document comes back whole from the tree that was read from it exactly when every composite
lists its parts and every rule is written out in full. -/
theorem toValue_eq_iff {d : Definition} (ok : (read v).result = .ok d) :
    d.toValue = v ↔ v.Everywhere fun node => node.ListsParts ∧ node.StatesRule := by
  induction d using tree_induction generalizing v with
  | primitive typeName a =>
      obtain ⟨fields, rfl, header, notComposite⟩ := eq_object_of_read_primitive ok
      exact toValue_eq_iff_of_primitive header notComposite
  | reference name a =>
      obtain ⟨fields, b, rfl, header, found, rfl⟩ := eq_object_of_read_reference ok
      have type := (readHeader_eq_ok header).1
      have otherType : fields.find? "type" ≠ some (.string "composite") := by simp [type]
      have written := toObject_insert?_eq_iff header "name" rfl (some (.string name))
      rw [Value.everywhere_of_not_composite otherType, toValue, Value.object.injEq]
      exact written.trans (and_iff_left found.symm)
  | childless a =>
      obtain ⟨fields, b, rfl, header, parts_ok, rfl⟩ := eq_object_of_read_composite ok
      have type := (readHeader_eq_ok header).1
      have notListed := not_listed_of_readParts parts_ok
      have written := toObject_insert?_eq_iff header "parts" rfl none
      rw [Value.everywhere_leaf fun _ => notListed, toValue, Value.object.injEq,
        Value.listsParts_iff_of_not_listed type notListed, and_comm, @eq_comm _ _ none]
      exact written
  | composite parts a each =>
      obtain ⟨fields, b, rfl, header, parts_ok, rfl⟩ := eq_object_of_read_composite ok
      have type := (readHeader_eq_ok header).1
      obtain ⟨items, listed, items_ok⟩ := readParts_eq_some.mp parts_ok
      have written := toObject_insert?_eq_iff header "parts" rfl (some (.array (toValues parts)))
      have lists : (Value.object fields).ListsParts := by
        intro _ value found
        exact ⟨items, Option.some.inj (found.symm.trans listed)⟩
      rw [result_readAll, mapM_eq_ok] at items_ok
      have below := map_eq_iff_of_forall₂ items_ok fun part member item => each part member
      rw [listed, Option.some.injEq, Value.array.injEq, toValues_eq_map, below] at written
      rw [Value.everywhere_composite type listed, and_iff_right lists, toValue,
        Value.object.injEq, toObject, toValues_eq_map]
      exact written

/-- Among the accepted documents whose composites list their parts, those whose rules are written
out in full come back whole, and no others. Once written, a document comes back whole. -/
theorem written_whole_iff {d : Definition} (accepted : ofValue v = .ok d)
    (listed : ∀ node, Value.Within node v → node.ListsParts) :
    (d.toValue = v ↔ ∀ node, Value.Within node v → node.StatesRule) ∧
      ∀ node, Value.Within node d.toValue → node.ListsParts ∧ node.StatesRule := by
  constructor
  · refine (toValue_eq_iff accepted).trans ?_
    constructor
    · intro whole node inside
      exact (whole node inside).2
    · intro stated node inside
      exact ⟨listed node inside, stated node inside⟩
  · have again := read_toValue (canonical_of_read accepted)
    exact (toValue_eq_iff again).mp rfl

def rowDocument : Value := .object (KeyMap.ofList [
  ("type", .string "composite"),
  ("color", .null),
  ("_dustbin", .object (KeyMap.ofList [("height", .number (.ofUInt64 4))])),
  ("parts", .array [.object (KeyMap.ofList [
    ("type", .string "box"),
    ("repeat", .object (KeyMap.ofList [
      ("times", .number (.ofUInt64 3)),
      ("position", Vec.toValue [.ofUInt64 2])]))])])])

def rowDefinition : Definition :=
  .composite
    (some [.primitive "box" ⟨none, none, some ⟨3, some [.ofUInt64 2], none⟩, none, .nil⟩])
    ⟨none, none, none, some (KeyMap.ofList [("height", .number (.ofUInt64 4))]),
      KeyMap.ofList [("color", .null)]⟩

theorem row_written_whole :
    (ofValue rowDocument = .ok rowDefinition ∧
      (∀ node, Value.Within node rowDocument → node.ListsParts) ∧
      rowDefinition.toValue = rowDocument) ∧
    ∀ node, Value.Within node rowDocument → node.StatesRule := by
  have accepted : ofValue rowDocument = .ok rowDefinition := by decide +kernel
  have same : rowDefinition.toValue = rowDocument := by decide +kernel
  have listed : ∀ node, Value.Within node rowDocument → node.ListsParts :=
    fun node inside => ((toValue_eq_iff accepted).mp same node inside).1
  exact ⟨⟨accepted, listed, same⟩, (written_whole_iff accepted listed).1.mp same⟩

def spacedFields : Object := KeyMap.ofList [
  ("type", .string "box"),
  ("repeat", .object (KeyMap.ofList [("spacing", .number (.ofUInt64 5))]))]

def spacedDocument : Value := .object spacedFields

def spacedDefinition : Definition :=
  .primitive "box" ⟨none, none, some ⟨0, none, none⟩, none, .nil⟩

theorem spaced_not_written_whole :
    ofValue spacedDocument = .ok spacedDefinition ∧
      (∀ node, Value.Within node spacedDocument → node.ListsParts) ∧
      spacedDefinition.toValue ≠ spacedDocument ∧
      (spacedDefinition.toValue == spacedDocument) = false := by
  refine ⟨by decide +kernel, ?_, by decide +kernel, by decide +kernel⟩
  have notTyped : spacedFields.find? "type" ≠ some (.string "composite") := by decide +kernel
  intro node inside
  cases inside with
  | root => exact fun typed => absurd typed notTyped
  | part typed _ _ _ => exact absurd typed notTyped

end Definition

end PartTree
