import PartTree.Proofs.Aliases
import PartTree.Proofs.FixedPoint

/-!
What is left of a reference when it is sanitized with the built-in types: a name, a place, a repeat
rule and an overflow bag. These go over the entry, so that the place and the rule of the entry itself
do not matter for what a reference is prepared to.
-/

namespace PartTree

namespace Definition

def relocate (entry : Definition) (position rotation : Option Vec) (rule : Option RepeatRule) :
    Definition :=
  entry.mapAttributes fun a => { a with position := position, rotation := rotation, rule := rule }

/-- What is written of an entry, except that its place and rule are given. So is its bag, if any. -/
def seated (entry : Definition) (position rotation rule : Value) (bag : Option Value) : Object :=
  entry.toObject
    |>.insert "position" position
    |>.insert "rotation" rotation
    |>.insert "repeat" rule
    |>.insert? "_dustbin" bag

variable {entry : Definition} {p q : Option Vec} {k : Option RepeatRule}
variable {position rotation rule : Value} {bag : Option Value} {key : String}

theorem find?_relocate (notPosition : key ≠ "position") (notRotation : key ≠ "rotation")
    (notRule : key ≠ "repeat") :
    (entry.relocate p q k).toObject.find? key = entry.toObject.find? key := by
  rcases entry with _ | ⟨_ | _, _⟩ | _ <;>
    simp [relocate, mapAttributes, toObject, Attributes.toObject, Attributes.withField,
      notPosition, notRotation, notRule]

theorem seated_relocate :
    (entry.relocate p q k).seated position rotation rule bag =
      entry.seated position rotation rule bag := by
  apply KeyMap.ext
  intro key
  simp only [seated, KeyMap.find?_insert, KeyMap.find?_insert?]
  by_cases isRule : key = "repeat"
  · simp [isRule]
  · by_cases isRotation : key = "rotation"
    · simp [isRotation]
    · by_cases isPosition : key = "position"
      · simp [isPosition]
      · rw [find?_relocate isPosition isRotation isRule]

/-- What a reference makes of an entry depends on nothing but the entry under its fields. -/
theorem result_overlay_of_under {other : Definition} {fields : Object} {name : String}
    {a : Attributes} (ok : (read (.object fields)).result = .ok (.reference name a))
    (same : other.under fields = entry.under fields) :
    (other.overlay (.reference name a)).result = (entry.overlay (.reference name a)).result := by
  calc
    (other.overlay (.reference name a)).result = (read (.object (other.under fields))).result :=
      (result_read_under ok other).symm
    _ = (read (.object (entry.under fields))).result := by rw [same]
    _ = (entry.overlay (.reference name a)).result := result_read_under ok entry

end Definition

namespace Catalog

variable {catalog : Catalog} {fields : Object} {entry other r : Definition} {name : String}

theorem compile_under (reference : fields.find? "type" = some (.string "ref"))
    (ok : catalog.compile (.object fields) = .ok r) :
    ∃ name entry, fields.find? "name" = some (.string name) ∧ catalog.find? name = some entry ∧
      catalog.compile (.object (entry.under fields)) = .ok r := by
  rcases compile_eq_ok_iff_compilesTo.mp ok with ⟨d, document_ok, expanded⟩
  rcases Compile.compilesTo_reference reference document_ok with ⟨name, entry, named, found, below⟩
  have alone := below.shorten (List.nil_subset _)
  exact ⟨name, entry, named, found, compile_eq_ok_iff_compilesTo.mpr ⟨d, alone, expanded⟩⟩

theorem compile_insert_of_under (reference : fields.find? "type" = some (.string "ref"))
    (named : fields.find? "name" = some (.string name)) (found : catalog.find? name = some entry)
    (same : other.under fields = entry.under fields) :
    Catalog.compile (catalog.insert name other) (.object fields) =
      catalog.compile (.object fields) := by
  cases accepted : Definition.ofValue (.object fields) with
  | error cause =>
      rw [compile_eq_error_of_ofValue _ accepted, compile_eq_error_of_ofValue _ accepted]
  | ok d =>
      rcases Definition.eq_reference_of_read reference accepted with ⟨_, a, rfl, again⟩
      cases named.symm.trans again
      have overlays := Definition.result_overlay_of_under accepted same
      -- The catalogs still differ below, but only in the name that is now under expansion.
      have below : ∀ d, (Compile.node (catalog.insert name other) ([] ++ [name]) d).result =
          (Compile.node catalog ([] ++ [name]) d).result :=
        fun _ => Compile.result_node_insert_of_mem (List.mem_singleton_self name) other
      have replaced : (catalog.insert name other).find? name = some other := by
        rw [KeyMap.find?_insert, if_pos rfl]
      rw [compile_eq_compileDefinition _ accepted, compile_eq_compileDefinition _ accepted,
        compileDefinition_eq_node, compileDefinition_eq_node, Compile.result_node_reference,
        Compile.result_node_reference, replaced, found]
      simp only [overlays, below]

end Catalog

namespace Registry

def referenceTemplate : Template := .ofOwn "ref" (KeyMap.ofList [("name", .string "plate")])

variable {fields s : Object} {entry : Definition} {key : String}

theorem templateOf_reference (reference : fields.find? "type" = some (.string "ref")) :
    builtin.templateOf fields = .ok referenceTemplate := by
  have known : builtin.template? "ref" = some referenceTemplate := rfl
  rw [templateOf, reference]
  simp only [known]

theorem declares_reference_iff :
    referenceTemplate.declares key = true ↔
      key ∈ ["_dustbin", "name", "position", "repeat", "rotation", "type"] := by
  have keys : referenceTemplate.fields.keys =
      ["_dustbin", "name", "position", "repeat", "rotation", "type"] := by decide +kernel
  rw [Template.declares, ← KeyMap.mem_keys_iff, keys]

theorem sanitize_reference (reference : fields.find? "type" = some (.string "ref")) :
    builtin.sanitize (.object fields) = .ok (.object (referenceTemplate.reconcile fields)) := by
  apply Sanitize.result_node_of_no_parts (templateOf_reference reference)
  intro items found
  have declared := Template.declares_of_find?_reconcile (by decide) found
  rw [declares_reference_iff] at declared
  exact absurd declared (by decide)

/-- A fitted reference brings its place, its rule and its bag to its entry and nothing else. -/
theorem under_eq_seated {position rotation rule : Value} (settled : referenceTemplate.Settled s)
    (atPosition : s.find? "position" = some position)
    (atRotation : s.find? "rotation" = some rotation) (atRule : s.find? "repeat" = some rule) :
    entry.under s = entry.seated position rotation rule (s.find? "_dustbin") := by
  apply KeyMap.ext
  intro key
  rw [Definition.find?_under, Definition.seated]
  by_cases known : key ∈ ["_dustbin", "name", "position", "repeat", "rotation", "type"]
  · simp only [List.mem_cons, List.not_mem_nil, or_false] at known
    rcases known with rfl | rfl | rfl | rfl | rfl | rfl <;> simp [*]
  · have undeclared : referenceTemplate.declares key = false :=
      Bool.eq_false_iff.mpr (mt declares_reference_iff.mp known)
    simp only [List.mem_cons, List.not_mem_nil, or_false, not_or] at known
    have absent := settled.absent known.1 undeclared
    simp [known, absent]

/-- A reference is prepared to what its entry compiles to with the place, the rule and the bag of the
sanitized reference in it, and with nothing else changed. Where the entry itself stands and how it is
repeated makes no difference, not even to how the reference fails. -/
theorem prepare_reference (catalog : Catalog)
    (reference : fields.find? "type" = some (.string "ref")) :
    ∃ s position rotation rule, builtin.sanitize (.object fields) = .ok (.object s) ∧
      s.find? "position" = some position ∧ s.find? "rotation" = some rotation ∧
      s.find? "repeat" = some rule ∧
      (∀ r, prepare builtin catalog (.object fields) = .ok r →
        ∃ name entry, s.find? "name" = some (.string name) ∧ catalog.find? name = some entry ∧
          catalog.compile
            (.object (entry.seated position rotation rule (s.find? "_dustbin"))) = .ok r) ∧
      ∀ name entry, s.find? "name" = some (.string name) → catalog.find? name = some entry →
        ∀ p q k, prepare builtin (catalog.insert name (entry.relocate p q k)) (.object fields) =
          prepare builtin catalog (.object fields) := by
  have settled := referenceTemplate.settled_reconcile fields
  have sanitized := sanitize_reference reference
  have referring := (find?_type_reconcile (templateOf_reference reference)).trans reference
  generalize referenceTemplate.reconcile fields = s at settled sanitized referring
  have present : ∀ key, key ≠ "_dustbin" →
      key ∈ ["_dustbin", "name", "position", "repeat", "rotation", "type"] →
      ∃ value, s.find? key = some value :=
    fun key ne known => settled.present ne (declares_reference_iff.mpr known)
  rcases present "position" (by decide) (by decide) with ⟨position, atPosition⟩
  rcases present "rotation" (by decide) (by decide) with ⟨rotation, atRotation⟩
  rcases present "repeat" (by decide) (by decide) with ⟨rule, atRule⟩
  have seats : ∀ entry : Definition,
      entry.under s = entry.seated position rotation rule (s.find? "_dustbin") :=
    fun _ => under_eq_seated settled atPosition atRotation atRule
  refine ⟨s, position, rotation, rule, sanitized, atPosition, atRotation, atRule, ?_, ?_⟩
  · intro r ok
    rw [prepare_of_sanitize catalog sanitized, mapError_eq_ok] at ok
    rcases Catalog.compile_under referring ok with ⟨name, entry, named, found, under_ok⟩
    exact ⟨name, entry, named, found, seats entry ▸ under_ok⟩
  · intro name entry named found p q k
    have same : (entry.relocate p q k).under s = entry.under s := by
      rw [seats, seats, Definition.seated_relocate]
    rw [prepare_of_sanitize _ sanitized, prepare_of_sanitize _ sanitized,
      Catalog.compile_insert_of_under referring named found same]

def stoolEntry : Definition :=
  .composite (some [.primitive "box" ⟨none, none, none, none, .nil⟩])
    ⟨some [.ofUInt64 1], some [.ofUInt64 2], some ⟨3, none, none⟩, none,
      KeyMap.ofList [("height", .number (.ofUInt64 4))]⟩

def stoolCatalog : Catalog := KeyMap.ofList [("stool", stoolEntry)]

def stoolFields : Object := KeyMap.ofList [
  ("type", .string "ref"),
  ("name", .string "stool"),
  ("position", Vec.toValue [.ofUInt64 7]),
  ("height", .number (.ofUInt64 9)),
  ("parts", .array []),
  ("_dustbin", .object (KeyMap.ofList [("color", .string "red")]))]

def stoolBag : Object := KeyMap.ofList [
  ("color", .string "red"),
  ("height", .number (.ofUInt64 9)),
  ("parts", .array [])]

def stoolSanitized : Object :=
  (KeyMap.ofList [
    ("type", .string "ref"),
    ("name", .string "stool"),
    ("position", Vec.toValue [.ofUInt64 7]),
    ("_dustbin", .object stoolBag)]).layOver Template.master

def oneRule : Object := KeyMap.ofList [
  ("times", .number (.ofUInt64 1)),
  ("position", Vec.toValue (List.replicate 3 (.ofUInt64 0))),
  ("rotation", Vec.toValue (List.replicate 3 (.ofUInt64 0)))]

def stoolSeated : Object :=
  (KeyMap.ofList [
    ("type", .string "composite"),
    ("position", Vec.toValue [.ofUInt64 7]),
    ("height", .number (.ofUInt64 4)),
    ("parts", .array [.object (KeyMap.ofList [("type", .string "box")])]),
    ("_dustbin", .object stoolBag)]).layOver Template.master

def stoolPrepared : Definition :=
  .composite (some [
    .composite (some [.primitive "box" ⟨none, none, none, none, .nil⟩])
      ⟨some [.ofUInt64 7], some (List.replicate 3 (.ofUInt64 0)), none, some stoolBag,
        KeyMap.ofList [("height", .number (.ofUInt64 4))]⟩])
    ⟨none, none, none, none, .nil⟩

theorem prepare_stool :
    (stoolFields.find? "type" = some (.string "ref") ∧
      builtin.sanitize (.object stoolFields) = .ok (.object stoolSanitized) ∧
      prepare builtin stoolCatalog (.object stoolFields) = .ok stoolPrepared) ∧
    stoolCatalog.compile (.object stoolSeated) = .ok stoolPrepared ∧
    ∀ p q k, prepare builtin (stoolCatalog.insert "stool" (stoolEntry.relocate p q k))
      (.object stoolFields) = .ok stoolPrepared := by
  have reference : stoolFields.find? "type" = some (.string "ref") := by decide +kernel
  have ok : prepare builtin stoolCatalog (.object stoolFields) = .ok stoolPrepared := by
    decide +kernel
  have sanitized : builtin.sanitize (.object stoolFields) = .ok (.object stoolSanitized) := by
    decide +kernel
  have stool : stoolSanitized.find? "name" = some (.string "stool") := by decide +kernel
  have present : stoolCatalog.find? "stool" = some stoolEntry := by decide +kernel
  rcases prepare_reference stoolCatalog reference with
    ⟨s, position, rotation, rule, again, atPosition, atRotation, atRule, compiles, moves⟩
  cases sanitized.symm.trans again
  rcases compiles stoolPrepared ok with ⟨name, entry, named, found, seated_ok⟩
  cases stool.symm.trans named
  cases present.symm.trans found
  have seated : stoolEntry.seated (Vec.toValue [.ofUInt64 7])
      (Vec.toValue (List.replicate 3 (.ofUInt64 0))) (.object oneRule)
      (stoolSanitized.find? "_dustbin") = stoolSeated := by
    decide +kernel
  have position_known : stoolSanitized.find? "position" = some (Vec.toValue [.ofUInt64 7]) := by
    decide +kernel
  have rotation_known : stoolSanitized.find? "rotation" =
      some (Vec.toValue (List.replicate 3 (.ofUInt64 0))) := by
    decide +kernel
  have rule_known : stoolSanitized.find? "repeat" = some (.object oneRule) := by decide +kernel
  cases position_known.symm.trans atPosition
  cases rotation_known.symm.trans atRotation
  cases rule_known.symm.trans atRule
  refine ⟨⟨reference, sanitized, ok⟩, seated ▸ seated_ok, ?_⟩
  intro p q k
  exact (moves "stool" stoolEntry stool present p q k).trans ok

end Registry

end PartTree
