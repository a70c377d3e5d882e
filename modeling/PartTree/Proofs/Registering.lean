import PartTree.Proofs.Offenders

/-!
More types. A registry that has all the types of another, and more of its own, sanitizes a document
to the same, or fails with the same error, unless the document fails for want of a type that only
the larger registry has.
-/

namespace PartTree

namespace Registry

/-- Whether every type of a registry is in a larger one, with the same fields. -/
def ExtendsTo (registry larger : Registry) : Prop :=
  ∀ typeName own, registry.find? typeName = some own → larger.find? typeName = some own

/-- Whether an error is for want of a type that the larger of two registries has and the other has
not. -/
def Supplied (registry larger : Registry) (e : SanitizeError) : Prop :=
  ∃ typeName, registry.contains typeName = false ∧ larger.contains typeName = true ∧
    e = .unknownType (.unregistered typeName)

variable {registry larger : Registry} {fields : Object} {typeName : String}

theorem template?_of_extendsTo (extension : registry.ExtendsTo larger) {t : Template}
    (known : registry.template? typeName = some t) : larger.template? typeName = some t := by
  rcases Option.map_eq_some_iff.mp known with ⟨own, present, rfl⟩
  exact Option.map_eq_some_iff.mpr ⟨own, extension typeName own present, rfl⟩

theorem template?_eq_none_iff :
    registry.template? typeName = none ↔ registry.contains typeName = false := by
  rw [template?, Option.map_eq_none_iff, KeyMap.contains, Option.isSome_eq_false_iff,
    Option.isNone_iff_eq_none]

theorem templateOf_of_extendsTo (extension : registry.ExtendsTo larger)
    (settled : ∀ e, registry.Supplied larger e → registry.templateOf fields ≠ .error e) :
    larger.templateOf fields = registry.templateOf fields := by
  rw [templateOf_eq] at settled
  rw [templateOf_eq larger, templateOf_eq registry]
  cases named : (Value.object fields).typeName? with
  | none => rfl
  | some typeName =>
      rw [UnknownType.ofNode, named, Option.bind_some] at settled
      rw [Option.bind_some, Option.bind_some]
      cases known : registry.template? typeName with
      | some t => rw [template?_of_extendsTo extension known]
      | none =>
          rw [known] at settled
          have missing : larger.template? typeName = none := by
            rw [template?_eq_none_iff, ← Bool.not_eq_true]
            intro contained
            exact settled _ ⟨typeName, template?_eq_none_iff.mp known, contained, rfl⟩ rfl
          rw [missing]

end Registry

namespace Sanitize

variable {registry larger : Registry} {entered : List String} {v : Value}

theorem result_node_of_extendsTo (extension : registry.ExtendsTo larger)
    (settled : ∀ e, registry.Supplied larger e → (node registry entered v).result ≠ .error e) :
    (node larger entered v).result = (node registry entered v).result := by
  induction entered, v using walk_induction registry with
  | scalar entered v notObject =>
      cases v with
      | object fields => exact absurd rfl (notObject fields)
      | _ => simp [node]
  | object entered fields below =>
      have same : larger.templateOf fields = registry.templateOf fields := by
        apply Registry.templateOf_of_extendsTo extension
        intro e supplied failed
        apply settled e supplied
        rw [node_object, failed]
        rfl
      cases chosen : registry.templateOf fields with
      | error e =>
          rw [node_object, node_object, same, chosen]
      | ok t =>
          rw [chosen] at same
          by_cases listed : ∃ items, (t.reconcile fields).find? "parts" = some (.array items)
          · obtain ⟨items, found⟩ := listed
            rw [result_node_of_parts chosen found] at settled ⊢
            rw [result_node_of_parts same found]
            by_cases fresh : bringsParts fields = true ∨ t.typeName ∉ entered
            · rw [if_pos fresh] at settled ⊢
              rw [if_pos fresh]
              congr 1
              apply mapM_eq_of_settled (registry.Supplied larger)
              · intro e supplied failed
                exact settled e supplied (map_eq_error.mpr failed)
              · exact below t items chosen found fresh
            · rw [if_neg fresh, if_neg fresh]
          · have unlisted := not_exists.mp listed
            rw [result_node_of_no_parts chosen unlisted, result_node_of_no_parts same unlisted]

end Sanitize

namespace Registry

variable {registry larger : Registry} {document : Value} {typeName : String}

/-- More types change nothing, unless a document fails for want of one of them. -/
theorem sanitize_of_extendsTo (extension : registry.ExtendsTo larger)
    (settled : ∀ e, registry.Supplied larger e → registry.sanitize document ≠ .error e) :
    larger.sanitize document = registry.sanitize document :=
  Sanitize.result_node_of_extendsTo extension settled

theorem extendsTo_register (fresh : registry.contains typeName = false) (own : Object) :
    registry.ExtendsTo (registry.register typeName own) := by
  intro other fields present
  have elsewhere : other ≠ typeName := by
    intro same
    rw [← same, KeyMap.contains, present] at fresh
    cases fresh
  rw [register, KeyMap.find?_insert, if_neg elsewhere, present]

theorem eq_of_supplied_register {own : Object} {e : SanitizeError}
    (supplied : registry.Supplied (registry.register typeName own) e) :
    e = .unknownType (.unregistered typeName) := by
  obtain ⟨other, missing, contained, rfl⟩ := supplied
  by_cases same : other = typeName
  · rw [same]
  · rw [KeyMap.contains, register, KeyMap.find?_insert, if_neg same] at contained
    rw [KeyMap.contains, contained] at missing
    cases missing

/-- A new type disturbs no document. What sanitizes without it sanitizes with it to the same, and
what fails with a type other than it fails with the same error. -/
theorem sanitize_register (fresh : registry.contains typeName = false) (own : Object)
    (document : Value) :
    (∀ sanitized, registry.sanitize document = .ok sanitized →
      (registry.register typeName own).sanitize document = .ok sanitized) ∧
    ∀ cause, registry.sanitize document = .error (.unknownType cause) →
      cause.typeName ≠ typeName →
      (registry.register typeName own).sanitize document = .error (.unknownType cause) := by
  have extension := extendsTo_register fresh own
  constructor
  · intro sanitized ok
    rw [← ok]
    apply sanitize_of_extendsTo extension
    intro e _ failed
    cases ok.symm.trans failed
  · intro cause failed other
    rw [← failed]
    apply sanitize_of_extendsTo extension
    intro e supplied also_failed
    cases failed.symm.trans also_failed
    cases eq_of_supplied_register supplied
    exact other rfl

def lampOwn : Object := KeyMap.ofList [
  ("color", .string "red"),
  ("position", .string "ceiling"),
  ("parts", .array [.object (bare "lamp")])]

def litCrate : Value := .object (KeyMap.ofList [
  ("type", .string "composite"),
  ("lamp", .object (bare "lamp")),
  ("_dustbin", .object (KeyMap.ofList [("parts", .array [.object (bare "shelf")])]))])

def stoveCrate : Value := .object (KeyMap.ofList [
  ("type", .string "composite"),
  ("parts", .array [.object (bare "shelf"), .object (bare "stove"), .object (bare "lamp")])])

theorem sanitize_register_lamp :
    (shelfRegistry.contains "lamp" = false ∧
      shelfRegistry.sanitize stoveCrate = .error (.unknownType (.unregistered "stove")) ∧
      (UnknownType.unregistered "stove").typeName ≠ "lamp" ∧
      shelfRegistry.sanitize (.object (bare "lamp")) =
        .error (.unknownType (.unregistered "lamp")) ∧
      (shelfRegistry.register "lamp" lampOwn).sanitize (.object (bare "lamp")) ≠
        .error (.unknownType (.unregistered "lamp"))) ∧
    (∃ sanitized, shelfRegistry.sanitize litCrate = .ok sanitized ∧
      (shelfRegistry.register "lamp" lampOwn).sanitize litCrate = .ok sanitized) ∧
    (shelfRegistry.register "lamp" lampOwn).sanitize stoveCrate =
      .error (.unknownType (.unregistered "stove")) := by
  have fresh : shelfRegistry.contains "lamp" = false := by decide +kernel
  have stove : shelfRegistry.sanitize stoveCrate =
      .error (.unknownType (.unregistered "stove")) := by decide +kernel
  have other : (UnknownType.unregistered "stove").typeName ≠ "lamp" := by decide
  have lit : ∃ sanitized, shelfRegistry.sanitize litCrate = .ok sanitized := by
    cases outcome : shelfRegistry.sanitize litCrate with
    | ok sanitized => exact ⟨sanitized, rfl⟩
    | error e =>
        have passes : (shelfRegistry.sanitize litCrate).toBool = true := by decide +kernel
        rw [outcome] at passes
        cases passes
  obtain ⟨sanitized, ok⟩ := lit
  refine ⟨⟨fresh, stove, other, by decide +kernel, by decide +kernel⟩, ⟨sanitized, ok, ?_⟩, ?_⟩
  · exact (sanitize_register fresh lampOwn litCrate).1 sanitized ok
  · exact (sanitize_register fresh lampOwn stoveCrate).2 _ stove other

end Registry

end PartTree
