import PartTree.Prepare
import PartTree.Proofs.Sanitizing

/-!
Sanitizing a second time changes nothing. Parts that stand in the bag are taken out and fitted once
more; other parts are fitted already.
-/

namespace PartTree

namespace Template

variable {t : Template} {fields : Object} {parts : Value}

/-- The parts in a bag are the parts of the fitted node. -/
theorem find?_parts_bagOf {value : Value}
    (found : (t.reconcile fields).find? "parts" = some parts)
    (bagged : (bagOf fields).find? "parts" = some value) : value = parts := by
  have declared := declares_of_find?_reconcile (by decide) found
  rw [t.find?_reconcile fields (by decide), if_pos declared, bagged] at found
  exact Option.some.inj found

/-- Fitting a node whose parts were replaced brings back the parts of the bag, if it has any. -/
theorem reconcile_insert_parts (found : (t.reconcile fields).find? "parts" = some parts)
    (value : Value) :
    t.reconcile ((t.reconcile fields).insert "parts" value) =
      ((t.reconcile fields).insert "parts" value).insert? "parts"
        ((bagOf fields).find? "parts") := by
  have declared := declares_of_find?_reconcile (by decide) found
  have settled := (t.settled_reconcile fields).insert_parts declared value
  rw [settled.reconcile_eq, if_pos declared, bagOf_insert (by decide),
    t.find?_bagOf_reconcile fields (by decide), if_pos declared]

end Template

theorem bringsParts_insert (fields : Object) (value : Value) :
    bringsParts (fields.insert "parts" value) = true := by
  simp [bringsParts, KeyMap.contains]

theorem bringsParts_of_bagged {fields : Object} {value : Value}
    (bagged : (bagOf fields).find? "parts" = some value) : bringsParts fields = true := by
  simp [bringsParts, KeyMap.contains, bagged]

namespace Sanitize

variable {registry : Registry} {entered : List String} {fields : Object} {t : Template}
variable {items sanitized : List Value}

theorem node_fitted (chosen : registry.templateOf fields = .ok t)
    (none_found : ∀ items, (t.reconcile fields).find? "parts" ≠ some (.array items)) :
    (node registry entered (.object (t.reconcile fields))).result =
      .ok (.object (t.reconcile fields)) := by
  have again := Registry.templateOf_of_fitted chosen rfl
  apply node_eq_ok.mpr
  refine ⟨t.reconcile fields, t, rfl, again, .inl ?_⟩
  rw [t.reconcile_reconcile fields]
  exact ⟨none_found, rfl⟩

theorem node_insert_parts (chosen : registry.templateOf fields = .ok t)
    (found : (t.reconcile fields).find? "parts" = some (.array items)) {raw : List Value}
    (refitted : ((bagOf fields).find? "parts").getD (.array sanitized) = .array raw)
    (each : List.Forall₂ (fun item result => (node registry entered item).result = .ok result)
      raw sanitized) :
    (node registry entered
        (.object ((t.reconcile fields).insert "parts" (.array sanitized)))).result =
      .ok (.object ((t.reconcile fields).insert "parts" (.array sanitized))) := by
  have same : ((t.reconcile fields).insert "parts" (.array sanitized)).find? "type" =
      (t.reconcile fields).find? "type" := by
    rw [KeyMap.find?_insert, if_neg (by decide)]
  have again := Registry.templateOf_of_fitted chosen same
  have brings := bringsParts_insert (t.reconcile fields) (.array sanitized)
  have parts : t.reconcile ((t.reconcile fields).insert "parts" (.array sanitized)) =
      (t.reconcile fields).insert "parts" (.array raw) := by
    rw [Template.reconcile_insert_parts found, ← refitted]
    cases (bagOf fields).find? "parts" with
    | none => rfl
    | some value => exact KeyMap.insert_insert ..
  apply node_eq_ok.mpr
  refine ⟨_, t, rfl, again, .inr ⟨raw, sanitized, ?_, .inl brings, ?_, ?_⟩⟩
  · rw [parts, KeyMap.find?_insert, if_pos rfl]
  · rw [enter_of_brings brings]
    exact each
  · rw [parts, KeyMap.insert_insert]

theorem node_node {v s : Value} (ok : (node registry entered v).result = .ok s) :
    (node registry entered s).result = .ok s := by
  induction entered, v using walk_induction registry generalizing s with
  | scalar entered v notObject =>
      rcases node_eq_ok.mp ok with ⟨fields, t, rfl, -⟩
      exact absurd rfl (notObject fields)
  | object entered fields below =>
      rcases node_eq_ok.mp ok with ⟨_, t, same, chosen, outcome⟩
      cases same
      rcases outcome with ⟨none_found, rfl⟩ | ⟨items, sanitized, found, fresh, each, rfl⟩
      · exact node_fitted chosen none_found
      · cases bagged : (bagOf fields).find? "parts" with
        | some value =>
            have raw := Template.find?_parts_bagOf found bagged
            rw [enter_of_brings (bringsParts_of_bagged bagged)] at each
            apply node_insert_parts chosen found ?_ each
            rw [bagged, raw]
            rfl
        | none =>
            have fixed : ∀ result ∈ sanitized,
                (node registry entered result).result = .ok result := by
              intro result member
              rcases exists_left_of_forall₂ each member with ⟨item, inside, item_ok⟩
              have item_fixed := below t items chosen found fresh item inside item_ok
              exact node_eq_ok_of_subset (subset_enter t fields entered) item_fixed
            apply node_insert_parts chosen found ?_ (List.forall₂_same.mpr fixed)
            rw [bagged]
            rfl

end Sanitize

theorem prepare_of_sanitize {registry : Registry} {document sanitized : Value} (catalog : Catalog)
    (ok : registry.sanitize document = .ok sanitized) :
    prepare registry catalog document =
      (catalog.compile sanitized).mapError PrepareError.compile := by
  have result : (registry.sanitizeLogged document).result = .ok sanitized := ok
  rw [prepare, prepareLogged, Logged.result_bind, Logged.result_mapError, result]
  rfl

theorem prepare_of_sanitize_error {registry : Registry} {document : Value} {cause : SanitizeError}
    (catalog : Catalog) (failed : registry.sanitize document = .error cause) :
    prepare registry catalog document = .error (.sanitize cause) := by
  have result : (registry.sanitizeLogged document).result = .error cause := failed
  rw [prepare, prepareLogged, Logged.result_bind, Logged.result_mapError, result]
  rfl

namespace Registry

theorem sanitizeParts_sanitizeParts {registry : Registry} {raw parts : Value}
    (ok : registry.sanitizeParts raw = .ok parts) : registry.sanitizeParts parts = .ok parts := by
  cases raw with
  | array items =>
      rcases map_eq_ok.mp ok with ⟨sanitized, each, rfl⟩
      have fixed : ∀ result ∈ sanitized, registry.sanitize result = .ok result := by
        intro result member
        rcases exists_left_of_forall₂ (mapM_eq_ok.mp each) member with ⟨item, -, item_ok⟩
        exact Sanitize.node_node item_ok
      exact map_eq_ok.mpr ⟨sanitized, mapM_eq_self.mpr fixed, rfl⟩
  | _ =>
      cases ok
      rfl

/-- What sanitizing leaves is left as it is, by sanitizing and by each template alone. To prepare it
comes to the same as to prepare what it was made of. -/
theorem sanitize_sanitize (registry : Registry) :
    (∀ document sanitized, registry.sanitize document = .ok sanitized →
      registry.sanitize sanitized = .ok sanitized ∧
        ∀ catalog, prepare registry catalog sanitized = prepare registry catalog document) ∧
    ∀ (t : Template) fields, t.reconcile (t.reconcile fields) = t.reconcile fields := by
  constructor
  · intro document sanitized ok
    have again : registry.sanitize sanitized = .ok sanitized := Sanitize.node_node ok
    refine ⟨again, ?_⟩
    intro catalog
    calc
      prepare registry catalog sanitized =
          (catalog.compile sanitized).mapError PrepareError.compile :=
        prepare_of_sanitize catalog again
      _ = prepare registry catalog document := (prepare_of_sanitize catalog ok).symm
  · intro t fields
    exact t.reconcile_reconcile fields

def crowdedBag : Object := KeyMap.ofList [
  ("type", .string "box"),
  ("_dustbin", .null),
  ("position", Vec.toValue [.ofUInt64 1, .ofUInt64 2, .ofUInt64 3]),
  ("parts", .array [.object (KeyMap.ofList [
    ("type", .string "box"),
    ("height", .number (.ofUInt64 4))])])]

def crowdedDocument : Value := .object (KeyMap.ofList [
  ("type", .string "composite"),
  ("name", .string "rail"),
  ("position", Vec.toValue [.ofUInt64 7]),
  ("parts", .array [.null]),
  ("_dustbin", .object crowdedBag)])

def crowdedPart : Object :=
  (Template.master.insert "_dustbin"
    (.object (KeyMap.ofList [("height", .number (.ofUInt64 4))]))).layOver
    (KeyMap.ofList [
      ("type", .string "box"),
      ("dimensions", Vec.toValue (List.replicate 3 (.ofUInt64 10)))])

def crowdedSanitized : Value :=
  .object (KeyMap.layOver
    (KeyMap.ofList [
      ("type", .string "composite"),
      ("position", Vec.toValue [.ofUInt64 1, .ofUInt64 2, .ofUInt64 3]),
      ("parts", .array [.object crowdedPart]),
      ("_dustbin", .object (crowdedBag.insert "name" (.string "rail")))])
    Template.master)

theorem sanitize_crowded :
    builtin.sanitize crowdedDocument = .ok crowdedSanitized ∧
      builtin.sanitize crowdedSanitized = .ok crowdedSanitized ∧
      ∀ catalog, prepare builtin catalog crowdedSanitized =
        prepare builtin catalog crowdedDocument := by
  have ok : builtin.sanitize crowdedDocument = .ok crowdedSanitized := by decide +kernel
  have fixed := (sanitize_sanitize builtin).1 crowdedDocument crowdedSanitized ok
  exact ⟨ok, fixed.1, fixed.2⟩

end Registry

end PartTree
