import PartTree.Proofs.Descent
import PartTree.Definition.Writer

/-!
What sanitizing means, said key by key and without the passes that do it: where the value of each
key comes from, what the overflow bag takes in, and that the parts are sanitized in their order.
Sanitizing finds such a result whenever there is one. What this says of the bag alone: it loses a
value to a field that moves in under the same key, and to nothing else.
-/

namespace PartTree

namespace Template

/-- The value that a node is to have under a key. The bag's goes before its own, save for the type,
and its own before the default; what the template does not declare has none. -/
def given (t : Template) (fields : Object) (key : String) : Option Value :=
  if t.declares key = true then
    ((if key = "type" then none else (bagOf fields).find? key).or (fields.find? key)).or
      (t.default? key)
  else none

/-- Fields fitted to a template, leaving aside the parts. Fields that are not declared go into the
bag, over what it has under the same keys; without any, the bag stays as it is. -/
structure Fits (t : Template) (fields result : Object) : Prop where
  top : ∀ key, key ≠ "_dustbin" → key ≠ "parts" → result.find? key = t.given fields key
  bag_of_declared : (∀ key, fields.contains key = true → t.declares key = true) →
    result.find? "_dustbin" = fields.find? "_dustbin"
  bag_of_undeclared : (∃ key, fields.contains key = true ∧ t.declares key = false) →
    ∃ bag, result.find? "_dustbin" = some (.object bag) ∧ ∀ key, bag.find? key =
      if t.declares key = true then (bagOf fields).find? key
      else (fields.find? key).or ((bagOf fields).find? key)

theorem find?_reconcile_eq_given (t : Template) (fields : Object) {key : String}
    (ne : key ≠ "_dustbin") : (t.reconcile fields).find? key = t.given fields key :=
  t.find?_reconcile fields ne

variable {t : Template} {fields result : Object}

theorem find?_of_declared {key : String}
    (declared : ∀ key, fields.contains key = true → t.declares key = true)
    (unknown : ¬ t.declares key = true) : fields.find? key = none := by
  by_contra present
  exact unknown (declared key (Option.isSome_iff_ne_none.mpr present))

theorem isEmpty_excess_iff (bagDeclared : t.declares "_dustbin" = true) :
    (t.excess (t.complement fields)).isEmpty = true ↔
      ∀ key, fields.contains key = true → t.declares key = true := by
  constructor
  · intro empty key present
    have absent : (t.excess (t.complement fields)).find? key = none := by
      rw [t.excess_eq_nil empty]
      rfl
    rcases Option.isSome_iff_exists.mp present with ⟨value, found⟩
    rw [find?_excess, find?_complement, found, Option.some_or] at absent
    by_contra unknown
    by_cases isBag : key = "_dustbin"
    · exact unknown (isBag ▸ bagDeclared)
    · simp [isBag, unknown] at absent
  · intro declared
    have none_excess : t.excess (t.complement fields) = .nil := by
      apply KeyMap.ext
      intro key
      rw [find?_excess, find?_complement, KeyMap.find?_nil]
      by_cases known : t.declares key = true
      · simp [known]
      · have missing := find?_of_declared declared known
        have noDefault := t.declares_eq_false.mp (Bool.eq_false_iff.mpr known)
        simp [missing, noDefault]
    rw [none_excess]
    rfl

theorem fits_reconcile (bagDeclared : t.declares "_dustbin" = true) :
    t.Fits fields (t.reconcile fields) where
  top := fun key ne _ => t.find?_reconcile_eq_given fields ne
  bag_of_declared := by
    intro declared
    rw [t.find?_reconcile_bag, if_pos ((isEmpty_excess_iff bagDeclared).mpr declared)]
  bag_of_undeclared := by
    intro undeclared
    have some_excess : ¬ (t.excess (t.complement fields)).isEmpty = true := by
      intro empty
      rcases undeclared with ⟨key, present, unknown⟩
      rw [(isEmpty_excess_iff bagDeclared).mp empty key present] at unknown
      cases unknown
    refine ⟨_, (t.find?_reconcile_bag fields).trans (if_neg some_excess), ?_⟩
    intro key
    have absent : t.declares key = false → t.fields.find? key = none := t.declares_eq_false.mp
    rw [KeyMap.find?_layOver, find?_excess, find?_complement]
    cases known : t.declares key with
    | true => simp
    | false =>
        have notBag : key ≠ "_dustbin" := by
          intro same
          rw [same, bagDeclared] at known
          cases known
        simp [notBag, absent known]

theorem Fits.congr {other : Object} (fits : t.Fits fields result)
    (same : ∀ key, key ≠ "parts" → other.find? key = result.find? key) : t.Fits fields other where
  top := fun key ne notParts => (same key notParts).trans (fits.top key ne notParts)
  bag_of_declared := by
    rw [same "_dustbin" (by decide)]
    exact fits.bag_of_declared
  bag_of_undeclared := by
    rw [same "_dustbin" (by decide)]
    exact fits.bag_of_undeclared

theorem Fits.unique {other : Object} (fits : t.Fits fields result) (also : t.Fits fields other)
    {key : String} (notParts : key ≠ "parts") : result.find? key = other.find? key := by
  by_cases isBag : key = "_dustbin"
  · subst isBag
    by_cases declared : ∀ key, fields.contains key = true → t.declares key = true
    · rw [fits.bag_of_declared declared, also.bag_of_declared declared]
    · have undeclared : ∃ key, fields.contains key = true ∧ t.declares key = false := by
        simpa using declared
      rcases fits.bag_of_undeclared undeclared with ⟨bag, found, holds⟩
      rcases also.bag_of_undeclared undeclared with ⟨twin, twin_found, twin_holds⟩
      have same : bag = twin := KeyMap.ext fun key => (holds key).trans (twin_holds key).symm
      rw [found, twin_found, same]
  · rw [fits.top key isBag notParts, also.top key isBag notParts]

/-- A bag keeps what it has, save that a field that is not declared goes over it. -/
theorem Fits.find?_bag {bag : Object} (fits : t.Fits fields result)
    (bagged : fields.find? "_dustbin" = some (.object bag)) :
    ∃ kept, result.find? "_dustbin" = some (.object kept) ∧ ∀ key, kept.find? key =
      if t.declares key = true then bag.find? key else (fields.find? key).or (bag.find? key) := by
  have own : bagOf fields = bag := by rw [bagOf, bagged]
  by_cases declared : ∀ key, fields.contains key = true → t.declares key = true
  · refine ⟨bag, (fits.bag_of_declared declared).trans bagged, ?_⟩
    intro key
    by_cases known : t.declares key = true
    · rw [if_pos known]
    · rw [if_neg known, find?_of_declared declared known, Option.none_or]
  · have undeclared : ∃ key, fields.contains key = true ∧ t.declares key = false := by
      simpa using declared
    rw [← own]
    exact fits.bag_of_undeclared undeclared

end Template

namespace Registry

/-- What a document sanitizes to: an object of a registered type is fitted to its template, and a
list of parts that it is given becomes the list of what its items sanitize to. -/
inductive Fitted (registry : Registry) : Value → Value → Prop
  | leaf {fields result : Object} {t : Template} (chosen : registry.templateOf fields = .ok t)
      (fits : t.Fits fields result) (noList : ∀ items, t.given fields "parts" ≠ some (.array items))
      (parts : result.find? "parts" = t.given fields "parts") :
      Fitted registry (.object fields) (.object result)
  | branch {fields result : Object} {t : Template} {items sanitized : List Value}
      (chosen : registry.templateOf fields = .ok t) (fits : t.Fits fields result)
      (list : t.given fields "parts" = some (.array items))
      (parts : result.find? "parts" = some (.array sanitized))
      (lengths : items.length = sanitized.length)
      (each : ∀ i inItems inSanitized,
        Fitted registry (items.get ⟨i, inItems⟩) (sanitized.get ⟨i, inSanitized⟩)) :
      Fitted registry (.object fields) (.object result)

variable {registry : Registry} {document sanitized : Value} {fields : Object} {t : Template}

theorem declares_bag (chosen : registry.templateOf fields = .ok t) :
    t.declares "_dustbin" = true := by
  rcases templateOf_eq_ok chosen with ⟨own, -, shape⟩
  rw [Template.declares, KeyMap.contains, shape, Template.find?_ofOwn]
  cases own.find? "_dustbin" <;> rfl

theorem fitted_of_node {entered : List String}
    (ok : (Sanitize.node registry entered document).result = .ok sanitized) :
    registry.Fitted document sanitized := by
  induction entered, document using Sanitize.walk_induction registry generalizing sanitized with
  | scalar entered v notObject =>
      rcases Sanitize.node_eq_ok.mp ok with ⟨fields, t, rfl, -⟩
      exact absurd rfl (notObject fields)
  | object entered fields below =>
      rcases Sanitize.node_eq_ok.mp ok with ⟨_, t, same, chosen, outcome⟩
      cases same
      have fits : t.Fits fields (t.reconcile fields) :=
        Template.fits_reconcile (declares_bag chosen)
      have given := t.find?_reconcile_eq_given fields (show "parts" ≠ "_dustbin" by decide)
      rcases outcome with ⟨none_found, rfl⟩ | ⟨items, parts, found, fresh, each, rfl⟩
      · exact .leaf chosen fits (given ▸ none_found) given
      · rcases List.forall₂_iff_get.mp each with ⟨lengths, at_index⟩
        have fits_parts : t.Fits fields ((t.reconcile fields).insert "parts" (.array parts)) := by
          apply fits.congr
          intro key notParts
          rw [KeyMap.find?_insert, if_neg notParts]
        have top : ((t.reconcile fields).insert "parts" (.array parts)).find? "parts" =
            some (.array parts) := by
          rw [KeyMap.find?_insert, if_pos rfl]
        refine .branch chosen fits_parts (given.symm.trans found) top lengths ?_
        intro i inItems inParts
        exact below t items chosen found fresh _ (List.get_mem ..) (at_index i inItems inParts)

theorem exists_fits_of_fitted (fitted : registry.Fitted (.object fields) sanitized) :
    ∃ t result, sanitized = .object result ∧ registry.templateOf fields = .ok t ∧
      t.Fits fields result := by
  cases fitted with
  | leaf chosen fits _ _ => exact ⟨_, _, rfl, chosen, fits⟩
  | branch chosen fits _ _ _ _ => exact ⟨_, _, rfl, chosen, fits⟩

theorem finishes_of_sanitize (ok : registry.sanitize document = .ok sanitized) :
    registry.Finishes document := by
  rw [finishes_iff_not_endless]
  intro typeName endless
  rw [ok] at endless
  cases endless

/-- A node is sanitized once its parts are, each by itself. The parts may be default parts, so it
has to be shown that their types are not entered for ever. -/
theorem sanitize_of_parts {items parts : List Value} (chosen : registry.templateOf fields = .ok t)
    (found : (t.reconcile fields).find? "parts" = some (.array items))
    (each : List.Forall₂ (fun item part => registry.sanitize item = .ok part) items parts) :
    registry.sanitize (.object fields) =
      .ok (.object ((t.reconcile fields).insert "parts" (.array parts))) := by
  have finish : ∀ item ∈ items, registry.Finishes item := by
    intro item member
    rcases exists_right_of_forall₂ each member with ⟨part, -, item_ok⟩
    exact finishes_of_sanitize item_ok
  rcases exists_depth_of_finishes finish with ⟨depth, finished⟩
  have walked : items.mapM (Sanitize.descend registry depth) = .ok parts := by
    apply mapM_eq_ok.mpr
    apply forall₂_of_mem each
    intro item member part item_ok
    rw [← sanitize_eq_descend (finished item member), item_ok]
    rfl
  have descended : Sanitize.descend registry (depth + 1) (.object fields) =
      .ok (Sanitize.withParts (t.reconcile fields) parts) := by
    rw [Sanitize.descend_of_parts chosen found, walked]
    rfl
  have ended : Sanitize.descend registry (depth + 1) (.object fields) ≠ .error .tooDeep := by
    rw [descended]
    simp
  exact mapError_eq_ok.mp ((sanitize_eq_descend ended).trans descended)

theorem sanitize_of_fitted (fitted : registry.Fitted document sanitized) :
    registry.sanitize document = .ok sanitized := by
  induction fitted with
  | @leaf fields result t chosen fits noList parts =>
      have given := t.find?_reconcile_eq_given fields (show "parts" ≠ "_dustbin" by decide)
      have same : t.reconcile fields = result := by
        apply KeyMap.ext
        intro key
        by_cases isParts : key = "parts"
        · rw [isParts, given, parts]
        · exact (Template.fits_reconcile (declares_bag chosen)).unique fits isParts
      have ok : registry.sanitize (.object fields) = .ok (.object (t.reconcile fields)) :=
        Sanitize.result_node_of_no_parts chosen (given.symm ▸ noList)
      rw [same] at ok
      exact ok
  | @branch fields result t items sanitized chosen fits list parts lengths each each_ok =>
      have given := t.find?_reconcile_eq_given fields (show "parts" ≠ "_dustbin" by decide)
      have same : (t.reconcile fields).insert "parts" (.array sanitized) = result := by
        apply KeyMap.ext
        intro key
        rw [KeyMap.find?_insert]
        by_cases isParts : key = "parts"
        · rw [if_pos isParts, isParts, parts]
        · rw [if_neg isParts]
          exact (Template.fits_reconcile (declares_bag chosen)).unique fits isParts
      have ok := sanitize_of_parts chosen (given.trans list)
        (List.forall₂_iff_get.mpr ⟨lengths, each_ok⟩)
      rw [same] at ok
      exact ok

/-- Sanitizing is the key by key account of it, at the root and at every node below. -/
theorem sanitize_eq_ok_iff_fitted (registry : Registry) (document sanitized : Value) :
    registry.sanitize document = .ok sanitized ↔ registry.Fitted document sanitized := by
  constructor
  · exact fitted_of_node
  · exact sanitize_of_fitted

/-- A bag keeps all its keys. It keeps its values too, unless a field that is not declared stands
beside it with another value under one of them. -/
theorem bag_whole_iff {bag : Object} (bagged : fields.find? "_dustbin" = some (.object bag))
    (ok : registry.sanitize (.object fields) = .ok sanitized) :
    ∃ t kept, registry.templateOf fields = .ok t ∧
      sanitized.fields.find? "_dustbin" = some (.object kept) ∧
      (∀ key, bag.contains key = true → kept.contains key = true) ∧
      ((∀ key value, bag.find? key = some value → kept.find? key = some value) ↔
        ∀ key value other, bag.find? key = some value → fields.find? key = some other →
          t.declares key = false → other = value) := by
  rcases exists_fits_of_fitted (fitted_of_node ok) with ⟨t, result, rfl, chosen, fits⟩
  rcases fits.find?_bag bagged with ⟨kept, found, holds⟩
  refine ⟨t, kept, chosen, found, ?_, ?_⟩
  · intro key present
    rw [KeyMap.contains, holds key]
    split
    · exact present
    · rw [Option.isSome_or, Bool.or_eq_true]
      exact .inr present
  · constructor
    · intro whole key value other inBag beside undeclared
      have kept_value := whole key value inBag
      rw [holds key, undeclared, beside] at kept_value
      exact Option.some.inj kept_value
    · intro agree key value inBag
      rw [holds key]
      cases declared : t.declares key with
      | true => exact inBag
      | false =>
          cases beside : fields.find? key with
          | none => exact inBag
          | some other => exact congrArg some (agree key value other inBag beside declared)

def dialBag : Object := KeyMap.ofList [
  ("type", .string "box"),
  ("height", .number (.ofUInt64 4)),
  ("color", .string "red")]

def dialFields : Object := KeyMap.ofList [
  ("type", .string "cylinder"),
  ("height", .number (.ofUInt64 7)),
  ("color", .string "red"),
  ("name", .string "dial"),
  ("_dustbin", .object dialBag)]

def dialKept : Object := dialBag.insert "name" (.string "dial")

def dialSanitized : Value :=
  .object (KeyMap.layOver
    (KeyMap.ofList [
      ("type", .string "cylinder"),
      ("radii", Vec.toValue [.ofUInt64 10, .ofUInt64 15]),
      ("height", .number (.ofUInt64 4)),
      ("_dustbin", .object dialKept)])
    Template.master)

theorem dial_bag_whole_iff :
    (dialFields.find? "_dustbin" = some (.object dialBag) ∧
      builtin.sanitize (.object dialFields) = .ok dialSanitized) ∧
    dialSanitized.fields.find? "_dustbin" = some (.object dialKept) ∧
    ∃ t, builtin.templateOf dialFields = .ok t ∧
      (∀ key, dialBag.contains key = true → dialKept.contains key = true) ∧
      (∀ key value, dialBag.find? key = some value → dialKept.find? key = some value) ∧
      ∀ key value other, dialBag.find? key = some value → dialFields.find? key = some other →
        t.declares key = false → other = value := by
  have bagged : dialFields.find? "_dustbin" = some (.object dialBag) := by decide +kernel
  have ok : builtin.sanitize (.object dialFields) = .ok dialSanitized := by decide +kernel
  have bag : dialSanitized.fields.find? "_dustbin" = some (.object dialKept) := by decide +kernel
  obtain ⟨t, kept, chosen, found, keys, whole_iff⟩ := bag_whole_iff bagged ok
  rw [bag] at found
  cases found
  have fresh : dialBag.find? "name" = none := by decide +kernel
  have whole : ∀ key value, dialBag.find? key = some value → dialKept.find? key = some value := by
    intro key value inBag
    have other : key ≠ "name" := by
      rintro rfl
      cases fresh.symm.trans inBag
    rw [dialKept, KeyMap.find?_insert, if_neg other, inBag]
  exact ⟨⟨bagged, ok⟩, bag, t, chosen, keys, whole, whole_iff.mp whole⟩

def crateFields : Object := KeyMap.ofList [
  ("type", .string "box"),
  ("color", .string "red"),
  ("_dustbin", .object (KeyMap.ofList [("color", .string "blue")]))]

def crateSanitized : Value :=
  .object (KeyMap.layOver
    (KeyMap.ofList [
      ("type", .string "box"),
      ("dimensions", Vec.toValue (List.replicate 3 (.ofUInt64 10))),
      ("_dustbin", .object (KeyMap.ofList [("color", .string "red")]))])
    Template.master)

theorem crate_bag_not_whole :
    crateFields.find? "_dustbin" =
        some (.object (KeyMap.ofList [("color", .string "blue")])) ∧
      builtin.sanitize (.object crateFields) = .ok crateSanitized ∧
      ¬ ∃ kept, crateSanitized.fields.find? "_dustbin" = some (.object kept) ∧
        kept.find? "color" = some (.string "blue") := by
  refine ⟨by decide +kernel, by decide +kernel, ?_⟩
  have bag : crateSanitized.fields.find? "_dustbin" =
      some (.object (KeyMap.ofList [("color", .string "red")])) := by decide +kernel
  intro whole
  rcases whole with ⟨kept, found, blue⟩
  rw [bag] at found
  cases found
  exact absurd blue (by decide +kernel)

end Registry

end PartTree
