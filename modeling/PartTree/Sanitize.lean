import PartTree.Logged
import PartTree.Template.Lemmas

/-!
Fitting a whole document to the templates of its types, node by node through the lists of parts.

The parts of a node may come from its template. A type whose default parts lead back to the type
itself fills in parts for ever; that is an error of its own here.
-/

namespace PartTree

inductive UnknownType
  | unregistered (typeName : String)
  | missing
  deriving DecidableEq

namespace UnknownType

def typeName : UnknownType → String
  | unregistered typeName => typeName
  | missing => "<missing>"

def message (e : UnknownType) : String :=
  "no template with name \"" ++ e.typeName ++ "\" defined"

end UnknownType

inductive SanitizeError
  | unknownType (cause : UnknownType)
  | endless (typeName : String)
  deriving DecidableEq

def SanitizeError.message : SanitizeError → String
  | unknownType cause => cause.message
  | endless typeName => "default parts of \"" ++ typeName ++ "\" contain themselves"

/-- Whether a node has parts, in its bag or as a field, before any default is filled in. -/
def bringsParts (fields : Object) : Bool :=
  (bagOf fields).contains "parts" || fields.contains "parts"

theorem sizeFields_bagOf_le (fields : Object) :
    Value.sizeFields (bagOf fields) ≤ Value.sizeFields fields := by
  rw [bagOf]
  split
  · rename_i bag found
    have := Value.size_le_sizeFields found
    rw [Value.size] at this
    omega
  · simp [Value.sizeFields]

theorem Template.sizeItems_lt {t : Template} {fields : Object} {items : List Value}
    (brings : bringsParts fields = true)
    (found : (t.reconcile fields).find? "parts" = some (.array items)) :
    Value.sizeItems items < (Value.object fields).size := by
  rw [find?_reconcile t fields (by decide)] at found
  have small : (Value.array items).size ≤ Value.sizeFields fields := by
    cases declared : t.declares "parts" <;> simp only [declared, Bool.false_eq_true,
      ↓reduceIte, reduceCtorEq, show ¬"parts" = "type" by decide] at found
    cases inBag : (bagOf fields).find? "parts" with
    | some value =>
      simp only [inBag, Option.some_or, Option.some.injEq] at found
      exact Nat.le_trans (found ▸ Value.size_le_sizeFields inBag) (sizeFields_bagOf_le fields)
    | none =>
      cases own : fields.find? "parts" with
      | some value =>
        simp only [inBag, own, Option.none_or, Option.some_or, Option.some.injEq] at found
        exact found ▸ Value.size_le_sizeFields own
      | none => simp [bringsParts, KeyMap.contains, inBag, own] at brings
  simp only [Value.size] at small ⊢
  omega

/-- The template of a document by the type that it names. -/
def Registry.templateOf (registry : Registry) (fields : Object) : Except SanitizeError Template :=
  match fields.find? "type" with
  | some (.string typeName) =>
    match registry.template? typeName with
    | some t => .ok t
    | none => .error (.unknownType (.unregistered typeName))
  | _ => .error (.unknownType .missing)

theorem Registry.templateOf_eq_ok {registry : Registry} {fields : Object} {t : Template}
    (chosen : registry.templateOf fields = .ok t) :
    ∃ own, registry.find? t.typeName = some own ∧ t = .ofOwn t.typeName own := by
  unfold templateOf at chosen
  split at chosen
  · split at chosen
    · rename_i known
      cases chosen
      obtain ⟨own, present, rfl⟩ := Option.map_eq_some_iff.mp known
      exact ⟨own, present, rfl⟩
    · cases chosen
  · cases chosen

/-- Parts that a document does not bring are the default parts of its type. -/
theorem Registry.find?_parts_of_not_brings {registry : Registry} {fields : Object} {t : Template}
    {items : List Value} (chosen : registry.templateOf fields = .ok t)
    (found : (t.reconcile fields).find? "parts" = some (.array items))
    (none_brought : ¬ bringsParts fields = true) :
    ∃ own, registry.find? t.typeName = some own ∧ own.find? "parts" = some (.array items) := by
  obtain ⟨own, present, shape⟩ := templateOf_eq_ok chosen
  refine ⟨own, present, ?_⟩
  simp only [bringsParts, KeyMap.contains, Bool.or_eq_true, not_or, Bool.not_eq_true,
    Option.isSome_eq_false_iff, Option.isNone_iff_eq_none] at none_brought
  rw [Template.find?_reconcile t fields (by decide), if_neg (show ¬ "parts" = "type" by decide),
    none_brought.1, none_brought.2] at found
  split at found
  · rw [shape, Template.find?_ofOwn] at found
    simpa [show Template.master.find? "parts" = none by rfl] using found
  · cases found

namespace Sanitize

variable (registry : Registry)

mutual

/-- A node below the default parts of the entered types. Parts that the document brings are smaller
than it; default parts enter their type. -/
def node (entered : List String) : Value → Logged SanitizeError Value
  | .object fields =>
    match _chosen : registry.templateOf fields with
    | .error e => .fail e
    | .ok t => do
      .reportAll (t.reconcileEvents fields)
      match _found : (t.reconcile fields).find? "parts" with
      | some (.array items) =>
        if _brings : bringsParts fields = true then
          let items ← nodes entered items
          pure (.object ((t.reconcile fields).insert "parts" (.array items)))
        else if _again : t.typeName ∈ entered then .fail (.endless t.typeName)
        else
          let items ← nodes (entered ++ [t.typeName]) items
          pure (.object ((t.reconcile fields).insert "parts" (.array items)))
      | _ => pure (.object (t.reconcile fields))
  | _ => .fail (.unknownType .missing)
termination_by value => value.size + registry.pending (Value.sizeUnder "parts") entered
decreasing_by
  · have less := Template.sizeItems_lt _brings _found
    omega
  · obtain ⟨own, present, default⟩ := Registry.find?_parts_of_not_brings _chosen _found _brings
    have less := KeyMap.pending_visit (Value.sizeUnder "parts") present _again
    rw [Value.sizeUnder_of_find? default] at less
    simp only [Value.size] at less ⊢
    omega

def nodes (entered : List String) : List Value → Logged SanitizeError (List Value)
  | [] => pure []
  | item :: items => do
    let item ← node entered item
    let items ← nodes entered items
    pure (item :: items)
termination_by items => Value.sizeItems items + registry.pending (Value.sizeUnder "parts") entered
decreasing_by
  all_goals
    simp only [Value.sizeItems]
    omega

end

theorem node_object (entered : List String) (fields : Object) :
    node registry entered (.object fields) =
      match registry.templateOf fields with
      | .error e => .fail e
      | .ok t => (do
        .reportAll (t.reconcileEvents fields)
        match (t.reconcile fields).find? "parts" with
        | some (.array items) =>
          if bringsParts fields = true then
            let items ← nodes registry entered items
            pure (.object ((t.reconcile fields).insert "parts" (.array items)))
          else if t.typeName ∈ entered then .fail (.endless t.typeName)
          else
            let items ← nodes registry (entered ++ [t.typeName]) items
            pure (.object ((t.reconcile fields).insert "parts" (.array items)))
        | _ => pure (.object (t.reconcile fields))) := by
  rw [node]
  split
  · simp only [*]
  · simp only [*]
    congr 1
    funext _
    split <;> simp only [*]
    split <;> rfl

end Sanitize

namespace Registry

def sanitizeLogged (registry : Registry) (document : Value) : Logged SanitizeError Value :=
  Sanitize.node registry [] document

def sanitize (registry : Registry) (document : Value) : Except SanitizeError Value :=
  (registry.sanitizeLogged document).result

end Registry

end PartTree
