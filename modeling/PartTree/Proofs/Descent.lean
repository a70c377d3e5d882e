import PartTree.Proofs.Sanitizing
import Mathlib.Data.Nat.Find

/-!
The walk into the parts without its guard against types that fill in parts for ever. Cut off at a
depth it is a walk like any other; the documents that it finishes at some depth are the ones that
sanitizing does not call endless, and it leaves them as sanitizing does.
-/

namespace PartTree

inductive Halt
  | tooDeep
  | unknownType (cause : UnknownType)
  deriving DecidableEq

def Halt.ofError : SanitizeError → Halt
  | .unknownType cause => .unknownType cause
  | .endless _ => .tooDeep

namespace Sanitize

def withParts (fitted : Object) (parts : List Value) : Value :=
  .object (fitted.insert "parts" (.array parts))

/-- A node and its parts down to a depth, by templates alone: no type counts as entered. -/
def descend (registry : Registry) : Nat → Value → Except Halt Value
  | 0, _ => .error .tooDeep
  | depth + 1, .object fields =>
    match registry.templateOf fields with
    | .error e => .error (.ofError e)
    | .ok t =>
      match (t.reconcile fields).find? "parts" with
      | some (.array items) =>
        withParts (t.reconcile fields) <$> items.mapM (descend registry depth)
      | _ => .ok (.object (t.reconcile fields))
  | _ + 1, _ => .error (.unknownType .missing)

/-- Sanitizing below some types, with the parts that never end taken for parts too deep. -/
def guarded (registry : Registry) (entered : List String) (v : Value) : Except Halt Value :=
  (node registry entered v).result.mapError .ofError

variable {registry : Registry} {entered : List String} {depth deeper : Nat} {v : Value}
variable {fields : Object} {t : Template} {items : List Value}

theorem descend_of_parts (chosen : registry.templateOf fields = .ok t)
    (found : (t.reconcile fields).find? "parts" = some (.array items)) :
    descend registry (depth + 1) (.object fields) =
      withParts (t.reconcile fields) <$> items.mapM (descend registry depth) := by
  rw [descend, chosen]
  simp only [found]

theorem guarded_of_parts (chosen : registry.templateOf fields = .ok t)
    (found : (t.reconcile fields).find? "parts" = some (.array items)) :
    guarded registry entered (.object fields) =
      if bringsParts fields = true ∨ t.typeName ∉ entered then
        withParts (t.reconcile fields) <$>
          items.mapM (guarded registry (t.enter fields entered))
      else .error .tooDeep := by
  rw [guarded, result_node_of_parts chosen found]
  split
  · have inside : (items.mapM fun item =>
          (node registry (t.enter fields entered) item).result).mapError .ofError =
        items.mapM (guarded registry (t.enter fields entered)) := mapError_mapM ..
    rw [← inside]
    cases items.mapM fun item => (node registry (t.enter fields entered) item).result <;> rfl
  · rfl

/-- A node either has no parts to walk, and the same outcome at every depth and below all types, or
it has the parts of its fitted fields. -/
theorem leaf_or_parts (registry : Registry) (v : Value) :
    (∃ outcome ≠ .error .tooDeep, (∀ depth, descend registry (depth + 1) v = outcome) ∧
      ∀ entered, guarded registry entered v = outcome) ∨
    ∃ fields t items, v = .object fields ∧ registry.templateOf fields = .ok t ∧
      (t.reconcile fields).find? "parts" = some (.array items) := by
  cases v with
  | object fields =>
      cases chosen : registry.templateOf fields with
      | error e =>
          obtain ⟨cause, rfl⟩ := Registry.templateOf_eq_error chosen
          refine .inl ⟨.error (.unknownType cause), by simp, ?_, ?_⟩
          · intro depth
            rw [descend, chosen]
            rfl
          · intro entered
            rw [guarded, node_object, chosen]
            rfl
      | ok t =>
          by_cases some_found : ∃ items, (t.reconcile fields).find? "parts" = some (.array items)
          · obtain ⟨items, found⟩ := some_found
            exact .inr ⟨fields, t, items, rfl, chosen, found⟩
          · have none_found := not_exists.mp some_found
            refine .inl ⟨.ok (.object (t.reconcile fields)), by simp, ?_, ?_⟩
            · intro depth
              simp only [descend, chosen]
            · intro entered
              rw [guarded, result_node_of_no_parts chosen none_found]
              rfl
  | _ =>
      refine .inl ⟨.error (.unknownType .missing), by simp, fun _ => rfl, fun entered => ?_⟩
      rw [guarded, node]
      · rfl
      · intro fields same
        cases same

/-- What holds of the nodes without parts to walk, and of a node when it holds of its parts wherever
the guard lets the walk go on to them, holds of every node. -/
theorem parts_induction (registry : Registry) {motive : List String → Value → Prop}
    (leaf : ∀ entered v outcome, outcome ≠ .error .tooDeep →
      (∀ depth, descend registry (depth + 1) v = outcome) →
      guarded registry entered v = outcome → motive entered v)
    (parts : ∀ entered fields t items, registry.templateOf fields = .ok t →
      (t.reconcile fields).find? "parts" = some (.array items) →
      ((bringsParts fields = true ∨ t.typeName ∉ entered) →
        ∀ item ∈ items, motive (t.enter fields entered) item) → motive entered (.object fields))
    (entered : List String) (v : Value) : motive entered v := by
  induction entered, v using walk_induction registry with
  | scalar entered v notObject =>
      rcases leaf_or_parts registry v with
        ⟨outcome, settled, cut, same⟩ | ⟨fields, _, _, object, -⟩
      · exact leaf entered v outcome settled cut (same entered)
      · exact absurd object (notObject fields)
  | object entered fields below =>
      rcases leaf_or_parts registry (.object fields) with
        ⟨outcome, settled, cut, same⟩ | ⟨_, t, items, object, chosen, found⟩
      · exact leaf entered _ outcome settled cut (same entered)
      · cases object
        exact parts entered fields t items chosen found (below t items chosen found)

theorem finished_of_parts (chosen : registry.templateOf fields = .ok t)
    (found : (t.reconcile fields).find? "parts" = some (.array items)) :
    descend registry (depth + 1) (.object fields) ≠ .error .tooDeep ↔
      items.mapM (descend registry depth) ≠ .error .tooDeep := by
  rw [descend_of_parts chosen found, ne_eq, map_eq_error]

theorem descend_of_le (le : depth ≤ deeper)
    (finished : descend registry depth v ≠ .error .tooDeep) :
    descend registry deeper v = descend registry depth v := by
  induction depth generalizing v deeper with
  | zero => exact absurd rfl finished
  | succ depth ih =>
      obtain ⟨further, rfl⟩ : ∃ further, deeper = further + 1 := ⟨deeper - 1, by omega⟩
      rcases leaf_or_parts registry v with
        ⟨outcome, -, cut, -⟩ | ⟨fields, t, items, rfl, chosen, found⟩
      · rw [cut, cut]
      · have settled := (finished_of_parts chosen found).mp finished
        have same : items.mapM (descend registry further) = items.mapM (descend registry depth) :=
          mapM_eq_of_agree settled fun _ _ => ih (Nat.le_of_succ_le_succ le)
        rw [descend_of_parts chosen found, descend_of_parts chosen found, same]

theorem mapM_descend_of_le (le : depth ≤ deeper)
    (finished : items.mapM (descend registry depth) ≠ .error .tooDeep) :
    items.mapM (descend registry deeper) = items.mapM (descend registry depth) :=
  mapM_eq_of_agree finished fun _ _ => descend_of_le le

/-- The default parts of the entered types are not finished at a smaller depth. -/
def Pending (registry : Registry) (entered : List String) (depth : Nat) : Prop :=
  ∀ typeName ∈ entered, ∀ own items, registry.find? typeName = some own →
    own.find? "parts" = some (.array items) →
    ∀ less < depth, items.mapM (descend registry less) = .error .tooDeep

theorem Pending.nil : Pending registry [] depth := by
  intro typeName member
  cases member

theorem Pending.of_le (pending : Pending registry entered deeper) (le : depth ≤ deeper) :
    Pending registry entered depth := by
  intro typeName member own items present default less below
  exact pending typeName member own items present default less (by omega)

/-- Parts that are finished at a depth are walked below types whose default parts are not: the type
that fills them in is entered at the least depth that finishes them. -/
theorem exists_pending_enter (pending : Pending registry entered (depth + 1))
    (chosen : registry.templateOf fields = .ok t)
    (found : (t.reconcile fields).find? "parts" = some (.array items))
    (finished : items.mapM (descend registry depth) ≠ .error .tooDeep) :
    (bringsParts fields = true ∨ t.typeName ∉ entered) ∧
      ∃ least ≤ depth, items.mapM (descend registry least) ≠ .error .tooDeep ∧
        Pending registry (t.enter fields entered) least := by
  by_cases brings : bringsParts fields = true
  · rw [enter_of_brings brings]
    exact ⟨.inl brings, depth, Nat.le_refl depth, finished, pending.of_le (Nat.le_succ depth)⟩
  · obtain ⟨own, present, default⟩ := Registry.find?_parts_of_not_brings chosen found brings
    have fresh : t.typeName ∉ entered := by
      intro member
      exact finished (pending t.typeName member own items present default depth (by omega))
    have finishes : ∃ least, items.mapM (descend registry least) ≠ .error .tooDeep :=
      ⟨depth, finished⟩
    have least_le := Nat.find_min' finishes finished
    refine ⟨.inr fresh, Nat.find finishes, least_le, Nat.find_spec finishes, ?_⟩
    rw [Template.enter, if_neg brings]
    intro typeName member other others again brought less below
    rcases List.mem_append.mp member with earlier | last
    · exact pending typeName earlier other others again brought less (by omega)
    · rw [List.mem_singleton.mp last, present] at again
      cases again
      rw [default] at brought
      cases brought
      exact not_not.mp (Nat.find_min finishes below)

theorem guarded_eq_descend (pending : Pending registry entered depth)
    (finished : descend registry depth v ≠ .error .tooDeep) :
    guarded registry entered v = descend registry depth v := by
  -- A type is entered at its least depth, which can be less by more than one: strong induction.
  induction depth using Nat.strong_induction_on generalizing entered v with
  | h depth ih =>
      obtain _ | depth := depth
      · exact absurd rfl finished
      · rcases leaf_or_parts registry v with
          ⟨outcome, -, cut, same⟩ | ⟨fields, t, items, rfl, chosen, found⟩
        · rw [cut, same]
        · have settled := (finished_of_parts chosen found).mp finished
          obtain ⟨fresh, least, le, reached, still⟩ :=
            exists_pending_enter pending chosen found settled
          have same : items.mapM (guarded registry (t.enter fields entered)) =
              items.mapM (descend registry least) :=
            mapM_eq_of_agree reached fun _ _ => ih least (by omega) still
          rw [guarded_of_parts chosen found, if_pos fresh, same, descend_of_parts chosen found,
            mapM_descend_of_le le reached]

theorem exists_mapM_descend_eq
    (settled : items.mapM (guarded registry entered) ≠ .error .tooDeep)
    (each : ∀ item ∈ items, guarded registry entered item ≠ .error .tooDeep →
      ∃ depth, descend registry depth item = guarded registry entered item) :
    ∃ depth, items.mapM (descend registry depth) = items.mapM (guarded registry entered) := by
  obtain ⟨depth, agree⟩ : ∃ depth, ∀ item ∈ items,
      guarded registry entered item ≠ .error .tooDeep →
        descend registry depth item = guarded registry entered item := by
    apply exists_bound_of_mem
    · intro item depth deeper le agree item_settled
      have here := agree item_settled
      rw [descend_of_le le (here ▸ item_settled), here]
    · intro item member
      by_cases item_settled : guarded registry entered item = .error .tooDeep
      · exact ⟨0, fun other => absurd item_settled other⟩
      · obtain ⟨depth, here⟩ := each item member item_settled
        exact ⟨depth, fun _ => here⟩
  exact ⟨depth, mapM_eq_of_agree settled agree⟩

theorem exists_descend_eq (settled : guarded registry entered v ≠ .error .tooDeep) :
    ∃ depth, descend registry depth v = guarded registry entered v := by
  induction entered, v using parts_induction registry with
  | leaf entered v outcome _ cut same => exact ⟨1, (cut 0).trans same.symm⟩
  | parts entered fields t items chosen found below =>
      by_cases fresh : bringsParts fields = true ∨ t.typeName ∉ entered
      · rw [guarded_of_parts chosen found, if_pos fresh, ne_eq, map_eq_error] at settled
        obtain ⟨depth, reached⟩ := exists_mapM_descend_eq settled (below fresh)
        refine ⟨depth + 1, ?_⟩
        rw [descend_of_parts chosen found, guarded_of_parts chosen found, if_pos fresh, reached]
      · rw [guarded_of_parts chosen found, if_neg fresh] at settled
        exact absurd rfl settled

end Sanitize

namespace Registry

variable {registry : Registry} {document : Value}

/-- The walk ends on a document, in a result or at an unknown type. -/
def Finishes (registry : Registry) (document : Value) : Prop :=
  ∃ depth, Sanitize.descend registry depth document ≠ .error .tooDeep

theorem sanitize_eq_descend {depth : Nat}
    (finished : Sanitize.descend registry depth document ≠ .error .tooDeep) :
    (registry.sanitize document).mapError .ofError = Sanitize.descend registry depth document :=
  Sanitize.guarded_eq_descend Sanitize.Pending.nil finished

theorem mapError_eq_tooDeep_iff {α : Type} {outcome : Except SanitizeError α} :
    outcome.mapError Halt.ofError = .error .tooDeep ↔
      ∃ typeName, outcome = .error (.endless typeName) := by
  rw [mapError_eq_error]
  constructor
  · intro translated
    rcases translated with ⟨e, rfl, halted⟩
    cases e with
    | unknownType cause => cases halted
    | endless typeName => exact ⟨typeName, rfl⟩
  · intro endless
    rcases endless with ⟨typeName, rfl⟩
    exact ⟨.endless typeName, rfl, rfl⟩

theorem finishes_iff_not_endless :
    registry.Finishes document ↔
      ∀ typeName, registry.sanitize document ≠ .error (.endless typeName) := by
  rw [← not_exists, ← mapError_eq_tooDeep_iff]
  constructor
  · intro finishes
    obtain ⟨depth, finished⟩ := finishes
    rw [sanitize_eq_descend finished]
    exact finished
  · intro settled
    obtain ⟨depth, reached⟩ := Sanitize.exists_descend_eq settled
    exact ⟨depth, reached ▸ settled⟩

theorem finishes_of_parts {fields : Object} {t : Template} {items : List Value}
    (chosen : registry.templateOf fields = .ok t)
    (found : (t.reconcile fields).find? "parts" = some (.array items)) :
    registry.Finishes (.object fields) ↔
      ∃ depth, items.mapM (Sanitize.descend registry depth) ≠ .error .tooDeep := by
  constructor
  · intro finishes
    obtain ⟨depth, finished⟩ := finishes
    obtain _ | depth := depth
    · exact absurd rfl finished
    · exact ⟨depth, (Sanitize.finished_of_parts chosen found).mp finished⟩
  · intro finishes
    obtain ⟨depth, finished⟩ := finishes
    exact ⟨depth + 1, (Sanitize.finished_of_parts chosen found).mpr finished⟩

theorem exists_depth_of_finishes {items : List Value}
    (each : ∀ item ∈ items, registry.Finishes item) :
    ∃ depth, ∀ item ∈ items, Sanitize.descend registry depth item ≠ .error .tooDeep := by
  apply exists_bound_of_mem items ?_ each
  intro item depth deeper le finished
  rwa [Sanitize.descend_of_le le finished]

theorem exists_mapM_finished {items : List Value}
    (each : ∀ item ∈ items, registry.Finishes item) :
    ∃ depth, items.mapM (Sanitize.descend registry depth) ≠ .error .tooDeep := by
  obtain ⟨depth, finished⟩ := exists_depth_of_finishes each
  refine ⟨depth, fun failed => ?_⟩
  obtain ⟨item, member, stuck⟩ := mapM_eq_error failed
  exact finished item member stuck

def bare (typeName : String) : Object := KeyMap.ofList [("type", .string typeName)]

theorem find?_parts_bare {fields : Object} {t : Template}
    (none_brought : ¬ bringsParts fields = true) :
    (t.reconcile (bare t.typeName)).find? "parts" = (t.reconcile fields).find? "parts" := by
  simp only [bringsParts, KeyMap.contains, Bool.or_eq_true, not_or, Bool.not_eq_true,
    Option.isSome_eq_false_iff, Option.isNone_iff_eq_none] at none_brought
  rw [t.find?_reconcile _ (by decide), t.find?_reconcile _ (by decide), none_brought.1,
    none_brought.2]
  rfl

/-- The parts that a node brings are smaller than it, and default parts are those of the bare node
of its type. -/
theorem finishes_of_bare
    (bare_finish : ∀ typeName ∈ registry.keys, registry.Finishes (.object (bare typeName)))
    (document : Value) : registry.Finishes document := by
  -- The induction speaks of entered types; they play no part here.
  suffices walked : ∀ _entered : List String, registry.Finishes document from walked []
  intro entered
  induction entered, document using Sanitize.parts_induction registry with
  | leaf entered v outcome settled cut _ => exact ⟨1, (cut 0).trans_ne settled⟩
  | parts entered fields t items chosen found below =>
      apply (finishes_of_parts chosen found).mpr
      by_cases brings : bringsParts fields = true
      · exact exists_mapM_finished (below (.inl brings))
      · obtain ⟨named, -⟩ := templateOf_type chosen
        have again : registry.templateOf (bare t.typeName) = .ok t := by
          rw [← chosen]
          exact templateOf_congr named.symm
        have default := (find?_parts_bare brings).trans found
        obtain ⟨own, present, -⟩ := templateOf_eq_ok chosen
        have member : t.typeName ∈ registry.keys := by
          rw [KeyMap.mem_keys_iff, KeyMap.contains, present]
          rfl
        exact (finishes_of_parts again default).mp (bare_finish t.typeName member)

theorem finishes_builtin (document : Value) : builtin.Finishes document := by
  have shallow : ∀ typeName ∈ builtin.keys,
      Sanitize.descend builtin 1 (.object (bare typeName)) ≠ .error .tooDeep := by decide +kernel
  exact finishes_of_bare (fun typeName member => ⟨1, shallow typeName member⟩) document

/-- The walk finishes the documents that sanitizing does not call endless, and with the outcome of
sanitizing. It finishes them all if it finishes the bare node of each type. -/
theorem finishes_iff (registry : Registry) :
    (∀ document, registry.Finishes document ↔
      ∀ typeName, registry.sanitize document ≠ .error (.endless typeName)) ∧
    (∀ document depth, Sanitize.descend registry depth document ≠ .error .tooDeep →
      Sanitize.descend registry depth document =
        (registry.sanitize document).mapError .ofError) ∧
    ((∀ document, registry.Finishes document) ↔
      ∀ typeName ∈ registry.keys, registry.Finishes (.object (bare typeName))) := by
  refine ⟨fun document => finishes_iff_not_endless, ?_, ?_, finishes_of_bare⟩
  · intro document depth finished
    exact (sanitize_eq_descend finished).symm
  · intro finish typeName _
    exact finish (.object (bare typeName))

def shelfRegistry : Registry :=
  (builtin.register "shelf" (KeyMap.ofList [
    ("parts", .array [.object (bare "board"), .object (bare "composite")])])).register "board"
    (KeyMap.ofList [("parts", .array [.object ((bare "shelf").insert "parts" (.array []))])])

theorem shelf_finishes :
    Sanitize.descend shelfRegistry 4 (.object (bare "shelf")) ≠ .error .tooDeep ∧
      Sanitize.descend shelfRegistry 4 (.object (bare "shelf")) =
        (shelfRegistry.sanitize (.object (bare "shelf"))).mapError .ofError ∧
      ∀ document, shelfRegistry.Finishes document := by
  have shallow : ∀ typeName ∈ shelfRegistry.keys,
      Sanitize.descend shelfRegistry 4 (.object (bare typeName)) ≠ .error .tooDeep := by
    decide +kernel
  have shelf := shallow "shelf" (by decide +kernel)
  obtain ⟨-, outcome, all⟩ := finishes_iff shelfRegistry
  exact ⟨shelf, outcome _ 4 shelf, all.mpr fun typeName member => ⟨4, shallow typeName member⟩⟩

def nestRegistry : Registry :=
  register .nil "nest" (KeyMap.ofList [
    ("parts", .array [.object (bare "nest"), .object (bare "nope")])])

theorem nest_never_finishes : ¬ nestRegistry.Finishes (.object (bare "nest")) := by
  rw [finishes_iff_not_endless]
  intro finishes
  exact finishes "nest" (by decide +kernel)

end Registry

end PartTree
