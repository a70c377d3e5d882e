import PartTree.Proofs.Fitting
import PartTree.Proofs.Sequence

/-!
One step of sanitizing: what an object becomes, and the induction that goes down into the parts that
a node brings or is given. The types already entered can only stand in the way.
-/

namespace PartTree

/-- The types entered below a node. Only the default parts of a type enter it. -/
def Template.enter (t : Template) (fields : Object) (entered : List String) : List String :=
  if bringsParts fields = true then entered else entered ++ [t.typeName]

namespace Registry

variable {registry : Registry} {fields other : Object} {t : Template}

theorem templateOf_congr (same : other.find? "type" = fields.find? "type") :
    registry.templateOf other = registry.templateOf fields := by
  rw [templateOf, templateOf, same]

theorem templateOf_eq_error {e : SanitizeError} (failed : registry.templateOf fields = .error e) :
    ∃ cause, e = .unknownType cause := by
  unfold templateOf at failed
  split at failed
  · split at failed
    · cases failed
    · cases failed
      exact ⟨_, rfl⟩
  · cases failed
    exact ⟨.missing, rfl⟩

theorem declares_type (chosen : registry.templateOf fields = .ok t) :
    t.declares "type" = true := by
  rcases templateOf_eq_ok chosen with ⟨own, -, shape⟩
  rw [Template.declares, KeyMap.contains, shape, Template.find?_ofOwn]
  cases own.find? "type" <;> rfl

theorem templateOf_type (chosen : registry.templateOf fields = .ok t) :
    fields.find? "type" = some (.string t.typeName) ∧ registry.template? t.typeName = some t := by
  unfold templateOf at chosen
  split at chosen
  · rename_i typeName found
    split at chosen
    · rename_i known
      cases chosen
      obtain ⟨own, -, rfl⟩ := Option.map_eq_some_iff.mp known
      exact ⟨found, known⟩
    · cases chosen
  · cases chosen

theorem find?_type_reconcile (chosen : registry.templateOf fields = .ok t) :
    (t.reconcile fields).find? "type" = fields.find? "type" := by
  have present := (templateOf_type chosen).1
  rw [t.find?_reconcile fields (by decide), if_pos (declares_type chosen), present]
  rfl

theorem templateOf_of_fitted (chosen : registry.templateOf fields = .ok t)
    (same : other.find? "type" = (t.reconcile fields).find? "type") :
    registry.templateOf other = .ok t := by
  calc
    registry.templateOf other = registry.templateOf fields :=
      templateOf_congr (same.trans (find?_type_reconcile chosen))
    _ = .ok t := chosen

end Registry

namespace Sanitize

variable {registry : Registry} {entered : List String}

/-- What holds of the parts that come out of fitting a node holds of the node. -/
theorem walk_induction (registry : Registry) {motive : List String → Value → Prop}
    (scalar : ∀ entered v, (∀ fields, v ≠ .object fields) → motive entered v)
    (object : ∀ entered fields, (∀ t items, registry.templateOf fields = .ok t →
      (t.reconcile fields).find? "parts" = some (.array items) →
      (bringsParts fields = true ∨ t.typeName ∉ entered) →
      ∀ item ∈ items, motive (t.enter fields entered) item) → motive entered (.object fields))
    (entered : List String) (v : Value) : motive entered v := by
  apply node.induct registry motive (fun entered items => ∀ item ∈ items, motive entered item)
  · intro entered fields e failed
    apply object
    intro t items chosen
    rw [failed] at chosen
    cases chosen
  · intro entered fields t chosen brought default
    apply object
    intro other items again found fresh
    rw [chosen] at again
    cases again
    by_cases brings : bringsParts fields = true
    · rw [Template.enter, if_pos brings]
      exact brought items found brings
    · rw [Template.enter, if_neg brings]
      exact default items found brings (fresh.resolve_left brings)
  · exact scalar
  · intro entered item member
    cases member
  · intro entered head tail first others item member
    rcases List.mem_cons.mp member with rfl | later
    · exact first
    · exact others item later

theorem result_nodes (entered : List String) (items : List Value) :
    (nodes registry entered items).result =
      items.mapM fun item => (node registry entered item).result := by
  have walked : (nodes registry entered items).result =
      items.mapM fun item => id <$> (node registry entered item).result := by
    apply result_eq_mapM
    · rw [nodes]
    · intro item items
      rw [nodes]
      rfl
  simpa only [id_map] using walked

theorem result_node_of_parts {fields : Object} {t : Template} {items : List Value}
    (chosen : registry.templateOf fields = .ok t)
    (found : (t.reconcile fields).find? "parts" = some (.array items)) :
    (node registry entered (.object fields)).result =
      if bringsParts fields = true ∨ t.typeName ∉ entered then
        (fun sanitized => .object ((t.reconcile fields).insert "parts" (.array sanitized))) <$>
          items.mapM fun item => (node registry (t.enter fields entered) item).result
      else .error (.endless t.typeName) := by
  rw [node_object]
  simp only [chosen, found, Logged.result_bind, Logged.result_reportAll]
  by_cases brings : bringsParts fields = true
  · simp only [brings, Template.enter, ↓reduceIte, true_or, ← result_nodes, Logged.result_bind]
    rfl
  · by_cases again : t.typeName ∈ entered
    · simp only [brings, again, not_true_eq_false, or_self, Bool.false_eq_true, ↓reduceIte]
      rfl
    · simp only [brings, again, Template.enter, not_false_eq_true, or_true, Bool.false_eq_true,
        ↓reduceIte, ← result_nodes, Logged.result_bind]
      rfl

theorem result_node_of_no_parts {fields : Object} {t : Template}
    (chosen : registry.templateOf fields = .ok t)
    (none_found : ∀ items, (t.reconcile fields).find? "parts" ≠ some (.array items)) :
    (node registry entered (.object fields)).result = .ok (.object (t.reconcile fields)) := by
  rw [node_object]
  simp only [chosen, Logged.result_bind, Logged.result_reportAll]
  rfl

theorem node_eq_ok {v s : Value} :
    (node registry entered v).result = .ok s ↔
      ∃ fields t, v = .object fields ∧ registry.templateOf fields = .ok t ∧
        (((∀ items, (t.reconcile fields).find? "parts" ≠ some (.array items)) ∧
            s = .object (t.reconcile fields)) ∨
          ∃ items sanitized, (t.reconcile fields).find? "parts" = some (.array items) ∧
            (bringsParts fields = true ∨ t.typeName ∉ entered) ∧
            List.Forall₂ (fun item result =>
              (node registry (t.enter fields entered) item).result = .ok result) items sanitized ∧
            s = .object ((t.reconcile fields).insert "parts" (.array sanitized))) := by
  constructor
  · intro ok
    cases v with
    | object fields =>
        cases chosen : registry.templateOf fields with
        | error e =>
            rw [node_object, chosen] at ok
            cases ok
        | ok t =>
            refine ⟨fields, t, rfl, chosen, ?_⟩
            by_cases some_found :
                ∃ items, (t.reconcile fields).find? "parts" = some (.array items)
            · rcases some_found with ⟨items, found⟩
              rw [result_node_of_parts chosen found] at ok
              split at ok
              · rename_i fresh
                rcases map_eq_ok.mp ok with ⟨sanitized, each, rfl⟩
                exact .inr ⟨items, sanitized, found, fresh, mapM_eq_ok.mp each, rfl⟩
              · cases ok
            · have none_found := not_exists.mp some_found
              rw [result_node_of_no_parts chosen none_found] at ok
              cases ok
              exact .inl ⟨none_found, rfl⟩
    | _ =>
        rw [node] at ok
        · cases ok
        · intro fields same
          cases same
  · intro found
    rcases found with ⟨fields, t, rfl, chosen, outcome⟩
    rcases outcome with ⟨none_found, rfl⟩ | ⟨items, sanitized, found, fresh, each, rfl⟩
    · exact result_node_of_no_parts chosen none_found
    · rw [result_node_of_parts chosen found, if_pos fresh, mapM_eq_ok.mpr each]
      rfl

/-- A sanitized node is settled, and fitting it decided everything but its parts. -/
theorem settled_of_node_eq_ok {v s : Value} (ok : (node registry entered v).result = .ok s) :
    ∃ fields t result, v = .object fields ∧ s = .object result ∧
      registry.templateOf fields = .ok t ∧ registry.templateOf result = .ok t ∧
      t.Settled result ∧
      ∀ key, key ≠ "parts" → result.find? key = (t.reconcile fields).find? key := by
  rcases node_eq_ok.mp ok with ⟨fields, t, rfl, chosen, outcome⟩
  have settled := t.settled_reconcile fields
  rcases outcome with ⟨-, rfl⟩ | ⟨items, sanitized, found, -, -, rfl⟩
  · have again := Registry.templateOf_of_fitted chosen rfl
    exact ⟨fields, t, t.reconcile fields, rfl, rfl, chosen, again, settled, fun _ _ => rfl⟩
  · have declared := Template.declares_of_find?_reconcile (by decide) found
    have same : ∀ key, key ≠ "parts" →
        ((t.reconcile fields).insert "parts" (.array sanitized)).find? key =
          (t.reconcile fields).find? key := by
      intro key elsewhere
      rw [KeyMap.find?_insert, if_neg elsewhere]
    have again := Registry.templateOf_of_fitted chosen (same "type" (by decide))
    exact ⟨fields, t, _, rfl, rfl, chosen, again, settled.insert_parts declared _, same⟩

theorem subset_enter (t : Template) (fields : Object) (entered : List String) :
    entered ⊆ t.enter fields entered := by
  rw [Template.enter]
  split
  · exact List.Subset.refl entered
  · exact List.subset_append_left entered [t.typeName]

theorem enter_of_brings {t : Template} {fields : Object} (brings : bringsParts fields = true) :
    t.enter fields entered = entered := if_pos brings

theorem enter_subset {fields : Object} {t : Template} {fewer : List String}
    (subset : fewer ⊆ entered) : t.enter fields fewer ⊆ t.enter fields entered := by
  rw [Template.enter, Template.enter]
  split
  · exact subset
  · exact append_singleton_subset subset _

/-- What sanitizes below some types sanitizes to the same below fewer of them. -/
theorem node_eq_ok_of_subset {v s : Value} {fewer : List String} (subset : fewer ⊆ entered)
    (ok : (node registry entered v).result = .ok s) :
    (node registry fewer v).result = .ok s := by
  induction entered, v using walk_induction registry generalizing s fewer with
  | scalar entered v notObject =>
      rcases node_eq_ok.mp ok with ⟨fields, t, rfl, -⟩
      exact absurd rfl (notObject fields)
  | object entered fields below =>
      rcases node_eq_ok.mp ok with ⟨_, t, same, chosen, outcome⟩
      cases same
      rcases outcome with shallow | ⟨items, sanitized, found, fresh, each, rfl⟩
      · exact node_eq_ok.mpr ⟨fields, t, rfl, chosen, .inl shallow⟩
      · have still : bringsParts fields = true ∨ t.typeName ∉ fewer :=
          fresh.imp_right fun missing member => missing (subset member)
        have others : List.Forall₂ (fun item result =>
            (node registry (t.enter fields fewer) item).result = .ok result) items sanitized := by
          apply forall₂_of_mem each
          intro item member result item_ok
          exact below t items chosen found fresh item member (enter_subset subset) item_ok
        exact node_eq_ok.mpr ⟨fields, t, rfl, chosen,
          .inr ⟨items, sanitized, found, still, others, rfl⟩⟩

end Sanitize

namespace Value

def fields : Value → Object
  | .object fields => fields
  | _ => .nil

end Value

namespace Registry

variable {registry : Registry} {fields : Object} {t : Template}

/-- What sanitizing makes of the parts that a node brings. -/
def sanitizeParts (registry : Registry) : Value → Except SanitizeError Value
  | .array items => .array <$> items.mapM registry.sanitize
  | found => .ok found

theorem find?_parts_of_sanitize {s raw : Value} (chosen : registry.templateOf fields = .ok t)
    (brings : bringsParts fields = true) (found : (t.reconcile fields).find? "parts" = some raw)
    (ok : registry.sanitize (.object fields) = .ok s) :
    ∃ parts, registry.sanitizeParts raw = .ok parts ∧ s.fields.find? "parts" = some parts := by
  rcases Sanitize.node_eq_ok.mp ok with ⟨_, own, same, again, outcome⟩
  cases same
  rw [chosen] at again
  cases again
  rcases outcome with ⟨none_found, rfl⟩ | ⟨items, sanitized, found_items, -, each, rfl⟩
  · refine ⟨raw, ?_, found⟩
    cases raw with
    | array items => exact absurd found (none_found items)
    | _ => rfl
  · rw [found] at found_items
    cases found_items
    rw [Sanitize.enter_of_brings brings] at each
    refine ⟨.array sanitized, map_eq_ok.mpr ⟨sanitized, mapM_eq_ok.mpr each, rfl⟩, ?_⟩
    rw [Value.fields, KeyMap.find?_insert, if_pos rfl]

end Registry

end PartTree
