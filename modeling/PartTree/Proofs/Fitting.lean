import PartTree.Sanitize

/-!
Nodes that are settled in a template: they have the keys that it declares, each with the value that
the overflow bag has for it. Fitting settles a node, and leaves a settled node as it is except that
it takes parts out of the bag once more.
-/

namespace PartTree

theorem bagOf_insert {fields : Object} {key : String} {value : Value} (ne : key ≠ "_dustbin") :
    bagOf (fields.insert key value) = bagOf fields := by
  rw [bagOf, KeyMap.find?_insert, if_neg ne.symm, bagOf]

namespace Template

variable (t : Template) (fields : Object) {key : String}

theorem declares_eq_false : t.declares key = false ↔ t.fields.find? key = none := by
  rw [declares, KeyMap.contains, Option.isSome_eq_false_iff, Option.isNone_iff_eq_none]

theorem bagOf_reconcile :
    bagOf (t.reconcile fields) = (t.excess (t.complement fields)).layOver (bagOf fields) := by
  rw [bagOf, find?_reconcile_bag]
  cases empty : (t.excess (t.complement fields)).isEmpty with
  | true =>
      rw [t.excess_eq_nil empty]
      rfl
  | false => rfl

/-- The bag takes in what is not declared, over what it had under the same key. -/
theorem find?_bagOf_reconcile (ne : key ≠ "_dustbin") :
    (bagOf (t.reconcile fields)).find? key =
      if t.declares key then (bagOf fields).find? key
      else (fields.find? key).or ((bagOf fields).find? key) := by
  rw [bagOf_reconcile, KeyMap.find?_layOver, find?_excess, find?_complement]
  cases declared : t.declares key with
  | true => simp
  | false =>
      have absent := t.declares_eq_false.mp declared
      simp [ne, absent]

/-- A node with the keys of its template, which agree with the bag. The parts of a node need not:
the bag keeps them as they were before their own nodes were fitted. -/
structure Settled (t : Template) (fields : Object) : Prop where
  declared : ∀ key, key ≠ "_dustbin" → (fields.contains key = true ↔ t.declares key = true)
  agrees : ∀ key value, key ≠ "type" → key ≠ "_dustbin" → key ≠ "parts" →
    t.declares key = true → (bagOf fields).find? key = some value → fields.find? key = some value

theorem settled_reconcile : t.Settled (t.reconcile fields) where
  declared := by
    intro key ne
    rw [KeyMap.contains, t.find?_reconcile fields ne]
    cases declared : t.declares key with
    | true =>
        have default : (t.fields.find? key).isSome = true := declared
        simp [default]
    | false => simp
  agrees := by
    intro key value notType notBag _ declared bagged
    rw [t.find?_bagOf_reconcile fields notBag, if_pos declared] at bagged
    rw [t.find?_reconcile fields notBag, if_pos declared, if_neg notType, bagged]
    rfl

variable {t fields}

theorem declares_of_find?_reconcile {value : Value} (ne : key ≠ "_dustbin")
    (found : (t.reconcile fields).find? key = some value) : t.declares key = true := by
  apply ((t.settled_reconcile fields).declared key ne).mp
  rw [KeyMap.contains, found]
  rfl

theorem Settled.insert_parts (settled : t.Settled fields) (declared : t.declares "parts" = true)
    (value : Value) : t.Settled (fields.insert "parts" value) where
  declared := by
    intro key ne
    by_cases here : key = "parts"
    · subst here
      simp [KeyMap.contains, declared]
    · rw [KeyMap.contains, KeyMap.find?_insert, if_neg here]
      exact settled.declared key ne
  agrees := by
    intro key other notType notBag notParts declared bagged
    rw [bagOf_insert (by decide)] at bagged
    rw [KeyMap.find?_insert, if_neg notParts]
    exact settled.agrees key other notType notBag notParts declared bagged

theorem Settled.absent (settled : t.Settled fields) (ne : key ≠ "_dustbin")
    (undeclared : t.declares key = false) : fields.find? key = none := by
  cases found : fields.find? key with
  | none => rfl
  | some value =>
      have present : fields.contains key = true := by
        rw [KeyMap.contains, found]
        rfl
      have declared := (settled.declared key ne).mp present
      rw [undeclared] at declared
      cases declared

theorem Settled.present (settled : t.Settled fields) (ne : key ≠ "_dustbin")
    (declared : t.declares key = true) : ∃ value, fields.find? key = some value :=
  Option.isSome_iff_exists.mp ((settled.declared key ne).mpr declared)

/-- Nothing is in excess in a settled node. -/
theorem Settled.excess_complement (settled : t.Settled fields) :
    t.excess (t.complement fields) = .nil := by
  apply KeyMap.ext
  intro key
  rw [find?_excess, find?_complement, KeyMap.find?_nil]
  by_cases ne : key = "_dustbin"
  · simp [ne]
  · cases declared : t.declares key with
    | true => simp
    | false =>
        have absent := settled.absent ne declared
        have noDefault := t.declares_eq_false.mp declared
        simp [ne, absent, noDefault]

theorem Settled.reconcile_eq (settled : t.Settled fields) :
    t.reconcile fields =
      fields.insert? "parts"
        (if t.declares "parts" then (bagOf fields).find? "parts" else none) := by
  apply KeyMap.ext
  intro key
  rw [KeyMap.find?_insert?]
  by_cases inBag : key = "_dustbin"
  · subst inBag
    rw [find?_reconcile_bag, settled.excess_complement]
    rfl
  · rw [t.find?_reconcile fields inBag]
    cases declared : t.declares key with
    | false =>
        have absent := settled.absent inBag declared
        by_cases here : key = "parts"
        · subst here
          simp [absent, declared]
        · simp [absent, here]
    | true =>
        rcases settled.present inBag declared with ⟨value, found⟩
        by_cases isType : key = "type"
        · subst isType
          simp [found]
        · by_cases here : key = "parts"
          · subst here
            simp [found, declared]
          · cases bagged : (bagOf fields).find? key with
            | none => simp [found, here]
            | some other =>
                have same := settled.agrees key other isType inBag here declared bagged
                simp [here, isType, same]

/-- Fitting a node a second time changes nothing. -/
theorem reconcile_reconcile (t : Template) (fields : Object) :
    t.reconcile (t.reconcile fields) = t.reconcile fields := by
  rw [(t.settled_reconcile fields).reconcile_eq]
  apply KeyMap.ext
  intro key
  rw [KeyMap.find?_insert?]
  by_cases here : key = "parts"
  · subst here
    rw [t.find?_bagOf_reconcile fields (by decide), t.find?_reconcile fields (by decide)]
    cases t.declares "parts" <;> cases (bagOf fields).find? "parts" <;> simp
  · rw [if_neg here]

end Template

end PartTree
