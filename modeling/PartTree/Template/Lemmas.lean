import PartTree.Template.Reconcile
import PartTree.KeyMap.Lemmas

/-!
What fitting a node to a template does to each of its keys.
-/

namespace PartTree.Template

variable (t : Template) (fields : Object) {key : String}

theorem find?_complement (key : String) :
    (t.complement fields).find? key =
      (fields.find? key).or (if key = "_dustbin" then none else t.fields.find? key) := by
  simp [complement]

@[simp] theorem bagOf_complement : bagOf (t.complement fields) = bagOf fields := by
  rw [bagOf, find?_complement, if_pos rfl, Option.or_none, bagOf]

theorem find?_excess (key : String) :
    (t.excess fields).find? key =
      if key = "_dustbin" ∨ t.declares key = true then none else fields.find? key := by
  rw [excess, KeyMap.find?_filter]
  by_cases bag : key = "_dustbin"
  · cases found : fields.find? key <;> simp [bag]
  · cases declared : t.declares key <;> cases found : fields.find? key <;>
      simp [bag, Option.filter]

theorem excess_eq_nil {fields : Object} (empty : (t.excess fields).isEmpty = true) :
    t.excess fields = .nil := by
  cases h : t.excess fields with
  | nil => rfl
  | cons => rw [h] at empty; cases empty

theorem find?_demote (ne : key ≠ "_dustbin") :
    (t.demote fields).find? key = if t.declares key then fields.find? key else none := by
  rw [demote]
  split
  · rename_i empty
    have none_excess := congrArg (KeyMap.find? · key) (t.excess_eq_nil empty)
    simp only [find?_excess, ne, false_or, KeyMap.find?_nil] at none_excess
    cases declared : t.declares key <;> simp_all
  · rw [KeyMap.find?_insert, if_neg ne, KeyMap.find?_filter]
    cases declared : t.declares key <;> cases found : fields.find? key <;>
      simp [ne, Option.filter]

theorem bagOf_demote : bagOf (t.demote fields) = (t.excess fields).layOver (bagOf fields) := by
  rw [demote]
  split
  · rename_i empty
    rw [t.excess_eq_nil empty]
    rfl
  · rw [bagOf, KeyMap.find?_insert, if_pos rfl]

theorem find?_reclaimed (key : String) :
    (t.reclaimed fields).find? key =
      if key ≠ "type" ∧ key ≠ "_dustbin" ∧ t.declares key = true then (bagOf fields).find? key
      else none := by
  rw [reclaimed, KeyMap.find?_filter]
  by_cases type : key = "type"
  · cases found : (bagOf fields).find? key <;> simp [type]
  · by_cases bag : key = "_dustbin"
    · cases found : (bagOf fields).find? key <;> simp [bag]
    · cases declared : t.declares key <;> cases found : (bagOf fields).find? key <;>
        simp [type, bag, Option.filter]

/-- A declared key has the value of the bag, else its own, else the default; others are gone. -/
theorem find?_reconcile (ne : key ≠ "_dustbin") :
    (t.reconcile fields).find? key =
      if t.declares key then
        ((if key = "type" then none else (bagOf fields).find? key).or (fields.find? key)).or
          (t.fields.find? key)
      else none := by
  rw [reconcile, restore, KeyMap.find?_layOver, find?_reclaimed, bagOf_demote, bagOf_complement,
    KeyMap.find?_layOver, find?_excess, t.find?_demote _ ne, find?_complement]
  by_cases type : key = "type" <;> cases declared : t.declares key <;>
    simp [ne, type, Option.or_assoc]

theorem find?_reconcile_bag :
    (t.reconcile fields).find? "_dustbin" =
      if (t.excess (t.complement fields)).isEmpty then fields.find? "_dustbin"
      else some (.object ((t.excess (t.complement fields)).layOver (bagOf fields))) := by
  rw [reconcile, restore, KeyMap.find?_layOver, find?_reclaimed]
  simp only [ne_eq, not_true_eq_false, false_and, and_false, ↓reduceIte, Option.none_or]
  rw [demote]
  split
  · rw [find?_complement, if_pos rfl, Option.or_none]
  · rw [KeyMap.find?_insert, if_pos rfl, bagOf_complement]

end PartTree.Template
