import PartTree.KeyMap.Basic

/-!
What each operation on a map does to look-ups, and that look-ups determine the map.
-/

namespace PartTree.KeyMap

variable {α : Type} {bound : Option String}

theorem above_of_find? {bound : Option String} {map : KeyMap α bound} {key : String} {value : α}
    (found : map.find? key = some value) : Above bound key := by
  induction map with
  | nil => cases found
  | cons other above otherValue rest ih =>
    rw [find?] at found
    split at found
    · rename_i same
      exact same ▸ above
    · exact above.trans (ih found)

theorem find?_eq_none_of_le {key wanted : String} (map : KeyMap α (some key))
    (le : ¬ key < wanted) : map.find? wanted = none :=
  Option.eq_none_iff_forall_ne_some.mpr fun _ found => le (above_of_find? found)

@[simp] theorem find?_nil (key : String) : (nil : KeyMap α bound).find? key = none := rfl

@[simp] theorem find?_weaken {low high : Option String}
    (map : KeyMap α high) (weaker : ∀ key, Above high key → Above low key) (key : String) :
    (map.weaken weaker).find? key = map.find? key := by
  cases map <;> rfl

theorem find?_insertAbove {bound : Option String} (key : String) (above : Above bound key)
    (value : α) (map : KeyMap α bound) (wanted : String) :
    (map.insertAbove key above value).find? wanted =
      if wanted = key then some value else map.find? wanted := by
  induction map with
  | nil => rfl
  | cons other _ otherValue rest ih =>
    rw [insertAbove]
    split
    · rfl
    · split
      · rename_i same
        subst same
        by_cases here : wanted = key <;> simp [find?, here]
      · rename_i different
        by_cases here : wanted = other
        · subst here
          simp [find?, Ne.symm different]
        · simp [find?, here, ih]

@[simp] theorem find?_insert (map : KeyMap α none) (key : String) (value : α) (wanted : String) :
    (map.insert key value).find? wanted = if wanted = key then some value else map.find? wanted :=
  find?_insertAbove ..

@[simp] theorem find?_insert? (map : KeyMap α none) (key : String) (value : Option α)
    (wanted : String) :
    (map.insert? key value).find? wanted =
      if wanted = key then value.or (map.find? wanted) else map.find? wanted := by
  cases value <;> simp [insert?]

@[simp] theorem find?_erase {bound : Option String} (map : KeyMap α bound) (key wanted : String) :
    (map.erase key).find? wanted = if wanted = key then none else map.find? wanted := by
  induction map with
  | nil => simp [erase]
  | cons other _ otherValue rest ih =>
    rw [erase]
    split
    · rename_i same
      subst same
      by_cases here : wanted = key
      · subst here
        simpa using find?_eq_none_of_le rest (String.lt_irrefl _)
      · simp [find?, here]
    · rename_i different
      by_cases here : wanted = other
      · subst here
        simp [find?, Ne.symm different]
      · simp [find?, here, ih]

@[simp] theorem find?_filter {bound : Option String} (keep : String → α → Bool)
    (map : KeyMap α bound) (wanted : String) :
    (map.filter keep).find? wanted = (map.find? wanted).filter (keep wanted) := by
  induction map with
  | nil => rfl
  | cons key _ value rest ih =>
    rw [filter]
    by_cases here : wanted = key
    · subst here
      have absent := find?_eq_none_of_le rest (String.lt_irrefl wanted)
      split <;> simp_all [find?, Option.filter]
    · split <;> simp [find?, here, ih]

/-- Keeping entries by their keys alone. -/
theorem find?_filter_key {bound : Option String} (keep : String → Bool) (map : KeyMap α bound)
    (wanted : String) :
    (map.filter fun key _ => keep key).find? wanted =
      if keep wanted then map.find? wanted else none := by
  rw [find?_filter]
  cases kept : keep wanted <;> cases map.find? wanted <;> simp [Option.filter]

@[simp] theorem find?_layOver {bound : Option String} (upper : KeyMap α bound)
    (lower : KeyMap α none) (wanted : String) :
    (upper.layOver lower).find? wanted = (upper.find? wanted).or (lower.find? wanted) := by
  induction upper generalizing lower with
  | nil => rfl
  | cons key _ value rest ih =>
    rw [layOver, ih, find?_insert, find?]
    by_cases here : wanted = key
    · subst here
      simp [find?_eq_none_of_le rest (String.lt_irrefl wanted)]
    · simp [here]

private theorem head_le {bound : Option String} {key other : String} {above : Above bound key}
    {otherAbove : Above bound other} {value otherValue : α} {rest : KeyMap α (some key)}
    {otherRest : KeyMap α (some other)}
    (same : ∀ wanted, (cons key above value rest).find? wanted =
      (cons other otherAbove otherValue otherRest).find? wanted) : ¬ other < key := by
  intro less
  have h := same other
  have ne : other ≠ key := fun eq => String.lt_irrefl key (eq ▸ less)
  rw [find?, if_neg ne, find?_eq_none_of_le rest (String.lt_asymm less), find?, if_pos rfl] at h
  cases h

/-- Two maps with the same look-ups are the same map. -/
@[ext] theorem ext {bound : Option String} {first second : KeyMap α bound}
    (same : ∀ key, first.find? key = second.find? key) : first = second := by
  induction first with
  | nil =>
    cases second with
    | nil => rfl
    | cons key _ value rest => simpa [find?] using same key
  | cons key above value rest ih =>
    cases second with
    | nil => simpa [find?] using same key
    | cons other otherAbove otherValue otherRest =>
      obtain rfl : key = other := String.le_antisymm
        (String.not_lt.mp (head_le same)) (String.not_lt.mp (head_le fun k => (same k).symm))
      obtain rfl : value = otherValue := by simpa [find?] using same key
      congr 1
      apply ih
      intro wanted
      by_cases here : wanted = key
      · subst here
        rw [find?_eq_none_of_le _ (String.lt_irrefl _), find?_eq_none_of_le _ (String.lt_irrefl _)]
      · simpa [find?, here] using same wanted

@[simp] theorem insert_insert (map : KeyMap α none) (key : String) (first second : α) :
    (map.insert key first).insert key second = map.insert key second := by
  apply ext
  intro wanted
  by_cases here : wanted = key <;> simp [here]

@[simp] theorem erase_insert (map : KeyMap α none) (key : String) (value : α) :
    (map.insert key value).erase key = map.erase key := by
  apply ext
  intro wanted
  by_cases here : wanted = key <;> simp [here]

theorem layOver_assoc (upper middle lower : KeyMap α none) :
    (upper.layOver middle).layOver lower = upper.layOver (middle.layOver lower) := by
  apply ext
  intro wanted
  simp only [find?_layOver, Option.or_assoc]

theorem mem_toList_iff {bound : Option String} {map : KeyMap α bound} {key : String} {value : α} :
    (key, value) ∈ map.toList ↔ map.find? key = some value := by
  induction map with
  | nil => simp [toList]
  | cons other _ otherValue rest ih =>
    simp only [toList, List.mem_cons, Prod.mk.injEq, find?, ih]
    by_cases here : key = other
    · subst here
      simp [find?_eq_none_of_le rest (String.lt_irrefl key), eq_comm]
    · simp [here]

theorem toList_injective {bound : Option String} :
    Function.Injective (toList : KeyMap α bound → List (String × α)) := by
  intro first second same
  apply ext
  intro key
  apply Option.ext
  intro value
  rw [← mem_toList_iff, ← mem_toList_iff, same]

theorem layOver_eq_foldl {bound : Option String} (upper : KeyMap α bound)
    (lower : KeyMap α none) :
    upper.layOver lower =
      upper.toList.foldl (fun map entry => map.insert entry.1 entry.2) lower := by
  induction upper generalizing lower with
  | nil => rfl
  | cons key _ value rest ih => exact ih (lower.insert key value)

theorem ofList_toList (map : KeyMap α none) : ofList map.toList = map := by
  apply ext
  intro key
  rw [ofList, ← layOver_eq_foldl, find?_layOver, find?_nil, Option.or_none]

theorem mem_keys_iff {map : KeyMap α bound} {key : String} :
    key ∈ map.keys ↔ map.contains key = true := by
  simp [keys, contains, Option.isSome_iff_exists, mem_toList_iff]

theorem pending_append_le {bound : Option String} (weight : α → Nat) (visited more : List String)
    (map : KeyMap α bound) : map.pending weight (visited ++ more) ≤ map.pending weight visited := by
  induction map with
  | nil => exact Nat.le_refl _
  | cons key _ value rest ih =>
    simp only [pending, List.mem_append]
    by_cases old : key ∈ visited
    · simp only [old, true_or, ↓reduceIte]
      omega
    · simp only [old, false_or, ↓reduceIte]
      split <;> omega

/-- Visiting a name for the first time takes its weight off. -/
theorem pending_visit {bound : Option String} (weight : α → Nat) {visited : List String}
    {map : KeyMap α bound} {name : String} {value : α} (found : map.find? name = some value)
    (fresh : name ∉ visited) :
    map.pending weight (visited ++ [name]) + weight value ≤ map.pending weight visited := by
  induction map with
  | nil => cases found
  | cons key _ first rest ih =>
    rw [find?] at found
    simp only [pending]
    split at found
    · rename_i same
      cases found
      subst same
      have less := pending_append_le weight visited [name] rest
      simp only [List.mem_append, List.mem_singleton, or_true, ↓reduceIte, fresh]
      omega
    · rename_i different
      have less := ih found
      simp only [List.mem_append, List.mem_singleton, Ne.symm different, or_false]
      omega

end PartTree.KeyMap
