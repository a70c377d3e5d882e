import PartTree.Proofs.Sequence

/-!
Checks made one after the other. A computation that makes them fails where one of its conditions is
violated, and with the error of the first that is.
-/

namespace PartTree

/-- The first of some conditions that is violated, and with which error. -/
inductive FirstOf {ε : Type} : List (ε → Prop) → ε → Prop
  | here {violated : ε → Prop} {rest : List (ε → Prop)} {e : ε} (violation : violated e) :
      FirstOf (violated :: rest) e
  | later {violated : ε → Prop} {rest : List (ε → Prop)} {e : ε} (met : ∀ d, ¬ violated d)
      (violation : FirstOf rest e) : FirstOf (violated :: rest) e

variable {ε α β : Type} {first : Except ε α} {next : α → Except ε β} {violated after : ε → Prop}
variable {rest others : List (ε → Prop)} {e : ε}

theorem firstOf_cons :
    FirstOf (violated :: rest) e ↔ violated e ∨ (∀ d, ¬ violated d) ∧ FirstOf rest e := by
  constructor
  · intro found
    cases found with
    | here violation => exact .inl violation
    | later met violation => exact .inr ⟨met, violation⟩
  · intro either
    rcases either with violation | ⟨met, violation⟩
    · exact .here violation
    · exact .later met violation

theorem not_firstOf_nil : ¬ FirstOf [] e := by
  intro found
  cases found

theorem exists_of_firstOf (found : FirstOf rest e) : ∃ violated ∈ rest, violated e := by
  induction found with
  | here violation => exact ⟨_, List.mem_cons_self, violation⟩
  | later _ _ ih =>
      rcases ih with ⟨violated, member, violation⟩
      exact ⟨violated, List.mem_cons_of_mem _ member, violation⟩

theorem forall_not_firstOf_cons :
    (∀ d, ¬ FirstOf (violated :: rest) d) ↔ (∀ d, ¬ violated d) ∧ ∀ d, ¬ FirstOf rest d := by
  constructor
  · intro none_found
    have met : ∀ d, ¬ violated d := fun d violation => none_found d (.here violation)
    exact ⟨met, fun d violation => none_found d (.later met violation)⟩
  · intro both d found
    cases found with
    | here violation => exact both.1 d violation
    | later _ violation => exact both.2 d violation

theorem firstOf_append :
    FirstOf (rest ++ others) e ↔ FirstOf rest e ∨ (∀ d, ¬ FirstOf rest d) ∧ FirstOf others e := by
  induction rest with
  | nil => simp [not_firstOf_nil]
  | cons violated rest ih =>
      rw [List.cons_append, firstOf_cons, firstOf_cons, forall_not_firstOf_cons, ih]
      tauto

/-- To look through lists one by one is to look through all that they hold. -/
theorem firstOf_flatMap (xs : List α) (faults : α → List (ε → Prop)) :
    FirstOf (xs.flatMap faults) e ↔ FirstOf (xs.map fun x => FirstOf (faults x)) e := by
  induction xs generalizing e with
  | nil => rfl
  | cons x xs ih =>
      rw [List.flatMap_cons, firstOf_append, List.map_cons, firstOf_cons, ih]

theorem forall_not_firstOf_map {xs : List α} {fault : α → ε → Prop} :
    (∀ e, ¬ FirstOf (xs.map fault) e) ↔ ∀ x ∈ xs, ∀ e, ¬ fault x e := by
  induction xs with
  | nil => simp [not_firstOf_nil]
  | cons x xs ih => rw [List.map_cons, forall_not_firstOf_cons, List.forall_mem_cons, ih]

/-- Whether a computation fails just where a condition is violated, with the error that says so. -/
def FailsBy (outcome : Except ε α) (violated : ε → Prop) : Prop :=
  ∀ e, outcome = .error e ↔ violated e

theorem FailsBy.exists_ok_iff (fails : FailsBy first violated) :
    (∃ a, first = .ok a) ↔ ∀ e, ¬ violated e := by
  constructor
  · intro found e violation
    rcases found with ⟨a, ok⟩
    cases ok.symm.trans ((fails e).mpr violation)
  · intro met
    cases outcome : first with
    | ok a => exact ⟨a, rfl⟩
    | error e => exact absurd ((fails e).mp outcome) (met e)

theorem FailsBy.map (fails : FailsBy first violated) (f : α → β) :
    FailsBy (f <$> first) violated :=
  fun e => map_eq_error.trans (fails e)

theorem failsBy_pure (a : α) : FailsBy (pure a : Except ε α) (FirstOf []) :=
  fun _ => iff_of_false (by intro failed; cases failed) not_firstOf_nil

/-- What fails first decides; what comes next is reached once nothing has failed. -/
theorem FailsBy.bind (fails : FailsBy first violated)
    (next_fails : ∀ a, first = .ok a → FailsBy (next a) after) :
    FailsBy (first >>= next) fun e => violated e ∨ (∀ d, ¬ violated d) ∧ after e := by
  intro e
  cases outcome : first with
  | error d =>
      have violation : violated d := (fails d).mp outcome
      constructor
      · intro failed
        cases failed
        exact .inl violation
      · intro either
        rcases either with also | ⟨met, -⟩
        · cases outcome.symm.trans ((fails e).mpr also)
          rfl
        · exact absurd violation (met d)
  | ok a =>
      have met : ∀ d, ¬ violated d := fails.exists_ok_iff.mp ⟨a, outcome⟩
      have reached : (Except.ok a >>= next) = .error e ↔ after e := next_fails a outcome e
      rw [reached]
      constructor
      · intro violation
        exact .inr ⟨met, violation⟩
      · intro either
        rcases either with violation | ⟨-, violation⟩
        · exact absurd violation (met e)
        · exact violation

theorem FailsBy.bind_cons (fails : FailsBy first violated)
    (next_fails : ∀ a, FailsBy (next a) (FirstOf rest)) :
    FailsBy (first >>= next) (FirstOf (violated :: rest)) := by
  intro e
  rw [firstOf_cons]
  exact fails.bind (fun a _ => next_fails a) e

theorem failsBy_mapM {f : α → Except ε β} {fault : α → ε → Prop} {xs : List α}
    (fails : ∀ x ∈ xs, FailsBy (f x) (fault x)) :
    FailsBy (xs.mapM f) (FirstOf (xs.map fault)) := by
  induction xs with
  | nil => exact failsBy_pure []
  | cons x xs ih =>
      rcases List.forall_mem_cons.mp fails with ⟨head, tail⟩
      rw [List.mapM_cons, List.map_cons]
      refine head.bind_cons fun y => ?_
      rw [bind_pure_comp]
      exact (ih tail).map (y :: ·)

end PartTree
