import PartTree.Logged
import Mathlib.Data.List.Forall2

/-!
Walking a list item by item up to the first failure: when the walk succeeds, and with whose error it
fails. Lists that grow at their end keep what they had.
-/

namespace PartTree

variable {ε α β : Type} {R : α → β → Prop} {f : α → Except ε β} {xs : List α} {ys : List β}

theorem append_singleton_subset {few many : List α} (subset : few ⊆ many) (last : α) :
    few ++ [last] ⊆ many ++ [last] :=
  List.append_subset.mpr
    ⟨List.subset_append_of_subset_left _ subset, List.subset_append_right _ _⟩

theorem exists_left_of_forall₂ (related : List.Forall₂ R xs ys) {y : β} (member : y ∈ ys) :
    ∃ x ∈ xs, R x y := by
  induction related with
  | nil => cases member
  | cons here _ ih =>
      rcases List.mem_cons.mp member with rfl | later
      · exact ⟨_, List.mem_cons_self, here⟩
      · obtain ⟨x, inside, found⟩ := ih later
        exact ⟨x, List.mem_cons_of_mem _ inside, found⟩

theorem exists_right_of_forall₂ (related : List.Forall₂ R xs ys) {x : α} (member : x ∈ xs) :
    ∃ y ∈ ys, R x y :=
  exists_left_of_forall₂ related.flip member

theorem forall₂_of_mem {S : α → β → Prop} (related : List.Forall₂ R xs ys)
    (stronger : ∀ x ∈ xs, ∀ y, R x y → S x y) : List.Forall₂ S xs ys := by
  induction related with
  | nil => exact .nil
  | cons here _ ih =>
      apply List.Forall₂.cons
      · exact stronger _ List.mem_cons_self _ here
      · apply ih
        intro x member
        exact stronger x (List.mem_cons_of_mem _ member)

theorem forall₂_replace {before after : List α} {x other : α}
    (related : List.Forall₂ R (before ++ x :: after) ys) (stronger : ∀ y, R x y → R other y) :
    List.Forall₂ R (before ++ other :: after) ys := by
  induction before generalizing ys with
  | nil =>
      cases related with
      | cons here later => exact .cons (stronger _ here) later
  | cons first before ih =>
      cases related with
      | cons here later => exact .cons here (ih later)

theorem forall₂_comp {γ : Type} {S : β → γ → Prop} {zs : List γ} :
    List.Forall₂ (fun x z => ∃ y, R x y ∧ S y z) xs zs ↔
      ∃ ys, List.Forall₂ R xs ys ∧ List.Forall₂ S ys zs := by
  constructor
  · intro related
    induction related with
    | nil => exact ⟨[], .nil, .nil⟩
    | cons here _ ih =>
        obtain ⟨y, first, second⟩ := here
        obtain ⟨ys, firsts, seconds⟩ := ih
        exact ⟨y :: ys, .cons first firsts, .cons second seconds⟩
  · intro found
    obtain ⟨ys, firsts, seconds⟩ := found
    induction firsts generalizing zs with
    | nil =>
        cases seconds
        exact .nil
    | cons first _ ih =>
        cases seconds with
        | cons second later => exact .cons ⟨_, first, second⟩ (ih later)

theorem map_eq_iff_of_forall₂ {P : α → Prop} {back : β → α} (related : List.Forall₂ R xs ys)
    (each : ∀ y ∈ ys, ∀ x, R x y → (back y = x ↔ P x)) : ys.map back = xs ↔ ∀ x ∈ xs, P x := by
  induction related with
  | nil => simp
  | cons here _ ih =>
      have first := each _ List.mem_cons_self _ here
      have others := ih fun y member => each y (List.mem_cons_of_mem _ member)
      rw [List.map_cons, List.cons.injEq, List.forall_mem_cons, first, others]

theorem mapM_eq_ok : xs.mapM f = .ok ys ↔ List.Forall₂ (fun x y => f x = .ok y) xs ys := by
  induction xs generalizing ys with
  | nil => simp [pure, Except.pure, eq_comm]
  | cons x xs ih =>
      simp only [List.mapM_cons, bind_eq_ok, pure, Except.pure, Except.ok.injEq, ih,
        List.forall₂_cons_left_iff]
      constructor
      · intro walked
        rcases walked with ⟨y, head, rest, tail, rfl⟩
        exact ⟨y, rest, head, tail, rfl⟩
      · intro walked
        rcases walked with ⟨y, rest, head, tail, rfl⟩
        exact ⟨y, head, rest, tail, rfl⟩

theorem mapM_eq_self {g : α → Except ε α} : xs.mapM g = .ok xs ↔ ∀ x ∈ xs, g x = .ok x := by
  rw [mapM_eq_ok, List.forall₂_same]

theorem mapM_eq_error_iff {e : ε} :
    xs.mapM f = .error e ↔ ∃ before x after, xs = before ++ x :: after ∧
      (∀ earlier ∈ before, ∃ y, f earlier = .ok y) ∧ f x = .error e := by
  induction xs with
  | nil => simp [pure, Except.pure]
  | cons x xs ih =>
      rw [List.mapM_cons]
      cases head : f x with
      | error first =>
          constructor
          · intro failed
            cases failed
            exact ⟨[], x, xs, rfl, nofun, head⟩
          · intro found
            obtain ⟨before, part, after, split, passed, failed⟩ := found
            cases before with
            | nil =>
                cases split
                cases head.symm.trans failed
                rfl
            | cons earlier before =>
                cases split
                obtain ⟨y, ok⟩ := passed x List.mem_cons_self
                cases head.symm.trans ok
      | ok y =>
          have later : (do
              let rest ← xs.mapM f
              pure (y :: rest) : Except ε (List β)) = .error e ↔ xs.mapM f = .error e := by
            cases xs.mapM f <;> simp [bind, Except.bind, pure, Except.pure]
          refine later.trans (ih.trans ?_)
          constructor
          · intro found
            obtain ⟨before, part, after, rfl, passed, failed⟩ := found
            exact ⟨x :: before, part, after, rfl,
              List.forall_mem_cons.mpr ⟨⟨y, head⟩, passed⟩, failed⟩
          · intro found
            obtain ⟨before, part, after, split, passed, failed⟩ := found
            cases before with
            | nil =>
                cases split
                cases head.symm.trans failed
            | cons earlier before =>
                cases split
                exact ⟨before, part, after, rfl, (List.forall_mem_cons.mp passed).2, failed⟩

theorem mapM_eq_error {e : ε} (failed : xs.mapM f = .error e) : ∃ x ∈ xs, f x = .error e := by
  obtain ⟨before, x, after, rfl, -, x_failed⟩ := mapM_eq_error_iff.mp failed
  exact ⟨x, by simp, x_failed⟩

theorem mapM_map_eq {γ : Type} (f : α → Except ε β) (finish : β → γ) (xs : List α) :
    (xs.mapM fun x => finish <$> f x) = List.map finish <$> xs.mapM f := by
  induction xs with
  | nil => rfl
  | cons x xs ih =>
      rw [List.mapM_cons, List.mapM_cons, ih]
      cases f x with
      | error e => rfl
      | ok y => cases xs.mapM f <;> rfl

/-- A walk that finishes one outcome in each step succeeds with it, and fails with it if there is a
step at all. -/
theorem mapM_same_of_ok {γ : Type} {outcome : Except ε β} {y : β} (ok : outcome = .ok y)
    (finish : α → β → γ) (xs : List α) :
    (xs.mapM fun x => finish x <$> outcome) = .ok (xs.map fun x => finish x y) := by
  rw [ok]
  exact List.mapM_pure

theorem mapM_same_of_error {γ : Type} {outcome : Except ε β} {e : ε} (failed : outcome = .error e)
    (finish : α → β → γ) (someone : xs ≠ []) :
    (xs.mapM fun x => finish x <$> outcome) = .error e := by
  cases xs with
  | nil => exact absurd rfl someone
  | cons x xs =>
      exact mapM_eq_error_iff.mpr
        ⟨[], x, xs, rfl, List.forall_mem_nil _, map_eq_error.mpr failed⟩

/-- A walk whose outcome is settled has it from any visit that agrees on the settled items. -/
theorem mapM_eq_of_settled {g : α → Except ε β} (Unsettled : ε → Prop)
    (settled : ∀ e, Unsettled e → xs.mapM f ≠ .error e)
    (agree : ∀ x ∈ xs, (∀ e, Unsettled e → f x ≠ .error e) → g x = f x) :
    xs.mapM g = xs.mapM f := by
  induction xs with
  | nil => rfl
  | cons x xs ih =>
      rw [List.mapM_cons] at settled
      have same : g x = f x := by
        apply agree x List.mem_cons_self
        intro e unsettled failed
        rw [failed] at settled
        exact settled e unsettled rfl
      rw [List.mapM_cons, List.mapM_cons, same]
      cases head : f x with
      | error first => rfl
      | ok y =>
          have others : xs.mapM g = xs.mapM f := by
            apply ih
            · intro e unsettled failed
              rw [head, failed] at settled
              exact settled e unsettled rfl
            · intro later member
              exact agree later (List.mem_cons_of_mem _ member)
          rw [others]

theorem mapM_eq_of_agree {g : α → Except ε β} {e : ε} (settled : xs.mapM f ≠ .error e)
    (agree : ∀ x ∈ xs, f x ≠ .error e → g x = f x) : xs.mapM g = xs.mapM f := by
  apply mapM_eq_of_settled (· = e)
  · intro first same
    rw [same]
    exact settled
  · intro x member x_settled
    exact agree x member (x_settled e rfl)

theorem mapError_mapM {δ : Type} (translate : ε → δ) (f : α → Except ε β) (xs : List α) :
    (xs.mapM f).mapError translate = xs.mapM fun x => (f x).mapError translate := by
  induction xs with
  | nil => rfl
  | cons x xs ih =>
      rw [List.mapM_cons, List.mapM_cons, ← ih]
      cases f x with
      | error e => rfl
      | ok y => cases xs.mapM f <;> rfl

theorem exists_bound_of_mem {P : α → Nat → Prop} (xs : List α)
    (grow : ∀ x n m, n ≤ m → P x n → P x m) (each : ∀ x ∈ xs, ∃ n, P x n) :
    ∃ n, ∀ x ∈ xs, P x n := by
  induction xs with
  | nil => exact ⟨0, nofun⟩
  | cons x xs ih =>
      obtain ⟨first, head⟩ := each x List.mem_cons_self
      obtain ⟨others, tail⟩ := ih fun later member => each later (List.mem_cons_of_mem _ member)
      refine ⟨max first others, List.forall_mem_cons.mpr ⟨?_, ?_⟩⟩
      · exact grow x _ _ (Nat.le_max_left ..) head
      · intro later member
        exact grow later _ _ (Nat.le_max_right ..) (tail later member)

/-- A walk that reports on its way comes to the same as the walk over the results alone. -/
theorem result_eq_mapM {γ : Type} {walk : List α → Logged ε (List γ)} {visit : α → Logged ε β}
    {finish : β → γ} (nil : walk [] = pure [])
    (cons : ∀ x xs, walk (x :: xs) = do
      let y ← visit x
      let ys ← walk xs
      pure (finish y :: ys)) (xs : List α) :
    (walk xs).result = xs.mapM fun x => finish <$> (visit x).result := by
  induction xs with
  | nil =>
      rw [nil]
      rfl
  | cons x xs ih =>
      rw [cons, List.mapM_cons, Logged.result_bind, ← ih]
      cases (visit x).result with
      | error e => rfl
      | ok y =>
          simp only [Logged.result_bind]
          cases (walk xs).result with
          | error e => rfl
          | ok ys => rfl

namespace KeyMap

theorem find?_of_traverse {visit : String → α → Logged ε β} {bound : Option String}
    {map : KeyMap α bound} {result : KeyMap β bound} (ok : (map.traverse visit).result = .ok result)
    {key : String} {b : β} (found : result.find? key = some b) :
    ∃ a, map.find? key = some a ∧ (visit key a).result = .ok b := by
  induction map with
  | nil =>
      cases ok
      cases found
  | cons other above value rest ih =>
      simp only [traverse, Logged.result_bind, bind_eq_ok, Logged.result_pure,
        Except.ok.injEq] at ok
      rcases ok with ⟨first, first_ok, others, others_ok, rfl⟩
      rw [find?] at found ⊢
      split at found
      · rename_i here
        cases found
        subst here
        exact ⟨value, if_pos rfl, first_ok⟩
      · rename_i elsewhere
        rw [if_neg elsewhere]
        exact ih others_ok found

end KeyMap

end PartTree
