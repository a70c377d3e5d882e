import PartTree.Event

/-!
Computations that may fail and that report events: a failure keeps what was reported before it, and
the events never change the result.
-/

namespace PartTree

instance decidableEqExcept {ε α : Type} [DecidableEq ε] [DecidableEq α] :
    DecidableEq (Except ε α)
  | .ok a, .ok b => decidable_of_iff (a = b) (by simp)
  | .error d, .error e => decidable_of_iff (d = e) (by simp)
  | .ok _, .error _ | .error _, .ok _ => isFalse (by simp)

theorem bind_eq_ok {ε α β : Type} {first : Except ε α} {next : α → Except ε β} {b : β} :
    first >>= next = .ok b ↔ ∃ a, first = .ok a ∧ next a = .ok b := by
  cases first <;> simp [bind, Except.bind]

theorem map_eq_ok {ε α β : Type} {f : α → β} {x : Except ε α} {b : β} :
    f <$> x = .ok b ↔ ∃ a, x = .ok a ∧ f a = b := by
  cases x <;> simp [Functor.map, Except.map]

theorem map_eq_error {ε α β : Type} {f : α → β} {x : Except ε α} {e : ε} :
    f <$> x = .error e ↔ x = .error e := by
  cases x <;> simp [Functor.map, Except.map]

theorem mapError_eq_ok {ε δ α : Type} {f : ε → δ} {x : Except ε α} {a : α} :
    x.mapError f = .ok a ↔ x = .ok a := by
  constructor
  · intro mapped
    cases x <;> cases mapped
    rfl
  · intro ok
    rw [ok]
    rfl

theorem mapError_eq_error {ε δ α : Type} {f : ε → δ} {x : Except ε α} {d : δ} :
    x.mapError f = .error d ↔ ∃ e, x = .error e ∧ f e = d := by
  constructor
  · intro mapped
    cases x with
    | error e =>
        cases mapped
        exact ⟨e, rfl, rfl⟩
    | ok a => cases mapped
  · intro raised
    obtain ⟨e, rfl, rfl⟩ := raised
    rfl

structure Logged (ε α : Type) where
  events : List Event
  result : Except ε α

namespace Logged

variable {ε δ α β : Type}

instance : Monad (Logged ε) where
  pure value := ⟨[], .ok value⟩
  bind first next :=
    match first.result with
    | .ok value => ⟨first.events ++ (next value).events, (next value).result⟩
    | .error e => ⟨first.events, .error e⟩

def ofExcept (result : Except ε α) : Logged ε α := ⟨[], result⟩

def fail (e : ε) : Logged ε α := ⟨[], .error e⟩

def report (event : Event) : Logged ε Unit := ⟨[event], .ok ()⟩

def reportAll (events : List Event) : Logged ε Unit := ⟨events, .ok ()⟩

def mapError (f : ε → δ) (x : Logged ε α) : Logged δ α := ⟨x.events, x.result.mapError f⟩

/-- The same computation, whose value comes with the fact that it is the result. -/
def attach (x : Logged ε α) : Logged ε { value : α // x.result = .ok value } where
  events := x.events
  result := match _result : x.result with
    | .ok value => .ok ⟨value, rfl⟩
    | .error e => .error e

@[simp] theorem result_pure (value : α) : (pure value : Logged ε α).result = .ok value := rfl

@[simp] theorem result_bind (first : Logged ε α) (next : α → Logged ε β) :
    (first >>= next).result = first.result >>= fun value => (next value).result := by
  obtain ⟨events, result⟩ := first
  cases result <;> rfl

@[simp] theorem result_map (f : α → β) (x : Logged ε α) : (f <$> x).result = f <$> x.result := by
  obtain ⟨events, result⟩ := x
  cases result <;> rfl

@[simp] theorem result_ofExcept (result : Except ε α) : (ofExcept result).result = result := rfl

@[simp] theorem result_fail (e : ε) : (fail e : Logged ε α).result = .error e := rfl

@[simp] theorem result_report (event : Event) :
    (report event : Logged ε Unit).result = .ok () := rfl

@[simp] theorem result_reportAll (events : List Event) :
    (reportAll events : Logged ε Unit).result = .ok () := rfl

@[simp] theorem result_mapError (f : ε → δ) (x : Logged ε α) :
    (x.mapError f).result = x.result.mapError f := rfl

theorem attach_bind (x : Logged ε α) (next : α → Logged δ β) (f : ε → δ) :
    (x.attach.mapError f >>= fun value => next value.1) = x.mapError f >>= next := by
  obtain ⟨events, result⟩ := x
  cases result <;> rfl

end Logged

end PartTree
