import Mathlib

/-!
# Commands

A command reads and changes a state, and may fail. A failure keeps the changes that were made
before it. The rules below take the outcome of a command apart, one for each way in which
commands are put together.
-/

/-- A command over the state `S` with result `α`. -/
def Command (E S α : Type) := S → Except E α × S

namespace Command

variable {E S α β : Type}

instance : Monad (Command E S) where
  pure a := fun s => (.ok a, s)
  bind x f := fun s =>
    match x s with
    | (.ok a, s') => f a s'
    | (.error e, s') => (.error e, s')

/-- The current state. -/
def get : Command E S S := fun s => (.ok s, s)

def modify (f : S → S) : Command E S Unit := fun s => (.ok (), f s)

/-- A computation that does not change the state. -/
def lift (result : Except E α) : Command E S α := fun s => (result, s)

/-- Run a command and hand its outcome on, be it a failure. -/
def attempt (x : Command E S α) : Command E S (Except E α) := fun s => (.ok (x s).1, (x s).2)

/-! ### Outcomes -/

variable {s t : S} {a : α} {b : β} {e : E}

variable {f : α → Command E S β}

theorem bind_eq_ok {x : Command E S α} :
  (x >>= f) s = (.ok b, t) ↔ ∃ a s', x s = (.ok a, s') ∧ f a s' = (.ok b, t)
  := by
  simp only [bind]
  split
  case h_1 a s' hx | h_2 e s' hx => simp [hx]

theorem bind_eq_error {x : Command E S α} :
  (x >>= f) s = (.error e, t) ↔
    x s = (.error e, t) ∨ ∃ a s', x s = (.ok a, s') ∧ f a s' = (.error e, t)
  := by
  simp only [bind]
  split
  case h_1 a s' hx | h_2 e' s' hx => simp [hx]

theorem pure_eq_ok {a' : α} :
  (pure a : Command E S α) s = (.ok a', t) ↔ a = a' ∧ s = t
  := by
  simp [pure]

theorem pure_eq_error :
  ¬ (pure a : Command E S α) s = (.error e, t)
  := by
  simp [pure]

theorem get_eq_ok {s' : S} :
  (get : Command E S S) s = (.ok s', t) ↔ s = s' ∧ s = t
  := by
  simp [get]

theorem get_bind {f : S → Command E S β} :
  (get >>= f) s = f s s
  := rfl

theorem modify_eq_ok {f : S → S} {u : Unit} :
  (modify f : Command E S Unit) s = (.ok u, t) ↔ f s = t
  := by
  simp [modify]

theorem modify_bind {f : S → S} {g : Unit → Command E S β} :
  (modify f >>= g) s = g () (f s)
  := rfl

variable {result : Except E α}

theorem lift_eq_ok :
  (lift result : Command E S α) s = (.ok a, t) ↔ result = .ok a ∧ s = t
  := by
  simp [lift]

theorem lift_eq_error :
  (lift result : Command E S α) s = (.error e, t) ↔ result = .error e ∧ s = t
  := by
  simp [lift]

theorem lift_bind_eq_ok :
  (lift result >>= f) s = (.ok b, t) ↔ ∃ a, result = .ok a ∧ f a s = (.ok b, t)
  := by
  simp [bind_eq_ok, lift_eq_ok]

/-- A computation that does not change the state goes on, or fails with the state. -/
theorem lift_bind_cases {outcome : Except E β}
    (h : (lift result >>= f) s = (outcome, t)) :
  (∃ a, result = .ok a ∧ f a s = (outcome, t)) ∨ (∃ e, outcome = .error e) ∧ t = s
  := by
  cases result with
  | ok a => exact .inl ⟨a, rfl, h⟩
  | error e =>
    cases h
    exact .inr ⟨⟨e, rfl⟩, rfl⟩

theorem attempt_bind {x : Command E S α} {f : Except E α → Command E S β} :
  (attempt x >>= f) s = f (x s).1 (x s).2
  := rfl

/-! ### What a command can change -/

section

variable {R : S → S → Prop} {x : Command E S α} {f : α → Command E S β}

/-- Whatever its outcome, the command takes the state along the relation. -/
def Along (R : S → S → Prop) (x : Command E S α) : Prop := ∀ s, R s (x s).2

theorem Along.of_eq (hx : Along R x) (h : x s = (result, t)) :
  R s t
  := by
  have hs := hx s
  rw [h] at hs
  apply hs

theorem Along.bind [IsTrans S R] (hx : Along R x) (hf : ∀ a, Along R (f a)) :
  Along R (x >>= f)
  := by
  intro s
  have hfirst := hx s
  simp only [Bind.bind]
  split
  case h_1 a s' hxs =>
    rw [hxs] at hfirst
    apply IsTrans.trans _ _ _ hfirst (hf a s')
  case h_2 e s' hxs =>
    rw [hxs] at hfirst
    apply hfirst

theorem along_lift [Std.Refl R] (result : Except E α) :
  Along R (lift result : Command E S α)
  := fun s => Std.Refl.refl s

theorem along_pure [Std.Refl R] (a : α) :
  Along R (pure a : Command E S α)
  := fun s => Std.Refl.refl s

theorem along_get [Std.Refl R] :
  Along R (get : Command E S S)
  := fun s => Std.Refl.refl s

theorem along_modify {g : S → S} (hg : ∀ s, R s (g s)) :
  Along R (modify g : Command E S Unit)
  := hg

theorem Along.ite {condition : Prop} [Decidable condition] {y : Command E S α} (hx : Along R x)
    (hy : Along R y) :
  Along R (if condition then x else y)
  := by
  split
  · apply hx
  · apply hy

/-- A command that fails leaves the state as it was. -/
def Atomic (x : Command E S α) : Prop := ∀ s e t, x s = (.error e, t) → t = s

theorem Along.atomic (hx : Along Eq x) :
  Atomic x
  := by
  intro s e t h
  apply (hx.of_eq h).symm

/-- A command may change the state in its last part. -/
theorem Along.before (hx : Along Eq x) (hf : ∀ a, Atomic (f a)) :
  Atomic (x >>= f)
  := by
  intro s e t h
  rcases bind_eq_error.mp h with h | ⟨a, s', hxs, h⟩
  · apply hx.atomic s e t h
  · obtain rfl := hx.of_eq hxs
    apply hf a s e t h

/-- After the first part has changed the state, the second must not fail. -/
theorem Atomic.bind_modify (hx : Atomic x) {g : α → S → S} :
  Atomic (x >>= fun a => modify (g a))
  := by
  intro s e t h
  rcases bind_eq_error.mp h with h | ⟨a, s', -, h⟩
  · apply hx s e t h
  · cases h

theorem atomic_modify (g : S → S) :
  Atomic (modify g : Command E S Unit)
  := by
  intro s e t h
  cases h

end

end Command
