import Mathlib

/-!
# Computations that may fail

`Result` is the type of computations that return a value, give up with a message, or panic.
The rules below take a successful or failed computation apart: one for each way in which a
function is put together from smaller ones.
-/

universe u v w

/-- How a computation fails. -/
inductive Failure where
  | bail (message : String)
  | panic (message : String)
  deriving DecidableEq, Repr

/-- A computation that may fail. -/
abbrev Result (α : Type u) := Except Failure α

namespace Result

open List Except

variable {α : Type u} {β : Type u}

/-- Give up with the message when the condition holds. -/
def bailIf (condition : Prop) [Decidable condition] (message : String) : Result PUnit.{u + 1} :=
  if condition then .error (.bail message) else .ok ⟨⟩

/-- The value of an option, or give up with the message. -/
def context (value : Option α) (message : String) : Result α :=
  match value with
  | some a => .ok a
  | none => .error (.bail message)

/-- The value of an option that is known to be present. -/
def expect (value : Option α) (message : String) : Result α :=
  match value with
  | some a => .ok a
  | none => .error (.panic message)

variable {E : Type w} {x : Except E α} {value : Option α} {message : String} {a : α} {b : β}

/-! ### Success -/

theorem bind_eq_ok {f : α → Except E β} :
  x >>= f = .ok b ↔ ∃ a, x = .ok a ∧ f a = .ok b
  := by
  cases x with
  | error e | ok a => simp [bind, Except.bind]

theorem map_eq_ok {f : α → β} :
  x.map f = .ok b ↔ ∃ a, x = .ok a ∧ f a = b
  := by
  cases x with
  | error e => simp [Except.map]
  | ok a => simp [Except.map]

theorem ok_bind {f : α → Except E β} :
  (.ok a : Except E α) >>= f = f a
  := rfl

theorem pure_eq_ok {b : α} :
  (pure a : Except E α) = .ok b ↔ a = b
  := ok.injEq a b ▸ Iff.rfl

theorem bailIf_eq_ok {condition : Prop} [Decidable condition] {u : PUnit.{u + 1}} :
  bailIf condition message = .ok u ↔ ¬ condition
  := by
  unfold bailIf
  split <;> simp_all

theorem bailIf_bind_eq_ok {condition : Prop} [Decidable condition] {f : PUnit.{u + 1} → Result β} :
  bailIf condition message >>= f = .ok b ↔ ¬ condition ∧ f ⟨⟩ = .ok b
  := by
  unfold bailIf
  split <;> simp_all [bind, Except.bind]

theorem context_eq_ok :
  context value message = .ok a ↔ value = some a
  := by
  cases value <;> simp [context]

theorem expect_eq_ok :
  expect value message = .ok a ↔ value = some a
  := by
  cases value <;> simp [expect]

theorem toOption_eq_some :
  x.toOption = some a ↔ x = .ok a
  := by
  cases x with
  | ok b | error e => simp [Except.toOption]

theorem isOk_iff :
  x.isOk ↔ ∃ a, x = .ok a
  := by
  cases x with
  | error e | ok a => simp [Except.isOk, Except.toBool]

/-! ### Failure -/

theorem bind_eq_error {f : α → Except E β} {e : E} :
  x >>= f = .error e ↔ x = .error e ∨ ∃ a, x = .ok a ∧ f a = .error e
  := by
  cases x with
  | error e' | ok a => simp [bind, Except.bind]

theorem bailIf_eq_error {condition : Prop} [Decidable condition] {e : Failure} :
  (bailIf condition message : Result PUnit.{u + 1}) = .error e ↔
    condition ∧ e = .bail message
  := by
  unfold bailIf
  split <;> simp_all [eq_comm]

theorem context_eq_error {e : Failure} :
  context value message = .error e ↔ value = none ∧ e = .bail message
  := by
  cases value <;> simp [context, eq_comm]

theorem expect_eq_error {e : Failure} :
  expect value message = .error e ↔ value = none ∧ e = .panic message
  := by
  cases value <;> simp [expect, eq_comm]

/-! ### Loops -/

section

variable {E : Type w} {σ : Type u} {ι : Type v} {f : σ → ι → Except E σ}

/-- The invariant rule of a loop over a list: what holds before the first round and is kept
by every round that succeeds holds at the end. The invariant may speak of the elements
already visited. -/
theorem foldlM_invariant {P : List ι → σ → Prop} {l : List ι} {s s' : σ}
    (hloop : l.foldlM f s = .ok s') (hinit : P [] s)
    (hstep : ∀ done a t t', a ∈ l → P done t → f t a = .ok t' → P (done ++ [a]) t') :
  P l s'
  := by
  suffices hgeneral : ∀ (rest done : List ι) (t : σ), (∀ a ∈ rest, a ∈ l) → P done t →
      rest.foldlM f t = .ok s' → P (done ++ rest) s' by
    apply hgeneral l [] s (fun _ ha => ha) hinit hloop
  intro rest
  induction rest with
  | nil =>
    intro done t _ hP hrest
    cases hrest
    rw [append_nil]
    apply hP
  | cons a rest ih =>
    intro done t hsub hP hrest
    obtain ⟨t', hround, hrest⟩ := bind_eq_ok.mp hrest
    rw [append_cons]
    apply ih (done ++ [a]) t'
    · intro b hb
      apply hsub b (mem_cons_of_mem a hb)
    · apply hstep done a t t' (hsub a (by simp)) hP hround
    · apply hrest

/-- A loop whose rounds succeed or fail by their element alone succeeds when all elements
are good. -/
theorem exists_foldlM_eq_ok {P : ι → Prop} (hround : ∀ t a, (∃ t', f t a = .ok t') ↔ P a)
    {l : List ι} {s : σ} :
  (∃ s', l.foldlM f s = .ok s') ↔ ∀ a ∈ l, P a
  := by
  induction l generalizing s with
  | nil => simp [pure, Except.pure]
  | cons a l ih =>
    simp only [foldlM_cons, bind_eq_ok, forall_mem_cons]
    constructor
    · rintro ⟨s', t, ha, hl⟩
      exact ⟨(hround s a).mp ⟨t, ha⟩, ih.mp ⟨s', hl⟩⟩
    · rintro ⟨ha, hl⟩
      obtain ⟨t, ht⟩ := (hround s a).mpr ha
      obtain ⟨s', hs'⟩ := ih.mpr hl
      exact ⟨s', t, ht, hs'⟩

/-- A loop fails in one of its rounds, after rounds that succeeded. -/
theorem foldlM_eq_error {l : List ι} {s : σ} {e : E} (hloop : l.foldlM f s = .error e) :
  ∃ done a rest t, l = done ++ a :: rest ∧ done.foldlM f s = .ok t ∧ f t a = .error e
  := by
  induction l generalizing s with
  | nil => cases hloop
  | cons a l ih =>
    rcases bind_eq_error.mp hloop with hround | ⟨t, hround, hrest⟩
    · use [], a, l, s
      exact ⟨rfl, rfl, hround⟩
    · obtain ⟨done, b, rest, t', rfl, hdone, hfail⟩ := ih hrest
      use a :: done, b, rest, t'
      refine ⟨rfl, ?_, hfail⟩
      rw [foldlM_cons, hround]
      apply hdone

end

section

variable {f : α → Result (Option β)}

/-- The values of the elements that have one, unless the computation of one of them fails. -/
def gather (f : α → Result (Option β)) : List α → Result (List β)
  | [] => .ok []
  | a :: l => do
    let value ← f a
    let rest ← gather f l
    return value.toList ++ rest

/-- The value of an element, if there is one. -/
def valueOf (x : Result (Option β)) : Option β :=
  match x with
  | .ok value => value
  | .error _ => none

end

end Result
