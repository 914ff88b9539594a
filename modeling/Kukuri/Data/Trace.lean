import Mathlib

/-!
# Traces of a state machine

`Trace Step s₀ h s` says that the calls recorded in the history `h`, made one after the
other from the state `s₀`, lead to the state `s`. An event of a history records one call:
the state before it, the call, its result and the state after it.

* `Trace.invariant` and `Trace.history_invariant` are the induction rules.
* `Trace.split` cuts a trace in two, `Trace.split_event` at one of its events.
* `Trace.countP_le_one` is the latch rule: an event that sets a condition which no step
  clears happens at most once.
* `Trace.replay` makes a list of calls.
-/

universe u

/-- One call of a state machine. -/
structure Event (σ Op Ret : Type u) where
  before : σ
  op : Op
  ret : Ret
  after : σ

variable {σ Op Ret : Type u} {Step : σ → Op → Ret → σ → Prop}

/-- The calls of the history, made in order from `s₀`, lead to the last state. -/
inductive Trace (Step : σ → Op → Ret → σ → Prop) (s₀ : σ) : List (Event σ Op Ret) → σ → Prop
  | nil : Trace Step s₀ [] s₀
  | snoc {h : List (Event σ Op Ret)} {s : σ} {op : Op} {ret : Ret} {s' : σ} :
      Trace Step s₀ h s → Step s op ret s' → Trace Step s₀ (h ++ [⟨s, op, ret, s'⟩]) s'

/-- Two elements of a list with a property that at most one has are equal. -/
theorem List.eq_of_countP_le_one {α : Type u} {l : List α} {p : α → Bool}
    (hcount : l.countP p ≤ 1) {a b : α} (ha : a ∈ l) (hb : b ∈ l) (hpa : p a) (hpb : p b) :
  a = b
  := by
  rw [countP_eq_length_filter] at hcount
  have ha' : a ∈ l.filter p := mem_filter.mpr ⟨ha, hpa⟩
  have hb' : b ∈ l.filter p := mem_filter.mpr ⟨hb, hpb⟩
  match hl : l.filter p, hcount with
  | [], _ => simp [hl] at ha'
  | [c], _ =>
    rw [hl, mem_singleton] at ha' hb'
    rw [ha', hb']

namespace Trace

open List

variable {s₀ s s' : σ} {h h' : List (Event σ Op Ret)} {e : Event σ Op Ret}

section

variable (htrace : Trace Step s₀ h s)
include htrace

/-- What holds of the history and the state at the start, and is kept by every step that
extends a trace, holds along every trace. -/
theorem history_invariant {P : List (Event σ Op Ret) → σ → Prop} (hinit : P [] s₀)
    (hstep : ∀ h s op ret s', Trace Step s₀ h s → P h s → Step s op ret s' →
      P (h ++ [⟨s, op, ret, s'⟩]) s') :
  P h s
  := by
  induction htrace with
  | nil => exact hinit
  | snoc htrace hs ih => exact hstep _ _ _ _ _ htrace ih hs

/-- An invariant of the start state that every step keeps holds at the end of every
trace. -/
theorem invariant {P : σ → Prop} (hinit : P s₀)
    (hstep : ∀ s op ret s', P s → Step s op ret s' → P s') :
  P s
  := history_invariant (P := fun _ s => P s) htrace hinit
      fun _ s op ret s' _ hP hs => hstep s op ret s' hP hs

/-- An invariant that is kept by the steps which meet a condition holds along every trace whose
events all meet it. -/
theorem invariant_of_forall {P : σ → Prop} {C : Event σ Op Ret → Prop} (hC : ∀ e ∈ h, C e)
    (hinit : P s₀) (hstep : ∀ s op ret s', P s → Step s op ret s' → C ⟨s, op, ret, s'⟩ → P s') :
  P s
  := by
  induction htrace with
  | nil => apply hinit
  | snoc _ hs ih =>
    apply hstep _ _ _ _ (ih fun e he => hC e (mem_append_left _ he)) hs
    apply hC
    simp

/-- A trace whose events all meet a condition is a trace of the steps that meet it. -/
theorem restrict {C : Event σ Op Ret → Prop} (hC : ∀ e ∈ h, C e) :
  Trace (fun s op ret s' => Step s op ret s' ∧ C ⟨s, op, ret, s'⟩) s₀ h s
  := by
  induction htrace with
  | nil => exact .nil
  | snoc _ hs ih =>
    exact (ih fun e he => hC e (mem_append_left _ he)).snoc ⟨hs, hC _ (by simp)⟩

theorem append (htrace' : Trace Step s h' s') :
  Trace Step s₀ (h ++ h') s'
  := by
  induction htrace' with
  | nil => simpa using htrace
  | snoc _ hs ih =>
    rw [← append_assoc]
    exact ih.snoc hs

end

/-- A trace whose history is a concatenation is the concatenation of two traces. -/
theorem split (htrace : Trace Step s₀ (h ++ h') s') :
  ∃ s, Trace Step s₀ h s ∧ Trace Step s h' s'
  := by
  induction h' using reverseRecOn generalizing s' with
  | nil =>
    rw [append_nil] at htrace
    exact ⟨s', htrace, .nil⟩
  | append_singleton l e ih =>
    rw [← append_assoc] at htrace
    generalize hg : (h ++ l) ++ [e] = g at htrace
    cases htrace with
    | nil => simp at hg
    | snoc htrace hs =>
      obtain ⟨rfl, rfl⟩ : h ++ l = _ ∧ e = _ := by simpa using append_inj' hg rfl
      obtain ⟨s, hleft, hright⟩ := ih htrace
      exact ⟨s, hleft, hright.snoc hs⟩

/-- A trace with one event makes that step. -/
theorem singleton (htrace : Trace Step s₀ [e] s) :
  e.before = s₀ ∧ e.after = s ∧ Step e.before e.op e.ret e.after
  := by
  generalize hg : [e] = g at htrace
  cases htrace with
  | nil => simp at hg
  | @snoc l _ _ _ _ htrace hs =>
    obtain ⟨rfl, rfl⟩ : [] = l ∧ e = _ := by
      rw [← nil_append [e]] at hg
      simpa using append_inj' hg rfl
    generalize hl : ([] : List (Event σ Op Ret)) = l at htrace
    cases htrace with
    | nil => exact ⟨rfl, rfl, hs⟩
    | snoc _ _ => simp at hl

/-- A trace that contains an event reaches the state before it, makes the step, and goes on
from the state after it. -/
theorem split_event (htrace : Trace Step s₀ (h ++ e :: h') s) :
  Trace Step s₀ h e.before ∧ Step e.before e.op e.ret e.after ∧ Trace Step e.after h' s
  := by
  obtain ⟨t, hleft, hrest⟩ := split htrace
  obtain ⟨t', hevent, hright⟩ := split (h := [e]) hrest
  obtain ⟨rfl, rfl, hs⟩ := singleton hevent
  exact ⟨hleft, hs, hright⟩

/-- The state after an event and those that follow it is the state after one of them. -/
theorem exists_after_eq (htrace : Trace Step s₀ (h ++ e :: h') s) :
  ∃ e' ∈ e :: h', e'.after = s
  := by
  rcases eq_nil_or_concat' (e :: h') with hnil | ⟨l, last, hlast⟩
  · cases hnil
  · rw [hlast] at htrace ⊢
    rw [← append_assoc] at htrace
    obtain ⟨_, _, hevent⟩ := split htrace
    exact ⟨last, by simp, (singleton hevent).2.1⟩

/-- No event of a history can clear a condition that no step clears. -/
theorem forall_mem_of_latched {P : σ → Prop} {E : Event σ Op Ret → Prop}
    (htrace : Trace Step s₀ h s) (hP : P s₀)
    (hstep : ∀ s op ret s', P s → Step s op ret s' → P s' ∧ ¬ E ⟨s, op, ret, s'⟩) :
  ∀ e ∈ h, ¬ E e
  := by
  have hboth : P s ∧ ∀ e ∈ h, ¬ E e := by
    refine history_invariant (P := fun h s => P s ∧ ∀ e ∈ h, ¬ E e) htrace ⟨hP, by simp⟩ ?_
    rintro h s op ret s' - ⟨hP, hE⟩ hs
    obtain ⟨hP', hnot⟩ := hstep s op ret s' hP hs
    exact ⟨hP', forall_mem_append.mpr ⟨hE, forall_mem_singleton.mpr hnot⟩⟩
  exact hboth.2

/-- Once an event of the kind `E` has happened, the condition that it sets and no step clears
holds. -/
theorem latched {I P : σ → Prop} {E : Event σ Op Ret → Prop} (htrace : Trace Step s₀ h s)
    (hI : I s₀) (hkeep : ∀ s op ret s', I s → Step s op ret s' → I s')
    (hlatch : ∀ s op ret s', I s → P s → Step s op ret s' → P s')
    (hset : ∀ s op ret s', I s → Step s op ret s' → E ⟨s, op, ret, s'⟩ → P s') :
  ∀ e ∈ h, E e → P s
  := by
  have hboth : I s ∧ ∀ e ∈ h, E e → P s := by
    refine history_invariant (P := fun h s => I s ∧ ∀ e ∈ h, E e → P s) htrace ⟨hI, by simp⟩ ?_
    rintro h s op ret s' - ⟨hI, hP⟩ hs
    refine ⟨hkeep s op ret s' hI hs, fun e he hE => ?_⟩
    rcases mem_append.mp he with he | he
    · exact hlatch s op ret s' hI (hP e he hE) hs
    · rw [mem_singleton.mp he] at hE
      exact hset s op ret s' hI hs hE
  exact hboth.2

/-- The latch rule. If an event of the kind `E` happens only while `P` does not hold, makes
`P` hold, and no step clears `P`, then at most one event of a trace is of the kind `E`. The
invariant `I` of the machine may be used throughout. -/
theorem countP_le_one {I P : σ → Prop} (E : Event σ Op Ret → Bool)
    (htrace : Trace Step s₀ h s) (hI : I s₀)
    (hkeep : ∀ s op ret s', I s → Step s op ret s' → I s')
    (hlatch : ∀ s op ret s', I s → P s → Step s op ret s' → P s')
    (hset : ∀ s op ret s', I s → Step s op ret s' → E ⟨s, op, ret, s'⟩ → ¬ P s ∧ P s') :
  h.countP E ≤ 1
  := by
  -- Either no event has happened yet, or one has and the latch is set.
  have hcount : I s ∧ (h.countP E = 0 ∨ h.countP E = 1 ∧ P s) := by
    refine history_invariant
      (P := fun h s => I s ∧ (h.countP E = 0 ∨ h.countP E = 1 ∧ P s)) htrace ⟨hI, by simp⟩ ?_
    rintro h s op ret s' - ⟨hI, hcount⟩ hs
    refine ⟨hkeep s op ret s' hI hs, ?_⟩
    rw [countP_append, countP_singleton]
    by_cases hE : E ⟨s, op, ret, s'⟩ = true
    · obtain ⟨hnot, hP'⟩ := hset s op ret s' hI hs hE
      rcases hcount with hzero | ⟨-, hP⟩
      · right
        simp [hzero, hE, hP']
      · exact absurd hP hnot
    · simp only [hE, Bool.false_eq_true, if_false, Nat.add_zero]
      rcases hcount with hzero | ⟨hone, hP⟩
      · exact .inl hzero
      · exact .inr ⟨hone, hlatch s op ret s' hI hP hs⟩
  omega

/-! ### Runs of a list of calls -/

/-- The events of the calls, up to the first one that cannot be made, and the last state. -/
def replay (perform : σ → Op → Option (Ret × σ)) (s : σ) :
    List Op → List (Event σ Op Ret) × σ
  | [] => ([], s)
  | op :: ops =>
    match perform s op with
    | some (ret, s') => (⟨s, op, ret, s'⟩ :: (replay perform s' ops).1, (replay perform s' ops).2)
    | none => ([], s)

theorem of_replay {perform : σ → Op → Option (Ret × σ)} {ops : List Op}
    (hstep : ∀ op ∈ ops, ∀ s ret s', perform s op = some (ret, s') → Step s op ret s') (s : σ) :
  Trace Step s (replay perform s ops).1 (replay perform s ops).2
  := by
  induction ops generalizing s with
  | nil => exact .nil
  | cons op ops ih =>
    simp only [replay]
    cases hperform : perform s op with
    | none => exact .nil
    | some result =>
      obtain ⟨ret, s'⟩ := result
      have hfirst : Trace Step s ([] ++ [⟨s, op, ret, s'⟩]) s' :=
        Trace.nil.snoc (hstep op (.head _) s ret s' hperform)
      exact hfirst.append (ih (fun op hop => hstep op (.tail _ hop)) s')

/-- A list of calls, one more call, and another list of calls. -/
theorem of_replay_cons {perform : σ → Op → Option (Ret × σ)} {ops ops' : List Op} {op : Op}
    {ret : Ret} {s s' : σ} (hstep : ∀ s op ret s', perform s op = some (ret, s') → Step s op ret s')
    (hop : perform (replay perform s ops).2 op = some (ret, s')) :
  Trace Step s ((replay perform s ops).1 ++
    ⟨(replay perform s ops).2, op, ret, s'⟩ :: (replay perform s' ops').1)
    (replay perform s' ops').2
  := by
  have hbefore : Trace Step s (replay perform s ops).1 (replay perform s ops).2 :=
    of_replay (fun op _ => fun s ret s' => hstep s op ret s') s
  have hafter : Trace Step s' (replay perform s' ops').1 (replay perform s' ops').2 :=
    of_replay (fun op _ => fun s ret s' => hstep s op ret s') s'
  have hboth := (hbefore.snoc (hstep _ _ _ _ hop)).append hafter
  rwa [append_assoc] at hboth

theorem op_mem_of_mem_replay {perform : σ → Op → Option (Ret × σ)} {ops : List Op} {s : σ}
    {e : Event σ Op Ret} (he : e ∈ (replay perform s ops).1) :
  e.op ∈ ops
  := by
  induction ops generalizing s with
  | nil => cases he
  | cons op ops ih =>
    simp only [replay] at he
    split at he
    case h_2 =>
      cases he
    case h_1 =>
      cases he with
      | head => exact .head _
      | tail _ he => exact .tail _ (ih he)

end Trace
