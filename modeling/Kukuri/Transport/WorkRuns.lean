import Kukuri.Transport.WorkLife

/-!
# Publication safety

What holds of every sequence of calls of the owner: on what grounds a result is published,
which replies an identifier gets at most once, and what a revoked scope leads to.

The time of a call is whatever the caller passes. Nothing orders the times of two calls, so a
call made before the admission of a piece of work may carry a time after its deadline
(`exists_publication_after_overdue_call`).
-/

namespace Kukuri.WorkAdmission.NetworkWorkOwner

open List

variable {Hash : Type} {s s' : NetworkWorkOwner Hash} {call : Call} {reply : Reply} {id : WorkId}
  {l l' : Life} {key : WorkKey} {scope : WorkScope}

/-! ### Traces -/

/-- One call with its reply. -/
def Step [DecidableEq Hash] (hash : List UInt8 → Hash) (s : NetworkWorkOwner Hash)
    (call : Call) (reply : Reply) (s' : NetworkWorkOwner Hash) : Prop :=
  step hash s call = .ok (s', reply)

/-- A call in the history of an owner. -/
abbrev WorkEvent (Hash : Type) := Event (NetworkWorkOwner Hash) Call Reply

/-- The call admitted new work under the key. -/
def Admits (id : WorkId) (key : WorkKey) (e : WorkEvent Hash) : Prop :=
  ∃ metadata now serial, e.op = .admitWork key metadata now ∧
    e.ret = .admission (.admitted ⟨key.scope, id, serial⟩) ∧ now < key.deadline

/-- The call published the result of the work. -/
def Publishes (id : WorkId) (now : Instant) (e : WorkEvent Hash) : Prop :=
  e.op = .complete id now ∧ e.ret = .completion .publish

variable {hash : List UInt8 → Hash}

/-- Every run is a trace. -/
theorem trace_of_run [DecidableEq Hash] {s₀ : NetworkWorkOwner Hash}
    {h : List (WorkEvent Hash)} {calls : List Call} {replies : List Reply}
    (htrace : Trace (Step hash) s₀ h s) (hrun : run hash s calls = .ok (s', replies)) :
  ∃ h', Trace (Step hash) s₀ (h ++ h') s' ∧ h'.map Event.op = calls ∧
    h'.map Event.ret = replies
  := by
  induction calls generalizing s h replies with
  | nil =>
    cases hrun
    exact ⟨[], by simpa using htrace, rfl, rfl⟩
  | cons call calls ih =>
    cases hstep : step hash s call with
    | error panic => simp [run, hstep, bind, Except.bind] at hrun
    | ok result =>
      obtain ⟨t, reply⟩ := result
      cases hrest : run hash t calls with
      | error panic => simp [run, hstep, hrest, bind, Except.bind] at hrun
      | ok rest =>
        obtain ⟨t', replies'⟩ := rest
        obtain ⟨rfl, rfl⟩ : t' = s' ∧ reply :: replies' = replies := by
          simpa [run, hstep, hrest, bind, Except.bind, pure, Except.pure] using hrun
        obtain ⟨h', htrace', hop, hret⟩ := ih (htrace.snoc hstep) hrest
        exact ⟨⟨s, call, reply, t⟩ :: h', by simpa using htrace', by simp [hop], by simp [hret]⟩

theorem Step.consistent [DecidableEq Hash] (h : s.Consistent [])
    (hstep : Step hash s call reply s') :
  s'.Consistent []
  := (step_facts hash h hstep).consistent

theorem trace_consistent [DecidableEq Hash] {owner : ℕ}
    {limits : WorkLimits} {h : List (WorkEvent Hash)}
    (htrace : Trace (Step hash) (new owner limits) h s) :
  s.Consistent []
  := htrace.invariant (consistent_new owner limits) fun _ _ _ _ h hstep => hstep.consistent h

/-! ### Replies given at most once -/

section

variable (h : LifeStep call reply id l l')
include h

theorem LifeStep.rank_le :
  l.rank ≤ l'.rank
  := by
  cases h with
  | quiet _ h => cases h <;> simp [Life.rank]
  | admitted | started | handed | published => simp [Life.rank]
  | discarded _ _ hrank => exact hrank.2.trans (by simp [Life.rank])

theorem LifeStep.of_admits (hadmits : reply.admits id) :
  l.rank < 1 ∧ 1 ≤ l'.rank
  := by
  cases h with
  | quiet hquiet => exact absurd hadmits hquiet.1
  | admitted => simp [Life.rank]
  | started hreply | handed hreply | published _ hreply | discarded _ hreply =>
    rw [hreply] at hadmits
    simp [Reply.admits] at hadmits

theorem LifeStep.of_starts (hstarts : reply.starts id) :
  l.rank < 2 ∧ 2 ≤ l'.rank
  := by
  cases h with
  | quiet hquiet => exact absurd hstarts hquiet.2.1
  | started => simp [Life.rank]
  | admitted _ hreply | handed hreply | published _ hreply | discarded _ hreply =>
    rw [hreply] at hstarts
    simp [Reply.starts] at hstarts

theorem LifeStep.of_hands (hhands : reply.hands id) :
  l.rank < 4 ∧ 4 ≤ l'.rank
  := by
  cases h with
  | quiet hquiet => exact absurd hhands hquiet.2.2.1
  | handed => simp [Life.rank]
  | admitted _ hreply | started hreply | published _ hreply | discarded _ hreply =>
    rw [hreply] at hhands
    simp [Reply.hands] at hhands

theorem LifeStep.of_finishes (hfinishes : call.finishes id reply) :
  l.rank < 5 ∧ 5 ≤ l'.rank
  := by
  cases h with
  | quiet hquiet => exact absurd hfinishes hquiet.2.2.2
  | published => simp [Life.rank]
  | discarded _ _ hrank => exact ⟨by omega, le_rfl⟩
  | admitted _ hreply | started hreply | handed hreply =>
    rw [hreply] at hfinishes
    cases call <;> simp [Call.finishes] at hfinishes

end

section

variable [DecidableEq Hash] {hash : List UInt8 → Hash} {owner : ℕ} {limits : WorkLimits}
  {h : List (WorkEvent Hash)} {s : NetworkWorkOwner Hash}

/-- An event that takes an identifier past a stage happens at most once. -/
theorem countP_le_one_of_rank (htrace : Trace (Step hash) (new owner limits) h s)
    (id : WorkId) (n : ℕ) (E : WorkEvent Hash → Bool)
    (hE : ∀ e, LifeStep e.op e.ret id (e.before.life id) (e.after.life id) → E e →
      (e.before.life id).rank < n ∧ n ≤ (e.after.life id).rank) :
  h.countP E ≤ 1
  := by
  apply Trace.countP_le_one (P := fun s => n ≤ (s.life id).rank) E htrace
    (consistent_new owner limits) (fun _ _ _ _ h hstep => hstep.consistent h)
  · intro s call reply s' hs hrank hstep
    exact hrank.trans ((step_facts hash hs hstep).life id).rank_le
  · intro s call reply s' hs hstep hevent
    obtain ⟨hlt, hle⟩ := hE _ ((step_facts hash hs hstep).life id) hevent
    exact ⟨not_le.mpr hlt, hle⟩

/-- After an event that takes an identifier past a stage, it stays past it. -/
theorem rank_le_of_mem (htrace : Trace (Step hash) (new owner limits) h s)
    (id : WorkId) (n : ℕ) (E : WorkEvent Hash → Prop)
    (hE : ∀ e, LifeStep e.op e.ret id (e.before.life id) (e.after.life id) → E e →
      (e.before.life id).rank < n ∧ n ≤ (e.after.life id).rank) :
  ∀ e ∈ h, E e → n ≤ (s.life id).rank
  := by
  apply Trace.latched (P := fun s => n ≤ (s.life id).rank) htrace
    (consistent_new owner limits) (fun _ _ _ _ h hstep => hstep.consistent h)
  · intro s call reply s' hs hrank hstep
    exact hrank.trans ((step_facts hash hs hstep).life id).rank_le
  · intro s call reply s' hs hstep hevent
    exact (hE _ ((step_facts hash hs hstep).life id) hevent).2

/-! ### The grounds of a publication -/

/-- The part of a history that a queued or running piece of work rests on: since its
admission its scope was registered after every call, and no call carried a time at or after
its deadline. -/
def Grounded (h : List (WorkEvent Hash)) (id : WorkId) (key : WorkKey) (running : Prop) :
    Prop :=
  ∃ past admission since, h = past ++ admission :: since ∧ Admits id key admission ∧
    (∀ e ∈ admission :: since,
      key.scope ∈ e.after.scopes ∧ ∀ time, e.op.time = some time → time < key.deadline) ∧
    (running → ∃ e ∈ since, e.ret.starts id)

omit [DecidableEq Hash] in
/-- A call after which the scope is still registered, and that carries no late time, keeps
the grounds. -/
theorem Grounded.snoc {running running' : Prop} (hgrounded : Grounded h id key running)
    {e : WorkEvent Hash} (hscope : key.scope ∈ e.after.scopes)
    (htime : ∀ time, e.op.time = some time → time < key.deadline)
    (hrunning : running' → running ∨ e.ret.starts id) :
  Grounded (h ++ [e]) id key running'
  := by
  obtain ⟨past, admission, since, rfl, hadmits, hsince, hstarted⟩ := hgrounded
  refine ⟨past, admission, since ++ [e], by simp, hadmits, ?_, ?_⟩
  · intro e' he'
    rw [← cons_append, mem_append, mem_singleton] at he'
    rcases he' with he' | rfl
    · apply hsince e' he'
    · exact ⟨hscope, htime⟩
  · intro hrunning'
    rcases hrunning hrunning' with hrunning | hstarts
    · obtain ⟨e', he', hstarts⟩ := hstarted hrunning
      exact ⟨e', mem_append_left _ he', hstarts⟩
    · exact ⟨e, by simp, hstarts⟩

/-- Work that is queued or running is grounded in the history. -/
theorem trace_grounded (htrace : Trace (Step hash) (new owner limits) h s) :
  ∀ id key, (s.life id = .queued key → Grounded h id key False) ∧
    (s.life id = .running key → Grounded h id key True)
  := by
  apply htrace.history_invariant (P := fun h s => ∀ id key,
    (s.life id = .queued key → Grounded h id key False) ∧
      (s.life id = .running key → Grounded h id key True))
  · intro id key
    simp [life, new]
    split <;> simp
  intro h s call reply s' htrace hgrounded hstep id key
  have hfacts := step_facts hash (trace_consistent htrace) hstep
  -- Work that is live after the call has a registered scope and is not overdue.
  have hlive : s'.life id = .queued key ∨ s'.life id = .running key →
      key.scope ∈ s'.scopes ∧ ∀ time, call.time = some time → time < key.deadline := by
    intro hlife
    constructor
    · apply hfacts.consistent.scope_of_life hlife
    · intro time htime
      apply hfacts.deadlines time htime _ (hfacts.consistent.deadline_of_life hlife)
  have hmove := hfacts.life id
  generalize hl : s.life id = l at hmove
  generalize hl' : s'.life id = l' at hmove
  rw [hl'] at hlive
  constructor
  · rintro rfl
    obtain ⟨hscope, htime⟩ := hlive (.inl rfl)
    cases hmove with
    | quiet _ hfades =>
      cases hfades with
      | refl => apply ((hgrounded id key).1 hl).snoc hscope htime (by simp)
    | admitted hcall hreply hdeadline =>
      refine ⟨h, ⟨s, call, reply, s'⟩, [], rfl, ⟨_, _, _, hcall, hreply, hdeadline⟩, ?_, ?_⟩
      · intro e he
        rw [mem_singleton.mp he]
        exact ⟨hscope, htime⟩
      · simp
  · rintro rfl
    obtain ⟨hscope, htime⟩ := hlive (.inr rfl)
    cases hmove with
    | quiet _ hfades =>
      cases hfades with
      | refl => apply ((hgrounded id key).2 hl).snoc hscope htime (by simp)
    | started hreply =>
      apply ((hgrounded id key).1 hl).snoc hscope htime
      simp [hreply, Reply.starts]

/-- The calls made before a publication of `id` justify it. -/
structure Justified (past : List (WorkEvent Hash)) (id : WorkId) (now : Instant)
    (key : WorkKey) : Prop where
  grounded : Grounded past id key True
  not_finished : ∀ e ∈ past, ¬ e.op.finishes id e.ret
  not_handed : ∀ e ∈ past, ¬ e.ret.hands id
  deadline : now < key.deadline

/-- Every publication of a history is justified by the calls before it. -/
def PublishesJustified (h : List (WorkEvent Hash)) : Prop :=
  ∀ past e future id now, h = past ++ e :: future → Publishes id now e →
    ∃ key, Justified past id now key

theorem LifeStep.of_publishes {now : Instant} (h : LifeStep call (.completion .publish) id l l')
    (hcall : call = .complete id now) :
  ∃ key, l = .running key ∧ now < key.deadline
  := by
  subst hcall
  cases h with
  | quiet hquiet => simp [Quiet, Call.finishes] at hquiet
  | published hcall _ hdeadline =>
    obtain ⟨-, rfl⟩ := Call.complete.inj hcall
    exact ⟨_, rfl, hdeadline⟩
  | admitted _ hreply | started hreply | handed hreply | discarded _ hreply => simp at hreply

theorem publishes_justified (htrace : Trace (Step hash) (new owner limits) h s) :
  PublishesJustified h
  := by
  rintro past ⟨before, call, reply, after⟩ future id now rfl ⟨rfl, rfl⟩
  obtain ⟨hpast, hstep, -⟩ := htrace.split_event
  have hmove := (step_facts hash (trace_consistent hpast) hstep).life id
  obtain ⟨key, hrunning, hdeadline⟩ := hmove.of_publishes rfl
  have hrank : (before.life id).rank = 2 := by rw [hrunning]; rfl
  use key
  constructor
  · apply (trace_grounded hpast id key).2 hrunning
  · intro e he hfinishes
    have hlate : 5 ≤ (before.life id).rank := rank_le_of_mem hpast id 5
      (fun e => e.op.finishes id e.ret) (fun e hmove hE => hmove.of_finishes hE) e he hfinishes
    omega
  · intro e he hhands
    have hlate : 4 ≤ (before.life id).rank := rank_le_of_mem hpast id 4
      (fun e => e.ret.hands id) (fun e hmove hE => hmove.of_hands hE) e he hhands
    omega
  · apply hdeadline

/-- No publication comes after a call with a time at or after the deadline of the work. -/
def NeverOverdue (h : List (WorkEvent Hash)) : Prop :=
  ∀ past e future id now key, h = past ++ e :: future → Publishes id now e →
    (∃ admission ∈ past, Admits id key admission) →
      ∀ e' ∈ past, ∀ time, e'.op.time = some time → time < key.deadline

/-- The times of the calls never go back. -/
def TimesSorted (h : List (WorkEvent Hash)) : Prop :=
  (h.filterMap fun e => e.op.time).Pairwise (· ≤ ·)

omit [DecidableEq Hash] in
theorem Admits.admits {e : WorkEvent Hash} (hadmits : Admits id key e) :
  e.ret.admits id
  := by
  obtain ⟨_, _, _, -, hret, -⟩ := hadmits
  simp [hret, Reply.admits]

/-- When the times never go back, no earlier call at all carried a late time. -/
theorem never_overdue (htrace : Trace (Step hash) (new owner limits) h s)
    (hsorted : TimesSorted h) :
  NeverOverdue h
  := by
  rintro past e future id now key rfl hpublishes ⟨admission, hmem, hadmits⟩ e' he' time htime
  obtain ⟨hpast, -, -⟩ := htrace.split_event
  obtain ⟨key', hgrounded, -, -, -⟩ :=
    publishes_justified htrace past e future id now rfl hpublishes
  obtain ⟨before, admission', since, rfl, hadmits', hsince, -⟩ := hgrounded
  -- The work was admitted only once.
  have honce := countP_le_one_of_rank hpast id 1 (fun e => e.ret.admits id)
    (fun e hmove hE => hmove.of_admits hE)
  obtain rfl : admission = admission' :=
    eq_of_countP_le_one honce hmem (by simp) hadmits.admits hadmits'.admits
  obtain ⟨_, admitted, _, hop, -, hlt⟩ := hadmits
  obtain ⟨_, _, _, hop', -, -⟩ := hadmits'
  obtain ⟨rfl, -, -⟩ := Call.admitWork.inj (hop.symm.trans hop')
  rcases mem_append.mp he' with he' | he'
  · have hle : time ≤ admitted := by
      have hpair := hsorted
      simp only [TimesSorted, filterMap_append, append_assoc, cons_append] at hpair
      apply (pairwise_append.mp hpair).2.2 time
      · exact mem_filterMap.mpr ⟨e', he', htime⟩
      · exact mem_filterMap.mpr ⟨admission, by simp, by rw [hop]; rfl⟩
    apply hle.trans_lt hlt
  · exact (hsince e' he').2 time htime

/-! ### Replies -/

/-- An identifier is started, handed out for cancellation and completed at most once. -/
def RepliesOnce (h : List (WorkEvent Hash)) : Prop :=
  ∀ id, h.countP (fun e => e.ret.starts id) ≤ 1 ∧ h.countP (fun e => e.ret.hands id) ≤ 1 ∧
    h.countP (fun e => e.op.finishes id e.ret) ≤ 1

theorem replies_once (htrace : Trace (Step hash) (new owner limits) h s) :
  RepliesOnce h
  := by
  intro id
  refine ⟨?_, ?_, ?_⟩
  · apply countP_le_one_of_rank htrace id 2
    exact fun e hmove hE => hmove.of_starts hE
  · apply countP_le_one_of_rank htrace id 4
    exact fun e hmove hE => hmove.of_hands hE
  · apply countP_le_one_of_rank htrace id 5
    exact fun e hmove hE => hmove.of_finishes hE

/-! ### Revoked scopes -/

/-- What the calls after the revocation of a scope, which led to the state `s`, are like: no
work of the scope is started or published, and work that was running is handed out once, or
is completed without being handed out, or waits to be handed out. -/
structure Revoked (scope : WorkScope) (revocation : WorkEvent Hash)
    (future : List (WorkEvent Hash)) (s : NetworkWorkOwner Hash) : Prop where
  not_started : ∀ e ∈ future, ∀ work, e.ret = .started (some work) → work.key.scope ≠ scope
  not_published : ∀ e ∈ future, ∀ id now entry, Publishes id now e →
    e.before.entries[id]? = some entry → entry.key.scope ≠ scope
  handed : ∀ (id : WorkId) (entry : Entry Hash), revocation.before.entries[id]? = some entry →
    entry.phase = .running → entry.key.scope = scope →
      future.countP (fun e => e.ret.hands id) = 1 ∨
      future.countP (fun e => e.ret.hands id) = 0 ∧
        ((∃ e ∈ future, e.op.finishes id e.ret) ∨ id ∈ s.cancellations)

/-- The scope can not be registered any more: it is not registered, and its generation has
been used. -/
def Retired (scope : WorkScope) (s : NetworkWorkOwner Hash) : Prop :=
  scope ∉ s.scopes ∧ (scope.owner = s.owner → scope.generation ≤ s.serial)

omit [DecidableEq Hash] in
theorem StepFacts.retired (hfacts : StepFacts s call reply s') (hretired : Retired scope s) :
  Retired scope s'
  := by
  constructor
  · intro hmem
    rcases hfacts.scopes scope hmem with hmem | ⟨howner, hlt⟩
    · exact hretired.1 hmem
    · have hle := hretired.2 howner
      omega
  · intro howner
    rw [hfacts.owner] at howner
    exact (hretired.2 howner).trans hfacts.serial

theorem LifeStep.of_started {work : StartedWork}
    (h : LifeStep call (.started (some work)) work.id l l') :
  l = .queued work.key
  := by
  cases h with
  | quiet hquiet => simp [Quiet, Reply.starts] at hquiet
  | started hreply =>
    have hwork := Option.some.inj (Reply.started.inj hreply)
    rw [hwork]
  | admitted _ hreply | handed hreply | published _ hreply | discarded _ hreply => simp at hreply

/-- A call on a state where the scope is retired starts and publishes none of its work. -/
theorem Retired.quiet (hconsistent : s.Consistent []) (hstep : Step hash s call reply s')
    (hretired : Retired scope s) :
  (∀ work, reply = .started (some work) → work.key.scope ≠ scope) ∧
    (∀ id now entry, call = .complete id now → reply = .completion .publish →
      s.entries[id]? = some entry → entry.key.scope ≠ scope)
  := by
  have hfacts := step_facts hash hconsistent hstep
  constructor
  · rintro work rfl rfl
    apply hretired.1
    apply hconsistent.scope_of_life (.inl (hfacts.life work.id).of_started)
  · rintro id now entry hcall rfl he rfl
    obtain ⟨key, hrunning, -⟩ := (hfacts.life id).of_publishes hcall
    obtain ⟨entry', he', -, rfl⟩ := life_running_iff.mp hrunning
    cases he.symm.trans he'
    apply hretired.1
    apply hconsistent.scope_of_life (.inr hrunning)

/-- From stopping, work is handed out, or is completed first, or still waits. -/
theorem LifeStep.of_stopping (h : LifeStep call reply id (.stopping key) l') :
  (¬ reply.hands id ∧ l' = .stopping key) ∨ (reply.hands id ∧ 4 ≤ l'.rank) ∨
    (¬ reply.hands id ∧ call.finishes id reply ∧ 4 ≤ l'.rank)
  := by
  cases h with
  | quiet hquiet hfades =>
    cases hfades with
    | refl => exact .inl ⟨hquiet.2.2.1, rfl⟩
  | handed hreply => simp [hreply, Reply.hands, Life.rank]
  | discarded hcall hreply => simp [hcall, hreply, Reply.hands, Call.finishes, Life.rank]

theorem handed_once {t : NetworkWorkOwner Hash} (htrace : Trace (Step hash) t h s)
    (ht : t.Consistent []) (hlife : t.life id = .stopping key) :
  h.countP (fun e => e.ret.hands id) = 1 ∨
    h.countP (fun e => e.ret.hands id) = 0 ∧
      ((∃ e ∈ h, e.op.finishes id e.ret) ∨ id ∈ s.cancellations)
  := by
  have hstages : s.Consistent [] ∧
      ((h.countP (fun e => e.ret.hands id) = 0 ∧ s.life id = .stopping key) ∨
        (h.countP (fun e => e.ret.hands id) = 1 ∧ 4 ≤ (s.life id).rank) ∨
        (h.countP (fun e => e.ret.hands id) = 0 ∧ (∃ e ∈ h, e.op.finishes id e.ret) ∧
          4 ≤ (s.life id).rank)) := by
    apply htrace.history_invariant (P := fun h s => s.Consistent [] ∧
      ((h.countP (fun e => e.ret.hands id) = 0 ∧ s.life id = .stopping key) ∨
        (h.countP (fun e => e.ret.hands id) = 1 ∧ 4 ≤ (s.life id).rank) ∨
        (h.countP (fun e => e.ret.hands id) = 0 ∧ (∃ e ∈ h, e.op.finishes id e.ret) ∧
          4 ≤ (s.life id).rank)))
    · exact ⟨ht, .inl ⟨rfl, hlife⟩⟩
    rintro h s call reply s' - ⟨hs, hstage⟩ hstep
    have hfacts := step_facts hash hs hstep
    have hmove := hfacts.life id
    have hrank := hmove.rank_le
    refine ⟨hfacts.consistent, ?_⟩
    rcases hstage with ⟨hzero, hstopping⟩ | ⟨hone, hlate⟩ | ⟨hzero, ⟨e, he, hfinishes⟩, hlate⟩
    · rw [hstopping] at hmove
      rcases hmove.of_stopping with ⟨hnot, hsame⟩ | ⟨hhands, hlate⟩ | ⟨hnot, hfinishes, hlate⟩
      · left
        simp [hzero, hnot, hsame]
      · right; left
        simp [hzero, hhands, hlate]
      · right; right
        refine ⟨by simp [hzero, hnot], ⟨⟨s, call, reply, s'⟩, by simp, hfinishes⟩, hlate⟩
    · right; left
      have hnot : ¬ reply.hands id := fun hhands => absurd (hmove.of_hands hhands).1 (by omega)
      simp [hone, hnot, hlate.trans hrank]
    · right; right
      have hnot : ¬ reply.hands id := fun hhands => absurd (hmove.of_hands hhands).1 (by omega)
      refine ⟨by simp [hzero, hnot], ⟨e, by simp [he], hfinishes⟩, hlate.trans hrank⟩
  rcases hstages with ⟨-, ⟨hzero, hstopping⟩ | ⟨hone, -⟩ | ⟨hzero, hfinished, -⟩⟩
  · exact .inr ⟨hzero, .inr (life_stopping_iff.mp hstopping).2⟩
  · exact .inl hone
  · exact .inr ⟨hzero, .inl hfinished⟩

/-- Every revocation of a scope that was registered before, or that belongs to another
owner, is final. -/
def RevokesFinally (owner : ℕ) (h : List (WorkEvent Hash)) (s : NetworkWorkOwner Hash) : Prop :=
  ∀ past e future scope, h = past ++ e :: future → e.op = .revokeScope scope →
    (scope.owner = owner → ∃ e' ∈ past, e'.ret = .scope (some scope)) →
      Revoked scope e future s

section

variable (htrace : Trace (Step hash) (new owner limits) h s)
include htrace

/-- A registered scope does not get ahead of the counter. -/
theorem registered_le :
  ∀ e ∈ h, e.ret = .scope (some scope) → scope.generation ≤ s.serial
  := by
  apply Trace.latched (P := fun s => scope.generation ≤ s.serial) htrace
    (consistent_new owner limits) (fun _ _ _ _ h hstep => hstep.consistent h)
  · intro s call reply s' hs hle hstep
    apply hle.trans (step_facts hash hs hstep).serial
  · intro s call reply s' hs hstep hret
    have hfacts := step_facts hash hs hstep
    apply (hfacts.consistent.registered scope (hfacts.registered scope hret)).2

theorem trace_owner :
  s.owner = owner
  := by
  have hboth : s.Consistent [] ∧ s.owner = owner := by
    apply htrace.invariant (P := fun s => s.Consistent [] ∧ s.owner = owner)
    · exact ⟨consistent_new owner limits, rfl⟩
    · rintro s call reply s' ⟨hs, howner⟩ hstep
      have hfacts := step_facts hash hs hstep
      exact ⟨hfacts.consistent, hfacts.owner.trans howner⟩
  apply hboth.2

theorem revokes_finally :
  RevokesFinally owner h s
  := by
  rintro past ⟨before, call, reply, after⟩ future scope rfl rfl hissued
  obtain ⟨hpast, hstep, hfuture⟩ := htrace.split_event
  have hbefore := trace_consistent hpast
  have hfacts := step_facts hash hbefore hstep
  have hretired : Retired scope after := by
    refine ⟨hfacts.revoked scope rfl, fun howner => ?_⟩
    have howner' : scope.owner = owner := by
      rw [howner, hfacts.owner]
      apply trace_owner hpast
    obtain ⟨e', he', hret⟩ := hissued howner'
    apply (registered_le hpast e' he' hret).trans hfacts.serial
  have hquiet : ∀ e ∈ future, ¬ ((∃ work, e.ret = .started (some work) ∧ work.key.scope = scope) ∨
      ∃ id now entry, Publishes id now e ∧ e.before.entries[id]? = some entry ∧
        entry.key.scope = scope) := by
    apply hfuture.forall_mem_of_latched (P := fun s => s.Consistent [] ∧ Retired scope s)
      ⟨hfacts.consistent, hretired⟩
    rintro s call reply s' ⟨hs, hretired⟩ hstep
    have hfacts := step_facts hash hs hstep
    obtain ⟨hstarted, hpublished⟩ := hretired.quiet hs hstep
    refine ⟨⟨hfacts.consistent, hfacts.retired hretired⟩, ?_⟩
    rintro (⟨work, hret, hscope⟩ | ⟨id, now, entry, ⟨hop, hret⟩, he, hscope⟩)
    · exact hstarted work hret hscope
    · exact hpublished id now entry hop hret he hscope
  constructor
  · intro e he work hret hscope
    exact hquiet e he (.inl ⟨work, hret, hscope⟩)
  · intro e he id now entry hpublishes hentry hscope
    exact hquiet e he (.inr ⟨id, now, entry, hpublishes, hentry, hscope⟩)
  · rintro id entry he hp rfl
    -- The revocation asked the work to stop: it could not stay without its scope.
    have hmove := hfacts.life id
    have hrunning : before.life id = .running entry.key :=
      life_running_iff.mpr ⟨entry, he, hp, rfl⟩
    have hnot : after.life id ≠ .running entry.key := by
      intro hlife
      exact hretired.1 (hfacts.consistent.scope_of_life (.inr hlife))
    have hstopping : after.life id = .stopping entry.key := by
      simp only [hrunning] at hmove
      generalize hl' : after.life id = l' at hmove hnot
      cases hmove with
      | quiet _ hfades =>
        cases hfades with
        | refl => exact absurd rfl hnot
        | cancelled => rfl
      | published hcall => cases hcall
      | discarded hcall => cases hcall
    exact handed_once hfuture hfacts.consistent hstopping

end

/-! ### Handing out -/

/-- Asking for a cancellation again and again hands out everything that waits. -/
def HandsOutAll (hash : List UInt8 → Hash) (s : NetworkWorkOwner Hash) : Prop :=
  run hash s (s.cancellations.toList.map fun _ => .nextCancellation)
    = .ok ({ s with cancellations := ∅ },
        s.cancellations.toList.map fun id => .cancellation (some id))

theorem hands_out_all (s : NetworkWorkOwner Hash) :
  HandsOutAll hash s
  := by
  unfold HandsOutAll
  generalize hids : s.cancellations.toList = ids
  induction ids generalizing s with
  | nil =>
    have hempty : s.cancellations = ∅ := Std.ExtTreeSet.toList_eq_nil_iff.mp hids
    simp only [run, List.map_nil, ← hempty]
  | cons id ids ih =>
    cases hpop : BTreeSet.popFirst s.cancellations with
    | none =>
      have hnil := Std.ExtTreeSet.toList_eq_nil_iff.mpr (BTreeSet.popFirst_eq_none.mp hpop)
      rw [hnil] at hids
      cases hids
    | some popped =>
      obtain ⟨first, rest⟩ := popped
      rw [BTreeSet.toList_of_popFirst hpop] at hids
      obtain ⟨rfl, hrest⟩ := List.cons.inj hids
      have hstep : step hash s .nextCancellation
          = .ok ({ s with cancellations := rest }, .cancellation (some first)) := by
        simp [step, nextCancellation, hpop]
      have hrun := ih { s with cancellations := rest } hrest
      simp only [List.map_cons, run, hstep, bind, Except.bind, pure, Except.pure, hrun]

end

/-! ### The main result -/

/-- Publication safety. In every history of an owner a publication is justified by the calls
since the admission of the work, and by all calls when the times never go back. Every
identifier is started, handed out and completed at most once. A revocation is final, and what
waits to be handed out is handed out on request. -/
theorem publication_safety [DecidableEq Hash] {hash : List UInt8 → Hash} {owner : ℕ}
    {limits : WorkLimits} {h : List (WorkEvent Hash)} {s : NetworkWorkOwner Hash}
    (htrace : Trace (Step hash) (new owner limits) h s) :
  PublishesJustified h ∧ (TimesSorted h → NeverOverdue h) ∧ RepliesOnce h ∧
    RevokesFinally owner h s ∧ HandsOutAll hash s
  := by
  refine ⟨publishes_justified htrace, never_overdue htrace, replies_once htrace, ?_, ?_⟩
  · apply revokes_finally htrace
  · apply hands_out_all s

/-- A key for the examples. -/
def sampleKey : WorkKey where
  scope := ⟨0, 1⟩
  protocol := .docs
  object := ⟨List.replicate 32 0, by simp⟩
  mode := .fetch
  persistence := .store
  byteLimit := 1024
  deadline := 50
  lane := .interactive

/-- The calls of a list, made on a new owner, give a history with the replies that `run`
returns. -/
theorem exists_trace_of_replies [DecidableEq Hash] (hash : List UInt8 → Hash) (owner : ℕ)
    (limits : WorkLimits) (calls : List Call) (replies : List Reply)
    (hreplies : (run hash (new owner limits) calls).map Prod.snd = .ok replies) :
  ∃ (h : List (WorkEvent Hash)) (s : NetworkWorkOwner Hash),
    Trace (Step hash) (new owner limits) h s ∧ h.map Event.op = calls ∧
      h.map Event.ret = replies
  := by
  obtain ⟨s, replies', hrun, -⟩ := run_consistent hash (consistent_new owner limits) calls
  rw [hrun] at hreplies
  cases hreplies
  obtain ⟨h, htrace, hop, hret⟩ := trace_of_run .nil hrun
  exact ⟨h, s, htrace, hop, hret⟩

/-- Work is published, new work with the same key is cancelled by a revocation. -/
theorem publication_safety_sample :
  ∃ (h : List (WorkEvent (List UInt8))) (s : NetworkWorkOwner (List UInt8)),
    h.map Event.ret = [.scope (some ⟨0, 1⟩), .admission (.admitted ⟨⟨0, 1⟩, ⟨0, 2⟩, 2⟩),
      .started (some ⟨⟨0, 2⟩, sampleKey, []⟩), .completion .publish,
      .admission (.admitted ⟨⟨0, 1⟩, ⟨0, 3⟩, 3⟩), .started (some ⟨⟨0, 3⟩, sampleKey, [1]⟩),
      .unit, .cancellation (some ⟨0, 3⟩), .completion .discard] ∧
    PublishesJustified h ∧ (TimesSorted h → NeverOverdue h) ∧ RepliesOnce h ∧
      RevokesFinally 0 h s ∧ HandsOutAll (fun metadata => metadata) s
  := by
  obtain ⟨h, s, htrace, -, hret⟩ := exists_trace_of_replies (fun metadata => metadata) 0 {}
    [.registerScope, .admitWork sampleKey [] 10, .startNext 20, .complete ⟨0, 2⟩ 30,
      .admitWork sampleKey [1] 31, .startNext 32, .revokeScope ⟨0, 1⟩, .nextCancellation,
      .complete ⟨0, 3⟩ 40]
    [.scope (some ⟨0, 1⟩), .admission (.admitted ⟨⟨0, 1⟩, ⟨0, 2⟩, 2⟩),
      .started (some ⟨⟨0, 2⟩, sampleKey, []⟩), .completion .publish,
      .admission (.admitted ⟨⟨0, 1⟩, ⟨0, 3⟩, 3⟩), .started (some ⟨⟨0, 3⟩, sampleKey, [1]⟩),
      .unit, .cancellation (some ⟨0, 3⟩), .completion .discard] (by decide +kernel)
  exact ⟨h, s, hret, publication_safety htrace⟩

/-- Without an order on the times, a publication may come after a call with a time past the
deadline: the call was made before the work was admitted. -/
theorem exists_publication_after_overdue_call :
  ∃ (h : List (WorkEvent (List UInt8))) (s : NetworkWorkOwner (List UInt8)),
    Trace (Step fun metadata => metadata) (new 0 {}) h s ∧ ¬ NeverOverdue h
  := by
  obtain ⟨h, s, htrace, hop, hret⟩ := exists_trace_of_replies (fun metadata => metadata) 0 {}
    [.expire 100, .registerScope, .admitWork sampleKey [] 10, .startNext 20,
      .complete ⟨0, 2⟩ 30]
    [.unit, .scope (some ⟨0, 1⟩), .admission (.admitted ⟨⟨0, 1⟩, ⟨0, 2⟩, 2⟩),
      .started (some ⟨⟨0, 2⟩, sampleKey, []⟩), .completion .publish] (by decide +kernel)
  refine ⟨h, s, htrace, fun hnever => ?_⟩
  obtain ⟨overdue, _, rfl, hoverdue, hop⟩ := map_eq_cons_iff.mp hop
  obtain ⟨register, _, rfl, -, hop⟩ := map_eq_cons_iff.mp hop
  obtain ⟨admission, _, rfl, hadmission, hop⟩ := map_eq_cons_iff.mp hop
  obtain ⟨start, _, rfl, -, hop⟩ := map_eq_cons_iff.mp hop
  obtain ⟨completion, _, rfl, hcomplete, hop⟩ := map_eq_cons_iff.mp hop
  obtain rfl := map_eq_nil_iff.mp hop
  simp only [map_cons, map_nil, cons.injEq, and_true] at hret
  obtain ⟨-, -, hadmitted, -, hpublish⟩ := hret
  have hlate := hnever [overdue, register, admission, start] completion [] ⟨0, 2⟩ 30 sampleKey
    rfl ⟨hcomplete, hpublish⟩
    ⟨admission, by simp, [], 10, 2, hadmission, hadmitted, by decide⟩
    overdue (by simp) 100 (by rw [hoverdue]; rfl)
  revert hlate
  decide

end Kukuri.WorkAdmission.NetworkWorkOwner
