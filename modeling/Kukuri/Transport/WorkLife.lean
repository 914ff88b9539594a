import Kukuri.Data.Result
import Kukuri.Data.Trace
import Kukuri.Transport.WorkIndices

/-!
# The life of a piece of work

An identifier of the owner goes through the stages of `Life`, and no call takes it back to
an earlier one. `StepFacts` collects what one call does to the lives of all identifiers, to
the registered scopes and to the deadlines; the statements about whole runs use nothing
else.
-/

namespace Kukuri.WorkAdmission.NetworkWorkOwner

variable {Hash : Type} {s s' : NetworkWorkOwner Hash} {id : WorkId} {entry : Entry Hash}
  {key : WorkKey} {now : Instant}

/-! ### Stages -/

/-- The stages of an identifier. Work is `stopping` while its cancellation waits to be
handed out, and `handed` afterwards. -/
inductive Life where
  | unissued
  | queued (key : WorkKey)
  | running (key : WorkKey)
  | stopping (key : WorkKey)
  | handed (key : WorkKey)
  | gone

/-- The stage of an identifier in a state. -/
def life (s : NetworkWorkOwner Hash) (id : WorkId) : Life :=
  match s.entries[id]? with
  | none => if id.owner = s.owner ∧ id.serial ≤ s.serial then .gone else .unissued
  | some entry =>
    match entry.phase with
    | .queued => .queued entry.key
    | .running => .running entry.key
    | .stopping => if id ∈ s.cancellations then .stopping entry.key else .handed entry.key

/-- The position of a stage. -/
def Life.rank : Life → ℕ
  | .unissued => 0
  | .queued _ => 1
  | .running _ => 2
  | .stopping _ => 3
  | .handed _ => 4
  | .gone => 5

/-- The changes that no reply reports: an identifier is used up for something else, queued
work is dropped, running work is asked to stop. -/
inductive Life.Fades : Life → Life → Prop
  | refl (l : Life) : Fades l l
  | skipped : Fades .unissued .gone
  | dropped (key : WorkKey) : Fades (.queued key) .gone
  | cancelled (key : WorkKey) : Fades (.running key) (.stopping key)

theorem Life.Fades.of_eq {l l' : Life} (h : l' = l) :
  Life.Fades l l'
  := by
  rw [h]
  apply Life.Fades.refl

theorem Life.Fades.trans {l l' l'' : Life} (h : Life.Fades l l') (h' : Life.Fades l' l'') :
  Life.Fades l l''
  := by
  cases h with
  | refl => exact h'
  | skipped => cases h'; exact .skipped
  | dropped key => cases h'; exact .dropped key
  | cancelled key => cases h'; exact .cancelled key

theorem life_queued_iff :
  s.life id = .queued key ↔
    ∃ entry : Entry Hash, s.entries[id]? = some entry ∧ entry.phase = .queued ∧ entry.key = key
  := by
  unfold life
  grind

theorem life_running_iff :
  s.life id = .running key ↔
    ∃ entry : Entry Hash, s.entries[id]? = some entry ∧ entry.phase = .running ∧ entry.key = key
  := by
  unfold life
  grind

theorem life_stopping_iff :
  s.life id = .stopping key ↔
    (∃ entry : Entry Hash, s.entries[id]? = some entry ∧ entry.phase = .stopping ∧
      entry.key = key) ∧ id ∈ s.cancellations
  := by
  unfold life
  grind

theorem life_gone_iff :
  s.life id = .gone ↔ s.entries[id]? = none ∧ id.owner = s.owner ∧ id.serial ≤ s.serial
  := by
  unfold life
  grind

/-- Work that is queued or running is in a registered scope. -/
theorem Consistent.scope_of_life (h : s.Consistent [])
    (hlife : s.life id = .queued key ∨ s.life id = .running key) :
  key.scope ∈ s.scopes
  := by
  rw [life_queued_iff, life_running_iff] at hlife
  rcases hlife with ⟨entry, he, hp, rfl⟩ | ⟨entry, he, hp, rfl⟩
  · exact h.live_scope id entry he (by simp [hp]) List.not_mem_nil
  · exact h.live_scope id entry he (by simp [hp]) List.not_mem_nil

/-- Work that is queued or running is in the set of the deadlines. -/
theorem Consistent.deadline_of_life (h : s.Consistent [])
    (hlife : s.life id = .queued key ∨ s.life id = .running key) :
  toLex (key.deadline, id) ∈ s.deadlines
  := by
  rw [life_queued_iff, life_running_iff] at hlife
  rw [h.deadlines]
  rcases hlife with ⟨entry, he, hp, rfl⟩ | ⟨entry, he, hp, rfl⟩
  · exact ⟨entry, he, .inl hp, rfl⟩
  · exact ⟨entry, he, .inr hp, rfl⟩

/-! ### What the descriptions do to the lives -/

/-- A change that keeps the key and the phase of an identifier can only use it up. -/
theorem life_fades (howner : s'.owner = s.owner) (hserial : s.serial ≤ s'.serial)
    (hentry : (s'.entries[id]?).map (fun entry => (entry.key, entry.phase))
      = (s.entries[id]?).map (fun entry => (entry.key, entry.phase)))
    (hcancellations : id ∈ s'.cancellations ↔ id ∈ s.cancellations) :
  Life.Fades (s.life id) (s'.life id)
  := by
  cases he : s.entries[id]? with
  | none =>
    have he' : s'.entries[id]? = none := by simpa [he] using hentry
    by_cases hissued : id.owner = s.owner ∧ id.serial ≤ s.serial
    · apply Life.Fades.of_eq
      simp [life, he, he', howner, hissued, hissued.2.trans hserial]
    · by_cases hused : id.owner = s'.owner ∧ id.serial ≤ s'.serial
      · simp only [life, he, he', if_neg hissued, if_pos hused]
        exact .skipped
      · apply Life.Fades.of_eq
        simp [life, he, he', hissued, hused]
  | some entry =>
    obtain ⟨entry', he', hkey, hphase⟩ : ∃ entry', s'.entries[id]? = some entry' ∧
        entry'.key = entry.key ∧ entry'.phase = entry.phase := by
      simpa [he] using hentry
    apply Life.Fades.of_eq
    simp [life, he, he', hkey, hphase, hcancellations]

theorem life_joined (he : s.entries[id]? = some entry) (i : WorkId) :
  Life.Fades (s.life i) ((s.joined id entry).life i)
  := by
  apply life_fades
  · rfl
  · apply Nat.le_succ
  · simp only [joined]
    grind
  · rfl

theorem life_enqueued_self {work : BTreeSet WorkId} (hp : entry.phase = .queued) :
  (s.enqueued entry work).life ⟨s.owner, s.serial + 1⟩ = .queued entry.key
  := by
  rw [life_queued_iff]
  exact ⟨entry, by simp [enqueued], hp, rfl⟩

theorem life_enqueued_of_ne {work : BTreeSet WorkId} {i : WorkId}
    (hi : i ≠ ⟨s.owner, s.serial + 1⟩) :
  Life.Fades (s.life i) ((s.enqueued entry work).life i)
  := by
  apply life_fades
  · rfl
  · apply Nat.le_succ
  · simp only [enqueued]
    grind
  · rfl

theorem life_fresh (h : s.Consistent []) :
  s.life ⟨s.owner, s.serial + 1⟩ = .unissued
  := by
  simp [life, h.fresh]

theorem life_started {cursor : ℕ} (i : WorkId) :
  (s.started cursor id entry).life i = if i = id then .running entry.key else s.life i
  := by
  by_cases hi : i = id
  · subst hi
    simp [life, started]
  · unfold life started
    grind

/-- What cancellations do to a state: the work fades, and everything else that the runs
depend on stays. -/
structure Sheds (s s' : NetworkWorkOwner Hash) : Prop where
  owner : s'.owner = s.owner
  serial : s'.serial = s.serial
  scopes : ∀ scope, scope ∈ s'.scopes ↔ scope ∈ s.scopes
  life : ∀ id, Life.Fades (s.life id) (s'.life id)

theorem Sheds.refl (s : NetworkWorkOwner Hash) :
  Sheds s s
  := ⟨rfl, rfl, fun _ => .rfl, fun _ => .refl _⟩

theorem Sheds.trans {s'' : NetworkWorkOwner Hash} (h : Sheds s s') (h' : Sheds s' s'') :
  Sheds s s''
  where
  owner := h'.owner.trans h.owner
  serial := h'.serial.trans h.serial
  scopes := fun scope => (h'.scopes scope).trans (h.scopes scope)
  life := fun id => (h.life id).trans (h'.life id)

/-- Removed work is gone, and all other work stays as it is. -/
theorem life_removed {pending : List WorkId} (h : s.Consistent pending)
    (he : s.entries[id]? = some entry) (i : WorkId) :
  (s.removed id entry).life i = if i = id then .gone else s.life i
  := by
  by_cases hi : i = id
  · subst hi
    obtain ⟨howner, hserial, -⟩ := h.issued i entry he
    rw [if_pos rfl, life_gone_iff]
    simp [removed, howner, hserial]
  · unfold life removed
    grind

theorem life_stopped (i : WorkId) :
  (s.stopped id entry).life i = if i = id then .stopping entry.key else s.life i
  := by
  by_cases hi : i = id
  · subst hi
    simp [life, stopped]
  · unfold life stopped
    grind

theorem sheds_left {waiter : WorkWaiter} (he : s.entries[waiter.work]? = some entry) :
  Sheds s (s.left waiter entry)
  where
  owner := rfl
  serial := rfl
  scopes := fun _ => .rfl
  life := by
    intro i
    apply life_fades
    · rfl
    · rfl
    · simp only [left]
      grind
    · rfl

theorem sheds_cancelled {pending : List WorkId} (h : s.Consistent pending) (id : WorkId) :
  Sheds s (s.cancelled id)
  := by
  unfold cancelled
  split
  case h_1 => exact .refl s
  case h_2 entry he =>
    split
    case h_1 hp =>
      refine ⟨rfl, rfl, fun scope => by simp [removed, Std.ExtTreeMap.mem_modify], fun i => ?_⟩
      rw [life_removed h he]
      split
      case isTrue hi =>
        rw [hi, life_queued_iff.mpr ⟨entry, he, hp, rfl⟩]
        exact .dropped entry.key
      case isFalse => exact .refl _
    case h_2 hp =>
      refine ⟨rfl, rfl, fun scope => .rfl, fun i => ?_⟩
      rw [life_stopped]
      split
      case isTrue hi =>
        rw [hi, life_running_iff.mpr ⟨entry, he, hp, rfl⟩]
        exact .cancelled entry.key
      case isFalse => exact .refl _
    case h_3 => exact .refl s

theorem sheds_cancelAll {ids : List WorkId} (h : s.Consistent ids) :
  Sheds s (ids.foldl cancelled s)
  := by
  induction ids generalizing s with
  | nil => exact .refl s
  | cons id ids ih => exact (sheds_cancelled h id).trans (ih (consistent_cancelled h))

/-- Expiry sheds the overdue work. -/
theorem expire_sheds {expired : NetworkWorkOwner Hash} (h : s.Consistent [])
    (hexpire : s.expire now = .ok expired) :
  Sheds s expired ∧ expired.Consistent [] ∧ ∀ row ∈ expired.deadlines, now < (ofLex row).1
  := by
  obtain ⟨ids, hids, hconsistent, hdeadlines, -⟩ := expire_eq h now
  obtain rfl : ids.foldl cancelled s = expired := Except.ok.inj (hids.symm.trans hexpire)
  exact ⟨sheds_cancelAll (h.weaken (by simp)), hconsistent, hdeadlines⟩

/-! ### One call -/

/-- The reply says that new work was admitted as `id`. -/
def Reply.admits (id : WorkId) : Reply → Bool
  | .admission (.admitted waiter) => waiter.work = id
  | _ => false

/-- The reply says that `id` is to be started. -/
def Reply.starts (id : WorkId) : Reply → Bool
  | .started (some work) => work.id = id
  | _ => false

/-- The reply hands out the cancellation of `id`. -/
def Reply.hands (id : WorkId) : Reply → Bool
  | .cancellation (some cancelled) => cancelled = id
  | _ => false

/-- The call completes `id`, which was known. -/
def Call.finishes (id : WorkId) : Call → Reply → Bool
  | .complete completed _, .completion .publish => completed = id
  | .complete completed _, .completion .discard => completed = id
  | _, _ => false

/-- The time that a call passes to `expire`. -/
def Call.time : Call → Option Instant
  | .admitWork _ _ now => some now
  | .startNext now => some now
  | .expire now => some now
  | _ => none

/-- The call and its reply say nothing about `id`. -/
def Quiet (call : Call) (reply : Reply) (id : WorkId) : Prop :=
  ¬ reply.admits id ∧ ¬ reply.starts id ∧ ¬ reply.hands id ∧ ¬ call.finishes id reply

/-- How one call moves the life of an identifier. -/
inductive LifeStep (call : Call) (reply : Reply) (id : WorkId) : Life → Life → Prop
  | quiet {l l' : Life} (hquiet : Quiet call reply id) (h : Life.Fades l l') :
      LifeStep call reply id l l'
  | admitted {key : WorkKey} {metadata : List UInt8} {now : Instant} {serial : ℕ}
      (hcall : call = .admitWork key metadata now)
      (hreply : reply = .admission (.admitted ⟨key.scope, id, serial⟩))
      (hdeadline : now < key.deadline) : LifeStep call reply id .unissued (.queued key)
  | started {key : WorkKey} {metadata : List UInt8}
      (hreply : reply = .started (some ⟨id, key, metadata⟩)) :
      LifeStep call reply id (.queued key) (.running key)
  | handed {key : WorkKey} (hreply : reply = .cancellation (some id)) :
      LifeStep call reply id (.stopping key) (.handed key)
  | published {key : WorkKey} {now : Instant} (hcall : call = .complete id now)
      (hreply : reply = .completion .publish) (hdeadline : now < key.deadline) :
      LifeStep call reply id (.running key) .gone
  | discarded {l : Life} {now : Instant} (hcall : call = .complete id now)
      (hreply : reply = .completion .discard) (hrank : 2 ≤ l.rank ∧ l.rank ≤ 4) :
      LifeStep call reply id l .gone

/-- What a call does. -/
structure StepFacts (s : NetworkWorkOwner Hash) (call : Call) (reply : Reply)
    (s' : NetworkWorkOwner Hash) : Prop where
  consistent : s'.Consistent []
  owner : s'.owner = s.owner
  serial : s.serial ≤ s'.serial
  life : ∀ id, LifeStep call reply id (s.life id) (s'.life id)
  scopes : ∀ scope ∈ s'.scopes,
    scope ∈ s.scopes ∨ (scope.owner = s.owner ∧ s.serial < scope.generation)
  deadlines : ∀ now, call.time = some now → ∀ row ∈ s'.deadlines, now < (ofLex row).1
  revoked : ∀ scope, call = .revokeScope scope → scope ∉ s'.scopes
  registered : ∀ scope, reply = .scope (some scope) → scope ∈ s'.scopes

theorem registerScope_facts (h : s.Consistent []) :
  StepFacts s .registerScope (.scope s.registerScope.2) s.registerScope.1
  := by
  have hconsistent := consistent_registerScope h
  have hcases : (s.registerScope = (s, none)) ∨ s.registerScope
      = ({ s with
          serial := s.serial + 1
          scopes := s.scopes.insert ⟨s.owner, s.serial + 1⟩ ∅ },
        some ⟨s.owner, s.serial + 1⟩) := by
    unfold registerScope nextSerial
    grind
  rcases hcases with hsame | hnew
  · rw [hsame] at hconsistent ⊢
    exact {
      consistent := hconsistent
      owner := rfl
      serial := le_rfl
      life := fun id => .quiet (by simp [Quiet, Reply.admits, Reply.starts, Reply.hands,
        Call.finishes]) (.refl _)
      scopes := fun scope hscope => .inl hscope
      deadlines := by simp [Call.time]
      revoked := by simp
      registered := by simp }
  · rw [hnew] at hconsistent ⊢
    exact {
      consistent := hconsistent
      owner := rfl
      serial := Nat.le_succ _
      life := fun id => .quiet (by simp [Quiet, Reply.admits, Reply.starts, Reply.hands,
        Call.finishes]) (life_fades rfl (Nat.le_succ _) rfl .rfl)
      scopes := by grind
      deadlines := by simp [Call.time]
      revoked := by simp
      registered := by simp }

/-- A step that only sheds work. -/
theorem Sheds.stepFacts {call : Call} {reply : Reply} (h : Sheds s s')
    (hconsistent : s'.Consistent []) (hquiet : ∀ id, Quiet call reply id)
    (hdeadlines : ∀ now, call.time = some now → ∀ row ∈ s'.deadlines, now < (ofLex row).1)
    (hrevoked : ∀ scope, call ≠ .revokeScope scope)
    (hregistered : ∀ scope, reply ≠ .scope (some scope)) :
  StepFacts s call reply s'
  where
  consistent := hconsistent
  owner := h.owner
  serial := h.serial.ge
  life := fun id => .quiet (hquiet id) (h.life id)
  scopes := fun scope hscope => .inl ((h.scopes scope).mp hscope)
  deadlines := hdeadlines
  revoked := fun scope hcall => absurd hcall (hrevoked scope)
  registered := fun scope hreply => absurd hreply (hregistered scope)

section

variable (h : s.Consistent [])
include h

theorem revokeScope_facts (scope : WorkScope) :
  StepFacts s (.revokeScope scope) .unit (s.revoked scope)
  := by
  have hconsistent := (revokeScope_eq h scope).2
  have hquiet : ∀ id, Quiet (.revokeScope scope) .unit id := by
    simp [Quiet, Reply.admits, Reply.starts, Reply.hands, Call.finishes]
  cases hwork : s.scopes[scope]? with
  | none =>
    have hsame : s.revoked scope = s := by simp [revoked, hwork]
    rw [hsame]
    exact {
      consistent := h
      owner := rfl
      serial := le_rfl
      life := fun id => .quiet (hquiet id) (.refl _)
      scopes := fun scope hscope => .inl hscope
      deadlines := by simp [Call.time]
      revoked := by
        rintro _ ⟨⟩
        simpa using hwork
      registered := by simp }
  | some work =>
    have hsheds := sheds_cancelAll (consistent_eraseScope h hwork)
    have heq : s.revoked scope
        = work.toList.foldl cancelled { s with scopes := s.scopes.erase scope } := by
      simp [revoked, hwork]
    rw [← heq] at hsheds
    exact {
      consistent := hconsistent
      owner := hsheds.owner
      serial := hsheds.serial.ge
      life := fun id => .quiet (hquiet id) (hsheds.life id)
      scopes := by
        intro scope' hscope'
        have := (hsheds.scopes scope').mp hscope'
        grind
      deadlines := by simp [Call.time]
      revoked := by
        rintro _ ⟨⟩
        rw [hsheds.scopes]
        simp
      registered := by simp }

theorem admitWork_facts [DecidableEq Hash] (hash : List UInt8 → Hash) {metadata : List UInt8}
    {admission : Admission} (hadmission : admitWork hash s key metadata now = .ok (s', admission)) :
  StepFacts s (.admitWork key metadata now) (.admission admission) s'
  := by
  obtain ⟨expired, hexpire, -, hcases⟩ := admitWork_cases h hash key metadata now
  obtain ⟨hsheds, hexpired, hdeadlines⟩ := expire_sheds h hexpire
  rcases hcases with ⟨admission', hsame, hnot⟩ | ⟨id, entry, waiter, he, hjoined, hjoin⟩ |
    ⟨work, hdeadline, hwork, henqueued, hnew⟩
  · cases hadmission.symm.trans hsame
    apply hsheds.stepFacts hexpired
    · intro id
      cases admission with
      | admitted waiter => exact absurd rfl (hnot waiter)
      | joined | deferred | denied =>
        simp [Quiet, Reply.admits, Reply.starts, Reply.hands, Call.finishes]
    · rintro _ ⟨⟩
      exact hdeadlines
    · simp
    · simp
  · cases hadmission.symm.trans hjoin
    exact {
      consistent := hjoined
      owner := hsheds.owner
      serial := hsheds.serial.ge.trans (Nat.le_succ _)
      life := fun i => .quiet
        (by simp [Quiet, Reply.admits, Reply.starts, Reply.hands, Call.finishes])
        ((hsheds.life i).trans (life_joined he i))
      scopes := fun scope hscope => .inl ((hsheds.scopes scope).mp hscope)
      deadlines := by
        rintro _ ⟨⟩
        exact hdeadlines
      revoked := by simp
      registered := by simp }
  · cases hadmission.symm.trans hnew
    exact {
      consistent := henqueued
      owner := hsheds.owner
      serial := hsheds.serial.ge.trans (Nat.le_succ _)
      life := by
        intro i
        by_cases hi : i = ⟨expired.owner, expired.serial + 1⟩
        · subst hi
          have hfades := hsheds.life ⟨expired.owner, expired.serial + 1⟩
          rw [life_fresh hexpired] at hfades
          rw [life_enqueued_self rfl]
          generalize s.life ⟨expired.owner, expired.serial + 1⟩ = l at hfades ⊢
          cases hfades with
          | refl => exact .admitted rfl rfl hdeadline
        · apply LifeStep.quiet
          · simp [Quiet, Reply.admits, Reply.starts, Reply.hands, Call.finishes, Ne.symm hi]
          · exact (hsheds.life i).trans (life_enqueued_of_ne hi)
      scopes := by
        intro scope hscope
        left
        rw [← hsheds.scopes]
        simp only [enqueued] at hscope
        grind [newEntry]
      deadlines := by
        rintro _ ⟨⟩ row hrow
        simp only [enqueued, Std.ExtTreeSet.mem_insert, Std.LawfulEqCmp.compare_eq_iff_eq]
          at hrow
        rcases hrow with rfl | hrow
        · exact hdeadline
        · exact hdeadlines row hrow
      revoked := by simp
      registered := by simp }

theorem releaseWaiter_facts {waiter : WorkWaiter} (hrelease : s.releaseWaiter waiter = .ok s') :
  StepFacts s (.releaseWaiter waiter) .unit s'
  := by
  have hquiet : ∀ id, Quiet (.releaseWaiter waiter) .unit id := by
    simp [Quiet, Reply.admits, Reply.starts, Reply.hands, Call.finishes]
  obtain hsame | ⟨entry, he, ⟨hleft, hconsistent⟩ | ⟨hcancel, hpending⟩⟩ :=
    releaseWaiter_cases h waiter
  · cases hrelease.symm.trans hsame
    apply (Sheds.refl _).stepFacts h hquiet
    all_goals simp [Call.time]
  · cases hrelease.symm.trans hleft
    apply (sheds_left he).stepFacts hconsistent hquiet
    all_goals simp [Call.time]
  · cases hrelease.symm.trans hcancel
    have hsheds := (sheds_left he).trans (sheds_cancelled hpending waiter.work)
    apply hsheds.stepFacts (consistent_cancelled hpending) hquiet
    all_goals simp [Call.time]

theorem startNext_facts {work : Option StartedWork} (hstart : s.startNext now = .ok (s', work)) :
  StepFacts s (.startNext now) (.started work) s'
  := by
  obtain ⟨expired, hexpire, -, hcases⟩ := startNext_cases h now
  obtain ⟨hsheds, hexpired, hdeadlines⟩ := expire_sheds h hexpire
  rcases hcases with hnone | ⟨skipped, id, entry, metadata, hpicks, hconsistent, hsome⟩
  · cases hstart.symm.trans hnone
    apply hsheds.stepFacts hexpired
    · simp [Quiet, Reply.admits, Reply.starts, Reply.hands, Call.finishes]
    · rintro _ ⟨⟩
      exact hdeadlines
    · simp
    · simp
  · cases hstart.symm.trans hsome
    exact {
      consistent := hconsistent
      owner := hsheds.owner
      serial := hsheds.serial.ge
      life := by
        intro i
        rw [life_started]
        by_cases hi : i = id
        · subst hi
          have hfades := hsheds.life i
          rw [life_queued_iff.mpr ⟨entry, hpicks.found, hpicks.queued, rfl⟩] at hfades
          rw [if_pos rfl]
          generalize s.life i = l at hfades ⊢
          cases hfades with
          | refl => exact .started rfl
        · rw [if_neg hi]
          apply LifeStep.quiet _ (hsheds.life i)
          simp [Quiet, Reply.admits, Reply.starts, Reply.hands, Call.finishes, Ne.symm hi]
      scopes := fun scope hscope => .inl ((hsheds.scopes scope).mp hscope)
      deadlines := by
        rintro _ ⟨⟩
        exact hdeadlines
      revoked := by simp
      registered := by simp }

theorem expire_facts (hexpire : s.expire now = .ok s') :
  StepFacts s (.expire now) .unit s'
  := by
  obtain ⟨hsheds, hconsistent, hdeadlines⟩ := expire_sheds h hexpire
  apply hsheds.stepFacts hconsistent
  · simp [Quiet, Reply.admits, Reply.starts, Reply.hands, Call.finishes]
  · rintro _ ⟨⟩
    exact hdeadlines
  · simp
  · simp

theorem nextCancellation_facts :
  StepFacts s .nextCancellation (.cancellation s.nextCancellation.2) s.nextCancellation.1
  := by
  have hconsistent := consistent_nextCancellation h
  cases hpop : BTreeSet.popFirst s.cancellations with
  | none =>
    simp only [nextCancellation, hpop] at hconsistent ⊢
    apply (Sheds.refl _).stepFacts h
    all_goals simp [Call.time, Quiet, Reply.admits, Reply.starts, Reply.hands, Call.finishes]
  | some popped =>
    obtain ⟨id, cancellations⟩ := popped
    obtain ⟨⟨hmem, -⟩, rfl⟩ := BTreeSet.popFirst_eq_some.mp hpop
    obtain ⟨entry, he, hp⟩ := h.cancellations id hmem
    simp only [nextCancellation, hpop] at hconsistent ⊢
    exact {
      consistent := hconsistent
      owner := rfl
      serial := le_rfl
      life := by
        intro i
        by_cases hi : i = id
        · subst hi
          have hbefore : s.life i = .stopping entry.key :=
            life_stopping_iff.mpr ⟨⟨entry, he, hp, rfl⟩, hmem⟩
          rw [hbefore]
          simp only [life, he, hp]
          simp only [Std.ExtTreeSet.mem_erase, Std.LawfulEqCmp.compare_eq_iff_eq, ne_eq,
            not_true_eq_false, false_and, if_false]
          exact .handed rfl
        · apply LifeStep.quiet
          · simp [Quiet, Reply.admits, Reply.starts, Reply.hands, Call.finishes, Ne.symm hi]
          · apply life_fades
            · rfl
            · rfl
            · rfl
            · simp [Ne.symm hi]
      scopes := fun scope hscope => .inl hscope
      deadlines := by simp [Call.time]
      revoked := by simp
      registered := by simp }

theorem complete_facts {completion : WorkCompletion}
    (hcomplete : s.complete id now = .ok (s', completion)) :
  StepFacts s (.complete id now) (.completion completion) s'
  := by
  obtain hunknown | ⟨entry, he, hp, hconsistent, hknown⟩ := complete_cases h id now
  · cases hcomplete.symm.trans hunknown
    apply (Sheds.refl _).stepFacts h
    all_goals simp [Call.time, Quiet, Reply.admits, Reply.starts, Reply.hands, Call.finishes]
  · cases hcomplete.symm.trans hknown
    exact {
      consistent := hconsistent
      owner := rfl
      serial := le_rfl
      life := by
        intro i
        rw [life_removed h he]
        by_cases hi : i = id
        · subst hi
          rw [if_pos rfl]
          by_cases hpublish : s.publishes entry now = true
          · obtain ⟨hrunning, hdeadline, -⟩ : entry.phase = .running ∧
                now < entry.key.deadline ∧ entry.key.scope ∈ s.scopes := by
              simpa [publishes] using hpublish
            rw [life_running_iff.mpr ⟨entry, he, hrunning, rfl⟩]
            exact .published rfl (by rw [if_pos hpublish]) hdeadline
          · apply LifeStep.discarded rfl (by rw [if_neg hpublish])
            simp only [life, he]
            cases hphase : entry.phase with
            | queued => exact absurd hphase hp
            | running => simp [Life.rank]
            | stopping =>
              simp only
              split <;> simp [Life.rank]
        · rw [if_neg hi]
          apply LifeStep.quiet _ (.refl _)
          refine ⟨by simp [Reply.admits], by simp [Reply.starts], by simp [Reply.hands], ?_⟩
          split <;> simp [Call.finishes, Ne.symm hi]
      scopes := by
        intro scope hscope
        left
        simpa [removed, Std.ExtTreeMap.mem_modify] using hscope
      deadlines := by simp [Call.time]
      revoked := by simp
      registered := by simp }

end

/-- What one call does, whichever it is. -/
theorem step_facts [DecidableEq Hash] (hash : List UInt8 → Hash) {call : Call} {reply : Reply}
    (h : s.Consistent []) (hstep : step hash s call = .ok (s', reply)) :
  StepFacts s call reply s'
  := by
  cases call with
  | registerScope =>
    cases hstep
    exact registerScope_facts h
  | revokeScope scope =>
    rw [step, (revokeScope_eq h scope).1] at hstep
    cases hstep
    exact revokeScope_facts h scope
  | admitWork key metadata now =>
    obtain ⟨⟨s'', admission⟩, hadmission, hresult⟩ := Result.map_eq_ok.mp hstep
    cases hresult
    exact admitWork_facts h hash hadmission
  | releaseWaiter waiter =>
    obtain ⟨s'', hrelease, hresult⟩ := Result.map_eq_ok.mp hstep
    cases hresult
    exact releaseWaiter_facts h hrelease
  | startNext now =>
    obtain ⟨⟨s'', work⟩, hstart, hresult⟩ := Result.map_eq_ok.mp hstep
    cases hresult
    exact startNext_facts h hstart
  | expire now =>
    obtain ⟨s'', hexpire, hresult⟩ := Result.map_eq_ok.mp hstep
    cases hresult
    exact expire_facts h hexpire
  | nextCancellation =>
    cases hstep
    exact nextCancellation_facts h
  | complete id now =>
    obtain ⟨⟨s'', completion⟩, hcomplete, hresult⟩ := Result.map_eq_ok.mp hstep
    cases hresult
    exact complete_facts h hcomplete

end Kukuri.WorkAdmission.NetworkWorkOwner
