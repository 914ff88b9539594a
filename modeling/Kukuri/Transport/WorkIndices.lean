import Kukuri.Transport.WorkAdmission

/-!
# The indices of the work owner

`IndicesExact` says that the indices of a `NetworkWorkOwner` describe the same work and that
the counters and limits agree with it. `Consistent` is the invariant that proves it.

Every operation is described by a total function that does not panic (`removed`, `stopped`,
`cancelled` and so on). For each operation there is an equation, which says that it returns
this description on a consistent state, and a lemma that the description is consistent.
-/

namespace Kukuri.WorkAdmission.NetworkWorkOwner

open Std.ExtTreeMap Std.ExtTreeSet BTreeMap BTreeSet

variable {Hash : Type} {s : NetworkWorkOwner Hash} {pending : List WorkId} {id : WorkId}
  {entry : Entry Hash}

/-- The number of pieces of work that hold a running slot. -/
def occupied (s : NetworkWorkOwner Hash) : ℕ :=
  BTreeMap.countOver (fun _ entry => entry.phase ≠ .queued) s.entries

/-- The metadata bytes of all work. -/
def storedBytes (s : NetworkWorkOwner Hash) : ℕ :=
  BTreeMap.sumOver (fun _ entry => entry.metadataBytes) s.entries

/-- The indices and counters describe the work in `entries`, within the limits. -/
structure Coherent (s : NetworkWorkOwner Hash) : Prop where
  keys : ∀ (key : WorkKey) (id : WorkId), s.keys[key]? = some id ↔
    ∃ entry : Entry Hash, s.entries[id]? = some entry ∧ entry.key = key
  queues : ∀ (lane : Fin 3) (id : WorkId), id ∈ s.queues lane ↔
    ∃ entry : Entry Hash, s.entries[id]? = some entry ∧
      entry.phase = .queued ∧ entry.key.lane.index = lane
  deadlines : ∀ (deadline : Instant) (id : WorkId), toLex (deadline, id) ∈ s.deadlines ↔
    ∃ entry : Entry Hash, s.entries[id]? = some entry ∧
      (entry.phase = .queued ∨ entry.phase = .running) ∧ entry.key.deadline = deadline
  cancellations : ∀ id ∈ s.cancellations,
    ∃ entry : Entry Hash, s.entries[id]? = some entry ∧ entry.phase = .stopping
  scopes : ∀ (scope : WorkScope) (work : BTreeSet WorkId), s.scopes[scope]? = some work →
    ∀ id, id ∈ work ↔
      ∃ entry : Entry Hash, s.entries[id]? = some entry ∧ entry.key.scope = scope
  running : s.running = s.occupied
  running_le : s.running ≤ s.limits.running
  metadataBytes : s.metadataBytes = s.storedBytes
  metadataBytes_le : s.metadataBytes ≤ s.limits.metadataBytes
  entries_le : s.entries.size ≤ s.limits.requests
  scopes_le : s.scopes.size ≤ s.limits.scopes
  queued : ∀ (id : WorkId) (entry : Entry Hash), s.entries[id]? = some entry →
    entry.phase = .queued →
      entry.waiters.size ≤ s.limits.waitersPerRequest ∧ entry.metadata.isSome

/-- Every index is exact: moreover queued work has a waiter and a registered scope. -/
structure IndicesExact (s : NetworkWorkOwner Hash) : Prop extends Coherent s where
  waited : ∀ (id : WorkId) (entry : Entry Hash), s.entries[id]? = some entry →
    entry.phase = .queued → 1 ≤ entry.waiters.size ∧ entry.key.scope ∈ s.scopes

/-- The invariant of the operations. The work listed in `pending` is about to be cancelled:
it may have lost its last waiter or its scope row. The serial numbers in use are not ahead
of the counter. -/
structure Consistent (pending : List WorkId) (s : NetworkWorkOwner Hash) : Prop
    extends Coherent s where
  waited : ∀ (id : WorkId) (entry : Entry Hash), s.entries[id]? = some entry →
    entry.phase = .queued → id ∉ pending → 1 ≤ entry.waiters.size
  live_scope : ∀ (id : WorkId) (entry : Entry Hash), s.entries[id]? = some entry →
    entry.phase ≠ .stopping → id ∉ pending → entry.key.scope ∈ s.scopes
  issued : ∀ (id : WorkId) (entry : Entry Hash), s.entries[id]? = some entry →
    id.owner = s.owner ∧ id.serial ≤ s.serial ∧
      entry.key.scope.owner = s.owner ∧ entry.key.scope.generation ≤ s.serial
  registered : ∀ scope ∈ s.scopes, scope.owner = s.owner ∧ scope.generation ≤ s.serial
  cursor : s.cursor < lanes.length

theorem Consistent.indicesExact (h : s.Consistent []) :
  s.IndicesExact
  := by
  apply IndicesExact.mk h.toCoherent
  intro id entry he hp
  constructor
  · apply h.waited id entry he hp List.not_mem_nil
  · apply h.live_scope id entry he _ List.not_mem_nil
    simp [hp]

theorem Consistent.weaken {pending' : List WorkId} (h : s.Consistent pending)
    (hsub : ∀ id ∈ pending, id ∈ pending') :
  s.Consistent pending'
  where
  __ := h
  waited := fun id entry he hp hid => h.waited id entry he hp fun hmem => hid (hsub id hmem)
  live_scope := fun id entry he hp hid =>
    h.live_scope id entry he hp fun hmem => hid (hsub id hmem)

/-- Work that is gone or stopping is no longer pending. -/
theorem Consistent.discharge (h : s.Consistent (id :: pending))
    (hid : ∀ entry, s.entries[id]? = some entry → entry.phase = .stopping) :
  s.Consistent pending
  where
  __ := h
  waited := by
    have := h.waited
    grind
  live_scope := by
    have := h.live_scope
    grind

theorem consistent_new (owner : ℕ) (limits : WorkLimits) :
  (new owner limits : NetworkWorkOwner Hash).Consistent []
  := by
  apply Consistent.mk (Coherent.mk ..) <;> simp [new, occupied, storedBytes, lanes]

/-! ### Removing work -/

/-- The state after `remove` took `entry` out of every index. -/
def removed (s : NetworkWorkOwner Hash) (id : WorkId) (entry : Entry Hash) :
    NetworkWorkOwner Hash :=
  { s with
    entries := s.entries.erase id
    keys := s.keys.erase entry.key
    deadlines := s.deadlines.erase (toLex (entry.key.deadline, id))
    queues := Function.update s.queues entry.key.lane.index
      ((s.queues entry.key.lane.index).erase id)
    cancellations := s.cancellations.erase id
    scopes := s.scopes.modify entry.key.scope (fun work => work.erase id)
    running := if entry.phase = .queued then s.running else s.running - 1
    metadataBytes := s.metadataBytes - entry.metadataBytes }

/-- Work that holds a slot is counted. -/
theorem Consistent.running_pos (h : s.Consistent pending) (he : s.entries[id]? = some entry)
    (hp : entry.phase ≠ .queued) :
  1 ≤ s.running
  := by
  rw [h.running, occupied, countOver_erase _ he]
  simp [hp]

theorem Consistent.metadataBytes_ge (h : s.Consistent pending) (he : s.entries[id]? = some entry) :
  entry.metadataBytes ≤ s.metadataBytes
  := by
  rw [h.metadataBytes, storedBytes, sumOver_erase _ he]
  omega

/-- Removing work does not underflow a counter. -/
theorem remove_eq (h : s.Consistent pending) (he : s.entries[id]? = some entry) :
  s.remove id = .ok (s.removed id entry)
  := by
  have hbytes := h.metadataBytes_ge he
  by_cases hp : entry.phase = .queued
  · simp [remove, he, hp, checkedSub, hbytes, removed, bind, Except.bind, pure, Except.pure]
  · have hrunning := h.running_pos he hp
    simp [remove, he, hp, checkedSub, hbytes, hrunning, removed, bind, Except.bind, pure,
      Except.pure]

theorem consistent_removed (h : s.Consistent (id :: pending)) (he : s.entries[id]? = some entry) :
  (s.removed id entry).Consistent pending
  where
  keys := by
    intro key i
    have hkeys := h.keys
    have hid := (hkeys entry.key id).mpr ⟨entry, he, rfl⟩
    simp only [removed]
    grind
  queues := by
    intro lane i
    have hqueues := h.queues
    by_cases hl : lane = entry.key.lane.index
    · subst hl
      simp only [removed, Function.update_self]
      grind
    · simp only [removed, Function.update_of_ne hl]
      grind
  deadlines := by
    intro deadline i
    have hdeadlines := h.deadlines
    simp only [removed, Std.ExtTreeSet.mem_erase, ne_eq, Std.LawfulEqCmp.compare_eq_iff_eq,
      toLex_inj, Prod.mk.injEq]
    grind
  cancellations := by
    have := h.cancellations
    grind [removed]
  scopes := by
    intro scope work hwork i
    have := h.scopes
    simp only [removed, Std.ExtTreeMap.getElem?_modify] at hwork ⊢
    grind
  running := by
    have hcount := BTreeMap.countOver_erase (fun _ entry => entry.phase ≠ Phase.queued) he
    have hrunning := h.running
    simp only [occupied, removed] at hrunning hcount ⊢
    by_cases hp : entry.phase = .queued <;> simp_all
  running_le := by
    have := h.running_le
    simp only [removed]
    split <;> omega
  metadataBytes := by
    have hsum := BTreeMap.sumOver_erase (fun _ (entry : Entry Hash) => entry.metadataBytes) he
    have hbytes := h.metadataBytes
    simp only [storedBytes, removed] at hbytes hsum ⊢
    omega
  metadataBytes_le := by
    have := h.metadataBytes_le
    simp only [removed]
    omega
  entries_le := by
    have := h.entries_le
    have hsize : (s.entries.erase id).size ≤ s.entries.size := Std.ExtTreeMap.size_erase_le
    simp only [removed]
    omega
  scopes_le := by
    have := h.scopes_le
    simpa [removed, Std.ExtTreeMap.size_modify] using this
  queued := by
    have := h.queued
    grind [removed]
  waited := by
    have := h.waited
    grind [removed]
  live_scope := by
    have := h.live_scope
    simp only [removed, Std.ExtTreeMap.mem_modify]
    grind
  issued := by
    have := h.issued
    grind [removed]
  registered := by
    have := h.registered
    simp only [removed, Std.ExtTreeMap.mem_modify]
    exact this
  cursor := h.cursor

/-! ### Replacing work -/

/-- Replacing an entry by one with the same key and size keeps the invariant, when the
indices that depend on the phase and the counter of the running work follow. -/
theorem Consistent.replace (h : s.Consistent pending) {entry' : Entry Hash} {serial : ℕ}
    {queues : Fin 3 → BTreeSet WorkId} {deadlines : BTreeSet (Instant ×ₗ WorkId)}
    {cancellations : BTreeSet WorkId} {cursor running : ℕ} (he : s.entries[id]? = some entry)
    (hkey : entry'.key = entry.key) (hbytes : entry'.metadataBytes = entry.metadataBytes)
    (hserial : s.serial ≤ serial)
    (hqueues : ∀ lane i, i ∈ queues lane ↔ if i = id
      then entry'.phase = .queued ∧ entry.key.lane.index = lane else i ∈ s.queues lane)
    (hdeadlines : ∀ deadline i, toLex (deadline, i) ∈ deadlines ↔ if i = id
      then (entry'.phase = .queued ∨ entry'.phase = .running) ∧ entry.key.deadline = deadline
      else toLex (deadline, i) ∈ s.deadlines)
    (hcancellations : ∀ i ∈ cancellations, if i = id
      then entry'.phase = .stopping else i ∈ s.cancellations)
    (hcursor : cursor < lanes.length)
    (hrunning : running + (if entry.phase ≠ .queued then 1 else 0)
      = s.running + (if entry'.phase ≠ .queued then 1 else 0))
    (hrunning_le : running ≤ s.limits.running)
    (hqueued : entry'.phase = .queued →
      entry'.waiters.size ≤ s.limits.waitersPerRequest ∧ entry'.metadata.isSome ∧
        (id ∉ pending → 1 ≤ entry'.waiters.size))
    (hlive : entry.phase = .stopping → entry'.phase = .stopping) :
  ({ s with
    serial, queues, deadlines, cancellations, cursor, running
    entries := s.entries.insert id entry' } : NetworkWorkOwner Hash).Consistent pending
  where
  keys := by
    have hkeys := h.keys
    grind
  queues := by
    have := h.queues
    grind
  deadlines := by
    have := h.deadlines
    grind
  cancellations := by
    have := h.cancellations
    grind
  scopes := by
    have := h.scopes
    grind
  running := by
    have hcount := countOver_replace
      (fun _ (entry : Entry Hash) => entry.phase ≠ .queued) entry' he
    have := h.running
    simp only [occupied, decide_eq_true_eq] at this hcount ⊢
    omega
  running_le := hrunning_le
  metadataBytes := by
    have hsum := sumOver_replace
      (fun _ (entry : Entry Hash) => entry.metadataBytes) entry' he
    have := h.metadataBytes
    simp only [storedBytes] at this hsum ⊢
    omega
  metadataBytes_le := h.metadataBytes_le
  entries_le := by
    have hmem : id ∈ s.entries := mem_iff_exists.mpr ⟨entry, he⟩
    simpa [Std.ExtTreeMap.size_insert, hmem] using h.entries_le
  scopes_le := h.scopes_le
  queued := by
    have := h.queued
    grind
  waited := by
    have := h.waited
    grind
  live_scope := by
    have := h.live_scope
    grind
  issued := by
    have := h.issued
    grind
  registered := by
    have := h.registered
    grind
  cursor := hcursor

/-- The state after running work was asked to stop. -/
def stopped (s : NetworkWorkOwner Hash) (id : WorkId) (entry : Entry Hash) :
    NetworkWorkOwner Hash :=
  { s with
    entries := s.entries.insert id { entry with phase := .stopping }
    deadlines := s.deadlines.erase (toLex (entry.key.deadline, id))
    cancellations := s.cancellations.insert id }

theorem consistent_stopped (h : s.Consistent (id :: pending)) (he : s.entries[id]? = some entry)
    (hp : entry.phase = .running) :
  (s.stopped id entry).Consistent pending
  := by
  have hstopped : (s.stopped id entry).Consistent (id :: pending) := by
    have hqueues := h.queues
    have hdeadlines := h.deadlines
    apply h.replace he
    case hcursor => apply h.cursor
    case hrunning_le => apply h.running_le
    all_goals grind [toLex_inj]
  apply hstopped.discharge
  simp [stopped]

/-! ### Cancelling work -/

/-- The state after `cancel`. -/
def cancelled (s : NetworkWorkOwner Hash) (id : WorkId) : NetworkWorkOwner Hash :=
  match s.entries[id]? with
  | none => s
  | some entry =>
    match entry.phase with
    | .queued => s.removed id entry
    | .running => s.stopped id entry
    | .stopping => s

theorem cancel_eq (h : s.Consistent pending) (id : WorkId) :
  s.cancel id = .ok (s.cancelled id)
  := by
  cases he : s.entries[id]? with
  | none => simp [cancel, cancelled, he]
  | some entry =>
    cases hp : entry.phase with
    | queued => simp [cancel, cancelled, he, hp, remove_eq h he]
    | running => simp [cancel, cancelled, he, hp, stopped]
    | stopping => simp [cancel, cancelled, he, hp]

theorem consistent_cancelled (h : s.Consistent (id :: pending)) :
  (s.cancelled id).Consistent pending
  := by
  unfold cancelled
  split
  case h_1 he => exact h.discharge (by simp [he])
  case h_2 entry he =>
    split
    case h_1 hp => exact consistent_removed h he
    case h_2 hp => exact consistent_stopped h he hp
    case h_3 hp => exact h.discharge (by simp [he, hp])

/-- Cancelling several pieces of work does not panic either. -/
theorem cancelAll_eq {ids : List WorkId} (h : s.Consistent ids) :
  s.cancelAll ids = .ok (ids.foldl cancelled s)
  := by
  induction ids generalizing s with
  | nil => rfl
  | cons id ids ih =>
    rw [cancelAll, cancel_eq h]
    exact ih (consistent_cancelled h)

theorem consistent_cancelAll {ids : List WorkId} (h : s.Consistent ids) :
  (ids.foldl cancelled s).Consistent []
  := by
  induction ids generalizing s with
  | nil => exact h
  | cons id ids ih => exact ih (consistent_cancelled h)

/-! ### Revoking a scope -/

section

variable (h : s.Consistent [])
include h

/-- Without its row, the scope leaves the listed work pending. -/
theorem consistent_eraseScope {scope : WorkScope} {work : BTreeSet WorkId}
    (hwork : s.scopes[scope]? = some work) :
  Consistent work.toList { s with scopes := s.scopes.erase scope }
  where
  __ := h
  scopes := by
    have := h.scopes
    grind
  scopes_le := by
    have hsize : (s.scopes.erase scope).size ≤ s.scopes.size := size_erase_le
    have := h.scopes_le
    simp only
    omega
  waited := fun id entry he hp _ => h.waited id entry he hp List.not_mem_nil
  live_scope := by
    intro id entry he hp hid
    have hscope := h.live_scope id entry he hp List.not_mem_nil
    have hlisted := h.scopes scope work hwork id
    simp only [Std.ExtTreeSet.mem_toList] at hid
    grind
  registered := by
    have := h.registered
    grind

/-- The state after `revokeScope`. -/
def revoked (s : NetworkWorkOwner Hash) (scope : WorkScope) : NetworkWorkOwner Hash :=
  match s.scopes[scope]? with
  | none => s
  | some work => work.toList.foldl cancelled { s with scopes := s.scopes.erase scope }

theorem revokeScope_eq (scope : WorkScope) :
  s.revokeScope scope = .ok (s.revoked scope) ∧ (s.revoked scope).Consistent []
  := by
  cases hwork : s.scopes[scope]? with
  | none => simp [revokeScope, revoked, hwork, h]
  | some work =>
    have hpending := consistent_eraseScope h hwork
    simp only [revokeScope, revoked, hwork]
    exact ⟨cancelAll_eq hpending, consistent_cancelAll hpending⟩

/-! ### Expiry -/

/-- Taking the deadline of a piece of work out of the set before cancelling it makes no
difference, because `cancel` takes it out anyway. -/
theorem cancel_erase_deadline {deadline : Instant} (hmem : toLex (deadline, id) ∈ s.deadlines) :
  cancel { s with deadlines := s.deadlines.erase (toLex (deadline, id)) } id
    = .ok (s.cancelled id)
  := by
  obtain ⟨entry, he, hphase, rfl⟩ := (h.deadlines deadline id).mp hmem
  have htwice : (s.deadlines.erase (toLex (entry.key.deadline, id))).erase
      (toLex (entry.key.deadline, id)) = s.deadlines.erase (toLex (entry.key.deadline, id)) := by
    apply ext_mem
    simp
  rw [← cancel_eq h]
  rcases hphase with hp | hp
  · simp [cancel, remove, he, hp, htwice]
  · simp [cancel, he, hp, htwice]

/-- Cancelling work takes its deadline out of the set. -/
theorem deadlines_cancelled {deadline : Instant} (hmem : toLex (deadline, id) ∈ s.deadlines) :
  (s.cancelled id).deadlines = s.deadlines.erase (toLex (deadline, id))
  := by
  obtain ⟨entry, he, hphase, rfl⟩ := (h.deadlines deadline id).mp hmem
  rcases hphase with hp | hp
  · simp [cancelled, he, hp, removed]
  · simp [cancelled, he, hp, stopped]

omit h in
theorem getElem?_cancelled_of_ne {i : WorkId} (h : i ≠ id) :
  (s.cancelled id).entries[i]? = s.entries[i]?
  := by
  unfold cancelled
  grind [removed, stopped]

/-- The state after the loop of `expire`. Work that is not overdue is as before. -/
theorem expireLoop_eq {rounds : ℕ} {now : Instant} (hrounds : s.deadlines.size ≤ rounds) :
  ∃ ids : List WorkId, expireLoop rounds s now = .ok (ids.foldl cancelled s) ∧
    (ids.foldl cancelled s).Consistent [] ∧
    (∀ row ∈ (ids.foldl cancelled s).deadlines, now < (ofLex row).1) ∧
    ∀ (i : WorkId) (entry : Entry Hash), s.entries[i]? = some entry → now < entry.key.deadline →
      (ids.foldl cancelled s).entries[i]? = some entry
  := by
  induction rounds generalizing s with
  | zero =>
    have hempty : s.deadlines = ∅ := eq_empty_iff_size_eq_zero.mpr (by omega)
    exact ⟨[], rfl, h, by simp [hempty], fun _ _ he _ => he⟩
  | succ rounds ih =>
    cases hfirst : first s.deadlines with
    | none =>
      have hempty := first_eq_none.mp hfirst
      exact ⟨[], by simp [expireLoop, hfirst], h, by simp [hempty], fun _ _ he _ => he⟩
    | some first =>
      obtain ⟨hmem, hleast⟩ := first_eq_some.mp hfirst
      obtain ⟨⟨deadline, id⟩, rfl⟩ := toLex.surjective first
      by_cases hnow : now < deadline
      · refine ⟨[], by simp [expireLoop, hfirst, hnow], h, fun row hrow => ?_, fun _ _ he _ => he⟩
        exact hnow.trans_le (Prod.Lex.monotone_fst _ _ (hleast row hrow))
      · have hsize : (s.cancelled id).deadlines.size ≤ rounds := by
          rw [deadlines_cancelled h hmem, Std.ExtTreeSet.size_erase,
            if_pos (Std.ExtTreeSet.mem_iff_contains.mp hmem)]
          omega
        obtain ⟨ids, hloop, hids, hdeadlines, hkept⟩ :=
          ih (consistent_cancelled (h.weaken (by simp))) hsize
        refine ⟨id :: ids, ?_, hids, hdeadlines, fun i entry he hdeadline => ?_⟩
        · have hround : expireLoop (rounds + 1) s now = (do
              let s ← cancel { s with deadlines := s.deadlines.erase (toLex (deadline, id)) } id
              expireLoop rounds s now) := by
            simp [expireLoop, hfirst, hnow]
          rw [hround, cancel_erase_deadline h hmem]
          exact hloop
        · apply hkept i entry _ hdeadline
          rw [getElem?_cancelled_of_ne, he]
          rintro rfl
          obtain ⟨overdue, hoverdue, -, rfl⟩ := (h.deadlines deadline i).mp hmem
          cases he.symm.trans hoverdue
          exact hnow hdeadline

theorem expire_eq (now : Instant) :
  ∃ ids : List WorkId, s.expire now = .ok (ids.foldl cancelled s) ∧
    (ids.foldl cancelled s).Consistent [] ∧
    (∀ row ∈ (ids.foldl cancelled s).deadlines, now < (ofLex row).1) ∧
    ∀ (i : WorkId) (entry : Entry Hash), s.entries[i]? = some entry → now < entry.key.deadline →
      (ids.foldl cancelled s).entries[i]? = some entry
  := expireLoop_eq h le_rfl

/-! ### Registering a scope -/

theorem consistent_registerScope :
  (s.registerScope.1).Consistent []
  := by
  unfold registerScope nextSerial
  split
  case isTrue => exact h
  case isFalse hroom =>
    split
    case h_1 => exact h
    case h_2 serial s' hnext =>
      obtain ⟨hlt, rfl, rfl⟩ : s.serial < u64Max ∧ s.serial + 1 = serial ∧
          { s with serial := s.serial + 1 } = s' := by simpa using hnext
      -- The serial of the new scope is ahead of every scope in use.
      have hissued := h.issued
      have hregistered := h.registered
      exact { h with
        scopes := by
          have := h.scopes
          grind
        scopes_le := by
          have hsize := size_insert_le (t := s.scopes)
            (k := ⟨s.owner, s.serial + 1⟩) (v := ∅)
          simp only
          omega
        live_scope := by
          have := h.live_scope
          grind
        issued := by grind
        registered := by grind }

/-! ### Admitting work -/

/-- The state after a waiter joined the work `id`. -/
def joined (s : NetworkWorkOwner Hash) (id : WorkId) (entry : Entry Hash) :
    NetworkWorkOwner Hash :=
  { s with
    serial := s.serial + 1
    entries := s.entries.insert id
      { entry with waiters := entry.waiters.insert (s.serial + 1) } }

theorem consistent_joined (he : s.entries[id]? = some entry)
    (hroom : entry.waiters.size < s.limits.waitersPerRequest) :
  (s.joined id entry).Consistent []
  := by
  have hqueues := h.queues
  have hdeadlines := h.deadlines
  have hcancellations := h.cancellations
  have hqueued := h.queued id entry he
  have hwaited := h.waited id entry he
  apply h.replace he
  case hcursor => apply h.cursor
  case hrunning_le => apply h.running_le
  all_goals grind

/-- Joining indexed work does not panic: either nothing changes, or a waiter is added. -/
theorem join_cases [DecidableEq Hash] (hash : List UInt8 → Hash) {key : WorkKey}
    (hid : s.keys[key]? = some id) (metadata : List UInt8) (now : Instant) :
  (∃ admission, join hash s id key metadata now = .ok (s, admission) ∧
      ∀ waiter, admission ≠ .admitted waiter) ∨
    ∃ entry, s.entries[id]? = some entry ∧ entry.waiters.size < s.limits.waitersPerRequest ∧
      join hash s id key metadata now
        = .ok (s.joined id entry, .joined ⟨key.scope, id, s.serial + 1⟩)
  := by
  obtain ⟨entry, he, -⟩ := (h.keys key id).mp hid
  by_cases hhash : entry.metadataHash ≠ hash metadata
  · left
    use .denied .conflictingMetadata
    simp [join, he, hhash]
  by_cases hfull : entry.phase = .stopping ∨ s.limits.waitersPerRequest ≤ entry.waiters.size
  · left
    use deferred now
    simp [join, he, hhash, hfull, deferred]
  by_cases hserial : s.serial < u64Max
  · right
    refine ⟨entry, he, by omega, ?_⟩
    simp [join, he, hhash, hfull, nextSerial, hserial, joined]
  · left
    use .denied .identifierExhausted
    simp [join, he, hhash, hfull, nextSerial, hserial]

/-- The entry of newly admitted work, with its first waiter. -/
def newEntry (hash : List UInt8 → Hash) (key : WorkKey) (metadata : List UInt8) (serial : ℕ) :
    Entry Hash where
  key := key
  metadata := some metadata
  metadataHash := hash metadata
  metadataBytes := metadata.length
  waiters := (∅ : BTreeSet ℕ).insert serial
  phase := .queued

omit h in
theorem size_newEntry_waiters (hash : List UInt8 → Hash) (key : WorkKey)
    (metadata : List UInt8) (serial : ℕ) :
  (newEntry hash key metadata serial).waiters.size = 1
  := by
  simp [newEntry, Std.ExtTreeSet.size_insert]

/-- The state after new work was admitted in a scope with the given work. -/
def enqueued (s : NetworkWorkOwner Hash) (entry : Entry Hash) (work : BTreeSet WorkId) :
    NetworkWorkOwner Hash :=
  let id : WorkId := ⟨s.owner, s.serial + 1⟩
  { s with
    serial := s.serial + 1
    entries := s.entries.insert id entry
    keys := s.keys.insert entry.key id
    scopes := s.scopes.insert entry.key.scope (work.insert id)
    deadlines := s.deadlines.insert (toLex (entry.key.deadline, id))
    queues := Function.update s.queues entry.key.lane.index
      ((s.queues entry.key.lane.index).insert id)
    metadataBytes := s.metadataBytes + entry.metadataBytes }

omit h in
/-- The next identifier is not in use. -/
theorem Consistent.fresh (h : s.Consistent pending) :
  s.entries[(⟨s.owner, s.serial + 1⟩ : WorkId)]? = none
  := by
  cases he : s.entries[(⟨s.owner, s.serial + 1⟩ : WorkId)]? with
  | none => rfl
  | some entry =>
    have hissued := (h.issued _ entry he).2.1
    simp at hissued

theorem consistent_enqueued {work : BTreeSet WorkId}
    (hwork : s.scopes[entry.key.scope]? = some work) (hkey : s.keys[entry.key]? = none)
    (hphase : entry.phase = .queued) (hmetadata : entry.metadata.isSome)
    (hwaiters : 1 ≤ entry.waiters.size)
    (hwaiters_le : entry.waiters.size ≤ s.limits.waitersPerRequest)
    (hrequests : s.entries.size < s.limits.requests)
    (hbytes : s.metadataBytes + entry.metadataBytes ≤ s.limits.metadataBytes) :
  (s.enqueued entry work).Consistent []
  := by
  have hfresh := h.fresh
  have hscope : entry.key.scope ∈ s.scopes := mem_iff_exists.mpr ⟨work, hwork⟩
  have hregistered := h.registered
  have hissued := h.issued
  unfold enqueued
  generalize hid : (⟨s.owner, s.serial + 1⟩ : WorkId) = id at *
  exact {
    keys := by
      have := h.keys
      grind
    queues := by
      intro lane i
      have := h.queues
      by_cases hl : lane = entry.key.lane.index
      · subst hl
        grind
      · grind
    deadlines := by
      have := h.deadlines
      grind [toLex_inj]
    cancellations := by
      have := h.cancellations
      grind
    scopes := by
      have := h.scopes
      grind
    running := by
      simp [occupied, countOver_insert _ _ hfresh, h.running, hphase]
    running_le := h.running_le
    metadataBytes := by
      have := h.metadataBytes
      simp only [storedBytes, sumOver_insert _ _ hfresh] at this ⊢
      omega
    metadataBytes_le := hbytes
    entries_le := by
      have hsize := size_insert_le (t := s.entries) (k := id) (v := entry)
      simp only
      omega
    scopes_le := by
      simpa [Std.ExtTreeMap.size_insert, hscope] using h.scopes_le
    queued := by
      have := h.queued
      grind
    waited := by
      have := h.waited
      grind
    live_scope := by
      have := h.live_scope
      grind
    issued := by grind
    registered := by grind
    cursor := h.cursor }

/-- Admitting new work in a registered scope does not panic: either nothing changes, or the
work is queued under a new identifier. -/
theorem enqueue_cases (hash : List UInt8 → Hash) {key : WorkKey} (metadata : List UInt8)
    (now : Instant) (hscope : key.scope ∈ s.scopes) (hkey : s.keys[key]? = none) :
  (∃ admission, enqueue hash s key metadata now = .ok (s, admission) ∧
      ∀ waiter, admission ≠ .admitted waiter) ∨
    ∃ work, (s.enqueued (newEntry hash key metadata (s.serial + 1)) work).Consistent [] ∧
      s.scopes[key.scope]? = some work ∧
      enqueue hash s key metadata now
        = .ok (s.enqueued (newEntry hash key metadata (s.serial + 1)) work,
            .admitted ⟨key.scope, ⟨s.owner, s.serial + 1⟩, s.serial + 1⟩)
  := by
  obtain ⟨work, hwork⟩ := BTreeMap.mem_iff_exists.mp hscope
  have hbytes := h.metadataBytes_le
  by_cases hfull : s.limits.requests ≤ s.entries.size ∨ s.limits.waitersPerRequest = 0
  · left
    use deferred now
    simp [enqueue, hfull, deferred, pure, Except.pure]
  by_cases hroom : s.limits.metadataBytes - s.metadataBytes < metadata.length
  · left
    use deferred now
    simp [enqueue, hfull, checkedSub, hbytes, hroom, deferred, pure, Except.pure, bind, Except.bind]
  by_cases hserial : s.serial < u64Max
  · right
    use work
    constructor
    · apply consistent_enqueued h hwork hkey rfl rfl
      · rw [size_newEntry_waiters]
      · rw [size_newEntry_waiters]
        omega
      · omega
      · simp only [newEntry]
        omega
    · simp [enqueue, hfull, checkedSub, hbytes, hroom, nextSerial, hserial, hwork, enqueued,
        newEntry, pure, Except.pure, bind, Except.bind]
  · left
    use .denied .identifierExhausted
    simp [enqueue, hfull, checkedSub, hbytes, hroom, nextSerial, hserial, pure, Except.pure,
      bind, Except.bind]

/-- A request first expires overdue work. Then nothing changes, or a waiter joins the work
with the same key, or the work is queued under a new identifier. -/
theorem admitWork_cases [DecidableEq Hash] (hash : List UInt8 → Hash) (key : WorkKey)
    (metadata : List UInt8) (now : Instant) :
  ∃ expired, s.expire now = .ok expired ∧ expired.Consistent [] ∧
    ((∃ admission, admitWork hash s key metadata now = .ok (expired, admission) ∧
        ∀ waiter, admission ≠ .admitted waiter) ∨
      (∃ id entry waiter, expired.entries[id]? = some entry ∧
        (expired.joined id entry).Consistent [] ∧
        admitWork hash s key metadata now = .ok (expired.joined id entry, .joined waiter)) ∨
      (∃ work, now < key.deadline ∧ expired.scopes[key.scope]? = some work ∧
        (expired.enqueued (newEntry hash key metadata (expired.serial + 1)) work).Consistent [] ∧
        admitWork hash s key metadata now
          = .ok (expired.enqueued (newEntry hash key metadata (expired.serial + 1)) work,
              .admitted
                ⟨key.scope, ⟨expired.owner, expired.serial + 1⟩, expired.serial + 1⟩)))
  := by
  obtain ⟨ids, hexpire, hexpired, -⟩ := expire_eq h now
  generalize ids.foldl cancelled s = expired at hexpire hexpired
  refine ⟨expired, hexpire, hexpired, ?_⟩
  simp only [admitWork, hexpire, bind, Except.bind, pure, Except.pure]
  cases hdenial : expired.denial key metadata now with
  | some reason =>
    left
    use .denied reason
    simp
  | none =>
    obtain ⟨hscope, hdeadline⟩ : key.scope ∈ expired.scopes ∧ now < key.deadline := by
      unfold denial at hdenial
      grind
    cases hid : expired.keys[key]? with
    | some id =>
      obtain hjoin | ⟨entry, he, hroom, hjoin⟩ := join_cases hexpired hash hid metadata now
      · left
        exact hjoin
      · right; left
        exact ⟨id, entry, _, he, consistent_joined hexpired he hroom, hjoin⟩
    | none =>
      obtain henqueue | ⟨work, hconsistent, hwork, henqueue⟩ :=
        enqueue_cases hexpired hash metadata now hscope hid
      · left
        exact henqueue
      · right; right
        exact ⟨work, hdeadline, hwork, hconsistent, henqueue⟩

/-! ### Releasing a waiter -/

/-- The state after a waiter of an entry left. -/
def left (s : NetworkWorkOwner Hash) (waiter : WorkWaiter) (entry : Entry Hash) :
    NetworkWorkOwner Hash :=
  { s with
    entries := s.entries.insert waiter.work
      { entry with waiters := entry.waiters.erase waiter.serial } }

/-- Releasing a waiter does not panic: either nothing changes, or the waiter leaves, and the
work may then be cancelled. -/
theorem releaseWaiter_cases (waiter : WorkWaiter) :
  s.releaseWaiter waiter = .ok s ∨
    ∃ entry, s.entries[waiter.work]? = some entry ∧
      ((s.releaseWaiter waiter = .ok (s.left waiter entry) ∧
          (s.left waiter entry).Consistent []) ∨
        (s.releaseWaiter waiter = .ok ((s.left waiter entry).cancelled waiter.work) ∧
          (s.left waiter entry).Consistent [waiter.work]))
  := by
  cases he : s.entries[waiter.work]? with
  | none => simp [releaseWaiter, he]
  | some entry =>
    by_cases hstale : entry.key.scope ≠ waiter.scope ∨ ¬ waiter.serial ∈ entry.waiters
    · left
      simp [releaseWaiter, he, hstale]
    right
    refine ⟨entry, rfl, ?_⟩
    have hrelease : s.releaseWaiter waiter
        = if (entry.waiters.erase waiter.serial).isEmpty ∧
            (entry.phase = .queued ∨ entry.key.mode = .display)
          then (s.left waiter entry).cancel waiter.work else .ok (s.left waiter entry) := by
      simp only [releaseWaiter, he, if_neg hstale, left]
    have hqueues := h.queues
    have hdeadlines := h.deadlines
    have hcancellations := h.cancellations
    have hqueued := h.queued _ entry he
    by_cases hlast : (entry.waiters.erase waiter.serial).isEmpty ∧
        (entry.phase = .queued ∨ entry.key.mode = .display)
    · right
      have hpending : (s.left waiter entry).Consistent [waiter.work] := by
        have hweak : s.Consistent [waiter.work] := h.weaken (by simp)
        apply hweak.replace he
        case hcursor => apply h.cursor
        case hrunning_le => apply h.running_le
        all_goals grind
      constructor
      · rw [hrelease, if_pos hlast, cancel_eq hpending]
      · exact hpending
    · left
      have hkept : entry.phase = .queued → 1 ≤ (entry.waiters.erase waiter.serial).size := by
        intro hp
        by_contra hzero
        apply hlast
        simp only [hp, true_or, and_true, Std.ExtTreeSet.isEmpty_eq_size_beq_zero, beq_iff_eq]
        omega
      constructor
      · rw [hrelease, if_neg hlast]
      · apply h.replace he
        case hcursor => apply h.cursor
        case hrunning_le => apply h.running_le
        all_goals grind

/-! ### Starting work -/

/-- The state after queued work was started. -/
def started (s : NetworkWorkOwner Hash) (cursor : ℕ) (id : WorkId) (entry : Entry Hash) :
    NetworkWorkOwner Hash :=
  { s with
    entries := s.entries.insert id { entry with phase := .running, metadata := none }
    queues := Function.update s.queues entry.key.lane.index
      ((s.queues entry.key.lane.index).erase id)
    cursor := cursor
    running := s.running + 1 }

theorem consistent_started {cursor : ℕ} (hcursor : cursor < lanes.length)
    (he : s.entries[id]? = some entry) (hp : entry.phase = .queued)
    (hroom : s.running < s.limits.running) :
  (s.started cursor id entry).Consistent []
  := by
  have hqueues := h.queues
  have hdeadlines := h.deadlines
  have hcancellations := h.cancellations
  apply h.replace he
  case hqueues =>
    intro lane i
    by_cases hl : lane = entry.key.lane.index
    · subst hl
      grind
    · grind
  case hcursor => apply hcursor
  case hrunning_le => omega
  all_goals grind

theorem consistent_cursor {cursor : ℕ} (hcursor : cursor < lanes.length) :
  Consistent [] { s with cursor }
  := { h with cursor := hcursor }

/-- The queue of a turn. The turns go round the weighted order. -/
def laneAt (turn : ℕ) : Fin 3 := lanes[turn % lanes.length]?.getD WorkLane.interactive.index

omit h in
theorem laneAt_mod_add (turn n : ℕ) :
  laneAt (turn % lanes.length + n) = laneAt (turn + n)
  := by
  rw [laneAt, Nat.mod_add_mod, laneAt]

/-- The work that the walk over the lanes comes to, behind empty lanes. -/
structure Picks (s : NetworkWorkOwner Hash) (skipped : ℕ) (id : WorkId) (entry : Entry Hash) :
    Prop where
  found : s.entries[id]? = some entry
  queued : entry.phase = .queued
  lane : entry.key.lane.index = laneAt (s.cursor + skipped)
  empty : ∀ turn < skipped, s.queues (laneAt (s.cursor + turn)) = ∅
  least : ∀ i ∈ s.queues entry.key.lane.index, id ≤ i

/-- The walk over the lanes does not panic. It starts the first queued work of the first
lane that has some. -/
theorem startLoop_cases (rounds : ℕ) :
  startLoop rounds s = .ok ({ s with cursor := (s.cursor + rounds) % lanes.length }, none) ∨
    ∃ skipped id entry metadata, s.Picks skipped id entry ∧
      startLoop rounds s = .ok (s.started ((s.cursor + skipped + 1) % lanes.length) id entry,
        some ⟨id, entry.key, metadata⟩)
  := by
  induction rounds generalizing s with
  | zero =>
    left
    rw [startLoop, Nat.add_zero, Nat.mod_eq_of_lt h.cursor]
  | succ rounds ih =>
    have hlane : lanes[s.cursor]? = some (laneAt s.cursor) := by
      rw [laneAt, Nat.mod_eq_of_lt h.cursor, List.getElem?_eq_getElem h.cursor]
      rfl
    have hcursor : (s.cursor + 1) % lanes.length < lanes.length := Nat.mod_lt _ (by decide)
    cases hpop : popFirst (s.queues (laneAt s.cursor)) with
    | none =>
      have hround : startLoop (rounds + 1) s
          = startLoop rounds { s with cursor := (s.cursor + 1) % lanes.length } := by
        simp [startLoop, hlane, hpop]
      rw [hround]
      rcases ih (consistent_cursor h hcursor) with hnone |
        ⟨skipped, id, entry, metadata, hpicks, hsome⟩
      · left
        rw [hnone, Nat.mod_add_mod, Nat.add_right_comm, Nat.add_assoc]
      · right
        refine ⟨skipped + 1, id, entry, metadata, ⟨hpicks.found, hpicks.queued, ?_, ?_,
          hpicks.least⟩, ?_⟩
        · rw [hpicks.lane, laneAt_mod_add, Nat.add_right_comm, Nat.add_assoc]
        · rintro (_ | turn) hturn
          · exact popFirst_eq_none.mp hpop
          · rw [← hpicks.empty turn (by omega), laneAt_mod_add, Nat.add_right_comm, Nat.add_assoc]
        · rw [hsome, Nat.add_assoc, Nat.mod_add_mod, started, started]
          congr 4
          omega
    | some popped =>
      obtain ⟨id, queue⟩ := popped
      obtain ⟨⟨hmem, hleast⟩, rfl⟩ := popFirst_eq_some.mp hpop
      obtain ⟨entry, he, hp, hl⟩ := (h.queues _ id).mp hmem
      obtain ⟨metadata, hmetadata⟩ := Option.isSome_iff_exists.mp (h.queued id entry he hp).2
      right
      refine ⟨0, id, entry, metadata, ⟨he, hp, hl, nofun, by rwa [hl]⟩, ?_⟩
      simp [startLoop, hlane, hpop, he, hmetadata, started, hl]

/-- `startNext` first expires overdue work. Then it starts at most one queued piece of
work. If it starts nothing, it comes back to the turn that it began with. -/
theorem startNext_cases (now : Instant) :
  ∃ expired, s.expire now = .ok expired ∧ expired.Consistent [] ∧
    (s.startNext now = .ok (expired, none) ∨
      ∃ skipped id entry metadata, expired.Picks skipped id entry ∧
        (expired.started ((expired.cursor + skipped + 1) % lanes.length) id entry).Consistent [] ∧
        s.startNext now = .ok (expired.started ((expired.cursor + skipped + 1) % lanes.length) id
          entry, some ⟨id, entry.key, metadata⟩))
  := by
  obtain ⟨ids, hexpire, hexpired, -⟩ := expire_eq h now
  generalize ids.foldl cancelled s = expired at hexpire hexpired
  refine ⟨expired, hexpire, hexpired, ?_⟩
  have hstart : s.startNext now
      = if expired.limits.running ≤ expired.running then .ok (expired, none)
        else startLoop lanes.length expired := by
    rw [startNext, hexpire]
    rfl
  by_cases hfull : expired.limits.running ≤ expired.running
  · left
    rw [hstart, if_pos hfull]
  rw [hstart, if_neg hfull]
  rcases startLoop_cases hexpired lanes.length with hnone |
    ⟨skipped, id, entry, metadata, hpicks, hsome⟩
  · left
    rw [hnone, Nat.add_mod_right, Nat.mod_eq_of_lt hexpired.cursor]
  · right
    refine ⟨skipped, id, entry, metadata, hpicks, ?_, hsome⟩
    exact consistent_started hexpired (Nat.mod_lt _ (by decide)) hpicks.found hpicks.queued
      (by omega)

/-! ### Cancellations and completion -/

theorem consistent_nextCancellation :
  (s.nextCancellation.1).Consistent []
  := by
  unfold nextCancellation
  split
  case h_1 => exact h
  case h_2 id cancellations hpop =>
    obtain ⟨-, rfl⟩ := popFirst_eq_some.mp hpop
    have hstopping := h.cancellations
    exact { h with cancellations := by grind }

/-- A completion is unknown and changes nothing, or takes work that holds a slot out of
every index. -/
theorem complete_cases (id : WorkId) (now : Instant) :
  s.complete id now = .ok (s, .unknown) ∨
    ∃ entry, s.entries[id]? = some entry ∧ entry.phase ≠ .queued ∧
      (s.removed id entry).Consistent [] ∧
      s.complete id now = .ok (s.removed id entry,
        if s.publishes entry now then .publish else .discard)
  := by
  cases he : s.entries[id]? with
  | none =>
    left
    simp [complete, he]
  | some entry =>
    by_cases hp : entry.phase = .queued
    · left
      simp [complete, he, hp]
    · right
      refine ⟨entry, rfl, hp, consistent_removed (h.weaken (by simp)) he, ?_⟩
      simp [complete, he, hp, remove_eq h he, bind, Except.bind, pure, Except.pure]

end

/-! ### Runs -/

/-- No call panics, and every call keeps the invariant. -/
theorem step_consistent [DecidableEq Hash] (hash : List UInt8 → Hash) (h : s.Consistent [])
    (call : Call) :
  ∃ s' reply, step hash s call = .ok (s', reply) ∧ s'.Consistent []
  := by
  cases call with
  | registerScope => exact ⟨_, _, rfl, consistent_registerScope h⟩
  | revokeScope scope =>
    obtain ⟨hrevoke, hrevoked⟩ := revokeScope_eq h scope
    exact ⟨_, _, by rw [step, hrevoke]; rfl, hrevoked⟩
  | admitWork key metadata now =>
    obtain ⟨expired, -, hexpired, ⟨_, hadmission, -⟩ | ⟨_, _, _, _, hs', hadmission⟩ |
      ⟨_, _, _, hs', hadmission⟩⟩ := admitWork_cases h hash key metadata now
    · exact ⟨_, _, by rw [step, hadmission]; rfl, hexpired⟩
    · exact ⟨_, _, by rw [step, hadmission]; rfl, hs'⟩
    · exact ⟨_, _, by rw [step, hadmission]; rfl, hs'⟩
  | releaseWaiter waiter =>
    obtain hrelease | ⟨entry, -, ⟨hrelease, hs'⟩ | ⟨hrelease, hpending⟩⟩ :=
      releaseWaiter_cases h waiter
    · exact ⟨_, _, by rw [step, hrelease]; rfl, h⟩
    · exact ⟨_, _, by rw [step, hrelease]; rfl, hs'⟩
    · exact ⟨_, _, by rw [step, hrelease]; rfl, consistent_cancelled hpending⟩
  | startNext now =>
    obtain ⟨expired, -, hexpired, hstart | ⟨_, _, _, _, _, hs', hstart⟩⟩ := startNext_cases h now
    · exact ⟨_, _, by rw [step, hstart]; rfl, hexpired⟩
    · exact ⟨_, _, by rw [step, hstart]; rfl, hs'⟩
  | expire now =>
    obtain ⟨ids, hexpire, hexpired, -⟩ := expire_eq h now
    exact ⟨_, _, by rw [step, hexpire]; rfl, hexpired⟩
  | nextCancellation => exact ⟨_, _, rfl, consistent_nextCancellation h⟩
  | complete id now =>
    obtain hcomplete | ⟨entry, _, _, hs', hcomplete⟩ := complete_cases h id now
    · exact ⟨_, _, by rw [step, hcomplete]; rfl, h⟩
    · exact ⟨_, _, by rw [step, hcomplete]; rfl, hs'⟩

/-- A run from a consistent state does not panic and ends in a consistent state. -/
theorem run_consistent [DecidableEq Hash] (hash : List UInt8 → Hash) (h : s.Consistent [])
    (calls : List Call) :
  ∃ s' replies, run hash s calls = .ok (s', replies) ∧ s'.Consistent []
  := by
  induction calls generalizing s with
  | nil => exact ⟨s, [], rfl, h⟩
  | cons call calls ih =>
    obtain ⟨s', reply, hstep, hs'⟩ := step_consistent hash h call
    obtain ⟨s'', replies, hrun, hs''⟩ := ih hs'
    refine ⟨s'', reply :: replies, ?_, hs''⟩
    simp [run, hstep, hrun, bind, Except.bind, pure, Except.pure]

/-- Whatever is called on a new owner, with any limits, tokens and times, no call panics and
the indices stay exact. -/
theorem run_indicesExact [DecidableEq Hash] (hash : List UInt8 → Hash) (owner : ℕ)
    (limits : WorkLimits) (calls : List Call) :
  ∃ s replies, run hash (new owner limits) calls = .ok (s, replies) ∧ s.IndicesExact
  := by
  obtain ⟨s, replies, hrun, hs⟩ := run_consistent hash (consistent_new owner limits) calls
  exact ⟨s, replies, hrun, hs.indicesExact⟩

/-- The deadlines of the work that is queued or running. -/
def liveDeadlines (s : NetworkWorkOwner Hash) : Set Instant :=
  {deadline | ∃ id : WorkId, ∃ entry, s.entries[id]? = some entry ∧
    (entry.phase = .queued ∨ entry.phase = .running) ∧ entry.key.deadline = deadline}

theorem Coherent.isLeast_next (h : s.Coherent) :
  ∀ deadline ∈ s.nextDeadline, IsLeast s.liveDeadlines deadline
  := by
  intro deadline hnext
  obtain ⟨row, hrow, rfl⟩ := Option.map_eq_some_iff.mp hnext
  obtain ⟨hmem, hleast⟩ := first_eq_some.mp hrow
  refine ⟨⟨_, (h.deadlines _ _).mp hmem⟩, ?_⟩
  rintro deadline ⟨id, hid⟩
  exact Prod.Lex.monotone_fst _ _ (hleast _ ((h.deadlines deadline id).mpr hid))

/-- After every run `nextDeadline` is the least deadline of the work that is queued or running,
and to expire leaves none of this work overdue. -/
theorem run_nextDeadline [DecidableEq Hash] (hash : List UInt8 → Hash) (owner : ℕ)
    (limits : WorkLimits) (calls : List Call) :
  ∃ s replies, run hash (new owner limits) calls = .ok (s, replies) ∧
    (∀ deadline, s.nextDeadline = some deadline ↔ IsLeast s.liveDeadlines deadline) ∧
    ∀ now, ∃ s', s.expire now = .ok s' ∧ ∀ deadline ∈ s'.liveDeadlines, now < deadline
  := by
  obtain ⟨s, replies, hrun, hs⟩ := run_consistent hash (consistent_new owner limits) calls
  refine ⟨s, replies, hrun, fun deadline => ⟨hs.isLeast_next deadline, ?_⟩, fun now => ?_⟩
  · intro hleast
    cases hnext : s.nextDeadline with
    | none =>
      obtain ⟨id, hid⟩ := hleast.1
      have hmem := (hs.deadlines deadline id).mpr hid
      simp [first_eq_none.mp (Option.map_eq_none_iff.mp hnext)] at hmem
    | some least => rw [(hs.isLeast_next least hnext).unique hleast]
  · obtain ⟨ids, hexpire, hs', hlater, -⟩ := expire_eq hs now
    refine ⟨_, hexpire, ?_⟩
    rintro deadline ⟨id, hid⟩
    exact hlater _ ((hs'.deadlines deadline id).mpr hid)

end Kukuri.WorkAdmission.NetworkWorkOwner
