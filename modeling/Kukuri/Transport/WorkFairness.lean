import Kukuri.Transport.WorkRuns

/-!
# Fair starts

`startNext` goes round the queues in a weighted order. A lane that has work for every start of a
round gets its share of the round (`share_le_of_window`), and the work of a lane is started in the
order in which it was admitted (`InOrder`).
-/

namespace Kukuri.WorkAdmission.NetworkWorkOwner

/-- How many of seven starts belong to a lane that always has work. -/
def share : WorkLane → ℕ
  | .interactive => 4
  | .send => 2
  | .background => 1

/-- The call starts work. -/
def Reply.startsWork : Reply → Bool
  | .started (some _) => true
  | _ => false

/-- The work that a reply starts in the lane. -/
def Reply.startedIn (lane : WorkLane) : Reply → Option WorkId
  | .started (some work) => if work.key.lane = lane then some work.id else none
  | _ => none

/-- The work that a call admits to the lane. -/
def Call.admittedIn (lane : WorkLane) : Call → Reply → Option WorkId
  | .admitWork key _ _, .admission (.admitted waiter) =>
    if key.lane = lane then some waiter.work else none
  | _, _ => none

/-- The work that was started in the lane, in order. -/
def startedIn {Hash : Type} (lane : WorkLane) (h : List (WorkEvent Hash)) : List WorkId :=
  h.filterMap (·.ret.startedIn lane)

/-- The work that was admitted to the lane, in order. -/
def admittedIn {Hash : Type} (lane : WorkLane) (h : List (WorkEvent Hash)) : List WorkId :=
  h.filterMap fun e => e.op.admittedIn lane e.ret

/-- The lane has queued work that is not overdue at the time of the call. -/
def Waiting {Hash : Type} (lane : WorkLane) (e : WorkEvent Hash) : Prop :=
  ∀ now, e.op = .startNext now → ∃ (id : WorkId) (entry : Entry Hash),
    e.before.entries[id]? = some entry ∧ entry.phase = .queued ∧ entry.key.lane = lane ∧
      now < entry.key.deadline

theorem index_inj {lane lane' : WorkLane} :
  lane.index = lane'.index ↔ lane = lane'
  := by
  cases lane <;> cases lane' <;> simp [WorkLane.index]

section

variable {Hash : Type} {call : Call} {reply : Reply} {s s' t expired : NetworkWorkOwner Hash}
  {id : WorkId} {lane : WorkLane} {now : Instant} {h : List (WorkEvent Hash)}

/-! ### What a call does to the lanes -/

theorem cursor_cancelAll (ids : List WorkId) (s : NetworkWorkOwner Hash) :
  (ids.foldl cancelled s).cursor = s.cursor
  := by
  induction ids generalizing s with
  | nil => rfl
  | cons id ids ih =>
    rw [List.foldl_cons, ih, cancelled]
    split
    · rfl
    · split <;> rfl

theorem expire_keeps (h : s.Consistent []) (hexpire : s.expire now = .ok expired) :
  expired.cursor = s.cursor ∧ ∀ (id : WorkId) (entry : Entry Hash), s.entries[id]? = some entry →
    now < entry.key.deadline → expired.entries[id]? = some entry
  := by
  obtain ⟨ids, hids, -, -, hkept⟩ := expire_eq h now
  obtain rfl : ids.foldl cancelled s = expired := Except.ok.inj (hids.symm.trans hexpire)
  exact ⟨cursor_cancelAll ids s, hkept⟩

theorem startedIn_of_not_startsWork (hreply : reply.startsWork = false) :
  reply.startedIn lane = none
  := by
  unfold Reply.startsWork at hreply
  unfold Reply.startedIn
  grind

theorem mem_queues_iff (h : s.Consistent []) :
  id ∈ s.queues lane.index ↔ ∃ key, s.life id = .queued key ∧ key.lane = lane
  := by
  simp only [h.queues, life_queued_iff, index_inj]
  grind

/-- What is queued after a call was queued before or is new. -/
theorem queued_of_step (hs : s.Consistent []) (hfacts : StepFacts s call reply s')
    (hid : id ∈ s'.queues lane.index) :
  id ∈ s.queues lane.index ∨ call.admittedIn lane reply = some id
  := by
  obtain ⟨key, hlife', hlane⟩ := (mem_queues_iff hfacts.consistent).mp hid
  have hstep := hfacts.life id
  rw [hlife'] at hstep
  generalize hlife : s.life id = l at hstep
  cases hstep with
  | quiet _ hfades =>
    cases hfades
    exact .inl ((mem_queues_iff hs).mpr ⟨key, hlife, hlane⟩)
  | admitted hcall hreply =>
    right
    simp [hcall, hreply, Call.admittedIn, hlane]

/-- New work has a new identifier. -/
theorem fresh_of_step (hfacts : StepFacts s call reply s')
    (hid : call.admittedIn lane reply = some id) :
  id.owner = s.owner ∧ s.serial < id.serial ∧ id.serial ≤ s'.serial
  := by
  unfold Call.admittedIn at hid
  split at hid
  case h_2 => cases hid
  case h_1 waiter =>
    obtain ⟨-, ⟨⟩⟩ := Option.ite_none_right_eq_some.mp hid
    have hstep := hfacts.life waiter.work
    generalize hlife : s.life waiter.work = l, hlife' : s'.life waiter.work = l' at hstep
    cases hstep with
    | quiet hquiet => simp [Quiet, Reply.admits] at hquiet
    | admitted =>
      obtain ⟨entry, he, -⟩ := life_queued_iff.mp hlife'
      obtain ⟨howner, hserial, -⟩ := hfacts.consistent.issued _ entry he
      have hunissued : ¬ (waiter.work.owner = s.owner ∧ waiter.work.serial ≤ s.serial) := by
        unfold life at hlife
        grind
      rw [hfacts.owner] at howner
      omega
    | started hreply | handed hreply | published _ hreply | discarded _ hreply => cases hreply

/-- Only a call that starts work takes a turn, behind those of empty lanes. -/
inductive Turn (s : NetworkWorkOwner Hash) : Call → Reply → NetworkWorkOwner Hash → Prop
  | stay {call : Call} {reply : Reply} {s' : NetworkWorkOwner Hash}
      (hreply : reply.startsWork = false) (hcursor : s'.cursor = s.cursor) : Turn s call reply s'
  | take {now : Instant} {expired : NetworkWorkOwner Hash} {skipped : ℕ} {id : WorkId}
      {entry : Entry Hash} (metadata : List UInt8) (hexpire : s.expire now = .ok expired)
      (hexpired : expired.Consistent []) (hpicks : expired.Picks skipped id entry) :
      Turn s (.startNext now) (.started (some ⟨id, entry.key, metadata⟩))
        (expired.started ((expired.cursor + skipped + 1) % lanes.length) id entry)

variable [DecidableEq Hash] {hash : List UInt8 → Hash}

theorem turn_of_step (h : s.Consistent []) (hstep : Step hash s call reply s') :
  Turn s call reply s'
  := by
  rw [Step] at hstep
  cases call with
  | registerScope =>
    cases hstep
    refine .stay rfl ?_
    unfold registerScope nextSerial
    grind
  | revokeScope scope =>
    rw [step, (revokeScope_eq h scope).1] at hstep
    cases hstep
    refine .stay rfl ?_
    unfold revoked
    split
    · rfl
    · exact cursor_cancelAll _ _
  | admitWork key metadata now =>
    obtain ⟨expired, hexpire, -, ⟨_, hadmission, -⟩ | ⟨_, _, _, _, -, hadmission⟩ |
      ⟨_, _, _, -, hadmission⟩⟩ := admitWork_cases h hash key metadata now
    all_goals
      rw [step, hadmission] at hstep
      cases hstep
      exact .stay rfl (expire_keeps h hexpire).1
  | releaseWaiter waiter =>
    obtain hrelease | ⟨entry, -, ⟨hrelease, -⟩ | ⟨hrelease, -⟩⟩ := releaseWaiter_cases h waiter
    all_goals
      rw [step, hrelease] at hstep
      cases hstep
      refine .stay rfl ?_
    · rfl
    · rfl
    · exact cursor_cancelAll [waiter.work] _
  | startNext now =>
    obtain ⟨expired, hexpire, hexpired, hstart | ⟨_, _, _, _, hpicks, -, hstart⟩⟩ :=
      startNext_cases h now
    all_goals
      rw [step, hstart] at hstep
      cases hstep
    · exact .stay rfl (expire_keeps h hexpire).1
    · exact .take _ hexpire hexpired hpicks
  | expire now =>
    obtain ⟨expired, hexpire, hresult⟩ := Result.map_eq_ok.mp hstep
    cases hresult
    exact .stay rfl (expire_keeps h hexpire).1
  | nextCancellation =>
    cases hstep
    refine .stay rfl ?_
    unfold nextCancellation
    split <;> rfl
  | complete id now =>
    obtain hcomplete | ⟨_, -, -, -, hcomplete⟩ := complete_cases h id now
    all_goals
      rw [step, hcomplete] at hstep
      cases hstep
      exact .stay rfl rfl

/-- The work that is started was queued, in front of what stays queued. -/
theorem first_of_step (hs : s.Consistent []) (hstep : Step hash s call reply s')
    (hid : reply.startedIn lane = some id) :
  id ∈ s.queues lane.index ∧ ∀ i ∈ s'.queues lane.index, id < i
  := by
  have hlife := (step_facts hash hs hstep).life id
  cases turn_of_step hs hstep with
  | stay hreply =>
    rw [startedIn_of_not_startsWork hreply] at hid
    cases hid
  | take metadata hexpire hexpired hpicks =>
    obtain ⟨rfl, ⟨⟩⟩ := Option.ite_none_right_eq_some.mp hid
    refine ⟨(mem_queues_iff hs).mpr ⟨_, hlife.of_started, rfl⟩, ?_⟩
    intro i hi
    simp only [started, Function.update_self] at hi
    obtain ⟨hne, hmem⟩ := Std.ExtTreeSet.mem_erase.mp hi
    exact lt_of_le_of_ne (hpicks.least i hmem) (by simpa using hne)

/-! ### Shares -/

/-- The turns that were taken, with those that were skipped, and the turns of a lane that always
has work. -/
theorem turns_of_trace (ht : t.Consistent []) (htrace : Trace (Step hash) t h s)
    (hwaiting : ∀ e ∈ h, e.ret.startsWork → Waiting lane e) :
  ∃ turns, h.countP (·.ret.startsWork) ≤ turns ∧ s.cursor = (t.cursor + turns) % lanes.length ∧
    Nat.count (laneAt · = lane.index) (t.cursor + turns) =
      Nat.count (laneAt · = lane.index) t.cursor + h.countP fun e => (e.ret.startedIn lane).isSome
  := by
  induction htrace with
  | nil => exact ⟨0, by simp, (Nat.mod_eq_of_lt ht.cursor).symm, by simp⟩
  | @snoc h s call reply s' htrace hstep ih =>
    have hs : s.Consistent [] := htrace.invariant ht fun _ _ _ _ h hstep => hstep.consistent h
    obtain ⟨turns, hturns, hcursor, hcount⟩ :=
      ih fun e he => hwaiting e (List.mem_append_left _ he)
    have hlast := hwaiting ⟨s, call, reply, s'⟩ (by simp)
    simp only [List.countP_append, List.countP_singleton]
    cases turn_of_step hs hstep with
    | stay hreply hsame =>
      refine ⟨turns, ?_, hsame.trans hcursor, ?_⟩
      · simpa [hreply] using hturns
      · simpa [startedIn_of_not_startsWork hreply] using hcount
    | @take now expired skipped id entry metadata hexpire hexpired hpicks =>
      obtain ⟨hkeeps, hkept⟩ := expire_keeps hs hexpire
      have hat : ∀ turn, laneAt (expired.cursor + turn) = laneAt (t.cursor + turns + turn) := by
        intro turn
        rw [hkeeps, hcursor, laneAt_mod_add]
      -- The lane has work, so none of the turns that are skipped is one of its turns.
      have hskipped : Nat.count (fun turn => laneAt (t.cursor + turns + turn) = lane.index)
          skipped = 0 := by
        rw [Nat.count_iff_forall_not]
        intro turn hturn hlane
        obtain ⟨i, waiting, hi, hp, rfl, hdeadline⟩ := hlast rfl now rfl
        have hmem := (hexpired.queues _ i).mpr ⟨waiting, hkept i waiting hi hdeadline, hp, rfl⟩
        rw [← hlane, ← hat, hpicks.empty turn hturn] at hmem
        simp at hmem
      refine ⟨turns + skipped + 1, ?_, ?_, ?_⟩
      · split <;> omega
      · simp only [started, hkeeps, hcursor]
        rw [Nat.add_assoc, Nat.mod_add_mod]
        congr 1
        omega
      · rw [← Nat.add_assoc, ← Nat.add_assoc, Nat.count_succ, Nat.count_add, hskipped, hcount,
          ← hat, ← hpicks.lane]
        simp only [index_inj, Reply.startedIn]
        split <;> simp [Nat.add_assoc]

theorem count_round {cursor : ℕ} (h : cursor < lanes.length) (lane : WorkLane) :
  Nat.count (fun turn => laneAt (cursor + turn) = lane.index) 7 = share lane
  := by
  revert cursor
  cases lane <;> decide

theorem share_le_of_window (ht : t.Consistent []) (htrace : Trace (Step hash) t h s)
    (hcount : h.countP (·.ret.startsWork) = 7)
    (hwaiting : ∀ e ∈ h, e.ret.startsWork → Waiting lane e) :
  share lane ≤ h.countP fun e => (e.ret.startedIn lane).isSome
  := by
  obtain ⟨turns, hturns, -, hshare⟩ := turns_of_trace ht htrace hwaiting
  have hround := Nat.count_monotone (laneAt · = lane.index)
    (Nat.add_le_add_left (hcount.symm.trans_le hturns) t.cursor)
  rw [Nat.count_add, count_round ht.cursor, hshare] at hround
  omega

/-! ### Order -/

/-- The admissions and the starts of a lane in the order of their identifiers. What is queued has
been admitted, and comes behind what has been started. -/
structure InOrder (lane : WorkLane) (h : List (WorkEvent Hash)) (s : NetworkWorkOwner Hash) :
    Prop where
  admitted : (admittedIn lane h).Pairwise (· < ·)
  started : (startedIn lane h).Pairwise (· < ·)
  issued : ∀ id ∈ admittedIn lane h, id.owner = s.owner ∧ id.serial ≤ s.serial
  known : ∀ id, id ∈ startedIn lane h ∨ id ∈ s.queues lane.index → id ∈ admittedIn lane h
  behind : ∀ id ∈ startedIn lane h, ∀ i ∈ s.queues lane.index, id < i

theorem pairwise_snoc {α : Type} {l : List α} {a : α} {f : α → Option WorkId}
    (h : (l.filterMap f).Pairwise (· < ·)) (hlast : ∀ id ∈ f a, ∀ i ∈ l.filterMap f, i < id) :
  ((l ++ [a]).filterMap f).Pairwise (· < ·)
  := by
  rw [List.filterMap_append, List.pairwise_append]
  refine ⟨h, ?_, fun i hi id hid => hlast id (by simpa using hid) i hi⟩
  cases hf : f a <;> simp [hf]

theorem InOrder.snoc (horder : InOrder lane h s) (hs : s.Consistent [])
    (hstep : Step hash s call reply s') :
  InOrder lane (h ++ [⟨s, call, reply, s'⟩]) s'
  := by
  have hfacts := step_facts hash hs hstep
  have hadmitted : ∀ id, id ∈ admittedIn lane (h ++ [⟨s, call, reply, s'⟩]) ↔
      id ∈ admittedIn lane h ∨ call.admittedIn lane reply = some id := by
    simp [admittedIn]
  have hstarted : ∀ id, id ∈ startedIn lane (h ++ [⟨s, call, reply, s'⟩]) ↔
      id ∈ startedIn lane h ∨ reply.startedIn lane = some id := by
    simp [startedIn]
  -- New work comes behind everything that was admitted before.
  have hnew : ∀ id, call.admittedIn lane reply = some id → ∀ i ∈ admittedIn lane h, i < id := by
    intro id hid i hi
    obtain ⟨howner, hserial, -⟩ := fresh_of_step hfacts hid
    obtain ⟨howner', hserial'⟩ := horder.issued i hi
    exact Prod.Lex.toLex_lt_toLex.mpr (.inr ⟨howner'.trans howner.symm, by simp only; omega⟩)
  refine ⟨pairwise_snoc horder.admitted hnew, pairwise_snoc horder.started ?_, ?_, ?_, ?_⟩
  · intro id hid i hi
    exact horder.behind i hi id (first_of_step hs hstep hid).1
  · intro id hid
    rw [hfacts.owner]
    rcases (hadmitted id).mp hid with hold | hid
    · exact ⟨(horder.issued id hold).1, (horder.issued id hold).2.trans hfacts.serial⟩
    · exact ⟨(fresh_of_step hfacts hid).1, (fresh_of_step hfacts hid).2.2⟩
  · intro id hid
    rw [hadmitted]
    rcases hid with hid | hid
    · rcases (hstarted id).mp hid with hold | hid
      · exact .inl (horder.known id (.inl hold))
      · exact .inl (horder.known id (.inr (first_of_step hs hstep hid).1))
    · exact (queued_of_step hs hfacts hid).imp_left fun hold => horder.known id (.inr hold)
  · intro id hid i hi
    rcases (hstarted id).mp hid with hold | hid
    · rcases queued_of_step hs hfacts hi with hqueued | hi
      · exact horder.behind id hold i hqueued
      · exact hnew i hi id (horder.known id (.inl hold))
    · exact (first_of_step hs hstep hid).2 i hi

end

/-- Of seven starts, whatever is called between them, each lane that has work at all of them gets
its share. The work of a lane is started in the order in which it was admitted. -/
theorem starts_fair_in_order {Hash : Type} [DecidableEq Hash] {hash : List UInt8 → Hash}
    {owner : ℕ} {limits : WorkLimits} {h : List (WorkEvent Hash)} {s : NetworkWorkOwner Hash}
    (htrace : Trace (Step hash) (new owner limits) h s) (lane : WorkLane) :
  (∀ past window future, h = past ++ window ++ future →
    window.countP (·.ret.startsWork) = 7 →
    (∀ e ∈ window, e.ret.startsWork → Waiting lane e) →
    share lane ≤ window.countP fun e => (e.ret.startedIn lane).isSome) ∧
  (startedIn lane h).Sublist (admittedIn lane h)
  := by
  constructor
  · rintro past window future rfl hcount hwaiting
    obtain ⟨_, htrace, -⟩ := htrace.split
    obtain ⟨t, hpast, hwindow⟩ := htrace.split
    exact share_le_of_window (trace_consistent hpast) hwindow hcount hwaiting
  · have horder : InOrder lane h s := by
      apply (htrace.history_invariant (P := fun h s => s.Consistent [] ∧ InOrder lane h s)
        ⟨consistent_new owner limits, ?_⟩ ?_).2
      · constructor <;> simp [admittedIn, startedIn, new]
      · rintro h s call reply s' - ⟨hs, horder⟩ hstep
        exact ⟨hstep.consistent hs, horder.snoc hs hstep⟩
    apply List.sublist_of_subperm_of_pairwise _ horder.started horder.admitted
    exact List.subperm_of_subset horder.started.nodup fun id hid => horder.known id (.inl hid)

/-! ### Overdue work -/

namespace FairSample

def work (lane : WorkLane) (byteLimit : ℕ) (deadline : Instant) : Call :=
  .admitWork { sampleKey with lane, byteLimit, deadline } [] (deadline - 1)

/-- Background work waits. Before each start interactive work is admitted, and it is overdue when
the start comes. -/
def overdue : List Call :=
  .registerScope :: (List.range 7).map (work .background · 1000) ++
    (List.range 7).flatMap fun n => [work .interactive n (n + 1), .startNext (n + 1)]

def perform (s : NetworkWorkOwner (List UInt8)) (call : Call) :
    Option (Reply × NetworkWorkOwner (List UInt8)) :=
  (step (fun metadata => metadata) s call).toOption.map Prod.swap

def overdueRun := Trace.replay perform (new 0 {}) overdue

theorem trace_overdueRun :
  Trace (Step fun metadata => metadata) (new 0 {}) overdueRun.1 overdueRun.2
  := by
  apply Trace.of_replay
  intro call _ s reply s' hperform
  obtain ⟨⟨_, _⟩, hstep, ⟨⟩⟩ := Option.map_eq_some_iff.mp hperform
  exact Result.toOption_eq_some.mp hstep

end FairSample

open FairSample in
/-- The background work is started in order. -/
theorem starts_fair_in_order_background :
  (startedIn .background overdueRun.1).length = 7 ∧
    (startedIn .background overdueRun.1).Sublist (admittedIn .background overdueRun.1)
  := ⟨by decide +kernel, (starts_fair_in_order trace_overdueRun .background).2⟩

/-- The interactive lane has queued work at each of seven starts, and none of it is started. -/
theorem exists_lane_without_share :
  ∃ (h : List (WorkEvent (List UInt8))) (s : NetworkWorkOwner (List UInt8)),
    Trace (Step fun metadata => metadata) (new 0 {}) h s ∧
    h.countP (·.ret.startsWork) = 7 ∧
    (∀ e ∈ h, e.ret.startsWork → 0 < (e.before.queues WorkLane.interactive.index).size) ∧
    startedIn .interactive h = []
  := ⟨_, _, FairSample.trace_overdueRun, by decide +kernel, by decide +kernel, by decide +kernel⟩

end Kukuri.WorkAdmission.NetworkWorkOwner
