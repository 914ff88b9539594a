import Kukuri.IrohNode.TransferApproval

/-!
# A transfer that is cancelled

A call that replaces the session of a transfer ends it and decides against it. The task of a
connection stops when it finds its session ended, but it may go on until it waits again. The main
result, `cancelled_writes_no_key`, says that it does not write the key after the call has returned,
if the call returns before the task has read that the user accepts. Otherwise it may, which
`exists_key_after_cancel` shows.
-/

namespace Kukuri

open Option Trace

/-- A call that has replaced the session has returned. -/
def SourceDevice.Replaced (device : SourceDevice) (id : ℕ) : Prop :=
  ∃ call, device.calls call = some (.returned (some id))

/-- The call replaces the session, or has done so. -/
def ReplaceStage.Replaces (previous : ℕ) : ReplaceStage → Prop
  | fail previous' | decide previous' => previous' = previous
  | returned previous' => previous' = some previous
  | swap _ => False

/-- The key is written on the connection, or its writing fails. -/
def WritesKey (e : SourceEvent) (t id : ℕ) : Prop :=
  ∃ remote closedForStorage input, e.op = .task t (.bundle closedForStorage input) ∧
    e.before.tasks t = some ⟨remote, id, .sending .key⟩

/-- A call returns only while no connection of the session that it replaces has read that the user
accepts and has still to write the key. -/
def ReturnsUnarmed (e : SourceEvent) : Prop :=
  ∀ call previous, e.op = .replace call → e.before.calls call = some (.decide previous) →
    ∀ t task, e.before.tasks t = some task → task.session = previous → ¬ task.stage.Armed

/-! ### Sessions that have been replaced -/

/-- The slot holds a session, which is not one that has been replaced. -/
structure SourceDevice.SlotSound (device : SourceDevice) : Prop where
  slot : ∀ id, device.slot = some id → ∃ session, device.sessions id = some session
  replaced : ∀ call stage previous, device.calls call = some stage → stage.Replaces previous →
    device.slot ≠ some previous ∧ ∃ session, device.sessions previous = some session

section

variable {blake3 : Blake3} {json : FrameJson} {before after : SourceDevice} {op : SourceOp}

/-- What a step does to the slot. -/
theorem DeviceMove.slot_cases (h : DeviceMove blake3 before op after) :
  after.slot = before.slot ∨ after.slot = none ∨
    ∃ call, after.slot = some call ∧ ReplaceStage.Unborn (before.calls call) ∧
      ∃ session, after.sessions call = some session
  := by
  cases h with
  | permits | begins | stops | fails | rejects | checks | decides | other | accepts | task =>
    exact .inl rfl
  | swapsOut => exact .inr (.inl rfl)
  | swapsIn hcall =>
    refine .inr (.inr ⟨_, rfl, ?_, _, Function.update_self ..⟩)
    rw [hcall]
    trivial

/-- A call that replaces a session has replaced it before, or has taken the slot from it. -/
theorem DeviceMove.replaces_cases {call previous : ℕ} {stage : ReplaceStage}
    (h : DeviceMove blake3 before op after) (hcall : after.calls call = some stage)
    (hreplaces : stage.Replaces previous) :
  (∃ stage', before.calls call = some stage' ∧ stage'.Replaces previous) ∨
    before.slot = some previous ∧ (after.slot = none ∨ after.slot = some call ∧
      ReplaceStage.Unborn (before.calls call))
  := by
  have hafter : ∀ {slot : Option ℕ}, (ReplaceStage.after slot).Replaces previous →
      slot = some previous := by
    intro slot hslot
    cases slot with
    | none => cases hslot
    | some previous' => exact congrArg some hslot
  cases h with
  | permits | checks | decides | other | accepts | task => exact .inl ⟨stage, hcall, hreplaces⟩
  | begins | stops =>
    rcases update_cases hcall with ⟨-, rfl⟩ | ⟨-, hkept⟩
    · cases hreplaces
    · exact .inl ⟨stage, hkept, hreplaces⟩
  | swapsIn hswap =>
    rcases update_cases hcall with ⟨rfl, rfl⟩ | ⟨-, hkept⟩
    · refine .inr ⟨hafter hreplaces, .inr ⟨rfl, ?_⟩⟩
      rw [hswap]
      trivial
    · exact .inl ⟨stage, hkept, hreplaces⟩
  | swapsOut =>
    rcases update_cases hcall with ⟨-, rfl⟩ | ⟨-, hkept⟩
    · exact .inr ⟨hafter hreplaces, .inl rfl⟩
    · exact .inl ⟨stage, hkept, hreplaces⟩
  | fails hfail =>
    rcases update_cases hcall with ⟨rfl, rfl⟩ | ⟨-, hkept⟩
    · exact .inl ⟨_, hfail, hreplaces⟩
    · exact .inl ⟨stage, hkept, hreplaces⟩
  | rejects hdecide =>
    rcases update_cases hcall with ⟨rfl, rfl⟩ | ⟨-, hkept⟩
    · exact .inl ⟨_, hdecide, some.inj hreplaces⟩
    · exact .inl ⟨stage, hkept, hreplaces⟩

theorem SourceDevice.SlotSound.step (hslot : before.SlotSound) (hsound : before.Sound)
    (h : DeviceMove blake3 before op after) :
  after.SlotSound
  := by
  have hkept : ∀ {id : ℕ}, (∃ session, before.sessions id = some session) →
      ∃ session, after.sessions id = some session := by
    rintro id ⟨session, hsession⟩
    obtain ⟨session', hsession', -⟩ := h.keeps hsound hsession
    exact ⟨session', hsession'⟩
  -- A session that is put into the slot is a new one.
  have hnew : ∀ {call previous : ℕ}, ReplaceStage.Unborn (before.calls call) →
      (∃ session, before.sessions previous = some session) → call ≠ previous := by
    rintro call previous hunborn ⟨session, hsession⟩ rfl
    rw [hsound.unborn call hunborn] at hsession
    cases hsession
  constructor
  · intro id hid
    rcases h.slot_cases with hsame | hnone | ⟨call, hcall, -, hsession⟩
    · exact hkept (hslot.slot id (hsame.symm.trans hid))
    · rw [hnone] at hid
      cases hid
    · cases hcall.symm.trans hid
      exact hsession
  · intro call stage previous hcall hreplaces
    rcases h.replaces_cases hcall hreplaces with
      ⟨stage', hcall', hreplaces'⟩ | ⟨hprevious, hafter⟩
    · obtain ⟨hne, hsession⟩ := hslot.replaced call stage' previous hcall' hreplaces'
      refine ⟨?_, hkept hsession⟩
      rcases h.slot_cases with hsame | hnone | ⟨call', hcall', hunborn, -⟩
      · rw [hsame]
        exact hne
      · rw [hnone]
        nofun
      · rw [hcall']
        exact fun heq => hnew hunborn hsession (some.inj heq)
    · have hsession := hslot.slot previous hprevious
      refine ⟨?_, hkept hsession⟩
      rcases hafter with hnone | ⟨hcall', hunborn⟩
      · rw [hnone]
        nofun
      · rw [hcall']
        exact fun heq => hnew hunborn hsession (some.inj heq)

variable {device : SourceDevice}

theorem slotSound_of_trace {h : List SourceEvent}
    (htrace : Trace (SourceStep blake3 json) .start h device) :
  device.SlotSound
  := by
  have hboth : device.Sound ∧ device.SlotSound := by
    apply htrace.invariant (P := fun device => device.Sound ∧ device.SlotSound)
    · refine ⟨sound_start, ?_, ?_⟩
      · intro id hid
        cases hid
      · intro call stage previous hcall
        cases hcall
    · intro before op ret after hboth hstep
      have hmove := deviceMove_of_step hstep
      exact ⟨hboth.1.step hmove, hboth.2.step hboth.1 hmove⟩
  exact hboth.2

/-! ### After the call has returned -/

/-- A session that has been replaced is decided against, and no connection of it has yet to write
the key. -/
structure SourceDevice.Stopped (device : SourceDevice) (id : ℕ) : Prop where
  decision : ∃ session, device.sessions id = some session ∧ session.decision = some false
  unarmed : ∀ t task, device.tasks t = some task → task.session = id → ¬ task.stage.Armed

theorem DeviceMove.decision_kept {id : ℕ} {session : TransferSession}
    (h : DeviceMove blake3 before op after) (hsound : before.Sound)
    (hslot : before.slot ≠ some id) (hsession : before.sessions id = some session)
    (hdecision : session.decision = some false) :
  ∃ session', after.sessions id = some session' ∧ session'.decision = some false
  := by
  obtain ⟨session', hsession', -⟩ := h.keeps hsound hsession
  refine ⟨session', hsession', ?_⟩
  have hsame : ∀ {session₀ : TransferSession}, before.sessions id = some session₀ →
      session₀.decision = some false := by
    intro session₀ hsession₀
    cases hsession.symm.trans hsession₀
    exact hdecision
  cases h.session_cases hsession' with
  | kept hbefore => exact hsame hbefore
  | created hcall =>
    have hunborn : ReplaceStage.Unborn (before.calls id) := by
      rw [hcall]
      trivial
    rw [hsound.unborn id hunborn] at hsession
    cases hsession
  | status hbefore | shows hbefore | consumed hbefore =>
    have hearlier := hsame hbefore
    exact hearlier
  | rejected => rfl
  | decided _ _ _ hid => exact absurd hid hslot
  | @other session₀ status consumed hbefore =>
    have hset : (session₀.set status).decision = session₀.decision := by
      rcases set_cases session₀ status with h | h <;> rw [h]
    exact hset.trans (hsame hbefore)

theorem SourceDevice.Stopped.step {id : ℕ} (hstopped : before.Stopped id) (hsound : before.Sound)
    (hslot : before.slot ≠ some id) (h : DeviceMove blake3 before op after) :
  after.Stopped id
  := by
  obtain ⟨session, hsession, hdecision⟩ := hstopped.decision
  refine ⟨h.decision_kept hsound hslot hsession hdecision, ?_⟩
  intro t task htask hid harmed
  cases h.task_cases htask with
  | kept hbefore => exact hstopped.unarmed t _ hbefore hid harmed
  | created => cases harmed
  | @moved task₀ session₀ session' input stage hop hbefore hsession₀ hsession' hstep =>
    have hearlier : ¬ task₀.stage.Armed := hstopped.unarmed t _ hbefore hid
    cases hstep with
    | consumed => cases harmed
    | decided hstage hread =>
      -- The decision that is read is the one against the session.
      change task₀.session = id at hid
      rw [hid] at hsession₀
      cases hsession.symm.trans hsession₀
      cases hread.symm.trans hdecision
      cases harmed
    | @answered approval hstage =>
      apply hearlier
      rw [hstage]
      cases approval <;> exact harmed
    | shows _ _ hfollows | follows hfollows | sets _ hfollows =>
      exact hearlier (hfollows.armed harmed)

/-- A call returns after it has decided against the session. -/
theorem DeviceMove.replaced_cases {id : ℕ} (h : DeviceMove blake3 before op after)
    (hreplaced : after.Replaced id) :
  before.Replaced id ∨ ∃ call session, op = .replace call ∧
    before.calls call = some (.decide id) ∧ after.sessions id = some session ∧
    session.decision = some false ∧ after.tasks = before.tasks
  := by
  obtain ⟨call, hcall⟩ := hreplaced
  have hafter : ∀ {slot : Option ℕ}, ReplaceStage.returned (some id) ≠ .after slot := by
    intro slot
    cases slot <;> nofun
  cases h with
  | permits | checks | decides | other | accepts | task => exact .inl ⟨call, hcall⟩
  | begins | stops | fails =>
    rcases update_cases hcall with ⟨-, hstage⟩ | ⟨-, hkept⟩
    · cases hstage
    · exact .inl ⟨call, hkept⟩
  | swapsIn | swapsOut =>
    rcases update_cases hcall with ⟨-, hstage⟩ | ⟨-, hkept⟩
    · exact absurd hstage hafter
    · exact .inl ⟨call, hkept⟩
  | rejects hdecide =>
    rcases update_cases hcall with ⟨rfl, hstage⟩ | ⟨-, hkept⟩
    · cases hstage
      exact .inr ⟨call, _, rfl, hdecide, Function.update_self .., rfl, rfl⟩
    · exact .inl ⟨call, hkept⟩

theorem stopped_of_trace {h : List SourceEvent} {id : ℕ}
    (htrace : Trace (SourceStep blake3 json) .start h device)
    (hreturns : ∀ e ∈ h, ReturnsUnarmed e) (hreplaced : device.Replaced id) :
  device.Stopped id
  := by
  have hall : device.Sound ∧ device.SlotSound ∧ (device.Replaced id → device.Stopped id) := by
    apply htrace.invariant_of_forall (C := ReturnsUnarmed) hreturns
      (P := fun device =>
        device.Sound ∧ device.SlotSound ∧ (device.Replaced id → device.Stopped id))
    · have hstart : Trace (SourceStep blake3 json) .start [] .start := .nil
      refine ⟨sound_start, slotSound_of_trace hstart, ?_⟩
      rintro ⟨call, hcall⟩
      cases hcall
    · rintro before op ret after ⟨hsound, hslot, hstopped⟩ hstep hreturn
      have hmove := deviceMove_of_step hstep
      refine ⟨hsound.step hmove, hslot.step hsound hmove, fun hafter => ?_⟩
      rcases hmove.replaced_cases hafter with
        hbefore | ⟨call, session, hop, hcall, hsession, hdecision, htasks⟩
      · obtain ⟨call, hcall⟩ := hbefore
        exact (hstopped ⟨call, hcall⟩).step hsound (hslot.replaced call _ id hcall rfl).1 hmove
      · refine ⟨⟨session, hsession, hdecision⟩, fun t task htask hid => ?_⟩
        rw [htasks] at htask
        exact hreturn call id hop hcall t task htask hid
  exact hall.2.2 hreplaced

end

/-- After a call that has replaced the session has returned, no connection of the session writes the
key, if calls return only while no connection has read that the user accepts and has still to write
the key. -/
theorem cancelled_writes_no_key {blake3 : Blake3} {json : FrameJson}
    {past future : List SourceEvent} {e : SourceEvent} {device : SourceDevice} {t id : ℕ}
    (htrace : Trace (SourceStep blake3 json) .start (past ++ e :: future) device)
    (hreturns : ∀ a ∈ past ++ e :: future, ReturnsUnarmed a) (hreplaced : e.before.Replaced id) :
  ¬ WritesKey e t id
  := by
  rintro ⟨remote, closedForStorage, input, -, htask⟩
  obtain ⟨hpast, -, -⟩ := htrace.split_event
  have hstopped := stopped_of_trace hpast
    (fun a ha => hreturns a (List.mem_append_left _ ha)) hreplaced
  exact hstopped.unarmed t _ htask rfl trivial

namespace SourceSample

/-- The transfer is cancelled. -/
def cancelled : List SourceOp :=
  [.cancel 1, .replace 1, .replace 1, .replace 1]

/-- An invite is issued and a device connects. -/
def connected : List SourceOp :=
  [.issue 0 issuer none [] [] 0 "", .replace 0, .accept 0 []]

/-- Connections that have not been polled wait to read. -/
theorem hello_of_trace {h : List SourceEvent}
    (htrace : Trace (SourceStep blake3 BundleSample.json) .start h device)
    (hops : ∀ e ∈ h, ∀ t input, e.op ≠ .task t input) :
  ∀ t task, device.tasks t = some task → task.stage = .hello
  := by
  apply htrace.invariant_of_forall (C := fun e => ∀ t input, e.op ≠ .task t input) hops
    (P := fun device => ∀ t task, device.tasks t = some task → task.stage = .hello)
  · intro t task htask
    cases htask
  · intro before op ret after hbefore hstep hop t task htask
    cases (deviceMove_of_step hstep).task_cases htask with
    | kept hkept => exact hbefore t task hkept
    | created => rfl
    | moved hpolled => exact absurd hpolled (hop t _)

theorem not_task_of_mem {e : SourceEvent}
    (he : e ∈ (Trace.replay run .start (connected ++ cancelled)).1) (t : ℕ) (input : SourceInput) :
  e.op ≠ .task t input
  := by
  have hmem := op_mem_of_mem_replay he
  intro hop
  rw [hop] at hmem
  simp [connected, cancelled] at hmem

end SourceSample

open SourceSample in
theorem cancelled_writes_no_key_sample :
  ∃ past e future device,
    Trace (SourceStep blake3 BundleSample.json) .start (past ++ e :: future) device ∧
    e.before.Replaced 0 ∧ e.op = .task 0 (.hello (some [])) ∧ ¬ WritesKey e 0 0
  := by
  have hsome : (run (replay run .start (connected ++ cancelled)).2
      (.task 0 (.hello (some [])))).isSome := by decide +kernel
  have hcall : (replay run .start (connected ++ cancelled)).2.calls 1 =
      some (.returned (some 0)) := by decide +kernel
  obtain ⟨⟨_, after⟩, hrun⟩ := isSome_iff_exists.mp hsome
  have hreplaced : (replay run .start (connected ++ cancelled)).2.Replaced 0 := ⟨1, hcall⟩
  have htrace := trace_of_run hrun
  refine ⟨_, _, _, _, htrace, hreplaced, rfl, cancelled_writes_no_key htrace ?_ hreplaced⟩
  intro a ha call previous hop hdecide t task htask hid
  rcases List.mem_append.mp ha with hpast | hlast
  · -- No connection has been polled before the call returns.
    obtain ⟨past, future, hsplit⟩ := List.append_of_mem hpast
    have hstage : task.stage = .hello := by
      have hrun : Trace (SourceStep blake3 BundleSample.json) .start past a.before := by
        rw [hsplit, List.append_assoc] at htrace
        exact htrace.split_event.1
      apply hello_of_trace hrun _ t task htask
      intro e he
      apply not_task_of_mem
      rw [hsplit]
      exact List.mem_append_left _ he
    rw [hstage]
    nofun
  · cases List.mem_singleton.mp hlast
    cases hop

open SourceSample in
/-- The user accepts, both devices exchange their answers, and the transfer is cancelled. The call
has returned when the connection reads that it is accepted and writes the key. -/
theorem exists_key_after_cancel :
  ∃ past e device,
    Trace (SourceStep blake3 BundleSample.json) .start (past ++ [e]) device ∧
    e.before.Replaced 0 ∧ WritesKey e 0 0 ∧
    ∀ a ∈ past, ¬ WritesKey a 0 0
  := by
  have hsome : (run (replay run .start (approved ++ cancelled ++ bundleOpened)).2
      (.task 0 (.bundle false .done))).isSome := by decide +kernel
  have hcall : (replay run .start (approved ++ cancelled ++ bundleOpened)).2.calls 1 =
      some (.returned (some 0)) := by decide +kernel
  have htask : (replay run .start (approved ++ cancelled ++ bundleOpened)).2.tasks 0 =
      some ⟨[], 0, .sending .key⟩ := by decide +kernel
  have hearlier : ∀ a ∈ (replay run .start (approved ++ cancelled ++ bundleOpened)).1,
      (a.before.tasks 0).all (·.stage ≠ .sending .key) = true := by decide +kernel
  obtain ⟨⟨_, after⟩, hrun⟩ := isSome_iff_exists.mp hsome
  refine ⟨_, _, after, trace_of_run hrun, ⟨1, hcall⟩, ⟨[], false, .done, rfl, htask⟩, ?_⟩
  rintro a ha ⟨remote, closedForStorage, input, -, hsending⟩
  have hstage := hearlier a ha
  rw [hsending] at hstage
  simp at hstage

end Kukuri
