import Kukuri.IrohNode.TransferSource

/-!
# Frames are written only after mutual approval

The main result, `bundle_only_after_approval`, says what has happened in every run before a frame of
a bundle is written on a connection: the other device has proved to have the invite in time, no
other connection has been accepted for it, the first decision of the user was to accept while the
code of that device was shown, and that device has accepted.
-/

namespace Kukuri

open List Option Function Trace SourceDevice

/-! ### What a step of a task does -/

/-- The key has not been written. -/
def BundleSender.BeforeKey : BundleSender → Prop
  | opening | key => True
  | _ => False

namespace SourceStage

/-- The session has accepted the connection. -/
def Accepted : SourceStage → Prop
  | accept | confirm | confirming _ _ | confirmed | sending _ | progress _ | history
  | completing _ => True
  | _ => False

/-- The task has read that the user accepts. -/
def Approved : SourceStage → Prop
  | confirming (.decided accepted) _ | confirming (.writing accepted) _
  | confirming (.delivering accepted) _ => accepted = true
  | confirming .done _ | confirmed | sending _ | progress _ | history | completing _ => True
  | _ => False

/-- The other device has accepted. -/
def Answered : SourceStage → Prop
  | confirming _ remote => remote = true
  | confirmed | sending _ | progress _ | history | completing _ => True
  | _ => False

/-- The task has read that the user accepts, and has not written the key. -/
def Armed : SourceStage → Prop
  | confirming (.decided accepted) _ | confirming (.writing accepted) _
  | confirming (.delivering accepted) _ => accepted = true
  | confirming .done _ | confirmed => True
  | sending sender | progress sender => sender.BeforeKey
  | _ => False

/-- Nothing is accepted or approved that was not before. -/
structure Follows (before after : SourceStage) : Prop where
  accepted : after.Accepted → before.Accepted
  approved : after.Approved → before.Approved
  answered : after.Answered → before.Answered
  armed : after.Armed → before.Armed

theorem Follows.failing (before : SourceStage) (reason : AccountTransferFailure) :
  Follows before (failing reason)
  := ⟨nofun, nofun, nofun, nofun⟩

theorem Follows.finished (before : SourceStage) :
  Follows before finished
  := ⟨nofun, nofun, nofun, nofun⟩

end SourceStage

/-- The status does not show a code. -/
def AccountTransferStatus.ShowsCode (code : String) : AccountTransferStatus → Prop
  | confirming _ code' _ => code' = code
  | _ => False

/-- What a step of a task does. -/
inductive SourceMove (blake3 : Blake3) (target : Bytes) (session : TransferSession)
    (stage : SourceStage) : SourceInput → SourceStage → TransferSession → Prop
  | consumed {proof : Bytes} {invite : AccountTransferInvite} {nowMs : ℤ}
      (hstage : stage = .consume proof) (hpairing : session.pairing = some invite)
      (hunused : session.consumed = false) (hclock : nowMs < invite.expiresAtMs)
      (hproof : invite.verifyHello blake3 target proof) :
      SourceMove blake3 target session stage (.clock nowMs) .accept
        { session with consumed := true }
  | decided {accepted remote : Bool} (hstage : stage = .confirming .waiting remote)
      (hdecision : session.decision = some accepted) :
      SourceMove blake3 target session stage .step (.confirming (.decided accepted) remote) session
  | answered {approval : ApprovalStage} (hstage : stage = .confirming approval false) :
      SourceMove blake3 target session stage (.answer (some [acceptedByte]))
        (.confirming approval true) session
  | shows {invite : AccountTransferInvite} {after : SourceStage} {localAccepted : Bool}
      (hpairing : session.pairing = some invite) (haccepted : stage.Accepted)
      (hfollows : stage.Follows after) :
      SourceMove blake3 target session stage .step after (session.set
        (.confirming session.role (invite.verificationCode blake3 target) localAccepted))
  | follows {input : SourceInput} {after : SourceStage} (hfollows : stage.Follows after) :
      SourceMove blake3 target session stage input after session
  | sets {input : SourceInput} {after : SourceStage} {status : AccountTransferStatus}
      (hstatus : ∀ code, ¬ status.ShowsCode code) (hfollows : stage.Follows after) :
      SourceMove blake3 target session stage input after (session.set status)

section

variable {blake3 : Blake3} {json : FrameJson} {target : Bytes}
  {session session' : TransferSession} {stage stage' : SourceStage} {input : SourceInput}

theorem sourceMove_of_consume {proof : Bytes} {nowMs : ℤ} :
  SourceMove blake3 target session (.consume proof) (.clock nowMs)
    (if (session.consume blake3 target proof nowMs).1 then .accept else .reject)
    (session.consume blake3 target proof nowMs).2
  := by
  unfold TransferSession.consume
  split
  case h_1 => exact .follows ⟨nofun, nofun, nofun, nofun⟩
  case h_2 invite hpairing =>
    dsimp only
    split
    case isTrue hvalid =>
      rw [hvalid, Bool.or_true]
      simp only [Bool.and_eq_true, Bool.not_eq_true', decide_eq_true_eq] at hvalid
      exact .consumed rfl hpairing hvalid.1.1.1 hvalid.1.2 hvalid.2
    case isFalse hvalid =>
      rw [Bool.not_eq_true] at hvalid
      rw [hvalid, Bool.or_false]
      exact .follows ⟨nofun, nofun, nofun, nofun⟩

theorem follows_afterSending (before after : BundleSender)
    (harmed : after.BeforeKey → before.BeforeKey) :
  SourceStage.Follows (.sending before) (SourceStage.afterSending before after)
  := by
  unfold SourceStage.afterSending
  split
  case h_1 => exact ⟨fun _ => trivial, fun _ => trivial, fun _ => trivial, nofun⟩
  case h_2 => exact .failing _ _
  case h_3 =>
    split
    case isTrue | isFalse => exact ⟨fun _ => trivial, fun _ => trivial, fun _ => trivial, harmed⟩

/-- The key is written once. -/
theorem beforeKey_of_step {role : AccountTransferRole} {secretHex : String} {closed : Bool}
    {before after : BundleSender} {bytes : Bytes} {input : SenderInput}
    (h : before.step json role secretHex closed input = some (bytes, after))
    (hafter : after.BeforeKey) :
  before.BeforeKey
  := by
  cases senderEffect_of_step h with
  | opened hbefore => rw [hbefore]; trivial
  | write hwriting =>
    cases before with
    | key => trivial
    | frames frames next count =>
      cases frames with
      | nil => cases hwriting
      | cons => cases hwriting; cases hafter
    | ending => cases hwriting; cases hafter
    | opening | page | ack | returned => cases hwriting
  | read | more | last | acknowledged | failed | cut => cases hafter

theorem sourceMove_of_step
    (h : stage.step blake3 json target session input = some (stage', session')) :
  SourceMove blake3 target session stage input stage' session'
  := by
  unfold SourceStage.step at h
  split at h <;> try cases h
  case h_2 reason | h_24 => exact .sets nofun (.finished _)
  case h_4 =>
    split at h <;> cases h
    exact .follows (.failing _ _)
  case h_5 | h_8 => exact .follows (.finished _)
  case h_6 proof => exact .follows ⟨nofun, nofun, nofun, nofun⟩
  case h_7 proof nowMs => exact sourceMove_of_consume
  case h_9 ok =>
    cases ok with
    | true => exact .follows ⟨fun _ => trivial, nofun, nofun, nofun⟩
    | false => exact .follows (.failing _ _)
  case h_10 =>
    split at h <;> cases h
    case h_1 => exact .follows (.failing _ _)
    case h_2 invite hpairing =>
      exact .shows hpairing trivial ⟨fun _ => trivial, nofun, nofun, nofun⟩
  case h_11 remote =>
    obtain ⟨accepted, hdecision, hboth⟩ := map_eq_some_iff.mp h
    cases hboth
    exact .decided rfl hdecision
  case h_12 remote =>
    split at h <;> cases h
    case h_2 invite hpairing => exact .shows hpairing trivial ⟨id, id, id, id⟩
  case h_13 remote => exact .follows ⟨id, id, id, id⟩
  case h_14 accepted remote ok =>
    cases ok with
    | true => exact .follows ⟨id, id, id, id⟩
    | false => exact .follows (.failing _ _)
  case h_15 accepted remote ok =>
    cases accepted with
    | false => exact .follows (.failing _ _)
    | true =>
      cases ok with
      | true => exact .follows ⟨fun _ => trivial, fun _ => rfl, fun h => h, fun _ => rfl⟩
      | false => exact .follows (.failing _ _)
  case h_16 => exact .follows ⟨fun _ => trivial, fun _ => trivial, fun _ => rfl, fun _ => trivial⟩
  case h_17 approval bytes =>
    cases bytes with
    | none => exact .follows (.failing _ _)
    | some bytes =>
      dsimp only
      split
      case isTrue haccepted =>
        rw [haccepted]
        exact .answered rfl
      case isFalse => exact .follows (.failing _ _)
  case h_18 => exact .follows (.failing _ _)
  case h_19 =>
    refine .sets nofun ?_
    split
    · exact .failing _ _
    · exact ⟨fun _ => trivial, fun _ => trivial, fun _ => trivial, fun _ => trivial⟩
  case h_20 sender closedForStorage input =>
    obtain ⟨⟨bytes, after⟩, hstep, hboth⟩ := map_eq_some_iff.mp h
    cases hboth
    exact .follows (follows_afterSending _ _ (beforeKey_of_step hstep))
  case h_21 sender =>
    exact .sets nofun ⟨fun _ => trivial, fun _ => trivial, fun _ => trivial, fun h => h⟩
  case h_22 => exact .sets nofun ⟨fun _ => trivial, fun _ => trivial, fun _ => trivial, nofun⟩
  case h_23 => exact .follows ⟨fun _ => trivial, fun _ => trivial, fun _ => trivial, nofun⟩

end

/-! ### What a step of the device does -/

/-- A session that nothing has happened to. -/
structure TransferSession.Fresh (session : TransferSession) : Prop where
  consumed : session.consumed = false
  decision : session.decision = none
  status : ∀ code, ¬ session.status.ShowsCode code
  pairing : session.role = .source → ∃ invite, session.pairing = some invite

/-- What a step does to the device. -/
inductive DeviceMove (blake3 : Blake3) (before : SourceDevice) : SourceOp → SourceDevice → Prop
  | permits {op : SourceOp} {permits syncing : ℕ} :
      DeviceMove blake3 before op { before with permits := permits, syncing := syncing }
  | begins {op : SourceOp} {call : ℕ} {session : Option TransferSession}
      (hcall : before.calls call = none) (hfresh : ∀ s ∈ session, s.Fresh) :
      DeviceMove blake3 before op (before.putCall call (.swap session))
  | stops {op : SourceOp} {call id : ℕ} {session : TransferSession}
      {status : AccountTransferStatus} (hcall : before.calls call = none)
      (hsession : before.sessions id = some session) (hstatus : ∀ code, ¬ status.ShowsCode code) :
      DeviceMove blake3 before op
        ((before.putSession id { session with status := status }).putCall call (.returned none))
  | swapsIn {op : SourceOp} {call : ℕ} {session : TransferSession}
      (hcall : before.calls call = some (.swap (some session)))
      (hdeciding : before.deciding = none) :
      DeviceMove blake3 before op
        { (before.putCall call (.after before.slot)).putSession call session with
          slot := some call }
  | swapsOut {op : SourceOp} {call : ℕ} (hcall : before.calls call = some (.swap none))
      (hdeciding : before.deciding = none) :
      DeviceMove blake3 before op { before.putCall call (.after before.slot) with slot := none }
  | fails {op : SourceOp} {call previous : ℕ} {session : TransferSession}
      (hcall : before.calls call = some (.fail previous))
      (hsession : before.sessions previous = some session) :
      DeviceMove blake3 before op
        ((before.putSession previous (session.fail .cancelled)).putCall call (.decide previous))
  | rejects {call previous : ℕ} {session : TransferSession}
      (hcall : before.calls call = some (.decide previous))
      (hsession : before.sessions previous = some session) :
      DeviceMove blake3 before (.replace call)
        ((before.putSession previous { session with decision := some false }).putCall call
          (.returned (some previous)))
  | checks {accept : Bool} {id : ℕ} {session : TransferSession} {code : String}
      (hdeciding : before.deciding = none) (hslot : before.slot = some id)
      (hsession : before.sessions id = some session) (hcode : session.status.ShowsCode code) :
      DeviceMove blake3 before (.decide accept) { before with deciding := some accept }
  | decides {accept : Bool} {id : ℕ} {session : TransferSession}
      (hdeciding : before.deciding = some accept) (hslot : before.slot = some id)
      (hsession : before.sessions id = some session) :
      DeviceMove blake3 before .decided { before.putSession id
        { session with decision := session.decision <|> some accept } with deciding := none }
  | other {op : SourceOp} {id : ℕ} {session : TransferSession} {status : AccountTransferStatus}
      {consumed : Bool} (hsession : before.sessions id = some session)
      (hrole : session.role ≠ .source) :
      DeviceMove blake3 before op
        (before.putSession id { session.set status with consumed := consumed })
  | accepts {op : SourceOp} {t id permits : ℕ} {remote : Bytes} {session : TransferSession}
      (htask : before.tasks t = none) (hsession : before.sessions id = some session)
      (hrole : session.role = .source) :
      DeviceMove blake3 before op
        { before.putTask t ⟨remote, id, .hello⟩ with permits := permits }
  | task {t permits : ℕ} {task : SourceTask} {session session' : TransferSession}
      {input : SourceInput} {stage : SourceStage} (htask : before.tasks t = some task)
      (hsession : before.sessions task.session = some session)
      (hmove : SourceMove blake3 task.remote session task.stage input stage session') :
      DeviceMove blake3 before (.task t input)
        { (before.putSession task.session session').putTask t { task with stage := stage } with
          permits := permits }

section

variable {blake3 : Blake3} {json : FrameJson} {before after : SourceDevice} {op : SourceOp}
  {ret : Unit} {e : SourceEvent} {h : List SourceEvent} {device : SourceDevice}
  {session : TransferSession} {task : SourceTask} {id t : ℕ} {remote : Bytes}
  {invite : AccountTransferInvite} {pairing : Option AccountTransferInvite}

theorem slotSession_eq_some :
  device.slotSession = some (id, session) ↔
    device.slot = some id ∧ device.sessions id = some session
  := by
  unfold slotSession
  simp only [bind_eq_some_iff, map_eq_some_iff, Prod.mk.injEq]
  constructor
  · rintro ⟨id', hslot, session', hsession, rfl, rfl⟩
    exact ⟨hslot, hsession⟩
  · rintro ⟨hslot, hsession⟩
    exact ⟨id, hslot, session, hsession, rfl, rfl⟩

theorem deviceMove_of_beginCall {call : ℕ} {session : Option TransferSession}
    (hfresh : ∀ s ∈ session, s.Fresh) (h : before.beginCall call session = some after) :
  DeviceMove blake3 before op after
  := by
  unfold beginCall at h
  split at h <;> cases h
  case isTrue hcall => exact .begins hcall hfresh

theorem deviceMove_of_cancel {call : ℕ} (h : before.cancel call = some after) :
  DeviceMove blake3 before op after
  := by
  unfold cancel at h
  split at h
  case isFalse => cases h
  case isTrue hcall =>
    split at h <;> cases h
    case h_2 => exact .begins hcall.1 (by simp)
    case h_1 id session hstop =>
      simp only [bind_eq_some_iff, map_eq_some_iff, Prod.mk.injEq] at hstop
      obtain ⟨⟨id, session⟩, hslot, session', hstop, rfl, rfl⟩ := hstop
      obtain ⟨-, hsession⟩ := slotSession_eq_some.mp hslot
      unfold TransferSession.stopHistory at hstop
      split at hstop <;> cases hstop
      exact .stops hcall.1 hsession nofun

theorem deviceMove_of_replace {call : ℕ} (h : before.replace call = some after) :
  DeviceMove blake3 before (.replace call) after
  := by
  unfold SourceDevice.replace at h
  split at h
  case h_1 session hcall =>
    split at h <;> cases h
    case isTrue hdeciding =>
      cases session with
      | none => exact .swapsOut hcall hdeciding
      | some session => exact .swapsIn hcall hdeciding
  case h_2 previous hcall =>
    obtain ⟨session, hsession, rfl⟩ := map_eq_some_iff.mp h
    exact .fails hcall hsession
  case h_3 previous hcall =>
    obtain ⟨session, hsession, rfl⟩ := map_eq_some_iff.mp h
    exact .rejects hcall hsession
  case h_4 => cases h

theorem deviceMove_of_decide {accept : Bool} (h : before.decide accept = some after) :
  DeviceMove blake3 before (.decide accept) after
  := by
  unfold SourceDevice.decide at h
  split at h
  case isFalse => cases h
  case isTrue hdeciding =>
    split at h
    case h_1 id session hslot =>
      obtain ⟨hslot, hsession⟩ := slotSession_eq_some.mp hslot
      split at h <;> cases h
      case h_1 role code localAccepted hstatus =>
        have hcode : session.status.ShowsCode code := by
          rw [hstatus]
          rfl
        exact .checks hdeciding hslot hsession hcode
      case h_2 => exact .permits
    case h_2 =>
      cases h
      exact .permits

theorem deviceMove_of_accept (h : before.accept t remote = some after) :
  DeviceMove blake3 before op after
  := by
  unfold accept at h
  split at h
  case isFalse => cases h
  case isTrue htask =>
    split at h
    case h_1 id session hslot =>
      obtain ⟨-, hsession⟩ := slotSession_eq_some.mp hslot
      split at h <;> cases h
      case isTrue hrole => exact .accepts htask.1 hsession hrole
      case isFalse => exact .permits
    case h_2 =>
      cases h
      exact .permits

theorem deviceMove_of_step (h : SourceStep blake3 json before op ret after) :
  DeviceMove blake3 before op after
  := by
  cases op with
  | issue call issuer relayUrl directAddrs secret nowMs secretHex =>
    simp only [SourceStep, perform] at h
    split at h
    case h_1 invite hinvite =>
      apply deviceMove_of_beginCall _ h
      rintro session ⟨⟩
      exact ⟨rfl, rfl, nofun, fun _ => ⟨invite, rfl⟩⟩
    case h_2 =>
      cases h
      exact .permits
  | openLink call invite | sync call nowMs secretHex =>
    apply deviceMove_of_beginCall _ h
    rintro session ⟨⟩
    exact ⟨rfl, rfl, nofun, nofun⟩
  | cancel call => exact deviceMove_of_cancel h
  | replace call => exact deviceMove_of_replace h
  | decide accept => exact deviceMove_of_decide h
  | decided =>
    simp only [SourceStep, perform, decided] at h
    split at h
    case h_1 accept id session hdeciding hslot =>
      obtain ⟨hslot, hsession⟩ := slotSession_eq_some.mp hslot
      cases h
      exact .decides hdeciding hslot hsession
    case h_2 => cases h
  | other id status consumed =>
    simp only [SourceStep, perform] at h
    split at h
    case h_1 session hsession =>
      split at h <;> cases h
      case isFalse hrole => exact .other hsession hrole
    case h_2 => cases h
  | accept t remote => exact deviceMove_of_accept h
  | acceptSync | syncEnded =>
    simp only [SourceStep, perform] at h
    split at h <;> cases h
    exact .permits
  | task t input =>
    simp only [SourceStep, perform, stepTask, bind_eq_bind, bind_eq_some_iff] at h
    obtain ⟨task, htask, session, hsession, ⟨stage, session'⟩, hstage, hafter⟩ := h
    cases hafter
    exact .task htask hsession (sourceMove_of_step hstage)

/-- What becomes of a session. -/
inductive SessionMove (blake3 : Blake3) (before : SourceDevice) (op : SourceOp) (id : ℕ) :
    TransferSession → Prop
  | kept {session : TransferSession} (hbefore : before.sessions id = some session) :
      SessionMove blake3 before op id session
  | created {session : TransferSession} (hcall : before.calls id = some (.swap (some session))) :
      SessionMove blake3 before op id session
  | status {session : TransferSession} {status : AccountTransferStatus}
      (hbefore : before.sessions id = some session) (hstatus : ∀ code, ¬ status.ShowsCode code) :
      SessionMove blake3 before op id { session with status := status }
  | shows {session : TransferSession} {t : ℕ} {task : SourceTask}
      {invite : AccountTransferInvite} {status : AccountTransferStatus}
      (hbefore : before.sessions id = some session) (htask : before.tasks t = some task)
      (hid : task.session = id) (haccepted : task.stage.Accepted)
      (hpairing : session.pairing = some invite) (hstatus : ∀ code, status.ShowsCode code →
        code = invite.verificationCode blake3 task.remote) :
      SessionMove blake3 before op id { session with status := status }
  | consumed {session : TransferSession} (hbefore : before.sessions id = some session) :
      SessionMove blake3 before op id { session with consumed := true }
  | rejected {session : TransferSession} (hbefore : before.sessions id = some session) :
      SessionMove blake3 before op id { session with decision := some false }
  | decided {session : TransferSession} {accept : Bool}
      (hbefore : before.sessions id = some session) (hop : op = .decided)
      (hdeciding : before.deciding = some accept) (hslot : before.slot = some id) :
      SessionMove blake3 before op id
        { session with decision := session.decision <|> some accept }
  | other {session : TransferSession} {status : AccountTransferStatus} {consumed : Bool}
      (hbefore : before.sessions id = some session) (hrole : session.role ≠ .source) :
      SessionMove blake3 before op id { session.set status with consumed := consumed }

theorem set_cases (session : TransferSession) (status : AccountTransferStatus) :
  session.set status = session ∨ session.set status = { session with status := status }
  := by
  unfold TransferSession.set
  split
  · exact .inl rfl
  · exact .inr rfl

theorem SessionMove.set {status : AccountTransferStatus}
    (hbefore : before.sessions id = some session) (hstatus : ∀ code, ¬ status.ShowsCode code) :
  SessionMove blake3 before op id (session.set status)
  := by
  rcases set_cases session status with h | h <;> rw [h]
  · exact .kept hbefore
  · exact .status hbefore hstatus

/-- The session that is put is the one looked up, or the lookup is as before. -/
theorem update_cases {T : Type} {f : ℕ → Option T} {i j : ℕ} {a b : T}
    (h : Function.update f i (some a) j = some b) :
  j = i ∧ b = a ∨ j ≠ i ∧ f j = some b
  := by
  rw [update_apply] at h
  split at h
  case isTrue hj => exact .inl ⟨hj, (some.inj h).symm⟩
  case isFalse hj => exact .inr ⟨hj, h⟩

theorem SessionMove.of_update {i : ℕ} {session session' : TransferSession}
    (hmove : SessionMove blake3 before op i session)
    (h : Function.update before.sessions i (some session) id = some session') :
  SessionMove blake3 before op id session'
  := by
  rcases update_cases h with ⟨rfl, rfl⟩ | ⟨-, hkept⟩
  · exact hmove
  · exact .kept hkept

theorem DeviceMove.session_cases {session' : TransferSession}
    (h : DeviceMove blake3 before op after) (hsession' : after.sessions id = some session') :
  SessionMove blake3 before op id session'
  := by
  cases h with
  | permits | begins | swapsOut | checks | accepts => exact .kept hsession'
  | stops _ hsession hstatus => exact .of_update (.status hsession hstatus) hsession'
  | swapsIn hcall => exact .of_update (.created hcall) hsession'
  | fails _ hsession =>
    refine .of_update ?_ hsession'
    exact .set hsession nofun
  | rejects _ hsession => exact .of_update (.rejected hsession) hsession'
  | decides hdeciding hslot hsession =>
    exact .of_update (.decided hsession rfl hdeciding hslot) hsession'
  | other hsession hrole => exact .of_update (.other hsession hrole) hsession'
  | task htask hsession hmove =>
    refine .of_update ?_ hsession'
    cases hmove with
    | consumed => exact .consumed hsession
    | decided | answered | follows => exact .kept hsession
    | sets hstatus => exact .set hsession hstatus
    | shows hpairing haccepted =>
      rcases set_cases _ _ with h | h <;> rw [h]
      · exact .kept hsession
      · exact .shows hsession htask rfl haccepted hpairing fun code hcode => hcode.symm

/-- What becomes of a task. -/
inductive TaskMove (blake3 : Blake3) (before after : SourceDevice) (op : SourceOp) (t : ℕ) :
    SourceTask → Prop
  | kept {task : SourceTask} (hbefore : before.tasks t = some task) :
      TaskMove blake3 before after op t task
  | created {session : TransferSession} {id : ℕ} {remote : Bytes}
      (hsession : before.sessions id = some session) (hrole : session.role = .source) :
      TaskMove blake3 before after op t ⟨remote, id, .hello⟩
  | moved {task : SourceTask} {session session' : TransferSession} {input : SourceInput}
      {stage : SourceStage} (hop : op = .task t input) (hbefore : before.tasks t = some task)
      (hsession : before.sessions task.session = some session)
      (hafter : after.sessions task.session = some session')
      (hmove : SourceMove blake3 task.remote session task.stage input stage session') :
      TaskMove blake3 before after op t { task with stage := stage }

theorem DeviceMove.task_cases {task' : SourceTask} (h : DeviceMove blake3 before op after)
    (htask' : after.tasks t = some task') :
  TaskMove blake3 before after op t task'
  := by
  cases h with
  | permits | begins | stops | swapsIn | swapsOut | fails | rejects | checks | decides | other =>
    exact .kept htask'
  | accepts htask hsession hrole =>
    rcases update_cases htask' with ⟨rfl, rfl⟩ | ⟨-, hkept⟩
    · exact .created hsession hrole
    · exact .kept hkept
  | task htask hsession hmove =>
    rcases update_cases htask' with ⟨rfl, rfl⟩ | ⟨-, hkept⟩
    · exact .moved rfl htask hsession (update_self ..) hmove
    · exact .kept hkept

/-! ### Sessions are kept -/

/-- The calls that are still to take the slot. -/
def ReplaceStage.Unborn : Option ReplaceStage → Prop
  | none | some (.swap _) => True
  | _ => False

/-- What always holds of the calls, the sessions and the tasks. -/
structure SourceDevice.Sound (device : SourceDevice) : Prop where
  swaps : ∀ c session, device.calls c = some (.swap (some session)) → session.Fresh
  unborn : ∀ c, ReplaceStage.Unborn (device.calls c) → device.sessions c = none
  pairing : ∀ id session, device.sessions id = some session → session.role = .source →
    ∃ invite, session.pairing = some invite
  tasks : ∀ t task, device.tasks t = some task →
    ∃ session, device.sessions task.session = some session ∧ session.role = .source

/-- A session stays what it is, and is not used again. -/
structure TransferSession.Keeps (session session' : TransferSession) : Prop where
  role : session'.role = session.role
  pairing : session'.pairing = session.pairing
  consumed : session.role = .source → session.consumed → session'.consumed

theorem TransferSession.Keeps.refl (session : TransferSession) :
  session.Keeps session
  := ⟨rfl, rfl, fun _ h => h⟩

theorem TransferSession.Keeps.set (session : TransferSession) (status : AccountTransferStatus) :
  session.Keeps (session.set status)
  := by
  rcases set_cases session status with h | h <;> rw [h]
  · exact .refl session
  · exact ⟨rfl, rfl, fun _ h => h⟩

theorem SourceMove.keeps {target : Bytes} {session' : TransferSession}
    {stage stage' : SourceStage} {input : SourceInput}
    (h : SourceMove blake3 target session stage input stage' session') :
  session.Keeps session'
  := by
  cases h with
  | consumed => exact ⟨rfl, rfl, fun _ _ => rfl⟩
  | decided | answered | follows => exact .refl _
  | shows | sets => exact .set _ _

theorem keeps_of_update {f : ℕ → Option TransferSession} {i j : ℕ}
    {session₀ session₁ : TransferSession} (h : f j = some session) (h₀ : f i = some session₀)
    (hkeeps : session₀.Keeps session₁) :
  ∃ session', Function.update f i (some session₁) j = some session' ∧ session.Keeps session'
  := by
  by_cases hj : j = i
  · subst hj
    cases h.symm.trans h₀
    exact ⟨session₁, update_self .., hkeeps⟩
  · exact ⟨session, (update_of_ne hj ..).trans h, .refl session⟩

theorem DeviceMove.keeps (h : DeviceMove blake3 before op after) (hsound : before.Sound)
    (hsession : before.sessions id = some session) :
  ∃ session', after.sessions id = some session' ∧ session.Keeps session'
  := by
  cases h with
  | permits | begins | swapsOut | checks | accepts => exact ⟨session, hsession, .refl session⟩
  | stops _ hbefore | rejects _ hbefore | decides _ _ hbefore =>
    exact keeps_of_update hsession hbefore ⟨rfl, rfl, fun _ h => h⟩
  | @swapsIn _ call new hcall =>
    have hne : id ≠ call := by
      rintro rfl
      have hunborn : ReplaceStage.Unborn (before.calls id) := by
        rw [hcall]
        trivial
      rw [hsound.unborn id hunborn] at hsession
      cases hsession
    exact ⟨session, (update_of_ne hne ..).trans hsession, .refl session⟩
  | fails _ hbefore => exact keeps_of_update hsession hbefore (.set _ _)
  | other hbefore hrole =>
    apply keeps_of_update hsession hbefore
    have hset := TransferSession.Keeps.set
    exact ⟨(hset _ _).role, (hset _ _).pairing, fun hsource => absurd hsource hrole⟩
  | task _ hbefore hmove => exact keeps_of_update hsession hbefore hmove.keeps

theorem not_unborn_after (slot : Option ℕ) :
  ¬ ReplaceStage.Unborn (some (.after slot))
  := by
  cases slot with
  | none => exact id
  | some previous => exact id

/-- A call that has not taken the slot had not taken it before, and has no session. -/
theorem DeviceMove.unborn {c : ℕ} (h : DeviceMove blake3 before op after)
    (hc : ReplaceStage.Unborn (after.calls c)) :
  ReplaceStage.Unborn (before.calls c) ∧
    (before.sessions c = none → after.sessions c = none)
  := by
  have hput : ∀ {call stage}, ¬ ReplaceStage.Unborn (some stage) →
      ReplaceStage.Unborn (update before.calls call (some stage) c) →
      c ≠ call ∧ ReplaceStage.Unborn (before.calls c) := by
    intro call stage hstage hupdate
    have hne : c ≠ call := by
      rintro rfl
      rw [update_self] at hupdate
      exact hstage hupdate
    rw [update_of_ne hne] at hupdate
    exact ⟨hne, hupdate⟩
  have hsession : ∀ {id : ℕ} {session session' : TransferSession},
      before.sessions id = some session → before.sessions c = none →
      update before.sessions id (some session') c = none := by
    intro id session session' hid hnone
    have hne : c ≠ id := by
      rintro rfl
      rw [hid] at hnone
      cases hnone
    rw [update_of_ne hne]
    exact hnone
  cases h with
  | permits | checks | accepts => exact ⟨hc, id⟩
  | @begins _ call session hcall =>
    refine ⟨?_, id⟩
    by_cases hne : c = call
    · rw [hne, hcall]
      trivial
    · simp only [putCall, update_of_ne hne] at hc
      exact hc
  | stops _ hbefore | fails _ hbefore | rejects _ hbefore =>
    exact ⟨(hput (by exact id) hc).2, hsession hbefore⟩
  | swapsIn =>
    obtain ⟨hne, hunborn⟩ := hput (not_unborn_after _) hc
    exact ⟨hunborn, fun hnone => (update_of_ne hne ..).trans hnone⟩
  | swapsOut => exact ⟨(hput (not_unborn_after _) hc).2, id⟩
  | decides _ _ hbefore | other hbefore | task _ hbefore => exact ⟨hc, hsession hbefore⟩

theorem DeviceMove.fresh {c : ℕ} (h : DeviceMove blake3 before op after)
    (hc : after.calls c = some (.swap (some session))) :
  before.calls c = some (.swap (some session)) ∨ session.Fresh
  := by
  have hafter : ∀ slot, ReplaceStage.after slot ≠ .swap (some session) := by
    intro slot
    cases slot <;> nofun
  cases h with
  | permits | checks | accepts | decides | other | task => exact .inl hc
  | begins _ hfresh =>
    rcases update_cases hc with ⟨-, hsession⟩ | ⟨-, hkept⟩
    · cases hsession
      exact .inr (hfresh session rfl)
    · exact .inl hkept
  | stops | fails | rejects =>
    rcases update_cases hc with ⟨-, hsession⟩ | ⟨-, hkept⟩
    · cases hsession
    · exact .inl hkept
  | swapsIn | swapsOut =>
    rcases update_cases hc with ⟨-, hsession⟩ | ⟨-, hkept⟩
    · exact absurd hsession.symm (hafter _)
    · exact .inl hkept

theorem sound_start :
  SourceDevice.start.Sound
  := by
  refine ⟨?_, fun _ _ => rfl, ?_, ?_⟩
  · intro c session hc
    cases hc
  · intro id session hsession
    cases hsession
  · intro t task htask
    cases htask

theorem SourceDevice.Sound.step (hsound : before.Sound) (h : DeviceMove blake3 before op after) :
  after.Sound
  := by
  constructor
  · intro c session hc
    rcases h.fresh hc with hbefore | hfresh
    · exact hsound.swaps c session hbefore
    · exact hfresh
  · intro c hc
    obtain ⟨hunborn, hnone⟩ := h.unborn hc
    exact hnone (hsound.unborn c hunborn)
  · intro id session' hsession' hrole
    cases h.session_cases hsession' with
    | kept hbefore => exact hsound.pairing id _ hbefore hrole
    | created hcall => exact (hsound.swaps id _ hcall).pairing hrole
    | status hbefore | shows hbefore | consumed hbefore | rejected hbefore | decided hbefore =>
      have hpairing := hsound.pairing id _ hbefore
      exact hpairing hrole
    | other hbefore hother =>
      rw [(TransferSession.Keeps.set _ _).role] at hrole
      exact absurd hrole hother
  · intro t task' htask'
    have hkept : ∀ {id : ℕ} {session : TransferSession}, before.sessions id = some session →
        session.role = .source →
        ∃ session', after.sessions id = some session' ∧ session'.role = .source := by
      intro id session hsession hrole
      obtain ⟨session', hsession', hkeeps⟩ := h.keeps hsound hsession
      exact ⟨session', hsession', hkeeps.role.trans hrole⟩
    cases h.task_cases htask' with
    | kept hbefore | moved _ hbefore =>
      obtain ⟨session, hsession, hrole⟩ := hsound.tasks t _ hbefore
      exact hkept hsession hrole
    | created hsession hrole => exact hkept hsession hrole

theorem sound_of_trace (htrace : Trace (SourceStep blake3 json) .start h device) :
  device.Sound
  := htrace.invariant sound_start fun _ _ _ _ hsound hstep =>
      hsound.step (deviceMove_of_step hstep)

/-! ### One connection is accepted -/

/-- The session accepts a connection of the other device. -/
def AcceptsConnection (e : SourceEvent) (t id : ℕ) (remote : Bytes) : Prop :=
  ∃ proof nowMs, e.op = .task t (.clock nowMs) ∧
    e.before.tasks t = some ⟨remote, id, .consume proof⟩ ∧
    e.after.tasks t = some ⟨remote, id, .accept⟩

/-- The other device has proved in time that it has the invite. -/
def Proves (blake3 : Blake3) (e : SourceEvent) (t id : ℕ) (remote : Bytes)
    (invite : AccountTransferInvite) : Prop :=
  ∃ proof nowMs, e.op = .task t (.clock nowMs) ∧
    e.before.tasks t = some ⟨remote, id, .consume proof⟩ ∧
    e.after.tasks t = some ⟨remote, id, .accept⟩ ∧
    nowMs < invite.expiresAtMs ∧ invite.verifyHello blake3 remote proof

theorem Proves.accepts (h : Proves blake3 e t id remote invite) :
  AcceptsConnection e t id remote
  := by
  obtain ⟨proof, nowMs, hop, hbefore, hafter, -⟩ := h
  exact ⟨proof, nowMs, hop, hbefore, hafter⟩

/-- The code is that of a connection which the session has accepted. -/
def CodeOf (blake3 : Blake3) (h : List SourceEvent) (id : ℕ)
    (pairing : Option AccountTransferInvite) (code : String) : Prop :=
  ∃ e ∈ h, ∃ t remote invite, AcceptsConnection e t id remote ∧ pairing = some invite ∧
    code = invite.verificationCode blake3 remote

structure AcceptedOnce (blake3 : Blake3) (h : List SourceEvent) (device : SourceDevice) :
    Prop where
  accepted : ∀ t task, device.tasks t = some task → task.stage.Accepted →
    ∀ session, device.sessions task.session = some session → ∀ invite,
    session.pairing = some invite → ∃ e ∈ h, Proves blake3 e t task.session task.remote invite
  consumed : ∀ e ∈ h, ∀ t id remote, AcceptsConnection e t id remote →
    ∃ session, device.sessions id = some session ∧ session.role = .source ∧ session.consumed
  unique : ∀ e ∈ h, ∀ e' ∈ h, ∀ t t' id remote remote', AcceptsConnection e t id remote →
    AcceptsConnection e' t' id remote' → t = t' ∧ remote = remote'
  shown : ∀ id session, device.sessions id = some session → session.role = .source → ∀ code,
    session.status.ShowsCode code → CodeOf blake3 h id session.pairing code

theorem CodeOf.append {code : String} (hcode : CodeOf blake3 h id pairing code)
    (h' : List SourceEvent) :
  CodeOf blake3 (h ++ h') id pairing code
  := by
  obtain ⟨e, he, hrest⟩ := hcode
  exact ⟨e, mem_append_left _ he, hrest⟩

/-- The pairing of a session has been the same before. -/
theorem DeviceMove.pairing_eq {session₀ : TransferSession}
    (h : DeviceMove blake3 before op after) (hsound : before.Sound)
    (hsession₀ : before.sessions id = some session₀) (hsession : after.sessions id = some session) :
  session₀.pairing = session.pairing
  := by
  obtain ⟨session', hsession', hkeeps⟩ := h.keeps hsound hsession₀
  cases hsession.symm.trans hsession'
  exact hkeeps.pairing.symm

/-- A connection is accepted by a session that has not been used. -/
theorem DeviceMove.accepts_cases (h : DeviceMove blake3 e.before e.op e.after)
    (haccepts : AcceptsConnection e t id remote) :
  ∃ session invite, e.before.sessions id = some session ∧ session.consumed = false ∧
    e.after.sessions id = some { session with consumed := true } ∧
    session.pairing = some invite ∧ Proves blake3 e t id remote invite
  := by
  obtain ⟨proof, nowMs, hop, hbefore, hafter⟩ := haccepts
  cases h.task_cases hafter with
  | kept hkept =>
    rw [hbefore] at hkept
    cases hkept
  | @moved task session session' input stage hop' htask hsession hsession' hmove =>
    have hconsume : task.stage = .consume proof :=
      congrArg SourceTask.stage (some.inj (htask.symm.trans hbefore))
    rw [hop] at hop'
    cases hop'
    cases hmove with
    | consumed hstage hpairing hunused hclock hproof =>
      cases hconsume.symm.trans hstage
      exact ⟨session, _, hsession, hunused, hsession', hpairing, proof, nowMs, hop, hbefore,
        hafter, hclock, hproof⟩
    | follows hfollows | sets _ hfollows =>
      have haccepted := hfollows.accepted trivial
      rw [hconsume] at haccepted
      cases haccepted

theorem AcceptedOnce.accepted_step (honce : AcceptedOnce blake3 h before) (hsound : before.Sound)
    (hmove : DeviceMove blake3 before op after) (htask : after.tasks t = some task)
    (haccepted : task.stage.Accepted) (hsession : after.sessions task.session = some session)
    (hpairing : session.pairing = some invite) :
  ∃ e ∈ h ++ [⟨before, op, ret, after⟩], Proves blake3 e t task.session task.remote invite
  := by
  have hearlier : ∀ {task₀ session₀}, before.tasks t = some task₀ → task₀.stage.Accepted →
      before.sessions task₀.session = some session₀ → session₀.pairing = some invite →
      ∃ e ∈ h ++ [⟨before, op, ret, after⟩],
        Proves blake3 e t task₀.session task₀.remote invite := by
    intro task₀ session₀ htask₀ hstage hsession₀ hpairing₀
    obtain ⟨e, he, hproves⟩ :=
      honce.accepted t task₀ htask₀ hstage session₀ hsession₀ invite hpairing₀
    exact ⟨e, mem_append_left _ he, hproves⟩
  cases hmove.task_cases htask with
  | kept hbefore =>
    obtain ⟨session₀, hsession₀, -⟩ := hsound.tasks t _ hbefore
    apply hearlier hbefore haccepted hsession₀
    rw [hmove.pairing_eq hsound hsession₀ hsession, hpairing]
  | created => cases haccepted
  | @moved task₀ session₀ session' input stage hop hbefore hsession₀ hsession' hstep =>
    have hinvite : session₀.pairing = some invite := by
      rw [hmove.pairing_eq hsound hsession₀ hsession, hpairing]
    have hearlier (hstage : task₀.stage.Accepted) := hearlier hbefore hstage hsession₀ hinvite
    cases hstep with
    | @consumed proof invite₀ nowMs hstage hpairing₀ hunused hclock hproof =>
      cases hpairing₀.symm.trans hinvite
      have hbefore' : before.tasks t = some ⟨task₀.remote, task₀.session, .consume proof⟩ := by
        rw [hbefore, ← hstage]
      exact ⟨_, mem_append_right _ (.head _), proof, nowMs, hop, hbefore', htask, hclock, hproof⟩
    | decided hstage | answered hstage =>
      apply hearlier
      rw [hstage]
      trivial
    | shows _ hstage => exact hearlier hstage
    | follows hfollows | sets _ hfollows => exact hearlier (hfollows.accepted haccepted)

theorem AcceptedOnce.step (honce : AcceptedOnce blake3 h before) (hsound : before.Sound)
    (hmove : DeviceMove blake3 before op after) :
  AcceptedOnce blake3 (h ++ [⟨before, op, ret, after⟩]) after
  := by
  constructor
  · intro t task htask haccepted session hsession invite hpairing
    exact honce.accepted_step hsound hmove htask haccepted hsession hpairing
  · intro e he t id remote haccepts
    rcases mem_append.mp he with he | he
    · obtain ⟨session, hsession, hrole, hconsumed⟩ := honce.consumed e he t id remote haccepts
      obtain ⟨session', hsession', hkeeps⟩ := hmove.keeps hsound hsession
      exact ⟨session', hsession', hkeeps.role.trans hrole, hkeeps.consumed hrole hconsumed⟩
    · obtain rfl := mem_singleton.mp he
      obtain ⟨session, invite, hsession, -, hsession', -, -⟩ := hmove.accepts_cases haccepts
      obtain ⟨proof, nowMs, -, hbefore, -⟩ := haccepts
      obtain ⟨session₀, hsession₀, hrole⟩ := hsound.tasks t _ hbefore
      cases hsession.symm.trans hsession₀
      exact ⟨_, hsession', hrole, rfl⟩
  · intro e he e' he' t t' id remote remote' haccepts haccepts'
    have hused : ∀ {e₁ t₁ remote₁ t₂ remote₂}, e₁ ∈ h → AcceptsConnection e₁ t₁ id remote₁ →
        ¬ AcceptsConnection ⟨before, op, ret, after⟩ t₂ id remote₂ := by
      intro e₁ t₁ remote₁ t₂ remote₂ he₁ haccepts₁ haccepts₂
      obtain ⟨session, hsession, -, hconsumed⟩ := honce.consumed e₁ he₁ t₁ id remote₁ haccepts₁
      obtain ⟨session', invite, hsession', hunused, -⟩ := hmove.accepts_cases haccepts₂
      cases hsession.symm.trans hsession'
      rw [hconsumed] at hunused
      cases hunused
    rcases mem_append.mp he with he | he
    · rcases mem_append.mp he' with he' | he'
      · exact honce.unique e he e' he' t t' id remote remote' haccepts haccepts'
      · obtain rfl := mem_singleton.mp he'
        exact absurd haccepts' (hused he haccepts)
    · obtain rfl := mem_singleton.mp he
      rcases mem_append.mp he' with he' | he'
      · exact absurd haccepts (hused he' haccepts')
      · obtain rfl := mem_singleton.mp he'
        obtain ⟨_, _, hop, hbefore, -⟩ := haccepts
        obtain ⟨_, _, hop', hbefore', -⟩ := haccepts'
        cases hop.symm.trans hop'
        cases hbefore.symm.trans hbefore'
        exact ⟨rfl, rfl⟩
  · intro id session hsession hrole code hcode
    cases hmove.session_cases hsession with
    | kept hbefore => exact (honce.shown id _ hbefore hrole code hcode).append _
    | created hcall => exact absurd hcode ((hsound.swaps id _ hcall).status code)
    | status _ hstatus => exact absurd hcode (hstatus code)
    | shows hbefore htask hid haccepted hpairing hstatus =>
      subst hid
      obtain ⟨e, he, hproves⟩ := honce.accepted _ _ htask haccepted _ hbefore _ hpairing
      exact ⟨e, mem_append_left _ he, _, _, _, hproves.accepts, hpairing, hstatus code hcode⟩
    | consumed hbefore | rejected hbefore | decided hbefore =>
      have hshown := honce.shown id _ hbefore hrole code hcode
      exact hshown.append _
    | other hbefore hother =>
      rw [(TransferSession.Keeps.set _ _).role] at hrole
      exact absurd hrole hother

theorem acceptedOnce_of_trace (htrace : Trace (SourceStep blake3 json) .start h device) :
  AcceptedOnce blake3 h device
  := by
  apply htrace.history_invariant
  · refine ⟨?_, by simp, by simp, ?_⟩
    · intro t task htask
      cases htask
    · intro id session hsession
      cases hsession
  · intro h before op ret after htrace honce hstep
    exact honce.step (sound_of_trace htrace) (deviceMove_of_step hstep)

/-! ### The first decision -/

/-- The user accepts while the code of a connection is shown which the session has accepted. -/
def Checks (blake3 : Blake3) (h : List SourceEvent) (check : SourceEvent) (id : ℕ)
    (pairing : Option AccountTransferInvite) : Prop :=
  check.op = .decide true ∧ check.before.slot = some id ∧
    ∃ session code, check.before.sessions id = some session ∧ session.status.ShowsCode code ∧
      CodeOf blake3 h id pairing code

/-- The decision of the user to accept is written, and there has not been any before. -/
def WritesFirst (write : SourceEvent) (id : ℕ) : Prop :=
  write.op = .decided ∧ write.before.slot = some id ∧ write.before.deciding = some true ∧
    ∃ session, write.before.sessions id = some session ∧ session.decision = none

/-- The first decision was to accept. -/
def FirstAccepts (blake3 : Blake3) (h : List SourceEvent) (id : ℕ)
    (pairing : Option AccountTransferInvite) : Prop :=
  ∃ check write, [check, write].Sublist h ∧ Checks blake3 h check id pairing ∧
    WritesFirst write id

/-- The other device accepts. -/
def Answers (e : SourceEvent) (t id : ℕ) (remote : Bytes) : Prop :=
  e.op = .task t (.answer (some [acceptedByte])) ∧
    ∃ approval, e.before.tasks t = some ⟨remote, id, .confirming approval false⟩

structure ApprovedFirst (blake3 : Blake3) (h : List SourceEvent) (device : SourceDevice) :
    Prop where
  deciding : device.deciding = some true → ∃ id session, device.slot = some id ∧
    device.sessions id = some session ∧
    (session.role = .source → ∃ check ∈ h, Checks blake3 h check id session.pairing)
  decision : ∀ id session, device.sessions id = some session → session.role = .source →
    session.decision = some true → FirstAccepts blake3 h id session.pairing
  approved : ∀ t task, device.tasks t = some task → task.stage.Approved →
    ∀ session, device.sessions task.session = some session →
    FirstAccepts blake3 h task.session session.pairing
  answered : ∀ t task, device.tasks t = some task → task.stage.Answered →
    ∃ e ∈ h, Answers e t task.session task.remote

theorem Checks.append {check : SourceEvent} (hchecks : Checks blake3 h check id pairing)
    (h' : List SourceEvent) :
  Checks blake3 (h ++ h') check id pairing
  := by
  obtain ⟨hop, hslot, session, code, hsession, hshows, hcode⟩ := hchecks
  exact ⟨hop, hslot, session, code, hsession, hshows, hcode.append h'⟩

theorem FirstAccepts.append (hfirst : FirstAccepts blake3 h id pairing) (h' : List SourceEvent) :
  FirstAccepts blake3 (h ++ h') id pairing
  := by
  obtain ⟨check, write, hsublist, hchecks, hwrites⟩ := hfirst
  exact ⟨check, write, hsublist.trans (sublist_append_left h h'), hchecks.append h', hwrites⟩

/-- A decision that is being made has been checked, and keeps the slot. -/
theorem DeviceMove.deciding_cases {accept : Bool} (h : DeviceMove blake3 before op after)
    (hdeciding : after.deciding = some accept) :
  before.deciding = some accept ∧ after.slot = before.slot ∨
    op = .decide accept ∧ after.slot = before.slot ∧ after.sessions = before.sessions ∧
      ∃ id session code, before.slot = some id ∧ before.sessions id = some session ∧
        session.status.ShowsCode code
  := by
  cases h with
  | permits | begins | stops | fails | rejects | other | accepts | task =>
    exact .inl ⟨hdeciding, rfl⟩
  | swapsIn _ hnone | swapsOut _ hnone =>
    cases hnone.symm.trans hdeciding
  | checks _ hslot hsession hcode =>
    cases hdeciding
    exact .inr ⟨rfl, rfl, rfl, _, _, _, hslot, hsession, hcode⟩
  | decides => cases hdeciding

section

variable (hfirst : ApprovedFirst blake3 h before)
include hfirst

theorem ApprovedFirst.deciding_step (honce : AcceptedOnce blake3 h before) (hsound : before.Sound)
    (hmove : DeviceMove blake3 before op after) (hdeciding : after.deciding = some true) :
  ∃ id session, after.slot = some id ∧ after.sessions id = some session ∧
    (session.role = .source → ∃ check ∈ h ++ [⟨before, op, ret, after⟩],
      Checks blake3 (h ++ [⟨before, op, ret, after⟩]) check id session.pairing)
  := by
  rcases hmove.deciding_cases hdeciding with
    ⟨hbefore, hslot⟩ | ⟨hop, hslot, hsessions, id, session, code, hid, hsession, hcode⟩
  · obtain ⟨id, session, hid, hsession, hchecks⟩ := hfirst.deciding hbefore
    obtain ⟨session', hsession', hkeeps⟩ := hmove.keeps hsound hsession
    refine ⟨id, session', hslot.trans hid, hsession', fun hrole => ?_⟩
    obtain ⟨check, hcheck, hchecks⟩ := hchecks (hkeeps.role.symm.trans hrole)
    rw [hkeeps.pairing]
    exact ⟨check, mem_append_left _ hcheck, hchecks.append _⟩
  · refine ⟨id, session, hslot.trans hid, ?_, fun hrole => ?_⟩
    · rw [hsessions]
      exact hsession
    · have hshown := honce.shown id session hsession hrole code hcode
      exact ⟨_, mem_append_right _ (.head _), hop, hid, session, code, hsession, hcode,
        hshown.append _⟩

theorem ApprovedFirst.decision_step (hsound : before.Sound)
    (hmove : DeviceMove blake3 before op after) (hsession : after.sessions id = some session)
    (hrole : session.role = .source) (hdecision : session.decision = some true) :
  FirstAccepts blake3 (h ++ [⟨before, op, ret, after⟩]) id session.pairing
  := by
  cases hmove.session_cases hsession with
  | kept hbefore => exact (hfirst.decision id _ hbefore hrole hdecision).append _
  | created hcall =>
    rw [(hsound.swaps id _ hcall).decision] at hdecision
    cases hdecision
  | status hbefore | shows hbefore | consumed hbefore =>
    have hearlier := hfirst.decision id _ hbefore hrole hdecision
    exact hearlier.append _
  | rejected => cases hdecision
  | @decided session₀ accept hbefore hop hdeciding hslot =>
    generalize hearlier : session₀.decision = current at hdecision
    cases current with
    | some accepted =>
      cases hdecision
      exact (hfirst.decision id _ hbefore hrole hearlier).append _
    | none =>
      cases hdecision
      obtain ⟨id', session', hid', hsession', hchecks⟩ := hfirst.deciding hdeciding
      cases hslot.symm.trans hid'
      cases hbefore.symm.trans hsession'
      obtain ⟨check, hcheck, hchecks⟩ := hchecks hrole
      have hsublist : [check, ⟨before, op, ret, after⟩].Sublist (h ++ [⟨before, op, ret, after⟩]) :=
        (singleton_sublist.mpr hcheck).append (List.Sublist.refl _)
      exact ⟨check, ⟨before, op, ret, after⟩, hsublist, hchecks.append _, hop, hslot, hdeciding,
        session₀, hbefore, hearlier⟩
  | other hbefore hother =>
    rw [(TransferSession.Keeps.set _ _).role] at hrole
    exact absurd hrole hother

theorem ApprovedFirst.approved_step (hsound : before.Sound)
    (hmove : DeviceMove blake3 before op after) (htask : after.tasks t = some task)
    (happroved : task.stage.Approved) (hsession : after.sessions task.session = some session) :
  FirstAccepts blake3 (h ++ [⟨before, op, ret, after⟩]) task.session session.pairing
  := by
  cases hmove.task_cases htask with
  | kept hbefore =>
    obtain ⟨session₀, hsession₀, -⟩ := hsound.tasks t _ hbefore
    rw [← hmove.pairing_eq hsound hsession₀ hsession]
    exact (hfirst.approved t _ hbefore happroved session₀ hsession₀).append _
  | created => cases happroved
  | @moved task₀ session₀ session' input stage hop hbefore hsession₀ hsession' hstep =>
    rw [← hmove.pairing_eq hsound hsession₀ hsession]
    have hearlier : task₀.stage.Approved →
        FirstAccepts blake3 (h ++ [⟨before, op, ret, after⟩]) task₀.session session₀.pairing :=
      fun hstage => (hfirst.approved t _ hbefore hstage session₀ hsession₀).append _
    cases hstep with
    | consumed => cases happroved
    | decided hstage hdecision =>
      obtain ⟨session₁, hsession₁, hrole⟩ := hsound.tasks t _ hbefore
      cases hsession₀.symm.trans hsession₁
      have haccepted : _ = true := happroved
      rw [haccepted] at hdecision
      exact (hfirst.decision _ _ hsession₀ hrole hdecision).append _
    | @answered approval hstage =>
      apply hearlier
      rw [hstage]
      cases approval <;> exact happroved
    | shows _ _ hfollows | follows hfollows | sets _ hfollows =>
      exact hearlier (hfollows.approved happroved)

theorem ApprovedFirst.answered_step (hmove : DeviceMove blake3 before op after)
    (htask : after.tasks t = some task) (hanswered : task.stage.Answered) :
  ∃ e ∈ h ++ [⟨before, op, ret, after⟩], Answers e t task.session task.remote
  := by
  have hearlier : ∀ {task₀ : SourceTask}, before.tasks t = some task₀ → task₀.stage.Answered →
      ∃ e ∈ h ++ [⟨before, op, ret, after⟩], Answers e t task₀.session task₀.remote := by
    intro task₀ htask₀ hstage
    obtain ⟨e, he, hanswers⟩ := hfirst.answered t task₀ htask₀ hstage
    exact ⟨e, mem_append_left _ he, hanswers⟩
  cases hmove.task_cases htask with
  | kept hbefore => exact hearlier hbefore hanswered
  | created => cases hanswered
  | @moved task₀ session₀ session' input stage hop hbefore hsession₀ hsession' hstep =>
    cases hstep with
    | consumed => cases hanswered
    | decided hstage hdecision =>
      apply hearlier hbefore
      rw [hstage]
      exact hanswered
    | @answered approval hstage =>
      have hbefore' : before.tasks t =
          some ⟨task₀.remote, task₀.session, .confirming approval false⟩ := by
        rw [hbefore, ← hstage]
      exact ⟨_, mem_append_right _ (.head _), hop, approval, hbefore'⟩
    | shows _ _ hfollows | follows hfollows | sets _ hfollows =>
      apply hearlier hbefore
      exact hfollows.answered hanswered

end

theorem approvedFirst_of_trace (htrace : Trace (SourceStep blake3 json) .start h device) :
  ApprovedFirst blake3 h device
  := by
  apply htrace.history_invariant
  · refine ⟨?_, ?_, ?_, ?_⟩
    · intro hdeciding
      cases hdeciding
    · intro id session hsession
      cases hsession
    · intro t task htask
      cases htask
    · intro t task htask
      cases htask
  · intro h before op ret after htrace hfirst hstep
    have hsound := sound_of_trace htrace
    have hmove := deviceMove_of_step hstep
    constructor
    · intro hdeciding
      exact hfirst.deciding_step (acceptedOnce_of_trace htrace) hsound hmove hdeciding
    · intro id session hsession hrole hdecision
      exact hfirst.decision_step hsound hmove hsession hrole hdecision
    · intro t task htask happroved session hsession
      exact hfirst.approved_step hsound hmove htask happroved hsession
    · intro t task htask hanswered
      exact hfirst.answered_step hmove htask hanswered

end

/-! ### Mutual approval -/

/-- A frame of the bundle is written on a connection, or its writing fails. -/
def WritesFrame (e : SourceEvent) (t id : ℕ) (remote : Bytes) (frame : AccountTransferFrame) :
    Prop :=
  ∃ closedForStorage input sender session next, e.op = .task t (.bundle closedForStorage input) ∧
    e.before.tasks t = some ⟨remote, id, .sending sender⟩ ∧
    e.before.sessions id = some session ∧
    sender.writing (session.source.getD "") = some (frame, next)

/-- Whenever a frame of a bundle is written on a connection, the other device has proved before in
time that it has the invite. No other connection has been or will be accepted for the invite. The
first decision was to accept, while the code of that device was shown. That device has accepted. -/
theorem bundle_only_after_approval {blake3 : Blake3} {json : FrameJson}
    {past future : List SourceEvent} {e : SourceEvent} {device : SourceDevice} {t id : ℕ}
    {remote : Bytes} {frame : AccountTransferFrame}
    (htrace : Trace (SourceStep blake3 json) .start (past ++ e :: future) device)
    (hwrites : WritesFrame e t id remote frame) :
  ∃ session invite, e.before.sessions id = some session ∧ session.role = .source ∧
    session.pairing = some invite ∧
    (∃ a ∈ past, Proves blake3 a t id remote invite) ∧
    (∀ a ∈ past ++ e :: future, ∀ t' remote', AcceptsConnection a t' id remote' → t' = t) ∧
    (∃ check write, [check, write].Sublist past ∧
      check.op = .decide true ∧ check.before.slot = some id ∧
      (∃ shown, check.before.sessions id = some shown ∧
        shown.status.ShowsCode (invite.verificationCode blake3 remote)) ∧
      WritesFirst write id) ∧
    ∃ a ∈ past, Answers a t id remote
  := by
  obtain ⟨_, _, sender, session, _, -, htask, hsession, -⟩ := hwrites
  obtain ⟨hpast, -, -⟩ := htrace.split_event
  have hsound := sound_of_trace hpast
  have honce := acceptedOnce_of_trace hpast
  have hfirst := approvedFirst_of_trace hpast
  have hall := acceptedOnce_of_trace htrace
  obtain ⟨session', hsession', hrole⟩ := hsound.tasks t _ htask
  cases hsession.symm.trans hsession'
  obtain ⟨invite, hpairing⟩ := hsound.pairing id session hsession hrole
  obtain ⟨a, ha, hproves⟩ := honce.accepted t _ htask trivial session hsession invite hpairing
  have ha' : a ∈ past ++ e :: future := mem_append_left _ ha
  refine ⟨session, invite, hsession, hrole, hpairing, ⟨a, ha, hproves⟩, ?_, ?_,
    hfirst.answered t _ htask trivial⟩
  · intro a' ha'' t' remote' haccepts
    exact (hall.unique a' ha'' a ha' t' t id remote' remote haccepts hproves.accepts).1
  · obtain ⟨check, write, hsublist, ⟨hop, hslot, shown, code, hshown, hcode, hcodeOf⟩, hwrite⟩ :=
      hfirst.approved t _ htask trivial session hsession
    refine ⟨check, write, hsublist, hop, hslot, ⟨shown, hshown, ?_⟩, hwrite⟩
    -- The code was that of the one connection that was accepted.
    obtain ⟨b, hb, t', remote', invite', haccepts, hpairing', rfl⟩ := hcodeOf
    obtain ⟨-, rfl⟩ :=
      honce.unique b hb a ha t' t id remote' remote haccepts hproves.accepts
    cases hpairing.symm.trans hpairing'
    exact hcode

/-! ### A transfer that is approved -/

namespace SourceSample

/-- A hash that is always empty. -/
def blake3 : Blake3 := ⟨fun _ _ => [], fun _ _ => []⟩

def issuer : String := "00000000000000000000000000000000000000000000000000000000000000ff"

/-- An invite is issued, a device connects, and both devices accept. -/
def approved : List SourceOp :=
  [.issue 0 issuer none [] [] 0 "", .replace 0, .accept 0 [], .task 0 (.hello (some [])),
    .task 0 (.clock 1), .task 0 (.written true), .task 0 .step, .decide true, .decided,
    .task 0 .step, .task 0 .step, .task 0 (.written true), .task 0 (.delivered true),
    .task 0 (.answer (some [acceptedByte]))]

/-- The connection goes on to write the key. -/
def bundleOpened : List SourceOp :=
  [.task 0 .step, .task 0 .step, .task 0 (.bundle false .done)]

noncomputable def run (device : SourceDevice) (op : SourceOp) : Option (Unit × SourceDevice) :=
  (device.perform blake3 BundleSample.json op).map fun device => ((), device)

theorem sourceStep_of_run {device device' : SourceDevice} {op : SourceOp} {ret : Unit}
    (h : run device op = some (ret, device')) :
  SourceStep blake3 BundleSample.json device op ret device'
  := by
  obtain ⟨after, hperform, hafter⟩ := map_eq_some_iff.mp h
  cases hafter
  exact hperform

/-- The run of some steps and one more. -/
theorem trace_of_run {ops : List SourceOp} {op : SourceOp} {after : SourceDevice}
    (hrun : run (Trace.replay run .start ops).2 op = some ((), after)) :
  Trace (SourceStep blake3 BundleSample.json) .start
    ((Trace.replay run .start ops).1 ++ ⟨(Trace.replay run .start ops).2, op, (), after⟩ :: [])
    after
  := by
  have hbefore : Trace (SourceStep blake3 BundleSample.json) .start
      (replay run .start ops).1 (replay run .start ops).2 := by
    apply of_replay
    intro _ _ _ _ _ hstep
    exact sourceStep_of_run hstep
  exact hbefore.snoc (sourceStep_of_run hrun)

end SourceSample

open SourceSample in
theorem bundle_only_after_approval_sample :
  ∃ past e future device,
    Trace (SourceStep blake3 BundleSample.json) .start (past ++ e :: future) device ∧
    WritesFrame e 0 0 [] (.key "") ∧ ∃ a ∈ past, Answers a 0 0 []
  := by
  have hsome : (run (replay run .start (approved ++ bundleOpened)).2
      (.task 0 (.bundle false .done))).isSome := by decide +kernel
  have htask : (replay run .start (approved ++ bundleOpened)).2.tasks 0 =
      some ⟨[], 0, .sending .key⟩ := by decide +kernel
  have hsource : ((replay run .start (approved ++ bundleOpened)).2.sessions 0).map
      (·.source) = some (some "") := by decide +kernel
  obtain ⟨⟨_, after⟩, hrun⟩ := isSome_iff_exists.mp hsome
  obtain ⟨session, hsession, hsource⟩ := map_eq_some_iff.mp hsource
  have hwrites : WritesFrame ⟨(replay run .start (approved ++ bundleOpened)).2,
      .task 0 (.bundle false .done), (), after⟩ 0 0 [] (.key "") :=
    ⟨false, .done, .key, session, .page none 0, rfl, htask, hsession, by rw [hsource]; rfl⟩
  obtain ⟨_, _, _, _, _, _, _, _, hanswers⟩ :=
    bundle_only_after_approval (trace_of_run hrun) hwrites
  exact ⟨_, _, _, _, trace_of_run hrun, hwrites, hanswers⟩

end Kukuri
