import Kukuri.IrohNode.BundleTransfer

/-!
# The device that an account is transferred from

A device has one slot for a transfer. Issuing an invite, opening a link, syncing with another device
and cancelling replace the session in the slot. A connection that arrives is served by a task, which
takes the session of that time: it checks the proof of the other device, shows the code and waits
for the decision of the user and that of the other device, and then sends the bundle. The task also
stops when the status of its session is terminal, but it may do something else first.

Everything happens at the same time. A step of the model is one access to what is shared, or one
thing that a task has waited for. The clock may show anything.
-/

namespace Kukuri

open Result

def concurrentRequests : ℕ := 2

/-! ### Sessions -/

structure TransferSession where
  role : AccountTransferRole
  /-- The invite, unless the other device proves that it has the key of the account. -/
  pairing : Option AccountTransferInvite
  consumed : Bool
  status : AccountTransferStatus
  decision : Option Bool
  /-- The secret key of the account that is sent. -/
  source : Option String
  deriving DecidableEq

namespace TransferSession

def new (role : AccountTransferRole) (pairing : Option AccountTransferInvite)
    (status : AccountTransferStatus) (source : Option String) : TransferSession :=
  ⟨role, pairing, false, status, none, source⟩

/-- The status of a session that has ended does not change. -/
def set (session : TransferSession) (status : AccountTransferStatus) : TransferSession :=
  if session.status.isTerminal then session else { session with status := status }

def fail (session : TransferSession) (reason : AccountTransferFailure) : TransferSession :=
  session.set (.failed session.role reason)

/-- Complete a transfer without the rest of the history. -/
def stopHistory (session : TransferSession) : Option TransferSession :=
  match session.status with
  | .history role accountId posts unavailable =>
    some { session with
      status := .completed role accountId (some ⟨posts, unavailable, some .cancelled⟩) }
  | _ => none

/-- Use the invite, if it has not been used and the proof is right. -/
def consume (blake3 : Blake3) (session : TransferSession) (target proof : Bytes) (nowMs : ℤ) :
    Bool × TransferSession :=
  match session.pairing with
  | none => (false, session)
  | some invite =>
    let valid := !session.consumed && !session.status.isTerminal &&
      decide (nowMs < invite.expiresAtMs) && invite.verifyHello blake3 target proof
    (valid, { session with consumed := session.consumed || valid })

end TransferSession

/-! ### Serving a connection -/

/-- The decision of the user, on its way to the other device. -/
inductive ApprovalStage where
  | waiting
  /-- The decision has been read. -/
  | decided (accepted : Bool)
  | writing (accepted : Bool)
  | delivering (accepted : Bool)
  | done
  deriving DecidableEq

/-- Where the task of a connection waits. -/
inductive SourceStage where
  | hello
  | consume (proof : Bytes)
  | reject
  | accept
  | confirm
  /-- Wait for the user and for the other device. -/
  | confirming (approval : ApprovalStage) (remote : Bool)
  | confirmed
  | sending (sender : BundleSender)
  /-- Show the number of items. -/
  | progress (sender : BundleSender)
  | history
  | completing (history : Option AccountTransferHistoryResult)
  | failing (reason : AccountTransferFailure)
  | finished
  deriving DecidableEq

/-- What the task has been waiting for. -/
inductive SourceInput where
  /-- Nothing, or the value of the session. -/
  | step
  | hello (proof : Option Bytes)
  | clock (nowMs : ℤ)
  | written (ok : Bool)
  | delivered (ok : Bool)
  /-- The stream of the other device has ended with these bytes, or failed. -/
  | answer (bytes : Option Bytes)
  | timeout
  | bundle (closedForStorage : Bool) (input : SenderInput)
  | historyProgress (posts unavailable : ℕ)
  | historyEnded (history : Option AccountTransferHistoryResult)
  /-- The status of the session is terminal. -/
  | ended
  deriving DecidableEq

namespace BundleSender

/-- The number of items that have been written. -/
def count : BundleSender → ℕ
  | page _ count | frames _ _ count | ending count => count
  | _ => 0

/-- The sender writes a frame of items. -/
def writesItems : BundleSender → Bool
  | frames (_ :: _) _ _ => true
  | _ => false

end BundleSender

namespace SourceStage

/-- What follows a step of the sender. -/
def afterSending (before after : BundleSender) : SourceStage :=
  match after with
  | .returned (.ok ()) => history
  | .returned (.error reason) => failing reason
  | after => if before.writesItems then progress after else sending after

/-- The next stage of a task, and what becomes of its session. -/
def step (blake3 : Blake3) (json : FrameJson) (target : Bytes) (session : TransferSession) :
    SourceStage → SourceInput → Option (SourceStage × TransferSession)
  | finished, _ => none
  | failing reason, .step => some (finished, session.fail reason)
  | failing _, _ => none
  | _, .ended => if session.status.isTerminal then some (failing .cancelled, session) else none
  | hello, .hello none => some (finished, session)
  | hello, .hello (some proof) => some (consume proof, session)
  | consume proof, .clock nowMs =>
    let consumed := session.consume blake3 target proof nowMs
    some (if consumed.1 then accept else reject, consumed.2)
  | reject, .written _ => some (finished, session)
  | accept, .written ok => some (if ok then confirm else failing .interrupted, session)
  | confirm, .step =>
    match session.pairing with
    | none => some (failing .invalid, session)
    | some invite =>
      some (confirming .waiting false,
        session.set (.confirming session.role (invite.verificationCode blake3 target) false))
  | confirming .waiting remote, .step =>
    session.decision.map fun accepted => (confirming (.decided accepted) remote, session)
  | confirming (.decided true) remote, .step =>
    match session.pairing with
    | none => none
    | some invite =>
      some (confirming (.writing true) remote,
        session.set (.confirming session.role (invite.verificationCode blake3 target) true))
  | confirming (.decided false) remote, .step =>
    some (confirming (.writing false) remote, session)
  | confirming (.writing accepted) remote, .written ok =>
    some (if ok then confirming (.delivering accepted) remote else failing .interrupted, session)
  | confirming (.delivering accepted) remote, .delivered ok =>
    some (if ¬ accepted then failing .rejected
      else if ok then confirming .done remote else failing .interrupted, session)
  | confirming .done true, .step => some (confirmed, session)
  | confirming approval false, .answer bytes =>
    some (match bytes with
      | none => failing .interrupted
      | some bytes => if bytes = [acceptedByte] then confirming approval true
          else failing .rejected, session)
  | confirming _ _, .timeout => some (failing .expired, session)
  | confirmed, .step =>
    some (if session.source = none then failing .invalid else sending .opening,
      session.set (.transferring session.role 0))
  | sending sender, .bundle closedForStorage input =>
    (sender.step json session.role (session.source.getD "") closedForStorage input).map
      fun (_, after) => (afterSending sender after, session)
  | progress sender, .step =>
    some (sending sender, session.set (.transferring session.role sender.count))
  | history, .historyProgress posts unavailable =>
    some (history, session.set (.history session.role none posts unavailable))
  | history, .historyEnded result => some (completing result, session)
  | completing result, .step =>
    some (finished, session.set (.completed session.role none result))
  | _, _ => none

end SourceStage

/-! ### The device -/

/-- The task of a connection, with the identity of the other device. -/
structure SourceTask where
  remote : Bytes
  session : ℕ
  stage : SourceStage
  deriving DecidableEq

/-- Where a call is that replaces the session. -/
inductive ReplaceStage where
  | swap (session : Option TransferSession)
  | fail (previous : ℕ)
  | decide (previous : ℕ)
  /-- The call has returned, and has replaced this session. -/
  | returned (previous : Option ℕ)
  deriving DecidableEq

/-- What a call does after it has taken the slot. -/
def ReplaceStage.after : Option ℕ → ReplaceStage
  | some previous => fail previous
  | none => returned none

/-- The device. Sessions have the number of the call that has put them into the slot. -/
structure SourceDevice where
  sessions : ℕ → Option TransferSession
  slot : Option ℕ
  /-- A call of `decide` that has checked the status and has the lock of the slot. -/
  deciding : Option Bool
  calls : ℕ → Option ReplaceStage
  tasks : ℕ → Option SourceTask
  permits : ℕ
  /-- The connections of other devices of the account that are being served. -/
  syncing : ℕ

inductive SourceOp where
  | issue (call : ℕ) (issuer : String) (relayUrl : Option String) (directAddrs : List String)
      (secret : Bytes) (nowMs : ℤ) (secretHex : String)
  | openLink (call : ℕ) (invite : AccountTransferInvite)
  | sync (call : ℕ) (nowMs : ℤ) (secretHex : String)
  | cancel (call : ℕ)
  /-- The next step of a call that replaces the session. -/
  | replace (call : ℕ)
  /-- The user decides: the status is checked. -/
  | decide (accept : Bool)
  /-- The decision is written, unless there is one. -/
  | decided
  /-- The tasks of a session that is not a source change its status or use it. -/
  | other (session : ℕ) (status : AccountTransferStatus) (consumed : Bool)
  /-- A connection arrives from a device. -/
  | accept (task : ℕ) (remote : Bytes)
  | acceptSync
  | syncEnded
  | task (task : ℕ) (input : SourceInput)
  deriving DecidableEq

namespace SourceDevice

def start : SourceDevice :=
  ⟨fun _ => none, none, none, fun _ => none, fun _ => none, concurrentRequests, 0⟩

def putSession (device : SourceDevice) (id : ℕ) (session : TransferSession) : SourceDevice :=
  { device with sessions := Function.update device.sessions id (some session) }

def putCall (device : SourceDevice) (call : ℕ) (stage : ReplaceStage) : SourceDevice :=
  { device with calls := Function.update device.calls call (some stage) }

def putTask (device : SourceDevice) (id : ℕ) (task : SourceTask) : SourceDevice :=
  { device with tasks := Function.update device.tasks id (some task) }

/-- The session in the slot. -/
def slotSession (device : SourceDevice) : Option (ℕ × TransferSession) :=
  device.slot.bind fun id => (device.sessions id).map fun session => (id, session)

/-- A new call that goes on to replace the session. -/
def beginCall (device : SourceDevice) (call : ℕ) (session : Option TransferSession) :
    Option SourceDevice :=
  if device.calls call = none then some (device.putCall call (.swap session)) else none

def cancel (device : SourceDevice) (call : ℕ) : Option SourceDevice :=
  if device.calls call = none ∧ device.deciding = none then
    match device.slotSession.bind fun (id, session) =>
        session.stopHistory.map fun session => (id, session) with
    | some (id, session) => some ((device.putSession id session).putCall call (.returned none))
    | none => some (device.putCall call (.swap none))
  else none

/-- The next step of a call that replaces the session: take the slot, end the previous session, and
decide against it. -/
def replace (device : SourceDevice) (call : ℕ) : Option SourceDevice :=
  match device.calls call with
  | some (.swap session) =>
    if device.deciding = none then
      let device' := device.putCall call (.after device.slot)
      some (match session with
        | some session => { device'.putSession call session with slot := some call }
        | none => { device' with slot := none })
    else none
  | some (.fail previous) =>
    (device.sessions previous).map fun session =>
      (device.putSession previous (session.fail .cancelled)).putCall call (.decide previous)
  | some (.decide previous) =>
    (device.sessions previous).map fun session =>
      (device.putSession previous { session with decision := some false }).putCall call
        (.returned (some previous))
  | _ => none

def decide (device : SourceDevice) (accept : Bool) : Option SourceDevice :=
  if device.deciding = none then
    match device.slotSession with
    | some (_, session) =>
      match session.status with
      | .confirming .. => some { device with deciding := some accept }
      | _ => some device
    | none => some device
  else none

def decided (device : SourceDevice) : Option SourceDevice :=
  match device.deciding, device.slotSession with
  | some accept, some (id, session) =>
    some { device.putSession id
        { session with decision := session.decision <|> some accept } with deciding := none }
  | _, _ => none

def accept (device : SourceDevice) (task : ℕ) (remote : Bytes) : Option SourceDevice :=
  if device.tasks task = none ∧ 0 < device.permits ∧ device.deciding = none then
    match device.slotSession with
    | some (id, session) =>
      if session.role = .source then
        some { device.putTask task ⟨remote, id, .hello⟩ with permits := device.permits - 1 }
      else some device
    | none => some device
  else none

/-- A task that has finished gives its permit back. -/
def stepTask (blake3 : Blake3) (json : FrameJson) (device : SourceDevice) (id : ℕ)
    (input : SourceInput) : Option SourceDevice := do
  let task ← device.tasks id
  let session ← device.sessions task.session
  let (stage, session) ← task.stage.step blake3 json task.remote session input
  some { (device.putSession task.session session).putTask id { task with stage := stage } with
    permits := if stage = .finished then device.permits + 1 else device.permits }

def perform (blake3 : Blake3) (json : FrameJson) (device : SourceDevice) :
    SourceOp → Option SourceDevice
  | .issue call issuer relayUrl directAddrs secret nowMs secretHex =>
    match AccountTransferInvite.issue issuer relayUrl directAddrs secret nowMs with
    | .ok invite =>
      device.beginCall call
        (some (.new .source (some invite) (.waiting invite.expiresAtMs) (some secretHex)))
    | .error _ => some device
  | .openLink call invite =>
    device.beginCall call (some (.new .target (some invite) .connecting none))
  | .sync call nowMs secretHex =>
    device.beginCall call
      (some (.new .sync none (.waiting (nowMs + accountTransferInviteTtlMs)) (some secretHex)))
  | .cancel call => device.cancel call
  | .replace call => device.replace call
  | .decide accept => device.decide accept
  | .decided => device.decided
  | .other id status consumed =>
    match device.sessions id with
    | some session =>
      if session.role = .source then none
      else some (device.putSession id { session.set status with consumed := consumed })
    | none => none
  | .accept task remote => device.accept task remote
  | .acceptSync =>
    if 0 < device.permits then
      some { device with permits := device.permits - 1, syncing := device.syncing + 1 }
    else none
  | .syncEnded =>
    if 0 < device.syncing then
      some { device with permits := device.permits + 1, syncing := device.syncing - 1 }
    else none
  | .task id input => device.stepTask blake3 json id input

end SourceDevice

def SourceStep (blake3 : Blake3) (json : FrameJson) (before : SourceDevice) (op : SourceOp)
    (_ : Unit) (after : SourceDevice) : Prop :=
  before.perform blake3 json op = some after

abbrev SourceEvent := Event SourceDevice SourceOp Unit

end Kukuri
