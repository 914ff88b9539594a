import Kukuri.Data.Trace
import Kukuri.Metaverse.Session

/-!
# Runs of a session

How a session starts, and the calls that are made to it. A run is a trace of such calls, each
made at some time; calls that take no time do not read it.
-/

namespace Kukuri

open Result

variable {World Handle : Type}

/-! ### Starting -/

def DomeSessionState.empty (physics : Physics World Handle) (startedAt : ℤ) :
    DomeSessionState World Handle where
  participants := ∅
  transitionReservations := ∅
  committedTransitions := ∅
  preparedExits := ∅
  transitionEntries := ∅
  seatedOn := ∅
  inputs := .empty
  participantLastSeenAt := ∅
  bodiesById := ∅
  world := physics.initial
  lastSimulatedAt := startedAt
  playerBudgets := ∅
  rejectionCounts := ∅
  rejectedTotal := 0
  participantHighWater := 0
  rigidBodyHighWater := 0

/-- Put the props of a layout into the session. -/
def insertProps (physics : Physics World Handle) :
    List MetaversePersistentProp → SessionCommand World Handle Unit
  | [] => pure ()
  | prop :: props => do
    insertProp physics prop .persistentProp none none
    insertProps physics props

def startWithBudget (physics : Physics World Handle) (primitives : SessionPrimitives)
    (lease : SignedDomeHostingLease) (hostPubkey : Pubkey) (manifest : DomeInstanceManifest)
    (preset : DomePresetManifest) (sessionId : String) (startedAt : ℤ)
    (budget : MetaverseResourceBudgetConfig) :
    Except SessionError (DomeSession × DomeSessionState World Handle) := do
  orFail budget.validate
  orFail (validateDomeInstanceManifest manifest)
  orFail (validateDomePresetManifest preset)
  let _ ← validateDomeAssetBudget preset.assetRefs budget
  let persistentProps := preset.customization.persistentProps.length
  checkLimit .dome .persistentProps persistentProps budget.dome.maxPersistentProps
  checkLimit .dome .colliders persistentProps budget.dome.maxColliders
  checkLimit .dome .rigidBodies persistentProps budget.dome.maxRigidBodies
  checkLimit .host .rigidBodies persistentProps budget.host.maxSimulatedRigidBodies
  orFail (verifySignedDomeHostingLease primitives.toHostingPrimitives lease manifest)
  orFail (bailIf (lease.lease.host.signingPubkey ≠ hostPubkey)
    "Dome session host key does not match lease target")
  orFail (bailIf (manifest.presetRef.presetId ≠ preset.presetId ∨
      manifest.presetRef.manifestBlobHash ≠ lease.lease.manifestBlobHash ∨
      startedAt < lease.lease.issuedAt ∨ lease.lease.expiresAt ≤ startedAt)
    "Dome session manifest or start time does not match lease")
  orFail (bailIf (isBlank sessionId) "Dome session id is required")
  let session : DomeSession := {
    lease := lease.lease
    sessionId, budget
    verifiedAssets := preset.assetRefs.foldl (fun assets asset =>
      assets.insert asset.blobHash asset) ∅
    participantLimit :=
      min (manifest.maxPeers.getD budget.host.maxParticipants) budget.host.maxParticipants
    defaultSpawn := manifest.defaultSpawn }
  match insertProps physics preset.customization.persistentProps
      (DomeSessionState.empty physics startedAt) with
  | (.ok (), state) => return (session, state)
  | (.error error, _) => .error error

/-! ### Calls -/

inductive SessionCall where
  | applySignedInput (signed : SignedDomeSessionInput)
  | prepareTransitionAdmission (request : DomeTransitionAdmissionRequest)
      (access : DomeTransitionAccessDecision)
  | commitTransitionAdmission (ticket : DomeTransitionAdmissionTicket) (position rotation : Vec3)
  | abortTransitionAdmission (transitionId : String) (participantPubkey : Pubkey)
  | evictParticipant (participantPubkey : Pubkey)
  | revokeTransitionAccess (participantPubkey : Pubkey) (connectionId : Option String)
  | drainConnection (connectionId : String)
  | advanceTo
  deriving DecidableEq, Repr

/-- A call and the time at which it is made. -/
structure TimedCall where
  nowMillis : ℤ
  call : SessionCall
  deriving DecidableEq, Repr

inductive SessionReply where
  | done
  | ticket (ticket : DomeTransitionAdmissionTicket)
  | evicted (evicted : Bool)
  | count (count : ℕ)
  deriving DecidableEq, Repr

/-- A call that cannot fail. -/
def answer {α : Type} (reply : α → SessionReply)
    (f : DomeSessionState World Handle → α × DomeSessionState World Handle) :
    SessionCommand World Handle SessionReply :=
  fun state => (.ok (reply (f state).1), (f state).2)

def TimedCall.perform (physics : Physics World Handle) (primitives : SessionPrimitives)
    (session : DomeSession) (timed : TimedCall) : SessionCommand World Handle SessionReply :=
  match timed.call with
  | .applySignedInput signed => do
    applySignedInputAt physics primitives session signed timed.nowMillis
    return .done
  | .prepareTransitionAdmission request access => do
    let ticket ← prepareTransitionAdmission session request access timed.nowMillis
    return .ticket ticket
  | .commitTransitionAdmission ticket position rotation => do
    commitTransitionAdmission physics session ticket position rotation timed.nowMillis
    return .done
  | .abortTransitionAdmission transitionId participantPubkey => do
    abortTransitionAdmission transitionId participantPubkey timed.nowMillis
    return .done
  | .evictParticipant participantPubkey =>
    answer .evicted (evictParticipant physics session participantPubkey)
  | .revokeTransitionAccess participantPubkey connectionId =>
    answer .count (revokeTransitionAccess participantPubkey connectionId)
  | .drainConnection connectionId => answer .count (drainConnection connectionId)
  | .advanceTo => do
    advanceTo physics session timed.nowMillis
    return .done

/-- The reply to a call, or how it failed. -/
abbrev SessionResult := Except SessionError SessionReply

/-- One call of a session. -/
def SessionStep (physics : Physics World Handle) (primitives : SessionPrimitives)
    (session : DomeSession) (before : DomeSessionState World Handle) (timed : TimedCall)
    (result : SessionResult) (after : DomeSessionState World Handle) : Prop :=
  timed.perform physics primitives session before = (result, after)

abbrev SessionEvent (World Handle : Type) :=
  Event (DomeSessionState World Handle) TimedCall SessionResult

/-! ### Runs -/

/-- The state after a list of calls. -/
def runCalls (physics : Physics World Handle) (primitives : SessionPrimitives)
    (session : DomeSession) (state : DomeSessionState World Handle) :
    List TimedCall → DomeSessionState World Handle
  | [] => state
  | timed :: calls =>
    runCalls physics primitives session (timed.perform physics primitives session state).2 calls

/-- The events of a list of calls. -/
def runEvents (physics : Physics World Handle) (primitives : SessionPrimitives)
    (session : DomeSession) (state : DomeSessionState World Handle) :
    List TimedCall → List (SessionEvent World Handle)
  | [] => []
  | timed :: calls =>
    let outcome := timed.perform physics primitives session state
    ⟨state, timed, outcome.1, outcome.2⟩ :: runEvents physics primitives session outcome.2 calls

theorem trace_runEvents (physics : Physics World Handle) (primitives : SessionPrimitives)
    (session : DomeSession) (state : DomeSessionState World Handle) (calls : List TimedCall) :
  Trace (SessionStep physics primitives session) state
    (runEvents physics primitives session state calls)
    (runCalls physics primitives session state calls)
  := by
  induction calls generalizing state with
  | nil => apply Trace.nil
  | cons timed calls ih =>
    have hfirst : Trace (SessionStep physics primitives session) state
        ([] ++ [⟨state, timed, (timed.perform physics primitives session state).1,
          (timed.perform physics primitives session state).2⟩])
        (timed.perform physics primitives session state).2 := Trace.nil.snoc rfl
    apply hfirst.append (ih _)

end Kukuri
