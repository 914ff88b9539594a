import Kukuri.Core.Envelope
import Kukuri.Data.Machine

/-!
# Hosting of a Dome

The owner of an instance issues a lease to a host, the host accepts it, the owner activates
the acceptance and may close the lease. Every observer derives the hosting state from the
records it has seen: `resolveDomeHostingState`.
-/

namespace Kukuri

open Result

def domeHostingMaxLeaseMillis : ℤ := 30 * 24 * 60 * 60 * 1000
def domeHostHeartbeatIntervalMillis : ℤ := 5000
def domeHostingHeartbeatGraceMillis : ℤ := 15000

def leaseKind : String := "dome-hosting-lease"
def acceptanceKind : String := "dome-hosting-acceptance"
def activationKind : String := "dome-hosting-activation"
def closeKind : String := "dome-hosting-close"

/-! ### Records -/

inductive DomeHostTarget where
  | ownerDevice (endpointId : String) (hostPubkey : Pubkey)
  | communityNode (nodeId : Pubkey) (apiBaseUrl : String)
  deriving DecidableEq, Repr

namespace DomeHostTarget

def signingPubkey : DomeHostTarget → Pubkey
  | ownerDevice _ hostPubkey => hostPubkey
  | communityNode nodeId _ => nodeId

/-- Whether the text starts with the given one. -/
def startsWith (text start : String) : Bool := start.toList.isPrefixOf text.toList

def validate : DomeHostTarget → Result Unit
  | ownerDevice endpointId hostPubkey =>
    bailIf (isBlank endpointId ∨ isBlank hostPubkey) "owner device hosting target is incomplete"
  | communityNode nodeId apiBaseUrl =>
    bailIf (isBlank nodeId ∨ ¬ (startsWith apiBaseUrl "https://" ∨
        startsWith apiBaseUrl "http://localhost" ∨ startsWith apiBaseUrl "http://127.0.0.1"))
      "Community Node hosting target is invalid"

end DomeHostTarget

structure DomeHostingLease where
  leaseId : String
  spatialContext : SpatialContext
  instanceId : String
  instanceGeneration : ℕ
  ownerPubkey : Pubkey
  host : DomeHostTarget
  manifestBlobHash : String
  manifestVersion : ℕ
  epoch : ℕ
  issuedAt : ℤ
  expiresAt : ℤ
  deriving DecidableEq, Repr

structure SignedDomeHostingLease where
  lease : DomeHostingLease
  envelope : KukuriEnvelope
  deriving DecidableEq, Repr

structure DomeHostingAcceptance where
  leaseId : String
  leaseDigest : String
  instanceId : String
  instanceGeneration : ℕ
  leaseEpoch : ℕ
  sessionId : String
  acceptedAt : ℤ
  deriving DecidableEq, Repr

structure SignedDomeHostingAcceptance where
  acceptance : DomeHostingAcceptance
  envelope : KukuriEnvelope
  deriving DecidableEq, Repr

structure DomeHostingActivation where
  leaseId : String
  leaseDigest : String
  leaseEpoch : ℕ
  hostAcceptanceEnvelopeId : String
  activatedAt : ℤ
  deriving DecidableEq, Repr

structure SignedDomeHostingActivation where
  activation : DomeHostingActivation
  envelope : KukuriEnvelope
  deriving DecidableEq, Repr

structure DomeHostingClose where
  leaseId : String
  leaseDigest : String
  leaseEpoch : ℕ
  closedAt : ℤ
  deriving DecidableEq, Repr

structure SignedDomeHostingClose where
  close : DomeHostingClose
  envelope : KukuriEnvelope
  deriving DecidableEq, Repr

inductive DomeHostingRecord where
  | leaseIssued (signed : SignedDomeHostingLease)
  | hostAccepted (acceptance : SignedDomeHostingAcceptance)
  | leaseActivated (activation : SignedDomeHostingActivation)
  | leaseClosed (close : SignedDomeHostingClose)
  deriving DecidableEq, Repr

/-- The operations of other libraries that hosting records are verified with. -/
structure HostingPrimitives extends EnvelopePrimitives where
  /-- The BLAKE3 digest of the JSON text of a lease. -/
  leaseDigest : DomeHostingLease → String
  decodeLease : String → Option DomeHostingLease
  decodeAcceptance : String → Option DomeHostingAcceptance
  decodeActivation : String → Option DomeHostingActivation
  decodeClose : String → Option DomeHostingClose

/-! ### States -/

inductive DomeHostingStateKind where
  | closed | ownerHosted | communityNodeHosted | gracePeriod | transferring
  deriving DecidableEq, Repr

structure DomeHostingState where
  kind : DomeHostingStateKind
  host : Option DomeHostTarget
  leaseId : Option String
  leaseEpoch : Option ℕ
  leaseExpiresAt : Option ℤ
  sessionId : Option String
  reason : Option String
  lastHeartbeatAt : Option ℤ
  deriving DecidableEq, Repr

/-- The state `DomeHostingStateV1::closed`. -/
def DomeHostingState.closed (reason : String) : DomeHostingState where
  kind := .closed
  host := none
  leaseId := none
  leaseEpoch := none
  leaseExpiresAt := none
  sessionId := none
  reason := some reason
  lastHeartbeatAt := none

inductive DomeHostLiveness where
  | online | offlineGrace | closed
  deriving DecidableEq, Repr

def resolveDomeHostLiveness (lastHeartbeatAt : Option ℤ) (nowMillis : ℤ) : DomeHostLiveness :=
  match lastHeartbeatAt with
  | none => .offlineGrace
  | some lastHeartbeatAt =>
    let age := I64.saturatingSub nowMillis lastHeartbeatAt
    if domeHostingHeartbeatGraceMillis < age then .closed
    else if domeHostHeartbeatIntervalMillis < age then .offlineGrace
    else .online

/-! ### Checks -/

def validateDomeHostingLease (lease : DomeHostingLease) (manifest : DomeInstanceManifest) :
    Result Unit := do
  validateDomeInstanceManifest manifest
  bailIf (manifest.status ≠ .active ∨ manifest.relationshipDetach.isSome)
    "Dome Hosting Lease requires an active attached instance"
  bailIf (isBlank lease.leaseId ∨ isBlank lease.instanceId ∨ isBlank lease.manifestBlobHash ∨
      lease.instanceGeneration = 0 ∨ lease.manifestVersion = 0 ∨ lease.epoch = 0)
    "Dome Hosting Lease identity is incomplete"
  bailIf (lease.ownerPubkey ≠ manifest.ownerPubkey ∨
      lease.spatialContext ≠ manifest.spatialContext ∨ lease.instanceId ≠ manifest.instanceId ∨
      lease.instanceGeneration ≠ manifest.generation ∨
      lease.manifestBlobHash ≠ manifest.presetRef.manifestBlobHash ∨
      lease.manifestVersion ≠ manifest.presetRef.revision)
    "Dome Hosting Lease does not match the current instance"
  bailIf (lease.expiresAt ≤ lease.issuedAt ∨
      domeHostingMaxLeaseMillis < I64.wrappingSub lease.expiresAt lease.issuedAt)
    "Dome Hosting Lease expiry is outside the supported range"
  lease.host.validate

section

variable (primitives : HostingPrimitives)

/-- Whether the owner named in the lease has signed it. -/
def verifyLeaseEnvelope (signed : SignedDomeHostingLease) : Result Unit :=
  verifyEnvelopeContent primitives.toEnvelopePrimitives primitives.decodeLease signed.envelope
    leaseKind signed.lease.ownerPubkey signed.lease

def verifySignedDomeHostingLease (signed : SignedDomeHostingLease)
    (manifest : DomeInstanceManifest) : Result Unit := do
  validateDomeHostingLease signed.lease manifest
  verifyLeaseEnvelope primitives signed

/-- Of the signed lease only the lease is read, here and in the checks below. -/
def verifyAcceptance (lease : DomeHostingLease)
    (acceptance : SignedDomeHostingAcceptance) : Result Unit := do
  let content := acceptance.acceptance
  bailIf (content.leaseId ≠ lease.leaseId ∨
      content.leaseDigest ≠ primitives.leaseDigest lease ∨
      content.instanceId ≠ lease.instanceId ∨
      content.instanceGeneration ≠ lease.instanceGeneration ∨
      content.leaseEpoch ≠ lease.epoch ∨ isBlank content.sessionId ∨
      content.acceptedAt < lease.issuedAt ∨ lease.expiresAt ≤ content.acceptedAt)
    "Dome host acceptance does not match lease"
  verifyEnvelopeContent primitives.toEnvelopePrimitives primitives.decodeAcceptance
    acceptance.envelope acceptanceKind lease.host.signingPubkey content

def verifyActivation (lease : DomeHostingLease)
    (activation : SignedDomeHostingActivation) : Result Unit := do
  let content := activation.activation
  bailIf (content.leaseId ≠ lease.leaseId ∨
      content.leaseDigest ≠ primitives.leaseDigest lease ∨
      content.leaseEpoch ≠ lease.epoch ∨ isBlank content.hostAcceptanceEnvelopeId ∨
      content.activatedAt < lease.issuedAt ∨ lease.expiresAt ≤ content.activatedAt)
    "Dome Hosting activation does not match lease"
  verifyEnvelopeContent primitives.toEnvelopePrimitives primitives.decodeActivation
    activation.envelope activationKind lease.ownerPubkey content

def verifyClose (lease : DomeHostingLease) (close : SignedDomeHostingClose) :
    Result Unit := do
  let content := close.close
  bailIf (content.leaseId ≠ lease.leaseId ∨
      content.leaseDigest ≠ primitives.leaseDigest lease ∨
      content.leaseEpoch ≠ lease.epoch ∨ content.closedAt < lease.issuedAt)
    "Dome Hosting close does not match lease"
  verifyEnvelopeContent primitives.toEnvelopePrimitives primitives.decodeClose close.envelope
    closeKind lease.ownerPubkey content

/-! ### Resolution -/

/-- The leases of the current instance, by epoch and digest. -/
abbrev LeasesByEpoch := BTreeMap ℕ (BTreeMap String SignedDomeHostingLease)

/-- Whether a lease can carry authority. Leases of earlier generations and revisions are
authenticated and left out. -/
def checkLease (manifest : DomeInstanceManifest) (signed : SignedDomeHostingLease) :
    Result Bool := do
  if signed.lease.instanceGeneration < manifest.generation then
    bailIf (signed.lease.instanceId ≠ manifest.instanceId ∨
        signed.lease.ownerPubkey ≠ manifest.ownerPubkey ∨
        signed.lease.spatialContext ≠ manifest.spatialContext)
      "historical Dome lease identity mismatch"
    verifyLeaseEnvelope primitives signed
    return false
  else if signed.lease.manifestVersion < manifest.presetRef.revision then
    bailIf (signed.lease.instanceId ≠ manifest.instanceId ∨
        signed.lease.instanceGeneration ≠ manifest.generation ∨
        signed.lease.ownerPubkey ≠ manifest.ownerPubkey ∨
        signed.lease.spatialContext ≠ manifest.spatialContext)
      "stale Dome Hosting Lease identity does not match the instance"
    verifyLeaseEnvelope primitives signed
    return false
  else
    verifySignedDomeHostingLease primitives signed manifest
    return true

/-- One record of the loop that collects the leases. -/
def collectLease (manifest : DomeInstanceManifest) (leasesByEpoch : LeasesByEpoch) :
    DomeHostingRecord → Result LeasesByEpoch
  | .leaseIssued signed => do
    let current ← checkLease primitives manifest signed
    if current then
      let leases := leasesByEpoch[signed.lease.epoch]?.getD ∅
      return leasesByEpoch.insert signed.lease.epoch
        (leases.insert (primitives.leaseDigest signed.lease) signed)
    else
      return leasesByEpoch
  | _ => return leasesByEpoch

/-- What the records say about one lease. -/
structure LeaseEvidence where
  acceptances : BTreeMap String SignedDomeHostingAcceptance
  activationIds : BTreeSet String
  closed : Bool

/-- One record of the loop that collects what was said about the lease. -/
def collectEvidence (lease : DomeHostingLease) (epoch : ℕ) (digest : String)
    (evidence : LeaseEvidence) : DomeHostingRecord → Result LeaseEvidence
  | .hostAccepted acceptance => do
    if acceptance.acceptance.leaseEpoch = epoch ∧ acceptance.acceptance.leaseDigest = digest then
      verifyAcceptance primitives lease acceptance
      return { evidence with
        acceptances := evidence.acceptances.insert acceptance.envelope.id acceptance }
    else
      return evidence
  | .leaseActivated activation => do
    if activation.activation.leaseEpoch = epoch ∧ activation.activation.leaseDigest = digest then
      verifyActivation primitives lease activation
      return { evidence with
        activationIds :=
          evidence.activationIds.insert activation.activation.hostAcceptanceEnvelopeId }
    else
      return evidence
  | .leaseClosed close => do
    if close.close.leaseEpoch = epoch ∧ close.close.leaseDigest = digest then
      verifyClose primitives lease close
      return { evidence with closed := true }
    else
      return evidence
  | .leaseIssued _ => return evidence

/-- Several leases have the highest epoch. -/
def splitBrain (epoch : ℕ) (lastHeartbeatAt : Option ℤ) : DomeHostingState where
  kind := .gracePeriod
  host := none
  leaseId := none
  leaseEpoch := some epoch
  leaseExpiresAt := none
  sessionId := none
  reason := some "split_brain"
  lastHeartbeatAt := lastHeartbeatAt

/-- The lease waits for its activation. -/
def transferring (lease : DomeHostingLease) (lastHeartbeatAt : Option ℤ) :
    DomeHostingState where
  kind := .transferring
  host := some lease.host
  leaseId := some lease.leaseId
  leaseEpoch := some lease.epoch
  leaseExpiresAt := some lease.expiresAt
  sessionId := none
  reason := some "awaiting_activation"
  lastHeartbeatAt := lastHeartbeatAt

/-- The state under an activated acceptance. -/
def activated (lease : DomeHostingLease) (acceptance : DomeHostingAcceptance) (nowMillis : ℤ)
    (lastHeartbeatAt : Option ℤ) : DomeHostingState :=
  let liveness := resolveDomeHostLiveness lastHeartbeatAt nowMillis
  { kind :=
      match liveness with
      | .closed => .closed
      | .offlineGrace => .gracePeriod
      | .online =>
        match lease.host with
        | .ownerDevice _ _ => .ownerHosted
        | .communityNode _ _ => .communityNodeHosted
    host := some lease.host
    leaseId := some lease.leaseId
    leaseEpoch := some lease.epoch
    leaseExpiresAt := some lease.expiresAt
    sessionId := some acceptance.sessionId
    reason :=
      match liveness with
      | .closed => some "heartbeat_timeout"
      | .offlineGrace => some "heartbeat_missing"
      | .online => none
    lastHeartbeatAt }

/-- The state under the only lease of the highest epoch. -/
def resolveLease (records : List DomeHostingRecord) (epoch : ℕ) (lease : DomeHostingLease)
    (nowMillis : ℤ) (lastHeartbeatAt : Option ℤ) : Result DomeHostingState := do
  let digest := primitives.leaseDigest lease
  if lease.expiresAt ≤ nowMillis then
    return .closed "lease_expired"
  else
    let evidence ← records.foldlM (collectEvidence primitives lease epoch digest) ⟨∅, ∅, false⟩
    if evidence.closed then
      return .closed "owner_closed"
    else
      match evidence.activationIds.toList.findSome? fun id => evidence.acceptances[id]? with
      | none => return transferring lease lastHeartbeatAt
      | some acceptance =>
        return activated lease acceptance.acceptance nowMillis lastHeartbeatAt

def resolveDomeHostingState (manifest : DomeInstanceManifest) (records : List DomeHostingRecord)
    (nowMillis : ℤ) (lastHeartbeatAt : Option ℤ) : Result DomeHostingState := do
  validateDomeInstanceManifest manifest
  if manifest.status ≠ .active ∨ manifest.relationshipDetach.isSome then
    return .closed "instance_inactive"
  else
    let leasesByEpoch ← records.foldlM (collectLease primitives manifest) ∅
    match BTreeMap.lastKeyValue leasesByEpoch with
    | none => return .closed "no_lease"
    | some (epoch, leases) =>
      if leases.size ≠ 1 then
        return splitBrain epoch lastHeartbeatAt
      else
        let signed ← expect (leases.toList.map Prod.snd).head? "one lease was checked above"
        resolveLease primitives records epoch signed.lease nowMillis lastHeartbeatAt

end

end Kukuri
