import Kukuri.Core.HostingAuthority

/-!
# A single host

A state that names a host is justified by one lease: `HostedBy`. It is the only lease of the
highest epoch, it is current, accepted and activated, and it was not closed. A close is final
as long as no later lease is issued.
-/

namespace Kukuri

open Result

/-- The state names a host that serves the instance. -/
def DomeHostingState.Hosting (state : DomeHostingState) : Prop :=
  state.kind = .ownerHosted ∨ state.kind = .communityNodeHosted ∨
    state.kind = .gracePeriod ∧ state.host.isSome

/-- The records give the authority to host to this lease, and to no other. -/
structure HostedBy (primitives : HostingPrimitives) (manifest : DomeInstanceManifest)
    (records : List DomeHostingRecord) (nowMillis : ℤ) (state : DomeHostingState)
    (lease : DomeHostingLease) : Prop where
  reported : state.host = some lease.host ∧ state.leaseId = some lease.leaseId ∧
    state.leaseEpoch = some lease.epoch ∧ state.leaseExpiresAt = some lease.expiresAt
  issued : ∃ signed, .leaseIssued signed ∈ records ∧ signed.lease = lease ∧
    verifySignedDomeHostingLease primitives signed manifest = .ok ()
  matching : lease.instanceGeneration = manifest.generation ∧
    lease.manifestVersion = manifest.presetRef.revision
  sole : ∀ signed, .leaseIssued signed ∈ records →
    signed.lease.instanceGeneration = manifest.generation →
    signed.lease.manifestVersion = manifest.presetRef.revision →
      signed.lease = lease ∨ signed.lease.epoch < lease.epoch
  unexpired : nowMillis < lease.expiresAt
  session : ∃ acceptance activation, .hostAccepted acceptance ∈ records ∧
    verifyAcceptance primitives lease acceptance = .ok () ∧
    .leaseActivated activation ∈ records ∧
    verifyActivation primitives lease activation = .ok () ∧
    activation.activation.hostAcceptanceEnvelopeId = acceptance.envelope.id ∧
    state.sessionId = some acceptance.acceptance.sessionId
  notClosed : ∀ close, .leaseClosed close ∈ records →
    ¬ (close.close.leaseEpoch = lease.epoch ∧
      close.close.leaseDigest = primitives.leaseDigest lease)

section

variable {primitives : HostingPrimitives} {manifest : DomeInstanceManifest}
  {records : List DomeHostingRecord} {nowMillis : ℤ} {lastHeartbeatAt : Option ℤ}
  {state : DomeHostingState}

/-! ### Current leases -/

/-- A lease that can carry authority is signed by the owner and matches the instance. -/
theorem checkLease_eq_true {signed : SignedDomeHostingLease}
    (hcheck : checkLease primitives manifest signed = .ok true) :
  verifySignedDomeHostingLease primitives signed manifest = .ok () ∧
    signed.lease.instanceGeneration = manifest.generation ∧
    signed.lease.manifestVersion = manifest.presetRef.revision
  := by
  simp only [checkLease] at hcheck
  split at hcheck
  case isTrue =>
    simp only [bind_eq_ok, pure_eq_ok] at hcheck
    simp at hcheck
  case isFalse =>
    split at hcheck
    case isTrue =>
      simp only [bind_eq_ok, pure_eq_ok] at hcheck
      simp at hcheck
    case isFalse =>
      obtain ⟨_, hverify, -⟩ := bind_eq_ok.mp hcheck
      obtain ⟨_, hvalid, -⟩ := bind_eq_ok.mp hverify
      obtain ⟨_, -, hvalid⟩ := bind_eq_ok.mp hvalid
      obtain ⟨-, hvalid⟩ := bailIf_bind_eq_ok.mp hvalid
      obtain ⟨-, hvalid⟩ := bailIf_bind_eq_ok.mp hvalid
      obtain ⟨hmatch, -⟩ := bailIf_bind_eq_ok.mp hvalid
      simp only [not_or, not_not] at hmatch
      exact ⟨hverify, hmatch.2.2.2.1, hmatch.2.2.2.2.2⟩

/-- A matching lease is not left out as history. -/
theorem checkLease_of_matching {signed : SignedDomeHostingLease} {current : Bool}
    (hcheck : checkLease primitives manifest signed = .ok current)
    (hgeneration : signed.lease.instanceGeneration = manifest.generation)
    (hrevision : signed.lease.manifestVersion = manifest.presetRef.revision) :
  current = true
  := by
  rw [checkLease, if_neg (by omega), if_neg (by omega)] at hcheck
  obtain ⟨_, -, hcurrent⟩ := bind_eq_ok.mp hcheck
  apply (pure_eq_ok.mp hcurrent).symm

/-! ### Hosts -/

theorem activated_reported (lease : DomeHostingLease) (acceptance : DomeHostingAcceptance)
    (nowMillis : ℤ) (lastHeartbeatAt : Option ℤ) :
  (activated lease acceptance nowMillis lastHeartbeatAt).host = some lease.host ∧
    (activated lease acceptance nowMillis lastHeartbeatAt).leaseId = some lease.leaseId ∧
    (activated lease acceptance nowMillis lastHeartbeatAt).leaseEpoch = some lease.epoch ∧
    (activated lease acceptance nowMillis lastHeartbeatAt).leaseExpiresAt = some lease.expiresAt
  := ⟨rfl, rfl, rfl, rfl⟩

/-- Only an activated lease makes a host. -/
theorem HostingAuthority.of_hosting {records : Set DomeHostingRecord}
    (h : HostingAuthority primitives manifest records nowMillis lastHeartbeatAt state)
    (hhosting : state.Hosting) :
  Attached manifest ∧ ∃ lease acceptance, leadingLeases primitives manifest records = {lease} ∧
    nowMillis < lease.expiresAt ∧ ¬ Closed primitives records lease ∧
    Activated primitives records lease acceptance ∧
    state = activated lease acceptance.acceptance nowMillis lastHeartbeatAt
  := by
  cases h with
  | inactive _ | noLease _ _ | splitBrain _ _ _ _ _ _ =>
    simp [DomeHostingState.Hosting, DomeHostingState.closed, Kukuri.splitBrain] at hhosting
  | sole hattached lease hlease _ hphase =>
    cases hphase with
    | expired _ | closed _ _ | waiting _ _ _ =>
      simp [DomeHostingState.Hosting, DomeHostingState.closed, transferring] at hhosting
    | active hcurrent hopen acceptance hactivated _ =>
      exact ⟨hattached, lease, acceptance, hlease, hcurrent, hopen, hactivated, rfl⟩

theorem hostedBy_of_hosting (hfree : CollisionFree primitives {record | record ∈ records})
    (hresolve : resolveDomeHostingState primitives manifest records nowMillis lastHeartbeatAt
      = .ok state) (hhosting : state.Hosting) :
  ∃ lease, HostedBy primitives manifest records nowMillis state lease
  := by
  obtain ⟨hauthority, -, hreadable⟩ := resolveDomeHostingState_authority hfree hresolve
  obtain ⟨hattached, lease, acceptance, hsole, hcurrent, hopen, hactivated, rfl⟩ :=
    hauthority.of_hosting hhosting
  obtain ⟨hleases, hsupports⟩ := hreadable hattached
  have hlease : lease ∈ leadingLeases primitives manifest {record | record ∈ records} := by
    rw [hsole]
    rfl
  obtain ⟨⟨signed, hmem, rfl, hcheck⟩, hleads⟩ := hlease
  obtain ⟨hverify, hmatching⟩ := checkLease_eq_true hcheck
  refine ⟨signed.lease, activated_reported _ _ _ _, ⟨signed, hmem, rfl, hverify⟩, hmatching, ?_,
    hcurrent, ?_, ?_⟩
  · intro other hother hgeneration hrevision
    obtain ⟨current, hcurrent⟩ := hleases other hother
    rw [checkLease_of_matching hcurrent hgeneration hrevision] at hcurrent
    have hother : other.lease ∈ currentLeases primitives manifest {record | record ∈ records} :=
      ⟨other, hother, rfl, hcurrent⟩
    -- A lease of the same epoch would lead as well, and only one does.
    rcases (hleads _ hother).lt_or_eq with hlt | heq
    · apply Or.inr hlt
    · left
      have hleading : other.lease ∈ leadingLeases primitives manifest
          {record | record ∈ records} := by
        refine ⟨hother, ?_⟩
        intro third hthird
        rw [heq]
        apply hleads third hthird
      rw [hsole] at hleading
      apply hleading
  · obtain ⟨haccepted, haccept, activation, hactivation, hactivate, hid⟩ := hactivated
    exact ⟨acceptance, activation, haccepted, haccept, hactivation, hactivate, hid, rfl⟩
  · rintro close hclose ⟨hepoch, hdigest⟩
    apply hopen
    exact ⟨close, hclose, hsupports signed.lease hsole hcurrent _ hclose hepoch hdigest⟩

/-- Under a closed lease the instance is closed. -/
theorem HostingAuthority.kind_of_closed {records : Set DomeHostingRecord}
    (h : HostingAuthority primitives manifest records nowMillis lastHeartbeatAt state)
    {lease : DomeHostingLease} (hsole : leadingLeases primitives manifest records = {lease})
    (hclosed : Closed primitives records lease) :
  state.kind = .closed
  := by
  cases h with
  | inactive _ | noLease _ _ => rfl
  | splitBrain _ _ _ hlease hother hne =>
    rw [hsole, Set.mem_singleton_iff] at hlease hother
    exact absurd (hlease.trans hother.symm) hne
  | sole _ lease' hlease' _ hphase =>
    obtain rfl := Set.singleton_injective (hsole.symm.trans hlease')
    cases hphase with
    | expired _ | closed _ _ => rfl
    | waiting _ hopen _ | active _ hopen _ _ _ => exact absurd hclosed hopen

end

/-- The state of an instance depends on the set of the records only. A host is justified by
the only lease of the highest epoch, and a closed lease does not host again. -/
theorem single_hosting_authority (primitives : HostingPrimitives)
    (manifest : DomeInstanceManifest) (records : List DomeHostingRecord)
    (hfree : CollisionFree primitives {record | record ∈ records}) (nowMillis : ℤ)
    (lastHeartbeatAt : Option ℤ) :
  (∀ records', (∀ record, record ∈ records ↔ record ∈ records') →
      (resolveDomeHostingState primitives manifest records nowMillis lastHeartbeatAt).toOption
        = (resolveDomeHostingState primitives manifest records' nowMillis
            lastHeartbeatAt).toOption) ∧
    (∀ state, resolveDomeHostingState primitives manifest records nowMillis lastHeartbeatAt
        = .ok state → state.Hosting →
      ∃ lease, HostedBy primitives manifest records nowMillis state lease) ∧
    ∀ (earlier : List DomeHostingRecord) (lease : DomeHostingLease)
      (close : SignedDomeHostingClose), (∀ record ∈ earlier, record ∈ records) →
      .leaseClosed close ∈ earlier → verifyClose primitives lease close = .ok () →
      leadingLeases primitives manifest {record | record ∈ records} = {lease} →
      ∀ state, resolveDomeHostingState primitives manifest records nowMillis lastHeartbeatAt
        = .ok state → state.kind = .closed
  := by
  refine ⟨?_, ?_, ?_⟩
  · intro records' hsame
    apply resolveDomeHostingState_congr hfree hsame
  · intro state hresolve hhosting
    apply hostedBy_of_hosting hfree hresolve hhosting
  · intro earlier lease close hearlier hclose hverify hsole state hresolve
    obtain ⟨hauthority, -⟩ := resolveDomeHostingState_authority hfree hresolve
    apply hauthority.kind_of_closed hsole
    exact ⟨close, hearlier _ hclose, hverify⟩

/-! ### An instance with a host -/

namespace Sample

def manifest : DomeInstanceManifest where
  instanceId := "dome"
  spatialContext := .topic "plaza"
  ownerPubkey := "owner"
  presetRef := ⟨"lounge", "owner", 2, "blob", "application/json"⟩
  title := "Lounge"
  maxPeers := none
  defaultSpawn := ⟨⟨0, 0, 0⟩, ⟨0, 0, 0⟩⟩
  generation := 2
  status := .active
  relationshipDetach := none

def lease : DomeHostingLease where
  leaseId := "lease"
  spatialContext := .topic "plaza"
  instanceId := "dome"
  instanceGeneration := 2
  ownerPubkey := "owner"
  host := .ownerDevice "endpoint" "device"
  manifestBlobHash := "blob"
  manifestVersion := 2
  epoch := 1
  issuedAt := 0
  expiresAt := 1000

def acceptance : DomeHostingAcceptance := ⟨"lease", "lease", "dome", 2, 1, "session", 10⟩

def activation : DomeHostingActivation := ⟨"lease", "lease", 1, "acceptance", 20⟩

/-- The digest of an envelope is its content, and everything is a signature. -/
def primitives : HostingPrimitives where
  canonicalEnvelopePayload := fun _ _ _ _ content => content
  sha256Hex := fun text => text
  isSignature := fun _ => true
  isPublicKey := fun _ => true
  verifySchnorr := fun _ _ _ => true
  leaseDigest := fun lease => lease.leaseId
  decodeLease := fun text => if text = "lease" then some lease else none
  decodeAcceptance := fun text => if text = "acceptance" then some acceptance else none
  decodeActivation := fun text => if text = "activation" then some activation else none
  decodeClose := fun _ => none

def envelope (pubkey kind content : String) : KukuriEnvelope :=
  ⟨content, pubkey, 0, kind, [], content, "sig"⟩

def records : List DomeHostingRecord :=
  [.leaseIssued ⟨lease, envelope "owner" leaseKind "lease"⟩,
    .hostAccepted ⟨acceptance, envelope "device" acceptanceKind "acceptance"⟩,
    .leaseActivated ⟨activation, envelope "owner" activationKind "activation"⟩]

theorem collisionFree_records :
  CollisionFree primitives {record | record ∈ records}
  where
  leases := by
    intro left right hleft hright _
    have hleft : left = ⟨lease, envelope "owner" leaseKind "lease"⟩ := by
      simpa [records] using hleft
    have hright : right = ⟨lease, envelope "owner" leaseKind "lease"⟩ := by
      simpa [records] using hright
    rw [hleft, hright]
  acceptances := by
    intro left right hleft hright _
    have hleft : left = ⟨acceptance, envelope "device" acceptanceKind "acceptance"⟩ := by
      simpa [records] using hleft
    have hright : right = ⟨acceptance, envelope "device" acceptanceKind "acceptance"⟩ := by
      simpa [records] using hright
    rw [hleft, hright]
    exact ⟨rfl, rfl, rfl⟩

/-- A lease of an earlier generation for another instance. -/
def historical : DomeHostingRecord :=
  .leaseIssued ⟨{ lease with instanceId := "other", instanceGeneration := 1 },
    envelope "owner" leaseKind "lease"⟩

/-- A lease of an earlier revision for another instance. -/
def stale : DomeHostingRecord :=
  .leaseIssued ⟨{ lease with leaseId := "stale", instanceId := "other", manifestVersion := 1 },
    envelope "owner" leaseKind "lease"⟩

end Sample

/-- The owner's device hosts, and only its lease justifies it. -/
theorem single_hosting_authority_device :
  ∃ state, resolveDomeHostingState Sample.primitives Sample.manifest Sample.records 100
      (some 99) = .ok state ∧ state.kind = .ownerHosted ∧
    ∃ lease, HostedBy Sample.primitives Sample.manifest Sample.records 100 state lease
  := by
  have hok : ∃ state, resolveDomeHostingState Sample.primitives Sample.manifest Sample.records
      100 (some 99) = .ok state ∧ state.kind = .ownerHosted := by
    refine ⟨activated Sample.lease Sample.acceptance 100 (some 99), ?_, ?_⟩
    · decide +kernel
    · decide +kernel
  obtain ⟨state, hresolve, hkind⟩ := hok
  refine ⟨state, hresolve, hkind, ?_⟩
  apply (single_hosting_authority _ _ _ Sample.collisionFree_records _ _).2.1 state hresolve
  apply Or.inl hkind

/-- Of two records that cannot be verified, the first one decides which failure is
reported. -/
theorem exists_failure_by_order :
  [Sample.historical, Sample.stale].Perm [Sample.stale, Sample.historical] ∧
    resolveDomeHostingState Sample.primitives Sample.manifest [Sample.historical, Sample.stale]
      100 none ≠ resolveDomeHostingState Sample.primitives Sample.manifest
        [Sample.stale, Sample.historical] 100 none
  := by
  constructor
  · apply List.Perm.swap
  · decide +kernel

end Kukuri
