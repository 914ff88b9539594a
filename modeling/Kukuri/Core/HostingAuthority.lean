import Kukuri.Core.Hosting

/-!
# The authority to host

What the hosting records mean, as a set: `HostingAuthority` derives the state of an instance
from the leases of the highest epoch and from what was said about the only one of them. The
resolution of a list of records arrives at that state (`resolveDomeHostingState_authority`),
and succeeds when all records that matter can be verified (`Readable`). Both speak of the
records as a set, so neither their order nor their multiplicity has an influence.
-/

namespace Kukuri

open Result List Std.ExtTreeSet BTreeMap LeaseEvidence

/-! ### The meaning of the records -/

section

variable (primitives : HostingPrimitives) (manifest : DomeInstanceManifest)
  (records : Set DomeHostingRecord)

/-- The instance can be hosted at all. -/
def Attached (manifest : DomeInstanceManifest) : Prop :=
  manifest.status = .active ∧ manifest.relationshipDetach = none

/-- The leases that can carry authority. -/
def currentLeases : Set DomeHostingLease :=
  {lease | ∃ signed, .leaseIssued signed ∈ records ∧ signed.lease = lease ∧
    checkLease primitives manifest signed = .ok true}

/-- The current leases of the highest epoch. -/
def leadingLeases : Set DomeHostingLease :=
  {lease | lease ∈ currentLeases primitives manifest records ∧
    ∀ other ∈ currentLeases primitives manifest records, other.epoch ≤ lease.epoch}

/-- The owner has closed the lease. -/
def Closed (lease : DomeHostingLease) : Prop :=
  ∃ close, .leaseClosed close ∈ records ∧ verifyClose primitives lease close = .ok ()

/-- The host has accepted the lease and the owner has activated this acceptance. -/
def Activated (lease : DomeHostingLease) (acceptance : SignedDomeHostingAcceptance) : Prop :=
  .hostAccepted acceptance ∈ records ∧ verifyAcceptance primitives lease acceptance = .ok () ∧
    ∃ activation, .leaseActivated activation ∈ records ∧
      verifyActivation primitives lease activation = .ok () ∧
      activation.activation.hostAcceptanceEnvelopeId = acceptance.envelope.id

variable (nowMillis : ℤ) (lastHeartbeatAt : Option ℤ)

/-- The state under a lease, by what was said about it. -/
inductive LeasePhase (lease : DomeHostingLease) : DomeHostingState → Prop where
  | expired (hexpired : lease.expiresAt ≤ nowMillis) :
    LeasePhase lease (.closed "lease_expired")
  | closed (hcurrent : nowMillis < lease.expiresAt) (hclosed : Closed primitives records lease) :
    LeasePhase lease (.closed "owner_closed")
  | waiting (hcurrent : nowMillis < lease.expiresAt)
    (hopen : ¬ Closed primitives records lease)
    (hnone : ∀ acceptance, ¬ Activated primitives records lease acceptance) :
    LeasePhase lease (transferring lease lastHeartbeatAt)
  | active (hcurrent : nowMillis < lease.expiresAt) (hopen : ¬ Closed primitives records lease)
    (acceptance : SignedDomeHostingAcceptance)
    (hactivated : Activated primitives records lease acceptance)
    (hleast : ∀ other, Activated primitives records lease other →
      acceptance.envelope.id ≤ other.envelope.id) :
    LeasePhase lease (activated lease acceptance.acceptance nowMillis lastHeartbeatAt)

/-- The state of an instance. -/
inductive HostingAuthority : DomeHostingState → Prop where
  | inactive (hdetached : ¬ Attached manifest) : HostingAuthority (.closed "instance_inactive")
  | noLease (hattached : Attached manifest)
    (hnone : leadingLeases primitives manifest records = ∅) :
    HostingAuthority (.closed "no_lease")
  | splitBrain (hattached : Attached manifest) (lease other : DomeHostingLease)
    (hlease : lease ∈ leadingLeases primitives manifest records)
    (hother : other ∈ leadingLeases primitives manifest records) (hne : lease ≠ other) :
    HostingAuthority (splitBrain lease.epoch lastHeartbeatAt)
  | sole (hattached : Attached manifest) (lease : DomeHostingLease)
    (hlease : leadingLeases primitives manifest records = {lease}) (state : DomeHostingState)
    (hphase : LeasePhase primitives records nowMillis lastHeartbeatAt lease state) :
    HostingAuthority state

/-- A record that names the lease can be verified. -/
def Supports (lease : DomeHostingLease) : DomeHostingRecord → Prop
  | .leaseIssued _ => True
  | .hostAccepted acceptance =>
    acceptance.acceptance.leaseEpoch = lease.epoch →
      acceptance.acceptance.leaseDigest = primitives.leaseDigest lease →
        verifyAcceptance primitives lease acceptance = .ok ()
  | .leaseActivated activation =>
    activation.activation.leaseEpoch = lease.epoch →
      activation.activation.leaseDigest = primitives.leaseDigest lease →
        verifyActivation primitives lease activation = .ok ()
  | .leaseClosed close =>
    close.close.leaseEpoch = lease.epoch →
      close.close.leaseDigest = primitives.leaseDigest lease →
        verifyClose primitives lease close = .ok ()

/-- All records that matter can be verified. -/
def Readable : Prop :=
  validateDomeInstanceManifest manifest = .ok () ∧
    (Attached manifest →
      (∀ signed, .leaseIssued signed ∈ records →
        ∃ current, checkLease primitives manifest signed = .ok current) ∧
      ∀ lease, leadingLeases primitives manifest records = {lease} →
        nowMillis < lease.expiresAt → ∀ record ∈ records, Supports primitives lease record)

/-- Different leases have different digests, and different acceptances have different
identifiers. -/
structure CollisionFree : Prop where
  leases : ∀ left right, .leaseIssued left ∈ records → .leaseIssued right ∈ records →
    primitives.leaseDigest left.lease = primitives.leaseDigest right.lease →
      left.lease = right.lease
  acceptances : ∀ left right, .hostAccepted left ∈ records → .hostAccepted right ∈ records →
    primitives.Binds left.envelope right.envelope

end

section

variable {primitives : HostingPrimitives} {manifest : DomeInstanceManifest}
  {records : Set DomeHostingRecord} {nowMillis : ℤ} {lastHeartbeatAt : Option ℤ}

variable {record : DomeHostingRecord} {lease : DomeHostingLease} {done : List DomeHostingRecord}
  {acceptance : SignedDomeHostingAcceptance} {leasesByEpoch leasesByEpoch' : LeasesByEpoch}
  {state state' : DomeHostingState}

/-! ### Verified records -/

theorem verifyAcceptance_eq_ok (hverify : verifyAcceptance primitives lease acceptance = .ok ()) :
  acceptance.acceptance.leaseEpoch = lease.epoch ∧
    acceptance.acceptance.leaseDigest = primitives.leaseDigest lease ∧
    verifyEnvelopeContent primitives.toEnvelopePrimitives primitives.decodeAcceptance
      acceptance.envelope acceptanceKind lease.host.signingPubkey acceptance.acceptance = .ok ()
  := by
  obtain ⟨hmatch, henvelope⟩ := bailIf_bind_eq_ok.mp hverify
  simp only [not_or, not_not] at hmatch
  exact ⟨hmatch.2.2.2.2.1, hmatch.2.1, henvelope⟩

theorem verifyActivation_eq_ok {activation : SignedDomeHostingActivation}
    (hverify : verifyActivation primitives lease activation = .ok ()) :
  activation.activation.leaseEpoch = lease.epoch ∧
    activation.activation.leaseDigest = primitives.leaseDigest lease
  := by
  obtain ⟨hmatch, -⟩ := bailIf_bind_eq_ok.mp hverify
  simp only [not_or, not_not] at hmatch
  exact ⟨hmatch.2.2.1, hmatch.2.1⟩

theorem verifyClose_eq_ok {close : SignedDomeHostingClose}
    (hverify : verifyClose primitives lease close = .ok ()) :
  close.close.leaseEpoch = lease.epoch ∧
    close.close.leaseDigest = primitives.leaseDigest lease
  := by
  obtain ⟨hmatch, -⟩ := bailIf_bind_eq_ok.mp hverify
  simp only [not_or, not_not] at hmatch
  exact ⟨hmatch.2.2.1, hmatch.2.1⟩

/-! ### One meaning -/

theorem LeasePhase.unique (hfree : CollisionFree primitives records)
    (h : LeasePhase primitives records nowMillis lastHeartbeatAt lease state)
    (h' : LeasePhase primitives records nowMillis lastHeartbeatAt lease state') :
  state = state'
  := by
  cases h with
  | expired hexpired =>
    cases h' with
    | expired _ => rfl
    | closed hcurrent _ | waiting hcurrent _ _ | active hcurrent _ _ _ _ =>
      exact absurd hcurrent (not_lt.mpr hexpired)
  | closed hcurrent hclosed =>
    cases h' with
    | expired hexpired => exact absurd hcurrent (not_lt.mpr hexpired)
    | closed _ _ => rfl
    | waiting _ hopen _ | active _ hopen _ _ _ => exact absurd hclosed hopen
  | waiting hcurrent hopen hnone =>
    cases h' with
    | expired hexpired => exact absurd hcurrent (not_lt.mpr hexpired)
    | closed _ hclosed => exact absurd hclosed hopen
    | waiting _ _ _ => rfl
    | active _ _ acceptance hactivated _ => exact absurd hactivated (hnone acceptance)
  | active hcurrent hopen acceptance hactivated hleast =>
    cases h' with
    | expired hexpired => exact absurd hcurrent (not_lt.mpr hexpired)
    | closed _ hclosed => exact absurd hclosed hopen
    | waiting _ _ hnone => exact absurd hactivated (hnone acceptance)
    | active _ _ acceptance' hactivated' hleast' =>
      -- Both are least, and the identifier determines the content.
      have hid := le_antisymm (hleast _ hactivated') (hleast' _ hactivated)
      obtain ⟨hmem, hverify, -⟩ := hactivated
      obtain ⟨hmem', hverify', -⟩ := hactivated'
      have hcontent := content_eq_of_id_eq (hfree.acceptances _ _ hmem hmem')
        (verifyAcceptance_eq_ok hverify).2.2 (verifyAcceptance_eq_ok hverify').2.2 hid
      rw [hcontent]

theorem HostingAuthority.unique (hfree : CollisionFree primitives records)
    (h : HostingAuthority primitives manifest records nowMillis lastHeartbeatAt state)
    (h' : HostingAuthority primitives manifest records nowMillis lastHeartbeatAt state') :
  state = state'
  := by
  cases h with
  | inactive hdetached =>
    cases h' with
    | inactive _ => rfl
    | noLease hattached _ | splitBrain hattached _ _ _ _ _ | sole hattached _ _ _ _ =>
      exact absurd hattached hdetached
  | noLease hattached hnone =>
    cases h' with
    | inactive hdetached => exact absurd hattached hdetached
    | noLease _ _ => rfl
    | splitBrain _ _ _ hlease _ _ | sole _ _ hlease _ _ => simp [hnone] at hlease
  | splitBrain hattached lease other hlease hother hne =>
    cases h' with
    | inactive hdetached => exact absurd hattached hdetached
    | noLease _ hnone => simp [hnone] at hlease
    | splitBrain _ lease' _ hlease' _ _ =>
      rw [le_antisymm (hlease'.2 _ hlease.1) (hlease.2 _ hlease'.1)]
    | sole _ _ hsole _ _ =>
      rw [hsole, Set.mem_singleton_iff] at hlease hother
      exact absurd (hlease.trans hother.symm) hne
  | sole hattached lease hlease state hphase =>
    cases h' with
    | inactive hdetached => exact absurd hattached hdetached
    | noLease _ hnone => simp [hnone] at hlease
    | splitBrain _ _ _ hlease' hother' hne =>
      rw [hlease, Set.mem_singleton_iff] at hlease' hother'
      exact absurd (hlease'.trans hother'.symm) hne
    | sole _ lease' hlease' _ hphase' =>
      obtain rfl := Set.singleton_injective (hlease.symm.trans hlease')
      apply hphase.unique hfree hphase'

/-! ### The leases that the first loop collects -/

/-- The table after the records `done` were read. -/
structure LeaseTable (primitives : HostingPrimitives) (manifest : DomeInstanceManifest)
    (done : List DomeHostingRecord) (leasesByEpoch : LeasesByEpoch) : Prop where
  sound : ∀ (epoch : ℕ) (leases : BTreeMap String SignedDomeHostingLease) (digest : String)
    (signed : SignedDomeHostingLease), leasesByEpoch[epoch]? = some leases →
    leases[digest]? = some signed → .leaseIssued signed ∈ done ∧
      checkLease primitives manifest signed = .ok true ∧ signed.lease.epoch = epoch ∧
      primitives.leaseDigest signed.lease = digest
  complete : ∀ signed, .leaseIssued signed ∈ done →
    checkLease primitives manifest signed = .ok true →
    ∃ leases : BTreeMap String SignedDomeHostingLease,
      leasesByEpoch[signed.lease.epoch]? = some leases ∧
      primitives.leaseDigest signed.lease ∈ leases
  nonempty : ∀ (epoch : ℕ) (leases : BTreeMap String SignedDomeHostingLease),
    leasesByEpoch[epoch]? = some leases → ∃ digest, digest ∈ leases

theorem collectLease_eq_ok
    (hround : collectLease primitives manifest leasesByEpoch record = .ok leasesByEpoch') :
  (∃ signed, record = .leaseIssued signed ∧ checkLease primitives manifest signed = .ok true ∧
      leasesByEpoch' = leasesByEpoch.insert signed.lease.epoch
        ((leasesByEpoch[signed.lease.epoch]?.getD ∅).insert
          (primitives.leaseDigest signed.lease) signed)) ∨
    (∀ signed, record = .leaseIssued signed →
      checkLease primitives manifest signed = .ok false) ∧ leasesByEpoch' = leasesByEpoch
  := by
  cases record with
  | leaseIssued signed =>
    obtain ⟨current, hcheck, hround⟩ := bind_eq_ok.mp hround
    cases current with
    | true =>
      left
      exact ⟨signed, rfl, hcheck, (pure_eq_ok.mp hround).symm⟩
    | false =>
      right
      refine ⟨?_, (pure_eq_ok.mp hround).symm⟩
      rintro _ ⟨⟩
      apply hcheck
  | hostAccepted _ | leaseActivated _ | leaseClosed _ =>
    right
    refine ⟨?_, (pure_eq_ok.mp hround).symm⟩
    rintro _ ⟨⟩

theorem LeaseTable.snoc (h : LeaseTable primitives manifest done leasesByEpoch)
    (hround : collectLease primitives manifest leasesByEpoch record = .ok leasesByEpoch') :
  LeaseTable primitives manifest (done ++ [record]) leasesByEpoch'
  := by
  rcases collectLease_eq_ok hround with ⟨signed, rfl, hcheck, rfl⟩ | ⟨hstale, rfl⟩
  · exact {
      sound := by
        intro epoch leases digest other hleases hother
        have hsound := h.sound epoch
        rcases getElem?_of_insert hleases with ⟨rfl, rfl⟩ | ⟨-, hleases⟩
        · rcases getElem?_of_insert hother with ⟨heq, rfl⟩ | ⟨-, hother⟩
          · exact ⟨by simp, hcheck, rfl, heq⟩
          cases hold : leasesByEpoch[signed.lease.epoch]? with
          | none => simp [hold] at hother
          | some leases =>
            rw [hold, Option.getD_some] at hother
            obtain ⟨hmem, hrest⟩ := hsound leases digest other hold hother
            exact ⟨mem_append_left _ hmem, hrest⟩
        · obtain ⟨hmem, hrest⟩ := hsound leases digest other hleases hother
          exact ⟨mem_append_left _ hmem, hrest⟩
      complete := by
        intro other hother hcurrent
        simp only [Std.ExtTreeMap.getElem?_insert, Std.LawfulEqCmp.compare_eq_iff_eq]
        rcases mem_append.mp hother with hother | hother
        · obtain ⟨leases, hleases, hdigest⟩ := h.complete other hother hcurrent
          split
          case isTrue heq =>
            refine ⟨_, rfl, ?_⟩
            rw [heq, hleases, Option.getD_some, Std.ExtTreeMap.mem_insert]
            apply Or.inr hdigest
          case isFalse => exact ⟨leases, hleases, hdigest⟩
        · obtain rfl : other = signed := by simpa using hother
          refine ⟨_, if_pos rfl, ?_⟩
          simp
      nonempty := by
        intro epoch leases hleases
        rcases getElem?_of_insert hleases with ⟨rfl, rfl⟩ | ⟨-, hleases⟩
        · use primitives.leaseDigest signed.lease
          simp
        · apply h.nonempty epoch leases hleases }
  · exact {
      sound := by
        intro epoch leases digest signed hleases hsigned
        obtain ⟨hmem, hrest⟩ := h.sound epoch leases digest signed hleases hsigned
        exact ⟨mem_append_left _ hmem, hrest⟩
      complete := by
        intro signed hsigned hcurrent
        rcases mem_append.mp hsigned with hsigned | hsigned
        · apply h.complete signed hsigned hcurrent
        · rw [hstale signed (mem_singleton.mp hsigned).symm] at hcurrent
          cases hcurrent
      nonempty := h.nonempty }

variable {records : List DomeHostingRecord} {epoch : ℕ} {evidence : LeaseEvidence}
  {leases : BTreeMap String SignedDomeHostingLease}

theorem leaseTable_of_foldlM
    (hloop : records.foldlM (collectLease primitives manifest) ∅ = .ok leasesByEpoch) :
  LeaseTable primitives manifest records leasesByEpoch
  := by
  apply foldlM_invariant (P := LeaseTable primitives manifest) hloop
  · exact {
      sound := by simp
      complete := by simp
      nonempty := by simp }
  · intro done record t t' _ ht hround
    apply ht.snoc hround

theorem exists_collectLeases :
  (∃ leasesByEpoch, records.foldlM (collectLease primitives manifest) ∅ = .ok leasesByEpoch) ↔
    ∀ signed, .leaseIssued signed ∈ records →
      ∃ current, checkLease primitives manifest signed = .ok current
  := by
  rw [exists_foldlM_eq_ok (P := fun record => ∀ signed, record = .leaseIssued signed →
    ∃ current, checkLease primitives manifest signed = .ok current)]
  · constructor
    · intro h signed hsigned
      apply h _ hsigned signed rfl
    · rintro h _ hrecord signed rfl
      apply h signed hrecord
  · intro leasesByEpoch record
    cases record with
    | leaseIssued signed =>
      constructor
      · rintro ⟨_, hround⟩ _ ⟨⟩
        obtain ⟨current, hcheck, -⟩ := bind_eq_ok.mp hround
        exact ⟨current, hcheck⟩
      · intro h
        obtain ⟨current, hcheck⟩ := h signed rfl
        simp only [collectLease, bind_eq_ok, hcheck]
        cases current with
        | true => exact ⟨_, true, rfl, rfl⟩
        | false => exact ⟨_, false, rfl, rfl⟩
    | hostAccepted _ | leaseActivated _ | leaseClosed _ =>
      constructor
      · rintro _ _ ⟨⟩
      · intro _
        exact ⟨_, rfl⟩

section

variable (h : LeaseTable primitives manifest records leasesByEpoch)
  (hfree : CollisionFree primitives {record | record ∈ records})
include h hfree

/-- The current leases are those of the table. -/
theorem LeaseTable.mem_currentLeases :
  lease ∈ currentLeases primitives manifest {record | record ∈ records} ↔
    ∃ (leases : BTreeMap String SignedDomeHostingLease) (digest : String)
      (signed : SignedDomeHostingLease), leasesByEpoch[lease.epoch]? = some leases ∧
      leases[digest]? = some signed ∧ signed.lease = lease
  := by
  constructor
  · rintro ⟨signed, hmem, rfl, hcheck⟩
    obtain ⟨leases, hleases, hdigest⟩ := h.complete signed hmem hcheck
    obtain ⟨signed', hsigned'⟩ := mem_iff_exists.mp hdigest
    obtain ⟨hmem', -, -, hsame⟩ := h.sound _ _ _ _ hleases hsigned'
    exact ⟨leases, _, signed', hleases, hsigned', hfree.leases _ _ hmem' hmem hsame⟩
  · rintro ⟨leases, digest, signed, hleases, hsigned, rfl⟩
    obtain ⟨hmem, hcheck, -⟩ := h.sound _ _ _ _ hleases hsigned
    exact ⟨signed, hmem, rfl, hcheck⟩

theorem LeaseTable.leadingLeases_eq_empty
    (hlast : BTreeMap.lastKeyValue leasesByEpoch = none) :
  leadingLeases primitives manifest {record | record ∈ records} = ∅
  := by
  rw [Set.eq_empty_iff_forall_notMem]
  rintro lease ⟨hcurrent, -⟩
  obtain ⟨leases, _, _, hleases, -⟩ := (h.mem_currentLeases hfree).mp hcurrent
  rw [lastKeyValue_eq_none.mp hlast] at hleases
  simp at hleases

variable (hlast : BTreeMap.lastKeyValue leasesByEpoch = some (epoch, leases))
include hlast

/-- The leading leases are those of the last epoch of the table. -/
theorem LeaseTable.mem_leadingLeases :
  lease ∈ leadingLeases primitives manifest {record | record ∈ records} ↔
    ∃ (digest : String) (signed : SignedDomeHostingLease),
      leases[digest]? = some signed ∧ signed.lease = lease
  := by
  obtain ⟨hleases, hgreatest⟩ := lastKeyValue_eq_some hlast
  constructor
  · rintro ⟨hcurrent, hleads⟩
    obtain ⟨leases', digest, signed, hleases', hsigned, rfl⟩ :=
      (h.mem_currentLeases hfree).mp hcurrent
    -- Some lease has the last epoch, so the leading one does.
    obtain ⟨digest', hdigest'⟩ := h.nonempty epoch leases hleases
    obtain ⟨other, hother⟩ := mem_iff_exists.mp hdigest'
    obtain ⟨hmem, hcheck, rfl, -⟩ := h.sound _ _ _ _ hleases hother
    have hle := hleads other.lease ⟨other, hmem, rfl, hcheck⟩
    have hge := hgreatest _ (mem_iff_exists.mpr ⟨leases', hleases'⟩)
    rw [le_antisymm hge hle, hleases] at hleases'
    cases hleases'
    exact ⟨digest, signed, hsigned, rfl⟩
  · rintro ⟨digest, signed, hsigned, rfl⟩
    obtain ⟨hmem, hcheck, rfl, -⟩ := h.sound _ _ _ _ hleases hsigned
    refine ⟨⟨signed, hmem, rfl, hcheck⟩, ?_⟩
    intro other hother
    obtain ⟨leases', _, _, hleases', -⟩ := (h.mem_currentLeases hfree).mp hother
    apply hgreatest _ (mem_iff_exists.mpr ⟨leases', hleases'⟩)

omit hfree in
theorem LeaseTable.epoch_eq {digest : String} {signed : SignedDomeHostingLease}
    (hsigned : leases[digest]? = some signed) :
  signed.lease.epoch = epoch ∧ primitives.leaseDigest signed.lease = digest
  := by
  obtain ⟨hleases, -⟩ := lastKeyValue_eq_some hlast
  apply (h.sound _ _ _ _ hleases hsigned).2.2

/-- Several leases of the last epoch are several leading leases. -/
theorem LeaseTable.exists_leadingLeases_ne (hsize : leases.size ≠ 1) :
  ∃ lease ∈ leadingLeases primitives manifest {record | record ∈ records},
    ∃ other ∈ leadingLeases primitives manifest {record | record ∈ records},
      lease ≠ other ∧ lease.epoch = epoch
  := by
  obtain ⟨digest, hdigest⟩ := h.nonempty epoch leases (lastKeyValue_eq_some hlast).1
  obtain ⟨digest', hdigest', hne⟩ := exists_ne_of_size_ne_one hdigest hsize
  obtain ⟨signed, hsigned⟩ := mem_iff_exists.mp hdigest
  obtain ⟨other, hother⟩ := mem_iff_exists.mp hdigest'
  obtain ⟨hepoch, hsame⟩ := h.epoch_eq hlast hsigned
  obtain ⟨-, hsame'⟩ := h.epoch_eq hlast hother
  refine ⟨signed.lease, (h.mem_leadingLeases hfree hlast).mpr ⟨_, _, hsigned, rfl⟩, other.lease,
    (h.mem_leadingLeases hfree hlast).mpr ⟨_, _, hother, rfl⟩, ?_, hepoch⟩
  intro heq
  apply hne
  rw [← hsame, ← hsame', heq]

/-- A single lease of the last epoch is the only leading one. -/
theorem LeaseTable.leadingLeases_eq_singleton (hsize : leases.size = 1) :
  ∃ signed, (leases.toList.map Prod.snd).head? = some signed ∧ signed.lease.epoch = epoch ∧
    leadingLeases primitives manifest {record | record ∈ records} = {signed.lease}
  := by
  rw [← Std.ExtTreeMap.length_toList] at hsize
  obtain ⟨⟨digest, signed⟩, hrows⟩ := List.length_eq_one_iff.mp hsize
  have hsigned : leases[digest]? = some signed := by
    rw [← BTreeMap.mem_toList, hrows]
    apply List.mem_singleton_self
  refine ⟨signed, by simp [hrows], (h.epoch_eq hlast hsigned).1, ?_⟩
  ext lease
  rw [h.mem_leadingLeases hfree hlast, Set.mem_singleton_iff]
  constructor
  · rintro ⟨digest', signed', hsigned', rfl⟩
    rw [← BTreeMap.mem_toList, hrows, List.mem_singleton] at hsigned'
    obtain ⟨-, rfl⟩ := Prod.mk.inj hsigned'
    rfl
  · rintro rfl
    exact ⟨digest, signed, hsigned, rfl⟩

end

/-! ### What the second loop collects -/

/-- The record is a verified statement about the lease. -/
def Concerns (primitives : HostingPrimitives) (lease : DomeHostingLease) :
    DomeHostingRecord → Prop
  | .leaseIssued _ => False
  | .hostAccepted acceptance => verifyAcceptance primitives lease acceptance = .ok ()
  | .leaseActivated activation => verifyActivation primitives lease activation = .ok ()
  | .leaseClosed close => verifyClose primitives lease close = .ok ()

/-- The record was read and noted. -/
def Noted (primitives : HostingPrimitives) (lease : DomeHostingLease)
    (done : List DomeHostingRecord) (record : DomeHostingRecord) : Prop :=
  record ∈ done ∧ Concerns primitives lease record

/-- The evidence about the lease after the records `done` were read. -/
structure EvidenceOf (primitives : HostingPrimitives) (lease : DomeHostingLease)
    (done : List DomeHostingRecord) (evidence : LeaseEvidence) : Prop where
  supports : ∀ record ∈ done, Supports primitives lease record
  accepted : ∀ (id : String) (acceptance : SignedDomeHostingAcceptance),
    evidence.acceptances[id]? = some acceptance →
      Noted primitives lease done (.hostAccepted acceptance) ∧ acceptance.envelope.id = id
  mem_acceptances : ∀ acceptance, Noted primitives lease done (.hostAccepted acceptance) →
    acceptance.envelope.id ∈ evidence.acceptances
  activated : ∀ id, id ∈ evidence.activationIds ↔ ∃ activation,
    Noted primitives lease done (.leaseActivated activation) ∧
      activation.activation.hostAcceptanceEnvelopeId = id
  closed : evidence.closed ↔ ∃ close, Noted primitives lease done (.leaseClosed close)

theorem noted_append {other : DomeHostingRecord} :
  Noted primitives lease (done ++ [record]) other ↔
    Noted primitives lease done other ∨ other = record ∧ Concerns primitives lease record
  := by
  simp only [Noted, mem_append, mem_singleton]
  grind

/-- The evidence with a verified statement added. -/
def LeaseEvidence.add (evidence : LeaseEvidence) : DomeHostingRecord → LeaseEvidence
  | .leaseIssued _ => evidence
  | .hostAccepted acceptance => { evidence with
      acceptances := evidence.acceptances.insert acceptance.envelope.id acceptance }
  | .leaseActivated activation => { evidence with
      activationIds :=
        evidence.activationIds.insert activation.activation.hostAcceptanceEnvelopeId }
  | .leaseClosed _ => { evidence with closed := true }

/-- A round verifies a record that names the lease and adds it, and skips any other. -/
theorem collectEvidence_eq_ok {evidence' : LeaseEvidence} :
  collectEvidence primitives lease lease.epoch (primitives.leaseDigest lease) evidence record
      = .ok evidence' ↔
    Supports primitives lease record ∧
      (Concerns primitives lease record ∧ evidence' = evidence.add record ∨
        ¬ Concerns primitives lease record ∧ evidence' = evidence)
  := by
  cases record with
  | leaseIssued _ =>
    simp only [collectEvidence, Supports, Concerns, pure_eq_ok]
    grind
  | hostAccepted acceptance =>
    have hnames := @verifyAcceptance_eq_ok primitives lease acceptance
    simp only [collectEvidence, Supports, Concerns, add]
    split
    · simp only [bind_eq_ok, pure_eq_ok]
      grind
    · simp only [pure_eq_ok]
      grind
  | leaseActivated activation =>
    have hnames := @verifyActivation_eq_ok primitives lease activation
    simp only [collectEvidence, Supports, Concerns, add]
    split
    · simp only [bind_eq_ok, pure_eq_ok]
      grind
    · simp only [pure_eq_ok]
      grind
  | leaseClosed close =>
    have hnames := @verifyClose_eq_ok primitives lease close
    simp only [collectEvidence, Supports, Concerns, add]
    split
    · simp only [bind_eq_ok, pure_eq_ok]
      grind
    · simp only [pure_eq_ok]
      grind

theorem EvidenceOf.skip (h : EvidenceOf primitives lease done evidence)
    (hsupports : Supports primitives lease record) (hskip : ¬ Concerns primitives lease record) :
  EvidenceOf primitives lease (done ++ [record]) evidence
  := by
  have hnoted : ∀ other, Noted primitives lease (done ++ [record]) other ↔
      Noted primitives lease done other := by
    intro other
    rw [noted_append]
    grind
  obtain ⟨h₁, h₂, h₃, h₄, h₅⟩ := h
  constructor
  · grind
  · simpa only [hnoted] using h₂
  · simpa only [hnoted] using h₃
  · simpa only [hnoted] using h₄
  · simpa only [hnoted] using h₅

theorem EvidenceOf.add (h : EvidenceOf primitives lease done evidence)
    (hsupports : Supports primitives lease record) (hconcerns : Concerns primitives lease record) :
  EvidenceOf primitives lease (done ++ [record]) (evidence.add record)
  := by
  have hnoted : ∀ other, Noted primitives lease (done ++ [record]) other ↔
      Noted primitives lease done other ∨ other = record := by
    intro other
    rw [noted_append]
    grind
  have hall : ∀ other ∈ done ++ [record], Supports primitives lease other := by
    have := h.supports
    grind
  obtain ⟨-, h₂, h₃, h₄, h₅⟩ := h
  cases record with
  | leaseIssued _ => cases hconcerns
  | hostAccepted acceptance =>
    constructor
    · apply hall
    · intro id other hother
      rw [hnoted]
      rcases BTreeMap.getElem?_of_insert hother with ⟨hid, rfl⟩ | ⟨-, hother⟩
      · exact ⟨.inr rfl, hid⟩
      · obtain ⟨hother, hid⟩ := h₂ id other hother
        exact ⟨.inl hother, hid⟩
    · intro other hother
      simp only [add, Std.ExtTreeMap.mem_insert, Std.LawfulEqCmp.compare_eq_iff_eq]
      rcases (hnoted _).mp hother with hother | hother
      · apply Or.inr (h₃ other hother)
      · obtain rfl := DomeHostingRecord.hostAccepted.inj hother
        apply Or.inl rfl
    · simpa [add, hnoted] using h₄
    · simpa [add, hnoted] using h₅
  | leaseActivated activation =>
    constructor
    · apply hall
    · simpa [add, hnoted] using h₂
    · simpa [add, hnoted] using h₃
    · intro id
      simp only [add, hnoted, Std.ExtTreeSet.mem_insert, Std.LawfulEqCmp.compare_eq_iff_eq, h₄]
      grind
    · simpa [add, hnoted] using h₅
  | leaseClosed close =>
    constructor
    · apply hall
    · simpa [add, hnoted] using h₂
    · simpa [add, hnoted] using h₃
    · simpa [add, hnoted] using h₄
    · simp only [add, hnoted, true_iff]
      use close
      apply Or.inr rfl

theorem evidenceOf_of_foldlM
    (hloop : records.foldlM
      (collectEvidence primitives lease lease.epoch (primitives.leaseDigest lease))
      ⟨∅, ∅, false⟩ = .ok evidence) :
  EvidenceOf primitives lease records evidence
  := by
  apply foldlM_invariant (P := EvidenceOf primitives lease) hloop
  · exact {
      supports := by simp
      accepted := by simp
      mem_acceptances := by simp [Noted]
      activated := by simp [Noted]
      closed := by simp [Noted] }
  · intro done record t t' _ ht hround
    obtain ⟨hsupports, ⟨hconcerns, rfl⟩ | ⟨hskip, rfl⟩⟩ := collectEvidence_eq_ok.mp hround
    · apply ht.add hsupports hconcerns
    · apply ht.skip hsupports hskip

theorem exists_collectEvidence :
  (∃ evidence, records.foldlM
      (collectEvidence primitives lease lease.epoch (primitives.leaseDigest lease))
      ⟨∅, ∅, false⟩ = .ok evidence) ↔
    ∀ record ∈ records, Supports primitives lease record
  := by
  apply exists_foldlM_eq_ok
  intro evidence record
  simp only [collectEvidence_eq_ok]
  by_cases hconcerns : Concerns primitives lease record <;> simp [hconcerns]

/-! ### The resolution -/

section

variable (h : EvidenceOf primitives lease records evidence)
include h

/-- An activated acceptance is found under its identifier. -/
theorem EvidenceOf.activated_iff :
  Activated primitives {record | record ∈ records} lease acceptance ↔
    Noted primitives lease records (.hostAccepted acceptance) ∧
      acceptance.envelope.id ∈ evidence.activationIds
  := by
  rw [h.activated]
  constructor
  · rintro ⟨hmem, hverify, activation, hmem', hverify', hid⟩
    exact ⟨⟨hmem, hverify⟩, activation, ⟨hmem', hverify'⟩, hid⟩
  · rintro ⟨⟨hmem, hverify⟩, activation, ⟨hmem', hverify'⟩, hid⟩
    exact ⟨hmem, hverify, activation, hmem', hverify', hid⟩

theorem EvidenceOf.not_activated
    (hfind : (evidence.activationIds.toList.findSome? fun id => evidence.acceptances[id]?) = none)
    (acceptance : SignedDomeHostingAcceptance) :
  ¬ Activated primitives {record | record ∈ records} lease acceptance
  := by
  rw [h.activated_iff]
  rintro ⟨hnoted, hid⟩
  have hnone := findSome?_eq_none_iff.mp hfind _ (mem_toList.mpr hid)
  obtain ⟨_, hsome⟩ := mem_iff_exists.mp (h.mem_acceptances acceptance hnoted)
  rw [hnone] at hsome
  cases hsome

/-- The search finds the activated acceptance with the least identifier. -/
theorem EvidenceOf.least_activated
    (hfind : (evidence.activationIds.toList.findSome? fun id => evidence.acceptances[id]?)
      = some acceptance) :
  Activated primitives {record | record ∈ records} lease acceptance ∧
    ∀ other, Activated primitives {record | record ∈ records} lease other →
      acceptance.envelope.id ≤ other.envelope.id
  := by
  obtain ⟨before, id, after, hids, hid, hbefore⟩ := findSome?_eq_some_iff.mp hfind
  obtain ⟨hnoted, rfl⟩ := h.accepted id acceptance hid
  have hmem : ∀ id, id ∈ evidence.activationIds ↔
      id ∈ before ++ acceptance.envelope.id :: after := by
    intro id
    rw [← hids, Std.ExtTreeSet.mem_toList]
  have horder := BTreeSet.pairwise_lt_toList evidence.activationIds
  rw [hids, pairwise_append, pairwise_cons] at horder
  refine ⟨h.activated_iff.mpr ⟨hnoted, (hmem _).mpr (by simp)⟩, ?_⟩
  intro other hother
  obtain ⟨hnoted', hid'⟩ := h.activated_iff.mp hother
  rcases mem_append.mp ((hmem _).mp hid') with hid' | hid'
  · -- Nothing was found under the identifiers before.
    obtain ⟨_, hsome⟩ := mem_iff_exists.mp (h.mem_acceptances other hnoted')
    rw [hbefore _ hid'] at hsome
    cases hsome
  · rcases mem_cons.mp hid' with hid' | hid'
    · apply hid'.ge
    · apply (horder.2.1.1 _ hid').le

end

theorem resolveLease_eq_ok
    (hresolve : resolveLease primitives records lease.epoch lease nowMillis lastHeartbeatAt
      = .ok state) :
  LeasePhase primitives {record | record ∈ records} nowMillis lastHeartbeatAt lease state ∧
    (nowMillis < lease.expiresAt → ∀ record ∈ records, Supports primitives lease record)
  := by
  simp only [resolveLease] at hresolve
  split at hresolve
  case isTrue hexpired =>
    obtain rfl := pure_eq_ok.mp hresolve
    refine ⟨.expired hexpired, ?_⟩
    intro hcurrent
    exact absurd hcurrent (not_lt.mpr hexpired)
  case isFalse hcurrent =>
    obtain ⟨evidence, hloop, hresolve⟩ := bind_eq_ok.mp hresolve
    have h := evidenceOf_of_foldlM hloop
    refine ⟨?_, fun _ => h.supports⟩
    rw [not_le] at hcurrent
    split at hresolve
    case isTrue hclosed =>
      obtain rfl := pure_eq_ok.mp hresolve
      have hclosed : Closed primitives {record | record ∈ records} lease := h.closed.mp hclosed
      apply LeasePhase.closed hcurrent hclosed
    case isFalse hopen =>
      have hopen : ¬ Closed primitives {record | record ∈ records} lease :=
        fun hclosed => hopen (h.closed.mpr hclosed)
      split at hresolve
      case h_1 hfind =>
        obtain rfl := pure_eq_ok.mp hresolve
        apply LeasePhase.waiting hcurrent hopen (h.not_activated hfind)
      case h_2 acceptance hfind =>
        obtain rfl := pure_eq_ok.mp hresolve
        obtain ⟨hactivated, hleast⟩ := h.least_activated hfind
        apply LeasePhase.active hcurrent hopen acceptance hactivated hleast

theorem exists_resolveLease
    (hsupports : nowMillis < lease.expiresAt →
      ∀ record ∈ records, Supports primitives lease record) :
  ∃ state, resolveLease primitives records lease.epoch lease nowMillis lastHeartbeatAt = .ok state
  := by
  simp only [resolveLease]
  split
  case isTrue => exact ⟨_, rfl⟩
  case isFalse hcurrent =>
    obtain ⟨evidence, hloop⟩ := exists_collectEvidence.mpr (hsupports (not_le.mp hcurrent))
    simp only [hloop, bind, Except.bind]
    split
    case isTrue => exact ⟨_, rfl⟩
    case isFalse =>
      split
      case h_1 | h_2 => exact ⟨_, rfl⟩

/-- A resolution that succeeds arrives at the state that the records mean. -/
theorem resolveDomeHostingState_authority
    (hfree : CollisionFree primitives {record | record ∈ records})
    (hresolve : resolveDomeHostingState primitives manifest records nowMillis lastHeartbeatAt
      = .ok state) :
  HostingAuthority primitives manifest {record | record ∈ records} nowMillis lastHeartbeatAt
      state ∧
    Readable primitives manifest {record | record ∈ records} nowMillis
  := by
  obtain ⟨_, hvalid, hresolve⟩ := bind_eq_ok.mp hresolve
  split at hresolve
  case isTrue hinactive =>
    have hdetached : ¬ Attached manifest := by
      rintro ⟨hstatus, hdetach⟩
      simp [hstatus, hdetach] at hinactive
    obtain rfl := pure_eq_ok.mp hresolve
    exact ⟨.inactive hdetached, hvalid, fun hattached => absurd hattached hdetached⟩
  case isFalse hactive =>
    have hattached : Attached manifest := by
      simpa [Attached] using hactive
    obtain ⟨leasesByEpoch, hloop, hresolve⟩ := bind_eq_ok.mp hresolve
    have h := leaseTable_of_foldlM hloop
    have hreadable := exists_collectLeases.mp ⟨leasesByEpoch, hloop⟩
    split at hresolve
    case h_1 hlast =>
      obtain rfl := pure_eq_ok.mp hresolve
      have hnone := h.leadingLeases_eq_empty hfree hlast
      refine ⟨.noLease hattached hnone, hvalid, fun _ => ⟨hreadable, ?_⟩⟩
      intro lease hlease
      simp [hnone] at hlease
    case h_2 epoch leases hlast =>
      split at hresolve
      case isTrue hsize =>
        obtain rfl := pure_eq_ok.mp hresolve
        obtain ⟨lease, hlease, other, hother, hne, rfl⟩ :=
          h.exists_leadingLeases_ne hfree hlast hsize
        refine ⟨.splitBrain hattached lease other hlease hother hne, hvalid,
          fun _ => ⟨hreadable, ?_⟩⟩
        intro sole hsole
        rw [hsole, Set.mem_singleton_iff] at hlease hother
        exact absurd (hlease.trans hother.symm) hne
      case isFalse hsize =>
        obtain ⟨signed, hhead, rfl, hsole⟩ :=
          h.leadingLeases_eq_singleton hfree hlast (not_not.mp hsize)
        obtain ⟨signed', hsigned', hresolve⟩ := bind_eq_ok.mp hresolve
        obtain rfl := Option.some.inj (hhead.symm.trans (expect_eq_ok.mp hsigned'))
        obtain ⟨hphase, hsupports⟩ := resolveLease_eq_ok hresolve
        refine ⟨.sole hattached _ hsole state hphase, hvalid, fun _ => ⟨hreadable, ?_⟩⟩
        intro lease hlease
        obtain rfl := Set.singleton_injective (hsole.symm.trans hlease)
        apply hsupports

/-- Records that can be verified are resolved. -/
theorem exists_resolveDomeHostingState (lastHeartbeatAt : Option ℤ)
    (hfree : CollisionFree primitives {record | record ∈ records})
    (hreadable : Readable primitives manifest {record | record ∈ records} nowMillis) :
  ∃ state, resolveDomeHostingState primitives manifest records nowMillis lastHeartbeatAt
    = .ok state
  := by
  obtain ⟨hvalid, hreadable⟩ := hreadable
  simp only [resolveDomeHostingState, hvalid, bind, Except.bind]
  split
  case isTrue => exact ⟨_, rfl⟩
  case isFalse hactive =>
    have hattached : Attached manifest := by
      simpa [Attached] using hactive
    obtain ⟨hleases, hsupports⟩ := hreadable hattached
    obtain ⟨leasesByEpoch, hloop⟩ := exists_collectLeases.mpr hleases
    have h := leaseTable_of_foldlM hloop
    simp only [hloop]
    split
    case h_1 => exact ⟨_, rfl⟩
    case h_2 epoch leases hlast =>
      split
      case isTrue => exact ⟨_, rfl⟩
      case isFalse hsize =>
        obtain ⟨signed, hhead, rfl, hsole⟩ :=
          h.leadingLeases_eq_singleton hfree hlast (not_not.mp hsize)
        simp only [hhead, expect]
        apply exists_resolveLease (hsupports signed.lease hsole)

/-- The order and the multiplicity of the records do not matter. -/
theorem resolveDomeHostingState_congr {records' : List DomeHostingRecord}
    (hfree : CollisionFree primitives {record | record ∈ records})
    (hsame : ∀ record, record ∈ records ↔ record ∈ records') :
  (resolveDomeHostingState primitives manifest records nowMillis lastHeartbeatAt).toOption
    = (resolveDomeHostingState primitives manifest records' nowMillis lastHeartbeatAt).toOption
  := by
  have hset : {record | record ∈ records'} = {record | record ∈ records} := by
    ext record
    apply (hsame record).symm
  have hfree' : CollisionFree primitives {record | record ∈ records'} := hset ▸ hfree
  cases hresolve : resolveDomeHostingState primitives manifest records nowMillis
      lastHeartbeatAt with
  | ok state =>
    obtain ⟨hauthority, hreadable⟩ := resolveDomeHostingState_authority hfree hresolve
    obtain ⟨state', hresolve'⟩ := exists_resolveDomeHostingState lastHeartbeatAt hfree'
      (hset ▸ hreadable)
    obtain ⟨hauthority', -⟩ := resolveDomeHostingState_authority hfree' hresolve'
    rw [hset] at hauthority'
    rw [hresolve', hauthority.unique hfree hauthority']
  | error failure =>
    cases hresolve' : resolveDomeHostingState primitives manifest records' nowMillis
        lastHeartbeatAt with
    | ok state =>
      obtain ⟨-, hreadable⟩ := resolveDomeHostingState_authority hfree' hresolve'
      obtain ⟨state', hok⟩ := exists_resolveDomeHostingState lastHeartbeatAt hfree
        (hset ▸ hreadable)
      rw [hresolve] at hok
      cases hok
    | error failure' => rfl

end

end Kukuri
