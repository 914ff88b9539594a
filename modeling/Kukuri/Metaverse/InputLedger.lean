import Kukuri.Core.Hosting
import Kukuri.Core.Props
import Kukuri.Data.Order

/-!
# Inputs of a session

The signed inputs of a Dome session, and the ledger that keeps the last input accepted of
every signer. The mark of a signer who is present, and of the owner, stays; the mark of a
signer who has left stays until the inputs it covers have expired, for as many signers as can
be present.
-/

namespace Kukuri

open Result

def inputKind : String := "dome-session-input"

def domeAccessProofTtlMillis : ℤ := 10000

inductive DomeSessionInputKind where
  | join (avatarCollider : Option MetaverseCollider)
  | leave
  | keepAlive
  | move (position rotation : Vec3) (animation : String)
  | grab (propId : String)
  | throw (propId : String) (impulse : Vec3)
  | push (propId : String) (impulse : Vec3)
  | sit (propId : String)
  | prepareTransition (transitionId : String) (direction : DomeDirection)
  | abortTransition (transitionId : String)
  | completeTransition (transitionId : String)
  | spawnGuestProp (prop : MetaversePersistentProp) (expiresAt : ℤ)
  | upsertPersistentProp (prop : MetaversePersistentProp)
  | deletePersistentProp (propId : String)
  deriving DecidableEq, Repr

structure DomeSessionInput where
  inputId : String
  instanceId : String
  instanceGeneration : ℕ
  leaseEpoch : ℕ
  sessionId : String
  participantPubkey : Pubkey
  sequence : ℕ
  sentAt : ℤ
  input : DomeSessionInputKind
  deriving DecidableEq, Repr

structure SignedDomeSessionInput where
  input : DomeSessionInput
  envelope : KukuriEnvelope
  deriving DecidableEq, Repr

/-! ### Verification -/

def validateSessionProp (prop : MetaversePersistentProp) : Result Unit :=
  validateDomeCustomization { DomeCustomization.default with persistentProps := [prop] }

def validateDomeSessionInput (input : DomeSessionInput) : Result Unit := do
  bailIf (isBlank input.inputId ∨ isBlank input.instanceId ∨ isBlank input.sessionId ∨
      input.instanceGeneration = 0 ∨ input.leaseEpoch = 0 ∨ input.sequence = 0)
    "Dome session input identity is incomplete"
  match input.input with
  | .join (some collider) => validateMetaverseCollider collider
  | .move _ _ animation => bailIf (isBlank animation) "Dome avatar animation is required"
  | .grab propId | .sit propId =>
    bailIf (isBlank propId) "Dome interaction prop id is required"
  | .throw propId impulse | .push propId impulse =>
    bailIf (isBlank propId ∨ impulse.toList.all fun component => component = 0)
      "Dome impulse input is incomplete"
  | .spawnGuestProp prop expiresAt => do
    validateSessionProp prop
    bailIf (expiresAt ≤ input.sentAt) "Dome guest prop expiry must be in the future"
  | .upsertPersistentProp prop => validateSessionProp prop
  | .deletePersistentProp propId => bailIf (isBlank propId) "Dome persistent prop id is required"
  | _ => pure ()

/-- The operations of other libraries that a session uses. -/
structure SessionPrimitives extends HostingPrimitives where
  decodeInput : String → Option DomeSessionInput
  /-- The length of the JSON text of an input. -/
  inputBytes : DomeSessionInput → ℕ

def verifySignedDomeSessionInput (primitives : SessionPrimitives)
    (signed : SignedDomeSessionInput) (lease : DomeHostingLease) (sessionId : String) :
    Result Unit := do
  validateDomeSessionInput signed.input
  let input := signed.input
  bailIf (input.instanceId ≠ lease.instanceId ∨
      input.instanceGeneration ≠ lease.instanceGeneration ∨ input.leaseEpoch ≠ lease.epoch ∨
      input.sessionId ≠ sessionId)
    "Dome session input does not match active lease and session"
  verifyEnvelopeContent primitives.toEnvelopePrimitives primitives.decodeInput signed.envelope
    inputKind input.participantPubkey input

/-! ### The ledger -/

structure InputMark where
  sequence : ℕ
  sentAt : ℤ
  deriving DecidableEq, Repr

structure InputLedger where
  active : BTreeMap String InputMark
  departed : BTreeMap String (ℕ × InputMark)
  departures : ℕ

def inputExpired (sentAt nowMillis : ℤ) : Bool :=
  I64.saturatingAdd sentAt domeAccessProofTtlMillis ≤ nowMillis

namespace InputLedger

def empty : InputLedger := ⟨∅, ∅, 0⟩

def mark (ledger : InputLedger) (participantId : String) : Option InputMark :=
  ledger.active[participantId]?.or (ledger.departed[participantId]?.map Prod.snd)

/-- The ledger without the marks of departed signers that have expired. -/
def prune (ledger : InputLedger) (nowMillis : ℤ) : InputLedger :=
  { ledger with
    departed := ledger.departed.filter fun _ row => ¬ inputExpired row.2.sentAt nowMillis }

/-- The outcome of `check` and the ledger afterwards. -/
def check (ledger : InputLedger) (input : DomeSessionInput) (nowMillis : ℤ) :
    Result Unit × InputLedger :=
  let ledger := ledger.prune nowMillis
  (do
    bailIf (inputExpired input.sentAt nowMillis) "DOME_SESSION_INPUT_EXPIRED"
    bailIf (input.sequence ≤ ((ledger.mark input.participantPubkey).elim 0 InputMark.sequence))
      "stale Dome session input sequence", ledger)

def record (ledger : InputLedger) (input : DomeSessionInput) (active : Bool) : InputLedger :=
  let id := input.participantPubkey
  let mark : InputMark := {
    sequence := input.sequence
    sentAt := (ledger.mark id).elim input.sentAt fun mark => max mark.sentAt input.sentAt }
  if active then
    { ledger with departed := ledger.departed.erase id, active := ledger.active.insert id mark }
  else
    { ledger with departed := ledger.departed.modify id fun row => (row.1, mark) }

/-- The departed signers when one more has departed. -/
def joined (ledger : InputLedger) (participantId : String) : BTreeMap String (ℕ × InputMark) :=
  ledger.departed.insert participantId
    (ledger.departures + 1, (ledger.mark participantId).getD ⟨0, 0⟩)

/-- The row of the signer who departed first, which is dropped when there are too many. -/
def dropped (ledger : InputLedger) (participantId : String) (limit : ℕ) :
    Option (String × ℕ × InputMark) :=
  if limit < (ledger.joined participantId).size then
    minBy (fun left right => compare left.2.1 right.2.1) (ledger.joined participantId).toList
  else none

def retire (ledger : InputLedger) (participantId : String) (limit : ℕ) : InputLedger where
  active := ledger.active.erase participantId
  departures := ledger.departures + 1
  departed :=
    match ledger.dropped participantId limit with
    | some oldest => (ledger.joined participantId).erase oldest.1
    | none => ledger.joined participantId

/-! ### Marks -/

variable {ledger : InputLedger} {input : DomeSessionInput} {nowMillis : ℤ}

/-- An input passes the check when it has not expired and is newer than the mark. -/
theorem check_eq_ok {u : Unit} :
  (ledger.check input nowMillis).1 = .ok u ↔
    ¬ inputExpired input.sentAt nowMillis ∧
    ((ledger.prune nowMillis).mark input.participantPubkey).elim 0 InputMark.sequence
      < input.sequence
  := by
  simp only [check, bind_eq_ok, bailIf_eq_ok, not_le]
  exact ⟨fun ⟨_, h⟩ => h, fun h => ⟨(), h⟩⟩

/-- The row of a signer who departs has the mark that the signer had. -/
theorem departed_retire {participantId id : String} {limit : ℕ} {row : ℕ × InputMark}
    (h : (ledger.retire participantId limit).departed[id]? = some row) :
  (id = participantId ∧
    row = (ledger.departures + 1, (ledger.mark participantId).getD ⟨0, 0⟩)) ∨
    id ≠ participantId ∧ ledger.departed[id]? = some row
  := by
  have hjoined : (ledger.joined participantId)[id]? = some row := by
    simp only [retire] at h
    split at h
    · apply BTreeMap.getElem?_of_erase h
    · apply h
  rw [joined, Std.ExtTreeMap.getElem?_insert] at hjoined
  grind

theorem mark_retire_self {participantId : String} {limit : ℕ} {mark : InputMark}
    (h : (ledger.retire participantId limit).mark participantId = some mark) :
  mark = (ledger.mark participantId).getD ⟨0, 0⟩
  := by
  have hactive : (ledger.retire participantId limit).active[participantId]? = none := by
    simp [retire]
  rw [InputLedger.mark, hactive, Option.none_or, Option.map_eq_some_iff] at h
  obtain ⟨row, hrow, rfl⟩ := h
  obtain ⟨-, rfl⟩ | ⟨hne, -⟩ := departed_retire hrow
  · rfl
  · exact absurd rfl hne

end InputLedger

end Kukuri
