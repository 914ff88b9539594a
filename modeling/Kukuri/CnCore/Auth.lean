import Kukuri.Core.Envelope
import Kukuri.Data.Hex
import Kukuri.Data.Text
import Kukuri.Data.Trace

/-!
# Logging in to a community node

A client gets a challenge, signs it, and gets an access token for it.
`verify_auth_envelope_and_issue_token` reads the challenge, and in a transaction admits the account,
marks the challenge and writes the account. The statements of several calls interleave: what a
transaction writes is seen by the others when it commits (`AuthNode.commit`), and a row that it has
written or locked is not written by the others before (`LoginPhase.locks`).
-/

namespace Kukuri

open Result

/-! ### Rows -/

structure AuthChallenge where
  pubkey : Pubkey
  expiresAt : ℤ
  /-- Whether `used_at` is set. -/
  used : Bool
deriving DecidableEq

inductive SubscriberStatus where
  | active
  | banned
deriving DecidableEq

structure SubscriberAccount where
  status : SubscriberStatus
  admitted : Bool
deriving DecidableEq

structure InviteCode where
  /-- Whether `revoked_at` is set. -/
  revoked : Bool
  expiresAt : Option ℤ
  maxUses : Option ℕ
  usedCount : ℕ
deriving DecidableEq

/-- The rows that transactions lock. -/
inductive AuthRow where
  | challenge (challenge : String)
  | account (pubkey : Pubkey)
  | code (codeHash : String)
deriving DecidableEq

/-! ### The checks -/

inductive AdmissionMode where
  | openToAll
  | invite
  | whitelist
deriving DecidableEq

inductive AdmissionRejection where
  | banned
  | inviteRequired
  | inviteInvalid
  | inviteExpired
  | inviteExhausted
  | inviteRevoked
  | notAllowlisted
deriving DecidableEq

def authEnvelopeKind : String := "auth"

def authChallengeTtlSeconds : ℤ := 300

def authEventMaxSkewSeconds : ℤ := 600

def firstTagValue (envelope : KukuriEnvelope) (name : String) : Option String :=
  envelope.tags.findSome? fun tag => if tag[0]? = some name then tag[1]? else none

def normalizePubkey (value : String) : Result Pubkey := do
  let trimmed := (Text.trim value).toList.map Char.toLower
  bailIf (¬ (trimmed.length = 64 ∧ trimmed.all Hex.isDigit)) "invalid pubkey"
  return String.ofList trimmed

/-- The arguments of a verification. -/
structure LoginRequest where
  publicBaseUrl : String
  envelope : KukuriEnvelope
  mode : AdmissionMode
  inviteCode : Option String

/-- A verification after its checks: the challenge, the account, and how it is to be admitted. -/
structure Login where
  challenge : String
  pubkey : Pubkey
  mode : AdmissionMode
  inviteCode : Option String
deriving DecidableEq

/-- The checks of the envelope, and of the challenge that it is for. -/
def checkLogin (primitives : EnvelopePrimitives) (challenges : String → Option AuthChallenge)
    (now : ℤ) (request : LoginRequest) : Result Login := do
  let envelope := request.envelope
  envelope.verify primitives
  bailIf (envelope.kind ≠ authEnvelopeKind) "auth envelope kind mismatch"
  bailIf (authEventMaxSkewSeconds < |now - envelope.createdAt|) "auth envelope is stale"
  let capabilityUrl ← context (firstTagValue envelope "capability_url") "missing capability_url tag"
  bailIf (capabilityUrl ≠ request.publicBaseUrl) "capability_url tag mismatch"
  let challenge ← context (firstTagValue envelope "challenge") "missing challenge tag"
  let row ← context (challenges challenge) "challenge not found"
  bailIf (row.used ∨ row.expiresAt < now) "challenge expired or already used"
  let pubkey ← normalizePubkey envelope.pubkey
  bailIf (pubkey ≠ row.pubkey) "pubkey mismatch"
  return ⟨challenge, pubkey, request.mode, request.inviteCode⟩

/-! ### Verifications -/

/-- How an account has been admitted. A code has been redeemed at a time. -/
inductive Passage where
  | member
  | openToAll
  | allowlisted
  | redeemed (codeHash : String) (checkedAt : ℤ)
deriving DecidableEq

/-- What the transaction has written after the admission. -/
inductive LoginWrites where
  | nothing
  | challenge
  | account
deriving DecidableEq

inductive LoginPhase where
  | idle
  /-- The challenge has been read. -/
  | checked (login : Login)
  /-- The account has been read, which does not decide. -/
  | undecided (login : Login)
  /-- A code is to be redeemed. -/
  | redeeming (login : Login) (codeHash : String)
  | admitted (login : Login) (passage : Passage) (writes : LoginWrites)
  /-- The transaction is committed. -/
  | committed (login : Login)
deriving DecidableEq

namespace LoginPhase

def login : LoginPhase → Option Login
  | idle => none
  | checked login | undecided login | redeeming login _ | admitted login _ _ | committed login =>
    some login

/-- The rows that the transaction has locked. -/
def locks : LoginPhase → List AuthRow
  | admitted login passage writes =>
    (match passage with
      | .redeemed codeHash _ => [.code codeHash]
      | _ => []) ++
    (match writes with
      | .nothing => []
      | .challenge => [.challenge login.challenge]
      | .account => [.challenge login.challenge, .account login.pubkey])
  | _ => []

/-- The row that the next statement locks. -/
def target : LoginPhase → Option AuthRow
  | redeeming _ codeHash => some (.code codeHash)
  | admitted login _ .nothing => some (.challenge login.challenge)
  | admitted login _ .challenge => some (.account login.pubkey)
  | _ => none

end LoginPhase

/-- `redeem_invite_code`, with the row that it has locked. -/
def redeemInviteCode (login : Login) (codeHash : String) (row : Option InviteCode) (now : ℤ) :
    Except AdmissionRejection LoginPhase :=
  match row with
  | none => .error .inviteInvalid
  | some row =>
    if row.revoked then .error .inviteRevoked
    else if row.expiresAt.any (· ≤ now) then .error .inviteExpired
    else if row.maxUses.any (· ≤ row.usedCount) then .error .inviteExhausted
    else .ok (.admitted login (.redeemed codeHash now) .nothing)

/-- The code can be redeemed: it is not revoked, not expired and not used up. -/
structure InviteCode.Redeemable (row : InviteCode) (now : ℤ) : Prop where
  revoked : row.revoked = false
  expiresAt : ∀ expiresAt ∈ row.expiresAt, now < expiresAt
  maxUses : ∀ maxUses ∈ row.maxUses, row.usedCount < maxUses

/-- The database of a community node, its clock, the challenges as they were created, and the
verifications that are at work. -/
structure AuthNode (I : Type) where
  challenges : String → Option AuthChallenge
  accounts : Pubkey → Option SubscriberAccount
  codes : String → Option InviteCode
  allowlist : Pubkey → Bool
  admissionMode : AdmissionMode
  clock : ℤ
  created : String → Option AuthChallenge
  calls : I → LoginPhase

inductive AuthOp (I : Type) where
  | tick (now : ℤ)
  /-- The two statements of `create_auth_challenge`. -/
  | pruneExpired
  | createChallenge (challenge : String) (pubkey : String)
  /-- A verification reads the challenge. -/
  | verify (id : I) (request : LoginRequest)
  /-- The next statement of the transaction. -/
  | next (id : I)
  | commit (id : I)
  | issueToken (id : I)
  | ban (pubkey : Pubkey)
  | unban (pubkey : Pubkey)
  | revoke (codeHash : String)
  | addAllowlist (pubkey : Pubkey)
  | removeAllowlist (pubkey : Pubkey)
  | setAdmissionMode (mode : AdmissionMode)

namespace AuthNode

variable {I : Type} [DecidableEq I] (primitives : EnvelopePrimitives) (node : AuthNode I)

/-- `evaluate_admission`, the marking of the challenge and `ensure_active_subscriber`: what the next
statement of a verification does, if it has one. -/
def next : LoginPhase → Option (Except AdmissionRejection LoginPhase)
  | .checked login =>
    match node.accounts login.pubkey with
    | some ⟨.banned, _⟩ => some (.error .banned)
    | some ⟨.active, true⟩ => some (.ok (.admitted login .member .nothing))
    | _ =>
      if login.mode = .openToAll then some (.ok (.admitted login .openToAll .nothing))
      else some (.ok (.undecided login))
  | .undecided login =>
    if node.allowlist login.pubkey then some (.ok (.admitted login .allowlisted .nothing))
    else if login.mode = .whitelist then some (.error .notAllowlisted)
    else
      match (login.inviteCode.map Text.trim).filter (· ≠ "") with
      | none => some (.error .inviteRequired)
      | some code => some (.ok (.redeeming login (primitives.sha256Hex (Text.trim code))))
  | .redeeming login codeHash =>
    some (redeemInviteCode login codeHash (node.codes codeHash) node.clock)
  | .admitted login passage .nothing => some (.ok (.admitted login passage .challenge))
  | .admitted login passage .challenge =>
    if (node.accounts login.pubkey).any (·.status = .banned) then some (.error .banned)
    else some (.ok (.admitted login passage .account))
  | _ => none

def Admitted (pubkey : Pubkey) : Prop :=
  ∃ row, node.accounts pubkey = some row ∧ row.admitted = true

def Banned (pubkey : Pubkey) : Prop :=
  ∃ row, node.accounts pubkey = some row ∧ row.status = .banned

/-- The writes of a transaction. -/
def commit (login : Login) (passage : Passage) : AuthNode I :=
  { node with
    challenges := Function.update node.challenges login.challenge
      ((node.challenges login.challenge).map fun row => { row with used := true })
    accounts := Function.update node.accounts login.pubkey (some ⟨.active, true⟩)
    codes :=
      match passage with
      | .redeemed codeHash _ => Function.update node.codes codeHash
          ((node.codes codeHash).map fun row => { row with usedCount := row.usedCount + 1 })
      | _ => node.codes }

def withCall (id : I) (phase : LoginPhase) : AuthNode I :=
  { node with calls := Function.update node.calls id phase }

theorem calls_withCall (id : I) (phase : LoginPhase) (other : I) :
  (node.withCall id phase).calls other = if other = id then phase else node.calls other
  := Function.update_apply ..

/-- No other transaction has locked the row. -/
def Free (id : I) (row : AuthRow) : Prop := ∀ other ≠ id, row ∉ (node.calls other).locks

/-- No transaction has locked the row. -/
def Unlocked (row : AuthRow) : Prop := ∀ id, row ∉ (node.calls id).locks

variable [Fintype I]

instance (id : I) (row : AuthRow) : Decidable (node.Free id row) :=
  inferInstanceAs (Decidable (∀ other ≠ id, row ∉ (node.calls other).locks))

instance (row : AuthRow) : Decidable (node.Unlocked row) :=
  inferInstanceAs (Decidable (∀ id, row ∉ (node.calls id).locks))

/-- One statement, with the login that it issues a token for. It waits for the rows that it writes;
identifiers of challenges are not made twice. -/
def perform : AuthOp I → Option (Option Login × AuthNode I)
  | .tick now => if node.clock ≤ now then some (none, { node with clock := now }) else none
  | .pruneExpired =>
    if ∀ id, ∀ login ∈ (node.calls id).login, .challenge login.challenge ∈ (node.calls id).locks →
        (node.challenges login.challenge).all (node.clock < ·.expiresAt) then
      some (none, { node with
        challenges := fun challenge =>
          (node.challenges challenge).filter (node.clock < ·.expiresAt) })
    else none
  | .createChallenge challenge pubkey =>
    match normalizePubkey pubkey, node.created challenge with
    | .ok pubkey, none =>
      let row := some ⟨pubkey, node.clock + authChallengeTtlSeconds, false⟩
      some (none, { node with
        challenges := Function.update node.challenges challenge row
        created := Function.update node.created challenge row })
    | _, _ => none
  | .verify id request =>
    match node.calls id, checkLogin primitives node.challenges node.clock request with
    | .idle, .ok login => some (none, node.withCall id (.checked login))
    | _, _ => none
  | .next id =>
    if ∀ row ∈ (node.calls id).target, node.Free id row then
      match node.next primitives (node.calls id) with
      | some (.ok phase) => some (none, node.withCall id phase)
      | some (.error _) => some (none, node.withCall id .idle)
      | none => none
    else none
  | .commit id =>
    match node.calls id with
    | .admitted login passage .account =>
      some (none, (node.commit login passage).withCall id (.committed login))
    | _ => none
  | .issueToken id =>
    match node.calls id with
    | .committed login => some (some login, node.withCall id .idle)
    | _ => none
  | .ban pubkey =>
    if node.Unlocked (.account pubkey) then
      some (none, { node with
        accounts := Function.update node.accounts pubkey
          (some ⟨.banned, (node.accounts pubkey).any (·.admitted)⟩) })
    else none
  | .unban pubkey =>
    if node.Unlocked (.account pubkey) then
      some (none, { node with
        accounts := Function.update node.accounts pubkey
          ((node.accounts pubkey).map fun row => { row with status := .active }) })
    else none
  | .revoke codeHash =>
    if node.Unlocked (.code codeHash) then
      some (none, { node with
        codes := Function.update node.codes codeHash
          ((node.codes codeHash).map fun row => { row with revoked := true }) })
    else none
  | .addAllowlist pubkey =>
    some (none, { node with allowlist := Function.update node.allowlist pubkey true })
  | .removeAllowlist pubkey =>
    some (none, { node with allowlist := Function.update node.allowlist pubkey false })
  | .setAdmissionMode mode => some (none, { node with admissionMode := mode })

end AuthNode

def AuthStep {I : Type} [DecidableEq I] [Fintype I] (primitives : EnvelopePrimitives)
    (node : AuthNode I) (op : AuthOp I) (ret : Option Login) (node' : AuthNode I) : Prop :=
  node.perform primitives op = some (ret, node')

abbrev AuthEvent (I : Type) := Event (AuthNode I) (AuthOp I) (Option Login)

/-! ### Statements -/

/-- How a verification goes on by a statement, and what it has read then. -/
inductive NextPhase {I : Type} (node : AuthNode I) : LoginPhase → LoginPhase → Prop
  | member {login : Login} (hadmitted : node.Admitted login.pubkey) :
    NextPhase node (.checked login) (.admitted login .member .nothing)
  | openToAll {login : Login} (hmode : login.mode = .openToAll) :
    NextPhase node (.checked login) (.admitted login .openToAll .nothing)
  | undecided {login : Login} (hmode : login.mode ≠ .openToAll) :
    NextPhase node (.checked login) (.undecided login)
  | allowlisted {login : Login} (hlisted : node.allowlist login.pubkey = true) :
    NextPhase node (.undecided login) (.admitted login .allowlisted .nothing)
  | redeeming {login : Login} {codeHash : String} (hmode : login.mode ≠ .whitelist) :
    NextPhase node (.undecided login) (.redeeming login codeHash)
  | redeemed {login : Login} {codeHash : String} {row : InviteCode}
      (hrow : node.codes codeHash = some row) (hredeemable : row.Redeemable node.clock) :
    NextPhase node (.redeeming login codeHash)
      (.admitted login (.redeemed codeHash node.clock) .nothing)
  | marked {login : Login} {passage : Passage} :
    NextPhase node (.admitted login passage .nothing) (.admitted login passage .challenge)
  | written {login : Login} {passage : Passage} (hbanned : ¬ node.Banned login.pubkey) :
    NextPhase node (.admitted login passage .challenge) (.admitted login passage .account)

theorem nextPhase_of_next {I : Type} {primitives : EnvelopePrimitives} {node : AuthNode I}
    {phase phase' : LoginPhase} (h : node.next primitives phase = some (.ok phase')) :
  NextPhase node phase phase'
  := by
  cases phase with
  | idle | committed _ => cases h
  | checked login =>
    simp only [AuthNode.next] at h
    split at h <;> try cases h
    case h_2 hrow => exact .member ⟨_, hrow, rfl⟩
    case h_3 =>
      split at h <;> cases h
      case isTrue hmode => exact .openToAll hmode
      case isFalse hmode => exact .undecided hmode
  | undecided login =>
    simp only [AuthNode.next] at h
    split at h
    case isTrue hlisted =>
      cases h
      exact .allowlisted hlisted
    case isFalse =>
      split at h
      case isTrue => cases h
      case isFalse hmode =>
        split at h <;> cases h
        exact .redeeming hmode
  | redeeming login codeHash =>
    simp only [AuthNode.next, redeemInviteCode] at h
    split at h
    case h_1 => cases h
    case h_2 row hrow =>
      split_ifs at h with hrevoked hexpired hused <;> cases h
      refine .redeemed hrow ⟨Bool.of_not_eq_true hrevoked, ?_, ?_⟩
      · intro expiresAt hexpires
        simpa [Option.mem_def.mp hexpires] using hexpired
      · intro maxUses hmax
        simpa [Option.mem_def.mp hmax] using hused
  | admitted login passage writes =>
    cases writes with
    | nothing =>
      cases h
      exact .marked
    | challenge =>
      simp only [AuthNode.next] at h
      split_ifs at h with hbanned <;> cases h
      refine .written fun ⟨row, hrow, hstatus⟩ => hbanned ?_
      simp [hrow, hstatus]
    | account => cases h

end Kukuri
