import Kukuri.Data.BTree

/-!
# Admission of network work

The admission and cancellation policy of one account runtime: `NetworkWorkOwner` holds the
admitted work in seven indices that refer to each other and two counters. Every operation
that may panic returns `Except Panic`.

Identifiers and counters are natural numbers, instants are counted in nanoseconds. The hash
of the metadata is a parameter of `admitWork`.
-/

namespace Kukuri.WorkAdmission

/-- The largest value of a 64 bit counter. -/
def u64Max : ℕ := 2 ^ 64 - 1

/-- A point in time, in nanoseconds. -/
abbrev Instant := ℕ

/-- How an operation can panic. -/
inductive Panic where
  | expect (message : String)
  | missingKey
  | indexOutOfBounds
  | underflow
  deriving DecidableEq, Repr

/-- Subtraction of machine integers. -/
def checkedSub (a b : ℕ) : Except Panic ℕ :=
  if b ≤ a then .ok (a - b) else .error .underflow

/-! ### Tokens and keys -/

structure WorkLimits where
  scopes : ℕ := 64
  requests : ℕ := 256
  waitersPerRequest : ℕ := 64
  metadataBytes : ℕ := 4 * 1024 * 1024
  running : ℕ := 8
  deriving DecidableEq, Repr

structure WorkScope where
  owner : ℕ
  generation : ℕ
  deriving DecidableEq, Repr

instance : LinearOrder WorkScope :=
  LinearOrder.lift' (fun scope => toLex (scope.owner, scope.generation))
    (by rintro ⟨_, _⟩ ⟨_, _⟩ h; simpa using h)

structure WorkId where
  owner : ℕ
  serial : ℕ
  deriving DecidableEq, Repr

instance : LinearOrder WorkId :=
  LinearOrder.lift' (fun id => toLex (id.owner, id.serial))
    (by rintro ⟨_, _⟩ ⟨_, _⟩ h; simpa using h)

structure WorkWaiter where
  scope : WorkScope
  work : WorkId
  serial : ℕ
  deriving DecidableEq, Repr

inductive WorkProtocol where
  | gossip | docs | blob | receiveBinding | communityNode
  deriving DecidableEq, Repr

instance : LinearOrder WorkProtocol :=
  LinearOrder.lift' WorkProtocol.ctorIdx (by rintro ⟨⟩ ⟨⟩ <;> decide)

inductive WorkMode where
  | localOnly | display | fetch | send | sync
  deriving DecidableEq, Repr

instance : LinearOrder WorkMode :=
  LinearOrder.lift' WorkMode.ctorIdx (by rintro ⟨⟩ ⟨⟩ <;> decide)

inductive WorkPersistence where
  | ephemeral | store
  deriving DecidableEq, Repr

instance : LinearOrder WorkPersistence :=
  LinearOrder.lift' WorkPersistence.ctorIdx (by rintro ⟨⟩ ⟨⟩ <;> decide)

inductive WorkLane where
  | interactive | send | background
  deriving DecidableEq, Repr

instance : LinearOrder WorkLane :=
  LinearOrder.lift' WorkLane.ctorIdx (by rintro ⟨⟩ ⟨⟩ <;> decide)

/-- The queue of a lane. -/
def WorkLane.index : WorkLane → Fin 3
  | .interactive => 0
  | .send => 1
  | .background => 2

/-- The weighted order in which the queues are visited. -/
def lanes : List (Fin 3) := [0, 0, 0, 0, 1, 1, 2]

/-- A digest of 32 bytes. -/
abbrev ObjectDigest := { bytes : List (Fin 256) // bytes.length = 32 }

structure WorkKey where
  scope : WorkScope
  protocol : WorkProtocol
  object : ObjectDigest
  mode : WorkMode
  persistence : WorkPersistence
  byteLimit : ℕ
  deadline : Instant
  lane : WorkLane
  deriving DecidableEq

/-- The fields of a key, compared from left to right. -/
def WorkKey.fields (key : WorkKey) :=
  toLex (key.scope, toLex (key.protocol, toLex (key.object, toLex (key.mode,
    toLex (key.persistence, toLex (key.byteLimit, toLex (key.deadline, key.lane)))))))

instance : LinearOrder WorkKey :=
  LinearOrder.lift' WorkKey.fields (by
    rintro ⟨_, _, _, _, _, _, _, _⟩ ⟨_, _, _, _, _, _, _, _⟩ h
    simpa [WorkKey.fields] using h)

/-! ### Results -/

inductive AdmissionDenied where
  | inactiveScope | expired | metadataTooLarge | conflictingMetadata | localOnly
  | identifierExhausted
  deriving DecidableEq, Repr

inductive Admission where
  | admitted (waiter : WorkWaiter)
  | joined (waiter : WorkWaiter)
  | deferred (retryAt : Instant)
  | denied (reason : AdmissionDenied)
  deriving DecidableEq, Repr

structure StartedWork where
  id : WorkId
  key : WorkKey
  metadata : List UInt8
  deriving DecidableEq

inductive WorkCompletion where
  | publish | discard | unknown
  deriving DecidableEq, Repr

structure WorkUsage where
  scopes : ℕ
  requests : ℕ
  running : ℕ
  stopping : ℕ
  metadataBytes : ℕ
  waiters : ℕ
  deriving DecidableEq, Repr

/-! ### The owner -/

inductive Phase where
  | queued | running | stopping
  deriving DecidableEq, Repr

structure Entry (Hash : Type) where
  key : WorkKey
  metadata : Option (List UInt8)
  metadataHash : Hash
  metadataBytes : ℕ
  waiters : BTreeSet ℕ
  phase : Phase

instance transCmpDeadline :
    Std.TransCmp (inferInstance : LinearOrder (Instant ×ₗ WorkId)).toOrd.compare :=
  transCmpOfLinearOrder

structure NetworkWorkOwner (Hash : Type) where
  owner : ℕ
  serial : ℕ
  limits : WorkLimits
  scopes : BTreeMap WorkScope (BTreeSet WorkId)
  entries : BTreeMap WorkId (Entry Hash)
  keys : BTreeMap WorkKey WorkId
  deadlines : BTreeSet (Instant ×ₗ WorkId)
  queues : Fin 3 → BTreeSet WorkId
  cancellations : BTreeSet WorkId
  cursor : ℕ
  running : ℕ
  metadataBytes : ℕ

namespace NetworkWorkOwner

variable {Hash : Type} [DecidableEq Hash]

/-- A new owner with the given identity. -/
def new (owner : ℕ) (limits : WorkLimits) : NetworkWorkOwner Hash where
  owner := owner
  serial := 0
  limits := limits
  scopes := ∅
  entries := ∅
  keys := ∅
  deadlines := ∅
  queues := fun _ => ∅
  cancellations := ∅
  cursor := 0
  running := 0
  metadataBytes := 0

/-- The next serial number, unless the counter is exhausted. -/
def nextSerial (s : NetworkWorkOwner Hash) : Option (ℕ × NetworkWorkOwner Hash) :=
  if s.serial < u64Max then some (s.serial + 1, { s with serial := s.serial + 1 }) else none

def registerScope (s : NetworkWorkOwner Hash) : NetworkWorkOwner Hash × Option WorkScope :=
  if s.limits.scopes ≤ s.scopes.size then (s, none)
  else
    match s.nextSerial with
    | none => (s, none)
    | some (serial, s) =>
      let scope : WorkScope := ⟨s.owner, serial⟩
      ({ s with scopes := s.scopes.insert scope ∅ }, some scope)

/-- Take a piece of work out of every index. -/
def remove (s : NetworkWorkOwner Hash) (id : WorkId) : Except Panic (NetworkWorkOwner Hash) :=
  match s.entries[id]? with
  | none => .ok s
  | some entry => do
    let running ← if entry.phase = .queued then pure s.running else checkedSub s.running 1
    let metadataBytes ← checkedSub s.metadataBytes entry.metadataBytes
    pure { s with
      entries := s.entries.erase id
      keys := s.keys.erase entry.key
      deadlines := s.deadlines.erase (toLex (entry.key.deadline, id))
      queues := Function.update s.queues entry.key.lane.index
        ((s.queues entry.key.lane.index).erase id)
      cancellations := s.cancellations.erase id
      scopes := s.scopes.modify entry.key.scope (fun work => work.erase id)
      running := running
      metadataBytes := metadataBytes }

/-- Queued work is removed; running work keeps its slot and waits for its cancellation to be
handed out. -/
def cancel (s : NetworkWorkOwner Hash) (id : WorkId) : Except Panic (NetworkWorkOwner Hash) :=
  match s.entries[id]? with
  | none => .ok s
  | some entry =>
    match entry.phase with
    | .queued => s.remove id
    | .running => .ok { s with
        entries := s.entries.insert id { entry with phase := .stopping }
        deadlines := s.deadlines.erase (toLex (entry.key.deadline, id))
        cancellations := s.cancellations.insert id }
    | .stopping => .ok s

/-- Cancel a list of pieces of work, one after the other. -/
def cancelAll (s : NetworkWorkOwner Hash) : List WorkId → Except Panic (NetworkWorkOwner Hash)
  | [] => .ok s
  | id :: ids => do
    let s ← s.cancel id
    cancelAll s ids

/-- The scope row goes first, then every piece of work that was listed in it. -/
def revokeScope (s : NetworkWorkOwner Hash) (scope : WorkScope) :
    Except Panic (NetworkWorkOwner Hash) :=
  match s.scopes[scope]? with
  | none => .ok s
  | some work => cancelAll { s with scopes := s.scopes.erase scope } work.toList

/-- The loop of `expire`. Every round takes one deadline out of the set, so its size bounds
the number of rounds. -/
def expireLoop : ℕ → NetworkWorkOwner Hash → Instant → Except Panic (NetworkWorkOwner Hash)
  | 0, s, _ => .ok s
  | rounds + 1, s, now =>
    match BTreeSet.first s.deadlines with
    | none => .ok s
    | some first =>
      if now < (ofLex first).1 then .ok s
      else do
        let s ← cancel { s with deadlines := s.deadlines.erase first } (ofLex first).2
        expireLoop rounds s now

def expire (s : NetworkWorkOwner Hash) (now : Instant) : Except Panic (NetworkWorkOwner Hash) :=
  expireLoop s.deadlines.size s now

def nextDeadline (s : NetworkWorkOwner Hash) : Option Instant :=
  (BTreeSet.first s.deadlines).map fun first => (ofLex first).1

/-- The caller may try again 250 ms later. -/
def deferred (now : Instant) : Admission := .deferred (now + 250000000)

/-- The reason to refuse a request before any index is looked up. -/
def denial (s : NetworkWorkOwner Hash) (key : WorkKey) (metadata : List UInt8) (now : Instant) :
    Option AdmissionDenied :=
  if ¬ key.scope ∈ s.scopes then some .inactiveScope
  else if key.deadline ≤ now then some .expired
  else if key.mode = .localOnly then some .localOnly
  else if s.limits.metadataBytes < metadata.length then some .metadataTooLarge
  else none

/-- Join the work `id` that already has the key. -/
def join (hash : List UInt8 → Hash) (s : NetworkWorkOwner Hash) (id : WorkId) (key : WorkKey)
    (metadata : List UInt8) (now : Instant) :
    Except Panic (NetworkWorkOwner Hash × Admission) :=
  match s.entries[id]? with
  | none => .error .missingKey
  | some entry =>
    if entry.metadataHash ≠ hash metadata then .ok (s, .denied .conflictingMetadata)
    else if entry.phase = .stopping ∨ s.limits.waitersPerRequest ≤ entry.waiters.size then
      .ok (s, deferred now)
    else
      match s.nextSerial with
      | none => .ok (s, .denied .identifierExhausted)
      | some (serial, s) =>
        match s.entries[id]? with
        | none => .error (.expect "indexed work exists")
        | some entry =>
          .ok ({ s with entries :=
              s.entries.insert id { entry with waiters := entry.waiters.insert serial } },
            .joined ⟨key.scope, id, serial⟩)

/-- Admit new work, when there is room for it. -/
def enqueue (hash : List UInt8 → Hash) (s : NetworkWorkOwner Hash) (key : WorkKey)
    (metadata : List UInt8) (now : Instant) :
    Except Panic (NetworkWorkOwner Hash × Admission) := do
  -- The last test of the source subtracts, so it is the only one that could panic.
  if s.limits.requests ≤ s.entries.size ∨ s.limits.waitersPerRequest = 0 then
    return (s, deferred now)
  let room ← checkedSub s.limits.metadataBytes s.metadataBytes
  if room < metadata.length then
    return (s, deferred now)
  match s.nextSerial with
  | none => return (s, .denied .identifierExhausted)
  | some (serial, s) =>
    let id : WorkId := ⟨s.owner, serial⟩
    match s.scopes[key.scope]? with
    | none => throw (.expect "scope validated before admission")
    | some work =>
      return ({ s with
        entries := s.entries.insert id
          { key, metadata := some metadata, metadataHash := hash metadata,
            metadataBytes := metadata.length, waiters := (∅ : BTreeSet ℕ).insert serial,
            phase := .queued }
        keys := s.keys.insert key id
        scopes := s.scopes.insert key.scope (work.insert id)
        deadlines := s.deadlines.insert (toLex (key.deadline, id))
        queues := Function.update s.queues key.lane.index ((s.queues key.lane.index).insert id)
        metadataBytes := s.metadataBytes + metadata.length },
        .admitted ⟨key.scope, id, serial⟩)

def admitWork (hash : List UInt8 → Hash) (s : NetworkWorkOwner Hash) (key : WorkKey)
    (metadata : List UInt8) (now : Instant) :
    Except Panic (NetworkWorkOwner Hash × Admission) := do
  let s ← s.expire now
  match s.denial key metadata now with
  | some reason => return (s, .denied reason)
  | none =>
    match s.keys[key]? with
    | some id => join hash s id key metadata now
    | none => enqueue hash s key metadata now

def releaseWaiter (s : NetworkWorkOwner Hash) (waiter : WorkWaiter) :
    Except Panic (NetworkWorkOwner Hash) :=
  match s.entries[waiter.work]? with
  | none => .ok s
  | some entry =>
    if entry.key.scope ≠ waiter.scope ∨ ¬ waiter.serial ∈ entry.waiters then .ok s
    else
      let waiters := entry.waiters.erase waiter.serial
      let s := { s with entries := s.entries.insert waiter.work { entry with waiters } }
      if waiters.isEmpty ∧ (entry.phase = .queued ∨ entry.key.mode = .display) then
        s.cancel waiter.work
      else .ok s

/-- The loop of `startNext` over the lanes. -/
def startLoop : ℕ → NetworkWorkOwner Hash →
    Except Panic (NetworkWorkOwner Hash × Option StartedWork)
  | 0, s => .ok (s, none)
  | rounds + 1, s =>
    match lanes[s.cursor]? with
    | none => .error .indexOutOfBounds
    | some lane =>
      let s := { s with cursor := (s.cursor + 1) % lanes.length }
      match BTreeSet.popFirst (s.queues lane) with
      | none => startLoop rounds s
      | some (id, queue) =>
        let s := { s with queues := Function.update s.queues lane queue }
        match s.entries[id]? with
        | none => .error (.expect "queued work exists")
        | some entry =>
          match entry.metadata with
          | none => .error (.expect "queued work owns metadata")
          | some metadata =>
            .ok ({ s with
              entries := s.entries.insert id { entry with phase := .running, metadata := none }
              running := s.running + 1 }, some ⟨id, entry.key, metadata⟩)

def startNext (s : NetworkWorkOwner Hash) (now : Instant) :
    Except Panic (NetworkWorkOwner Hash × Option StartedWork) := do
  let s ← s.expire now
  if s.limits.running ≤ s.running then return (s, none)
  startLoop lanes.length s

def nextCancellation (s : NetworkWorkOwner Hash) : NetworkWorkOwner Hash × Option WorkId :=
  match BTreeSet.popFirst s.cancellations with
  | none => (s, none)
  | some (id, cancellations) => ({ s with cancellations }, some id)

/-- Whether a finished attempt may be published. -/
def publishes (s : NetworkWorkOwner Hash) (entry : Entry Hash) (now : Instant) : Bool :=
  entry.phase = .running ∧ now < entry.key.deadline ∧ entry.key.scope ∈ s.scopes

def complete (s : NetworkWorkOwner Hash) (id : WorkId) (now : Instant) :
    Except Panic (NetworkWorkOwner Hash × WorkCompletion) :=
  match s.entries[id]? with
  | none => .ok (s, .unknown)
  | some entry =>
    if entry.phase = .queued then .ok (s, .unknown)
    else do
      let publish := s.publishes entry now
      let s ← s.remove id
      return (s, if publish then .publish else .discard)

/-- Whether a reservation still occupies capacity. -/
def contains (s : NetworkWorkOwner Hash) (id : WorkId) : Bool := s.entries.contains id

def usage (s : NetworkWorkOwner Hash) : WorkUsage where
  scopes := s.scopes.size
  requests := s.entries.size
  running := s.running
  stopping := BTreeMap.countOver (fun _ entry => entry.phase = .stopping) s.entries
  metadataBytes := s.metadataBytes
  waiters := BTreeMap.sumOver (fun _ entry => entry.waiters.size) s.entries

/-! ### Calls -/

/-- A call of the public interface. The tokens are arbitrary values, so they may be stale or
belong to another owner. -/
inductive Call where
  | registerScope
  | revokeScope (scope : WorkScope)
  | admitWork (key : WorkKey) (metadata : List UInt8) (now : Instant)
  | releaseWaiter (waiter : WorkWaiter)
  | startNext (now : Instant)
  | expire (now : Instant)
  | nextCancellation
  | complete (id : WorkId) (now : Instant)

/-- What a call returns. -/
inductive Reply where
  | unit
  | scope (scope : Option WorkScope)
  | admission (admission : Admission)
  | started (work : Option StartedWork)
  | cancellation (id : Option WorkId)
  | completion (completion : WorkCompletion)
  deriving DecidableEq

def step (hash : List UInt8 → Hash) (s : NetworkWorkOwner Hash) :
    Call → Except Panic (NetworkWorkOwner Hash × Reply)
  | .registerScope => .ok (s.registerScope.1, .scope s.registerScope.2)
  | .revokeScope scope => (·, .unit) <$> s.revokeScope scope
  | .admitWork key metadata now =>
      (fun result => (result.1, .admission result.2)) <$> s.admitWork hash key metadata now
  | .releaseWaiter waiter => (·, .unit) <$> s.releaseWaiter waiter
  | .startNext now => (fun result => (result.1, .started result.2)) <$> s.startNext now
  | .expire now => (·, .unit) <$> s.expire now
  | .nextCancellation => .ok (s.nextCancellation.1, .cancellation s.nextCancellation.2)
  | .complete id now => (fun result => (result.1, .completion result.2)) <$> s.complete id now

/-- Make the calls of a list, one after the other. -/
def run (hash : List UInt8 → Hash) (s : NetworkWorkOwner Hash) :
    List Call → Except Panic (NetworkWorkOwner Hash × List Reply)
  | [] => .ok (s, [])
  | call :: calls => do
    let (s, reply) ← s.step hash call
    let (s, replies) ← run hash s calls
    return (s, reply :: replies)

end NetworkWorkOwner

end Kukuri.WorkAdmission
