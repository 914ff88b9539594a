import Kukuri.Core.Budget
import Kukuri.Core.Transition
import Kukuri.Data.Command
import Kukuri.Metaverse.InputLedger

/-!
# Dome sessions

The session that a host runs for an instance: who is present, which bodies there are, and the
transitions that are under way. Bodies move in the world of a physics engine, which is a
parameter: `Physics` lists the operations that a session uses. What was fixed at the start is
in `DomeSession`, what changes in `DomeSessionState`.
-/

namespace Kukuri

open Result

/-! ### State -/

/-- The least and the greatest corner of a box, in centimetres. -/
abbrev Bounds := Vec3 × Vec3

/-- The operations of the physics engine. -/
structure Physics (World Handle : Type) where
  /-- A world with the floor of the Dome only. -/
  initial : World
  /-- A body for a prop. -/
  insertProp : World → MetaversePersistentProp → Handle × World
  /-- A body for an avatar at the position. -/
  insertAvatar : World → MetaverseCollider → Vec3 → Handle × World
  remove : World → Handle → World
  hasBody : World → Handle → Bool
  setTransform : World → Handle → Vec3 → Vec3 → World
  applyImpulse : World → Handle → Vec3 → World
  /-- The boxes around the colliders of a body, `none` for a collider that is missing. -/
  colliderBounds : World → Handle → List (Option Bounds)
  /-- Whether the body stands in the opening of the direction, behind the wall. -/
  inOpening : World → Handle → DomeDirection → Bool
  /-- Move the body back into the Dome, or into the corridor of the direction. -/
  clamp : World → Handle → Option DomeDirection → World
  step : World → World

inductive DomePhysicsBodyKind where
  | avatar | persistentProp | guestProp
  deriving DecidableEq, Repr

structure RuntimeBody (Handle : Type) where
  handle : Handle
  kind : DomePhysicsBodyKind
  animation : Option String
  grabbedBy : Option String
  expiresAt : Option ℤ
  persistentDefinition : Option MetaversePersistentProp
  createdBy : Option String
  assetBytes : ℕ

structure RateWindow where
  startedAt : ℤ
  count : ℕ
  deriving DecidableEq, Repr

structure PlayerBudgetState where
  inputBytes : RateWindow
  spawns : RateWindow
  interactions : RateWindow
  deriving DecidableEq, Repr

structure PreparedExit where
  transitionId : String
  direction : DomeDirection
  deriving DecidableEq, Repr

/-- What is fixed when a session starts. -/
structure DomeSession where
  lease : DomeHostingLease
  sessionId : String
  budget : MetaverseResourceBudgetConfig
  verifiedAssets : BTreeMap String MetaverseAssetRef
  participantLimit : ℕ
  defaultSpawn : MetaverseRoomSpawn

structure DomeSessionState (World Handle : Type) where
  participants : BTreeSet String
  transitionReservations : BTreeMap String DomeTransitionAdmissionTicket
  committedTransitions : BTreeMap String DomeTransitionAdmissionTicket
  preparedExits : BTreeMap String PreparedExit
  transitionEntries : BTreeMap String DomeDirection
  seatedOn : BTreeMap String String
  inputs : InputLedger
  participantLastSeenAt : BTreeMap String ℤ
  bodiesById : BTreeMap String (RuntimeBody Handle)
  world : World
  lastSimulatedAt : ℤ
  playerBudgets : BTreeMap String PlayerBudgetState
  rejectionCounts : BTreeMap String ℕ
  rejectedTotal : ℕ
  participantHighWater : ℕ
  rigidBodyHighWater : ℕ

/-- The identifier of the avatar of a participant. -/
def avatarId (participantId : String) : String := "avatar:" ++ participantId

/-- The participant whose avatar has the identifier. -/
def avatarOwner (entityId : String) : Option String :=
  if "avatar:".toList.isPrefixOf entityId.toList then
    some (String.ofList (entityId.toList.drop 7))
  else none

variable {World Handle : Type}

/-- Calls of a session. -/
abbrev SessionCommand (World Handle α : Type) :=
  Command SessionError (DomeSessionState World Handle) α

section

open Command

/-- Fail with a message when the condition holds. -/
def refuseIf (condition : Prop) [Decidable condition] (message : String) :
    SessionCommand World Handle Unit :=
  lift (orFail (bailIf condition message))

/-! ### Budgets -/

inductive PlayerWindow where
  | inputBytes | spawns | interactions
  deriving DecidableEq, Repr

namespace PlayerBudgetState

def empty : PlayerBudgetState := ⟨⟨0, 0⟩, ⟨0, 0⟩, ⟨0, 0⟩⟩

def get (player : PlayerBudgetState) : PlayerWindow → RateWindow
  | .inputBytes => player.inputBytes
  | .spawns => player.spawns
  | .interactions => player.interactions

def set (player : PlayerBudgetState) (window : RateWindow) : PlayerWindow → PlayerBudgetState
  | .inputBytes => { player with inputBytes := window }
  | .spawns => { player with spawns := window }
  | .interactions => { player with interactions := window }

end PlayerBudgetState

/-- Whether the window has room for the amount, and the window afterwards. -/
def windowAllows (window : RateWindow) (nowMillis durationMillis : ℤ) (amount limit : ℕ) :
    Bool × RateWindow :=
  let window :=
    if window.startedAt = 0 ∨ durationMillis ≤ I64.saturatingSub nowMillis window.startedAt then
      ⟨nowMillis, 0⟩
    else window
  let window := { window with count := U64.saturatingAdd window.count amount }
  (window.count ≤ limit, window)

/-- Take the amount from a window of the player. -/
def charge (participantId : String) (window : PlayerWindow) (nowMillis durationMillis : ℤ)
    (amount limit : ℕ) (resource : MetaverseBudgetResource) :
    SessionCommand World Handle Unit := do
  let state ← get
  let player := state.playerBudgets[participantId]?.getD .empty
  let (allowed, after) := windowAllows (player.get window) nowMillis durationMillis amount limit
  modify fun state => { state with
    playerBudgets := state.playerBudgets.insert participantId (player.set after window) }
  if allowed then pure ()
  else lift (.error (.rejected ⟨.player, resource, .rateExceeded, after.count, limit⟩))

def checkBodyCapacity (session : DomeSession) (state : DomeSessionState World Handle)
    (added : ℕ) : Except SessionError Unit := do
  let observed := state.bodiesById.size + added
  checkLimit .dome .rigidBodies observed session.budget.dome.maxRigidBodies
  checkLimit .dome .colliders observed session.budget.dome.maxColliders
  checkLimit .host .rigidBodies observed session.budget.host.maxSimulatedRigidBodies

def checkVerifiedAsset (session : DomeSession) (asset : Option MetaverseAssetRef) :
    Except SessionError Unit := do
  match asset with
  | none => pure ()
  | some asset =>
    orFail (validateMetaverseAssetMetadata asset.kind asset.sizeBytes asset.budgetMetadata)
    if session.verifiedAssets[asset.blobHash]? ≠ some asset then
      .error (.rejected ⟨.host, .assetFormat, .unverifiedAsset, 1, 0⟩)
    else pure ()

def recordRejection (rejection : MetaverseResourceRejection)
    (state : DomeSessionState World Handle) : DomeSessionState World Handle :=
  { state with
    rejectedTotal := U64.saturatingAdd state.rejectedTotal 1
    rejectionCounts := state.rejectionCounts.insert rejection.code
      (state.rejectionCounts[rejection.code]?.getD 0 + 1) }

/-! ### Bodies -/

section

variable (physics : Physics World Handle)

def insertProp (prop : MetaversePersistentProp) (kind : DomePhysicsBodyKind)
    (expiresAt : Option ℤ) (createdBy : Option String) : SessionCommand World Handle Unit := do
  let state ← get
  refuseIf (prop.propId ∈ state.bodiesById) "Dome physics entity id already exists"
  modify fun state =>
    let (handle, world) := physics.insertProp state.world prop
    let bodiesById := state.bodiesById.insert prop.propId {
      handle, kind, expiresAt, createdBy
      animation := none
      grabbedBy := none
      persistentDefinition := if kind = .persistentProp then some prop else none
      assetBytes := (prop.assetRef.bind MetaverseAssetRef.sizeBytes).getD 0 }
    { state with
      world, bodiesById
      rigidBodyHighWater := max state.rigidBodyHighWater (U32.saturate bodiesById.size) }

def removeBody (entityId : String) (state : DomeSessionState World Handle) :
    DomeSessionState World Handle :=
  match state.bodiesById[entityId]? with
  | none => state
  | some body =>
    { state with
      bodiesById := state.bodiesById.erase entityId
      world := physics.remove state.world body.handle }

def colliderBoundsCm (collider : MetaverseCollider) (origin : Vec3) (margin : ℤ) : Bounds :=
  let (center, extents) : Vec3 × Vec3 := match collider with
    | .capsule center radius halfHeight => (center, ⟨radius, halfHeight + radius, radius⟩)
    | .cuboid center halfExtents => (center, halfExtents)
  let center : Vec3 := ⟨origin.x + center.x, origin.y + center.y, origin.z + center.z⟩
  (⟨center.x - extents.x - margin, center.y - extents.y, center.z - extents.z - margin⟩,
    ⟨center.x + extents.x + margin, center.y + extents.y, center.z + extents.z + margin⟩)

def spawnBoundsInsideDome (bounds : Bounds) : Bool :=
  0 ≤ bounds.1.y ∧ [bounds.1.x, bounds.2.x].all fun x => [bounds.1.z, bounds.2.z].all fun z =>
    let horizontalSquared := x * x + z * z
    let radiusSquared := innerRadiusCm * innerRadiusCm
    horizontalSquared < radiusSquared ∧
      bounds.2.y * bounds.2.y ≤ radiusSquared - horizontalSquared

def aabbOverlaps (left right : Bounds) : Bool :=
  left.1.x < right.2.x ∧ right.1.x < left.2.x ∧ left.1.y < right.2.y ∧ right.1.y < left.2.y ∧
    left.1.z < right.2.z ∧ right.1.z < left.2.z

def spawnBoundsOverlapBody (state : DomeSessionState World Handle) (candidate : Bounds) : Bool :=
  state.bodiesById.toList.any fun row =>
    ¬ physics.hasBody state.world row.2.handle ∨
      (physics.colliderBounds state.world row.2.handle).any fun bounds =>
        bounds.all fun bounds => aabbOverlaps candidate bounds

/-- The places around the spawn point, in the order in which they are tried. -/
def spawnOffsets : List (ℤ × ℤ) :=
  [(0, 0), (1, 0), (0, 1), (-1, 0), (0, -1), (1, 1), (-1, 1), (-1, -1), (1, -1), (2, 0), (0, 2),
    (-2, 0), (0, -2), (2, 1), (1, 2), (-1, 2), (-2, 1), (-2, -1), (-1, -2), (1, -2), (2, -1),
    (2, 2), (-2, 2), (-2, -2), (2, -2)]

def safeAvatarSpawn (session : DomeSession) (state : DomeSessionState World Handle)
    (collider : MetaverseCollider) : Result MetaverseRoomSpawn :=
  let stepCm := 150
  let safetyMarginCm := 25
  let candidates := spawnOffsets.map fun (offsetX, offsetZ) =>
    ({ position := ⟨session.defaultSpawn.position.x + offsetX * stepCm,
        session.defaultSpawn.position.y, session.defaultSpawn.position.z + offsetZ * stepCm⟩
       rotation := session.defaultSpawn.rotation } : MetaverseRoomSpawn)
  context (candidates.find? fun candidate =>
      let bounds := colliderBoundsCm collider candidate.position safetyMarginCm
      spawnBoundsInsideDome bounds && !spawnBoundsOverlapBody physics state bounds)
    "DOME_ENTRY_NO_SAFE_SPAWN"

def ensureAvatar (session : DomeSession) (participantId : String)
    (collider : Option MetaverseCollider) : SessionCommand World Handle Unit := do
  let state ← get
  if avatarId participantId ∈ state.bodiesById then pure ()
  else
    let fallback ← lift (orFail (fallbackCapsuleCollider ⟨-25, 0, -25⟩ ⟨25, 180, 25⟩))
    let collider := collider.getD fallback
    let spawn ← lift (orFail (safeAvatarSpawn physics session state collider))
    modify fun state =>
      let (handle, world) := physics.insertAvatar state.world collider spawn.position
      let bodiesById := state.bodiesById.insert (avatarId participantId) {
        handle
        kind := .avatar
        animation := some "idle"
        grabbedBy := none
        expiresAt := none
        persistentDefinition := none
        createdBy := none
        assetBytes := 0 }
      { state with
        world, bodiesById
        rigidBodyHighWater := max state.rigidBodyHighWater (U32.saturate bodiesById.size) }

/-- One body of `clampBodiesToDome`: the world afterwards and the entries that are complete. -/
def clampBody (state : DomeSessionState World Handle) (result : World × List String)
    (row : String × RuntimeBody Handle) : World × List String :=
  if physics.hasBody result.1 row.2.handle then
    let participantId := avatarOwner row.1
    let permitted := participantId.bind fun participantId =>
      (state.preparedExits[participantId]?.map PreparedExit.direction).or
        state.transitionEntries[participantId]?
    let world := physics.clamp result.1 row.2.handle permitted
    if permitted.any fun direction => physics.inOpening result.1 row.2.handle direction then
      (world, result.2)
    else
      (world, result.2 ++ participantId.toList.filter fun participantId =>
        participantId ∈ state.transitionEntries)
  else result

def clampBodiesToDome (state : DomeSessionState World Handle) : DomeSessionState World Handle :=
  let (world, completed) := state.bodiesById.toList.foldl (clampBody physics state)
    (state.world, [])
  { state with
    world
    transitionEntries := completed.foldl (fun entries id => entries.erase id)
      state.transitionEntries }

def setAvatarTransform (participantId : String) (position rotation : Vec3) :
    SessionCommand World Handle Unit := do
  let state ← get
  let body ← lift (orFail (context state.bodiesById[avatarId participantId]?
    "participant avatar body is missing"))
  refuseIf (¬ physics.hasBody state.world body.handle)
    "participant avatar rigid body is missing"
  modify fun state => { state with
    world := physics.setTransform state.world body.handle position rotation }

/-! ### Leaving -/

def revokeTransitionAccess (participantPubkey : Pubkey) (connectionId : Option String)
    (state : DomeSessionState World Handle) : ℕ × DomeSessionState World Handle :=
  let keep := fun (_ : String) (ticket : DomeTransitionAdmissionTicket) =>
    decide (ticket.request.participantPubkey ≠ participantPubkey ∧
      ∀ id ∈ connectionId, ticket.request.connectionId ≠ id)
  let transitionReservations := state.transitionReservations.filter keep
  (state.transitionReservations.size - transitionReservations.size, { state with
    transitionReservations
    committedTransitions := state.committedTransitions.filter keep
    preparedExits := state.preparedExits.erase participantPubkey })

def drainConnection (connectionId : String) (state : DomeSessionState World Handle) :
    ℕ × DomeSessionState World Handle :=
  let participants := (state.transitionReservations.toList.filter fun row =>
    row.2.request.connectionId = connectionId).map fun row => row.2.request.participantPubkey
  let transitionReservations := state.transitionReservations.filter fun _ ticket =>
    ticket.request.connectionId ≠ connectionId
  (state.transitionReservations.size - transitionReservations.size, { state with
    transitionReservations
    preparedExits := participants.foldl (fun exits participant => exits.erase participant)
      state.preparedExits })

/-- Bodies that the participant does not hold any more. -/
def releaseGrabs (participantId : String) (bodiesById : BTreeMap String (RuntimeBody Handle)) :
    BTreeMap String (RuntimeBody Handle) :=
  bodiesById.map fun _ body =>
    if body.grabbedBy = some participantId then { body with grabbedBy := none } else body

def evictParticipant (session : DomeSession) (participantPubkey : Pubkey)
    (state : DomeSessionState World Handle) : Bool × DomeSessionState World Handle :=
  let evicted := decide (participantPubkey ∈ state.participants)
  let state := { state with participants := state.participants.erase participantPubkey }
  let state := (revokeTransitionAccess participantPubkey none state).2
  let state := { state with
    transitionEntries := state.transitionEntries.erase participantPubkey
    seatedOn := state.seatedOn.erase participantPubkey
    inputs :=
      if evicted ∧ participantPubkey ≠ session.lease.ownerPubkey then
        state.inputs.retire participantPubkey session.participantLimit
      else state.inputs
    participantLastSeenAt := state.participantLastSeenAt.erase participantPubkey
    playerBudgets := state.playerBudgets.erase participantPubkey }
  let state := removeBody physics (avatarId participantPubkey) state
  (evicted, { state with bodiesById := releaseGrabs participantPubkey state.bodiesById })

/-! ### Inputs -/

def requireParticipant (participantId : String) : SessionCommand World Handle Unit := do
  let state ← get
  refuseIf (participantId ∉ state.participants) "Dome session input requires a joined participant"

def requireOwner (session : DomeSession) (input : DomeSessionInput) :
    SessionCommand World Handle Unit :=
  refuseIf (input.participantPubkey ≠ session.lease.ownerPubkey)
    "only the Dome owner can change persistent props"

def prepareTransitionExit (participantId transitionId : String) (direction : DomeDirection) :
    SessionCommand World Handle Unit := do
  requireParticipant participantId
  refuseIf (isBlank transitionId) "Dome transition id is required"
  let state ← get
  match state.preparedExits[participantId]? with
  | some existing =>
    refuseIf (existing ≠ ⟨transitionId, direction⟩)
      "participant already has another prepared Dome transition"
  | none =>
    modify fun state => { state with
      bodiesById := releaseGrabs participantId state.bodiesById
      seatedOn := state.seatedOn.erase participantId
      preparedExits := state.preparedExits.insert participantId ⟨transitionId, direction⟩ }

def abortTransitionExit (participantId transitionId : String) :
    SessionCommand World Handle Unit := do
  let state ← get
  match state.preparedExits[participantId]? with
  | some prepared =>
    refuseIf (prepared.transitionId ≠ transitionId) "DOME_TRANSITION_INVALID_TICKET"
    modify fun state => { state with preparedExits := state.preparedExits.erase participantId }
  | none => pure ()

def completeTransitionExit (session : DomeSession) (participantPubkey : Pubkey)
    (transitionId : String) : SessionCommand World Handle Unit := do
  let state ← get
  if participantPubkey ∉ state.participants then pure ()
  else
    let prepared ← lift (orFail (context state.preparedExits[participantPubkey]?
      "participant has no prepared Dome transition"))
    refuseIf (prepared.transitionId ≠ transitionId) "DOME_TRANSITION_INVALID_TICKET"
    modify fun state => (evictParticipant physics session participantPubkey state).2

/-- The prop that a participant throws or pushes. -/
def applyImpulse (participantId propId : String) (impulse : Vec3) (thrown : Bool) :
    SessionCommand World Handle Unit := do
  requireParticipant participantId
  let state ← get
  let body ← lift (orFail (context state.bodiesById[propId]? "Dome prop does not exist"))
  refuseIf (thrown ∧ body.grabbedBy ≠ some participantId)
    "participant cannot throw a prop it is not grabbing"
  refuseIf (¬ physics.hasBody state.world body.handle) "Dome prop rigid body is missing"
  modify fun state => { state with
    world := physics.applyImpulse state.world body.handle impulse
    bodiesById := state.bodiesById.insert propId { body with grabbedBy := none } }

def applyInput (session : DomeSession) (input : DomeSessionInput) :
    SessionCommand World Handle Unit := do
  let participantId := input.participantPubkey
  match input.input with
  | .join avatarCollider =>
    ensureAvatar physics session participantId avatarCollider
    modify fun state =>
      let participants := state.participants.insert participantId
      { state with
        participants
        participantHighWater := max state.participantHighWater (U32.saturate participants.size) }
  | .leave => modify fun state => (evictParticipant physics session participantId state).2
  | .keepAlive => requireParticipant participantId
  | .move position rotation animation =>
    requireParticipant participantId
    let state ← get
    let body ← lift (orFail (context state.bodiesById[avatarId participantId]?
      "participant avatar body is missing"))
    refuseIf (¬ physics.hasBody state.world body.handle)
      "participant avatar rigid body is missing"
    modify fun state => { state with
      world := physics.setTransform state.world body.handle position rotation
      bodiesById := state.bodiesById.insert (avatarId participantId)
        { body with animation := some animation } }
  | .grab propId =>
    requireParticipant participantId
    let state ← get
    let body ← lift (orFail (context state.bodiesById[propId]? "Dome prop does not exist"))
    modify fun state => { state with
      bodiesById := state.bodiesById.insert propId
        { body with grabbedBy := some participantId } }
  | .throw propId impulse => applyImpulse physics participantId propId impulse true
  | .push propId impulse => applyImpulse physics participantId propId impulse false
  | .sit propId =>
    requireParticipant participantId
    let state ← get
    refuseIf (propId ∉ state.bodiesById) "Dome seat prop does not exist"
    modify fun state => { state with seatedOn := state.seatedOn.insert participantId propId }
  | .prepareTransition transitionId direction =>
    prepareTransitionExit participantId transitionId direction
  | .abortTransition transitionId => abortTransitionExit participantId transitionId
  | .completeTransition transitionId =>
    completeTransitionExit physics session participantId transitionId
  | .spawnGuestProp prop expiresAt =>
    requireParticipant participantId
    let state ← get
    refuseIf (expiresAt ≤ state.lastSimulatedAt) "Dome guest prop is already expired"
    insertProp physics prop .guestProp (some expiresAt) (some participantId)
  | .upsertPersistentProp prop =>
    requireOwner session input
    modify (removeBody physics prop.propId)
    insertProp physics prop .persistentProp none none
  | .deletePersistentProp propId =>
    requireOwner session input
    let state ← get
    refuseIf (¬ state.bodiesById[propId]?.any fun body => body.kind = .persistentProp)
      "Dome persistent prop does not exist"
    modify (removeBody physics propId)

end

/-- The number of bodies that are persistent props. -/
def persistentPropCount (bodiesById : BTreeMap String (RuntimeBody Handle)) : ℕ :=
  BTreeMap.countOver (fun _ body => body.kind = .persistentProp) bodiesById

/-- Inputs that are refused while the participant is about to leave through an opening. -/
def isFenced : DomeSessionInputKind → Bool
  | .join _ | .grab _ | .throw _ _ | .push _ _ | .sit _ => true
  | _ => false

/-- The checks of an input against the budgets, by its kind. -/
def preflightKind (session : DomeSession) (participantId : String) (nowMillis : ℤ) :
    DomeSessionInputKind → SessionCommand World Handle Unit
  | .join _ => do
    let state ← get
    if participantId ∉ state.participants then
      lift (checkLimit .host .participants (state.participants.size + 1) session.participantLimit)
      lift (checkBodyCapacity session state 1)
    else pure ()
  | .spawnGuestProp prop _ => do
    charge participantId .spawns nowMillis 60000 1 session.budget.player.maxPropSpawnsPerMinute
      .propSpawnRate
    let state ← get
    let guestBodies := state.bodiesById.toList.filter fun row =>
      row.2.kind = .guestProp ∧ row.2.createdBy = some participantId
    let guestBytes := guestBodies.foldl
      (fun bytes row => U64.saturatingAdd bytes row.2.assetBytes) 0
    lift (checkLimit .player .guestProps (guestBodies.length + 1)
      session.budget.player.maxGuestProps)
    lift (checkVerifiedAsset session prop.assetRef)
    lift (checkLimit .player .modelBytes
      (U64.saturatingAdd guestBytes ((prop.assetRef.bind MetaverseAssetRef.sizeBytes).getD 0))
      session.budget.player.maxGuestPropBytes)
    lift (checkBodyCapacity session state 1)
  | .upsertPersistentProp prop => do
    lift (checkVerifiedAsset session prop.assetRef)
    let state ← get
    let replacing := decide (prop.propId ∈ state.bodiesById)
    let persistent := persistentPropCount state.bodiesById
    lift (checkLimit .dome .persistentProps (persistent + if replacing then 0 else 1)
      session.budget.dome.maxPersistentProps)
    if replacing then pure () else lift (checkBodyCapacity session state 1)
  | .grab _ | .sit _ =>
    charge participantId .interactions nowMillis 1000 1
      session.budget.player.maxInteractionsPerSecond .interactionRate
  | .throw _ impulse | .push _ impulse => do
    charge participantId .interactions nowMillis 1000 1
      session.budget.player.maxInteractionsPerSecond .interactionRate
    let observed := (impulse.toList.map Int.natAbs).foldl max 0
    lift (checkLimit .player .impulse observed session.budget.player.maxImpulseCentimeters.toNat)
  | _ => pure ()

def preflightInput (primitives : SessionPrimitives) (session : DomeSession)
    (input : DomeSessionInput) (nowMillis : ℤ) : SessionCommand World Handle Unit := do
  let participantId := input.participantPubkey
  charge participantId .inputBytes nowMillis 1000 (primitives.inputBytes input)
    session.budget.player.maxInputBytesPerSecond .inputBandwidth
  let state ← get
  refuseIf (participantId ∈ state.preparedExits ∧ isFenced input.input)
    "DOME_TRANSITION_SOURCE_INPUT_FENCED"
  preflightKind session participantId nowMillis input.input

section

variable (physics : Physics World Handle)

/-- The windows of a signer who does not participate are not kept. -/
def forgetStranger (participantId : String) (state : DomeSessionState World Handle) :
    DomeSessionState World Handle :=
  if participantId ∈ state.participants then state
  else { state with playerBudgets := state.playerBudgets.erase participantId }

/-- Count the error of an input if it is a rejection. -/
def countRejection (error : SessionError) (state : DomeSessionState World Handle) :
    DomeSessionState World Handle :=
  match error with
  | .rejected rejection => recordRejection rejection state
  | .failed _ => state

/-- Note an input that was accepted. -/
def noteInput (session : DomeSession) (input : DomeSessionInput) (nowMillis : ℤ)
    (state : DomeSessionState World Handle) : DomeSessionState World Handle :=
  let participantId := input.participantPubkey
  let participating := decide (participantId ∈ state.participants)
  let owner := decide (participantId = session.lease.ownerPubkey)
  { state with
    inputs := state.inputs.record input (participating || owner)
    participantLastSeenAt :=
      if participating then state.participantLastSeenAt.insert participantId nowMillis
      else state.participantLastSeenAt }

def applySignedInputAt (primitives : SessionPrimitives) (session : DomeSession)
    (signed : SignedDomeSessionInput) (nowMillis : ℤ) : SessionCommand World Handle Unit := do
  lift (orFail (verifySignedDomeSessionInput primitives signed session.lease session.sessionId))
  let state ← get
  modify fun state => { state with inputs := (state.inputs.check signed.input nowMillis).2 }
  lift (orFail (state.inputs.check signed.input nowMillis).1)
  let applied ← attempt do
    preflightInput primitives session signed.input nowMillis
    applyInput physics session signed.input
  modify (forgetStranger signed.input.participantPubkey)
  match applied with
  | .error error =>
    modify (countRejection error)
    lift (.error error)
  | .ok () =>
    modify (noteInput session signed.input nowMillis)
    modify (clampBodiesToDome physics)

/-! ### Time -/

def domeParticipantTimeoutMillis : ℤ := 30000

/-- Guest props that are over at the time. -/
def expiredGuestProps (nowMillis : ℤ) (state : DomeSessionState World Handle) : List String :=
  (state.bodiesById.toList.filter fun row =>
    row.2.kind = .guestProp ∧ row.2.expiresAt.any fun expiresAt => expiresAt ≤ nowMillis).map
      Prod.fst

def expireGuestProps (nowMillis : ℤ) (state : DomeSessionState World Handle) :
    DomeSessionState World Handle :=
  (expiredGuestProps nowMillis state).foldl (fun state id => removeBody physics id state) state

/-- Participants who have not been seen for too long. -/
def staleParticipants (nowMillis : ℤ) (state : DomeSessionState World Handle) : List String :=
  (state.participantLastSeenAt.toList.filter fun row =>
    domeParticipantTimeoutMillis < I64.saturatingSub nowMillis row.2).map Prod.fst

/-- Evict participants one after the other. -/
def evictAll (session : DomeSession) (ids : List String) (state : DomeSessionState World Handle) :
    DomeSessionState World Handle :=
  ids.foldl (fun state id => (evictParticipant physics session id state).2) state

def expireStaleParticipants (session : DomeSession) (nowMillis : ℤ)
    (state : DomeSessionState World Handle) : DomeSessionState World Handle :=
  evictAll physics session (staleParticipants nowMillis state) state

/-- One step of the simulation. -/
def simulateStep (state : DomeSessionState World Handle) : DomeSessionState World Handle :=
  clampBodiesToDome physics { state with world := physics.step state.world }

def advanceTo (session : DomeSession) (nowMillis : ℤ) : SessionCommand World Handle Unit := do
  let state ← get
  refuseIf (nowMillis < state.lastSimulatedAt) "Dome session clock cannot move backwards"
  modify (expireGuestProps physics nowMillis)
  modify (expireStaleParticipants physics session nowMillis)
  let state ← get
  let elapsedMillis := I64.saturatingSub nowMillis state.lastSimulatedAt
  let steps := if state.participants = ∅ then 0 else min (elapsedMillis / 33) 150
  modify (simulateStep physics)^[steps.toNat]
  modify fun state => { state with lastSimulatedAt := nowMillis }

/-! ### Arriving -/

def expireTransitionReservations (nowMillis : ℤ) (state : DomeSessionState World Handle) :
    DomeSessionState World Handle :=
  { state with
    transitionReservations := state.transitionReservations.filter fun _ ticket =>
      nowMillis < ticket.expiresAt }

def checkAccess : DomeTransitionAccessDecision → Result Unit
  | .allowed => .ok ()
  | .denied reason => .error (.bail reason.code)

/-- The ticket of a transition that was committed or is reserved. -/
def knownTicket (state : DomeSessionState World Handle) (transitionId : String) :
    Option DomeTransitionAdmissionTicket :=
  state.committedTransitions[transitionId]?.or state.transitionReservations[transitionId]?

/-- The ticket of a new reservation. -/
def newTicket (session : DomeSession) (request : DomeTransitionAdmissionRequest)
    (nowMillis : ℤ) : DomeTransitionAdmissionTicket where
  request
  targetLeaseEpoch := session.lease.epoch
  targetSessionId := session.sessionId
  expiresAt := I64.saturatingAdd nowMillis domeTransitionTicketTtlMillis

/-- Make a reservation for a request that has none. -/
def reserveTransition (session : DomeSession) (request : DomeTransitionAdmissionRequest)
    (nowMillis : ℤ) : SessionCommand World Handle DomeTransitionAdmissionTicket := do
  let state ← get
  refuseIf (state.transitionReservations.toList.any fun row =>
      row.2.request.participantPubkey = request.participantPubkey)
    "participant already has another Dome transition reservation"
  refuseIf (session.participantLimit < state.participants.size +
      state.transitionReservations.size +
        if request.participantPubkey ∈ state.participants then 0 else 1)
    "DOME_TRANSITION_CAPACITY_FULL"
  lift (if request.participantPubkey ∈ state.participants then .ok ()
    else checkBodyCapacity session state 1)
  modify fun state => { state with
    transitionReservations := state.transitionReservations.insert request.transitionId
      (newTicket session request nowMillis) }
  pure (newTicket session request nowMillis)

def prepareTransitionAdmission (session : DomeSession) (request : DomeTransitionAdmissionRequest)
    (access : DomeTransitionAccessDecision) (nowMillis : ℤ) :
    SessionCommand World Handle DomeTransitionAdmissionTicket := do
  modify (expireTransitionReservations nowMillis)
  lift (orFail request.validate)
  lift (orFail (checkAccess access))
  refuseIf (request.spatialContext ≠ session.lease.spatialContext ∨
      request.targetInstanceId ≠ session.lease.instanceId ∨
      request.targetInstanceGeneration ≠ session.lease.instanceGeneration)
    "DOME_TRANSITION_STALE_TOPOLOGY"
  let state ← get
  match knownTicket state request.transitionId with
  | some ticket =>
    refuseIf (ticket.request ≠ request) "DOME_TRANSITION_INVALID_TICKET"
    pure ticket
  | none => reserveTransition session request nowMillis

/-- The state after the participant of the ticket has arrived. -/
def redeem (ticket : DomeTransitionAdmissionTicket) (state : DomeSessionState World Handle) :
    DomeSessionState World Handle :=
  let participantId := ticket.request.participantPubkey
  { state with
    transitionEntries := state.transitionEntries.insert participantId
      (oppositeDomeDirection ticket.request.direction)
    preparedExits := state.preparedExits.erase participantId
    transitionReservations := state.transitionReservations.erase ticket.request.transitionId
    committedTransitions := (state.committedTransitions.filter fun _ committed =>
        committed.request.participantPubkey ≠ ticket.request.participantPubkey).insert
      ticket.request.transitionId ticket }

/-- Let the participant of a reserved ticket in. -/
def redeemTransition (session : DomeSession) (ticket : DomeTransitionAdmissionTicket)
    (position rotation : Vec3) (nowMillis : ℤ) : SessionCommand World Handle Unit := do
  let participantId := ticket.request.participantPubkey
  ensureAvatar physics session participantId none
  modify fun state => { state with
    participants := state.participants.insert participantId
    participantLastSeenAt := state.participantLastSeenAt.insert participantId nowMillis }
  setAvatarTransform physics participantId position rotation
  modify (redeem ticket)
  modify (clampBodiesToDome physics)
  modify fun state => { state with
    participantHighWater :=
      max state.participantHighWater (U32.saturate state.participants.size) }

def commitTransitionAdmission (session : DomeSession) (ticket : DomeTransitionAdmissionTicket)
    (position rotation : Vec3) (nowMillis : ℤ) : SessionCommand World Handle Unit := do
  modify (expireTransitionReservations nowMillis)
  let state ← get
  match state.committedTransitions[ticket.request.transitionId]? with
  | some committed =>
    refuseIf (¬ (committed = ticket ∧ ticket.targetLeaseEpoch = session.lease.epoch ∧
        ticket.targetSessionId = session.sessionId))
      "DOME_TRANSITION_INVALID_TICKET"
  | none =>
    lift (orFail (ticket.validateFor ticket.request session.lease.epoch session.sessionId
      nowMillis))
    refuseIf (state.transitionReservations[ticket.request.transitionId]? ≠ some ticket)
      "DOME_TRANSITION_INVALID_TICKET"
    redeemTransition physics session ticket position rotation nowMillis

def abortTransitionAdmission (transitionId : String) (participantPubkey : Pubkey)
    (nowMillis : ℤ) : SessionCommand World Handle Unit := do
  modify (expireTransitionReservations nowMillis)
  let state ← get
  if transitionId ∈ state.committedTransitions then pure ()
  else
    refuseIf (state.transitionReservations[transitionId]?.any fun ticket =>
        ticket.request.participantPubkey ≠ participantPubkey)
      "DOME_TRANSITION_INVALID_TICKET"
    modify fun state => { state with
      transitionReservations := state.transitionReservations.erase transitionId }

end

end

end Kukuri
