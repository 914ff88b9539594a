import Kukuri.Core.Props

/-!
# Resource budgets

The limits that a host puts on a Dome, on its players and on itself. Exceeding one is a
`MetaverseResourceRejection`, which callers tell apart from other failures.
-/

namespace Kukuri

open Result

/-! ### Rejections -/

inductive MetaverseBudgetScope where
  | dome | player | host | client
  deriving DecidableEq, Repr

/-- The resources that rejections name. -/
inductive MetaverseBudgetResource where
  | persistentProps | guestProps | textureBytes | textureDimension | modelBytes | modelTriangles
  | colliders | rigidBodies | participants | propSpawnRate | interactionRate | inputBandwidth
  | impulse | sessionAssetBytes | assetFormat
  deriving DecidableEq, Repr

inductive MetaverseResourceRejectionReason where
  | limitExceeded | rateExceeded | invalidValue | unverifiedAsset
  deriving DecidableEq, Repr

structure MetaverseResourceRejection where
  scope : MetaverseBudgetScope
  resource : MetaverseBudgetResource
  reason : MetaverseResourceRejectionReason
  observed : ℕ
  limit : ℕ
  deriving DecidableEq, Repr

def MetaverseBudgetScope.code : MetaverseBudgetScope → String
  | .dome => "DOME"
  | .player => "PLAYER"
  | .host => "HOST"
  | .client => "CLIENT"

def MetaverseBudgetResource.code : MetaverseBudgetResource → String
  | .persistentProps => "PERSISTENT_PROPS"
  | .guestProps => "GUEST_PROPS"
  | .textureBytes => "TEXTURE_BYTES"
  | .textureDimension => "TEXTURE_DIMENSION"
  | .modelBytes => "MODEL_BYTES"
  | .modelTriangles => "MODEL_TRIANGLES"
  | .colliders => "COLLIDERS"
  | .rigidBodies => "RIGID_BODIES"
  | .participants => "PARTICIPANTS"
  | .propSpawnRate => "PROP_SPAWN_RATE"
  | .interactionRate => "INTERACTION_RATE"
  | .inputBandwidth => "INPUT_BANDWIDTH"
  | .impulse => "IMPULSE"
  | .sessionAssetBytes => "SESSION_ASSET_BYTES"
  | .assetFormat => "ASSET_FORMAT"

def MetaverseResourceRejectionReason.code : MetaverseResourceRejectionReason → String
  | .limitExceeded => "LIMIT_EXCEEDED"
  | .rateExceeded => "RATE_EXCEEDED"
  | .invalidValue => "INVALID_VALUE"
  | .unverifiedAsset => "UNVERIFIED_ASSET"

def MetaverseResourceRejection.code (rejection : MetaverseResourceRejection) : String :=
  "METAVERSE_" ++ rejection.scope.code ++ "_" ++ rejection.resource.code ++ "_" ++
    rejection.reason.code

/-- How a call of a session fails: as any computation does, or by a rejection. -/
inductive SessionError where
  | failed (failure : Failure)
  | rejected (rejection : MetaverseResourceRejection)
  deriving DecidableEq, Repr

/-- A failure that is not a rejection. -/
def orFail {α : Type} (result : Result α) : Except SessionError α :=
  result.mapError .failed

theorem orFail_eq_ok {α : Type} {result : Result α} {a : α} :
  orFail result = .ok a ↔ result = .ok a
  := by
  cases result <;> simp [orFail, Except.mapError]

def checkLimit (scope : MetaverseBudgetScope) (resource : MetaverseBudgetResource)
    (observed limit : ℕ) : Except SessionError Unit :=
  if limit < observed then .error (.rejected ⟨scope, resource, .limitExceeded, observed, limit⟩)
  else .ok ()

theorem checkLimit_eq_ok {scope : MetaverseBudgetScope} {resource : MetaverseBudgetResource}
    {observed limit : ℕ} {u : Unit} :
  checkLimit scope resource observed limit = .ok u ↔ observed ≤ limit
  := by
  unfold checkLimit
  split <;> simp_all

/-! ### Budgets -/

structure DomeResourceBudget where
  maxPersistentProps : ℕ
  maxTextureBytes : ℕ
  maxTextureDimension : ℕ
  maxModelBytes : ℕ
  maxModelTriangles : ℕ
  maxColliders : ℕ
  maxRigidBodies : ℕ
  maxSnapshotHz : ℕ
  deriving DecidableEq, Repr

structure PlayerResourceBudget where
  maxGuestProps : ℕ
  maxGuestPropBytes : ℕ
  maxAvatarAssetBytes : ℕ
  maxPropSpawnsPerMinute : ℕ
  maxInteractionsPerSecond : ℕ
  maxInputBytesPerSecond : ℕ
  maxProposalsPerTenMinutesPerSlot : ℕ
  maxImpulseCentimeters : ℤ
  maxAudioFramesPerSecond : ℕ
  maxAudioBytesPerSecond : ℕ
  deriving DecidableEq, Repr

structure HostResourceBudget where
  maxParticipants : ℕ
  maxSimulatedRigidBodies : ℕ
  maxSnapshotBytesPerSecond : ℕ
  maxSessionAssetBytes : ℕ
  deriving DecidableEq, Repr

structure ClientResourceBudget where
  maxRenderedAvatars : ℕ
  maxTextureMemoryBytes : ℕ
  maxRenderedTriangles : ℕ
  maxInterpolatedBodies : ℕ
  maxNeighborDomes : ℕ
  cacheCapacityBytes : ℕ
  maxConcurrentAudioStreams : ℕ
  maxAudioJitterFrames : ℕ
  deriving DecidableEq, Repr

structure MetaverseResourceBudgetConfig where
  dome : DomeResourceBudget
  player : PlayerResourceBudget
  host : HostResourceBudget
  client : ClientResourceBudget
  deriving DecidableEq, Repr

/-- The budget of `MetaverseResourceBudgetConfig::default`. -/
def MetaverseResourceBudgetConfig.default : MetaverseResourceBudgetConfig where
  dome := ⟨64, 256 * mib, 8192, 256 * mib, 2000000, 128, 256, 10⟩
  player := ⟨16, 64 * mib, 32 * mib, 12, 30, 256 * 1024, 8, 5000, 50, 32 * 1024⟩
  host := ⟨64, 512, 4 * mib, 512 * mib⟩
  client := ⟨32, 512 * mib, 3000000, 256, 4, gib, 16, 8⟩

def MetaverseResourceBudgetConfig.validate (budget : MetaverseResourceBudgetConfig) :
    Result Unit := do
  let positive := [budget.dome.maxPersistentProps, budget.dome.maxTextureBytes,
    budget.dome.maxTextureDimension, budget.dome.maxModelBytes, budget.dome.maxModelTriangles,
    budget.dome.maxColliders, budget.dome.maxRigidBodies, budget.dome.maxSnapshotHz,
    budget.player.maxGuestProps, budget.player.maxGuestPropBytes,
    budget.player.maxAvatarAssetBytes, budget.player.maxPropSpawnsPerMinute,
    budget.player.maxInteractionsPerSecond, budget.player.maxInputBytesPerSecond,
    budget.player.maxProposalsPerTenMinutesPerSlot, budget.player.maxAudioFramesPerSecond,
    budget.player.maxAudioBytesPerSecond, budget.host.maxParticipants,
    budget.host.maxSimulatedRigidBodies, budget.host.maxSnapshotBytesPerSecond,
    budget.host.maxSessionAssetBytes, budget.client.maxRenderedAvatars,
    budget.client.maxTextureMemoryBytes, budget.client.maxRenderedTriangles,
    budget.client.maxInterpolatedBodies, budget.client.cacheCapacityBytes,
    budget.client.maxConcurrentAudioStreams, budget.client.maxAudioJitterFrames]
  bailIf (0 ∈ positive ∨ budget.player.maxImpulseCentimeters ≤ 0)
    "metaverse resource budget values must be positive"
  bailIf (60 < budget.dome.maxSnapshotHz ∨ 1024 < budget.dome.maxPersistentProps ∨
      maxTextureDimension < budget.dome.maxTextureDimension ∨
      maxConfiguredAssetBytes < budget.dome.maxTextureBytes ∨
      maxConfiguredAssetBytes < budget.dome.maxModelBytes ∨
      maxConfiguredAssetBytes < budget.host.maxSessionAssetBytes ∨
      maxConfiguredAssetBytes < budget.client.maxTextureMemoryBytes ∨
      64 * gib < budget.client.cacheCapacityBytes ∨
      maxConfiguredTriangles < budget.dome.maxModelTriangles ∨
      maxConfiguredTriangles < budget.client.maxRenderedTriangles ∨
      4 < budget.client.maxNeighborDomes ∨ 4096 < budget.dome.maxColliders ∨
      4096 < budget.dome.maxRigidBodies ∨ 1024 < budget.player.maxGuestProps ∨
      512 < budget.host.maxParticipants ∨ 8192 < budget.host.maxSimulatedRigidBodies ∨
      512 < budget.client.maxRenderedAvatars ∨ 4096 < budget.client.maxInterpolatedBodies ∨
      100 < budget.player.maxAudioFramesPerSecond ∨
      mib < budget.player.maxAudioBytesPerSecond ∨
      128 < budget.client.maxConcurrentAudioStreams ∨ 50 < budget.client.maxAudioJitterFrames)
    "metaverse resource budget exceeds the safety ceiling"
  bailIf (budget.host.maxSimulatedRigidBodies < budget.dome.maxRigidBodies)
    "Dome rigid body budget cannot exceed host capacity"

example : MetaverseResourceBudgetConfig.default.validate = .ok () := by decide

/-- The dimensions of one texture. -/
def checkTextureDimension (budget : MetaverseResourceBudgetConfig) (asset : MetaverseAssetRef) :
    Except SessionError Unit := do
  let metadata ← orFail (expect asset.budgetMetadata "validated above")
  match metadata.textureWidth with
  | none => pure ()
  | some width =>
    checkLimit .dome .textureDimension (max width (metadata.textureHeight.getD 0))
      budget.dome.maxTextureDimension

def validateDomeAssetBudget (assets : List MetaverseAssetRef)
    (budget : MetaverseResourceBudgetConfig) :
    Except SessionError MetaverseDomeResourceUsage := do
  let usage ← orFail (metaverseDomeResourceUsage assets)
  checkLimit .dome .textureBytes usage.textureBytes budget.dome.maxTextureBytes
  checkLimit .dome .modelBytes usage.modelBytes budget.dome.maxModelBytes
  checkLimit .dome .modelTriangles usage.modelTriangles budget.dome.maxModelTriangles
  checkLimit .host .sessionAssetBytes usage.sessionAssetBytes budget.host.maxSessionAssetBytes
  assets.forM (checkTextureDimension budget)
  return usage

end Kukuri
