import Kukuri.Core.Dome
import Kukuri.Data.Machine

/-!
# Props and assets of a Dome

The layout of a Dome: its surface, its environment and its persistent props, with the assets
that they refer to. Sums of squares are taken in 64-bit arithmetic.
-/

namespace Kukuri

open Result

/-! ### Assets -/

def mib : ℕ := 1024 * 1024
def gib : ℕ := 1024 * mib
def maxConfiguredAssetBytes : ℕ := 2 * gib
def maxConfiguredTriangles : ℕ := 20000000
def maxTextureDimension : ℕ := 16384

inductive MetaverseAssetKind where
  | vrm | glb | texture | other
  deriving DecidableEq, Repr

structure MetaverseAssetBudgetMetadata where
  storedBytes : ℕ
  textureWidth : Option ℕ
  textureHeight : Option ℕ
  decodedTextureBytes : ℕ
  modelTriangles : ℕ
  modelPrimitives : ℕ
  deriving DecidableEq, Repr

structure MetaverseAssetRef where
  kind : MetaverseAssetKind
  blobHash : String
  mimeType : Option String
  sizeBytes : Option ℕ
  name : Option String
  budgetMetadata : Option MetaverseAssetBudgetMetadata
  deriving DecidableEq, Repr

/-- Whether the texture that is embedded in a model has a valid shape. -/
def embeddedTextureShapeValid (metadata : MetaverseAssetBudgetMetadata) : Bool :=
  match metadata.textureWidth, metadata.textureHeight, metadata.decodedTextureBytes with
  | none, none, 0 => true
  | some width, some height, decoded =>
    0 < width ∧ 0 < height ∧ width ≤ maxTextureDimension ∧ height ≤ maxTextureDimension ∧
      0 < decoded ∧ decoded ≤ maxConfiguredAssetBytes
  | _, _, _ => false

def validateMetaverseAssetMetadata (kind : MetaverseAssetKind) (declaredSize : Option ℕ)
    (metadata : Option MetaverseAssetBudgetMetadata) : Result Unit := do
  let metadata ← context metadata "metaverse asset budget metadata is required"
  bailIf (declaredSize ≠ some metadata.storedBytes ∨ metadata.storedBytes = 0)
    "metaverse asset size does not match inspected metadata"
  match kind with
  | .texture =>
    match metadata.textureWidth, metadata.textureHeight with
    | some width, some height =>
      bailIf (width = 0 ∨ height = 0 ∨ maxTextureDimension < width ∨
          maxTextureDimension < height ∨
          metadata.decodedTextureBytes
            ≠ U64.saturatingMul (U64.saturatingMul width height) 4 ∨
          metadata.modelTriangles ≠ 0 ∨ metadata.modelPrimitives ≠ 0)
        "metaverse texture budget metadata is invalid"
    | _, _ => bailIf True "metaverse texture dimensions are required"
  | .glb | .vrm =>
    bailIf (¬ embeddedTextureShapeValid metadata ∨
        maxConfiguredTriangles < metadata.modelTriangles ∨ metadata.modelPrimitives = 0)
      "metaverse model budget metadata is invalid"
  | .other =>
    bailIf (metadata.textureWidth.isSome ∨ metadata.textureHeight.isSome ∨
        metadata.decodedTextureBytes ≠ 0 ∨ metadata.modelTriangles ≠ 0 ∨
        metadata.modelPrimitives ≠ 0)
      "generic metaverse asset budget metadata is invalid"

structure MetaverseDomeResourceUsage where
  textureBytes : ℕ
  decodedTextureBytes : ℕ
  modelBytes : ℕ
  modelTriangles : ℕ
  sessionAssetBytes : ℕ
  deriving DecidableEq, Repr

/-- One asset of the sum. -/
def addAssetUsage (usage : MetaverseDomeResourceUsage) (asset : MetaverseAssetRef) :
    Result MetaverseDomeResourceUsage := do
  validateMetaverseAssetMetadata asset.kind asset.sizeBytes asset.budgetMetadata
  let metadata ← expect asset.budgetMetadata "validated above"
  let usage := { usage with
    sessionAssetBytes := U64.saturatingAdd usage.sessionAssetBytes metadata.storedBytes }
  match asset.kind with
  | .texture =>
    return { usage with
      textureBytes := U64.saturatingAdd usage.textureBytes metadata.storedBytes
      decodedTextureBytes :=
        U64.saturatingAdd usage.decodedTextureBytes metadata.decodedTextureBytes }
  | .glb | .vrm =>
    return { usage with
      modelBytes := U64.saturatingAdd usage.modelBytes metadata.storedBytes
      modelTriangles := U64.saturatingAdd usage.modelTriangles metadata.modelTriangles
      decodedTextureBytes :=
        U64.saturatingAdd usage.decodedTextureBytes metadata.decodedTextureBytes }
  | .other => return usage

def metaverseDomeResourceUsage (assets : List MetaverseAssetRef) :
    Result MetaverseDomeResourceUsage :=
  assets.foldlM addAssetUsage ⟨0, 0, 0, 0, 0⟩

/-! ### Props -/

inductive MetaversePrimitive where
  | cube | sphere
  deriving DecidableEq, Repr

inductive MetaverseInteractionKind where
  | grab | throw | push | sit
  deriving DecidableEq, Repr

inductive MetaverseCollider where
  | capsule (center : Vec3) (radius halfHeight : ℤ)
  | cuboid (center halfExtents : Vec3)
  deriving DecidableEq, Repr

def validateMetaverseCollider (collider : MetaverseCollider) : Result Unit := do
  let center ← match collider with
    | .capsule center radius halfHeight => do
      bailIf (radius ≤ 0 ∨ halfHeight < 0 ∨ 2000 < radius ∨ 2000 < halfHeight)
        "capsule collider dimensions are outside the supported range"
      pure center
    | .cuboid center halfExtents => do
      bailIf (halfExtents.toList.any fun extent => ¬ (1 ≤ extent ∧ extent ≤ 2000))
        "cuboid collider dimensions are outside the supported range"
      pure center
  bailIf (center.toList.any fun component => 4000 < component.natAbs)
    "collider center is outside the supported range"

/-- The quotient of two integers, rounded towards zero. -/
def halve (n : ℤ) : ℤ := n.tdiv 2

def fallbackCapsuleCollider (boundsMin boundsMax : Vec3) : Result MetaverseCollider := do
  bailIf ((boundsMin.toList.zip boundsMax.toList).any fun bounds => bounds.2 ≤ bounds.1)
    "metaverse collider bounds must have positive volume"
  let width := boundsMax.x - boundsMin.x
  let height := boundsMax.y - boundsMin.y
  let depth := boundsMax.z - boundsMin.z
  let radius := halve (max width depth + 1)
  let halfHeight := max (halve (height + 1) - radius) 0
  return .capsule ⟨halve (boundsMin.x + boundsMax.x), halve (boundsMin.y + boundsMax.y),
    halve (boundsMin.z + boundsMax.z)⟩ radius halfHeight

structure MetaversePersistentProp where
  propId : String
  assetRef : Option MetaverseAssetRef
  primitiveFallback : MetaversePrimitive
  position : Vec3
  rotation : Vec3
  scale : Vec3
  visualOnly : Bool
  interactions : List MetaverseInteractionKind
  collider : Option MetaverseCollider
  deriving DecidableEq, Repr

def fixedDomeSpecId : String := "fixed_dome_v1"

/-- The inner radius of the fixed Dome, and the height of its apex. -/
def innerRadiusCm : ℤ := 2000
def apexHeightCm : ℤ := 2000

/-! ### Layouts -/

inductive DomeMaterialPreset where
  | concrete | stone | metal | wood
  deriving DecidableEq, Repr

structure DomeSurfaceCustomization where
  wallMaterial : DomeMaterialPreset
  floorMaterial : DomeMaterialPreset
  wallTexture : Option MetaverseAssetRef
  floorTexture : Option MetaverseAssetRef
  deriving DecidableEq, Repr

structure DomeEnvironment where
  keyLightMilli : ℕ
  ambientLightMilli : ℕ
  fogDensityMicros : ℕ
  gravityMilli : ℕ
  deriving DecidableEq, Repr

structure DomeCustomization where
  surface : DomeSurfaceCustomization
  environment : DomeEnvironment
  persistentProps : List MetaversePersistentProp
  deriving DecidableEq, Repr

/-- The default layout: no textures and no props. -/
def DomeCustomization.default : DomeCustomization where
  surface := ⟨.concrete, .stone, none, none⟩
  environment := ⟨2400, 400, 8000, 9800⟩
  persistentProps := []

def validateTexture (asset : Option MetaverseAssetRef) (field : String) : Result Unit :=
  bailIf (asset.any fun asset => asset.kind ≠ .texture)
    (field ++ " must reference a texture asset")

/-- One prop of the layout; the identifiers before it are `propIds`. -/
def validateProp (propIds : List String) (prop : MetaversePersistentProp) :
    Result (List String) := do
  bailIf (isBlank prop.propId ∨ prop.propId ∈ propIds)
    "persistent prop ids must be non-empty and unique"
  bailIf (prop.scale.toList.any fun scale => ¬ (1 ≤ scale ∧ scale ≤ 1000))
    "persistent prop scale is outside the supported range"
  let distanceSquared := I64.wrap (prop.position.x * prop.position.x +
    prop.position.y * prop.position.y + prop.position.z * prop.position.z)
  bailIf (prop.position.y < 0 ∨ apexHeightCm < prop.position.y ∨
      innerRadiusCm * innerRadiusCm < distanceSquared)
    "persistent prop position is outside the fixed Dome"
  bailIf (¬ prop.interactions.Nodup) "persistent prop interactions must be unique"
  bailIf (prop.visualOnly ∧ prop.interactions ≠ [])
    "visual-only props cannot expose interactions"
  match prop.collider with
  | some collider => validateMetaverseCollider collider
  | none => pure ()
  return propIds ++ [prop.propId]

def validateDomeCustomization (customization : DomeCustomization) : Result Unit := do
  validateTexture customization.surface.wallTexture "wall texture"
  validateTexture customization.surface.floorTexture "floor texture"
  let environment := customization.environment
  bailIf (4000 < environment.keyLightMilli) "key light intensity is outside the supported range"
  bailIf (2000 < environment.ambientLightMilli)
    "ambient light intensity is outside the supported range"
  bailIf (200000 < environment.fogDensityMicros) "fog density is outside the supported range"
  bailIf (¬ (1000 ≤ environment.gravityMilli ∧ environment.gravityMilli ≤ 30000))
    "gravity strength is outside the supported range"
  bailIf (1024 < customization.persistentProps.length)
    "a Dome supports at most 1024 persistent props"
  let _ ← customization.persistentProps.foldlM validateProp []

structure DomePresetManifest where
  presetId : String
  ownerPubkey : Pubkey
  revision : ℕ
  specId : String
  customization : DomeCustomization
  assetRefs : List MetaverseAssetRef
  deriving DecidableEq, Repr

/-- One asset of the preset; the hashes before it are `hashes`. -/
def collectHash (hashes : List String) (asset : MetaverseAssetRef) : Result (List String) := do
  bailIf (isBlank asset.blobHash ∨ asset.blobHash ∈ hashes)
    "Dome preset asset hashes must be non-empty and unique"
  return hashes ++ [asset.blobHash]

def validateDomePresetManifest (manifest : DomePresetManifest) : Result Unit := do
  bailIf (isBlank manifest.presetId) "Dome preset id is required"
  bailIf (isBlank manifest.ownerPubkey) "Dome preset owner is required"
  bailIf (manifest.revision = 0) "Dome preset revision is required"
  bailIf (manifest.specId ≠ fixedDomeSpecId) "unsupported Dome spec id"
  validateDomeCustomization manifest.customization
  let hashes ← manifest.assetRefs.foldlM collectHash []
  let referenced := manifest.customization.persistentProps.filterMap (·.assetRef) ++
    manifest.customization.surface.wallTexture.toList ++
    manifest.customization.surface.floorTexture.toList
  bailIf (¬ referenced.all fun asset => asset.blobHash ∈ hashes)
    "Dome customization references an asset outside the Preset asset list"
  let _ ← metaverseDomeResourceUsage manifest.assetRefs

end Kukuri
