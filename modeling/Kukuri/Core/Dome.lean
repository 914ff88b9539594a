import Kukuri.Data.BTree
import Kukuri.Data.Result

/-!
# Dome instances

The parts of a Dome instance that connections and hosting are checked against, and the fixed
geometry of a Dome. Positions are integers, in centimetres.
-/

namespace Kukuri

open Result

abbrev Pubkey := String

/-- The code points with the property White_Space. -/
def isWhitespace (c : Char) : Bool :=
  (0x0009 ≤ c.val && c.val ≤ 0x000D) || c.val == 0x0020 || c.val == 0x0085 || c.val == 0x00A0 ||
    c.val == 0x1680 || (0x2000 ≤ c.val && c.val ≤ 0x200A) || c.val == 0x2028 ||
    c.val == 0x2029 || c.val == 0x202F || c.val == 0x205F || c.val == 0x3000

/-- Nothing is left of the text when it is trimmed. -/
def isBlank (text : String) : Bool := text.toList.all isWhitespace

inductive SpatialContext where
  | topic (topicId : String)
  | channel (topicId : String) (channelId : String)
  deriving DecidableEq, Repr

/-! ### Geometry -/

inductive DomeDirection where
  | north | east | south | west
  deriving DecidableEq, Repr

instance : LinearOrder DomeDirection :=
  LinearOrder.lift' DomeDirection.ctorIdx (by rintro ⟨⟩ ⟨⟩ <;> decide)

def oppositeDomeDirection : DomeDirection → DomeDirection
  | .north => .south
  | .east => .west
  | .south => .north
  | .west => .east

/-- A position, ordered by its components from left to right. -/
abbrev Coordinate := ℤ ×ₗ ℤ ×ₗ ℤ

/-- The position with the given components. -/
def coordinate (x y z : ℤ) : Coordinate := toLex (x, toLex (y, z))

structure FixedDomeEndpoint where
  direction : DomeDirection
  adjacentDomeOffsetCm : Coordinate

/-- The endpoints of the fixed Dome. -/
def fixedDomeEndpoints : List FixedDomeEndpoint :=
  let adjacentOffsetCm := 5700
  [⟨.north, coordinate 0 0 (-adjacentOffsetCm)⟩, ⟨.east, coordinate adjacentOffsetCm 0 0⟩,
    ⟨.south, coordinate 0 0 adjacentOffsetCm⟩, ⟨.west, coordinate (-adjacentOffsetCm) 0 0⟩]

def directionOffsetCm (direction : DomeDirection) : Result Coordinate :=
  expect ((fixedDomeEndpoints.find? fun endpoint => endpoint.direction = direction).map
    FixedDomeEndpoint.adjacentDomeOffsetCm) "fixed Dome contains every direction"

/-- The offset that `directionOffsetCm` finds. -/
def adjacentOffset : DomeDirection → Coordinate
  | .north => coordinate 0 0 (-5700)
  | .east => coordinate 5700 0 0
  | .south => coordinate 0 0 5700
  | .west => coordinate (-5700) 0 0

theorem directionOffsetCm_eq (direction : DomeDirection) :
  directionOffsetCm direction = .ok (adjacentOffset direction)
  := by
  cases direction <;> rfl

/-- Going there and coming back leads to the same place. -/
theorem adjacentOffset_opposite (direction : DomeDirection) :
  adjacentOffset (oppositeDomeDirection direction) = - adjacentOffset direction
  := by
  cases direction <;> rfl

/-! ### Instances -/

inductive DomeInstanceStatus where
  | staging | active | tombstoned
  deriving DecidableEq, Repr

/-- Three components, such as a position in centimetres. -/
structure Vec3 where
  x : ℤ
  y : ℤ
  z : ℤ
  deriving DecidableEq, Repr

namespace Vec3

def toList (v : Vec3) : List ℤ := [v.x, v.y, v.z]

end Vec3

structure MetaverseRoomSpawn where
  position : Vec3
  rotation : Vec3
  deriving DecidableEq, Repr

structure DomePresetRef where
  presetId : String
  ownerPubkey : Pubkey
  revision : ℕ
  manifestBlobHash : String
  manifestMime : String
  deriving DecidableEq, Repr

structure DomeRelationshipDetach where
  moveId : String
  instanceGeneration : ℕ
  deriving DecidableEq, Repr

structure DomeInstanceManifest where
  instanceId : String
  spatialContext : SpatialContext
  ownerPubkey : Pubkey
  presetRef : DomePresetRef
  title : String
  maxPeers : Option ℕ
  defaultSpawn : MetaverseRoomSpawn
  generation : ℕ
  status : DomeInstanceStatus
  relationshipDetach : Option DomeRelationshipDetach
  deriving DecidableEq, Repr

def validateDomeInstanceManifest (manifest : DomeInstanceManifest) : Result Unit := do
  bailIf (isBlank manifest.instanceId ∨ isBlank manifest.presetRef.presetId ∨
      manifest.presetRef.revision = 0 ∨ isBlank manifest.presetRef.manifestBlobHash ∨
      isBlank manifest.presetRef.manifestMime ∨ manifest.generation = 0)
    "Dome instance identity is incomplete"
  bailIf (manifest.ownerPubkey ≠ manifest.presetRef.ownerPubkey)
    "Dome instance owner must match Dome preset owner"
  bailIf (isBlank manifest.title) "Dome instance title is required"
  bailIf (manifest.maxPeers.any fun maxPeers => ¬ (1 ≤ maxPeers ∧ maxPeers ≤ 512))
    "max peers is outside the supported range"
  bailIf (manifest.status = .staging ∧ manifest.relationshipDetach.isSome)
    "staging Dome instance cannot detach relationships"
  bailIf (manifest.relationshipDetach.any fun detach =>
      isBlank detach.moveId ∨ detach.instanceGeneration ≠ manifest.generation)
    "Dome relationship detach does not match instance generation"

def validateDomeRelationshipScope (left right : DomeInstanceManifest) : Result Unit := do
  bailIf (left.spatialContext ≠ right.spatialContext)
    "Dome Connection endpoints must share one Spatial Context"
  bailIf (left.status ≠ .active ∨ right.status ≠ .active ∨ left.relationshipDetach.isSome ∨
      right.relationshipDetach.isSome)
    "Dome Connection endpoints must be active and attached"

end Kukuri
