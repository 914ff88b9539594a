import Kukuri.Core.Dome
import Kukuri.Data.Order
import Kukuri.Data.Search

/-!
# Dome topology

A peer collects Dome instances and signed connection records and resolves them to a
topology: components of connected Domes, each with the coordinates of its Domes.

The digests are parameters: `recordDigest` of a connection record, `topologyDigest` of the
resolved topology. Coordinates are unbounded integers.
-/

namespace Kukuri.DomeConnections

open Result

/-! ### Connection records -/

structure DomeConnectionEndpoint where
  instanceId : String
  instanceGeneration : ℕ
  ownerPubkey : Pubkey
  direction : DomeDirection
  deriving DecidableEq, Repr

structure DomeConnectionAgreement where
  connectionId : String
  proposalId : String
  spatialContext : SpatialContext
  proposer : DomeConnectionEndpoint
  receiver : DomeConnectionEndpoint
  activationGeneration : ℕ
  deriving DecidableEq, Repr

inductive DomeConnectionStatus where
  | accepted | active | draining | revoked
  deriving DecidableEq, Repr

inductive DomeConnectionTerminalReason where
  | ownerRevoked | proposerWithdrew | proposerSlotOccupied | instanceDetached | instanceDeleted
  | ownersBlocked
  deriving DecidableEq, Repr

structure DomeConnectionRecord where
  agreement : DomeConnectionAgreement
  receiverSlotGeneration : ℕ
  observedActiveConnectionIds : List String
  status : DomeConnectionStatus
  lifecycleGeneration : ℕ
  lifecycleActor : Option Pubkey
  lifecycleReason : Option DomeConnectionTerminalReason
  lifecycleDeadlineAt : Option ℤ
  deriving DecidableEq, Repr

def isValidDomeRecordId (id : String) (maxLen : ℕ) : Bool :=
  id ≠ "" ∧ id.utf8ByteSize ≤ maxLen ∧
    id.toList.all fun c => c.isAlphanum ∨ c = '-' ∨ c = '_' ∨ c = '.'

/-- The loop of `validateUniqueIds` over the ids, with the ids already seen. -/
def hasInvalidId : BTreeSet String → List String → Bool
  | _, [] => false
  | seen, id :: ids =>
    ¬ isValidDomeRecordId id 160 ∨ id ∈ seen ∨ hasInvalidId (seen.insert id) ids

def validateUniqueIds (ids : List String) : Result Unit :=
  bailIf (hasInvalidId ∅ ids) "Dome Connection causal ids must be non-empty and unique"

def validateDomeConnectionRecord (record : DomeConnectionRecord) : Result Unit := do
  bailIf (record.lifecycleGeneration = 0 ∨ record.receiverSlotGeneration = 0)
    "Dome Connection lifecycle generations are required"
  validateUniqueIds record.observedActiveConnectionIds
  if record.status = .accepted ∨ record.status = .active then
    bailIf (record.lifecycleReason.isSome ∨ record.lifecycleDeadlineAt.isSome)
      "non-terminal Dome Connection cannot have a terminal reason"
  else
    let actor ← context record.lifecycleActor
      "Dome Connection terminal lifecycle requires an actor"
    bailIf (actor ≠ record.agreement.proposer.ownerPubkey ∧
        actor ≠ record.agreement.receiver.ownerPubkey)
      "Dome Connection lifecycle actor is not an endpoint owner"
    bailIf record.lifecycleReason.isNone "Dome Connection terminal lifecycle requires a reason"
    bailIf (record.status = .draining ∧ record.lifecycleDeadlineAt.isNone)
      "draining Dome Connection requires a deadline"
    bailIf (record.status = .revoked ∧ record.lifecycleDeadlineAt.isSome)
      "revoked Dome Connection cannot retain a drain deadline"

def validateEndpointPair (spatialContext : SpatialContext)
    (proposerEndpoint receiverEndpoint : DomeConnectionEndpoint)
    (proposer receiver : DomeInstanceManifest) : Result Unit := do
  validateDomeRelationshipScope proposer receiver
  bailIf (proposer.spatialContext ≠ spatialContext ∨ receiver.spatialContext ≠ spatialContext ∨
      proposer.instanceId ≠ proposerEndpoint.instanceId ∨
      proposer.generation ≠ proposerEndpoint.instanceGeneration ∨
      proposer.ownerPubkey ≠ proposerEndpoint.ownerPubkey ∨
      receiver.instanceId ≠ receiverEndpoint.instanceId ∨
      receiver.generation ≠ receiverEndpoint.instanceGeneration ∨
      receiver.ownerPubkey ≠ receiverEndpoint.ownerPubkey)
    "Dome Connection endpoints do not match current instances"
  bailIf (proposer.instanceId = receiver.instanceId ∨
      proposer.ownerPubkey = receiver.ownerPubkey)
    "Dome Connection endpoints must belong to different owners"
  bailIf (receiverEndpoint.direction ≠ oppositeDomeDirection proposerEndpoint.direction)
    "Dome Connection endpoint directions are not opposites"

def validateDomeConnectionAgreement (agreement : DomeConnectionAgreement)
    (proposer receiver : DomeInstanceManifest) : Result Unit := do
  bailIf (¬ isValidDomeRecordId agreement.connectionId 160 ∨
      ¬ isValidDomeRecordId agreement.proposalId 128 ∨ agreement.activationGeneration = 0)
    "Dome Connection agreement identity is incomplete"
  validateEndpointPair agreement.spatialContext agreement.proposer agreement.receiver proposer
    receiver

def isTopologyActive (connection : DomeConnectionRecord) : Bool :=
  connection.status = .active ∨ connection.status = .draining

/-! ### The order of the connections -/

def topologyConnectionOrder (recordDigest : DomeConnectionRecord → String)
    (left right : DomeConnectionRecord) : Ordering :=
  ((compare left.agreement.activationGeneration right.agreement.activationGeneration).then
    (compare (recordDigest left) (recordDigest right))).then
      (compare left.agreement.connectionId right.agreement.connectionId)

/-- Whether the candidates that the connection has observed were all emitted before. -/
def isReady (candidateIds emitted : BTreeSet String) (connection : DomeConnectionRecord) :
    Bool :=
  (connection.observedActiveConnectionIds.filter fun id => id ∈ candidateIds).all
    fun id => id ∈ emitted

/-- The position of the connection to emit next: the least ready one, and in a causal cycle
the least one. -/
def nextIndex (recordDigest : DomeConnectionRecord → String)
    (candidateIds emitted : BTreeSet String) (remaining : List DomeConnectionRecord) :
    Option ℕ :=
  let order := fun (left right : DomeConnectionRecord × ℕ) =>
    topologyConnectionOrder recordDigest left.1 right.1
  let ready := (minBy order (remaining.zipIdx.filter fun connection =>
    isReady candidateIds emitted connection.1)).map Prod.snd
  ready.or ((minBy order remaining.zipIdx).map Prod.snd)

/-- The loop of `orderedTopologyConnections`. Every round takes one connection out of the
remaining ones, so their number bounds the rounds. -/
def orderLoop (recordDigest : DomeConnectionRecord → String) (candidateIds : BTreeSet String) :
    ℕ → BTreeSet String → List DomeConnectionRecord → List DomeConnectionRecord
  | 0, _, _ => []
  | rounds + 1, emitted, remaining =>
    match nextIndex recordDigest candidateIds emitted remaining with
    | none => []
    | some index =>
      match remaining[index]? with
      | none => []
      | some connection =>
        connection :: orderLoop recordDigest candidateIds rounds
          (emitted.insert connection.agreement.connectionId) (remaining.eraseIdx index)

def orderedTopologyConnections (recordDigest : DomeConnectionRecord → String)
    (connections : List DomeConnectionRecord) : List DomeConnectionRecord :=
  let remaining := connections.filter isTopologyActive
  let candidateIds := BTreeSet.setOf
    (remaining.map fun connection => connection.agreement.connectionId)
  orderLoop recordDigest candidateIds remaining.length ∅ remaining

/-! ### Components -/

/-- An edge at an instance: the neighbor, the direction it lies in, and the connection. -/
structure Edge where
  neighbor : String
  direction : DomeDirection
  connectionId : String
  deriving DecidableEq, Repr

/-- The edges at every instance. -/
abbrev Adjacency := BTreeMap String (List Edge)

structure DomeComponentTopology where
  rootInstanceId : String
  instanceIds : List String
  connectionIds : List String
  coordinatesCm : BTreeMap String Coordinate

structure DomeTopology where
  spatialContext : SpatialContext
  components : List DomeComponentTopology
  activeConnectionIds : List String
  topologyDigest : String

def neighbors (adjacency : Adjacency) (instanceId : String) : List String :=
  (adjacency[instanceId]?.getD []).map Edge.neighbor

/-- The search takes the start and at most every edge once from its queue. -/
def reachableInstances (adjacency : Adjacency) (start : String) : BTreeSet String :=
  Search.reach (neighbors adjacency)
    (1 + BTreeMap.sumOver (fun _ edges => edges.length) adjacency) [start] ∅

/-- The accumulators of the walk over a component. -/
structure Walk where
  coordinatesCm : BTreeMap String Coordinate
  coordinateOwners : BTreeMap Coordinate String
  connectionIds : BTreeSet String
  queue : List String

/-- One edge of the instance at `current`. -/
def visitEdge (current : Coordinate) (walk : Walk) (edge : Edge) : Result Walk := do
  let walk := { walk with connectionIds := walk.connectionIds.insert edge.connectionId }
  let offset ← directionOffsetCm edge.direction
  let coordinate := current + offset
  match walk.coordinatesCm[edge.neighbor]? with
  | some existing =>
    bailIf (existing ≠ coordinate)
      "Dome Connection topology assigns inconsistent coordinates"
    return walk
  | none =>
    bailIf (walk.coordinateOwners[coordinate]?.any fun owner => owner ≠ edge.neighbor)
      "Dome Connection topology has a coordinate collision"
    return { walk with
      coordinateOwners := walk.coordinateOwners.insert coordinate edge.neighbor
      coordinatesCm := walk.coordinatesCm.insert edge.neighbor coordinate
      queue := walk.queue ++ [edge.neighbor] }

/-- The edges at an instance, sorted by their connection. -/
def sortedEdges (adjacency : Adjacency) (instanceId : String) : List Edge :=
  (adjacency[instanceId]?.getD []).insertionSort fun left right =>
    left.connectionId ≤ right.connectionId

/-- The walk takes every instance of the component from its queue once. -/
def walkLoop (adjacency : Adjacency) : ℕ → Walk → Result Walk
  | 0, walk => .ok walk
  | rounds + 1, walk =>
    match walk.queue with
    | [] => .ok walk
    | instanceId :: queue => do
      let current ← expect walk.coordinatesCm[instanceId]? "no entry found for key"
      let walk ← (sortedEdges adjacency instanceId).foldlM (visitEdge current)
        { walk with queue }
      walkLoop adjacency rounds walk

/-- The walk before its first step. -/
def startWalk (root : String) : Walk where
  coordinatesCm := (∅ : BTreeMap String Coordinate).insert root 0
  coordinateOwners := (∅ : BTreeMap Coordinate String).insert 0 root
  connectionIds := ∅
  queue := [root]

/-- The component of a set of connected instances. -/
def deriveComponent (adjacency : Adjacency) (instanceSet : BTreeSet String) :
    Result DomeComponentTopology := do
  let rootInstanceId ← context (BTreeSet.first instanceSet) "Dome component is empty"
  let walk ← walkLoop adjacency adjacency.size (startWalk rootInstanceId)
  return {
    rootInstanceId
    instanceIds := instanceSet.toList
    connectionIds := walk.connectionIds.toList
    coordinatesCm := walk.coordinatesCm }

/-- The loop of `deriveComponents`. Every round takes at least the first of the remaining
instances, so their number bounds the rounds. -/
def componentsLoop (adjacency : Adjacency) :
    ℕ → BTreeSet String → Result (List DomeComponentTopology)
  | 0, _ => .ok []
  | rounds + 1, remaining =>
    match BTreeSet.first remaining with
    | none => .ok []
    | some root => do
      let instanceSet := reachableInstances adjacency root
      let remaining := instanceSet.toList.foldl (fun remaining id => remaining.erase id) remaining
      let component ← deriveComponent adjacency instanceSet
      let components ← componentsLoop adjacency rounds remaining
      return component :: components

def deriveComponents (adjacency : Adjacency) : Result (List DomeComponentTopology) := do
  let components ← componentsLoop adjacency adjacency.size (BTreeSet.setOf adjacency.keys)
  return components.insertionSort fun left right => left.rootInstanceId ≤ right.rootInstanceId

/-! ### Resolution -/

/-- The accumulators of the loop over the instances. -/
structure InstanceTable where
  instanceById : BTreeMap String DomeInstanceManifest
  spatialContext : Option SpatialContext

/-- One instance of the input. -/
def loadInstance (table : InstanceTable) (manifest : DomeInstanceManifest) :
    Result InstanceTable := do
  validateDomeInstanceManifest manifest
  bailIf (manifest.status ≠ .active ∨ manifest.relationshipDetach.isSome)
    "Dome topology requires active attached instances"
  bailIf (table.spatialContext.any fun context => context ≠ manifest.spatialContext)
    "Dome topology instances must share one Spatial Context"
  bailIf (manifest.instanceId ∈ table.instanceById) "duplicate Dome instance in topology input"
  return {
    instanceById := table.instanceById.insert manifest.instanceId manifest
    spatialContext := some (table.spatialContext.getD manifest.spatialContext) }

/-- A slot for a connection: an instance and a direction. -/
abbrev Slot := String ×ₗ DomeDirection

/-- The slot of an endpoint. -/
def DomeConnectionEndpoint.slot (endpoint : DomeConnectionEndpoint) : Slot :=
  toLex (endpoint.instanceId, endpoint.direction)

/-- The accumulators of the loop over the connections. -/
structure Network where
  seenConnectionIds : BTreeSet String
  adjacency : Adjacency
  occupiedSlots : BTreeSet Slot

/-- Append an edge to the list of an instance. -/
def pushEdge (adjacency : Adjacency) (instanceId : String) (edge : Edge) (message : String) :
    Result Adjacency := do
  let edges ← expect adjacency[instanceId]? message
  return adjacency.insert instanceId (edges ++ [edge])

/-- One active connection. -/
def addConnection (instanceById : BTreeMap String DomeInstanceManifest) (network : Network)
    (connection : DomeConnectionRecord) : Result Network := do
  validateDomeConnectionRecord connection
  let agreement := connection.agreement
  bailIf (agreement.connectionId ∈ network.seenConnectionIds) "duplicate Dome Connection id"
  let proposer ← context instanceById[agreement.proposer.instanceId]?
    "Dome Connection proposer instance is unavailable"
  let receiver ← context instanceById[agreement.receiver.instanceId]?
    "Dome Connection receiver instance is unavailable"
  validateDomeConnectionAgreement agreement proposer receiver
  bailIf (agreement.proposer.slot ∈ network.occupiedSlots ∨
      agreement.receiver.slot ∈ network.occupiedSlots.insert agreement.proposer.slot)
    "Dome Connection direction slot is already occupied"
  let proposerComponent :=
    reachableInstances network.adjacency agreement.proposer.instanceId
  let receiverComponent :=
    reachableInstances network.adjacency agreement.receiver.instanceId
  bailIf (agreement.receiver.instanceId ∈ proposerComponent)
    "Dome Connection would create a cycle"
  bailIf (1 < proposerComponent.size ∧ 1 < receiverComponent.size)
    "Dome Connection cannot merge existing components"
  let adjacency ← pushEdge network.adjacency agreement.proposer.instanceId
    ⟨agreement.receiver.instanceId, agreement.proposer.direction, agreement.connectionId⟩
    "validated proposer"
  let adjacency ← pushEdge adjacency agreement.receiver.instanceId
    ⟨agreement.proposer.instanceId, agreement.receiver.direction, agreement.connectionId⟩
    "validated receiver"
  let _ ← deriveComponents adjacency
  return {
    seenConnectionIds := network.seenConnectionIds.insert agreement.connectionId
    adjacency
    occupiedSlots :=
      (network.occupiedSlots.insert agreement.proposer.slot).insert agreement.receiver.slot }

/-- The network of the instances before the first connection. -/
def emptyNetwork (instanceById : BTreeMap String DomeInstanceManifest) : Network where
  seenConnectionIds := ∅
  adjacency := instanceById.keys.foldl (fun adjacency id => adjacency.insert id []) ∅
  occupiedSlots := ∅

section

variable (recordDigest : DomeConnectionRecord → String)
  (topologyDigest : SpatialContext → List DomeComponentTopology → List String → String)

def resolveDomeTopology (instances : List DomeInstanceManifest)
    (connections : List DomeConnectionRecord) : Result DomeTopology := do
  let table ← instances.foldlM loadInstance ⟨∅, none⟩
  let spatialContext ← context table.spatialContext
    "Dome topology requires at least one instance"
  let active := orderedTopologyConnections recordDigest connections
  let network ← active.foldlM (addConnection table.instanceById)
    (emptyNetwork table.instanceById)
  let components ← deriveComponents network.adjacency
  let activeConnectionIds := network.seenConnectionIds.toList
  return {
    spatialContext
    components
    activeConnectionIds
    topologyDigest := topologyDigest spatialContext components activeConnectionIds }

structure DomeRejectedConnection where
  connectionId : String
  reason : String

structure DomeTopologyResolution where
  topology : DomeTopology
  rejectedConnections : List DomeRejectedConnection

/-- The text of a failure. -/
def failureText : Failure → String
  | .bail message => message
  | .panic message => message

/-- One candidate: it is accepted when the topology with it resolves. -/
def tryCandidate (instances : List DomeInstanceManifest)
    (state : List DomeConnectionRecord × List DomeRejectedConnection)
    (candidate : DomeConnectionRecord) :
    List DomeConnectionRecord × List DomeRejectedConnection :=
  match resolveDomeTopology recordDigest topologyDigest instances (state.1 ++ [candidate]) with
  | .ok _ => (state.1 ++ [candidate], state.2)
  | .error failure =>
    (state.1, state.2 ++ [⟨candidate.agreement.connectionId, failureText failure⟩])

def resolveDomeTopologyCandidates (instances : List DomeInstanceManifest)
    (connections : List DomeConnectionRecord) : Result DomeTopologyResolution := do
  let candidates := orderedTopologyConnections recordDigest connections
  let (accepted, rejectedConnections) :=
    candidates.foldl (tryCandidate recordDigest topologyDigest instances) ([], [])
  let topology ← resolveDomeTopology recordDigest topologyDigest instances accepted
  return { topology, rejectedConnections }

end

end Kukuri.DomeConnections
