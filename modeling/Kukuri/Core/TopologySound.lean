import Kukuri.Core.TopologyOrder
import Kukuri.Core.TopologyWalk
import Kukuri.Data.Forest

/-!
# Soundness of a resolved topology

The loop over the connections keeps a forest: `NetworkOf` describes the accumulators by the
list of the connections that were added. A resolved topology is then a forest that is laid
out in the plane: `TopologySound`.
-/

namespace Kukuri.DomeConnections

open Result EdgeList List BTreeMap Std

variable {instanceById : BTreeMap String DomeInstanceManifest} {done : List DomeConnectionRecord}
  {network network' : Network} {connection : DomeConnectionRecord}
  {component : DomeComponentTopology} {manifest : DomeInstanceManifest}
  {table table' : InstanceTable} {failure : Failure} {v w message : String}

/-! ### Networks and lists of connections -/

/-- The two instances of a connection. -/
def ends (connection : DomeConnectionRecord) : String × String :=
  (connection.agreement.proposer.instanceId, connection.agreement.receiver.instanceId)

/-- The two slots of a connection. -/
def slotsOf (connection : DomeConnectionRecord) : List Slot :=
  [connection.agreement.proposer.slot, connection.agreement.receiver.slot]

def connectionId (connection : DomeConnectionRecord) : String :=
  connection.agreement.connectionId

/-- The edge at the proposer. -/
def forward (connection : DomeConnectionRecord) : Edge :=
  ⟨connection.agreement.receiver.instanceId, connection.agreement.proposer.direction,
    connection.agreement.connectionId⟩

/-- The edge at the receiver. -/
def backward (connection : DomeConnectionRecord) : Edge :=
  ⟨connection.agreement.proposer.instanceId, connection.agreement.receiver.direction,
    connection.agreement.connectionId⟩

/-- The edges that one connection has at an instance. -/
def edgesAt (v : String) (connection : DomeConnectionRecord) : List Edge :=
  (if (ends connection).1 = v then [forward connection] else []) ++
    (if (ends connection).2 = v then [backward connection] else [])

theorem mem_flatMap_edgesAt {connections : List DomeConnectionRecord} {e : Edge} :
  e ∈ connections.flatMap (edgesAt v) ↔ ∃ connection ∈ connections,
    ((ends connection).1 = v ∧ e = forward connection) ∨
      ((ends connection).2 = v ∧ e = backward connection)
  := by
  simp only [mem_flatMap, edgesAt, mem_append]
  grind

/-- The accumulators after the connections `done` were added. -/
structure NetworkOf (instanceById : BTreeMap String DomeInstanceManifest)
    (done : List DomeConnectionRecord) (network : Network) : Prop where
  seen : ∀ id, id ∈ network.seenConnectionIds ↔ id ∈ done.map connectionId
  nodup_ids : (done.map connectionId).Nodup
  mem_adjacency : ∀ v, v ∈ network.adjacency ↔ v ∈ instanceById
  edges : ∀ v ∈ instanceById, network.adjacency[v]? = some (done.flatMap (edgesAt v))
  slots : ∀ slot, slot ∈ network.occupiedSlots ↔ slot ∈ done.flatMap slotsOf
  nodup_slots : (done.flatMap slotsOf).Nodup
  endpoints : ∀ connection ∈ done, (ends connection).1 ∈ instanceById ∧
    (ends connection).2 ∈ instanceById ∧ connection.agreement.receiver.direction
      = oppositeDomeDirection connection.agreement.proposer.direction
  forest : Forest ends done.reverse

section

variable (h : NetworkOf instanceById done network)
include h

theorem NetworkOf.edgesOf_eq (v : String) :
  edgesOf network.adjacency v = done.flatMap (edgesAt v)
  := by
  by_cases hv : v ∈ instanceById
  · rw [edgesOf, h.edges v hv]
    rfl
  · rw [edgesOf_of_not_mem (by rwa [h.mem_adjacency])]
    symm
    rw [flatMap_eq_nil_iff]
    intro connection hconnection
    obtain ⟨hfirst, hsecond, -⟩ := h.endpoints connection hconnection
    have hne : (ends connection).1 ≠ v := fun heq => hv (heq ▸ hfirst)
    have hne' : (ends connection).2 ≠ v := fun heq => hv (heq ▸ hsecond)
    simp [edgesAt, hne, hne']

theorem NetworkOf.mem_neighbors_iff :
  w ∈ neighbors network.adjacency v ↔ Joined ends done v w
  := by
  rw [mem_neighbors]
  simp only [h.edgesOf_eq, mem_flatMap_edgesAt]
  constructor
  · rintro ⟨e, ⟨connection, hmem, ⟨rfl, rfl⟩ | ⟨rfl, rfl⟩⟩, rfl⟩
    · exact ⟨connection, hmem, .inl rfl⟩
    · exact ⟨connection, hmem, .inr rfl⟩
  · rintro ⟨connection, hmem, hends | hends⟩
    · exact ⟨_, ⟨connection, hmem, .inl ⟨by rw [hends], rfl⟩⟩, congrArg Prod.snd hends⟩
    · exact ⟨_, ⟨connection, hmem, .inr ⟨by rw [hends], rfl⟩⟩, congrArg Prod.fst hends⟩

/-- Being reachable is being connected. -/
theorem NetworkOf.reachable_iff :
  Search.Reachable (neighbors network.adjacency) v w ↔ Connected ends done v w
  := by
  have hsame : (fun v w => w ∈ neighbors network.adjacency v) = Joined ends done := by
    funext v w
    apply propext h.mem_neighbors_iff
  rw [Search.Reachable, hsame, Connected]

theorem NetworkOf.wellFormed :
  WellFormed network.adjacency
  where
  closed := by
    intro v e he
    rw [h.edgesOf_eq, mem_flatMap_edgesAt] at he
    rw [h.mem_adjacency]
    obtain ⟨connection, hmem, ⟨-, rfl⟩ | ⟨-, rfl⟩⟩ := he
    · apply (h.endpoints connection hmem).2.1
    · apply (h.endpoints connection hmem).1
  symm := by
    intro v w
    rw [h.mem_neighbors_iff, h.mem_neighbors_iff]
    apply EdgeList.Joined.symm

/-- A forest has a potential that fits all edges. -/
theorem NetworkOf.exists_fits :
  ∃ f, Fits network.adjacency f
  := by
  obtain ⟨f, hf⟩ := h.forest.exists_potential
    fun connection => adjacentOffset connection.agreement.proposer.direction
  use f
  intro v e he
  rw [h.edgesOf_eq, mem_flatMap_edgesAt] at he
  obtain ⟨connection, hmem, hedge⟩ := he
  have hforward := hf connection (mem_reverse.mpr hmem)
  rcases hedge with ⟨rfl, rfl⟩ | ⟨rfl, rfl⟩
  · apply hforward
  · have hopposite := (h.endpoints connection hmem).2.2
    simp only [ends] at hforward
    simp only [ends, backward, hopposite, adjacentOffset_opposite, hforward]
    abel

end

/-! ### Adding a connection -/

/-- What an accepted pair of endpoints satisfies. -/
theorem validateEndpointPair_eq_ok {spatialContext : SpatialContext}
    {proposerEndpoint receiverEndpoint : DomeConnectionEndpoint}
    {proposer receiver : DomeInstanceManifest} {u : Unit}
    (hvalid : validateEndpointPair spatialContext proposerEndpoint receiverEndpoint proposer
      receiver = .ok u) :
  receiverEndpoint.direction = oppositeDomeDirection proposerEndpoint.direction
  := by
  obtain ⟨_, -, hvalid⟩ := bind_eq_ok.mp hvalid
  obtain ⟨-, hvalid⟩ := bailIf_bind_eq_ok.mp hvalid
  obtain ⟨-, hvalid⟩ := bailIf_bind_eq_ok.mp hvalid
  apply not_not.mp (bailIf_eq_ok.mp hvalid)

theorem pushEdge_eq_ok {adjacency adjacency' : Adjacency} {edge : Edge}
    (hpush : pushEdge adjacency v edge message = .ok adjacency') :
  ∃ edges, adjacency[v]? = some edges ∧ adjacency' = adjacency.insert v (edges ++ [edge])
  := by
  obtain ⟨edges, hedges, hpush⟩ := bind_eq_ok.mp hpush
  exact ⟨edges, expect_eq_ok.mp hedges, (pure_eq_ok.mp hpush).symm⟩

/-- What was checked when a connection is added, and the accumulators afterwards. -/
structure Linked (instanceById : BTreeMap String DomeInstanceManifest) (network : Network)
    (connection : DomeConnectionRecord) (network' : Network) : Prop where
  new_id : connectionId connection ∉ network.seenConnectionIds
  proposer_mem : (ends connection).1 ∈ instanceById
  receiver_mem : (ends connection).2 ∈ instanceById
  direction : connection.agreement.receiver.direction
    = oppositeDomeDirection connection.agreement.proposer.direction
  slots : connection.agreement.proposer.slot ∉ network.occupiedSlots ∧
    connection.agreement.receiver.slot
      ∉ network.occupiedSlots.insert connection.agreement.proposer.slot
  acyclic : (ends connection).2 ∉ reachableInstances network.adjacency (ends connection).1
  pushed : ∃ adjacency adjacency',
    pushEdge network.adjacency (ends connection).1 (forward connection) "validated proposer"
      = .ok adjacency ∧
    pushEdge adjacency (ends connection).2 (backward connection) "validated receiver"
      = .ok adjacency' ∧
    network' = {
      seenConnectionIds := network.seenConnectionIds.insert (connectionId connection)
      adjacency := adjacency'
      occupiedSlots := (network.occupiedSlots.insert connection.agreement.proposer.slot).insert
        connection.agreement.receiver.slot }

theorem addConnection_eq_ok (hadd : addConnection instanceById network connection = .ok network') :
  Linked instanceById network connection network'
  := by
  obtain ⟨_, -, hadd⟩ := bind_eq_ok.mp hadd
  obtain ⟨hid, hadd⟩ := bailIf_bind_eq_ok.mp hadd
  obtain ⟨proposer, hproposer, hadd⟩ := bind_eq_ok.mp hadd
  obtain ⟨receiver, hreceiver, hadd⟩ := bind_eq_ok.mp hadd
  obtain ⟨_, hagreement, hadd⟩ := bind_eq_ok.mp hadd
  obtain ⟨-, hpair⟩ := bailIf_bind_eq_ok.mp hagreement
  obtain ⟨hslots, hadd⟩ := bailIf_bind_eq_ok.mp hadd
  obtain ⟨hcycle, hadd⟩ := bailIf_bind_eq_ok.mp hadd
  obtain ⟨-, hadd⟩ := bailIf_bind_eq_ok.mp hadd
  obtain ⟨adjacency, hforward, hadd⟩ := bind_eq_ok.mp hadd
  obtain ⟨adjacency', hbackward, hadd⟩ := bind_eq_ok.mp hadd
  obtain ⟨_, -, hadd⟩ := bind_eq_ok.mp hadd
  obtain rfl := pure_eq_ok.mp hadd
  exact {
    new_id := hid
    proposer_mem := mem_iff_exists.mpr ⟨proposer, context_eq_ok.mp hproposer⟩
    receiver_mem := mem_iff_exists.mpr ⟨receiver, context_eq_ok.mp hreceiver⟩
    direction := validateEndpointPair_eq_ok hpair
    slots := not_or.mp hslots
    acyclic := hcycle
    pushed := ⟨adjacency, adjacency', hforward, hbackward, rfl⟩ }

theorem NetworkOf.link (h : NetworkOf instanceById done network)
    (hlinked : Linked instanceById network connection network') :
  NetworkOf instanceById (done ++ [connection]) network'
  := by
  obtain ⟨hid, hfirst, hsecond, hdirection, ⟨hslot, hslot'⟩, hcycle, adjacency, adjacency',
    hforward, hbackward, rfl⟩ := hlinked
  obtain ⟨edges, hedges, rfl⟩ := pushEdge_eq_ok hforward
  obtain ⟨edges', hedges', rfl⟩ := pushEdge_eq_ok hbackward
  rw [mem_reachableInstances, h.reachable_iff] at hcycle
  have hne : (ends connection).1 ≠ (ends connection).2 := by
    intro hsame
    apply hcycle
    rw [hsame]
    apply Connected.refl
  obtain rfl : done.flatMap (edgesAt (ends connection).1) = edges := by
    apply Option.some.inj
    rw [← hedges, h.edges _ hfirst]
  obtain rfl : done.flatMap (edgesAt (ends connection).2) = edges' := by
    apply Option.some.inj
    rw [← hedges', ← h.edges _ hsecond]
    grind
  exact {
    seen := by
      intro id
      have := h.seen id
      grind
    nodup_ids := by
      rw [map_append, nodup_append]
      refine ⟨h.nodup_ids, by simp, ?_⟩
      rintro a ha b hb rfl
      obtain rfl : a = connectionId connection := by simpa using hb
      apply hid ((h.seen _).mpr ha)
    mem_adjacency := by
      have := h.mem_adjacency
      grind
    edges := by
      intro v hv
      have hv' := h.edges v hv
      simp only [ExtTreeMap.getElem?_insert, LawfulEqCmp.compare_eq_iff_eq]
      by_cases hvfirst : (ends connection).1 = v
      · subst hvfirst
        simp [edgesAt, hne.symm]
      · by_cases hvsecond : (ends connection).2 = v
        · subst hvsecond
          simp [edgesAt, hne]
        · simp [edgesAt, hvfirst, hvsecond, hv']
    slots := by
      intro slot
      have := h.slots slot
      simp only [ExtTreeSet.mem_insert, LawfulEqCmp.compare_eq_iff_eq,
        flatMap_append, mem_append, flatMap_singleton, slotsOf]
      grind
    nodup_slots := by
      have hslots := h.slots
      rw [flatMap_append, flatMap_singleton, nodup_append]
      refine ⟨h.nodup_slots, ?_, ?_⟩
      · simp only [slotsOf]
        grind
      · intro a ha b hb
        simp only [slotsOf] at hb
        grind
    endpoints := forall_mem_append.mpr
      ⟨h.endpoints, forall_mem_singleton.mpr ⟨hfirst, hsecond, hdirection⟩⟩
    forest := by
      rw [reverse_append, reverse_singleton, singleton_append]
      apply Forest.cons h.forest
      intro hconnected
      apply hcycle
      apply hconnected.mono
      simp }

/-! ### The inputs of the loop -/

/-- An instance that can be part of a topology. -/
def Attachable (manifest : DomeInstanceManifest) : Prop :=
  validateDomeInstanceManifest manifest = .ok () ∧ manifest.status = .active ∧
    manifest.relationshipDetach = none

/-- The table after the instances `done` were loaded. -/
structure Loaded (done : List DomeInstanceManifest) (table : InstanceTable) : Prop where
  getElem : ∀ (v : String) (manifest : DomeInstanceManifest),
    table.instanceById[v]? = some manifest ↔ manifest ∈ done ∧ manifest.instanceId = v
  nodup : (done.map DomeInstanceManifest.instanceId).Nodup
  attachable : ∀ manifest ∈ done, Attachable manifest
  spatialContext : ∀ manifest ∈ done, table.spatialContext = some manifest.spatialContext
  empty : done = [] → table.spatialContext = none

theorem Loaded.mem_iff {done : List DomeInstanceManifest} (h : Loaded done table) :
  v ∈ table.instanceById ↔ v ∈ done.map DomeInstanceManifest.instanceId
  := by
  rw [mem_iff_exists]
  simp only [h.getElem, mem_map]

/-- An instance is loaded when it can be attached, lies in the context of the others and has
a new identifier. -/
theorem loadInstance_eq_ok :
  loadInstance table manifest = .ok table' ↔
    Attachable manifest ∧ (∀ context, table.spatialContext = some context →
      context = manifest.spatialContext) ∧ manifest.instanceId ∉ table.instanceById ∧
    table' = {
      instanceById := table.instanceById.insert manifest.instanceId manifest
      spatialContext := some (table.spatialContext.getD manifest.spatialContext) }
  := by
  unfold loadInstance Attachable
  rw [bind_eq_ok]
  simp only [bailIf_bind_eq_ok, pure_eq_ok]
  simp only [not_or, not_not, Bool.not_eq_true, Option.isSome_eq_false_iff,
    Option.isNone_iff_eq_none, Option.any_eq_true, decide_eq_true_eq, not_exists, not_and,
    ne_eq, eq_comm (b := table')]
  constructor
  · rintro ⟨⟨⟩, hvalid, hstatus, hcontext, hnew, htable⟩
    exact ⟨⟨hvalid, hstatus⟩, hcontext, hnew, htable⟩
  · rintro ⟨⟨hvalid, hstatus⟩, hcontext, hnew, htable⟩
    exact ⟨⟨⟩, hvalid, hstatus, hcontext, hnew, htable⟩

theorem Loaded.snoc {done : List DomeInstanceManifest} (h : Loaded done table)
    (hload : loadInstance table manifest = .ok table') :
  Loaded (done ++ [manifest]) table'
  := by
  obtain ⟨hattach, hcontext, hnew, rfl⟩ := loadInstance_eq_ok.mp hload
  have hfresh : ∀ m ∈ done, m.instanceId ≠ manifest.instanceId := by
    intro m hm heq
    apply hnew
    apply mem_iff_exists.mpr ⟨m, (h.getElem _ m).mpr ⟨hm, heq⟩⟩
  exact {
    getElem := by
      intro v m
      have := h.getElem v m
      grind
    nodup := by
      rw [map_append, nodup_append]
      refine ⟨h.nodup, by simp, ?_⟩
      rintro a ha b hb rfl
      obtain ⟨m, hm, rfl⟩ := mem_map.mp ha
      apply hfresh m hm
      simpa using hb
    attachable := by
      have := h.attachable
      grind
    spatialContext := by
      intro m hm
      rcases mem_append.mp hm with hm | hm
      · have hm' := h.spatialContext m hm
        simp [hm']
      · rw [mem_singleton.mp hm]
        cases hc : table.spatialContext with
        | none => rfl
        | some context => simp [hcontext context hc]
    empty := by simp }

theorem loaded_of_foldlM {instances : List DomeInstanceManifest}
    (hload : instances.foldlM loadInstance ⟨∅, none⟩ = .ok table) :
  Loaded instances table
  := by
  apply foldlM_invariant (P := fun done t => Loaded done t) hload
  · exact {
      getElem := by simp
      nodup := by simp
      attachable := by simp
      spatialContext := by simp
      empty := by simp }
  · intro done manifest t t' _ ht hround
    apply ht.snoc hround

theorem getElem?_foldl_insert (ids : List String) (adjacency : Adjacency) (v : String) :
  (ids.foldl (fun adjacency id => adjacency.insert id []) adjacency)[v]?
    = if v ∈ ids then some [] else adjacency[v]?
  := by
  induction ids generalizing adjacency with
  | nil => simp
  | cons id ids ih =>
    rw [foldl_cons, ih, ExtTreeMap.getElem?_insert]
    grind

theorem networkOf_empty (instanceById : BTreeMap String DomeInstanceManifest) :
  NetworkOf instanceById [] (emptyNetwork instanceById)
  where
  seen := by simp [emptyNetwork]
  nodup_ids := by simp
  mem_adjacency := by
    intro v
    rw [mem_iff_exists, emptyNetwork, getElem?_foldl_insert]
    simp
  edges := by
    intro v hv
    rw [emptyNetwork, getElem?_foldl_insert]
    simp [hv]
  slots := by simp [emptyNetwork]
  nodup_slots := by simp
  endpoints := by simp
  forest := .nil

theorem networkOf_of_foldlM {connections : List DomeConnectionRecord}
    (hloop : connections.foldlM (addConnection instanceById) (emptyNetwork instanceById)
      = .ok network) :
  NetworkOf instanceById connections network
  := by
  apply foldlM_invariant (P := fun done t => NetworkOf instanceById done t) hloop
  · apply networkOf_empty
  · intro done connection t t' _ ht hround
    apply ht.link (addConnection_eq_ok hround)

/-! ### Failures -/

/-- A failure that is reported, and does not come from inconsistent coordinates. -/
def Reported (failure : Failure) : Prop :=
  ∃ message, failure = .bail message ∧
    message ≠ "Dome Connection topology assigns inconsistent coordinates"

theorem Reported.bind {α β : Type} {x : Result α} {f : α → Result β}
    (h : x >>= f = .error failure) (hx : x = .error failure → Reported failure)
    (hf : ∀ a, x = .ok a → f a = .error failure → Reported failure) :
  Reported failure
  := by
  rcases bind_eq_error.mp h with h | ⟨a, ha, h⟩
  · apply hx h
  · apply hf a ha h

theorem Reported.bailIf {condition : Prop} [Decidable condition]
    (hmessage : message ≠ "Dome Connection topology assigns inconsistent coordinates" := by simp)
    (h : (Result.bailIf condition message : Result Unit) = .error failure) :
  Reported failure
  := ⟨message, (bailIf_eq_error.mp h).2, hmessage⟩

theorem Reported.context {α : Type} {value : Option α}
    (hmessage : message ≠ "Dome Connection topology assigns inconsistent coordinates" := by simp)
    (h : Result.context value message = .error failure) :
  Reported failure
  := ⟨message, (context_eq_error.mp h).2, hmessage⟩

theorem reported_collision :
  Reported collision
  := ⟨_, rfl, by simp⟩

theorem validateDomeInstanceManifest_eq_error
    (h : validateDomeInstanceManifest manifest = .error failure) :
  Reported failure
  := by
  apply Reported.bind h .bailIf
  intro _ _ h
  apply Reported.bind h .bailIf
  intro _ _ h
  apply Reported.bind h .bailIf
  intro _ _ h
  apply Reported.bind h .bailIf
  intro _ _ h
  apply Reported.bind h .bailIf
  intro _ _ h
  exact .bailIf (h := h)

theorem loadInstance_eq_error (h : loadInstance table manifest = .error failure) :
  Reported failure
  := by
  apply Reported.bind h validateDomeInstanceManifest_eq_error
  intro _ _ h
  apply Reported.bind h .bailIf
  intro _ _ h
  apply Reported.bind h .bailIf
  intro _ _ h
  apply Reported.bind h .bailIf
  intro _ _ h
  cases h

theorem validateDomeConnectionRecord_eq_error {record : DomeConnectionRecord}
    (h : validateDomeConnectionRecord record = .error failure) :
  Reported failure
  := by
  apply Reported.bind h .bailIf
  intro _ _ h
  apply Reported.bind h .bailIf
  intro _ _ h
  split at h
  case isTrue => exact .bailIf (h := h)
  case isFalse =>
    apply Reported.bind h .context
    intro _ _ h
    apply Reported.bind h .bailIf
    intro _ _ h
    apply Reported.bind h .bailIf
    intro _ _ h
    apply Reported.bind h .bailIf
    intro _ _ h
    exact .bailIf (h := h)

theorem validateDomeConnectionAgreement_eq_error {agreement : DomeConnectionAgreement}
    {proposer receiver : DomeInstanceManifest}
    (h : validateDomeConnectionAgreement agreement proposer receiver = .error failure) :
  Reported failure
  := by
  apply Reported.bind h .bailIf
  intro _ _ h
  apply Reported.bind h
  · intro h
    apply Reported.bind h .bailIf
    intro _ _ h
    exact .bailIf (h := h)
  intro _ _ h
  apply Reported.bind h .bailIf
  intro _ _ h
  apply Reported.bind h .bailIf
  intro _ _ h
  exact .bailIf (h := h)

/-- A push to the list of an instance that has one does not panic. -/
theorem pushEdge_ne_error {adjacency : Adjacency} (hv : v ∈ adjacency) {edge : Edge} :
  pushEdge adjacency v edge message ≠ .error failure
  := by
  intro h
  obtain ⟨edges, hedges⟩ := mem_iff_exists.mp hv
  simp [pushEdge, hedges, expect, bind, Except.bind, pure, Except.pure] at h

theorem addConnection_eq_error (hnetwork : NetworkOf instanceById done network)
    (h : addConnection instanceById network connection = .error failure) :
  Reported failure
  := by
  apply Reported.bind h validateDomeConnectionRecord_eq_error
  intro _ _ h
  apply Reported.bind h .bailIf
  intro _ hid h
  apply Reported.bind h .context
  intro proposer hproposer h
  apply Reported.bind h .context
  intro receiver hreceiver h
  apply Reported.bind h validateDomeConnectionAgreement_eq_error
  intro _ hagreement h
  apply Reported.bind h .bailIf
  intro _ hslots h
  apply Reported.bind h .bailIf
  intro _ hcycle h
  apply Reported.bind h .bailIf
  intro _ _ h
  have hfirst : (ends connection).1 ∈ instanceById :=
    mem_iff_exists.mpr ⟨proposer, context_eq_ok.mp hproposer⟩
  have hsecond : (ends connection).2 ∈ instanceById :=
    mem_iff_exists.mpr ⟨receiver, context_eq_ok.mp hreceiver⟩
  apply Reported.bind h
  · intro h
    exact absurd h (pushEdge_ne_error ((hnetwork.mem_adjacency _).mpr hfirst))
  intro adjacency hforward h
  apply Reported.bind h
  · intro h
    apply absurd h
    apply pushEdge_ne_error
    obtain ⟨edges, -, rfl⟩ := pushEdge_eq_ok hforward
    simp only [ExtTreeMap.mem_insert]
    exact .inr ((hnetwork.mem_adjacency _).mpr hsecond)
  intro adjacency' hbackward h
  apply Reported.bind h
  · -- The network with the new connection is still a forest, so it has a potential.
    intro h
    obtain ⟨-, hpair⟩ := bailIf_bind_eq_ok.mp hagreement
    have hlinked : Linked instanceById network connection {
        seenConnectionIds := network.seenConnectionIds.insert (connectionId connection)
        adjacency := adjacency'
        occupiedSlots := (network.occupiedSlots.insert connection.agreement.proposer.slot).insert
          connection.agreement.receiver.slot } := {
      new_id := bailIf_eq_ok.mp hid
      proposer_mem := hfirst
      receiver_mem := hsecond
      direction := validateEndpointPair_eq_ok hpair
      slots := not_or.mp (bailIf_eq_ok.mp hslots)
      acyclic := bailIf_eq_ok.mp hcycle
      pushed := ⟨adjacency, adjacency', hforward, hbackward, rfl⟩ }
    obtain ⟨f, hf⟩ := (hnetwork.link hlinked).exists_fits
    rw [deriveComponents_eq_error hf h]
    apply reported_collision
  · intro _ _ h
    cases h

/-! ### The components of a network -/

section

variable (h : NetworkOf instanceById done network)
include h

section

variable (hcomponent : ComponentOf network.adjacency component)
include hcomponent

theorem NetworkOf.mem_instanceIds :
  v ∈ component.instanceIds ↔ Connected ends done component.rootInstanceId v
  := by
  rw [hcomponent.mem_instanceIds, h.reachable_iff]

/-- Both ends of a connection are in the same component. -/
theorem NetworkOf.ends_mem_iff (hmem : connection ∈ done) :
  (ends connection).2 ∈ component.instanceIds ↔ (ends connection).1 ∈ component.instanceIds
  := by
  rw [h.mem_instanceIds hcomponent, h.mem_instanceIds hcomponent]
  have hedge := @Connected.of_mem _ _ ends _ _ hmem
  constructor
  · intro hsecond
    apply hsecond.trans hedge.symm
  · intro hfirst
    apply hfirst.trans hedge

/-- The connections of a component are those whose ends are its instances. -/
theorem NetworkOf.mem_connectionIds {id : String} :
  id ∈ component.connectionIds ↔
    ∃ connection ∈ done, connectionId connection = id ∧
      (ends connection).1 ∈ component.instanceIds
  := by
  obtain ⟨walk, hwalked, hcoordinates, hids⟩ := hcomponent.walked
  have hdomain : ∀ v, v ∈ walk.coordinatesCm ↔ v ∈ component.instanceIds := by
    intro v
    rw [hwalked.domain, hcomponent.mem_instanceIds]
  rw [hids, ExtTreeSet.mem_toList, hwalked.connectionIds]
  simp only [hdomain, h.edgesOf_eq, mem_flatMap_edgesAt]
  constructor
  · rintro ⟨v, e, hv, ⟨connection, hmem, ⟨rfl, rfl⟩ | ⟨rfl, rfl⟩⟩, rfl⟩
    · exact ⟨connection, hmem, rfl, hv⟩
    · exact ⟨connection, hmem, rfl, (h.ends_mem_iff hcomponent hmem).mp hv⟩
  · rintro ⟨connection, hmem, rfl, hfirst⟩
    exact ⟨_, _, hfirst, ⟨connection, hmem, .inl ⟨rfl, rfl⟩⟩, rfl⟩

omit hcomponent in
/-- Connections with the same identifier are equal. -/
theorem NetworkOf.eq_of_connectionId {left right : DomeConnectionRecord} (hleft : left ∈ done)
    (hright : right ∈ done) (hid : connectionId left = connectionId right) :
  left = right
  := inj_on_of_nodup_map h.nodup_ids hleft hright hid

/-- A component has one instance more than connections. -/
theorem NetworkOf.length_instanceIds :
  component.instanceIds.length = component.connectionIds.length + 1
  := by
  have hreverse : ∀ {v w}, Connected ends done.reverse v w ↔ Connected ends done v w := by
    intro v w
    constructor <;> apply Connected.mono <;> simp
  have hroot : component.rootInstanceId ∈ instanceById :=
    (h.mem_adjacency _).mp hcomponent.root_mem
  have hcount := h.forest.length_component (nodup_keys instanceById)
    (v := component.rootInstanceId) (by
      intro connection hmem
      obtain ⟨hfirst, hsecond, -⟩ := h.endpoints connection (mem_reverse.mp hmem)
      simp [hfirst, hsecond]) (by simp [hroot])
  have hinstances : component.instanceIds.length = (EdgeList.component ends done.reverse
      instanceById.keys component.rootInstanceId).length := by
    apply List.Perm.length_eq
    apply (perm_ext_iff_of_nodup hcomponent.nodup_instanceIds _).mpr
    · intro v
      rw [EdgeList.mem_component, hreverse, hcomponent.mem_instanceIds, h.reachable_iff]
      constructor
      · intro hv
        refine ⟨?_, hv⟩
        rw [ExtTreeMap.mem_keys, ← h.mem_adjacency]
        apply h.wellFormed.mem_of_reachable hcomponent.root_mem (h.reachable_iff.mpr hv)
      · rintro ⟨-, hv⟩
        apply hv
    · apply (nodup_keys instanceById).filter
  have hconnections : component.connectionIds.length
      = (EdgeList.edgesOf ends done.reverse component.rootInstanceId).length := by
    obtain ⟨walk, -, -, hids⟩ := hcomponent.walked
    rw [← length_map connectionId]
    apply List.Perm.length_eq
    apply (perm_ext_iff_of_nodup (by rw [hids]; apply BTreeSet.nodup_toList) _).mpr
    · intro id
      rw [h.mem_connectionIds hcomponent, mem_map]
      simp only [EdgeList.mem_edgesOf, mem_reverse, hreverse, hcomponent.mem_instanceIds,
        h.reachable_iff]
      constructor
      · rintro ⟨connection, hmem, hid, hconnected⟩
        exact ⟨connection, ⟨hmem, hconnected⟩, hid⟩
      · rintro ⟨connection, ⟨hmem, hconnected⟩, hid⟩
        exact ⟨connection, hmem, hid, hconnected⟩
    · have hnodup := nodup_reverse.mpr h.nodup_ids
      rw [← map_reverse] at hnodup
      apply List.Nodup.sublist _ hnodup
      apply List.Sublist.map
      apply filter_sublist
  rw [hinstances, hconnections, hcount]

end

/-! ### Soundness -/

/-- Components without a common instance have no common connection. -/
theorem disjoint_connectionIds {left right : DomeComponentTopology}
    (hleft : ComponentOf network.adjacency left) (hright : ComponentOf network.adjacency right)
    (hapart : Apart left right) (id : String) :
  ¬ (id ∈ left.connectionIds ∧ id ∈ right.connectionIds)
  := by
  rintro ⟨hinLeft, hinRight⟩
  obtain ⟨connection, hmem, hid, hend⟩ := (h.mem_connectionIds hleft).mp hinLeft
  obtain ⟨connection', hmem', hid', hend'⟩ := (h.mem_connectionIds hright).mp hinRight
  obtain rfl := h.eq_of_connectionId hmem hmem' (hid.trans hid'.symm)
  apply hapart _ hend hend'

end

/-- A component is a tree that is laid out around its least instance. -/
structure ComponentSound (active : List DomeConnectionRecord)
    (component : DomeComponentTopology) : Prop where
  nodup_instanceIds : component.instanceIds.Nodup
  nodup_connectionIds : component.connectionIds.Nodup
  tree : component.instanceIds.length = component.connectionIds.length + 1
  root_mem : component.rootInstanceId ∈ component.instanceIds
  root_le : ∀ v ∈ component.instanceIds, component.rootInstanceId ≤ v
  origin : component.coordinatesCm[component.rootInstanceId]? = some 0
  domain : ∀ v, v ∈ component.coordinatesCm ↔ v ∈ component.instanceIds
  distinct : ∀ (v w : String) (c : Coordinate), component.coordinatesCm[v]? = some c →
    component.coordinatesCm[w]? = some c → v = w
  connections_only : ∀ id ∈ component.connectionIds,
    ∃ connection ∈ active, connectionId connection = id
  adjacent : ∀ connection ∈ active, connectionId connection ∈ component.connectionIds →
    ∃ proposer receiver : Coordinate,
      component.coordinatesCm[(ends connection).1]? = some proposer ∧
      component.coordinatesCm[(ends connection).2]? = some receiver ∧
      receiver = proposer + adjacentOffset connection.agreement.proposer.direction ∧
      proposer = receiver + adjacentOffset connection.agreement.receiver.direction

theorem NetworkOf.componentSound {active : List DomeConnectionRecord}
    (h : NetworkOf instanceById done network)
    (hcomponent : ComponentOf network.adjacency component) (hactive : done.Perm active) :
  ComponentSound active component
  := by
  obtain ⟨walk, hwalked, hcoordinates, hids⟩ := hcomponent.walked
  have hdomain : ∀ v, v ∈ component.coordinatesCm ↔ v ∈ component.instanceIds := by
    intro v
    rw [hcoordinates, hwalked.domain, hcomponent.mem_instanceIds]
  exact {
    nodup_instanceIds := hcomponent.nodup_instanceIds
    nodup_connectionIds := by
      rw [hids]
      apply BTreeSet.nodup_toList
    tree := h.length_instanceIds hcomponent
    root_mem := by
      rw [h.mem_instanceIds hcomponent]
      apply Connected.refl
    root_le := hcomponent.root_le
    origin := by
      rw [hcoordinates]
      apply hwalked.origin
    domain := hdomain
    distinct := by
      rw [hcoordinates]
      apply hwalked.distinct
    connections_only := by
      intro id hid
      obtain ⟨connection, hmem, hconnection, -⟩ := (h.mem_connectionIds hcomponent).mp hid
      exact ⟨connection, hactive.mem_iff.mp hmem, hconnection⟩
    adjacent := by
      intro connection hmem hid
      have hdone := hactive.mem_iff.mpr hmem
      obtain ⟨connection', hmem', hid', hend⟩ := (h.mem_connectionIds hcomponent).mp hid
      obtain rfl := h.eq_of_connectionId hmem' hdone hid'
      obtain ⟨proposer, hproposer⟩ := mem_iff_exists.mp ((hdomain _).mpr hend)
      have hreceiver := hwalked.adjacent _ (forward connection') proposer
        (by
          rw [h.edgesOf_eq, mem_flatMap_edgesAt]
          exact ⟨_, hdone, .inl ⟨rfl, rfl⟩⟩)
        (by rwa [← hcoordinates])
      have hopposite := (h.endpoints _ hdone).2.2
      refine ⟨proposer, _, hproposer, ?_, rfl, ?_⟩
      · rw [hcoordinates]
        apply hreceiver
      · rw [hopposite, adjacentOffset_opposite]
        abel }

/-- The meaning of a topology: a partition of the instances into trees, with one component
for every connection. -/
structure TopologySound (instances : List DomeInstanceManifest)
    (connections : List DomeConnectionRecord) (topology : DomeTopology) : Prop where
  instances_once : ∀ manifest ∈ instances,
    topology.components.countP (fun component => manifest.instanceId ∈ component.instanceIds) = 1
  instances_only : ∀ component ∈ topology.components, ∀ v ∈ component.instanceIds,
    ∃ manifest ∈ instances, manifest.instanceId = v
  connections_once : ∀ connection ∈ connections.filter isTopologyActive,
    topology.components.countP
      (fun component => connectionId connection ∈ component.connectionIds) = 1
  nodup_ids : ((connections.filter isTopologyActive).map connectionId).Nodup
  nodup_slots : ((connections.filter isTopologyActive).flatMap slotsOf).Nodup
  components : ∀ component ∈ topology.components,
    ComponentSound (connections.filter isTopologyActive) component

section

variable {recordDigest : DomeConnectionRecord → String}
  {topologyDigest : SpatialContext → List DomeComponentTopology → List String → String}
  {instances : List DomeInstanceManifest} {connections : List DomeConnectionRecord}

/-- The stages of a resolution that succeeds. -/
theorem resolveDomeTopology_eq_ok {topology : DomeTopology} :
  resolveDomeTopology recordDigest topologyDigest instances connections = .ok topology ↔
    ∃ table spatialContext network components,
      instances.foldlM loadInstance ⟨∅, none⟩ = .ok table ∧
      table.spatialContext = some spatialContext ∧
      (orderedTopologyConnections recordDigest connections).foldlM
        (addConnection table.instanceById) (emptyNetwork table.instanceById) = .ok network ∧
      deriveComponents network.adjacency = .ok components ∧
      topology = {
        spatialContext, components
        activeConnectionIds := network.seenConnectionIds.toList
        topologyDigest := topologyDigest spatialContext components
          network.seenConnectionIds.toList }
  := by
  simp only [resolveDomeTopology, bind_eq_ok, context_eq_ok, pure_eq_ok]
  constructor
  · rintro ⟨table, htable, spatialContext, hcontext, network, hnetwork, components,
      hcomponents, rfl⟩
    exact ⟨table, spatialContext, network, components, htable, hcontext, hnetwork, hcomponents, rfl⟩
  · rintro ⟨table, spatialContext, network, components, htable, hcontext, hnetwork, hcomponents,
      rfl⟩
    exact ⟨table, htable, spatialContext, hcontext, network, hnetwork, components, hcomponents, rfl⟩

theorem topologySound_of_eq_ok {topology : DomeTopology}
    (hresolve : resolveDomeTopology recordDigest topologyDigest instances connections
      = .ok topology) :
  TopologySound instances connections topology
  := by
  obtain ⟨table, spatialContext, network, components, htable, -, hnetwork, hcomponents, rfl⟩ :=
    resolveDomeTopology_eq_ok.mp hresolve
  have hloaded := loaded_of_foldlM htable
  have h := networkOf_of_foldlM hnetwork
  have hactive := orderedTopologyConnections_perm recordDigest connections
  obtain ⟨hall, hapart, hcover⟩ := deriveComponents_spec h.wellFormed hcomponents
  have hmem : ∀ v, v ∈ network.adjacency ↔ v ∈ instances.map DomeInstanceManifest.instanceId := by
    intro v
    rw [h.mem_adjacency, hloaded.mem_iff]
  exact {
    instances_once := by
      intro manifest hmanifest
      apply countP_eq_one
      · apply hapart.imp
        intro left right hapart ⟨hleft, hright⟩
        apply hapart _ (of_decide_eq_true hleft) (of_decide_eq_true hright)
      · obtain ⟨component, hcomponent, hin⟩ := (hcover manifest.instanceId).mp
          ((hmem _).mpr (mem_map_of_mem hmanifest))
        exact ⟨component, hcomponent, decide_eq_true hin⟩
    instances_only := by
      intro component hcomponent v hv
      have hadjacency := (hcover v).mpr ⟨component, hcomponent, hv⟩
      apply mem_map.mp ((hmem v).mp hadjacency)
    connections_once := by
      intro connection hconnection
      have hdone := hactive.mem_iff.mpr hconnection
      apply countP_eq_one
      · apply hapart.imp_of_mem
        intro left right hleft hright hapart ⟨hinLeft, hinRight⟩
        apply disjoint_connectionIds h (hall _ hleft) (hall _ hright) hapart
          (connectionId connection)
        exact ⟨of_decide_eq_true hinLeft, of_decide_eq_true hinRight⟩
      · have hfirst := (h.mem_adjacency _).mpr (h.endpoints _ hdone).1
        obtain ⟨component, hcomponent, hin⟩ := (hcover _).mp hfirst
        refine ⟨component, hcomponent, decide_eq_true ?_⟩
        rw [h.mem_connectionIds (hall _ hcomponent)]
        exact ⟨connection, hdone, rfl, hin⟩
    nodup_ids := (hactive.map connectionId).nodup_iff.mp h.nodup_ids
    nodup_slots := (hactive.flatMap_right slotsOf).nodup_iff.mp h.nodup_slots
    components := by
      intro component hcomponent
      apply h.componentSound (hall _ hcomponent) hactive }

/-- A resolution fails with a reported failure: it neither panics nor finds inconsistent
coordinates. -/
theorem resolveDomeTopology_eq_error
    (hresolve : resolveDomeTopology recordDigest topologyDigest instances connections
      = .error failure) :
  Reported failure
  := by
  apply Reported.bind hresolve
  · intro hload
    obtain ⟨_, _, _, _, -, -, hfail⟩ := foldlM_eq_error hload
    apply loadInstance_eq_error hfail
  intro table _ hresolve
  apply Reported.bind hresolve .context
  intro spatialContext _ hresolve
  apply Reported.bind hresolve
  · intro hloop
    obtain ⟨done, connection, _, network, -, hdone, hfail⟩ := foldlM_eq_error hloop
    apply addConnection_eq_error (networkOf_of_foldlM hdone) hfail
  intro network hnetwork hresolve
  apply Reported.bind hresolve
  · intro hderive
    obtain ⟨f, hf⟩ := (networkOf_of_foldlM hnetwork).exists_fits
    rw [deriveComponents_eq_error hf hderive]
    apply reported_collision
  · intro _ _ hresolve
    cases hresolve

end

/-- Every topology that is returned is sound, and inconsistent coordinates are never
found. -/
theorem resolveDomeTopology_sound (recordDigest : DomeConnectionRecord → String)
    (topologyDigest : SpatialContext → List DomeComponentTopology → List String → String)
    (instances : List DomeInstanceManifest) (connections : List DomeConnectionRecord) :
  (∀ topology, resolveDomeTopology recordDigest topologyDigest instances connections
      = .ok topology → TopologySound instances connections topology) ∧
    ∀ failure, resolveDomeTopology recordDigest topologyDigest instances connections
      = .error failure → ∃ message, failure = .bail message ∧
        message ≠ "Dome Connection topology assigns inconsistent coordinates"
  := by
  constructor
  · intro topology hresolve
    apply topologySound_of_eq_ok hresolve
  · intro failure hresolve
    apply resolveDomeTopology_eq_error hresolve

/-! ### A resolved topology -/

def sampleInstance (instanceId : String) (owner : Pubkey) : DomeInstanceManifest where
  instanceId := instanceId
  spatialContext := .topic "plaza"
  ownerPubkey := owner
  presetRef := ⟨"lounge", owner, 1, "blob", "application/json"⟩
  title := "Lounge"
  maxPeers := some 8
  defaultSpawn := ⟨⟨0, 0, 0⟩, ⟨0, 0, 0⟩⟩
  generation := 1
  status := .active
  relationshipDetach := none

def sampleConnection (connectionId : String) (proposer receiver : String × Pubkey)
    (direction : DomeDirection) (observed : List String) : DomeConnectionRecord where
  agreement := {
    connectionId
    proposalId := "proposal"
    spatialContext := .topic "plaza"
    proposer := ⟨proposer.1, 1, proposer.2, direction⟩
    receiver := ⟨receiver.1, 1, receiver.2, oppositeDomeDirection direction⟩
    activationGeneration := 1 }
  receiverSlotGeneration := 1
  observedActiveConnectionIds := observed
  status := .active
  lifecycleGeneration := 1
  lifecycleActor := none
  lifecycleReason := none
  lifecycleDeadlineAt := none

def sampleInstances : List DomeInstanceManifest :=
  [sampleInstance "c" "carol", sampleInstance "a" "alice", sampleInstance "b" "bob"]

def sampleConnections : List DomeConnectionRecord :=
  [sampleConnection "bc" ("b", "bob") ("c", "carol") .north ["ab"],
    sampleConnection "ab" ("a", "alice") ("b", "bob") .east []]

/-- Three domes in a row are resolved. -/
theorem resolveDomeTopology_sound_row :
  ∃ topology, resolveDomeTopology (fun record => record.agreement.connectionId)
      (fun _ _ _ => "digest") sampleInstances sampleConnections = .ok topology ∧
    TopologySound sampleInstances sampleConnections topology
  := by
  have hok : (resolveDomeTopology (fun record => record.agreement.connectionId)
      (fun _ _ _ => "digest") sampleInstances sampleConnections).isOk := by decide +kernel
  obtain ⟨topology, htopology⟩ := isOk_iff.mp hok
  use topology, htopology
  apply (resolveDomeTopology_sound _ _ _ _).1 topology htopology

end Kukuri.DomeConnections
