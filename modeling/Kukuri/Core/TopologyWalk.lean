import Kukuri.Core.Topology

/-!
# The walks over a Dome network

What the functions on an `Adjacency` return. `reachableInstances` finds the instances that
can be reached. A successful walk over a component assigns a coordinate to each of them:
different instances get different coordinates, and along every edge the coordinates differ by
the offset of its direction. With a potential that fits all edges a walk can not find
inconsistent coordinates.
-/

namespace Kukuri.DomeConnections

open Result List BTreeMap Std

variable {adjacency : Adjacency} {root v w x : String} {edge : Edge} {walk walk' : Walk}
  {current : Coordinate} {f : String → Coordinate} {Done : String → Edge → Prop} {failure : Failure}
  {rounds popped : ℕ}

/-! ### Reachable instances -/

/-- The edges at an instance. -/
def edgesOf (adjacency : Adjacency) (instanceId : String) : List Edge :=
  adjacency[instanceId]?.getD []

theorem mem_sortedEdges {instanceId : String} :
  edge ∈ sortedEdges adjacency instanceId ↔ edge ∈ edgesOf adjacency instanceId
  := (perm_insertionSort _ _).mem_iff

theorem mem_neighbors :
  w ∈ neighbors adjacency v ↔ ∃ edge ∈ edgesOf adjacency v, edge.neighbor = w
  := by
  simp [neighbors, edgesOf]

theorem edgesOf_of_not_mem (hv : v ∉ adjacency) :
  edgesOf adjacency v = []
  := by
  simp [edgesOf, hv]

theorem sum_length_neighbors (adjacency : Adjacency) :
  (adjacency.keys.map fun v => (neighbors adjacency v).length).sum
    = BTreeMap.sumOver (fun _ edges => edges.length) adjacency
  := by
  rw [keys_eq_map, map_map, sumOver]
  congr 1
  apply map_congr_left
  rintro ⟨v, edges⟩ hrow
  simp [neighbors, mem_toList.mp hrow]

/-- The search has enough fuel. -/
theorem mem_reachableInstances :
  w ∈ reachableInstances adjacency v ↔ Search.Reachable (neighbors adjacency) v w
  := by
  apply @Search.mem_reach _ _ _ adjacency.keys
  · intro a ha
    rw [ExtTreeMap.mem_keys] at ha
    simp [neighbors, ha]
  · simp [Search.cost, Search.openDegree, sum_length_neighbors]

/-! ### One edge -/

/-- What a walk has found so far. `Done v e` says that the edge `e` at `v` was visited. -/
structure WalkInvariant (adjacency : Adjacency) (root : String) (Done : String → Edge → Prop)
    (walk : Walk) : Prop where
  origin : walk.coordinatesCm[root]? = some 0
  owners : ∀ (c : Coordinate) (v : String),
    walk.coordinateOwners[c]? = some v ↔ walk.coordinatesCm[v]? = some c
  done : ∀ v e c, Done v e → walk.coordinatesCm[v]? = some c →
    walk.coordinatesCm[e.neighbor]? = some (c + adjacentOffset e.direction)
  done_mem : ∀ v e, Done v e → v ∈ walk.coordinatesCm ∧ e ∈ edgesOf adjacency v
  connectionIds : ∀ id, id ∈ walk.connectionIds ↔ ∃ v e, Done v e ∧ e.connectionId = id
  reachable : ∀ v ∈ walk.coordinatesCm, Search.Reachable (neighbors adjacency) root v
  queue_nodup : walk.queue.Nodup
  queue_mem : ∀ v ∈ walk.queue, v ∈ walk.coordinatesCm

theorem WalkInvariant.congr {Done' : String → Edge → Prop}
    (h : WalkInvariant adjacency root Done walk) (hsame : ∀ v e, Done' v e ↔ Done v e) :
  WalkInvariant adjacency root Done' walk
  := by
  obtain rfl : Done' = Done := by
    funext v e
    apply propext (hsame v e)
  apply h

theorem walkInvariant_startWalk (adjacency : Adjacency) (root : String) :
  WalkInvariant adjacency root (fun _ _ => False) (startWalk root)
  where
  origin := by simp [startWalk]
  owners := by
    intro c v
    simp only [startWalk, ExtTreeMap.getElem?_insert]
    grind
  done := by simp
  done_mem := by simp
  connectionIds := by simp [startWalk]
  reachable := by
    intro v hv
    obtain rfl : root = v := by simpa [startWalk] using hv
    apply Relation.ReflTransGen.refl
  queue_nodup := by simp [startWalk]
  queue_mem := by simp [startWalk]

/-- A visit of an edge finds its neighbor at the right place, or puts it there. -/
theorem visitEdge_cases (hvisit : visitEdge current walk edge = .ok walk') :
  (walk.coordinatesCm[edge.neighbor]? = some (current + adjacentOffset edge.direction) ∧
      walk' = { walk with connectionIds := walk.connectionIds.insert edge.connectionId }) ∨
    (walk.coordinatesCm[edge.neighbor]? = none ∧
      (∀ owner, walk.coordinateOwners[current + adjacentOffset edge.direction]? = some owner →
        owner = edge.neighbor) ∧
      walk' = {
        coordinatesCm := walk.coordinatesCm.insert edge.neighbor
          (current + adjacentOffset edge.direction)
        coordinateOwners := walk.coordinateOwners.insert
          (current + adjacentOffset edge.direction) edge.neighbor
        connectionIds := walk.connectionIds.insert edge.connectionId
        queue := walk.queue ++ [edge.neighbor] })
  := by
  unfold visitEdge at hvisit
  simp only [directionOffsetCm_eq, bind, Except.bind] at hvisit
  generalize walk.coordinatesCm[edge.neighbor]? = found at hvisit
  cases found with
  | some existing =>
    left
    obtain ⟨hsame, hwalk⟩ := bailIf_bind_eq_ok.mp hvisit
    rw [not_not.mp hsame]
    exact ⟨rfl, (pure_eq_ok.mp hwalk).symm⟩
  | none =>
    right
    obtain ⟨hfree, hwalk⟩ := bailIf_bind_eq_ok.mp hvisit
    refine ⟨rfl, ?_, (pure_eq_ok.mp hwalk).symm⟩
    intro owner howner
    simpa [howner] using hfree

theorem WalkInvariant.visitEdge (h : WalkInvariant adjacency root Done walk)
    (hx : walk.coordinatesCm[x]? = some current) (hedge : edge ∈ edgesOf adjacency x)
    (hvisit : visitEdge current walk edge = .ok walk') :
  WalkInvariant adjacency root (fun v e => Done v e ∨ v = x ∧ e = edge) walk' ∧
    walk'.coordinatesCm[x]? = some current
  := by
  have howners := h.owners
  have hdone := h.done
  have hids := h.connectionIds
  have hxmem : x ∈ walk.coordinatesCm := mem_iff_exists.mpr ⟨current, hx⟩
  rcases visitEdge_cases hvisit with ⟨hsame, rfl⟩ | ⟨hnew, hfree, rfl⟩
  · refine ⟨?_, hx⟩
    exact {
      origin := h.origin
      owners := h.owners
      done := by grind
      done_mem := by
        have := h.done_mem
        grind
      connectionIds := by
        intro id
        simp only [ExtTreeSet.mem_insert, LawfulEqCmp.compare_eq_iff_eq, hids]
        grind
      reachable := h.reachable
      queue_nodup := h.queue_nodup
      queue_mem := h.queue_mem }
  · -- Nothing was at the coordinate: the owner would have been the neighbor itself.
    have hnone : walk.coordinateOwners[current + adjacentOffset edge.direction]? = none := by
      cases howner : walk.coordinateOwners[current + adjacentOffset edge.direction]? with
      | none => rfl
      | some owner =>
        have hcoordinate := (howners _ owner).mp howner
        rw [hfree owner howner, hnew] at hcoordinate
        cases hcoordinate
    have hne : x ≠ edge.neighbor := by
      rintro rfl
      rw [hx] at hnew
      cases hnew
    refine ⟨?_, by grind⟩
    exact {
      origin := by
        have := h.origin
        grind
      owners := by
        intro c v
        simp only [ExtTreeMap.getElem?_insert]
        grind
      done := by
        have := h.done_mem
        intro v e c hdone' hv
        simp only [ExtTreeMap.getElem?_insert] at hv ⊢
        grind
      done_mem := by
        have := h.done_mem
        grind
      connectionIds := by
        intro id
        simp only [ExtTreeSet.mem_insert, LawfulEqCmp.compare_eq_iff_eq, hids]
        grind
      reachable := by
        intro v hv
        by_cases hvn : v = edge.neighbor
        · subst hvn
          apply (h.reachable x hxmem).tail
          apply mem_neighbors.mpr ⟨edge, hedge, rfl⟩
        · apply h.reachable v
          simpa [Ne.symm hvn] using hv
      queue_nodup := by
        rw [nodup_append]
        refine ⟨h.queue_nodup, by simp, ?_⟩
        rintro a ha b hb rfl
        obtain ⟨c, hc⟩ := mem_iff_exists.mp (h.queue_mem a ha)
        rw [mem_singleton.mp hb, hnew] at hc
        cases hc
      queue_mem := by
        have := h.queue_mem
        grind }

/-! ### The whole walk -/

/-- Between two instances: `popped` instances have left the queue, with all their edges
visited. -/
structure WalkSettled (adjacency : Adjacency) (root : String) (popped : ℕ) (walk : Walk) :
    Prop where
  invariant : WalkInvariant adjacency root
    (fun v e => v ∈ walk.coordinatesCm ∧ v ∉ walk.queue ∧ e ∈ edgesOf adjacency v) walk
  size : walk.coordinatesCm.size = walk.queue.length + popped

theorem WalkSettled.pop {queue : List String} (h : WalkSettled adjacency root popped walk)
    (hqueue : walk.queue = x :: queue) (hx : walk.coordinatesCm[x]? = some current)
    (hvisit : (sortedEdges adjacency x).foldlM (visitEdge current) { walk with queue }
      = .ok walk') :
  WalkSettled adjacency root (popped + 1) walk'
  := by
  have hnodup := h.invariant.queue_nodup
  rw [hqueue, nodup_cons] at hnodup
  -- The instances that have left the queue are those from before and `x`.
  have hloop : WalkInvariant adjacency root (fun v e => (v ∈ walk.coordinatesCm ∧
        v ∉ walk.queue ∧ e ∈ edgesOf adjacency v) ∨ v = x ∧ e ∈ sortedEdges adjacency x) walk' ∧
      walk'.coordinatesCm[x]? = some current ∧
      walk'.coordinatesCm.size = walk'.queue.length + (popped + 1) ∧
      ∀ v, v ∈ walk'.coordinatesCm ∧ v ∉ walk'.queue ↔
        (v ∈ walk.coordinatesCm ∧ v ∉ walk.queue) ∨ v = x := by
    apply foldlM_invariant (P := fun (done : List Edge) (t : Walk) =>
      WalkInvariant adjacency root (fun v e => (v ∈ walk.coordinatesCm ∧ v ∉ walk.queue ∧
        e ∈ edgesOf adjacency v) ∨ v = x ∧ e ∈ done) t ∧
      t.coordinatesCm[x]? = some current ∧
      t.coordinatesCm.size = t.queue.length + (popped + 1) ∧
      ∀ v, v ∈ t.coordinatesCm ∧ v ∉ t.queue ↔
        (v ∈ walk.coordinatesCm ∧ v ∉ walk.queue) ∨ v = x) hvisit
    · refine ⟨?_, hx, ?_, ?_⟩
      · have hqueue_mem := h.invariant.queue_mem
        have hrest : WalkInvariant adjacency root (fun v e => v ∈ walk.coordinatesCm ∧
            v ∉ walk.queue ∧ e ∈ edgesOf adjacency v) { walk with queue } :=
          { h.invariant with
            queue_nodup := hnodup.2
            queue_mem := fun v hv => hqueue_mem v (by rw [hqueue]; simp [hv]) }
        apply hrest.congr
        simp
      · have hsize := h.size
        simp only [hqueue, length_cons] at hsize ⊢
        omega
      · intro v
        grind
    · rintro done edge t t' hedge ⟨hinvariant, hcurrent, hsize, hsettled⟩ hround
      obtain ⟨hinvariant', hcurrent'⟩ :=
        hinvariant.visitEdge hcurrent (mem_sortedEdges.mp hedge) hround
      refine ⟨hinvariant'.congr (by grind), hcurrent', ?_, ?_⟩
      · rcases visitEdge_cases hround with ⟨-, rfl⟩ | ⟨hnew, -, rfl⟩
        · apply hsize
        · have hnot : ¬ edge.neighbor ∈ t.coordinatesCm := by simpa using hnew
          simp only [size_insert_of_not_mem hnot, length_append, length_singleton]
          omega
      · rcases visitEdge_cases hround with ⟨-, rfl⟩ | ⟨hnew, -, rfl⟩
        · apply hsettled
        · intro v
          grind
  obtain ⟨hinvariant, -, hsize, hsettled⟩ := hloop
  refine ⟨hinvariant.congr ?_, hsize⟩
  intro v e
  rw [← and_assoc, hsettled v, mem_sortedEdges]
  grind

theorem WalkSettled.start (adjacency : Adjacency) (root : String) :
  WalkSettled adjacency root 0 (startWalk root)
  where
  invariant := by
    apply (walkInvariant_startWalk adjacency root).congr
    intro v e
    simp only [startWalk, ExtTreeMap.mem_insert, mem_singleton]
    grind
  size := by
    simp [startWalk, ExtTreeMap.size_insert]

/-- The coordinates are those of the instances that can be reached, so there are not more of
them than instances. -/
theorem WalkInvariant.size_le (h : WalkInvariant adjacency root Done walk)
    (hroot : root ∈ adjacency) (hclosed : ∀ v e, e ∈ edgesOf adjacency v → e.neighbor ∈ adjacency) :
  walk.coordinatesCm.size ≤ adjacency.size
  := by
  apply size_le_of_subset
  intro v hv
  have hreach := h.reachable v hv
  cases hreach with
  | refl => apply hroot
  | tail _ hstep =>
    obtain ⟨e, he, rfl⟩ := mem_neighbors.mp hstep
    apply hclosed _ e he

/-- A walk that succeeds ends with an empty queue. -/
theorem walkLoop_settled (hroot : root ∈ adjacency)
    (hclosed : ∀ v e, e ∈ edgesOf adjacency v → e.neighbor ∈ adjacency)
    (h : WalkSettled adjacency root popped walk) (hrounds : adjacency.size ≤ popped + rounds)
    (hwalk : walkLoop adjacency rounds walk = .ok walk') :
  (∃ popped', WalkSettled adjacency root popped' walk') ∧ walk'.queue = []
  := by
  induction rounds generalizing walk popped with
  | zero =>
    cases hwalk
    have hle := h.invariant.size_le hroot hclosed
    rw [h.size] at hle
    exact ⟨⟨popped, h⟩, length_eq_zero_iff.mp (by omega)⟩
  | succ rounds ih =>
    unfold walkLoop at hwalk
    split at hwalk
    case h_1 hqueue =>
      cases hwalk
      exact ⟨⟨popped, h⟩, hqueue⟩
    case h_2 x queue hqueue =>
      obtain ⟨current, hcurrent, hwalk⟩ := bind_eq_ok.mp hwalk
      obtain ⟨next, hvisit, hwalk⟩ := bind_eq_ok.mp hwalk
      apply ih (h.pop hqueue (expect_eq_ok.mp hcurrent) hvisit) (by omega) hwalk

/-- What a complete walk over the component of `root` has found. -/
structure Walked (adjacency : Adjacency) (root : String) (walk : Walk) : Prop where
  origin : walk.coordinatesCm[root]? = some 0
  domain : ∀ v, v ∈ walk.coordinatesCm ↔ Search.Reachable (neighbors adjacency) root v
  distinct : ∀ (v w : String) (c : Coordinate), walk.coordinatesCm[v]? = some c →
    walk.coordinatesCm[w]? = some c → v = w
  adjacent : ∀ (v : String) (e : Edge) (c : Coordinate), e ∈ edgesOf adjacency v →
    walk.coordinatesCm[v]? = some c →
    walk.coordinatesCm[e.neighbor]? = some (c + adjacentOffset e.direction)
  connectionIds : ∀ id, id ∈ walk.connectionIds ↔
    ∃ v e, v ∈ walk.coordinatesCm ∧ e ∈ edgesOf adjacency v ∧ e.connectionId = id

theorem walkLoop_walked (hroot : root ∈ adjacency)
    (hclosed : ∀ v e, e ∈ edgesOf adjacency v → e.neighbor ∈ adjacency)
    (hwalk : walkLoop adjacency adjacency.size (startWalk root) = .ok walk) :
  Walked adjacency root walk
  := by
  obtain ⟨⟨popped, hsettled⟩, hqueue⟩ :=
    walkLoop_settled hroot hclosed (.start adjacency root) (by omega) hwalk
  obtain ⟨horigin, howners, hdone, -, hids, hreachable, -, -⟩ := hsettled.invariant
  simp only [hqueue, not_mem_nil, not_false_eq_true, true_and] at hdone hids
  have hadjacent : ∀ v e c, e ∈ edgesOf adjacency v → walk.coordinatesCm[v]? = some c →
      walk.coordinatesCm[e.neighbor]? = some (c + adjacentOffset e.direction) := by
    intro v e c he hv
    apply hdone v e c ⟨mem_iff_exists.mpr ⟨c, hv⟩, he⟩ hv
  exact {
    origin := horigin
    domain := by
      intro v
      constructor
      · apply hreachable v
      · intro hreach
        induction hreach with
        | refl => apply mem_iff_exists.mpr ⟨0, horigin⟩
        | tail _ hstep ih =>
          obtain ⟨c, hc⟩ := mem_iff_exists.mp ih
          obtain ⟨e, he, rfl⟩ := mem_neighbors.mp hstep
          apply mem_iff_exists.mpr ⟨_, hadjacent _ e c he hc⟩
    distinct := by
      intro v w c hv hw
      rw [← howners] at hv hw
      apply Option.some.inj (hv.symm.trans hw)
    adjacent := hadjacent
    connectionIds := by
      intro id
      rw [hids]
      simp only [and_assoc] }

/-! ### Failures of a walk -/

/-- A function on the instances whose difference along every edge is the offset of its
direction. -/
def Fits (adjacency : Adjacency) (f : String → Coordinate) : Prop :=
  ∀ v e, e ∈ edgesOf adjacency v → f e.neighbor = f v + adjacentOffset e.direction

/-- The only failure of a walk over a network with a potential. -/
def collision : Failure := .bail "Dome Connection topology has a coordinate collision"

/-- The coordinates are differences of the potential. -/
def Agrees (f : String → Coordinate) (root : String) (walk : Walk) : Prop :=
  ∀ (v : String) (c : Coordinate), walk.coordinatesCm[v]? = some c → c = f v - f root

theorem Agrees.visitEdge (h : Agrees f root walk) (hx : walk.coordinatesCm[x]? = some current)
    (hedge : f edge.neighbor = f x + adjacentOffset edge.direction)
    (hvisit : visitEdge current walk edge = .ok walk') :
  Agrees f root walk' ∧ walk'.coordinatesCm[x]? = some current
  := by
  have hcurrent := h x current hx
  have hplace : current + adjacentOffset edge.direction = f edge.neighbor - f root := by
    rw [hcurrent, hedge]
    abel
  rcases visitEdge_cases hvisit with ⟨-, rfl⟩ | ⟨hnew, -, rfl⟩
  · exact ⟨h, hx⟩
  · constructor
    · intro v c hv
      have := h v c
      simp only [ExtTreeMap.getElem?_insert] at hv
      grind
    · grind

theorem Agrees.visitEdges {edges : List Edge} (h : Agrees f root walk)
    (hx : walk.coordinatesCm[x]? = some current)
    (hedges : ∀ e ∈ edges, f e.neighbor = f x + adjacentOffset e.direction)
    (hvisit : edges.foldlM (DomeConnections.visitEdge current) walk = .ok walk') :
  Agrees f root walk' ∧ walk'.coordinatesCm[x]? = some current
  := by
  apply foldlM_invariant (P := fun _ (t : Walk) =>
    Agrees f root t ∧ t.coordinatesCm[x]? = some current) hvisit
  · exact ⟨h, hx⟩
  · rintro _ e t t' he ⟨ht, htx⟩ hround
    apply ht.visitEdge htx (hedges e he) hround

theorem visitEdge_eq_error (h : Agrees f root walk) (hx : walk.coordinatesCm[x]? = some current)
    (hedge : f edge.neighbor = f x + adjacentOffset edge.direction)
    (hvisit : visitEdge current walk edge = .error failure) :
  failure = collision
  := by
  have hcurrent := h x current hx
  unfold DomeConnections.visitEdge at hvisit
  simp only [directionOffsetCm_eq, bind, Except.bind] at hvisit
  split at hvisit
  case h_1 existing hneighbor =>
    rcases bind_eq_error.mp hvisit with hbail | ⟨_, -, hpure⟩
    · -- The neighbor is where the potential puts it, so the coordinates are consistent.
      obtain ⟨hne, -⟩ := bailIf_eq_error.mp hbail
      apply absurd _ hne
      rw [h _ existing hneighbor, hcurrent, hedge]
      abel
    · cases hpure
  case h_2 =>
    rcases bind_eq_error.mp hvisit with hbail | ⟨_, -, hpure⟩
    · apply (bailIf_eq_error.mp hbail).2
    · cases hpure

theorem walkLoop_eq_error (hfits : Fits adjacency f) (h : WalkSettled adjacency root popped walk)
    (hagrees : Agrees f root walk) (hwalk : walkLoop adjacency rounds walk = .error failure) :
  failure = collision
  := by
  induction rounds generalizing walk popped with
  | zero => cases hwalk
  | succ rounds ih =>
    unfold walkLoop at hwalk
    split at hwalk
    case h_1 =>
      cases hwalk
    case h_2 x queue hqueue =>
      have hfits' : ∀ e ∈ sortedEdges adjacency x,
          f e.neighbor = f x + adjacentOffset e.direction :=
        fun e he => hfits x e (mem_sortedEdges.mp he)
      rcases bind_eq_error.mp hwalk with hexpect | ⟨current, hcurrent, hwalk⟩
      · obtain ⟨hnone, -⟩ := expect_eq_error.mp hexpect
        obtain ⟨c, hc⟩ := mem_iff_exists.mp
          (h.invariant.queue_mem x (by rw [hqueue]; simp))
        rw [hnone] at hc
        cases hc
      have hx := expect_eq_ok.mp hcurrent
      have hrest : Agrees f root { walk with queue } := hagrees
      rcases bind_eq_error.mp hwalk with hvisit | ⟨next, hvisit, hwalk⟩
      · obtain ⟨done, edge, rest, t, hsplit, hdone, hfail⟩ := foldlM_eq_error hvisit
        rw [hsplit] at hfits'
        obtain ⟨ht, htx⟩ := hrest.visitEdges hx
          (fun e he => hfits' e (mem_append_left _ he)) hdone
        apply visitEdge_eq_error ht htx (hfits' edge (by simp)) hfail
      · obtain ⟨hnext, -⟩ := hrest.visitEdges hx hfits' hvisit
        apply ih (h.pop hqueue hx hvisit) hnext hwalk

/-! ### Components -/

/-- Every edge leads to an instance of the network and can be walked back. -/
structure WellFormed (adjacency : Adjacency) : Prop where
  closed : ∀ v e, e ∈ edgesOf adjacency v → e.neighbor ∈ adjacency
  symm : ∀ v w, w ∈ neighbors adjacency v → v ∈ neighbors adjacency w

theorem WellFormed.reachable_symm (h : WellFormed adjacency)
    (hreach : Search.Reachable (neighbors adjacency) v w) :
  Search.Reachable (neighbors adjacency) w v
  := by
  induction hreach with
  | refl => apply Relation.ReflTransGen.refl
  | tail _ hstep ih => apply ih.head (h.symm _ _ hstep)

theorem WellFormed.mem_of_reachable (h : WellFormed adjacency) (hv : v ∈ adjacency)
    (hreach : Search.Reachable (neighbors adjacency) v w) :
  w ∈ adjacency
  := by
  cases hreach with
  | refl => apply hv
  | tail _ hstep =>
    obtain ⟨e, he, rfl⟩ := mem_neighbors.mp hstep
    apply h.closed _ e he

/-- A component: its root is its least instance, its instances are those that can be reached
from the root, and a complete walk from the root found its coordinates and connections. -/
structure ComponentOf (adjacency : Adjacency) (component : DomeComponentTopology) : Prop where
  root_mem : component.rootInstanceId ∈ adjacency
  mem_instanceIds : ∀ v, v ∈ component.instanceIds ↔
    Search.Reachable (neighbors adjacency) component.rootInstanceId v
  root_le : ∀ v ∈ component.instanceIds, component.rootInstanceId ≤ v
  nodup_instanceIds : component.instanceIds.Nodup
  walked : ∃ walk, Walked adjacency component.rootInstanceId walk ∧
    component.coordinatesCm = walk.coordinatesCm ∧
    component.connectionIds = walk.connectionIds.toList

theorem deriveComponent_spec (hwell : WellFormed adjacency) (hv : v ∈ adjacency)
    {component : DomeComponentTopology}
    (hderive : deriveComponent adjacency (reachableInstances adjacency v) = .ok component) :
  ComponentOf adjacency component ∧
    component.instanceIds = (reachableInstances adjacency v).toList
  := by
  obtain ⟨root, hroot, hderive⟩ := bind_eq_ok.mp hderive
  obtain ⟨walk, hwalk, hderive⟩ := bind_eq_ok.mp hderive
  obtain rfl := pure_eq_ok.mp hderive
  obtain ⟨hmem, hleast⟩ := BTreeSet.first_eq_some.mp (context_eq_ok.mp hroot)
  rw [mem_reachableInstances] at hmem
  have hroot_mem := hwell.mem_of_reachable hv hmem
  refine ⟨?_, rfl⟩
  exact {
    root_mem := hroot_mem
    mem_instanceIds := by
      intro w
      rw [ExtTreeSet.mem_toList, mem_reachableInstances]
      constructor
      · intro hw
        apply (hwell.reachable_symm hmem).trans hw
      · intro hw
        apply hmem.trans hw
    root_le := by
      intro w hw
      apply hleast w (ExtTreeSet.mem_toList.mp hw)
    nodup_instanceIds := BTreeSet.nodup_toList _
    walked := ⟨walk, walkLoop_walked hroot_mem hwell.closed hwalk, rfl, rfl⟩ }

/-- The only failure is a collision. -/
theorem deriveComponent_eq_error (hfits : Fits adjacency f)
    (hderive : deriveComponent adjacency (reachableInstances adjacency v) = .error failure) :
  failure = collision
  := by
  rcases bind_eq_error.mp hderive with hroot | ⟨root, -, hderive⟩
  · obtain ⟨hnone, -⟩ := context_eq_error.mp hroot
    have hv : v ∈ reachableInstances adjacency v :=
      mem_reachableInstances.mpr Relation.ReflTransGen.refl
    rw [BTreeSet.first_eq_none.mp hnone] at hv
    simp at hv
  rcases bind_eq_error.mp hderive with hwalk | ⟨walk, -, hpure⟩
  · apply walkLoop_eq_error hfits (.start adjacency root) _ hwalk
    intro w c hw
    obtain ⟨rfl, rfl⟩ : root = w ∧ 0 = c := by
      simp only [startWalk, ExtTreeMap.getElem?_insert] at hw
      grind
    simp
  · cases hpure

/-- Two components with no instance in common. -/
def Apart (left right : DomeComponentTopology) : Prop :=
  ∀ v ∈ left.instanceIds, v ∉ right.instanceIds

theorem componentsLoop_spec (hwell : WellFormed adjacency) {remaining : BTreeSet String}
    {components : List DomeComponentTopology} (hrounds : remaining.size ≤ rounds)
    (hsub : ∀ v ∈ remaining, v ∈ adjacency)
    (hclosed : ∀ v ∈ remaining, ∀ w, Search.Reachable (neighbors adjacency) v w → w ∈ remaining)
    (hloop : componentsLoop adjacency rounds remaining = .ok components) :
  (∀ component ∈ components, ComponentOf adjacency component) ∧
    components.Pairwise Apart ∧
    ∀ v, v ∈ remaining ↔ ∃ component ∈ components, v ∈ component.instanceIds
  := by
  induction rounds generalizing remaining components with
  | zero =>
    cases hloop
    have hempty : remaining = ∅ := ExtTreeSet.eq_empty_iff_size_eq_zero.mpr (by omega)
    simp [hempty]
  | succ rounds ih =>
    unfold componentsLoop at hloop
    split at hloop
    case h_1 hfirst =>
      cases hloop
      simp [BTreeSet.first_eq_none.mp hfirst]
    case h_2 root hfirst =>
      obtain ⟨component, hderive, hloop⟩ := bind_eq_ok.mp hloop
      obtain ⟨rest, hrest, hloop⟩ := bind_eq_ok.mp hloop
      obtain rfl := pure_eq_ok.mp hloop
      have hroot := (BTreeSet.first_eq_some.mp hfirst).1
      obtain ⟨hcomponent, hids⟩ := deriveComponent_spec hwell (hsub root hroot) hderive
      -- What is left: everything that is not connected with the root.
      have hleft : ∀ v, v ∈ (reachableInstances adjacency root).toList.foldl
          (fun remaining id => remaining.erase id) remaining ↔
          v ∈ remaining ∧ ¬ Search.Reachable (neighbors adjacency) root v := by
        intro v
        rw [BTreeSet.mem_foldl_erase, ExtTreeSet.mem_toList, mem_reachableInstances]
      generalize (reachableInstances adjacency root).toList.foldl
        (fun remaining id => remaining.erase id) remaining = left at hleft hrest
      have hsize : left.size ≤ rounds := by
        have hlt : left.size ≤ (remaining.erase root).size := by
          apply BTreeSet.size_le_of_subset
          intro v hv
          obtain ⟨hv, hnot⟩ := (hleft v).mp hv
          have hne : root ≠ v := by
            rintro rfl
            apply hnot Relation.ReflTransGen.refl
          simp [hv, hne]
        rw [ExtTreeSet.size_erase, if_pos (ExtTreeSet.mem_iff_contains.mp hroot)] at hlt
        omega
      have hclosed' : ∀ v ∈ left, ∀ w, Search.Reachable (neighbors adjacency) v w → w ∈ left := by
        intro v hv w hreach
        obtain ⟨hv, hnot⟩ := (hleft v).mp hv
        refine (hleft w).mpr ⟨hclosed v hv w hreach, ?_⟩
        intro hw
        apply hnot (hw.trans (hwell.reachable_symm hreach))
      obtain ⟨hall, hapart, hcover⟩ :=
        ih hsize (fun v hv => hsub v ((hleft v).mp hv).1) hclosed' hrest
      have hmem : ∀ v, v ∈ component.instanceIds ↔
          Search.Reachable (neighbors adjacency) root v := by
        intro v
        rw [hids, ExtTreeSet.mem_toList, mem_reachableInstances]
      refine ⟨?_, ?_, ?_⟩
      · intro c hc
        rcases mem_cons.mp hc with rfl | hc
        · apply hcomponent
        · apply hall c hc
      · rw [pairwise_cons]
        refine ⟨?_, hapart⟩
        intro c hc v hv hvc
        have hvleft := (hcover v).mpr ⟨c, hc, hvc⟩
        apply ((hleft v).mp hvleft).2 ((hmem v).mp hv)
      · intro v
        simp only [mem_cons, exists_eq_or_imp, ← hcover, hleft, hmem]
        constructor
        · intro hv
          by_cases hreach : Search.Reachable (neighbors adjacency) root v
          · exact .inl hreach
          · exact .inr ⟨hv, hreach⟩
        · rintro (hreach | ⟨hv, -⟩)
          · apply hclosed root hroot v hreach
          · apply hv

theorem componentsLoop_eq_error (hfits : Fits adjacency f) {remaining : BTreeSet String}
    (hloop : componentsLoop adjacency rounds remaining = .error failure) :
  failure = collision
  := by
  induction rounds generalizing remaining with
  | zero => cases hloop
  | succ rounds ih =>
    unfold componentsLoop at hloop
    split at hloop
    case h_1 =>
      cases hloop
    case h_2 =>
      rcases bind_eq_error.mp hloop with hderive | ⟨component, -, hloop⟩
      · apply deriveComponent_eq_error hfits hderive
      rcases bind_eq_error.mp hloop with hrest | ⟨rest, -, hpure⟩
      · apply ih hrest
      · cases hpure

/-- The components of a well-formed network partition its instances. -/
theorem deriveComponents_spec (hwell : WellFormed adjacency)
    {components : List DomeComponentTopology}
    (hderive : deriveComponents adjacency = .ok components) :
  (∀ component ∈ components, ComponentOf adjacency component) ∧
    components.Pairwise Apart ∧
    ∀ v, v ∈ adjacency ↔ ∃ component ∈ components, v ∈ component.instanceIds
  := by
  obtain ⟨unsorted, hloop, hderive⟩ := bind_eq_ok.mp hderive
  obtain rfl := pure_eq_ok.mp hderive
  have hkeys : ∀ v, v ∈ BTreeSet.setOf adjacency.keys ↔ v ∈ adjacency := by simp
  have hsize : (BTreeSet.setOf adjacency.keys).size ≤ adjacency.size := by
    rw [BTreeSet.size_eq_length (nodup_keys adjacency) (by simp),
      ExtTreeMap.length_keys]
  obtain ⟨hall, hapart, hcover⟩ := componentsLoop_spec hwell hsize (by simp)
    (fun v hv w hreach => (hkeys w).mpr (hwell.mem_of_reachable ((hkeys v).mp hv) hreach)) hloop
  have hperm := perm_insertionSort
    (fun left right : DomeComponentTopology => left.rootInstanceId ≤ right.rootInstanceId) unsorted
  refine ⟨?_, ?_, ?_⟩
  · intro component hcomponent
    apply hall component (hperm.mem_iff.mp hcomponent)
  · apply (hperm.pairwise_iff _).mpr hapart
    intro left right hleft v hv hv'
    apply hleft v hv' hv
  · intro v
    rw [← hkeys, hcover]
    simp only [hperm.mem_iff]

theorem deriveComponents_eq_error (hfits : Fits adjacency f)
    (hderive : deriveComponents adjacency = .error failure) :
  failure = collision
  := by
  rcases bind_eq_error.mp hderive with hloop | ⟨components, -, hpure⟩
  · apply componentsLoop_eq_error hfits hloop
  · cases hpure

end Kukuri.DomeConnections
