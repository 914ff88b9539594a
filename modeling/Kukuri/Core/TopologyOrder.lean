import Kukuri.Core.Topology

/-!
# The order of the connections

`orderedTopologyConnections` is a permutation of the active connections. When different
records have different digests, it does not depend on the order of the input: every round
emits the least ready record, or the least record when none is ready, and both are
determined by the set of the records that remain.
-/

namespace Kukuri.DomeConnections

open List BTreeSet

variable {recordDigest : DomeConnectionRecord → String}

/-- The key that connections are compared by. -/
def orderKey (recordDigest : DomeConnectionRecord → String) (connection : DomeConnectionRecord) :
    ℕ ×ₗ String ×ₗ String :=
  toLex (connection.agreement.activationGeneration,
    toLex (recordDigest connection, connection.agreement.connectionId))

theorem topologyConnectionOrder_eq (left right : DomeConnectionRecord) :
  topologyConnectionOrder recordDigest left right
    = compare (orderKey recordDigest left) (orderKey recordDigest right)
  := Ordering.then_assoc _ _ _

theorem orderKey_injOn {records : Set DomeConnectionRecord} (hdigest : records.InjOn recordDigest) :
  records.InjOn (orderKey recordDigest)
  := by
  intro left hleft right hright h
  obtain ⟨-, h⟩ := Prod.mk.inj (toLex_inj.mp h)
  obtain ⟨h, -⟩ := Prod.mk.inj (toLex_inj.mp h)
  apply hdigest hleft hright h

/-! ### One round -/

theorem mem_zipIdx_getElem? {l : List DomeConnectionRecord} {connection : DomeConnectionRecord}
    {i : ℕ} (h : (connection, i) ∈ l.zipIdx) :
  l[i]? = some connection
  := by
  rw [mem_zipIdx_iff_getElem?] at h
  apply h

theorem exists_mem_zipIdx {l : List DomeConnectionRecord} {connection : DomeConnectionRecord}
    (h : connection ∈ l) :
  ∃ i, (connection, i) ∈ l.zipIdx
  := by
  obtain ⟨i, hi, rfl⟩ := mem_iff_getElem.mp h
  use i
  rw [mem_zipIdx_iff_getElem?]
  simp [hi]

/-- The connection that a round emits: a least ready one, or a least one when none is
ready. -/
theorem nextIndex_spec (recordDigest : DomeConnectionRecord → String)
    (candidateIds emitted : BTreeSet String) {remaining : List DomeConnectionRecord}
    (hremaining : remaining ≠ []) :
  ∃ index connection, nextIndex recordDigest candidateIds emitted remaining = some index ∧
    remaining[index]? = some connection ∧
    ((isReady candidateIds emitted connection ∧ ∀ other ∈ remaining,
        isReady candidateIds emitted other →
          orderKey recordDigest connection ≤ orderKey recordDigest other) ∨
      (∀ other ∈ remaining, ¬ isReady candidateIds emitted other) ∧
        ∀ other ∈ remaining, orderKey recordDigest connection ≤ orderKey recordDigest other)
  := by
  have horder : ∀ left right : DomeConnectionRecord × ℕ,
      topologyConnectionOrder recordDigest left.1 right.1
        = compare (orderKey recordDigest left.1) (orderKey recordDigest right.1) :=
    fun left right => topologyConnectionOrder_eq left.1 right.1
  unfold nextIndex
  cases hready : minBy (fun left right => topologyConnectionOrder recordDigest left.1 right.1)
      (remaining.zipIdx.filter fun connection => isReady candidateIds emitted connection.1) with
  | some least =>
    obtain ⟨hmem, hleast⟩ := minBy_spec horder hready
    obtain ⟨hmem, hleast_ready⟩ := mem_filter.mp hmem
    refine ⟨least.2, least.1, by simp [hready], mem_zipIdx_getElem? hmem, .inl ⟨hleast_ready, ?_⟩⟩
    intro other hother hother_ready
    obtain ⟨i, hi⟩ := exists_mem_zipIdx hother
    apply hleast (other, i) (mem_filter.mpr ⟨hi, hother_ready⟩)
  | none =>
    have hnone := filter_eq_nil_iff.mp (minBy_eq_none.mp hready)
    cases hleast : minBy (fun left right => topologyConnectionOrder recordDigest left.1 right.1)
        remaining.zipIdx with
    | none =>
      have hempty := minBy_eq_none.mp hleast
      simp at hempty
      exact absurd hempty hremaining
    | some least =>
      obtain ⟨hmem, hle⟩ := minBy_spec horder hleast
      refine ⟨least.2, least.1, by simp [hready, hleast], mem_zipIdx_getElem? hmem, .inr ⟨?_, ?_⟩⟩
      · intro other hother
        obtain ⟨i, hi⟩ := exists_mem_zipIdx hother
        apply hnone (other, i) hi
      · intro other hother
        obtain ⟨i, hi⟩ := exists_mem_zipIdx hother
        apply hle (other, i) hi

/-! ### The whole loop -/

theorem orderLoop_perm {candidateIds emitted : BTreeSet String} {rounds : ℕ}
    {remaining : List DomeConnectionRecord} (hrounds : remaining.length = rounds) :
  (orderLoop recordDigest candidateIds rounds emitted remaining).Perm remaining
  := by
  induction rounds generalizing emitted remaining with
  | zero =>
    rw [length_eq_zero_iff.mp hrounds]
    rfl
  | succ rounds ih =>
    have hremaining : remaining ≠ [] := by
      rintro rfl
      simp at hrounds
    obtain ⟨index, connection, hindex, hconnection, -⟩ :=
      nextIndex_spec recordDigest candidateIds emitted hremaining
    have hperm := perm_cons_eraseIdx hconnection
    have hlength : (remaining.eraseIdx index).length = rounds := by
      have := hperm.length_eq
      rw [length_cons] at this
      omega
    simp only [orderLoop, hindex, hconnection]
    apply ((ih hlength).cons connection).trans hperm

/-- The loop emits the same connections in the same order, however the remaining ones are
arranged. -/
theorem orderLoop_congr {records : Set DomeConnectionRecord}
    (hdigest : records.InjOn recordDigest) {candidateIds emitted : BTreeSet String} {rounds : ℕ}
    {remaining remaining' : List DomeConnectionRecord} (hperm : remaining.Perm remaining')
    (hsub : ∀ connection ∈ remaining, connection ∈ records)
    (hrounds : remaining.length = rounds) :
  orderLoop recordDigest candidateIds rounds emitted remaining
    = orderLoop recordDigest candidateIds rounds emitted remaining'
  := by
  induction rounds generalizing emitted remaining remaining' with
  | zero => rfl
  | succ rounds ih =>
    have hremaining : remaining ≠ [] := by
      rintro rfl
      simp at hrounds
    have hremaining' : remaining' ≠ [] := by
      rintro rfl
      apply hremaining (perm_nil.mp hperm)
    obtain ⟨index, connection, hindex, hconnection, hleast⟩ :=
      nextIndex_spec recordDigest candidateIds emitted hremaining
    obtain ⟨index', connection', hindex', hconnection', hleast'⟩ :=
      nextIndex_spec recordDigest candidateIds emitted hremaining'
    have hmem := mem_of_getElem? hconnection
    have hmem' := mem_of_getElem? hconnection'
    -- Both are least in the same set, and only one record has the least key.
    obtain rfl : connection = connection' := by
      apply orderKey_injOn hdigest (hsub _ hmem) (hsub _ (hperm.mem_iff.mpr hmem'))
      rcases hleast with ⟨hready, hle⟩ | ⟨hnone, hle⟩
      · rcases hleast' with ⟨hready', hle'⟩ | ⟨hnone', -⟩
        · apply le_antisymm
          · apply hle connection' (hperm.mem_iff.mpr hmem') hready'
          · apply hle' connection (hperm.mem_iff.mp hmem) hready
        · exact absurd hready (hnone' connection (hperm.mem_iff.mp hmem))
      · rcases hleast' with ⟨hready', -⟩ | ⟨-, hle'⟩
        · exact absurd hready' (hnone connection' (hperm.mem_iff.mpr hmem'))
        · apply le_antisymm
          · apply hle connection' (hperm.mem_iff.mpr hmem')
          · apply hle' connection (hperm.mem_iff.mp hmem)
    have hrest : (remaining.eraseIdx index).Perm (remaining'.eraseIdx index') := by
      apply List.Perm.cons_inv (a := connection)
      apply (perm_cons_eraseIdx hconnection).trans
      apply hperm.trans (perm_cons_eraseIdx hconnection').symm
    have hlength : (remaining.eraseIdx index).length = rounds := by
      have := (perm_cons_eraseIdx hconnection).length_eq
      rw [length_cons] at this
      omega
    simp only [orderLoop, hindex, hconnection, hindex', hconnection']
    rw [ih hrest _ hlength]
    intro other hother
    apply hsub other (mem_of_mem_eraseIdx hother)

theorem orderedTopologyConnections_perm (recordDigest : DomeConnectionRecord → String)
    (connections : List DomeConnectionRecord) :
  (orderedTopologyConnections recordDigest connections).Perm (connections.filter isTopologyActive)
  := orderLoop_perm rfl

/-- The order does not depend on how the records arrive. -/
theorem orderedTopologyConnections_congr {connections connections' : List DomeConnectionRecord}
    (hdigest : Set.InjOn recordDigest {connection | connection ∈ connections})
    (hperm : connections.Perm connections') :
  orderedTopologyConnections recordDigest connections
    = orderedTopologyConnections recordDigest connections'
  := by
  have hactive := hperm.filter isTopologyActive
  have hids : setOf ((connections.filter isTopologyActive).map
      fun connection => connection.agreement.connectionId)
      = setOf ((connections'.filter isTopologyActive).map
        fun connection => connection.agreement.connectionId) := by
    apply Std.ExtTreeSet.ext_mem
    intro id
    rw [mem_setOf, mem_setOf]
    apply (hactive.map _).mem_iff
  unfold orderedTopologyConnections
  simp only
  rw [hids, orderLoop_congr hdigest hactive _ rfl, hactive.length_eq]
  intro connection hconnection
  apply mem_of_mem_filter hconnection

end Kukuri.DomeConnections
