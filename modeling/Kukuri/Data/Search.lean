import Kukuri.Data.BTree

/-!
# Breadth-first search

`reach` visits the vertices of a graph that is given by the list of the successors of every
vertex. The fuel bounds the number of vertices taken from the queue. `mem_reach` says that
with enough fuel the visited vertices are exactly the reachable ones.
-/

universe u

namespace Search

open List

variable {V : Type u} [LinearOrder V] (next : V → List V)

/-- Visit the vertices of the queue and everything behind them. -/
def reach : ℕ → List V → BTreeSet V → BTreeSet V
  | 0, _, visited => visited
  | _ + 1, [], visited => visited
  | fuel + 1, v :: queue, visited =>
    if v ∈ visited then reach fuel queue visited
    else
      let visited := visited.insert v
      reach fuel (queue ++ (next v).filter fun w => ¬ w ∈ visited) visited

/-- The number of edges that leave the vertices not visited yet. -/
def openDegree (vertices : List V) (visited : BTreeSet V) : ℕ :=
  ((vertices.filter fun v => ¬ v ∈ visited).map fun v => (next v).length).sum

/-- A vertex is reachable from another. -/
def Reachable : V → V → Prop :=
  Relation.ReflTransGen fun v w => w ∈ next v

variable {next}

/-! ### Fuel -/

/-- Visiting a vertex takes its edges from the open ones. -/
theorem openDegree_insert_le (next : V → List V) (vertices : List V) {visited : BTreeSet V} {v : V}
    (hv : v ∉ visited) :
  openDegree next vertices (visited.insert v) + (if v ∈ vertices then (next v).length else 0)
    ≤ openDegree next vertices visited
  := by
  induction vertices with
  | nil => simp [openDegree]
  | cons a vertices ih =>
    simp only [openDegree] at ih ⊢
    by_cases ha : a = v
    · subst ha
      simp only [mem_cons, true_or, if_true, Std.ExtTreeSet.mem_insert,
        Std.LawfulEqCmp.compare_eq_iff_eq, hv, filter_cons, decide_not, decide_true,
        Bool.not_true, Bool.false_eq_true, if_false, decide_false, Bool.not_false, map_cons,
        sum_cons] at ih ⊢
      split at ih <;> omega
    · by_cases hvisited : a ∈ visited <;> simp_all [Ne.symm ha]
      · omega

/-- A bound on the rounds that are left. -/
def cost (next : V → List V) (vertices : List V) (queue : List V) (visited : BTreeSet V) : ℕ :=
  queue.length + openDegree next vertices visited

section

variable {vertices : List V} (hvertices : ∀ v, v ∉ vertices → next v = [])
include hvertices

theorem cost_visit {visited : BTreeSet V} {v : V} (hv : v ∉ visited)
    (queue : List V) :
  cost next vertices (queue ++ (next v).filter fun w => ¬ w ∈ visited.insert v)
      (visited.insert v) < cost next vertices (v :: queue) visited
  := by
  have hopen := openDegree_insert_le next vertices hv
  have hfilter := length_filter_le (fun w => decide (¬ w ∈ visited.insert v)) (next v)
  have hdegree : (if v ∈ vertices then (next v).length else 0) = (next v).length := by
    split
    case isTrue => rfl
    case isFalse h => rw [hvertices v h]; rfl
  simp only [cost, length_append, length_cons]
  omega

/-! ### The visited vertices -/

/-- With enough fuel the search visits what is behind the queue, and nothing else is
visited. -/
theorem reach_spec {fuel : ℕ} {queue : List V} {visited : BTreeSet V}
    (hfuel : cost next vertices queue visited ≤ fuel)
    (hclosed : ∀ v ∈ visited, ∀ w ∈ next v, w ∈ visited ∨ w ∈ queue) :
  (∀ v, v ∈ visited ∨ v ∈ queue → v ∈ reach next fuel queue visited) ∧
    (∀ v ∈ reach next fuel queue visited, ∀ w ∈ next v, w ∈ reach next fuel queue visited) ∧
    (∀ w ∈ reach next fuel queue visited, w ∈ visited ∨ ∃ v ∈ queue, Reachable next v w)
  := by
  induction fuel generalizing queue visited with
  | zero =>
    obtain rfl : queue = [] := length_eq_zero_iff.mp (by unfold cost at hfuel; omega)
    simp only [not_mem_nil, or_false] at hclosed
    exact ⟨by simp [reach], hclosed, by simp [reach]⟩
  | succ fuel ih =>
    match queue with
    | [] =>
      simp only [not_mem_nil, or_false] at hclosed
      exact ⟨by simp [reach], hclosed, by simp [reach]⟩
    | v :: queue =>
      by_cases hv : v ∈ visited
      · -- A vertex that was visited in the meantime is skipped.
        have hfuel' : cost next vertices queue visited ≤ fuel := by
          simp only [cost, length_cons] at hfuel ⊢
          omega
        have hclosed' : ∀ a ∈ visited, ∀ w ∈ next a, w ∈ visited ∨ w ∈ queue := by
          intro a ha w hw
          grind
        obtain ⟨hsub, hnext, hback⟩ := ih hfuel' hclosed'
        simp only [reach, if_pos hv]
        refine ⟨?_, hnext, ?_⟩
        · intro a ha
          apply hsub
          grind
        · intro w hw
          rcases hback w hw with hw | ⟨a, ha, hreach⟩
          · exact .inl hw
          · exact .inr ⟨a, mem_cons_of_mem v ha, hreach⟩
      · have hfuel' := (cost_visit hvertices hv queue).trans_le hfuel
        have hclosed' : ∀ a ∈ visited.insert v, ∀ w ∈ next a, w ∈ visited.insert v ∨
            w ∈ queue ++ (next v).filter fun w => ¬ w ∈ visited.insert v := by
          intro a ha w hw
          grind
        obtain ⟨hsub, hnext, hback⟩ := ih (Nat.lt_succ_iff.mp hfuel') hclosed'
        simp only [reach, if_neg hv]
        refine ⟨?_, hnext, ?_⟩
        · intro a ha
          apply hsub
          grind
        · intro w hw
          rcases hback w hw with hw | ⟨a, ha, hreach⟩
          · by_cases hwv : w = v
            · exact .inr ⟨v, by simp, hwv ▸ Relation.ReflTransGen.refl⟩
            · left
              simpa [Ne.symm hwv] using hw
          · right
            rcases mem_append.mp ha with ha | ha
            · exact ⟨a, mem_cons_of_mem v ha, hreach⟩
            · exact ⟨v, by simp, Relation.ReflTransGen.head (mem_of_mem_filter ha) hreach⟩

/-- The search from one vertex visits the reachable vertices. -/
theorem mem_reach {fuel : ℕ} {start : V}
    (hfuel : cost next vertices [start] ∅ ≤ fuel) (w : V) :
  w ∈ reach next fuel [start] ∅ ↔ Reachable next start w
  := by
  obtain ⟨hsub, hnext, hback⟩ := reach_spec hvertices hfuel (by simp)
  constructor
  · intro hw
    rcases hback w hw with hw | ⟨v, hv, hreach⟩
    · simp at hw
    · rw [mem_singleton.mp hv] at hreach
      apply hreach
  · intro hreach
    induction hreach with
    | refl => apply hsub start (by simp)
    | tail _ hstep ih => apply hnext _ ih _ hstep

end

end Search
