import Mathlib

/-!
# Forests given by a list of edges

A graph is a list of edges, each with two ends. `Connected ends es` is the relation of being
joined by edges of the list, and `Forest ends es` says that every edge joined two vertices
that were not connected by the edges before it.

* `Forest.exists_potential`: for any weights in an abelian group there is a function on the
  vertices whose difference along every edge is the weight of the edge.
* `Forest.length_component`: a connected component has one vertex more than edges.
-/

universe u v w

namespace EdgeList

variable {V : Type u} {E : Type v} (ends : E → V × V)

/-- An edge of the list has the ends `u` and `v`, in any order. -/
def Joined (es : List E) (u v : V) : Prop :=
  ∃ e ∈ es, ends e = (u, v) ∨ ends e = (v, u)

/-- The vertices are connected by edges of the list. -/
def Connected (es : List E) : V → V → Prop :=
  Relation.ReflTransGen (Joined ends es)

/-- Every edge, from the last to the first, joins vertices that the earlier edges do not
connect. The last edge is the head of the list. -/
inductive Forest : List E → Prop
  | nil : Forest []
  | cons {e : E} {es : List E} (h : Forest es)
      (hnew : ¬ Connected ends es (ends e).1 (ends e).2) : Forest (e :: es)

variable {ends} {es : List E}

/-! ### Connectedness -/

variable {u v : V}

theorem Joined.symm (h : Joined ends es u v) :
  Joined ends es v u
  := by
  obtain ⟨e, he, hends⟩ := h
  exact ⟨e, he, hends.symm⟩

theorem Connected.symm (h : Connected ends es u v) :
  Connected ends es v u
  := by
  have : Std.Symm (Joined ends es) := ⟨fun _ _ => Joined.symm⟩
  exact Relation.ReflTransGen.stdSymm.symm _ _ h

theorem Connected.trans {u v w : V} (h : Connected ends es u v) (h' : Connected ends es v w) :
  Connected ends es u w
  := Relation.ReflTransGen.trans h h'

theorem Connected.refl (v : V) :
  Connected ends es v v
  := Relation.ReflTransGen.refl

theorem Joined.connected (h : Joined ends es u v) :
  Connected ends es u v
  := Relation.ReflTransGen.single h

theorem Connected.of_mem {e : E} (he : e ∈ es) :
  Connected ends es (ends e).1 (ends e).2
  := Joined.connected ⟨e, he, .inl rfl⟩

theorem Connected.mono {es' : List E} (hsub : ∀ e ∈ es, e ∈ es')
    (h : Connected ends es u v) :
  Connected ends es' u v
  := by
  apply Relation.ReflTransGen.mono _ _ _ h
  rintro _ _ ⟨e, he, hends⟩
  exact ⟨e, hsub e he, hends⟩

theorem connected_nil :
  Connected ends [] u v ↔ u = v
  := by
  constructor
  · intro h
    induction h with
    | refl => rfl
    | tail _ hstep =>
      obtain ⟨e, he, -⟩ := hstep
      cases he
  · rintro rfl
    apply Connected.refl

/-- A new edge connects what was connected before, and the parts of its two ends. -/
theorem connected_cons {e : E} :
  Connected ends (e :: es) u v ↔ Connected ends es u v ∨
    (Connected ends es u (ends e).1 ∧ Connected ends es (ends e).2 v) ∨
    (Connected ends es u (ends e).2 ∧ Connected ends es (ends e).1 v)
  := by
  have hweaken : ∀ {a b : V}, Connected ends es a b → Connected ends (e :: es) a b :=
    Connected.mono fun _ => List.mem_cons_of_mem e
  have hedge : Connected ends (e :: es) (ends e).1 (ends e).2 := Connected.of_mem (by simp)
  constructor
  · intro h
    induction h with
    | refl => exact .inl (Connected.refl u)
    | tail _ hstep ih =>
      obtain ⟨e', he', hends⟩ := hstep
      rcases List.mem_cons.mp he' with rfl | he'
      · rcases hends with hends | hends <;> rw [hends] at ih ⊢ <;>
          rcases ih with ih | ⟨ih, -⟩ | ⟨ih, -⟩
        · exact .inr (.inl ⟨ih, Connected.refl _⟩)
        · exact .inr (.inl ⟨ih, Connected.refl _⟩)
        · exact .inl ih
        · exact .inr (.inr ⟨ih, Connected.refl _⟩)
        · exact .inl ih
        · exact .inr (.inr ⟨ih, Connected.refl _⟩)
      · have hjoin := Joined.connected ⟨e', he', hends⟩
        rcases ih with ih | ⟨ih, ih'⟩ | ⟨ih, ih'⟩
        · exact .inl (ih.trans hjoin)
        · exact .inr (.inl ⟨ih, ih'.trans hjoin⟩)
        · exact .inr (.inr ⟨ih, ih'.trans hjoin⟩)
  · rintro (h | ⟨h, h'⟩ | ⟨h, h'⟩)
    · apply hweaken h
    · apply ((hweaken h).trans hedge).trans (hweaken h')
    · apply ((hweaken h).trans hedge.symm).trans (hweaken h')

/-! ### Potentials -/

/-- In a forest every assignment of weights to the edges is the difference of a function on
the vertices. -/
theorem Forest.exists_potential {G : Type w} [AddCommGroup G] (weight : E → G)
    (h : Forest ends es) :
  ∃ f : V → G, ∀ e ∈ es, f (ends e).2 = f (ends e).1 + weight e
  := by
  classical
  induction h with
  | nil =>
    use fun _ => 0
    simp
  | @cons e es _ hnew ih =>
    obtain ⟨f, hf⟩ := ih
    -- Shift the part of the second end until the new edge fits.
    let shift := f (ends e).1 + weight e - f (ends e).2
    use fun v => if Connected ends es (ends e).2 v then f v + shift else f v
    intro e' he'
    simp only
    rcases List.mem_cons.mp he' with rfl | he'
    · have hleft : ¬ Connected ends es (ends e').2 (ends e').1 := fun h => hnew h.symm
      rw [if_pos (Connected.refl _), if_neg hleft]
      simp [shift]
    · have hjoin := @Connected.of_mem _ _ ends _ _ he'
      by_cases hfirst : Connected ends es (ends e).2 (ends e').1
      · rw [if_pos (hfirst.trans hjoin), if_pos hfirst, hf e' he']
        abel
      · have hsecond : ¬ Connected ends es (ends e).2 (ends e').2 :=
          fun h => hfirst (h.trans hjoin.symm)
        rw [if_neg hsecond, if_neg hfirst, hf e' he']

/-! ### Counting -/

open Classical in
/-- The vertices of the list that are connected to `v`. -/
noncomputable def component (ends : E → V × V) (es : List E) (vertices : List V) (v : V) :
    List V :=
  vertices.filter fun u => Connected ends es v u

open Classical in
/-- The edges of the list whose ends are connected to `v`. -/
noncomputable def edgesOf (ends : E → V × V) (es : List E) (v : V) : List E :=
  es.filter fun e => Connected ends es v (ends e).1

theorem mem_component {vertices : List V} :
  u ∈ component ends es vertices v ↔ u ∈ vertices ∧ Connected ends es v u
  := by
  simp [component]

theorem mem_edgesOf {e : E} {v : V} :
  e ∈ edgesOf ends es v ↔ e ∈ es ∧ Connected ends es v (ends e).1
  := by
  simp [edgesOf]

/-- What the new edge connects to a vertex of the part of one of its ends. -/
theorem connected_cons_of_part {e : E}
    (hv : Connected ends es v (ends e).1 ∨ Connected ends es v (ends e).2) :
  Connected ends (e :: es) v u ↔
    Connected ends es (ends e).1 u ∨ Connected ends es (ends e).2 u
  := by
  rw [connected_cons]
  constructor
  · rintro (h | ⟨-, h⟩ | ⟨-, h⟩)
    · rcases hv with hv | hv
      · exact .inl (hv.symm.trans h)
      · exact .inr (hv.symm.trans h)
    · exact .inr h
    · exact .inl h
  · rintro (h | h)
    · rcases hv with hv | hv
      · exact .inl (hv.trans h)
      · exact .inr (.inr ⟨hv, h⟩)
    · rcases hv with hv | hv
      · exact .inr (.inl ⟨hv, h⟩)
      · exact .inl (hv.trans h)

/-- The new edge does not matter to a vertex that is connected to none of its ends. -/
theorem connected_cons_of_apart {e : E}
    (hv : ¬ (Connected ends es v (ends e).1 ∨ Connected ends es v (ends e).2)) :
  Connected ends (e :: es) v u ↔ Connected ends es v u
  := by
  rw [connected_cons]
  constructor
  · rintro (h | ⟨h, -⟩ | ⟨h, -⟩)
    · apply h
    · exact absurd (.inl h) hv
    · exact absurd (.inr h) hv
  · exact .inl

theorem length_filter_or {α : Type u} (l : List α) (p q : α → Prop) [DecidablePred p]
    [DecidablePred q] (hdisjoint : ∀ a ∈ l, p a → ¬ q a) :
  (l.filter fun a => p a ∨ q a).length = (l.filter p).length + (l.filter q).length
  := by
  have hboth : Multiset.filter (fun a => p a ∧ q a) (l : Multiset α) = 0 :=
    Multiset.filter_eq_nil.mpr fun a ha h => hdisjoint a ha h.1 h.2
  have hsum := congrArg Multiset.card (Multiset.filter_add_filter p q (l : Multiset α))
  rw [hboth, Multiset.add_zero, Multiset.card_add] at hsum
  exact hsum.symm

/-- A component of a forest has one vertex more than edges. -/
theorem Forest.length_component (h : Forest ends es) {vertices : List V}
    (hnodup : vertices.Nodup)
    (hends : ∀ e ∈ es, (ends e).1 ∈ vertices ∧ (ends e).2 ∈ vertices) {v : V}
    (hv : v ∈ vertices) :
  (component ends es vertices v).length = (edgesOf ends es v).length + 1
  := by
  classical
  induction h generalizing v with
  | nil =>
    have honce := List.count_eq_one_of_mem hnodup hv
    rw [List.count, List.countP_eq_length_filter] at honce
    have hsame : component ends [] vertices v = vertices.filter (· == v) := by
      simp only [component, connected_nil]
      congr 1
      funext u
      apply decide_eq_decide.mpr eq_comm
    rw [hsame, honce]
    rfl
  | @cons e es hforest hnew ih =>
    have hends' : ∀ e ∈ es, (ends e).1 ∈ vertices ∧ (ends e).2 ∈ vertices :=
      fun e' he' => hends e' (List.mem_cons_of_mem e he')
    have hfirst := ih hends' (hends e (by simp)).1
    have hsecond := ih hends' (hends e (by simp)).2
    have hdisjoint : ∀ u, Connected ends es (ends e).1 u → ¬ Connected ends es (ends e).2 u :=
      fun u h h' => hnew (h.trans h'.symm)
    by_cases hpart : Connected ends es v (ends e).1 ∨ Connected ends es v (ends e).2
    · -- The two parts become one, with the new edge.
      have hvertices := length_filter_or vertices _ _ (fun u _ => hdisjoint u)
      have hedges := length_filter_or es _ _ (fun e' _ => hdisjoint (ends e').1)
      simp only [component, edgesOf, connected_cons_of_part hpart] at hfirst hsecond ⊢
      rw [hvertices, List.filter_cons_of_pos (by simp [Connected.refl]), List.length_cons, hedges]
      omega
    · have hapart := ih hends' hv
      simp only [component, edgesOf, connected_cons_of_apart hpart] at hapart ⊢
      rw [hapart, List.filter_cons_of_neg]
      simpa using fun h => hpart (.inl h)

end EdgeList
