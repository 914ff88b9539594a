import Kukuri.Core.TopologySound

/-!
# Agreement between peers

Two peers that know the same instances and the same connections resolve the same topology,
in whatever order the records reached them. The order of the connections is settled by
`orderedTopologyConnections_congr`; the table of the instances is determined by what it
holds (`loaded_iff`).
-/

namespace Kukuri.DomeConnections

open Result

/-! ### The table of the instances -/

section

variable {instances instances' : List DomeInstanceManifest} {table table' : InstanceTable}

theorem Loaded.unique (h : Loaded instances table) (h' : Loaded instances table') :
  table = table'
  := by
  have hinstances : table.instanceById = table'.instanceById := by
    apply Std.ExtTreeMap.ext_getElem?
    intro v
    apply Option.ext
    intro manifest
    rw [h.getElem, h'.getElem]
  have hcontext : table.spatialContext = table'.spatialContext := by
    cases instances with
    | nil => rw [h.empty rfl, h'.empty rfl]
    | cons manifest _ =>
      rw [h.spatialContext manifest List.mem_cons_self,
        h'.spatialContext manifest List.mem_cons_self]
  cases table
  cases table'
  simp_all

theorem Loaded.perm (h : Loaded instances table) (hperm : instances.Perm instances') :
  Loaded instances' table
  where
  getElem := by
    intro v manifest
    rw [h.getElem, hperm.mem_iff]
  nodup := (hperm.map _).nodup_iff.mp h.nodup
  attachable := by
    intro manifest hmem
    apply h.attachable manifest (hperm.mem_iff.mpr hmem)
  spatialContext := by
    intro manifest hmem
    apply h.spatialContext manifest (hperm.mem_iff.mpr hmem)
  empty := by
    rintro rfl
    apply h.empty (List.perm_nil.mp hperm)

/-- Loading the instances one by one reaches every table that describes them. -/
theorem loaded_iff :
  instances.foldlM loadInstance ⟨∅, none⟩ = .ok table ↔ Loaded instances table
  := by
  constructor
  · apply loaded_of_foldlM
  intro h
  cases hload : instances.foldlM loadInstance ⟨∅, none⟩ with
  | ok table' => rw [(loaded_of_foldlM hload).unique h]
  | error failure =>
    -- The round that fails had nothing to complain about.
    obtain ⟨done, manifest, rest, t, rfl, hdone, hfail⟩ := foldlM_eq_error hload
    have ht := loaded_of_foldlM hdone
    have hcontext : ∀ context, t.spatialContext = some context →
        context = manifest.spatialContext := by
      intro context hcontext
      cases done with
      | nil => simp [ht.empty rfl] at hcontext
      | cons first _ =>
        have hfirst := h.spatialContext first (by simp)
        have hmanifest := h.spatialContext manifest (by simp)
        rw [ht.spatialContext first List.mem_cons_self] at hcontext
        rw [hfirst] at hmanifest
        apply Option.some.inj (hcontext.symm.trans hmanifest)
    have hnew : manifest.instanceId ∉ t.instanceById := by
      have hnodup := h.nodup
      rw [List.map_append, List.map_cons, List.nodup_append] at hnodup
      rw [ht.mem_iff]
      intro hmem
      apply hnodup.2.2 _ hmem _ List.mem_cons_self rfl
    have hok := loadInstance_eq_ok.mpr ⟨h.attachable manifest (by simp), hcontext, hnew, rfl⟩
    rw [hok] at hfail
    cases hfail

end

/-! ### The resolution -/

section

variable (recordDigest : DomeConnectionRecord → String)
  (topologyDigest : SpatialContext → List DomeComponentTopology → List String → String)
  {instances instances' : List DomeInstanceManifest}

/-- The instances are read through the table only. -/
theorem resolveDomeTopology_congr
    (hload : instances.foldlM loadInstance ⟨∅, none⟩ = instances'.foldlM loadInstance ⟨∅, none⟩) :
  resolveDomeTopology recordDigest topologyDigest instances
    = resolveDomeTopology recordDigest topologyDigest instances'
  := by
  funext connections
  rw [resolveDomeTopology, hload, resolveDomeTopology]

variable {recordDigest topologyDigest} in
theorem resolveDomeTopologyCandidates_congr
    (hresolve : resolveDomeTopology recordDigest topologyDigest instances
      = resolveDomeTopology recordDigest topologyDigest instances') :
  resolveDomeTopologyCandidates recordDigest topologyDigest instances
    = resolveDomeTopologyCandidates recordDigest topologyDigest instances'
  := by
  have htry : tryCandidate recordDigest topologyDigest instances
      = tryCandidate recordDigest topologyDigest instances' := by
    funext state candidate
    rw [tryCandidate, hresolve, tryCandidate]
  funext connections
  rw [resolveDomeTopologyCandidates, hresolve, htry, resolveDomeTopologyCandidates]

/-- Nothing is resolved over instances that cannot be loaded. -/
theorem resolve_toOption_eq_none {failure : Failure}
    (hload : instances.foldlM loadInstance ⟨∅, none⟩ = .error failure)
    (connections : List DomeConnectionRecord) :
  (resolveDomeTopology recordDigest topologyDigest instances connections).toOption = none ∧
    (resolveDomeTopologyCandidates recordDigest topologyDigest instances connections).toOption
      = none
  := by
  have hresolve : ∀ connections, resolveDomeTopology recordDigest topologyDigest instances
      connections = .error failure := by
    intro connections
    rw [resolveDomeTopology, hload]
    rfl
  constructor
  · rw [hresolve]
    rfl
  · rw [resolveDomeTopologyCandidates]
    simp only [hresolve]
    rfl

end

/-- However two peers arrange the same instances and connections, they resolve the same
topology and reject the same candidates, or both fail. -/
theorem peers_agree (recordDigest : DomeConnectionRecord → String)
    (topologyDigest : SpatialContext → List DomeComponentTopology → List String → String)
    {instances instances' : List DomeInstanceManifest}
    {connections connections' : List DomeConnectionRecord}
    (hdigest : Set.InjOn recordDigest {connection | connection ∈ connections})
    (hinstances : instances.Perm instances') (hconnections : connections.Perm connections') :
  (resolveDomeTopology recordDigest topologyDigest instances connections).toOption
      = (resolveDomeTopology recordDigest topologyDigest instances' connections').toOption ∧
    (resolveDomeTopologyCandidates recordDigest topologyDigest instances connections).toOption
      = (resolveDomeTopologyCandidates recordDigest topologyDigest instances'
          connections').toOption
  := by
  have horder := orderedTopologyConnections_congr hdigest hconnections
  have hfirst : ∀ instances, resolveDomeTopology recordDigest topologyDigest instances connections
      = resolveDomeTopology recordDigest topologyDigest instances connections' := by
    intro instances
    rw [resolveDomeTopology, horder, resolveDomeTopology]
  have hsecond : ∀ instances, resolveDomeTopologyCandidates recordDigest topologyDigest instances
      connections = resolveDomeTopologyCandidates recordDigest topologyDigest instances
        connections' := by
    intro instances
    rw [resolveDomeTopologyCandidates, horder, resolveDomeTopologyCandidates]
  rw [hfirst, hsecond]
  cases hload : instances.foldlM loadInstance ⟨∅, none⟩ with
  | ok table =>
    have hload' := loaded_iff.mpr ((loaded_iff.mp hload).perm hinstances)
    have hresolve := resolveDomeTopology_congr recordDigest topologyDigest
      (hload.trans hload'.symm)
    rw [hresolve, resolveDomeTopologyCandidates_congr hresolve]
    exact ⟨rfl, rfl⟩
  | error failure =>
    cases hload' : instances'.foldlM loadInstance ⟨∅, none⟩ with
    | ok table =>
      have hok := loaded_iff.mpr ((loaded_iff.mp hload').perm hinstances.symm)
      rw [hload] at hok
      cases hok
    | error failure' =>
      obtain ⟨hnone, hnone'⟩ := resolve_toOption_eq_none recordDigest topologyDigest hload
        connections'
      obtain ⟨hother, hother'⟩ := resolve_toOption_eq_none recordDigest topologyDigest hload'
        connections'
      rw [hnone, hnone', hother, hother']
      exact ⟨rfl, rfl⟩

/-- Two peers that learn of three domes in opposite orders resolve the same row. -/
theorem peers_agree_row :
  (resolveDomeTopologyCandidates connectionId (fun _ _ _ => "digest") sampleInstances
      sampleConnections).isOk ∧
    (resolveDomeTopology connectionId (fun _ _ _ => "digest") sampleInstances
        sampleConnections).toOption
      = (resolveDomeTopology connectionId (fun _ _ _ => "digest") sampleInstances.reverse
          sampleConnections.reverse).toOption ∧
    (resolveDomeTopologyCandidates connectionId (fun _ _ _ => "digest") sampleInstances
        sampleConnections).toOption
      = (resolveDomeTopologyCandidates connectionId (fun _ _ _ => "digest")
          sampleInstances.reverse sampleConnections.reverse).toOption
  := by
  have hdistinct : ∀ left ∈ sampleConnections, ∀ right ∈ sampleConnections,
      connectionId left = connectionId right → left = right := by decide
  constructor
  · decide +kernel
  · apply peers_agree
    · intro left hleft right hright
      apply hdistinct left hleft right hright
    · apply (List.reverse_perm _).symm
    · apply (List.reverse_perm _).symm

end Kukuri.DomeConnections
