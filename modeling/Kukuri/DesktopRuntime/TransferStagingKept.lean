import Kukuri.DesktopRuntime.TransferStaging

/-!
# A complete bundle is kept until it is merged

The main result, `bundles_kept`, says that every chunk of a bundle that has been committed is still
in its file or has been merged since, as long as transfers have the files for themselves and the
files of a complete bundle are not cleared. Without this a transfer that is dropped may clear the
bundle of a later one, which `exists_discarded_bundle` shows.
-/

namespace Kukuri

open List Option Function Trace TransferTask

section

variable {Item : Type}
variable {files files' : TransferFiles Item} {task task' : TransferTask Item} {i : ℕ}
  {call : TransferCall Item} {ret : TransferReturn Item}

/-! ### Exclusive use of the files -/

namespace TransferTask

/-- The task does nothing. -/
def Quiet : TransferTask Item → Prop
  | .idle | .settled => True
  | _ => False

def Merging : TransferTask Item → Prop
  | .mergeManifest | .mergeNext _ | .mergeItems _ _ | .mergeDelete _ | .mergeAdvance _ => True
  | _ => False

end TransferTask

/-- A step of a transfer, or of a task that clears the files, is made while nothing else is in
progress. Merges may overlap. The files are not cleared while they hold a complete bundle. -/
structure Exclusive (e : TransferEvent Item) : Prop where
  alone : ∀ i call, e.op = .call i call → ∀ j, j ≠ i → (e.before.tasks j).Quiet ∨
    (e.before.tasks j).Merging ∧ ((e.before.tasks i).Quiet ∨ (e.before.tasks i).Merging) ∧
      ((e.after.tasks i).Quiet ∨ (e.after.tasks i).Merging)
  fresh : ∀ i reason, e.op = .call i .advance →
    e.before.tasks i = .clear reason .readManifest →
    ∀ manifest, e.before.files.manifest = some manifest → ¬ manifest.complete

/-- What a step of a task does. -/
theorem TransferStep.call_cases {before after : TransferState Item}
    (h : TransferStep before (.call i call) ret after) :
  ∃ task, (before.tasks i).perform before.files call = some (ret, after.files, task) ∧
    after.tasks = Function.update before.tasks i task
  := by
  obtain ⟨⟨ret', files, task⟩, hperform, hafter⟩ := map_eq_some_iff.mp h
  cases hafter
  exact ⟨task, hperform, rfl⟩

/-! ### Until the commit -/

/-- The chunks that the transfer has staged are in their files. -/
def TransferTask.Stored (chunk : ℕ → Option (List Item)) : TransferTask Item → Prop
  | .staging staged | .stageManifest staged _ | .stageChunk staged _ | .commitManifest staged =>
    ∀ k items, staged[k]? = some (some items) → chunk k = some items
  | _ => True

theorem TransferTask.stored_of_quiet (h : task.Quiet ∨ task.Merging)
    (chunk : ℕ → Option (List Item)) :
  task.Stored chunk
  := by
  cases task <;> first | trivial | simp [Quiet, Merging] at h

theorem stored_snoc {chunk chunk' : ℕ → Option (List Item)} {staged : List (Option (List Item))}
    {last : Option (List Item)}
    (h : ∀ k items, staged[k]? = some (some items) → chunk k = some items)
    (hsame : ∀ k < staged.length, chunk' k = chunk k)
    (hlast : ∀ items, last = some items → chunk' staged.length = some items) :
  ∀ k items, (staged ++ [last])[k]? = some (some items) → chunk' k = some items
  := by
  intro k items hget
  rcases Nat.lt_trichotomy k staged.length with hlt | rfl | hgt
  · rw [getElem?_append_left hlt] at hget
    rw [hsame k hlt]
    exact h k items hget
  · rw [getElem?_concat_length, some.injEq] at hget
    exact hlast items hget
  · have hlength : (staged ++ [last]).length ≤ k := by
      rw [length_append, length_singleton]
      omega
    rw [getElem?_eq_none hlength] at hget
    cases hget

/-- A task that clears the files has staged nothing. -/
theorem stored_clearNext (files : TransferFiles Item) (reason : ClearReason) (stage : ClearStage)
    (chunk : ℕ → Option (List Item)) :
  (clearNext files reason stage).2.Stored chunk
  := by
  cases stage with
  | readManifest =>
    rw [clearNext]
    cases files.manifest <;> trivial
  | deleteChunks => trivial
  | deleteManifest => cases reason <;> trivial

/-- A merge has staged nothing. -/
theorem stored_merge (hmerging : task.Merging) (h : task.next files = some (ret, files', task'))
    (chunk : ℕ → Option (List Item)) :
  task'.Stored chunk
  := by
  cases task with
  | mergeManifest =>
    simp only [TransferTask.next] at h
    split at h
    · cases h
      trivial
    · split at h <;> (cases h; trivial)
  | mergeNext manifest =>
    simp only [TransferTask.next] at h
    split at h
    · split at h <;> (cases h; trivial)
    · cases h
      trivial
  | mergeItems manifest items | mergeDelete manifest | mergeAdvance manifest =>
    cases h
    trivial
  | _ => cases hmerging

/-- A step of a transfer keeps what it has staged. -/
theorem TransferTask.stored_perform (h : task.perform files call = some (ret, files', task'))
    (hstored : task.Stored files.chunk) :
  task'.Stored files'.chunk
  := by
  cases call with
  | begin | merge =>
    cases task with
    | idle => cases h; trivial
    | _ => cases h
  | stage items | commit =>
    cases task with
    | staging staged => cases h; exact hstored
    | _ => cases h
  | abort =>
    cases task with
    | staging _ | settled => cases h; trivial
    | _ => cases h
  | drop | halt => cases task <;> first | cases h; done | (cases h; trivial)
  | fail =>
    cases task with
    | stageManifest staged _ | stageChunk staged _ =>
      cases h
      exact stored_snoc hstored (fun _ _ => rfl) nofun
    | commitManifest staged => cases h; exact hstored
    | idle | staging _ | settled => cases h
    | _ => cases h; trivial
  | failRegistration =>
    cases task with
    | commitManifest staged => cases h; trivial
    | _ => cases h
  | advance =>
    cases task with
    | clear reason stage =>
      obtain ⟨_, hnext⟩ := Prod.mk.inj (some.inj h)
      have htask : (clearNext files reason stage).2 = task' := congrArg Prod.snd hnext
      rw [← htask]
      exact stored_clearNext files reason stage _
    | beginManifest => cases h; exact nofun
    | stageManifest staged items => cases h; exact hstored
    | stageChunk staged items =>
      cases h
      apply stored_snoc hstored
      · intro k hk
        exact update_of_ne hk.ne _ _
      · rintro items' ⟨⟩
        exact update_self _ _ _
    | commitManifest staged => cases h; trivial
    | mergeManifest | mergeNext _ | mergeItems _ _ | mergeDelete _ | mergeAdvance _ =>
      simp only [perform] at h
      apply stored_merge _ h
      trivial
    | idle | staging _ | settled => cases h

/-- Along a run with exclusive use every transfer finds what it has staged. -/
theorem stored_step {before after : TransferState Item} {op : TransferOp Item}
    (hstep : TransferStep before op ret after) (hexclusive : Exclusive ⟨before, op, ret, after⟩)
    (hstored : ∀ i, (before.tasks i).Stored before.files.chunk) :
  ∀ i, (after.tasks i).Stored after.files.chunk
  := by
  cases op with
  | stop =>
    obtain ⟨_, rfl⟩ := Prod.mk.inj (some.inj hstep)
    exact fun _ => trivial
  | call i call =>
    obtain ⟨task, hperform, htasks⟩ := hstep.call_cases
    intro j
    rw [htasks]
    by_cases hj : j = i
    · subst hj
      rw [update_self]
      exact stored_perform hperform (hstored j)
    · rw [update_of_ne hj]
      apply stored_of_quiet
      rcases hexclusive.alone i call rfl j hj with hquiet | ⟨hmerging, _⟩
      · exact .inl hquiet
      · exact .inr hmerging

/-! ### After the commit -/

/-- The chunk with the given number has been merged, if it was staged. -/
def ChunkMerged (staged : List (Option (List Item))) (merged : List Item → Prop) (k : ℕ) : Prop :=
  ∀ items, staged[k]? = some (some items) → merged items

/-- A manifest of the bundle: the chunks that it counts as merged have been merged. -/
structure Manifest.Of (manifest : Manifest) (staged : List (Option (List Item)))
    (merged : List Item → Prop) : Prop where
  complete : manifest.complete
  chunks : manifest.chunks = staged.length
  merged : ∀ k < manifest.merged, ChunkMerged staged merged k

/-- What a task may do while the bundle is not yet merged. -/
def TransferTask.Keeps (staged : List (Option (List Item))) (merged : List Item → Prop) :
    TransferTask Item → Prop
  | .idle | .settled | .mergeManifest | .clear _ .readManifest => True
  | .mergeNext manifest => manifest.Of staged merged
  | .mergeItems manifest items => manifest.Of staged merged ∧
    ∀ items', staged[manifest.merged]? = some (some items') → items' = items ∨ merged items'
  | .mergeDelete manifest | .mergeAdvance manifest => manifest.Of staged merged ∧
    ChunkMerged staged merged manifest.merged
  | _ => False

/-- The bundle is in the files. -/
structure InFiles (staged : List (Option (List Item))) (merged : List Item → Prop)
    (s : TransferState Item) : Prop where
  chunks : ∀ k items, staged[k]? = some (some items) →
    s.files.chunk k = some items ∨ merged items
  manifest : ∃ manifest, s.files.manifest = some manifest ∧ manifest.Of staged merged
  tasks : ∀ i, (s.tasks i).Keeps staged merged

/-- The bundle has been merged, or is in the files. -/
def Kept (staged : List (Option (List Item))) (merged : List Item → Prop)
    (s : TransferState Item) : Prop :=
  (∀ k, ChunkMerged staged merged k) ∨ InFiles staged merged s

variable {staged : List (Option (List Item))} {merged merged' : List Item → Prop}
  {s before after : TransferState Item} {op : TransferOp Item} {ret : TransferReturn Item}

section

variable (hmerged : ∀ items, merged items → merged' items)
include hmerged

theorem ChunkMerged.mono {k : ℕ} (h : ChunkMerged staged merged k) :
  ChunkMerged staged merged' k
  := fun items hitems => hmerged items (h items hitems)

theorem Manifest.Of.mono {manifest : Manifest} (h : manifest.Of staged merged) :
  manifest.Of staged merged'
  := ⟨h.complete, h.chunks, fun k hk => (h.merged k hk).mono hmerged⟩

theorem TransferTask.Keeps.mono (h : task.Keeps staged merged) :
  task.Keeps staged merged'
  := by
  cases task with
  | idle | settled | mergeManifest => trivial
  | clear reason stage => cases stage <;> exact h
  | mergeNext manifest => exact Manifest.Of.mono hmerged h
  | mergeItems manifest items =>
    refine ⟨h.1.mono hmerged, fun items' hitems => ?_⟩
    rcases h.2 items' hitems with heq | hdone
    · exact .inl heq
    · exact .inr (hmerged items' hdone)
  | mergeDelete manifest | mergeAdvance manifest => exact ⟨h.1.mono hmerged, h.2.mono hmerged⟩
  | _ => cases h

theorem InFiles.mono (h : InFiles staged merged s) :
  InFiles staged merged' s
  := by
  obtain ⟨manifest, hmanifest, hof⟩ := h.manifest
  refine ⟨fun k items hitems => ?_, ⟨manifest, hmanifest, hof.mono hmerged⟩,
    fun i => (h.tasks i).mono hmerged⟩
  exact (h.chunks k items hitems).imp_right (hmerged items)

end

/-- A step of a task keeps a bundle that is in the files, or completes its merge. -/
theorem InFiles.perform (h : InFiles staged merged s)
    (hperform : (s.tasks i).perform s.files call = some (ret, files, task))
    (hmerged : ∀ items, ret = .merged items → merged items)
    (hfresh : ∀ reason, call = .advance → s.tasks i = .clear reason .readManifest →
      ∀ manifest, s.files.manifest = some manifest → ¬ manifest.complete) :
  (∀ k, ChunkMerged staged merged k) ∨
    (∀ k items, staged[k]? = some (some items) → files.chunk k = some items ∨ merged items) ∧
    (∃ manifest, files.manifest = some manifest ∧ manifest.Of staged merged) ∧
    task.Keeps staged merged
  := by
  have hkeeps := h.tasks i
  generalize s.tasks i = current at hperform hfresh hkeeps
  have hsame := h.manifest
  cases call with
  | begin | merge =>
    cases current with
    | idle => cases hperform; exact .inr ⟨h.chunks, hsame, trivial⟩
    | _ => cases hperform
  | stage items | commit | failRegistration =>
    cases current with
    | staging _ | commitManifest _ => cases hkeeps
    | _ => cases hperform
  | abort =>
    cases current with
    | staging _ => cases hkeeps
    | settled => cases hperform; exact .inr ⟨h.chunks, hsame, trivial⟩
    | _ => cases hperform
  | drop =>
    cases current with
    | settled => cases hperform; exact .inr ⟨h.chunks, hsame, trivial⟩
    | staging _ | stageManifest _ _ | stageChunk _ _ | commitManifest _ => cases hkeeps
    | _ => cases hperform
  | halt =>
    cases current with
    | idle | settled | staging _ | stageManifest _ _ | stageChunk _ _ | commitManifest _ =>
      cases hperform
    | _ => cases hperform; exact .inr ⟨h.chunks, hsame, trivial⟩
  | fail =>
    cases current with
    | idle | settled | staging _ => cases hperform
    | stageManifest _ _ | stageChunk _ _ | commitManifest _ => cases hkeeps
    | _ => cases hperform; exact .inr ⟨h.chunks, hsame, trivial⟩
  | advance =>
    obtain ⟨manifest, hmanifest, hof⟩ := hsame
    cases current with
    | idle | settled | staging _ => cases hperform
    | beginManifest | stageManifest _ _ | stageChunk _ _ | commitManifest _ => cases hkeeps
    | clear reason stage =>
      cases stage with
      | readManifest => exact absurd hof.complete (hfresh reason rfl rfl manifest hmanifest)
      | _ => cases hkeeps
    | mergeManifest =>
      simp only [TransferTask.perform, TransferTask.next, hmanifest, hof.complete,
        if_true] at hperform
      cases hperform
      exact .inr ⟨h.chunks, ⟨manifest, hmanifest, hof⟩, hof⟩
    | mergeNext current =>
      simp only [TransferTask.perform, TransferTask.next] at hperform
      split at hperform
      case isTrue hlt =>
        split at hperform <;> cases hperform
        case h_1 items hchunk =>
          refine .inr ⟨h.chunks, ⟨manifest, hmanifest, hof⟩, hkeeps, ?_⟩
          intro items' hitems
          rcases h.chunks _ items' hitems with hfile | hdone
          · rw [hchunk, some.injEq] at hfile
            exact .inl hfile.symm
          · exact .inr hdone
        case h_2 hchunk =>
          refine .inr ⟨h.chunks, ⟨manifest, hmanifest, hof⟩, hkeeps, ?_⟩
          intro items hitems
          rcases h.chunks _ items hitems with hfile | hdone
          · rw [hchunk] at hfile
            cases hfile
          · exact hdone
      case isFalse hge =>
        left
        intro k items hitems
        have hk := (List.getElem?_eq_some_iff.mp hitems).1
        have hkeeps' : current.Of staged merged := hkeeps
        rw [hkeeps'.chunks] at hge
        exact hkeeps'.merged k (by omega) items hitems
    | mergeItems current items =>
      cases hperform
      refine .inr ⟨h.chunks, ⟨manifest, hmanifest, hof⟩, hkeeps.1, ?_⟩
      intro items' hitems
      rcases hkeeps.2 items' hitems with rfl | hdone
      · exact hmerged _ rfl
      · exact hdone
    | mergeDelete current =>
      cases hperform
      refine .inr ⟨?_, ⟨manifest, hmanifest, hof⟩, hkeeps⟩
      intro k items hitems
      by_cases hk : k = current.merged
      · subst hk
        exact .inr (hkeeps.2 items hitems)
      · have hsame : (s.files.deleteChunk current.merged).chunk k = s.files.chunk k :=
          update_of_ne hk _ _
        rw [hsame]
        exact h.chunks k items hitems
    | mergeAdvance current =>
      cases hperform
      have hnext : ({ current with merged := current.merged + 1 } : Manifest).Of staged merged := by
        refine ⟨hkeeps.1.complete, hkeeps.1.chunks, fun k hk => ?_⟩
        rcases Nat.lt_succ_iff_lt_or_eq.mp hk with hlt | rfl
        · exact hkeeps.1.merged k hlt
        · exact hkeeps.2
      exact .inr ⟨h.chunks, ⟨_, rfl, hnext⟩, hnext⟩

theorem Kept.step (h : Kept staged merged before) (hstep : TransferStep before op ret after)
    (hexclusive : Exclusive ⟨before, op, ret, after⟩)
    (hmono : ∀ items, merged items → merged' items)
    (hmerged : ∀ items, ret = .merged items → merged' items) :
  Kept staged merged' after
  := by
  rcases h with hall | hfiles
  · exact .inl fun k => (hall k).mono hmono
  replace hfiles := hfiles.mono hmono
  cases op with
  | stop =>
    obtain ⟨_, rfl⟩ := Prod.mk.inj (some.inj hstep)
    exact .inr ⟨hfiles.chunks, hfiles.manifest, fun _ => trivial⟩
  | call i call =>
    obtain ⟨task, hperform, htasks⟩ := hstep.call_cases
    have hfresh : ∀ reason, call = .advance → before.tasks i = .clear reason .readManifest →
        ∀ manifest, before.files.manifest = some manifest → ¬ manifest.complete := by
      rintro reason rfl htask
      exact hexclusive.fresh i reason rfl htask
    rcases hfiles.perform hperform hmerged hfresh with hall | ⟨hchunks, hmanifest, hkeeps⟩
    · exact .inl hall
    · refine .inr ⟨hchunks, hmanifest, fun j => ?_⟩
      rw [htasks]
      by_cases hj : j = i
      · subst hj
        rw [update_self]
        exact hkeeps
      · rw [update_of_ne hj]
        exact hfiles.tasks j

/-- The items have been passed to the account in the history. -/
def MergedIn (h : List (TransferEvent Item)) (items : List Item) : Prop :=
  ∃ e ∈ h, e.ret = .merged items

/-- A bundle that is kept stays kept. -/
theorem Kept.run {h : List (TransferEvent Item)} (htrace : Trace TransferStep before h after)
    (hexclusive : ∀ e ∈ h, Exclusive e) (hkept : Kept staged (MergedIn []) before) :
  Kept staged (MergedIn h) after
  := by
  induction htrace with
  | nil => exact hkept
  | @snoc h s op ret s' _ hstep ih =>
    have hbefore := ih fun e he => hexclusive e (mem_append_left _ he)
    apply hbefore.step hstep (hexclusive _ (by simp))
    · rintro items ⟨e, he, hitems⟩
      exact ⟨e, mem_append_left _ he, hitems⟩
    · intro items hitems
      exact ⟨_, mem_append_right _ (.head _), hitems⟩

theorem TransferTask.perform_committed
    (h : task.perform files call = some (.committed staged, files', task')) :
  task = .commitManifest staged ∧ task' = .settled ∧
    files' = { files with manifest := some ⟨true, staged.length, 0⟩ }
  := by
  cases call with
  | advance =>
    cases task with
    | clear reason stage =>
      obtain ⟨hret, _⟩ := Prod.mk.inj (some.inj h)
      cases hret
    | commitManifest staged => cases h; exact ⟨rfl, rfl, rfl⟩
    | mergeManifest =>
      simp only [perform, next] at h
      split at h
      · cases h
      · split at h <;> cases h
    | mergeNext manifest =>
      simp only [perform, next] at h
      split at h
      · split at h <;> cases h
      · cases h
    | _ => cases h
  | _ => cases task <;> cases h

/-- A bundle is in the files when it is committed. -/
theorem kept_of_commit (hstored : ∀ i, (before.tasks i).Stored before.files.chunk)
    (hstep : TransferStep before op (.committed staged) after)
    (hexclusive : Exclusive ⟨before, op, .committed staged, after⟩) :
  Kept staged (MergedIn []) after
  := by
  cases op with
  | stop =>
    obtain ⟨hret, _⟩ := Prod.mk.inj (some.inj hstep)
    cases hret
  | call i call =>
    obtain ⟨task, hperform, htasks⟩ := hstep.call_cases
    obtain ⟨htask, rfl, hfiles⟩ := perform_committed hperform
    have hi := hstored i
    rw [htask] at hi
    refine .inr ⟨?_, ⟨⟨true, staged.length, 0⟩, ?_, rfl, rfl, nofun⟩, fun j => ?_⟩
    · intro k items hitems
      rw [hfiles]
      exact .inl (hi k items hitems)
    · rw [hfiles]
    · rw [htasks]
      by_cases hj : j = i
      · subst hj
        rw [update_self]
        trivial
      · rw [update_of_ne hj]
        rcases hexclusive.alone i call rfl j hj with hquiet | ⟨_, hself, _⟩
        · cases hother : before.tasks j <;> simp [hother, TransferTask.Quiet] at hquiet <;> trivial
        · simp [htask, TransferTask.Quiet, TransferTask.Merging] at hself

end

/-- A bundle that has been committed is kept. As long as transfers have the files for themselves,
every chunk that it has staged is in its file or has been merged since. -/
theorem bundles_kept {Item : Type} {s₀ s : TransferState Item} {h h' : List (TransferEvent Item)}
    {e : TransferEvent Item} {staged : List (Option (List Item))}
    (htrace : Trace TransferStep s₀ (h ++ e :: h') s) (hidle : ∀ i, s₀.tasks i = .idle)
    (hexclusive : ∀ e' ∈ h ++ e :: h', Exclusive e') (hcommit : e.ret = .committed staged)
    {k : ℕ} {items : List Item} (hitems : staged[k]? = some (some items)) :
  s.files.chunk k = some items ∨ ∃ e' ∈ h', e'.ret = .merged items
  := by
  obtain ⟨hbefore, hstep, hafter⟩ := htrace.split_event
  have hstored : ∀ i, (e.before.tasks i).Stored e.before.files.chunk := by
    apply hbefore.invariant_of_forall (P := fun s => ∀ i, (s.tasks i).Stored s.files.chunk)
      (fun e' he' => hexclusive e' (mem_append_left _ he'))
    · intro i
      rw [hidle i]
      trivial
    · intro s op ret s' hstored hstep hevent
      exact stored_step hstep hevent hstored
  rw [hcommit] at hstep
  have hthis := hexclusive e (mem_append_right _ (.head _))
  have hkept : Kept staged (MergedIn []) e.after := by
    apply kept_of_commit hstored hstep
    rw [← hcommit]
    exact hthis
  have hend := hkept.run hafter fun e' he' =>
    hexclusive e' (mem_append_right _ (.tail _ he'))
  rcases hend with hall | hfiles
  · exact .inr (hall k items hitems)
  · exact hfiles.chunks k items hitems

/-! ### Two runs -/

namespace TransferSample

def start : TransferState String := ⟨⟨none, fun _ => none⟩, fun _ => .idle⟩

/-- A transfer of one chunk, up to the manifest of the complete bundle. -/
def transfer : List (TransferCall String) :=
  [.begin, .advance, .advance, .advance, .stage ["profile"], .advance, .advance, .commit]

def stagedAll : List (TransferOp String) := transfer.map (.call 0)

/-- The transfer ends, and its bundle is merged. -/
def mergedAll : List (TransferOp String) :=
  [.drop, .merge, .advance, .advance, .advance, .advance].map (.call 0)

/-- A transfer begins and is dropped, and another one stages its items. -/
def stagedAfterDrop : List (TransferOp String) :=
  [.begin, .advance, .advance, .advance, .drop].map (.call 0) ++ transfer.map (.call 1)

/-- The files are cleared for the transfer that was dropped. -/
def cleared : List (TransferOp String) := [.advance, .advance].map (.call 0)

/-- The state after the first operations. -/
def beforeCommit (first : List (TransferOp String)) : TransferState String :=
  (Trace.replay TransferState.perform start first).2

def mergedNothing (e : TransferEvent String) : Bool :=
  match e.ret with
  | .merged _ => false
  | _ => true

/-- The files are not cleared while they hold a complete bundle. -/
def clearsNothing (e : TransferEvent String) : Bool :=
  match e.op, e.before.tasks 0 with
  | .call 0 .advance, .clear _ .readManifest => e.before.files.manifest.all (! ·.complete)
  | _, _ => true

/-- A single task has the files for itself. -/
theorem exclusive_of_single {s₀ s : TransferState String} {h : List (TransferEvent String)}
    (htrace : Trace TransferStep s₀ h s) (hidle : ∀ i, s₀.tasks i = .idle)
    (hop : ∀ e ∈ h, ∃ call, e.op = .call 0 call) (hclears : h.all clearsNothing) :
  ∀ e ∈ h, Exclusive e
  := by
  intro e he
  obtain ⟨call, hcall⟩ := hop e he
  obtain ⟨h₁, h₂, rfl⟩ := append_of_mem he
  obtain ⟨hbefore, _, _⟩ := htrace.split_event
  have hothers : ∀ j, j ≠ 0 → e.before.tasks j = .idle := by
    apply hbefore.invariant_of_forall (P := fun s => ∀ j, j ≠ 0 → s.tasks j = .idle)
      (C := fun e => ∃ call, e.op = .call 0 call)
      (fun e' he' => hop e' (mem_append_left _ he'))
    · intro j _
      exact hidle j
    · rintro s _ ret s' hidle hstep ⟨call, rfl⟩ j hj
      obtain ⟨task, _, htasks⟩ := hstep.call_cases
      rw [htasks, update_of_ne hj]
      exact hidle j hj
  constructor
  · intro i call' hi j hj
    obtain ⟨rfl, _⟩ := TransferOp.call.inj (hcall.symm.trans hi)
    rw [hothers j hj]
    exact .inl trivial
  · intro i reason hi htask manifest hmanifest
    obtain ⟨rfl, _⟩ := TransferOp.call.inj (hcall.symm.trans hi)
    have hclear := all_eq_true.mp hclears e he
    simpa [clearsNothing, hi, htask, hmanifest] using hclear

end TransferSample

open TransferSample in
/-- The bundle of a transfer is discarded for one that was dropped before. -/
theorem exists_discarded_bundle :
  ∃ h h' e s, Trace TransferStep start (h ++ e :: h') s ∧
    e.ret = .committed [some ["profile"]] ∧ s.files.chunk 0 = none ∧
    ∀ e' ∈ h', ∀ items, e'.ret ≠ .merged items
  := by
  have hcommit : ∃ after, (beforeCommit stagedAfterDrop).perform (.call 1 .advance) =
      some (.committed [some ["profile"]], after) ∧
      (replay TransferState.perform after cleared).2.files.chunk 0 = none ∧
      (replay TransferState.perform after cleared).1.all mergedNothing :=
    ⟨_, rfl, by decide, by decide⟩
  obtain ⟨after, hcommit, hchunk, hmerged⟩ := hcommit
  refine ⟨_, _, _, _, of_replay_cons (fun _ _ _ _ h => h) hcommit, rfl, hchunk, ?_⟩
  intro e' he' items hitems
  have hnothing := all_eq_true.mp hmerged e' he'
  simp [mergedNothing, hitems] at hnothing

open TransferSample in
theorem bundles_kept_profile :
  ∃ h h' e s, Trace TransferStep start (h ++ e :: h') s ∧
    e.ret = .committed [some ["profile"]] ∧ (∀ e' ∈ h ++ e :: h', Exclusive e') ∧
    (s.files.chunk 0 = some ["profile"] ∨ ∃ e' ∈ h', e'.ret = .merged ["profile"])
  := by
  have hcommit : ∃ after, (beforeCommit stagedAll).perform (.call 0 .advance) =
      some (.committed [some ["profile"]], after) ∧
      ((replay TransferState.perform start stagedAll).1 ++
        ⟨beforeCommit stagedAll, .call 0 .advance, .committed [some ["profile"]], after⟩ ::
          (replay TransferState.perform after mergedAll).1).all clearsNothing :=
    ⟨_, rfl, by decide⟩
  obtain ⟨after, hcommit, hclears⟩ := hcommit
  have htrace : Trace TransferStep start
      ((replay TransferState.perform start stagedAll).1 ++
        ⟨beforeCommit stagedAll, .call 0 .advance, .committed [some ["profile"]], after⟩ ::
          (replay TransferState.perform after mergedAll).1)
      (replay TransferState.perform after mergedAll).2 :=
    of_replay_cons (fun _ _ _ _ h => h) hcommit
  have hexclusive := exclusive_of_single htrace (fun _ => rfl) ?_ hclears
  · exact ⟨_, _, _, _, htrace, rfl, hexclusive, bundles_kept (k := 0) (e := _) htrace
      (fun _ => rfl) hexclusive rfl rfl⟩
  · intro e he
    rcases mem_append.mp he with he | he
    · have hop := op_mem_of_mem_replay he
      obtain ⟨call, _, hcall⟩ := mem_map.mp hop
      exact ⟨call, hcall.symm⟩
    · cases he with
      | head => exact ⟨_, rfl⟩
      | tail _ he =>
        have hop := op_mem_of_mem_replay he
        obtain ⟨call, _, hcall⟩ := mem_map.mp hop
        exact ⟨call, hcall.symm⟩

end Kukuri
