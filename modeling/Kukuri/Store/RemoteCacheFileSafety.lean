import Kukuri.Store.RemoteCacheTasks

/-!
# The files of the remote cache

The main result, `rows_keep_files`, is about the runs in which no removal overlaps the writing of
the same file: every row has its file in every state, and the file of an own blob is there as long
as the reference of the blob. `exists_row_without_file` shows that such an overlap loses the file of
an own blob.
-/

namespace Kukuri

open Result Ledger Eviction List Option BTreeMap Trace FileStore FileTask

theorem FileJob.eq_of_not_gated {job : FileJob} (h : job.gated = false) :
  ∃ kind key, job = .removeRemoteContent kind key
  := by
  cases job with
  | removeRemoteContent kind key => exact ⟨kind, key, rfl⟩
  | putRemoteBlobFile | putBlob | addProtectedRef | updateRefs | releaseRefs | reclaim
  | forgetAdult => cases h

namespace FileTask

/-- The file is linked, and its row is not written yet. -/
def writes (task : FileTask) (name : String) : Bool :=
  match task.job, task.stage with
  | .putRemoteBlobFile hash _, .linked _ => hash = name
  | _, _ => false

/-- A removal has deleted the row, and the file is not unlinked yet. -/
def removes (task : FileTask) (name : String) : Bool :=
  match task.job, task.stage with
  | .removeRemoteContent .., .unlinking names _ => name ∈ names
  | _, _ => false

theorem writes_iff {task : FileTask} {name : String} :
  task.writes name = true ↔
    ∃ length created, task.job = .putRemoteBlobFile name length ∧ task.stage = .linked created
  := by
  unfold writes
  split
  case h_1 hash length created hjob hstage =>
    simp [hjob, hstage]
  case h_2 hnot =>
    simp only [Bool.false_eq_true, false_iff]
    rintro ⟨length, created, hjob, hstage⟩
    exact hnot name length created hjob hstage

theorem removes_of_not_gated {task : FileTask} {names : List String} {stored : Bool}
    (hjob : task.job.gated = false) (hstage : task.stage = .unlinking names stored)
    (name : String) :
  task.removes name = decide (name ∈ names)
  := by
  obtain ⟨kind, key, hremove⟩ := FileJob.eq_of_not_gated hjob
  simp [removes, hremove, hstage]

theorem writes_of_stage {task : FileTask} (h : ∀ created, task.stage ≠ .linked created)
    (name : String) :
  task.writes name = false
  := by
  rw [← Bool.not_eq_true, writes_iff]
  rintro ⟨length, created, -, hstage⟩
  exact h created hstage

end FileTask

/-- A step does not make a removal overlap the writing of the same file: a file is linked only when
no removal is going to unlink it, and a removal commits only when the file is not linked for a row
that is still to be written. -/
def FileStore.apart (state : FileStore) : FileOp → Bool
  | .link t =>
    match state.tasks[t]?.map FileTask.job with
    | some (.putRemoteBlobFile hash _) =>
      state.tasks.toList.all fun item => !item.2.removes hash
    | _ => true
  | .commit t _ =>
    match state.tasks[t]?.map FileTask.job with
    | some (.removeRemoteContent _ key) =>
      state.tasks.toList.all fun item => !item.2.writes key
    | _ => true
  | _ => true

/-! ### The invariant -/

/-- What holds of a task. -/
structure TaskSound (state : FileStore) (t : ℕ) (task : FileTask) : Prop where
  jobs : task.job :: task.rest <:+ task.operation.jobs.1 :: task.operation.jobs.2
  consistent : ∀ job ∈ task.job :: task.rest, job.Consistent
  gate : task.job.gated = true → task.stage ≠ .waiting → state.gate = some t
  linked : ∀ hash length created, task.job = .putRemoteBlobFile hash length →
    task.stage = .linked created →
    hash ∈ state.files ∧ (created = true → ¬ HasFile state.store.cache.rows hash)
  undoing : ∀ hash length, task.job = .putRemoteBlobFile hash length → task.stage = .undoing →
    ¬ HasFile state.store.cache.rows hash
  unlinking : ∀ names stored, task.stage = .unlinking names stored → ∀ name ∈ names,
    ¬ HasFile state.store.cache.rows name ∧
      ∀ (u : ℕ) (other : FileTask), state.tasks[u]? = some other → other.writes name = false

/-- The invariant of the runs in which nothing overlaps. -/
structure FileSound (state : FileStore) : Prop where
  accounts : state.store.Accounts
  named : Named state.store.cache.rows
  present : ∀ name, HasFile state.store.cache.rows name → name ∈ state.files
  tasks : ∀ (t : ℕ) (task : FileTask), state.tasks[t]? = some task → TaskSound state t task

theorem fileSound_empty :
  FileSound .empty
  := by
  refine ⟨accounts_empty, ?_, ?_, ?_⟩
  · intro key row name hrow
    simp [FileStore.empty, CacheStore.empty, Ledger.empty] at hrow
  · rintro name ⟨row, hrow, -⟩
    simp [FileStore.empty, CacheStore.empty, Ledger.empty] at hrow
  · intro t task htask
    simp [FileStore.empty] at htask

section

variable {state state' : FileStore} {t u : ℕ} {task task' : FileTask} {op : FileOp}
  {ret : FileReturn} {h : List (Event FileStore FileOp FileReturn)} {operation : FileOperation}
  {name hash reference : String} {names : List String} {stored : Bool} {bytes : Bytes}

/-- A task that puts a blob file holds the gate. -/
theorem TaskSound.gate_of_put (h : TaskSound state t task) {length : ℕ} {stage : FileStage}
    (hjob : task.job = .putRemoteBlobFile hash length) (hstage : task.stage = stage)
    (hactive : stage ≠ .waiting) :
  state.gate = some t
  := by
  apply h.gate
  · rw [hjob]
    rfl
  · rw [hstage]
    exact hactive

/-- A task that writes a file holds the gate. -/
theorem TaskSound.gate_of_writes (h : TaskSound state t task) (hwrites : task.writes name = true) :
  state.gate = some t
  := by
  obtain ⟨length, created, hjob, hstage⟩ := writes_iff.mp hwrites
  exact h.gate_of_put hjob hstage nofun

/-- The step of one task leaves the others sound. -/
theorem FileSound.others (h : FileSound state) (state' : FileStore) (t : ℕ)
    (htasks : ∀ u ≠ t, state'.tasks[u]? = state.tasks[u]?)
    (hgate : ∀ u ≠ t, state.gate = some u → state'.gate = some u)
    (hrows : ∀ name, HasFile state'.store.cache.rows name → HasFile state.store.cache.rows name ∨
      ∃ task, state.tasks[t]? = some task ∧ task.writes name = true)
    (hfiles : ∀ u ≠ t, ∀ other, state.tasks[u]? = some other → ∀ name, other.writes name = true →
      name ∈ state.files → name ∈ state'.files)
    (hwrites : ∀ u ≠ t, ∀ other, state.tasks[u]? = some other → ∀ names stored,
      other.stage = .unlinking names stored → ∀ name ∈ names, ∀ task, state'.tasks[t]? = some task →
      task.writes name = false) :
  ∀ u ≠ t, ∀ other, state'.tasks[u]? = some other → TaskSound state' u other
  := by
  intro u hne other hother
  rw [htasks u hne] at hother
  have hsound := h.tasks u other hother
  -- A row is written only by a task that holds the gate.
  have hkept : ∀ {name}, ¬ HasFile state.store.cache.rows name → state.gate = some u →
      ¬ HasFile state'.store.cache.rows name := by
    intro name hnot hheld hfile
    rcases hrows name hfile with hbefore | ⟨task, htask, hwrites⟩
    · exact hnot hbefore
    · have hgate' := (h.tasks t task htask).gate_of_writes hwrites
      rw [hheld] at hgate'
      exact hne (some.inj hgate')
  refine ⟨hsound.jobs, hsound.consistent, ?_, ?_, ?_, ?_⟩
  · intro hgated hstage
    exact hgate u hne (hsound.gate hgated hstage)
  · intro hash length created hjob hstage
    have hwrite : other.writes hash = true :=
      writes_iff.mpr ⟨length, created, hjob, hstage⟩
    obtain ⟨hfile, hnone⟩ := hsound.linked hash length created hjob hstage
    exact ⟨hfiles u hne other hother hash hwrite hfile, fun hcreated =>
      hkept (hnone hcreated) (hsound.gate_of_writes hwrite)⟩
  · intro hash length hjob hstage
    exact hkept (hsound.undoing hash length hjob hstage) (hsound.gate_of_put hjob hstage nofun)
  · intro names stored hstage name hname
    obtain ⟨hnone, hothers⟩ := hsound.unlinking names stored hstage name hname
    constructor
    · intro hfile
      rcases hrows name hfile with hbefore | ⟨task, htask, hwrites⟩
      · exact hnone hbefore
      · rw [hothers t task htask] at hwrites
        cases hwrites
    · intro v task htask
      by_cases hv : v = t
      · subst hv
        exact hwrites u hne other hother names stored hstage name hname task htask
      · rw [htasks v hv] at htask
        exact hothers v task htask

/-! ### The tasks after a step -/

theorem tasks_put_self (state : FileStore) (t : ℕ) (task : FileTask) :
  (state.put t task).tasks[t]? = some task
  := Std.ExtTreeMap.getElem?_insert_self

theorem tasks_put_of_ne (state : FileStore) (task : FileTask) (h : u ≠ t) :
  (state.put t task).tasks[u]? = state.tasks[u]?
  := getElem?_insert_of_ne h.symm

theorem tasks_returned_self (state : FileStore) (t : ℕ) (task : FileTask) (ok : Bool) :
  (state.returned t task ok).2.tasks[t]? = none
  := Std.ExtTreeMap.getElem?_erase_self

theorem tasks_returned_of_ne (state : FileStore) (task : FileTask) (ok : Bool) (h : u ≠ t) :
  (state.returned t task ok).2.tasks[u]? = state.tasks[u]?
  := getElem?_erase_of_ne h.symm

theorem gate_leave_of_ne (h : u ≠ t) (hgate : state.gate = some u) :
  (state.leave t).gate = some u
  := by
  have hnot : state.gate ≠ some t := by
    rw [hgate]
    intro heq
    exact h (some.inj heq)
  exact (if_neg hnot).trans hgate

/-- A task that leaves the store and the files as they are, and links no file. -/
theorem FileSound.restage (h : FileSound state) (state' : FileStore) (t : ℕ)
    (hstore : state'.store = state.store) (hfiles : state'.files = state.files)
    (htasks : ∀ u ≠ t, state'.tasks[u]? = state.tasks[u]?)
    (hgate : ∀ u ≠ t, state.gate = some u → state'.gate = some u)
    (hown : ∀ task, state'.tasks[t]? = some task →
      TaskSound state' t task ∧ ∀ created, task.stage ≠ .linked created) :
  FileSound state'
  := by
  refine ⟨?_, ?_, ?_, ?_⟩
  · rw [hstore]
    exact h.accounts
  · rw [hstore]
    exact h.named
  · rw [hstore, hfiles]
    exact h.present
  · intro u task htask
    by_cases hu : u = t
    · subst hu
      exact (hown task htask).1
    · apply h.others state' t htasks hgate _ _ _ u hu task htask
      · rw [hstore]
        exact fun _ => .inl
      · rw [hfiles]
        exact fun _ _ _ _ _ _ => id
      · intro _ _ _ _ _ _ _ name _ task htask
        exact task.writes_of_stage (hown task htask).2 name

/-- An operation that returns without a change. -/
theorem FileSound.returned (h : FileSound state) (task : FileTask) (ok : Bool) :
  FileSound (state.returned t task ok).2
  := by
  refine h.restage _ t rfl rfl (fun u => tasks_returned_of_ne state task ok)
    (fun u => gate_leave_of_ne) ?_
  intro task' htask'
  rw [tasks_returned_self] at htask'
  cases htask'

theorem consistent_of_mem_jobs (h : operation.jobs.1.Consistent) :
  ∀ job ∈ operation.jobs.1 :: operation.jobs.2, job.Consistent
  := by
  intro job hjob
  rcases mem_cons.mp hjob with rfl | hrest
  · exact h
  · cases operation with
    | putOwnedBlob reference hash bytes =>
      rw [mem_singleton.mp hrest]
      split <;> trivial
    | removeCachedMedia hash poster =>
      obtain ⟨key, -, rfl⟩ := mem_map.mp hrest
      trivial
    | putRemoteBlobFile | removeRemoteContent | updateProtectedRefs | releaseRetainedRefs
    | reclaimRemoteCacheStep | forgetAdultRemoteBlobsStep => cases hrest

/-- A file is linked that no removal is going to unlink. -/
theorem FileSound.link (h : FileSound state) {length : ℕ} (htask : state.tasks[t]? = some task)
    (hstage : task.stage = .entered) (hjob : task.job = .putRemoteBlobFile hash length)
    (hapart : ∀ (u : ℕ) (other : FileTask), state.tasks[u]? = some other →
      other.removes hash = false) :
  FileSound ({ state with files := state.files.insert hash }.put t
    { task with stage := .linked (hash ∉ state.files) })
  := by
  have hsound := h.tasks t task htask
  have hgate : state.gate = some t := hsound.gate_of_put hjob hstage nofun
  have hinsert : ∀ {name}, name ∈ state.files → name ∈ state.files.insert hash := by
    intro name hname
    exact Std.ExtTreeSet.mem_insert.mpr (.inr hname)
  refine ⟨h.accounts, h.named, fun name hfile => hinsert (h.present name hfile), ?_⟩
  intro u other hother
  rcases getElem?_of_insert hother with ⟨rfl, rfl⟩ | ⟨hu, -⟩
  · refine ⟨hsound.jobs, hsound.consistent, fun _ _ => hgate, ?_, nofun, nofun⟩
    intro hash' length' created hjob' hlinked
    cases hjob.symm.trans hjob'
    cases hlinked
    refine ⟨Std.ExtTreeSet.mem_insert_self, fun hcreated hfile => ?_⟩
    exact of_decide_eq_true hcreated (h.present hash hfile)
  · refine h.others _ t ?_ ?_ ?_ ?_ ?_ u hu.symm other hother
    · exact fun u => tasks_put_of_ne _ _
    · exact fun _ _ => id
    · exact fun _ => .inl
    · exact fun _ _ _ _ _ _ => hinsert
    · -- What is unlinked under the gate is unlinked before the file is linked.
      intro v hv other' hother' names stored hunlinking name hname task' htask'
      rw [tasks_put_self] at htask'
      cases htask'
      rw [← Bool.not_eq_true, writes_iff]
      rintro ⟨length', created, hjob', -⟩
      cases hjob.symm.trans hjob'
      have hheld := (h.tasks v other' hother').gate
      rw [hunlinking] at hheld
      cases hremoves : other'.job.gated with
      | true =>
        have hboth := hgate.symm.trans (hheld hremoves nofun)
        exact hv (some.inj hboth).symm
      | false =>
        have hnone := hapart v other' hother'
        rw [removes_of_not_gated hremoves hunlinking] at hnone
        simp [hname] at hnone

/-- A transaction commits, when no file that it removes is linked for another row. -/
theorem FileSound.commit (h : FileSound state) {created : Bool} {choice : FileChoice}
    {store : CacheStore} (htask : state.tasks[t]? = some task)
    (hready : task.ready = some created)
    (hcommit : task.job.transact state.store choice = some (.ok (stored, store, names)))
    (hapart : ∀ kind key, task.job = .removeRemoteContent kind key →
      ∀ (u : ℕ) (other : FileTask), state.tasks[u]? = some other → other.writes key = false) :
  FileSound
    ({ state with store := store }.put t { task with stage := .unlinking names stored })
  := by
  have hsound := h.tasks t task htask
  have htransacted := transacted_of_transact h.accounts h.named
    (hsound.consistent task.job (by simp)) hcommit
  have heffect := htransacted.effect
  have hactive : task.stage ≠ .waiting := by
    rcases ready_eq_some hready with ⟨_, _, _, hstage⟩ | ⟨_, hstage, _⟩ <;> rw [hstage] <;> nofun
  -- The file of the row that is written is linked.
  have hrows : ∀ name, HasFile store.cache.rows name → HasFile state.store.cache.rows name ∨
      ∃ task, state.tasks[t]? = some task ∧ task.writes name = true := by
    intro name hfile
    rcases heffect.before name hfile with hbefore | hwrite
    · exact .inl hbefore
    · right
      refine ⟨task, htask, ?_⟩
      generalize hjob : task.job = current at hwrite
      cases current with
      | putRemoteBlobFile hash length =>
        cases hwrite
        rcases ready_eq_some hready with ⟨hash', length', hjob', hstage⟩ | ⟨hnot, -, -⟩
        · exact writes_iff.mpr ⟨length, created, hjob, hstage⟩
        · exact absurd hjob (hnot _ _)
      | putBlob | addProtectedRef | updateRefs | releaseRefs | reclaim | forgetAdult
      | removeRemoteContent =>
        cases hwrite
  refine ⟨htransacted.accounts, heffect.named, ?_, ?_⟩
  · intro name hfile
    rcases hrows name hfile with hbefore | ⟨task', htask', hwrites⟩
    · exact h.present name hbefore
    · obtain ⟨length, created', hjob, hstage⟩ := writes_iff.mp hwrites
      exact ((h.tasks t task' htask').linked name length created' hjob hstage).1
  · intro u other hother
    rcases getElem?_of_insert hother with ⟨rfl, rfl⟩ | ⟨hu, -⟩
    · refine ⟨hsound.jobs, hsound.consistent, fun hgated _ => hsound.gate hgated hactive, nofun,
        nofun, ?_⟩
      rintro names' stored' ⟨⟩ name hname
      refine ⟨(heffect.removed name hname).2, ?_⟩
      intro v other' hother'
      rcases getElem?_of_insert hother' with ⟨-, rfl⟩ | ⟨hv, hbefore⟩
      · exact writes_of_stage (by rintro created ⟨⟩) name
      · rw [← Bool.not_eq_true]
        intro hwrites
        cases hgated : task.job.gated with
        | true =>
          have hheld := (h.tasks v other' hbefore).gate_of_writes hwrites
          exact hv (some.inj ((hsound.gate hgated hactive).symm.trans hheld))
        | false =>
          obtain ⟨kind, key, hjob⟩ := FileJob.eq_of_not_gated hgated
          rw [hjob] at hcommit
          cases hcommit
          cases eq_of_mem_removeRemoteContent h.named hname
          rw [hapart kind _ hjob v other' hbefore] at hwrites
          cases hwrites
    · refine h.others _ t ?_ ?_ hrows ?_ ?_ u hu.symm other hother
      · exact fun u => tasks_put_of_ne _ _
      · exact fun _ _ => id
      · exact fun _ _ _ _ _ _ => id
      · intro _ _ _ _ _ _ _ name _ task' htask'
        rw [tasks_put_self] at htask'
        cases htask'
        exact writes_of_stage (by rintro created ⟨⟩) name

/-- A file is unlinked that no row has. -/
theorem FileSound.unlink (h : FileSound state) (htask : state.tasks[t]? = some task)
    (hstage : task.stage = .unlinking (name :: names) stored) :
  FileSound ({ state with files := state.files.erase name }.put t
    { task with stage := .unlinking names stored })
  := by
  have hsound := h.tasks t task htask
  obtain ⟨hnone, hothers⟩ := hsound.unlinking _ _ hstage name (by simp)
  have herase : ∀ {name'}, name' ≠ name → name' ∈ state.files → name' ∈ state.files.erase name := by
    intro name' hne hmem
    refine Std.ExtTreeSet.mem_erase.mpr ⟨fun heq => ?_, hmem⟩
    exact hne (compare_eq_iff_eq.mp heq).symm
  refine ⟨h.accounts, h.named, ?_, ?_⟩
  · intro name' hfile
    apply herase _ (h.present name' hfile)
    rintro rfl
    exact hnone hfile
  · intro u other hother
    rcases getElem?_of_insert hother with ⟨rfl, rfl⟩ | ⟨hu, -⟩
    · refine ⟨hsound.jobs, hsound.consistent, fun hgated _ => hsound.gate hgated ?_, nofun, nofun,
        ?_⟩
      · rw [hstage]
        nofun
      · rintro names' stored' ⟨⟩ name' hname'
        obtain ⟨hnone', hothers'⟩ := hsound.unlinking _ _ hstage name' (.tail _ hname')
        refine ⟨hnone', fun v other' hother' => ?_⟩
        rcases getElem?_of_insert hother' with ⟨-, rfl⟩ | ⟨-, hother'⟩
        · exact writes_of_stage (by rintro created ⟨⟩) name'
        · exact hothers' v other' hother'
    · refine h.others _ t ?_ ?_ ?_ ?_ ?_ u hu.symm other hother
      · exact fun u => tasks_put_of_ne _ _
      · exact fun _ _ => id
      · exact fun _ => .inl
      · intro v _ other' hother' name' hwrites hmem
        apply herase _ hmem
        rintro rfl
        rw [hothers v other' hother'] at hwrites
        cases hwrites
      · intro _ _ _ _ _ _ _ name' _ task' htask'
        rw [tasks_put_self] at htask'
        cases htask'
        exact writes_of_stage (by rintro created ⟨⟩) name'

/-- A file that was created for a row that could not be written is unlinked. -/
theorem FileSound.undo (h : FileSound state) {length : ℕ} (htask : state.tasks[t]? = some task)
    (hstage : task.stage = .undoing) (hjob : task.job = .putRemoteBlobFile hash length) :
  FileSound { state with files := state.files.erase hash }
  := by
  have hsound := h.tasks t task htask
  have hgate : state.gate = some t := hsound.gate_of_put hjob hstage nofun
  have hnone := hsound.undoing hash length hjob hstage
  refine ⟨h.accounts, h.named, ?_, ?_⟩
  · intro name hfile
    refine Std.ExtTreeSet.mem_erase.mpr ⟨fun heq => ?_, h.present name hfile⟩
    cases compare_eq_iff_eq.mp heq
    exact hnone hfile
  · intro u other hother
    have hother' := h.tasks u other hother
    refine { hother' with linked := ?_ }
    -- The task that undoes holds the gate, so no other has linked a file.
    intro hash' length' created hjob' hstage'
    have hheld := hother'.gate_of_writes
      (writes_iff.mpr ⟨length', created, hjob', hstage'⟩)
    cases hheld.symm.trans hgate
    cases htask.symm.trans hother
    rw [hstage] at hstage'
    cases hstage'

/-- A step that makes nothing overlap keeps the invariant. -/
theorem FileSound.step (h : FileSound state) (hstep : FileStep state op ret state')
    (hapart : state.apart op = true) :
  FileSound state'
  := by
  cases fileMove_of_step hstep with
  | @start t operation hnew hconsistent =>
    refine h.restage _ t rfl rfl (fun u => tasks_put_of_ne _ _) (fun _ _ => id) ?_
    intro task htask
    rw [tasks_put_self] at htask
    cases htask
    exact ⟨⟨suffix_rfl, consistent_of_mem_jobs hconsistent, nofun, nofun, nofun, nofun⟩, nofun⟩
  | refuse | abort | done => exact h.returned ..
  | @enter t task gate htask hstage hgate =>
    have hsound := h.tasks t task htask
    refine h.restage _ t rfl rfl (fun u => tasks_put_of_ne _ _) ?_ ?_
    · intro u hu hheld
      show gate = some u
      split at hgate
      case isTrue =>
        rw [hgate.1] at hheld
        cases hheld
      case isFalse => exact hgate.trans hheld
    · intro task' htask'
      rw [tasks_put_self] at htask'
      cases htask'
      refine ⟨⟨hsound.jobs, hsound.consistent, ?_, nofun, nofun, nofun⟩, nofun⟩
      intro hgated _
      rw [if_pos hgated] at hgate
      exact hgate.2
  | @link t task hash length htask hstage hjob =>
    apply h.link htask hstage hjob
    simp only [apart, htask, Option.map_some, hjob, List.all_eq_true, Bool.not_eq_true'] at hapart
    intro u other hother
    exact hapart (u, other) (BTreeMap.mem_toList.mpr hother)
  | @commit t task created choice stored store names htask hready hcommit =>
    apply h.commit htask hready hcommit
    intro kind key hjob u other hother
    simp only [apart, htask, Option.map_some, hjob, List.all_eq_true, Bool.not_eq_true'] at hapart
    exact hapart (u, other) (BTreeMap.mem_toList.mpr hother)
  | @fail t task choice htask hready =>
    have hsound := h.tasks t task htask
    refine h.restage _ t rfl rfl (fun u => tasks_put_of_ne _ _) (fun _ _ => id) ?_
    intro task' htask'
    rw [tasks_put_self] at htask'
    cases htask'
    obtain ⟨hash, length, hjob, hstage⟩ : ∃ hash length,
        task.job = .putRemoteBlobFile hash length ∧ task.stage = .linked true := by
      rcases ready_eq_some hready with hlinked | ⟨-, -, hcreated⟩
      · exact hlinked
      · cases hcreated
    refine ⟨⟨hsound.jobs, hsound.consistent, ?_, nofun, ?_, nofun⟩, nofun⟩
    · intro hgated _
      exact hsound.gate hgated (by rw [hstage]; nofun)
    · intro hash' length' hjob' _
      exact (hsound.linked hash' length' true hjob' hstage).2 rfl
  | unlink htask hstage => exact h.unlink htask hstage
  | undo htask hstage hjob => exact (h.undo htask hstage hjob).returned ..
  | @next t task job rest htask hstage hrest =>
    have hsound := h.tasks t task htask
    refine h.restage _ t rfl rfl (fun u => tasks_put_of_ne _ _) (fun _ => gate_leave_of_ne) ?_
    intro task' htask'
    rw [tasks_put_self] at htask'
    cases htask'
    have hjobs := hsound.jobs
    have hconsistent := hsound.consistent
    rw [hrest] at hjobs hconsistent
    refine ⟨⟨(suffix_cons _ _).trans hjobs, ?_, nofun, nofun, nofun, nofun⟩, nofun⟩
    exact fun job' hjob' => hconsistent job' (.tail _ hjob')

/-! ### Own blobs -/

/-- A step keeps the file of a row that keeps a reference, unless it stores the blob in its row. -/
theorem FileSound.kept (h : FileSound state) (hstep : FileStep state op ret state')
    (href : toLex (blobKey name, reference) ∈ state.store.cache.refs)
    (href' : toLex (blobKey name, reference) ∈ state'.store.cache.refs)
    (hinline : ∀ (t : ℕ) (task : FileTask) (choice : FileChoice) (bytes : Bytes),
      op = .commit t choice → state.tasks[t]? = some task → task.job ≠ .putBlob name bytes)
    (hfile : HasFile state.store.cache.rows name) :
  HasFile state'.store.cache.rows name
  := by
  cases fileMove_of_step hstep with
  | @commit t task created choice stored store names htask hready hcommit =>
    have hconsistent := (h.tasks t task htask).consistent task.job (by simp)
    have htransacted := transacted_of_transact h.accounts h.named hconsistent hcommit
    apply htransacted.effect.kept name reference href href' hfile
    intro hwrite
    generalize hjob : task.job = current at hwrite
    cases current with
    | putBlob hash bytes =>
      cases hwrite
      exact hinline t task choice bytes rfl htask hjob
    | putRemoteBlobFile | addProtectedRef | updateRefs | releaseRefs | reclaim | forgetAdult
    | removeRemoteContent =>
      cases hwrite
  | start | refuse | enter | link | fail | abort | unlink | undo | next | done => exact hfile

/-- The jobs of an operation that store a blob. -/
theorem putOwnedBlob_of_putBlob (h : .putBlob hash bytes ∈ operation.jobs.1 :: operation.jobs.2) :
  ∃ reference, operation = .putOwnedBlob reference hash bytes ∧
    bytes.length ≤ ownedInlineBlobBytes
  := by
  cases operation with
  | putOwnedBlob reference hash' bytes' =>
    simp only [FileOperation.jobs, mem_cons, reduceCtorEq, not_mem_nil, or_false, false_or] at h
    split at h
    case isTrue hlength =>
      cases h
      exact ⟨reference, rfl, hlength⟩
    case isFalse => cases h
  | removeCachedMedia hash' poster =>
    simp [FileOperation.jobs] at h
  | putRemoteBlobFile | removeRemoteContent | updateProtectedRefs | releaseRetainedRefs
  | reclaimRemoteCacheStep | forgetAdultRemoteBlobsStep =>
    simp [FileOperation.jobs] at h

/-- The event commits the row of a blob file for an operation. -/
def StoresFile (e : Event FileStore FileOp FileReturn) (operation : FileOperation)
    (hash : String) : Prop :=
  ∃ t choice task length, e.op = .commit t choice ∧ e.before.tasks[t]? = some task ∧
    task.operation = operation ∧ task.job = .putRemoteBlobFile hash length ∧
    HasFile e.after.store.cache.rows hash

/-- The history of the tasks: each was started, and one that unlinks files after the row of a blob
file was written has committed it. -/
structure FileHistory (h : List (Event FileStore FileOp FileReturn)) (state : FileStore) :
    Prop where
  started : ∀ (t : ℕ) (task : FileTask), state.tasks[t]? = some task →
    ∃ e ∈ h, e.op = .start t task.operation
  stored : ∀ (t : ℕ) (task : FileTask), state.tasks[t]? = some task → ∀ hash length names stored,
    task.job = .putRemoteBlobFile hash length → task.stage = .unlinking names stored →
    ∃ h₀ c h₁, h = h₀ ++ c :: h₁ ∧ StoresFile c task.operation hash

/-- Where a task comes from that is there after a step. -/
inductive TaskOrigin (state : FileStore) (op : FileOp) (store : CacheStore) (u : ℕ)
    (task' : FileTask) : Prop
  | started (hop : op = .start u task'.operation) (hstage : task'.stage = .waiting)
  | moved {task : FileTask} (htask : state.tasks[u]? = some task)
      (hoperation : task.operation = task'.operation)
      (hstage : ∀ names stored, task'.stage = .unlinking names stored →
        task.job = task'.job ∧ ∃ names', task.stage = .unlinking names' stored)
  | committed {task : FileTask} {choice : FileChoice} {stored : Bool} {names : List String}
      (htask : state.tasks[u]? = some task) (hoperation : task.operation = task'.operation)
      (hjob : task.job = task'.job) (hop : op = .commit u choice)
      (hcommit : task.job.transact state.store choice = some (.ok (stored, store, names)))

theorem taskOrigin_of_step (hstep : FileStep state op ret state')
    (htask' : state'.tasks[u]? = some task') :
  TaskOrigin state op state'.store u task'
  := by
  have hsame : state.tasks[u]? = some task' → TaskOrigin state op state'.store u task' := by
    intro htask
    exact .moved htask rfl fun names stored hstage => ⟨rfl, names, hstage⟩
  -- A step that returns drops its task, and every other step sets one.
  cases fileMove_of_step hstep with
  | start =>
    rcases getElem?_of_insert htask' with ⟨rfl, rfl⟩ | ⟨-, htask⟩
    · exact .started rfl rfl
    · exact hsame htask
  | enter htask₀ | link htask₀ | fail htask₀ | next htask₀ =>
    rcases getElem?_of_insert htask' with ⟨rfl, rfl⟩ | ⟨-, htask⟩
    · exact .moved htask₀ rfl nofun
    · exact hsame htask
  | commit htask₀ hready hcommit =>
    rcases getElem?_of_insert htask' with ⟨rfl, rfl⟩ | ⟨-, htask⟩
    · exact .committed htask₀ rfl rfl rfl hcommit
    · exact hsame htask
  | @unlink t task name names stored htask₀ hstage =>
    rcases getElem?_of_insert htask' with ⟨rfl, rfl⟩ | ⟨-, htask⟩
    · refine .moved htask₀ rfl fun names' stored' hstage' => ?_
      cases hstage'
      exact ⟨rfl, _, hstage⟩
    · exact hsame htask
  | refuse | abort | undo | done => exact hsame (getElem?_of_erase htask')

theorem FileHistory.step (hhistory : FileHistory h state) (hsound : FileSound state)
    (hstep : FileStep state op ret state') :
  FileHistory (h ++ [⟨state, op, ret, state'⟩]) state'
  := by
  have hstarted : ∀ {t : ℕ} {task task' : FileTask}, state.tasks[t]? = some task →
      task.operation = task'.operation →
      ∃ e ∈ h ++ [⟨state, op, ret, state'⟩], e.op = .start t task'.operation := by
    intro t task task' htask hoperation
    obtain ⟨e, he, hstart⟩ := hhistory.started t task htask
    exact ⟨e, mem_append_left _ he, hoperation ▸ hstart⟩
  constructor
  · intro t task' htask'
    cases taskOrigin_of_step hstep htask' with
    | started hop _ => exact ⟨_, mem_append_right _ (mem_singleton_self _), hop⟩
    | moved htask hoperation _ | committed htask hoperation _ _ _ => exact hstarted htask hoperation
  · intro t task' htask' hash length names stored hjob hstage
    cases taskOrigin_of_step hstep htask' with
    | started _ hwaiting =>
      rw [hwaiting] at hstage
      cases hstage
    | @moved task htask hoperation hunlinking =>
      obtain ⟨hsame, names', hbefore⟩ := hunlinking names stored hstage
      obtain ⟨h₀, c, h₁, rfl, hstores⟩ := hhistory.stored t task htask hash length names' stored
        (hsame.trans hjob) hbefore
      refine ⟨h₀, c, h₁ ++ [⟨state, op, ret, state'⟩], ?_, hoperation ▸ hstores⟩
      rw [append_assoc, cons_append]
    | @committed task choice _ _ htask hoperation hsame hop hcommit =>
      have hconsistent := (hsound.tasks t task htask).consistent task.job (by simp)
      have htransacted := transacted_of_transact hsound.accounts hsound.named hconsistent hcommit
      refine ⟨h, _, [], rfl, t, choice, task, length, hop, htask, hoperation, hsame.trans hjob, ?_⟩
      exact htransacted.written hash length (hsame.trans hjob)

/-- Blobs are named by their content. -/
def NamedByContent (content : String → Bytes) (e : Event FileStore FileOp FileReturn) : Prop :=
  ∀ t reference hash bytes, e.op = .start t (.putOwnedBlob reference hash bytes) →
    bytes = content hash

section

variable (htrace : Trace FileStep .empty h state) (hapart : ∀ e ∈ h, e.before.apart e.op = true)
include htrace hapart

theorem fileSound_of_trace :
  FileSound state
  := by
  apply htrace.invariant_of_forall hapart fileSound_empty
  intro state op ret state' hsound hstep hcondition
  exact hsound.step hstep hcondition

theorem fileHistory_of_trace :
  FileHistory h state
  := by
  revert hapart
  apply htrace.history_invariant
    (P := fun h state => (∀ e ∈ h, e.before.apart e.op = true) → FileHistory h state)
  · intro _
    constructor <;> intro t task htask <;> simp [FileStore.empty] at htask
  · intro h state op ret state' htrace hhistory hstep hapart
    have hbefore := fun e he => hapart e (mem_append_left _ he)
    exact (hhistory hbefore).step (fileSound_of_trace htrace hbefore) hstep

/-- Once an own blob is stored in a file, its row keeps the file as long as the reference is
there. -/
theorem hasFile_of_stored {content : String → Bytes}
    (hcontent : ∀ e ∈ h, NamedByContent content e)
    (hlarge : ownedInlineBlobBytes < (content hash).length)
    {h₀ h₁ : List (Event FileStore FileOp FileReturn)} {c : Event FileStore FileOp FileReturn}
    (hsplit : h = h₀ ++ c :: h₁) (hstores : StoresFile c operation hash)
    (hrefs : ∀ e ∈ c :: h₁, toLex (blobKey hash, reference) ∈ e.after.store.cache.refs) :
  HasFile state.store.cache.rows hash
  := by
  -- By induction on the events after the one that stores the file.
  induction h₁ using reverseRecOn generalizing h state with
  | nil =>
    subst hsplit
    obtain ⟨e, he, rfl⟩ := htrace.exists_after_eq
    cases mem_singleton.mp he
    obtain ⟨-, -, -, -, -, -, -, -, hfile⟩ := hstores
    exact hfile
  | append_singleton h₁ e ih =>
    rw [← cons_append] at hsplit hrefs
    rw [← append_assoc] at hsplit
    subst hsplit
    obtain ⟨before, hleft, hlast⟩ := htrace.split
    obtain ⟨rfl, rfl, hstep⟩ := singleton hlast
    have hapart' := fun e he => hapart e (mem_append_left _ he)
    have hsound := fileSound_of_trace hleft hapart'
    have hhistory := fileHistory_of_trace hleft hapart'
    have hrefs' := fun e he => hrefs e (mem_append_left _ he)
    have hbefore := ih hleft hapart' (fun e he => hcontent e (mem_append_left _ he)) rfl hrefs'
    obtain ⟨last, hmem, hafter⟩ := hleft.exists_after_eq
    have href := hrefs' last hmem
    rw [hafter] at href
    refine hsound.kept hstep href (hrefs e (by simp)) ?_ hbefore
    -- A blob with this content is not stored in its row.
    intro t task choice bytes _ htask hjob
    have hjobs := (hsound.tasks t task htask).jobs.subset (mem_cons_self ..)
    rw [hjob] at hjobs
    obtain ⟨reference', hoperation, hlength⟩ := putOwnedBlob_of_putBlob hjobs
    obtain ⟨start, hstart, hop⟩ := hhistory.started t task htask
    rw [hoperation] at hop
    have hbytes := hcontent start (mem_append_left _ hstart) t reference' hash bytes hop
    rw [hbytes] at hlength
    omega

/-- An operation that returns was started. -/
theorem started_of_returned {ok : Bool}
    (hstep : FileStep state op (some (operation, ok)) state') :
  ∃ t, ∃ e ∈ h, e.op = .start t operation
  := by
  have hhistory := fileHistory_of_trace htrace hapart
  generalize hret : (some (operation, ok) : FileReturn) = ret at hstep
  cases fileMove_of_step hstep with
  | refuse htask | abort htask | undo htask | done htask =>
    cases hret
    exact ⟨_, hhistory.started _ _ htask⟩
  | start | enter | link | commit | fail | unlink | next => cases hret

/-- An own blob that is too large for its row has written the row of its file before its operation
returns with success. -/
theorem stored_of_returned
    (hstep : FileStep state op (some (.putOwnedBlob reference hash bytes, true)) state')
    (hlarge : ownedInlineBlobBytes < bytes.length) :
  ∃ g₀ c g₁, h = g₀ ++ c :: g₁ ∧ StoresFile c (.putOwnedBlob reference hash bytes) hash
  := by
  have hsound := fileSound_of_trace htrace hapart
  have hhistory := fileHistory_of_trace htrace hapart
  generalize hret : (some (.putOwnedBlob reference hash bytes, true) : FileReturn) = ret at hstep
  cases fileMove_of_step hstep with
  | @done t task stored htask hstage hrest =>
    -- The job that it was at is its last one.
    obtain ⟨hoperation, rfl⟩ := Prod.mk.inj (some.inj hret)
    obtain ⟨l, hjobs⟩ := (hsound.tasks t task htask).jobs
    rw [hrest rfl, ← hoperation, FileOperation.jobs, if_neg (by omega)] at hjobs
    have hsplit : l ++ [task.job] = [_] ++ [_] := hjobs
    obtain ⟨-, hlast⟩ := append_inj' hsplit rfl
    rw [hoperation]
    exact hhistory.stored t task htask hash bytes.length [] true (head_eq_of_cons_eq hlast)
      hstage
  | refuse | abort | undo => cases (Prod.mk.inj (some.inj hret)).2
  | start | enter | link | commit | fail | unlink | next => cases hret

end

/-- In every run in which no removal overlaps the writing of the same file, every row with a file
name has its file. An own blob that is too large for its row has been stored by a transaction before
its operation returns, and as long as its reference exists from then on the file is there. -/
theorem rows_keep_files (htrace : Trace FileStep .empty h state)
    (hapart : ∀ e ∈ h, e.before.apart e.op = true) :
  (∀ (key : CacheKey) (row : CacheRow) name, state.store.cache.rows[key]? = some row →
      row.fileName = some name → name ∈ state.files) ∧
    ∀ content : String → Bytes, (∀ e ∈ h, NamedByContent content e) →
      ∀ h₀ e h₁ reference hash bytes, h = h₀ ++ e :: h₁ →
        e.ret = some (.putOwnedBlob reference hash bytes, true) →
        ownedInlineBlobBytes < bytes.length →
        ∃ g₀ c g₁, h₀ = g₀ ++ c :: g₁ ∧
          StoresFile c (.putOwnedBlob reference hash bytes) hash ∧
          ((∀ e' ∈ c :: g₁ ++ e :: h₁,
            toLex (blobKey hash, reference) ∈ e'.after.store.cache.refs) → hash ∈ state.files)
  := by
  have hsound := fileSound_of_trace htrace hapart
  constructor
  · intro key row name hrow hname
    cases hsound.named key row name hrow hname
    exact hsound.present name ⟨row, hrow, hname⟩
  · intro content hcontent h₀ e h₁ reference hash bytes hsplit hret hlarge
    subst hsplit
    obtain ⟨hbefore, hstep, -⟩ := htrace.split_event
    rw [hret] at hstep
    have hapart' := fun e he => hapart e (mem_append_left _ he)
    obtain ⟨t, start, hstart, hop⟩ := started_of_returned hbefore hapart' hstep
    obtain ⟨g₀, c, g₁, rfl, hstores⟩ := stored_of_returned hbefore hapart' hstep hlarge
    refine ⟨g₀, c, g₁, rfl, hstores, fun hrefs => hsound.present hash ?_⟩
    have hbytes := hcontent start (mem_append_left _ hstart) t reference hash bytes hop
    exact hasFile_of_stored htrace hapart hcontent (hbytes ▸ hlarge) (append_assoc ..)
      hstores hrefs

end

namespace FileSample

def hash : String := "aaaaaaaaaaaaaaaaaaaaaaaaaaaaaaaaaaaaaaaaaaaaaaaaaaaaaaaaaaaaaaaa"

def large : Bytes := List.replicate 1048577 0

/-- A blob that is too large for its row. -/
def owned : FileOperation := .putOwnedBlob "own_blob" hash large

/-- The operation has started. -/
def started : FileStore :=
  FileStore.empty.put 0 ⟨owned, .addProtectedRef "own_blob" hash,
    [.putRemoteBlobFile hash 1048577], .waiting⟩

theorem trace_started :
  Trace FileStep .empty [⟨.empty, .start 0 owned, none, started⟩] started
  := by
  apply nil.snoc (h := [])
  have hlength : large.length = 1048577 := length_replicate
  have hjobs : owned.jobs =
      (.addProtectedRef "own_blob" hash, [.putRemoteBlobFile hash 1048577]) := by
    simp only [owned, FileOperation.jobs, hlength]
    rfl
  simp only [FileStep, perform, hjobs]
  rfl

/-- The steps of the operation: the reference, then the file. -/
def storeOps : List FileOp :=
  [.enter 0, .commit 0 {}, .finish 0, .enter 0, .link 0, .commit 0 {}, .finish 0]

/-- The same blob is in the cache, and is removed while it is stored again. The removal has deleted
the row before, and unlinks the file afterwards. -/
def racingOps : List FileOp :=
  [.start 1 (.putRemoteBlobFile hash 1048577), .enter 1, .link 1, .commit 1 {}, .finish 1,
    .start 2 (.removeRemoteContent "blob" hash), .enter 2, .commit 2 {}] ++ storeOps ++
    [.unlink 2, .finish 2]

theorem trace_replay (ops : List FileOp) :
  Trace FileStep .empty
    (⟨.empty, .start 0 owned, none, started⟩ :: (Trace.replay FileStore.perform started ops).1)
    (Trace.replay FileStore.perform started ops).2
  := by
  apply trace_started.append
  apply of_replay
  intro _ _ _ _ _ hstep
  exact hstep

/-- The operation returns with success. -/
def returnsOwned : FileReturn → Bool
  | some (.putOwnedBlob reference name _, ok) => reference = "own_blob" && name = hash && ok
  | _ => false

theorem split_returned {h : List (Event FileStore FileOp FileReturn)} (n : ℕ)
    (hhead : ((h.drop n).head?.any fun e => returnsOwned e.ret) = true) :
  ∃ e h₁ bytes, h = h.take n ++ e :: h₁ ∧ h.drop n = e :: h₁ ∧
    e.ret = some (.putOwnedBlob "own_blob" hash bytes, true)
  := by
  generalize hdrop : h.drop n = current at hhead
  cases current with
  | nil =>
    cases hhead
  | cons e h₁ =>
    have hret : returnsOwned e.ret = true := by
      exact hhead
    unfold returnsOwned at hret
    split at hret
    case h_1 reference name bytes ok heq =>
      simp only [Bool.and_eq_true, decide_eq_true_eq] at hret
      obtain ⟨⟨rfl, rfl⟩, rfl⟩ := hret
      exact ⟨e, h₁, bytes, by rw [← hdrop, take_append_drop], rfl, heq⟩
    case h_2 => cases hret

end FileSample

open FileSample in
theorem rows_keep_files_sample :
  ∃ h state, Trace FileStep .empty h state ∧ (∀ e ∈ h, e.before.apart e.op = true) ∧
    (∃ e ∈ h, e.ret = some (.putOwnedBlob "own_blob" hash large, true)) ∧ hash ∈ state.files
  := by
  generalize hh : (⟨.empty, .start 0 owned, none, started⟩ ::
    (replay perform started storeOps).1 :
      List (Event FileStore FileOp FileReturn)) = h
  generalize hstate : (replay perform started storeOps).2 = state
  have htrace : Trace FileStep .empty h state := by
    rw [← hh, ← hstate]
    exact trace_replay storeOps
  have hapart : ∀ e ∈ h, e.before.apart e.op = true := by
    rw [← hh]
    decide +kernel
  have hrefs : ∀ e ∈ h.drop 2, toLex (blobKey hash, "own_blob") ∈ e.after.store.cache.refs := by
    rw [← hh]
    decide +kernel
  -- The only operation of the run is the one that stores the blob.
  have hops : ∀ e ∈ h, ∀ t operation, e.op = .start t operation → operation = owned := by
    rw [← hh]
    intro e he t operation hop
    rcases mem_cons.mp he with rfl | he
    · cases hop
      rfl
    · have hmem := op_mem_of_mem_replay he
      rw [hop] at hmem
      simp [storeOps] at hmem
  have hcontent : ∀ e ∈ h, NamedByContent (fun _ => large) e := by
    intro e he t reference hash bytes hop
    cases hops e he t _ hop
    rfl
  obtain ⟨e, h₁, bytes, hsplit, -, hret⟩ := split_returned (h := h) 7 (by
    rw [← hh]
    decide +kernel)
  have hbytes : bytes = large := by
    rw [hsplit] at htrace
    obtain ⟨hbefore, hstep, -⟩ := htrace.split_event
    rw [hret] at hstep
    obtain ⟨t, start, hstart, hop⟩ := started_of_returned hbefore
      (fun e he => hapart e (mem_of_mem_take he)) hstep
    cases hops start (mem_of_mem_take hstart) t _ hop
    rfl
  subst hbytes
  have hlarge : ownedInlineBlobBytes < large.length := by
    rw [large, length_replicate]
    decide
  obtain ⟨g₀, c, g₁, hg, hstores, hfile⟩ := (rows_keep_files htrace hapart).2 (fun _ => large)
    hcontent _ e h₁ "own_blob" hash large hsplit hret hlarge
  have hmem : e ∈ h := by
    rw [hsplit]
    simp
  refine ⟨h, state, htrace, hapart, ⟨e, hmem, hret⟩, hfile fun e' he' => ?_⟩
  -- The first two steps start the operation and take the gate.
  have hfirst : ∀ e ∈ h.take 2, (e.op matches .commit ..) = false := by
    rw [← hh]
    decide +kernel
  have hwhole : h = g₀ ++ (c :: g₁ ++ e :: h₁) := by
    rw [hsplit, hg, append_assoc]
  have hlate : 2 ≤ g₀.length := by
    by_contra hearly
    obtain ⟨t, choice, _, _, hop, _⟩ := hstores
    have hmem' : c ∈ h.take 2 := by
      rw [hwhole, take_append, mem_append]
      right
      rw [cons_append, show 2 - g₀.length = (1 - g₀.length) + 1 by omega]
      exact mem_cons_self ..
    have hcommit := hfirst c hmem'
    rw [hop] at hcommit
    cases hcommit
  apply hrefs
  rw [hwhole, drop_append, Nat.sub_eq_zero_of_le hlate, drop_zero]
  exact mem_append_right _ he'

open FileSample in
theorem exists_row_without_file :
  ∃ h₀ e h₁ state reference hash bytes, Trace FileStep .empty (h₀ ++ e :: h₁) state ∧
    e.ret = some (.putOwnedBlob reference hash bytes, true) ∧
    (∀ e' ∈ e :: h₁, toLex (blobKey hash, reference) ∈ e'.after.store.cache.refs) ∧
    state.tasks.size = 0 ∧ HasFile state.store.cache.rows hash ∧ hash ∉ state.files
  := by
  generalize hh : (⟨.empty, .start 0 owned, none, started⟩ ::
    (replay perform started racingOps).1 :
      List (Event FileStore FileOp FileReturn)) = h
  have htrace := trace_replay racingOps
  rw [hh] at htrace
  obtain ⟨e, h₁, bytes, hsplit, hdrop, hret⟩ := split_returned (h := h) 15 (by
    rw [← hh]
    decide +kernel)
  have hrefs : ∀ e ∈ h.drop 15, toLex (blobKey hash, "own_blob") ∈ e.after.store.cache.refs := by
    rw [← hh]
    decide +kernel
  have hname : ((replay perform started racingOps).2.store.cache.rows[
      blobKey hash]?.map CacheRow.fileName) = some (some hash) := by
    decide +kernel
  obtain ⟨row, hrow, hfile⟩ := map_eq_some_iff.mp hname
  rw [hdrop] at hrefs
  rw [hsplit] at htrace
  exact ⟨_, e, h₁, _, "own_blob", hash, bytes, htrace, hret, hrefs, by decide +kernel,
    ⟨row, hrow, hfile⟩, by decide +kernel⟩

end Kukuri
