import Kukuri.Store.RemoteCacheFiles

/-!
# The operations on the files of the remote cache

A blob file is linked before the transaction that writes its row, and unlinked after the one that
deletes it. All operations but `remove_remote_content` hold the gate of the cache from before their
first file operation until after their last one.

The operations run as tasks, interleaved at the gate, the transactions and the single file
operations. `FileMove` lists what a step can do, and `transacted_of_transact` says what a
transaction does to files.
-/

namespace Kukuri

open Result Ledger Eviction List Option

/-- The greatest length of an own blob that is kept in its row. -/
def ownedInlineBlobBytes : ℕ := 1024 * 1024

/-- What an operation does in one transaction. -/
inductive FileJob where
  | putRemoteBlobFile (hash : String) (length : ℕ)
  | putBlob (hash : String) (bytes : Bytes)
  | addProtectedRef (reference hash : String)
  | updateRefs (changes : List (String × List CacheKey))
  | releaseRefs (reference : String) (limit : ℕ)
  | reclaim
  | forgetAdult
  | removeRemoteContent (kind key : String)

/-- The removal of content does not take the gate. -/
def FileJob.gated : FileJob → Bool
  | removeRemoteContent .. => false
  | _ => true

/-- The operations. The poster of cached media is the one that the query returns, and an update of
protected references sets some of them, none to different keys. -/
inductive FileOperation where
  | putRemoteBlobFile (hash : String) (length : ℕ)
  | putOwnedBlob (reference hash : String) (bytes : Bytes)
  | removeRemoteContent (kind key : String)
  | removeCachedMedia (hash : String) (poster : Option String)
  | updateProtectedRefs (changes : List (String × List CacheKey))
  | releaseRetainedRefs (reference : String) (limit : ℕ)
  | reclaimRemoteCacheStep
  | forgetAdultRemoteBlobsStep

/-- The first job of an operation, and those after it. -/
def FileOperation.jobs : FileOperation → FileJob × List FileJob
  | putRemoteBlobFile hash length => (.putRemoteBlobFile hash length, [])
  | putOwnedBlob reference hash bytes =>
    (.addProtectedRef reference hash,
      [if bytes.length ≤ ownedInlineBlobBytes then .putBlob hash bytes
        else .putRemoteBlobFile hash bytes.length])
  | removeRemoteContent kind key => (.removeRemoteContent kind key, [])
  | removeCachedMedia hash poster =>
    (.removeRemoteContent "blob" hash, poster.toList.map (.removeRemoteContent "blob"))
  | updateProtectedRefs changes => (.updateRefs changes, [])
  | releaseRetainedRefs reference limit => (.releaseRefs reference limit, [])
  | reclaimRemoteCacheStep => (.reclaim, [])
  | forgetAdultRemoteBlobsStep => (.forgetAdult, [])

/-- An update does not set one reference to different keys. -/
def FileJob.Consistent : FileJob → Prop
  | updateRefs changes => changes.Pairwise fun a b => a.1 = b.1 → a.2 = b.2
  | _ => True

instance : DecidablePred FileJob.Consistent
  | .updateRefs changes =>
    inferInstanceAs (Decidable (changes.Pairwise fun a b => a.1 = b.1 → a.2 = b.2))
  | .putRemoteBlobFile .. | .putBlob .. | .addProtectedRef .. | .releaseRefs .. | .reclaim
  | .forgetAdult | .removeRemoteContent .. => inferInstanceAs (Decidable True)

/-- How far a job is. -/
inductive FileStage where
  | waiting
  | entered
  | linked (created : Bool)
  | unlinking (names : List String) (stored : Bool)
  | undoing
deriving DecidableEq

/-- An operation that runs: the job it is at, the jobs after it and the stage of the job. -/
structure FileTask where
  operation : FileOperation
  job : FileJob
  rest : List FileJob
  stage : FileStage

/-- The transaction of a job can be made: that of a blob file once it is linked. The result says
whether a file was created. -/
def FileTask.ready (task : FileTask) : Option Bool :=
  match task.job, task.stage with
  | .putRemoteBlobFile .., .linked created => some created
  | .putRemoteBlobFile .., _ => none
  | _, .entered => some false
  | _, _ => none

/-- The store, the files, the task that holds the gate and the tasks. -/
structure FileStore where
  store : CacheStore
  files : BTreeSet String
  gate : Option ℕ
  tasks : BTreeMap ℕ FileTask

/-- What a transaction finds: the clock, and the orders that its queries and sets leave open. -/
structure FileChoice where
  now : ℤ := 0
  orders : List (List CacheKey × List CacheKey) := []
  victims : List (CacheKey × CacheRow) := []

/-! ### Transactions -/

/-- References are set one after the other, each in the given order. -/
def updateRefs (budget : ℤ) :
    List (String × List CacheKey) → List (List CacheKey × List CacheKey) → RemoteCache →
      Option (RemoteCache × List String)
  | [], [], cache => some (cache, [])
  | (reference, desired) :: changes, (removed, added) :: orders, cache =>
    let old := refsOf cache reference
    if removed.Perm (old.filter (· ∉ desired)) ∧ added.Perm (desired.dedup.filter (· ∉ old)) then
      let first := replaceRemoteProtectedRefs cache reference removed added budget
      (updateRefs budget changes orders first.1).map fun rest => (rest.1, first.2 ++ rest.2)
    else none
  | _, _, _ => none

namespace FileJob

/-- The transaction of a job: whether the content was stored, the store and the files that are
unlinked afterwards. -/
def transact (store : CacheStore) (choice : FileChoice) :
    FileJob → Option (Result (Bool × CacheStore × List String))
  | putRemoteBlobFile hash length =>
    some ((store.putRemoteBlobFile hash length choice.now).map fun result => (true, result))
  | putBlob hash bytes =>
    some (store.putRemoteContentWithBudget "blob" hash "blob" (.bytes bytes) none none choice.now
      none)
  | addProtectedRef reference hash =>
    some (.ok (true, store.addProtectedRef reference "blob" hash, []))
  | updateRefs changes =>
    match store.budget with
    | .ok budget => (Kukuri.updateRefs budget changes choice.orders store.cache).map fun result =>
        .ok (true, { store with cache := result.1 }, result.2)
    | .error failure => some (.error failure)
  | releaseRefs reference limit =>
    match store.budget with
    | .ok budget =>
      let result := replaceRemoteProtectedRefs store.cache reference
        ((refsOf store.cache reference).take limit) [] budget
      some (.ok (true, { store with cache := result.1 }, result.2))
    | .error failure => some (.error failure)
  | reclaim =>
    let result := deleteRemoteCacheStep store.cache (reclaimable store.cache choice.now)
    some (.ok (true, { store with cache := result.1 }, result.2))
  | forgetAdult =>
    if choice.victims.Nodup ∧ choice.victims ⊆ forgettable store.cache ∧
        choice.victims.length = min remoteCacheReclaimStep (forgettable store.cache).length then
      let result := deleteRemoteCacheStep store.cache choice.victims
      some (.ok (true, { store with cache := result.1 }, result.2))
    else none
  | removeRemoteContent kind key =>
    let result := Kukuri.removeRemoteContent store.cache kind key
    some (.ok (true, { store with cache := result.1 }, result.2))

end FileJob

/-! ### Steps -/

/-- The steps of the tasks. -/
inductive FileOp where
  | start (t : ℕ) (operation : FileOperation)
  | enter (t : ℕ)
  | link (t : ℕ)
  | commit (t : ℕ) (choice : FileChoice)
  | unlink (t : ℕ)
  | undo (t : ℕ)
  | finish (t : ℕ)

/-- The operation that a step returns from, and whether it succeeded. -/
abbrev FileReturn := Option (FileOperation × Bool)

namespace FileStore

def empty : FileStore := ⟨.empty, ∅, none, ∅⟩

/-- The task is set. -/
def put (state : FileStore) (t : ℕ) (task : FileTask) : FileStore :=
  { state with tasks := state.tasks.insert t task }

/-- The gate is left by a task that holds it. -/
def leave (state : FileStore) (t : ℕ) : FileStore :=
  { state with gate := if state.gate = some t then none else state.gate }

/-- The operation returns. -/
def returned (state : FileStore) (t : ℕ) (task : FileTask) (ok : Bool) :
    FileReturn × FileStore :=
  (some (task.operation, ok), { state with tasks := state.tasks.erase t }.leave t)

/-- The job starts: a blob file needs a valid name, and all but removals need the gate. -/
def enter (state : FileStore) (t : ℕ) (task : FileTask) : Option (FileReturn × FileStore) :=
  match task.job with
  | .removeRemoteContent .. => some (none, state.put t { task with stage := .entered })
  | .putRemoteBlobFile hash _ =>
    if isBlobFileName hash = false then some (state.returned t task false)
    else if state.gate = none then
      some (none, { state with gate := some t }.put t { task with stage := .entered })
    else none
  | _ =>
    if state.gate = none then
      some (none, { state with gate := some t }.put t { task with stage := .entered })
    else none

/-- The file is linked, unless it exists. -/
def link (state : FileStore) (t : ℕ) (task : FileTask) : Option (FileReturn × FileStore) :=
  match task.job with
  | .putRemoteBlobFile hash _ =>
    let stage := .linked (hash ∉ state.files)
    some (none, { state with files := state.files.insert hash }.put t { task with stage := stage })
  | _ => none

/-- The transaction commits, or fails. -/
def commit (state : FileStore) (t : ℕ) (task : FileTask) (created : Bool) (choice : FileChoice) :
    Option (FileReturn × FileStore) :=
  (task.job.transact state.store choice).map fun result =>
    match result with
    | .ok (stored, store, names) =>
      (none, { state with store := store }.put t { task with stage := .unlinking names stored })
    | .error _ =>
      if created then (none, state.put t { task with stage := .undoing })
      else state.returned t task false

/-- The operation goes on with its next job, or returns. -/
def finish (state : FileStore) (t : ℕ) (task : FileTask) (stored : Bool) :
    FileReturn × FileStore :=
  match stored, task.rest with
  | true, job :: rest => (none, (state.leave t).put t ⟨task.operation, job, rest, .waiting⟩)
  | true, [] => state.returned t task true
  | false, _ => state.returned t task false

/-- The result of a step, when it can be made. -/
def perform (state : FileStore) : FileOp → Option (FileReturn × FileStore)
  | .start t operation =>
    if state.tasks[t]?.isNone ∧ operation.jobs.1.Consistent then
      some (none, state.put t ⟨operation, operation.jobs.1, operation.jobs.2, .waiting⟩)
    else none
  | .enter t => do
    let task ← state.tasks[t]?
    if task.stage = .waiting then state.enter t task else none
  | .link t => do
    let task ← state.tasks[t]?
    if task.stage = .entered then state.link t task else none
  | .commit t choice => do
    let task ← state.tasks[t]?
    let created ← task.ready
    state.commit t task created choice
  | .unlink t => do
    let task ← state.tasks[t]?
    match task.stage with
    | .unlinking (name :: names) stored =>
      some (none, { state with files := state.files.erase name }.put t
        { task with stage := .unlinking names stored })
    | _ => none
  | .undo t => do
    let task ← state.tasks[t]?
    match task.job, task.stage with
    | .putRemoteBlobFile hash _, .undoing =>
      some ({ state with files := state.files.erase hash }.returned t task false)
    | _, _ => none
  | .finish t => do
    let task ← state.tasks[t]?
    match task.stage with
    | .unlinking [] stored => some (state.finish t task stored)
    | _ => none

end FileStore

/-- One step of the tasks. -/
def FileStep (state : FileStore) (op : FileOp) (ret : FileReturn) (state' : FileStore) : Prop :=
  state.perform op = some (ret, state')

/-! ### Transactions and files -/

/-- The row that a job writes, if it writes one. -/
def FileJob.write : FileJob → Option (CacheKey × Option String)
  | putRemoteBlobFile hash _ => some (blobKey hash, some hash)
  | putBlob hash _ => some (blobKey hash, none)
  | _ => none

variable {cache cache' : RemoteCache} {store store' : CacheStore} {removed names : List String}
  {budget : ℤ} {changes : List (String × List CacheKey)}
  {orders : List (List CacheKey × List CacheKey)}

/-- What is done without writing a row is what a job may do that could have written one. -/
theorem FileEffect.of_none (h : FileEffect none cache cache' removed)
    (write : Option (CacheKey × Option String)) :
  FileEffect write cache cache' removed
  := by
  refine ⟨h.named, fun name hfile => ?_, h.removed, fun name reference href href' hfile _ => ?_⟩
  · exact .inl ((h.before name hfile).resolve_right nofun)
  · exact h.kept name reference href href' hfile nofun

theorem mem_refsOf {reference : String} {key : CacheKey} :
  key ∈ refsOf cache reference ↔ toLex (key, reference) ∈ cache.refs
  := by
  simp only [refsOf, List.mem_map, List.mem_filter, Std.ExtTreeSet.mem_toList, decide_eq_true_eq]
  constructor
  · rintro ⟨item, ⟨hitem, rfl⟩, rfl⟩
    exact hitem
  · intro hitem
    exact ⟨_, ⟨hitem, rfl⟩, rfl⟩

/-- A reference that is set belongs to the keys that it is set to, and the others stay. -/
theorem fileEffect_set (hnamed : Named cache.rows) {reference : String}
    {desired removed added : List CacheKey}
    (hremoved : removed.Perm ((refsOf cache reference).filter (· ∉ desired)))
    (hadded : added.Perm (desired.dedup.filter (· ∉ refsOf cache reference))) (budget : ℤ) :
  let result := replaceRemoteProtectedRefs cache reference removed added budget
  FileEffect none cache result.1 result.2 ∧
    (∀ key, toLex (key, reference) ∈ result.1.refs ↔ key ∈ desired) ∧
    ∀ key other, other ≠ reference →
      (toLex (key, other) ∈ result.1.refs ↔ toLex (key, other) ∈ cache.refs)
  := by
  have hmemRemoved : ∀ key, key ∈ removed ↔
      toLex (key, reference) ∈ cache.refs ∧ key ∉ desired := by
    intro key
    rw [hremoved.mem_iff, mem_filter, mem_refsOf, decide_eq_true_eq]
  have hmemAdded : ∀ key, key ∈ added ↔ key ∈ desired ∧ toLex (key, reference) ∉ cache.refs := by
    intro key
    rw [hadded.mem_iff, mem_filter, mem_dedup, decide_eq_true_eq, mem_refsOf]
  obtain ⟨heffect, hrefs⟩ := fileEffect_replaceRemoteProtectedRefs hnamed reference removed added
    budget (by
      intro key hkey hkey'
      exact ((hmemRemoved key).mp hkey).2 ((hmemAdded key).mp hkey').1)
  refine ⟨heffect, ?_, ?_⟩
  · intro key
    have hsame : ∀ key', toLex (key, reference) = toLex (key', reference) ↔ key = key' := by simp
    rw [hrefs]
    grind
  · intro key other hother
    have hdiffer : ∀ key', toLex (key, other) ≠ toLex (key', reference) := by simp [hother]
    rw [hrefs]
    simp [hdiffer]

/-- An update keeps the files of the rows whose references it keeps. -/
theorem fileEffect_updateRefs (hnamed : Named cache.rows)
    (hconsistent : changes.Pairwise fun a b => a.1 = b.1 → a.2 = b.2)
    (h : updateRefs budget changes orders cache = some (cache', names)) :
  FileEffect none cache cache' names ∧
    ∀ key reference, toLex (key, reference) ∈ cache'.refs →
      toLex (key, reference) ∈ cache.refs ∨
        ∃ change ∈ changes, change.1 = reference ∧ key ∈ change.2
  := by
  induction changes generalizing orders cache names with
  | nil =>
    cases orders with
    | nil =>
      cases h
      exact ⟨.refl hnamed, fun _ _ => .inl⟩
    | cons => cases h
  | cons change changes ih =>
    cases orders with
    | nil => cases h
    | cons order orders =>
      rw [pairwise_cons] at hconsistent
      simp only [updateRefs] at h
      split at h
      case isFalse => cases h
      case isTrue horders =>
        obtain ⟨⟨cache'', names'⟩, hrest, hresult⟩ := map_eq_some_iff.mp h
        cases hresult
        obtain ⟨hfirst, hset, hothers⟩ := fileEffect_set hnamed horders.1 horders.2 budget
        obtain ⟨heffect, hrefs⟩ := ih hfirst.named hconsistent.2 hrest
        constructor
        · refine hfirst.trans heffect fun item hitem hitem' => ?_
          rcases hrefs (ofLex item).1 (ofLex item).2 hitem' with hmid | ⟨other, hother, href, hkey⟩
          · exact hmid
          · -- A later change sets the same reference to the same keys.
            by_cases hsame : change.1 = (ofLex item).2
            · have hdesired := hconsistent.1 other hother (hsame.trans href.symm)
              have heq : item = toLex ((ofLex item).1, change.1) := by
                rw [hsame]
                rfl
              rw [heq]
              exact (hset (ofLex item).1).mpr (hdesired ▸ hkey)
            · exact (hothers (ofLex item).1 (ofLex item).2 (Ne.symm hsame)).mpr hitem
        · intro key reference hmem
          rcases hrefs key reference hmem with hmid | ⟨other, hother, href, hkey⟩
          · by_cases hsame : change.1 = reference
            · subst hsame
              exact .inr ⟨change, by simp, rfl, (hset key).mp hmid⟩
            · exact .inl ((hothers key reference (Ne.symm hsame)).mp hmid)
          · exact .inr ⟨other, mem_cons_of_mem _ hother, href, hkey⟩

/-- An update keeps the accounts. -/
theorem updateRefs_spec (hsound : Sound cacheColumns cache) (hused : cache.used ≤ budget)
    (hbudget : budget < I64.greatest)
    (h : updateRefs budget changes orders cache = some (cache', names)) :
  Sound cacheColumns cache' ∧ cache'.used ≤ budget
  := by
  induction changes generalizing orders cache names with
  | nil =>
    cases orders with
    | nil =>
      cases h
      exact ⟨hsound, hused⟩
    | cons => cases h
  | cons change changes ih =>
    cases orders with
    | nil => cases h
    | cons order orders =>
      simp only [updateRefs] at h
      split at h
      case isFalse => cases h
      case isTrue =>
        obtain ⟨⟨cache'', names'⟩, hrest, hresult⟩ := map_eq_some_iff.mp h
        cases hresult
        obtain ⟨hsound', hused'⟩ := replaceRemoteProtectedRefs_spec hsound hused hbudget change.1
          order.1 order.2
        exact ih hsound' hused' hrest

/-- What the transaction of a job does: it keeps the accounts, and the row of a blob file is there
afterwards. -/
structure Transacted (job : FileJob) (store store' : CacheStore) (names : List String) : Prop where
  accounts : store'.Accounts
  effect : FileEffect job.write store.cache store'.cache names
  written : ∀ hash length, job = .putRemoteBlobFile hash length → HasFile store'.cache.rows hash

/-- Content is written under a blob key. -/
theorem fileEffect_putRemoteContentInTx {hash : String} {payload : CachePayload} {now : ℤ}
    {admitted : Bool} (hsound : Sound cacheColumns cache) (hnamed : Named cache.rows)
    (hname : ∀ name, payload.fileName = some name → name = hash)
    (h : putRemoteContentInTx cache "blob" hash "blob" payload none none budget now none none =
      .ok (admitted, cache', names)) :
  FileEffect (some (blobKey hash, payload.fileName)) cache cache' names ∧
    (admitted = true → ∀ name, payload.fileName = some name → HasFile cache'.rows name)
  := by
  obtain ⟨-, -, h⟩ := bind_eq_ok.mp h
  obtain ⟨charge, -, h⟩ := bind_eq_ok.mp h
  have hplace := pure_eq_ok.mp h
  rw [if_neg (by decide)] at hplace
  have heffect := fileEffect_placeContent hsound hnamed (blobKey hash)
    { scopeKey := "blob"
      recordKey := none
      recordAuthor := none
      payload := payload.inline
      fileName := payload.fileName
      chargedBytes := charge
      isProtected := false
      lastUsedAt := now }
    budget (by
      intro name hfile
      rw [hname name hfile])
  rw [hplace] at heffect
  cases admitted with
  | true =>
    obtain ⟨heffect, row, hrow, hfile⟩ := heffect
    refine ⟨heffect, fun _ name hpayload => ?_⟩
    cases hname name hpayload
    exact ⟨row, hrow, hfile.trans hpayload⟩
  | false => exact ⟨heffect.of_none _, nofun⟩

theorem transacted_of_transact {job : FileJob} {choice : FileChoice} {stored : Bool}
    (haccounts : store.Accounts) (hnamed : Named store.cache.rows) (hconsistent : job.Consistent)
    (h : job.transact store choice = some (.ok (stored, store', names))) :
  Transacted job store store' names
  := by
  have hsound := haccounts.sound
  have hbudget : remoteCacheCapacityBytes - (store.reserved : ℤ) < I64.greatest := by
    have hcapacity : remoteCacheCapacityBytes = 3221225472 := rfl
    have hgreatest : I64.greatest = 9223372036854775807 := rfl
    omega
  cases job with
  | putRemoteBlobFile hash length =>
    simp only [FileJob.transact] at h
    generalize hput : store.putRemoteBlobFile hash length choice.now = current at h
    cases current with
    | error failure =>
      cases h
    | ok result =>
      cases h
      have hstep : CacheStep store (.putRemoteBlobFile hash length choice.now) (.ok true)
          store' := by
        simp only [CacheStep, CacheStore.perform, hput]
      obtain ⟨-, hput⟩ := bailIf_bind_eq_ok.mp hput
      obtain ⟨budget, -, hput⟩ := bind_eq_ok.mp hput
      obtain ⟨⟨admitted, cache, files⟩, hput, hrest⟩ := bind_eq_ok.mp hput
      obtain ⟨hadmitted, hafter⟩ := bailIf_bind_eq_ok.mp hrest
      cases hafter
      obtain ⟨heffect, hwritten⟩ := fileEffect_putRemoteContentInTx hsound hnamed (by
        intro name hname
        cases hname
        rfl) hput
      refine ⟨(accounted_of_step haccounts hstep).accounts, heffect, ?_⟩
      rintro hash' length' ⟨⟩
      exact hwritten (by simpa using hadmitted) hash rfl
  | putBlob hash bytes =>
    have hput := some.inj h
    have hstep : CacheStep store (.putRemoteContent "blob" hash "blob" bytes choice.now none)
        (.ok stored) store' := by
      simp only [CacheStep, CacheStore.perform, hput, CacheStore.committed]
    obtain ⟨budget, -, hput⟩ := bind_eq_ok.mp hput
    obtain ⟨⟨admitted, cache, files⟩, hput, hafter⟩ := bind_eq_ok.mp hput
    cases hafter
    obtain ⟨heffect, -⟩ := fileEffect_putRemoteContentInTx hsound hnamed
      (by rintro name ⟨⟩) hput
    exact ⟨(accounted_of_step haccounts hstep).accounts, heffect, by simp⟩
  | addProtectedRef reference hash =>
    cases h
    refine ⟨haccounts.of_keeps (keeps_addRemoteProtectedRef ..), ?_, by simp⟩
    exact fileEffect_addRemoteProtectedRef hnamed ..
  | updateRefs changes =>
    simp only [FileJob.transact, haccounts.budget_eq] at h
    obtain ⟨⟨cache, files⟩, hupdate, hresult⟩ := map_eq_some_iff.mp h
    cases hresult
    obtain ⟨hsound', hused⟩ := updateRefs_spec hsound haccounts.within hbudget hupdate
    obtain ⟨heffect, -⟩ := fileEffect_updateRefs hnamed hconsistent hupdate
    refine ⟨⟨hsound', haccounts.tokens, ?_⟩, heffect, by simp⟩
    show cache.used + (store.reserved : ℤ) ≤ remoteCacheCapacityBytes
    omega
  | releaseRefs reference limit =>
    simp only [FileJob.transact, haccounts.budget_eq] at h
    cases h
    obtain ⟨hsound', hused⟩ := replaceRemoteProtectedRefs_spec hsound haccounts.within hbudget
      reference ((refsOf store.cache reference).take limit) []
    obtain ⟨heffect, -⟩ := fileEffect_replaceRemoteProtectedRefs hnamed reference
      ((refsOf store.cache reference).take limit) [] _ (by simp)
    refine ⟨⟨hsound', haccounts.tokens, ?_⟩, heffect, by simp⟩
    show (replaceRemoteProtectedRefs ..).1.used + (store.reserved : ℤ) ≤ remoteCacheCapacityBytes
    omega
  | reclaim =>
    cases h
    have hdeletable := deletable_reclaimable store.cache choice.now
    refine ⟨haccounts.of_keeps (keeps_deleteRemoteCacheStep _ hdeletable), ?_, by simp⟩
    exact fileEffect_deleteRemoteCacheStep hsound hnamed hdeletable
  | forgetAdult =>
    simp only [FileJob.transact] at h
    split at h
    case isFalse => cases h
    case isTrue hvictims =>
      cases h
      have hdeletable := deletable_of_forgettable hvictims.1 hvictims.2.1
      refine ⟨haccounts.of_keeps (keeps_deleteRemoteCacheStep _ hdeletable), ?_, by simp⟩
      exact fileEffect_deleteRemoteCacheStep hsound hnamed hdeletable
  | removeRemoteContent kind key =>
    cases h
    refine ⟨haccounts.of_keeps (keeps_removeRemoteContent ..), ?_, by simp⟩
    exact fileEffect_removeRemoteContent hsound hnamed kind key

/-! ### What a step can do -/

theorem ready_eq_some {task : FileTask} {created : Bool} (h : task.ready = some created) :
  (∃ hash length, task.job = .putRemoteBlobFile hash length ∧ task.stage = .linked created) ∨
    (∀ hash length, task.job ≠ .putRemoteBlobFile hash length) ∧ task.stage = .entered ∧
      created = false
  := by
  unfold FileTask.ready at h
  split at h <;> cases h
  case h_1 hjob hstage => exact .inl ⟨_, _, hjob, hstage⟩
  case h_3 hjob hstage hnot => exact .inr ⟨hnot, hstage, rfl⟩

/-- What a step can do. -/
inductive FileMove (state : FileStore) : FileOp → FileReturn → FileStore → Prop
  | start {t : ℕ} {operation : FileOperation} (hnew : state.tasks[t]? = none)
      (hconsistent : operation.jobs.1.Consistent) :
      FileMove state (.start t operation) none
        (state.put t ⟨operation, operation.jobs.1, operation.jobs.2, .waiting⟩)
  | refuse {t : ℕ} {task : FileTask} (htask : state.tasks[t]? = some task)
      (hstage : task.stage = .waiting) :
      FileMove state (.enter t) (some (task.operation, false)) (state.returned t task false).2
  | enter {t : ℕ} {task : FileTask} {gate : Option ℕ} (htask : state.tasks[t]? = some task)
      (hstage : task.stage = .waiting)
      (hgate : if task.job.gated then state.gate = none ∧ gate = some t else gate = state.gate) :
      FileMove state (.enter t) none
        ({ state with gate := gate }.put t { task with stage := .entered })
  | link {t : ℕ} {task : FileTask} {hash : String} {length : ℕ}
      (htask : state.tasks[t]? = some task) (hstage : task.stage = .entered)
      (hjob : task.job = .putRemoteBlobFile hash length) :
      FileMove state (.link t) none
        ({ state with files := state.files.insert hash }.put t
          { task with stage := .linked (hash ∉ state.files) })
  | commit {t : ℕ} {task : FileTask} {created : Bool} {choice : FileChoice} {stored : Bool}
      {store : CacheStore} {names : List String} (htask : state.tasks[t]? = some task)
      (hready : task.ready = some created)
      (hcommit : task.job.transact state.store choice = some (.ok (stored, store, names))) :
      FileMove state (.commit t choice) none
        ({ state with store := store }.put t { task with stage := .unlinking names stored })
  | fail {t : ℕ} {task : FileTask} {choice : FileChoice} (htask : state.tasks[t]? = some task)
      (hready : task.ready = some true) :
      FileMove state (.commit t choice) none (state.put t { task with stage := .undoing })
  | abort {t : ℕ} {task : FileTask} {choice : FileChoice} (htask : state.tasks[t]? = some task)
      (hready : task.ready = some false) :
      FileMove state (.commit t choice) (some (task.operation, false))
        (state.returned t task false).2
  | unlink {t : ℕ} {task : FileTask} {name : String} {names : List String} {stored : Bool}
      (htask : state.tasks[t]? = some task)
      (hstage : task.stage = .unlinking (name :: names) stored) :
      FileMove state (.unlink t) none
        ({ state with files := state.files.erase name }.put t
          { task with stage := .unlinking names stored })
  | undo {t : ℕ} {task : FileTask} {hash : String} {length : ℕ}
      (htask : state.tasks[t]? = some task) (hstage : task.stage = .undoing)
      (hjob : task.job = .putRemoteBlobFile hash length) :
      FileMove state (.undo t) (some (task.operation, false))
        ({ state with files := state.files.erase hash }.returned t task false).2
  | next {t : ℕ} {task : FileTask} {job : FileJob} {rest : List FileJob}
      (htask : state.tasks[t]? = some task) (hstage : task.stage = .unlinking [] true)
      (hrest : task.rest = job :: rest) :
      FileMove state (.finish t) none
        ((state.leave t).put t ⟨task.operation, job, rest, .waiting⟩)
  | done {t : ℕ} {task : FileTask} {stored : Bool} (htask : state.tasks[t]? = some task)
      (hstage : task.stage = .unlinking [] stored) (hrest : stored = true → task.rest = []) :
      FileMove state (.finish t) (some (task.operation, stored))
        (state.returned t task stored).2

theorem fileMove_of_step {state state' : FileStore} {op : FileOp} {ret : FileReturn}
    (h : FileStep state op ret state') :
  FileMove state op ret state'
  := by
  unfold FileStep at h
  cases op with
  | start t operation =>
    simp only [FileStore.perform] at h
    split at h
    case isFalse => cases h
    case isTrue hstart =>
      cases h
      exact .start (isNone_iff_eq_none.mp hstart.1) hstart.2
  | enter t =>
    obtain ⟨task, htask, h⟩ := bind_eq_some_iff.mp h
    split at h
    case isFalse => cases h
    case isTrue hstage =>
      unfold FileStore.enter at h
      split at h
      case h_1 hjob =>
        cases h
        exact .enter htask hstage (by simp [hjob, FileJob.gated])
      case h_2 hjob =>
        split at h
        case isTrue =>
          cases h
          exact .refuse htask hstage
        case isFalse =>
          split at h <;> cases h
          case isTrue hgate => exact .enter htask hstage (by simp [hjob, FileJob.gated, hgate])
      case h_3 hnot _ =>
        split at h <;> cases h
        case isTrue hgate =>
          refine .enter htask hstage ?_
          have hgated : task.job.gated = true := by
            cases hjob : task.job <;> simp_all [FileJob.gated]
          simp [hgated, hgate]
  | link t =>
    obtain ⟨task, htask, h⟩ := bind_eq_some_iff.mp h
    split at h
    case isFalse => cases h
    case isTrue hstage =>
      unfold FileStore.link at h
      split at h <;> cases h
      case h_1 hjob => exact .link htask hstage hjob
  | commit t choice =>
    obtain ⟨task, htask, h⟩ := bind_eq_some_iff.mp h
    obtain ⟨created, hready, h⟩ := bind_eq_some_iff.mp h
    obtain ⟨result, hcommit, hresult⟩ := map_eq_some_iff.mp h
    split at hresult
    case h_1 =>
      cases hresult
      exact .commit htask hready hcommit
    case h_2 =>
      cases created with
      | true =>
        cases hresult
        exact .fail htask hready
      | false =>
        cases hresult
        exact .abort htask hready
  | unlink t =>
    obtain ⟨task, htask, h⟩ := bind_eq_some_iff.mp h
    split at h <;> cases h
    case h_1 hstage => exact .unlink htask hstage
  | undo t =>
    obtain ⟨task, htask, h⟩ := bind_eq_some_iff.mp h
    split at h <;> cases h
    case h_1 hjob hstage => exact .undo htask hstage hjob
  | finish t =>
    obtain ⟨task, htask, h⟩ := bind_eq_some_iff.mp h
    split at h
    case h_1 stored hstage =>
      have hfinish := some.inj h
      unfold FileStore.finish at hfinish
      split at hfinish
      case h_1 hrest =>
        cases hfinish
        exact .next htask hstage hrest
      case h_2 hrest =>
        cases hfinish
        exact .done htask hstage fun _ => hrest
      case h_3 =>
        cases hfinish
        exact .done htask hstage nofun
    case h_2 => cases h

end Kukuri
