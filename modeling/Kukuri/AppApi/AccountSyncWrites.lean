import Kukuri.AppApi.AccountSyncDevice

/-!
# Rows and entries

A row that is marked as written should have its version in the replica. A task adopts a row before
it has the lock and does not look at the row again, so a task that is late overwrites the entry of
a newer row (`exists_stale_entry`). The main result, `entries_match_rows`, says that this is all
that can go wrong: rows and entries agree in every run in which an entry is set while its row is
the current one, and an item that is read from the replica is still there when it is adopted.
-/

namespace Kukuri

open Option Std.ExtTreeMap BTreeMap

/-! ### What tasks rely on -/

/-- The row that a task has to write or to mark. -/
def SyncStage.pending : SyncStage → Option AccountSyncRow
  | .compare row | .wait row | .setEntry row | .readHead row | .setSlot row _ | .setHead row _
  | .mark row => some row
  | _ => none

/-- The row whose entry a task has set or seen. -/
def SyncStage.placed : SyncStage → Option AccountSyncRow
  | .readHead row | .setSlot row _ | .setHead row _ | .mark row => some row
  | _ => none

/-- The device has the row or a newer one. -/
def Adopted (device : AccountSyncDevice) (row : AccountSyncRow) : Prop :=
  ∃ current, device.rows[row.key]? = some current ∧ row.version ≤ current.version

/-- While the row is the current one, the replica has it. -/
def Agrees (device : AccountSyncDevice) (row : AccountSyncRow) : Prop :=
  ∀ current, device.rows[row.key]? = some current → current.version = row.version →
    ∃ entry, device.entries[row.key]? = some entry ∧ entry.version = row.version

structure Tracked (device : AccountSyncDevice) (task : SyncTask) : Prop where
  pending : ∀ row ∈ task.stage.pending, ¬ IsExempt row.key → Adopted device row
  placed : ∀ row ∈ task.stage.placed, ¬ IsExempt row.key → Agrees device row
  queue : ∀ row ∈ task.queue, Adopted device row

/-- Rows that are marked as written are in the replica. -/
def Replicated (device : AccountSyncDevice) : Prop :=
  ∀ (key : String) (row : AccountSyncRow), ¬ IsExempt key → device.rows[key]? = some row →
    key ∉ device.unwritten →
    ∃ entry, device.entries[key]? = some entry ∧ entry.version = row.version

structure Consistent (state : DeviceState) : Prop where
  keyed : ∀ (key : String) (row : AccountSyncRow),
    state.device.rows[key]? = some row → row.key = key
  written : Replicated state.device
  tasks : ∀ i, Tracked state.device (state.tasks i)

/-- An entry is set while its row is the current one, and an item that was read from the replica
is adopted while it is still there. -/
structure Orderly (e : DeviceEvent) : Prop where
  write : ∀ i row, e.op = .advance i → (e.before.tasks i).stage = .setEntry row →
    ¬ IsExempt row.key →
    ∃ current, e.before.device.rows[row.key]? = some current ∧ current.version = row.version
  rebuild : ∀ i row commits, e.op = .advance i →
    (e.before.tasks i).stage = .merge row true commits → ¬ IsExempt row.key →
    ∃ entry, e.before.device.entries[row.key]? = some entry ∧ entry.version = row.version

/-! ### Changes of the device -/

section

variable {device device' : AccountSyncDevice} {task : SyncTask} {row row' : AccountSyncRow}

theorem Tracked.congr (h : Tracked device task) (hrows : device'.rows = device.rows)
    (hentries : device'.entries = device.entries) :
  Tracked device' task
  := by
  refine ⟨?_, ?_, ?_⟩
  · intro row hrow hexempt
    rw [Adopted, hrows]
    apply h.pending row hrow hexempt
  · intro row hrow hexempt
    rw [Agrees, hrows, hentries]
    apply h.placed row hrow hexempt
  · intro row hrow
    rw [Adopted, hrows]
    apply h.queue row hrow

/-- The device after the row has been adopted. -/
def AccountSyncDevice.withRow (device : AccountSyncDevice) (row : AccountSyncRow) :
    AccountSyncDevice :=
  { device with
    rows := device.rows.insert row.key row
    unwritten := device.unwritten.insert row.key }

theorem Adopted.withRow (h : Adopted device row)
    (hnewer : ∀ current, device.rows[row'.key]? = some current →
      current.version < row'.version) :
  Adopted (device.withRow row') row
  := by
  obtain ⟨current, hcurrent, hle⟩ := h
  by_cases hkey : row'.key = row.key
  · refine ⟨row', ?_, ?_⟩
    · rw [AccountSyncDevice.withRow, hkey, getElem?_insert_self]
    · rw [← hkey] at hcurrent
      apply le_trans hle (le_of_lt (hnewer current hcurrent))
  · exact ⟨current, (getElem?_insert_of_ne hkey).trans hcurrent, hle⟩

/-- A row that is adopted replaces every row that a task still relies on. -/
theorem Agrees.withRow (h : Agrees device row) (hadopted : Adopted device row)
    (hnewer : ∀ current, device.rows[row'.key]? = some current →
      current.version < row'.version) :
  Agrees (device.withRow row') row
  := by
  intro current hcurrent hversion
  by_cases hkey : row'.key = row.key
  · exfalso
    rw [AccountSyncDevice.withRow, hkey, getElem?_insert_self] at hcurrent
    cases hcurrent
    obtain ⟨old, hold, hle⟩ := hadopted
    rw [← hkey] at hold
    have hlt := lt_of_le_of_lt hle (hnewer old hold)
    rw [hversion] at hlt
    exact lt_irrefl _ hlt
  · apply h current _ hversion
    rw [AccountSyncDevice.withRow, getElem?_insert_of_ne hkey] at hcurrent
    apply hcurrent

theorem Tracked.withRow (h : Tracked device task)
    (hplaced : ∀ row ∈ task.stage.placed, row ∈ task.stage.pending)
    (hnewer : ∀ current, device.rows[row'.key]? = some current →
      current.version < row'.version) :
  Tracked (device.withRow row') task
  := by
  refine ⟨?_, ?_, ?_⟩
  · intro row hrow hexempt
    apply (h.pending row hrow hexempt).withRow hnewer
  · intro row hrow hexempt
    apply (h.placed row hrow hexempt).withRow (h.pending row (hplaced row hrow) hexempt) hnewer
  · intro row hrow
    apply (h.queue row hrow).withRow hnewer

theorem SyncStage.pending_of_placed {stage : SyncStage} :
  ∀ row ∈ stage.placed, row ∈ stage.pending
  := by
  intro row hrow
  cases stage <;> first | exact hrow | cases hrow

/-- The device after an entry has been set. -/
def AccountSyncDevice.withEntry (device : AccountSyncDevice) (row : AccountSyncRow) :
    AccountSyncDevice :=
  { device with entries := device.entries.insert row.key row }

theorem Tracked.withEntry (h : Tracked device task)
    (hcurrent : ¬ IsExempt row'.key → ∃ current, device.rows[row'.key]? = some current ∧
      current.version = row'.version) :
  Tracked (device.withEntry row') task
  := by
  refine ⟨h.pending, ?_, h.queue⟩
  intro row hrow hexempt current hrows hversion
  by_cases hkey : row'.key = row.key
  · rw [hkey] at hcurrent
    obtain ⟨current', hrows', hversion'⟩ := hcurrent hexempt
    have hsame : device.rows[row.key]? = some current := hrows
    rw [hrows'] at hsame
    cases hsame
    refine ⟨row', ?_, hversion'.symm.trans hversion⟩
    rw [AccountSyncDevice.withEntry, hkey, getElem?_insert_self]
  · obtain ⟨entry, hentry, hversion⟩ := h.placed row hrow hexempt current hrows hversion
    exact ⟨entry, (getElem?_insert_of_ne hkey).trans hentry, hversion⟩

theorem Replicated.withEntry (h : Replicated device)
    (hcurrent : ¬ IsExempt row'.key → ∃ current, device.rows[row'.key]? = some current ∧
      current.version = row'.version) :
  Replicated (device.withEntry row')
  := by
  intro key row hexempt hrow hwritten
  by_cases hkey : row'.key = key
  · subst hkey
    obtain ⟨current, hrows, hversion⟩ := hcurrent hexempt
    have hsame : device.rows[row'.key]? = some row := hrow
    rw [hrows] at hsame
    cases hsame
    exact ⟨row', getElem?_insert_self, hversion.symm⟩
  · obtain ⟨entry, hentry, hversion⟩ := h key row hexempt hrow hwritten
    exact ⟨entry, (getElem?_insert_of_ne hkey).trans hentry, hversion⟩

theorem Replicated.withRow (h : Replicated device) :
  Replicated (device.withRow row')
  := by
  intro key row hexempt hrow hwritten
  have hkey : row'.key ≠ key := by
    rintro rfl
    apply hwritten
    apply Std.ExtTreeSet.mem_insert_self
  rw [AccountSyncDevice.withRow, BTreeMap.getElem?_insert_of_ne hkey] at hrow
  apply h key row hexempt hrow
  intro hmem
  apply hwritten
  rw [AccountSyncDevice.withRow, Std.ExtTreeSet.mem_insert]
  exact .inr hmem

/-- A task at a stage that relies on nothing. -/
theorem Tracked.of_stage (h : Tracked device task) {task' : SyncTask}
    (hqueue : ∀ row ∈ task'.queue, row ∈ task.queue) (hpending : task'.stage.pending = none) :
  Tracked device task'
  := by
  refine ⟨?_, ?_, fun row hrow => h.queue row (hqueue row hrow)⟩
  · intro row hrow
    rw [hpending] at hrow
    cases hrow
  · intro row hrow
    have hrow := SyncStage.pending_of_placed row hrow
    rw [hpending] at hrow
    cases hrow

/-- Going on with the next row relies on the queue only. -/
theorem Tracked.finish (h : Tracked device task) :
  Tracked device task.finish
  := by
  unfold SyncTask.finish
  split
  case h_1 row queue hqueue =>
    have hadopted := h.queue
    rw [hqueue] at hadopted
    refine ⟨?_, ?_, fun other hother => hadopted other (.tail _ hother)⟩
    · rintro other ⟨⟩ _
      apply hadopted row (.head _)
    · rintro other ⟨⟩
  case h_2 hqueue =>
    split <;> apply h.of_stage _ rfl
    · exact fun row hrow => hrow
    · exact fun row hrow => absurd hrow List.not_mem_nil

theorem Tracked.goto (h : Tracked device task) (stage : SyncStage)
    (hpending : ∀ row ∈ stage.pending, ¬ IsExempt row.key → Adopted device row)
    (hplaced : ∀ row ∈ stage.placed, ¬ IsExempt row.key → Agrees device row) :
  Tracked device (task.goto stage)
  :=
  ⟨hpending, hplaced, h.queue⟩

end

/-! ### Steps -/

theorem tracked_idle (device : AccountSyncDevice) :
  Tracked device .idle
  := by
  refine ⟨?_, ?_, ?_⟩
  · rintro row ⟨⟩
  · rintro row ⟨⟩
  · rintro row ⟨⟩

theorem consistent_of_fresh {state : DeviceState} (h : Fresh state) :
  Consistent state
  := by
  refine ⟨?_, ?_, ?_⟩
  · intro key row hrow
    rw [h.rows, getElem?_empty] at hrow
    cases hrow
  · intro key row _ hrow
    rw [h.rows, getElem?_empty] at hrow
    cases hrow
  · intro i
    rw [h.tasks]
    apply tracked_idle

/-- What a step of a task does to the device: it changes neither rows nor entries, it adopts a
row, it sets an entry, or it marks a row. -/
inductive Touch (device : AccountSyncDevice) : AccountSyncDevice → Prop
  | keep {device' : AccountSyncDevice} (hrows : device'.rows = device.rows)
    (hunwritten : device'.unwritten = device.unwritten)
    (hentries : device'.entries = device.entries) : Touch device device'
  | adopt (row : AccountSyncRow) (hnewer : ∀ current, device.rows[row.key]? = some current →
      current.version < row.version) : Touch device (device.withRow row)
  | place (row : AccountSyncRow) (hcurrent : ¬ IsExempt row.key →
      ∃ current, device.rows[row.key]? = some current ∧ current.version = row.version) :
    Touch device (device.withEntry row)
  | mark (row : AccountSyncRow) (hcurrent : ∃ current, device.rows[row.key]? = some current ∧
      current.version = row.version) (hagrees : ¬ IsExempt row.key → Agrees device row) :
    Touch device { device with unwritten := device.unwritten.erase row.key }

section

variable {device device' : AccountSyncDevice} {task task' : SyncTask} {row : AccountSyncRow}
  {i : ℕ}

theorem Touch.tracked (htouch : Touch device device') (h : Tracked device task) :
  Tracked device' task
  := by
  cases htouch with
  | keep hrows _ hentries => apply h.congr hrows hentries
  | adopt row hnewer => apply h.withRow SyncStage.pending_of_placed hnewer
  | place row hcurrent => apply h.withEntry hcurrent
  | mark => exact h.congr rfl rfl

theorem Touch.keyed (htouch : Touch device device')
    (h : ∀ (key : String) (row : AccountSyncRow), device.rows[key]? = some row → row.key = key) :
  ∀ (key : String) (row : AccountSyncRow), device'.rows[key]? = some row → row.key = key
  := by
  cases htouch with
  | keep hrows => rwa [hrows]
  | adopt row' _ =>
    intro key row hrow
    rcases getElem?_of_insert hrow with ⟨hkey, rfl⟩ | ⟨-, hrow⟩
    · apply hkey
    · apply h key row hrow
  | place => apply h
  | mark => apply h

theorem Touch.replicated (htouch : Touch device device') (h : Replicated device) :
  Replicated device'
  := by
  cases htouch with
  | keep hrows hunwritten hentries =>
    rw [Replicated, hrows, hunwritten, hentries]
    apply h
  | adopt => apply h.withRow
  | place row hcurrent => apply h.withEntry hcurrent
  | mark row' hcurrent hagrees =>
    intro key row hexempt hrow hwritten
    by_cases hkey : row'.key = key
    · subst hkey
      obtain ⟨current, hrows, hversion⟩ := hcurrent
      have hsame : device.rows[row'.key]? = some row := hrow
      rw [hrows] at hsame
      obtain rfl := some.inj hsame
      obtain ⟨entry, hentry, hentryVersion⟩ := hagrees hexempt current hrows hversion
      exact ⟨entry, hentry, hentryVersion.trans hversion.symm⟩
    · apply h key row hexempt hrow
      intro hmem
      apply hwritten
      rw [Std.ExtTreeSet.mem_erase]
      refine ⟨?_, hmem⟩
      rwa [ne_eq, Std.LawfulEqCmp.compare_eq_iff_eq]

theorem touch_refl (device : AccountSyncDevice) : Touch device device := .keep rfl rfl rfl

/-- A row is adopted, and the device then has it, or the device has a newer one. -/
theorem touch_adoptAccountSyncRow (device : AccountSyncDevice) (row : AccountSyncRow) :
  ∃ adopted device', device.adoptAccountSyncRow row = (adopted, device') ∧
    Touch device device' ∧
    (adopted = true → Adopted device' row ∧ device'.entries = device.entries)
  := by
  obtain ⟨heq, hnewer⟩ | heq := adoptAccountSyncRow_cases device row
  · refine ⟨true, device.withRow row, heq, .adopt row hnewer, fun _ => ⟨⟨row, ?_, le_rfl⟩, rfl⟩⟩
    rw [AccountSyncDevice.withRow, getElem?_insert_self]
  · exact ⟨false, device, heq, touch_refl device, fun h => by cases h⟩

theorem adopted_of_mem_list (hkeyed : ∀ (key : String) (row : AccountSyncRow),
      device.rows[key]? = some row → row.key = key) {limit : ℕ}
    (hrow : row ∈ device.listUnwrittenAccountSyncRows limit) :
  Adopted device row
  := by
  obtain ⟨key, _, hrow⟩ := List.mem_filterMap.mp hrow
  obtain rfl := hkeyed key row hrow
  exact ⟨row, hrow, le_rfl⟩

/-- A step of a task, when it is orderly. -/
theorem next_touches (hnext : task.next i device = some (device', task'))
    (hkeyed : ∀ (key : String) (row : AccountSyncRow),
      device.rows[key]? = some row → row.key = key)
    (htracked : Tracked device task)
    (hwrite : ∀ row, task.stage = .setEntry row → ¬ IsExempt row.key →
      ∃ current, device.rows[row.key]? = some current ∧ current.version = row.version)
    (hrebuild : ∀ row commits, task.stage = .merge row true commits → ¬ IsExempt row.key →
      ∃ entry, device.entries[row.key]? = some entry ∧ entry.version = row.version) :
  Touch device device' ∧ Tracked device' task'
  := by
  have hpending := htracked.pending
  have hplaced := htracked.placed
  obtain ⟨stage, queue, relists⟩ := task
  cases stage
  case publish row =>
    simp only [SyncTask.next] at hnext
    obtain ⟨adopted, after, heq, htouch, hadopted⟩ := touch_adoptAccountSyncRow device row
    rw [heq] at hnext
    cases hnext
    refine ⟨htouch, ?_⟩
    split
    case isTrue h =>
      apply (htouch.tracked htracked).goto (.wait row)
      · rintro other ⟨⟩ _
        apply (hadopted h).1
      · rintro other ⟨⟩
    case isFalse => apply (htouch.tracked htracked).finish
  case adopt row =>
    simp only [SyncTask.next] at hnext
    obtain ⟨adopted, after, heq, htouch, _⟩ := touch_adoptAccountSyncRow device row
    rw [heq] at hnext
    cases hnext
    exact ⟨htouch, (htouch.tracked htracked).finish⟩
  case merge row fromOwnReplica commits =>
    simp only [SyncTask.next] at hnext
    obtain ⟨adopted, after, heq, htouch, hadopted⟩ := touch_adoptAccountSyncRow device row
    rw [heq] at hnext
    cases hnext
    refine ⟨htouch, ?_⟩
    split
    case isTrue h =>
      rw [Bool.and_eq_true] at h
      obtain ⟨hadopted, hentries⟩ := hadopted h.1
      cases fromOwnReplica with
      | false =>
        apply (htouch.tracked htracked).goto (.wait row)
        · rintro other ⟨⟩ _
          apply hadopted
        · rintro other ⟨⟩
      | true =>
        apply (htouch.tracked htracked).goto (.mark row)
        · rintro other ⟨⟩ _
          apply hadopted
        · rintro other ⟨⟩ hexempt _ _ _
          rw [hentries]
          apply hrebuild row commits rfl hexempt
    case isFalse => apply (htouch.tracked htracked).finish
  all_goals try cases hnext
  case rebuild key commits =>
    simp only [SyncTask.next] at hnext
    split at hnext <;> cases hnext
    case h_1 => exact ⟨touch_refl _, htracked.of_stage (fun _ h => h) rfl⟩
    case h_2 => exact ⟨touch_refl _, htracked.finish⟩
  case list =>
    simp only [SyncTask.next] at hnext
    have hadopted : ∀ row ∈ device.listUnwrittenAccountSyncRows accountSyncPage,
        Adopted device row := fun row => adopted_of_mem_list hkeyed
    generalize device.listUnwrittenAccountSyncRows accountSyncPage = found at hnext hadopted
    cases found <;> cases hnext
    case nil => exact ⟨touch_refl _, tracked_idle _⟩
    case cons row queue =>
      refine ⟨touch_refl _, ?_, ?_, fun other hother => hadopted other (.tail _ hother)⟩
      · rintro other ⟨⟩ _
        apply hadopted row (.head _)
      · rintro other ⟨⟩
  case compare row =>
    refine ⟨touch_refl _, ?_⟩
    split
    case isTrue h =>
      obtain ⟨entry, hentry, hversion⟩ := (any_eq_true _ _).mp h
      apply htracked.goto (.mark row) hpending
      rintro other ⟨⟩ _ _ _ _
      exact ⟨entry, hentry, of_decide_eq_true hversion⟩
    case isFalse =>
      apply htracked.goto (.wait row) hpending
      rintro other ⟨⟩
  case wait row =>
    simp only [SyncTask.next] at hnext
    split at hnext <;> cases hnext
    have htouch : Touch device { device with writing := some i } := .keep rfl rfl rfl
    exact ⟨htouch, (htouch.tracked htracked).goto (.setEntry row) hpending hplaced⟩
  case setEntry row =>
    have htouch : Touch device (device.withEntry row) := .place row (hwrite row rfl)
    refine ⟨htouch, (htouch.tracked htracked).goto (.readHead row) hpending ?_⟩
    rintro other ⟨⟩ _ _ _ _
    exact ⟨row, getElem?_insert_self, rfl⟩
  case readHead row => exact ⟨touch_refl _, htracked.goto (.setSlot row _) hpending hplaced⟩
  case setSlot row seq =>
    refine ⟨.keep rfl rfl rfl, ?_⟩
    exact (htracked.goto (.setHead row seq) hpending hplaced).congr rfl rfl
  case setHead row seq =>
    refine ⟨.keep rfl rfl rfl, ?_⟩
    exact (htracked.goto (.mark row) hpending hplaced).congr rfl rfl
  case mark row =>
    obtain ⟨heq, hcurrent⟩ | heq := markAccountSyncWritten_cases device row <;> rw [heq]
    · have htouch := Touch.mark row hcurrent (hplaced row rfl)
      exact ⟨htouch, (htouch.tracked htracked).finish⟩
    · exact ⟨touch_refl _, htracked.finish⟩

end

/-- A task that starts relies on nothing: only exempt rows are written without an adoption. -/
theorem tracked_of_starts {device : AccountSyncDevice} {stage : SyncStage} (h : Starts stage) :
  Tracked device (SyncTask.idle.goto stage)
  := by
  apply (tracked_idle device).goto stage
  · intro row hrow hexempt
    cases stage with
    | wait =>
      cases hrow
      exact absurd h hexempt
    | idle | publish | adopt | merge | rebuild | list => cases hrow
    | _ => exact h.elim
  · intro row hrow
    cases stage with
    | readHead | setSlot | setHead | mark => exact h.elim
    | _ => cases hrow

theorem Consistent.touch {state : DeviceState} (h : Consistent state)
    {device : AccountSyncDevice} (htouch : Touch state.device device) {i : ℕ} {task : SyncTask}
    (htask : Tracked device task) :
  Consistent ⟨device, Function.update state.tasks i task⟩
  := by
  refine ⟨htouch.keyed h.keyed, htouch.replicated h.written, ?_⟩
  intro j
  by_cases hj : j = i
  · subst hj
    simp only [Function.update_self]
    exact htask
  · simp only [Function.update_of_ne hj]
    exact htouch.tracked (h.tasks j)

theorem Consistent.step {before after : DeviceState} {call : DeviceCall} {ret : Unit}
    (h : Consistent before) (hstep : DeviceStep before call ret after)
    (horderly : Orderly ⟨before, call, ret, after⟩) :
  Consistent after
  := by
  cases call with
  | start i stage =>
    obtain ⟨_, hstarts, rfl⟩ := hstep
    exact h.touch (touch_refl _) (tracked_of_starts hstarts)
  | advance i =>
    obtain ⟨⟨device, task⟩, hnext, rfl⟩ := map_eq_some_iff.mp hstep
    obtain ⟨htouch, htask⟩ := next_touches hnext h.keyed (h.tasks i)
      (fun row => horderly.write i row rfl) (fun row commits => horderly.rebuild i row commits rfl)
    exact h.touch htouch htask
  | stop i =>
    obtain rfl := hstep
    have htouch : Touch before.device (before.stop i).device := .keep rfl rfl rfl
    exact h.touch htouch (tracked_idle _)

/-! ### Rows and entries at rest -/

/-- Once a row is marked as written, the replica has its version, in every run in which entries
are set and items adopted in order. -/
theorem entries_match_rows {start state : DeviceState} {history : List DeviceEvent}
    (hstart : Fresh start) (htrace : Trace DeviceStep start history state)
    (horderly : ∀ e ∈ history, Orderly e) :
  ∀ (key : String) (row : AccountSyncRow), ¬ IsExempt key →
    state.device.rows[key]? = some row → key ∉ state.device.unwritten →
    ∃ entry, state.device.entries[key]? = some entry ∧ entry.version = row.version
  := by
  have hconsistent : Consistent state := by
    apply htrace.invariant_of_forall horderly (consistent_of_fresh hstart)
    intro before call ret after hbefore hstep he
    apply hbefore.step hstep he
  apply hconsistent.written

namespace Sample

/-- Two tasks publish an edit each. The one with the older edit gets the lock last. -/
def overtaking : List DeviceCall :=
  [.start 0 (.publish (edit 1)), .start 1 (.publish (edit 2)), .advance 0] ++
    List.replicate 7 (.advance 1) ++ List.replicate 6 (.advance 0)

/-- Whether the step is orderly, also for exempt rows. -/
def inOrder (e : DeviceEvent) : Bool :=
  match e.op with
  | .advance i =>
    match (e.before.tasks i).stage with
    | .setEntry row => e.before.device.rows[row.key]?.any fun current =>
        decide (current.version = row.version)
    | .merge row true _ => e.before.device.entries[row.key]?.any fun entry =>
        decide (entry.version = row.version)
    | _ => true
  | _ => true

theorem orderly_of_inOrder {e : DeviceEvent} (h : inOrder e) :
  Orderly e
  := by
  refine ⟨?_, ?_⟩
  · intro i row hop hstage _
    simp only [inOrder, hop, hstage] at h
    obtain ⟨current, hcurrent, hversion⟩ := (any_eq_true _ _).mp h
    exact ⟨current, hcurrent, of_decide_eq_true hversion⟩
  · intro i row commits hop hstage _
    simp only [inOrder, hop, hstage] at h
    obtain ⟨entry, hentry, hversion⟩ := (any_eq_true _ _).mp h
    exact ⟨entry, hentry, of_decide_eq_true hversion⟩

/-- Calls that only publish can be made. -/
theorem trace_of_publishing {calls : List DeviceCall} (hcalls : ∀ call ∈ calls,
      (∃ i row, call = .start i (.publish row)) ∨ ∃ i, call = .advance i)
    (state : DeviceState) :
  Trace DeviceStep state (Trace.replay DeviceState.perform state calls).1
    (Trace.replay DeviceState.perform state calls).2
  := by
  apply Trace.of_replay
  intro call hcall before ret after hperform
  apply deviceStep_of_perform _ hperform
  rintro i stage rfl
  obtain ⟨_, row, heq⟩ | ⟨_, heq⟩ := hcalls _ hcall <;> cases heq
  · trivial

theorem not_isExempt_profile :
  ¬ IsExempt "profile"
  := by
  have hnot (channelId item : String) : channelKey channelId item ≠ "profile" := by
    apply Text.append_ne
    decide
  rintro (⟨channelId, epochId, heq⟩ | ⟨channelId, heq⟩)
  · exact hnot _ _ heq.symm
  · exact hnot _ _ heq.symm

end Sample

open Sample

/-- After an edit has been published, its row is marked as written and the replica has it. -/
theorem entries_match_rows_publishing :
  let run := Trace.replay DeviceState.perform Sample.newDevice Sample.publishing
  run.2.device.rows["profile"]? = some (Sample.edit 1) ∧ "profile" ∉ run.2.device.unwritten ∧
    ∃ entry, run.2.device.entries["profile"]? = some entry ∧
      entry.version = (Sample.edit 1).version
  := by
  intro run
  have htrace : Trace DeviceStep newDevice run.1 run.2 := by
    apply trace_of_publishing
    simp [publishing]
  have horderly : ∀ e ∈ run.1, Orderly e := by
    have hall : run.1.all inOrder = true := by decide +kernel
    intro e he
    apply orderly_of_inOrder
    apply List.all_eq_true.mp hall e he
  have hrow : run.2.device.rows["profile"]? = some (edit 1) := by decide +kernel
  have hwritten : "profile" ∉ run.2.device.unwritten := by decide +kernel
  exact ⟨hrow, hwritten, entries_match_rows fresh_newDevice htrace horderly "profile" _
    not_isExempt_profile hrow hwritten⟩

/-- An edit that is published while another task publishes a newer one overwrites it in the
replica: at the end no task is left, the newer row is marked as written, and the replica has the
older one. -/
theorem exists_stale_entry :
  ∃ (start state : DeviceState) (history : List DeviceEvent) (row entry : AccountSyncRow),
    Fresh start ∧ Trace DeviceStep start history state ∧
    (∀ e ∈ history, (∃ i row, e.op = .start i (.publish row)) ∨ ∃ i, e.op = .advance i) ∧
    (∀ i, state.tasks i = .idle) ∧ ¬ IsExempt "profile" ∧
    state.device.rows["profile"]? = some row ∧ "profile" ∉ state.device.unwritten ∧
    state.device.entries["profile"]? = some entry ∧ entry.version < row.version
  := by
  have hcalls : ∀ call ∈ overtaking,
      (∃ i row, call = .start i (.publish row)) ∨ ∃ i, call = .advance i := by
    simp [overtaking]
  have htrace := trace_of_publishing hcalls newDevice
  refine ⟨_, _, _, edit 2, edit 1, fresh_newDevice, htrace, ?_, ?_,
    not_isExempt_profile, ?_, ?_, ?_, ?_⟩
  · intro e he
    apply hcalls _ (Trace.op_mem_of_mem_replay he)
  · intro i
    by_cases hi : i < 2
    · interval_cases i
      · decide +kernel
      · decide +kernel
    · -- No call is about another task.
      apply htrace.invariant_of_forall (P := fun state => state.tasks i = .idle)
        (C := fun e => e.op.task < 2)
      · intro e he
        have htasks : ∀ call ∈ overtaking, call.task < 2 := by decide
        apply htasks _ (Trace.op_mem_of_mem_replay he)
      · rfl
      · intro before call ret after hidle hstep hcall
        have hother : call.task ≠ i := Nat.ne_of_lt (lt_of_lt_of_le hcall (Nat.le_of_not_lt hi))
        rw [hstep.tasks_of_ne hother]
        exact hidle
  · decide +kernel
  · decide +kernel
  · decide +kernel
  · decide

end Kukuri
