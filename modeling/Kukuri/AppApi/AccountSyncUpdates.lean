import Kukuri.AppApi.AccountSyncFetch

/-!
# Updates reach the reader

A write that stops after its entry and before the head leaves an item that no change announces,
and sending the row again only finds that the replica has it (`exists_lost_update`). The main
result, `updates_reach_reader`, is about the runs without such stops: a reader that has caught up
has every item of the writer, in the version of its replica or a newer one.

The proof keeps a log of the announced keys. For every cursor, stored or in use by a fetch, each
item of the writer is announced after the cursor, or is about to be announced, or the reader has
it, or it is among those that the fetch is still to read (`Owes`).
-/

namespace Kukuri

open Option BTreeMap BTreeSet Function

/-! ### Writes under the lock -/

/-- The row of a write that has set its entry and not yet the head. -/
def SyncStage.announcing : SyncStage → Option AccountSyncRow
  | .readHead row | .setSlot row _ | .setHead row _ => some row
  | _ => none

/-- Stages at which a task holds the lock. -/
def SyncStage.isLocked : SyncStage → Bool
  | .setEntry _ | .readHead _ | .setSlot _ _ | .setHead _ _ => true
  | _ => false

theorem SyncStage.announcing_eq_none {stage : SyncStage} (h : stage.isLocked = false) :
  stage.announcing = none
  := by
  cases stage with
  | readHead | setSlot | setHead => cases h
  | _ => rfl

/-- The task goes on without the lock, and the replica does not change. -/
structure Quiet (device : AccountSyncDevice) (task : SyncTask) (device' : AccountSyncDevice)
    (task' : SyncTask) : Prop where
  entries : device'.entries = device.entries
  slots : device'.slots = device.slots
  head : device'.head = device.head
  writing : device'.writing = device.writing
  before : task.stage.isLocked = false
  after : task'.stage.isLocked = false

/-- What a step of a task does to the replica. -/
inductive TaskStep (i : ℕ) (device : AccountSyncDevice) (task : SyncTask) :
    AccountSyncDevice → SyncTask → Prop
  | quiet {device' : AccountSyncDevice} {task' : SyncTask}
      (h : Quiet device task device' task') : TaskStep i device task device' task'
  | lock (row : AccountSyncRow) (hstage : task.stage = .wait row)
      (hfree : device.writing = none) :
      TaskStep i device task { device with writing := some i } (task.goto (.setEntry row))
  | setEntry (row : AccountSyncRow) (hstage : task.stage = .setEntry row) :
      TaskStep i device task { device with entries := device.entries.insert row.key row }
        (task.goto (.readHead row))
  | readHead (row : AccountSyncRow) (hstage : task.stage = .readHead row) :
      TaskStep i device task device (task.goto (.setSlot row (device.headSeq + 1)))
  | setSlot (row : AccountSyncRow) (seq : ℕ) (hstage : task.stage = .setSlot row seq) :
      TaskStep i device task
        { device with
          slots := device.slots.insert (seq % accountSyncChangeWindow) ⟨seq, row.key⟩ }
        (task.goto (.setHead row seq))
  | setHead (row : AccountSyncRow) (seq : ℕ) (hstage : task.stage = .setHead row seq) :
      TaskStep i device task { device with head := some seq, writing := none }
        (task.goto (.mark row))

theorem isLocked_finish (task : SyncTask) :
  task.finish.stage.isLocked = false
  := by
  unfold SyncTask.finish
  split
  · rfl
  · split <;> rfl

variable {i j seq : ℕ} {device device' : AccountSyncDevice} {task task' : SyncTask}
  {log log' : List String} {before writer : DeviceState} {reader : AccountSyncReader}
  {owes owes' : ℕ → (AccountSyncRow → Prop) → Prop} {rest rest' : AccountSyncRow → Prop}
  {item row entry : AccountSyncRow} {cursor : AccountSyncCursor} {stage : FetchStage} {key : String}

theorem quiet_of_adopt (row : AccountSyncRow) (hbefore : task.stage.isLocked = false)
    (hafter : task'.stage.isLocked = false) :
  Quiet device task (device.adoptAccountSyncRow row).2 task'
  := by
  obtain ⟨heq, _⟩ | heq := adoptAccountSyncRow_cases device row <;> rw [heq]
  · exact ⟨rfl, rfl, rfl, rfl, hbefore, hafter⟩
  · exact ⟨rfl, rfl, rfl, rfl, hbefore, hafter⟩

theorem taskStep_of_next (hnext : task.next i device = some (device', task')) :
  TaskStep i device task device' task'
  := by
  obtain ⟨stage, queue, relists⟩ := task
  cases stage <;> try cases hnext
  case publish row =>
    apply TaskStep.quiet
    apply quiet_of_adopt row rfl
    split
    · rfl
    · apply isLocked_finish
  case adopt row =>
    apply TaskStep.quiet
    apply quiet_of_adopt row rfl (isLocked_finish _)
  case merge row fromOwnReplica commits =>
    apply TaskStep.quiet
    apply quiet_of_adopt row rfl
    split
    · cases fromOwnReplica <;> rfl
    · apply isLocked_finish
  case rebuild key commits =>
    simp only [SyncTask.next] at hnext
    split at hnext <;> cases hnext
    case h_1 => exact .quiet ⟨rfl, rfl, rfl, rfl, rfl, rfl⟩
    case h_2 => exact .quiet ⟨rfl, rfl, rfl, rfl, rfl, isLocked_finish _⟩
  case list =>
    simp only [SyncTask.next] at hnext
    split at hnext <;> cases hnext
    all_goals exact .quiet ⟨rfl, rfl, rfl, rfl, rfl, rfl⟩
  case compare row =>
    refine .quiet ⟨rfl, rfl, rfl, rfl, rfl, ?_⟩
    split <;> rfl
  case wait row =>
    simp only [SyncTask.next] at hnext
    split at hnext <;> cases hnext
    case h_2 hwriting => exact .lock row rfl hwriting
  case setEntry row => exact .setEntry row rfl
  case readHead row => exact .readHead row rfl
  case setSlot row seq => exact .setSlot row seq rfl
  case setHead row seq => exact .setHead row seq rfl
  case mark row =>
    apply TaskStep.quiet
    obtain ⟨heq, _⟩ | heq := markAccountSyncWritten_cases device row <;> rw [heq]
    · exact ⟨rfl, rfl, rfl, rfl, rfl, isLocked_finish _⟩
    · exact ⟨rfl, rfl, rfl, rfl, rfl, isLocked_finish _⟩

/-! ### The log of announced keys -/

/-- What the stage of a task says about the window of changes. -/
structure HoldsLock (log : List String) (device : AccountSyncDevice) (i : ℕ) (task : SyncTask) :
    Prop where
  lock : task.stage.isLocked = true → device.writing = some i
  slot : ∀ row seq, task.stage = .setSlot row seq → seq = log.length + 1
  head : ∀ row seq, task.stage = .setHead row seq → seq = log.length + 1 ∧
    device.slots[seq % accountSyncChangeWindow]? = some ⟨seq, row.key⟩

/-- A change of the window is at its slot, and announces what the log says. -/
structure ChangeLogged (log : List String) (n : ℕ) (change : AccountSyncChange) : Prop where
  slot_eq : n = change.seq % accountSyncChangeWindow
  pos : 0 < change.seq
  logged : change.seq ≤ log.length → log[change.seq - 1]? = some change.docsKey

/-- The log is what the head and the window of the device announce. -/
structure Announced (log : List String) (state : DeviceState) : Prop where
  head : state.device.headSeq = log.length
  changes : ∀ n change, state.device.slots[n]? = some change → ChangeLogged log n change
  entries : ∀ key entry, state.device.entries[key]? = some entry →
    entry.key = key ∧ IsCycleKey key
  tasks : ∀ i, HoldsLock log state.device i (state.tasks i)

/-- Every item of the writer is announced from a place of the log on, or is about to be announced,
or the rows have it, or it is among the rest. -/
def Owes (log : List String) (writer : DeviceState) (rows : BTreeMap String AccountSyncRow)
    (seq : ℕ) (rest : AccountSyncRow → Prop) : Prop :=
  ∀ key entry, writer.device.entries[key]? = some entry →
    (∃ s, seq ≤ s ∧ log[s]? = some key) ∨
    (∃ i, ∃ row ∈ (writer.tasks i).stage.announcing, row.key = key) ∨
    (∃ row, rows[key]? = some row ∧ entry.version ≤ row.version) ∨ rest entry

/-- What was owed before is owed after. -/
structure Extends (log : List String) (before : DeviceState) (log' : List String)
    (after : DeviceState) : Prop where
  extends_log : log <+: log'
  owes : ∀ rows seq rest, seq ≤ log.length → Owes log before rows seq rest →
    Owes log' after rows seq rest

theorem holdsLock_of_unlocked (h : task.stage.isLocked = false) :
  HoldsLock log device i task
  := by
  refine ⟨?_, ?_, ?_⟩
  · intro hlocked
    rw [h] at hlocked
    cases hlocked
  · intro row seq hstage
    rw [hstage] at h
    cases h
  · intro row seq hstage
    rw [hstage] at h
    cases h

/-- While a task holds the lock, no other task does. -/
theorem Announced.unlocked_of_locked (h : Announced log before)
    (hlocked : (before.tasks i).stage.isLocked = true) (hj : j ≠ i) :
  (before.tasks j).stage.isLocked = false
  := by
  apply Bool.eq_false_iff.mpr
  intro hlocked'
  have hwriting := (h.tasks i).lock hlocked
  rw [(h.tasks j).lock hlocked'] at hwriting
  exact hj (some.inj hwriting)

theorem Announced.unlocked_of_free (h : Announced log before)
    (hfree : before.device.writing = none) (j : ℕ) :
  (before.tasks j).stage.isLocked = false
  := by
  apply Bool.eq_false_iff.mpr
  intro hlocked
  have hwriting := (h.tasks j).lock hlocked
  rw [hfree] at hwriting
  cases hwriting

/-- The tasks after a step, when all but the one that steps are without the lock. -/
theorem holdsLock_update (hothers : ∀ j, j ≠ i → (before.tasks j).stage.isLocked = false)
    (htask : HoldsLock log device i task) :
  ∀ j, HoldsLock log device j (Function.update before.tasks i task j)
  := by
  intro j
  by_cases hj : j = i
  · subst hj
    rw [update_self]
    apply htask
  · rw [update_of_ne hj]
    apply holdsLock_of_unlocked (hothers j hj)

/-- A task that goes on to announce the row that it was announcing leaves the others alone. -/
theorem announcing_update {tasks : ℕ → SyncTask} (hrow : row ∈ (tasks j).stage.announcing)
    (hkeep : row ∈ (tasks i).stage.announcing → row ∈ task.stage.announcing) :
  row ∈ (Function.update tasks i task j).stage.announcing
  := by
  by_cases hj : j = i
  · subst hj
    rw [update_self]
    apply hkeep hrow
  · rw [update_of_ne hj]
    apply hrow

/-- Nothing is owed anew when the entries stay and no row stops being announced. -/
theorem extends_of_keep (hentries : device.entries = before.device.entries)
    (hkeep : ∀ row ∈ (before.tasks i).stage.announcing, row ∈ task.stage.announcing) :
  Extends log before log ⟨device, Function.update before.tasks i task⟩
  := by
  refine ⟨List.prefix_rfl, ?_⟩
  intro rows seq rest _ howes key entry hentry
  simp only [hentries] at hentry
  rcases howes key entry hentry with hlogged | ⟨j, row, hrow, hkey⟩ | hrows | hrest
  · exact .inl hlogged
  · exact .inr (.inl ⟨j, row, announcing_update hrow (hkeep row), hkey⟩)
  · exact .inr (.inr (.inl hrows))
  · exact .inr (.inr (.inr hrest))

/-- A task sets an entry: it is about to be announced. -/
theorem extends_setEntry (hstage : (before.tasks i).stage = .setEntry row) :
  Extends log before log
    ⟨{ before.device with entries := before.device.entries.insert row.key row },
      Function.update before.tasks i ((before.tasks i).goto (.readHead row))⟩
  := by
  refine ⟨List.prefix_rfl, ?_⟩
  intro rows seq rest _ howes key entry hentry
  by_cases hkey : row.key = key
  · right; left
    refine ⟨i, row, ?_, hkey⟩
    simp only [update_self]
    rfl
  · simp only [getElem?_insert_of_ne hkey] at hentry
    rcases howes key entry hentry with hlogged | ⟨j, row', hrow, hkey'⟩ | hrows | hrest
    · exact .inl hlogged
    · refine .inr (.inl ⟨j, row', announcing_update hrow ?_, hkey'⟩)
      rw [hstage]
      rintro ⟨⟩
    · exact .inr (.inr (.inl hrows))
    · exact .inr (.inr (.inr hrest))

/-- A task sets the head: its row is announced at the end of the log. -/
theorem extends_setHead (hstage : (before.tasks i).stage = .setHead row seq) :
  Extends log before (log ++ [row.key])
    ⟨{ before.device with head := some seq, writing := none },
      Function.update before.tasks i ((before.tasks i).goto (.mark row))⟩
  := by
  refine ⟨List.prefix_append _ _, ?_⟩
  intro rows from_ rest hfrom howes key entry hentry
  rcases howes key entry hentry with ⟨s, hs, hlogged⟩ | ⟨j, row', hrow, hkey⟩ | hrows | hrest
  · refine .inl ⟨s, hs, ?_⟩
    have hlt := (List.getElem?_eq_some_iff.mp hlogged).1
    rw [List.getElem?_append_left hlt]
    apply hlogged
  · by_cases hj : j = i
    · subst hj
      rw [hstage] at hrow
      cases hrow
      refine .inl ⟨log.length, hfrom, ?_⟩
      rw [List.getElem?_concat_length, hkey]
    · right; left
      refine ⟨j, row', ?_, hkey⟩
      simp only [update_of_ne hj]
      apply hrow
  · exact .inr (.inr (.inl hrows))
  · exact .inr (.inr (.inr hrest))

theorem Announced.quiet (h : Announced log before)
    (hquiet : Quiet before.device (before.tasks i) device task') :
  Announced log ⟨device, Function.update before.tasks i task'⟩
  := by
  refine ⟨?_, ?_, ?_, ?_⟩
  · simp only [AccountSyncDevice.headSeq, hquiet.head]
    apply h.head
  · simp only [hquiet.slots]
    apply h.changes
  · simp only [hquiet.entries]
    apply h.entries
  · intro j
    by_cases hj : j = i
    · subst hj
      simp only [update_self]
      apply holdsLock_of_unlocked hquiet.after
    · simp only [update_of_ne hj]
      obtain ⟨hlock, hslot, hhead⟩ := h.tasks j
      refine ⟨?_, hslot, ?_⟩
      · rw [hquiet.writing]
        apply hlock
      · rw [hquiet.slots]
        apply hhead

/-- A change that is put into the window for the next place of the log. -/
theorem ChangeLogged.of_next (key : String) :
  ChangeLogged log ((log.length + 1) % accountSyncChangeWindow) ⟨log.length + 1, key⟩
  := by
  refine ⟨rfl, Nat.succ_pos _, ?_⟩
  intro hle
  exact absurd hle (Nat.not_succ_le_self _)

/-- The change at the next place is announced by the head. -/
theorem ChangeLogged.concat {n : ℕ} {change : AccountSyncChange} (h : ChangeLogged log n change)
    (hnext : change.seq = log.length + 1 → change.docsKey = key) :
  ChangeLogged (log ++ [key]) n change
  := by
  refine ⟨h.slot_eq, h.pos, ?_⟩
  intro hle
  rw [List.length_append, List.length_singleton] at hle
  rcases Nat.lt_or_ge log.length change.seq with hlt | hge
  · have hseq : change.seq = log.length + 1 := by omega
    rw [hseq, Nat.add_sub_cancel, List.getElem?_concat_length, hnext hseq]
  · have hlogged := h.logged hge
    rw [List.getElem?_append_left (List.getElem?_eq_some_iff.mp hlogged).1]
    apply hlogged

/-- A step of a task keeps the log or extends it by the key that is announced. -/
theorem Announced.taskStep (h : Announced log before)
    (hstep : TaskStep i before.device (before.tasks i) device task)
    (hkey : ∀ row, (before.tasks i).stage = .setEntry row → IsCycleKey row.key) :
  ∃ log', Announced log' ⟨device, Function.update before.tasks i task⟩ ∧
    Extends log before log' ⟨device, Function.update before.tasks i task⟩
  := by
  cases hstep with
  | quiet hquiet =>
    refine ⟨log, h.quiet hquiet, extends_of_keep hquiet.entries ?_⟩
    rw [SyncStage.announcing_eq_none hquiet.before]
    rintro row ⟨⟩
  | lock row hstage hfree =>
    refine ⟨log, ⟨h.head, h.changes, h.entries, ?_⟩, extends_of_keep rfl ?_⟩
    · apply holdsLock_update fun j _ => h.unlocked_of_free hfree j
      exact ⟨fun _ => rfl, nofun, nofun⟩
    · rw [hstage]
      rintro row ⟨⟩
  | setEntry row hstage =>
    have hlocked : (before.tasks i).stage.isLocked = true := by rw [hstage]; rfl
    refine ⟨log, ⟨h.head, h.changes, ?_, ?_⟩, extends_setEntry hstage⟩
    · intro key entry hentry
      rcases getElem?_of_insert hentry with ⟨rfl, rfl⟩ | ⟨-, hentry⟩
      · exact ⟨rfl, hkey row hstage⟩
      · apply h.entries key entry hentry
    · apply holdsLock_update fun j hj => h.unlocked_of_locked hlocked hj
      exact ⟨fun _ => (h.tasks i).lock hlocked, nofun, nofun⟩
  | readHead row hstage =>
    have hlocked : (before.tasks i).stage.isLocked = true := by rw [hstage]; rfl
    refine ⟨log, ⟨h.head, h.changes, h.entries, ?_⟩, extends_of_keep rfl ?_⟩
    · apply holdsLock_update fun j hj => h.unlocked_of_locked hlocked hj
      refine ⟨fun _ => (h.tasks i).lock hlocked, ?_, nofun⟩
      rintro row seq ⟨⟩
      rw [h.head]
    · rw [hstage]
      exact fun row hrow => hrow
  | setSlot row seq hstage =>
    have hlocked : (before.tasks i).stage.isLocked = true := by rw [hstage]; rfl
    obtain rfl := (h.tasks i).slot row seq hstage
    refine ⟨log, ⟨h.head, ?_, h.entries, ?_⟩, extends_of_keep rfl ?_⟩
    · intro n change hchange
      rcases getElem?_of_insert hchange with ⟨rfl, rfl⟩ | ⟨-, hchange⟩
      · apply ChangeLogged.of_next
      · apply h.changes n change hchange
    · apply holdsLock_update fun j hj => h.unlocked_of_locked hlocked hj
      refine ⟨fun _ => (h.tasks i).lock hlocked, nofun, ?_⟩
      rintro row seq ⟨⟩
      exact ⟨rfl, Std.ExtTreeMap.getElem?_insert_self⟩
    · rw [hstage]
      exact fun row hrow => hrow
  | setHead row seq hstage =>
    have hlocked : (before.tasks i).stage.isLocked = true := by rw [hstage]; rfl
    obtain ⟨rfl, hslot⟩ := (h.tasks i).head row seq hstage
    refine ⟨log ++ [row.key], ⟨?_, ?_, h.entries, ?_⟩, extends_setHead hstage⟩
    · simp [AccountSyncDevice.headSeq]
    · intro n change hchange
      apply (h.changes n change hchange).concat
      -- There is one change for the next place: the one that this task has put there.
      intro hseq
      have hn := (h.changes n change hchange).slot_eq
      rw [hseq] at hn
      subst hn
      have hsame : before.device.slots[(log.length + 1) % accountSyncChangeWindow]? = some change :=
        hchange
      rw [hslot] at hsame
      cases hsame
      rfl
    · apply holdsLock_update fun j hj => h.unlocked_of_locked hlocked hj
      apply holdsLock_of_unlocked rfl

/-! ### What a fetch relies on -/

/-- Cursors are not ahead of the log. -/
structure CursorBounds (log : List String) (cursor : AccountSyncCursor) : Prop where
  seq : cursor.seq ≤ log.length
  head : cursor.head ≤ log.length
  cycleHead : cursor.cycleHead ≤ log.length

/-- What a cursor stands for: the items before its change are done, or the cycle still has to read
those that are ahead. -/
structure CursorSound (log : List String) (owes : ℕ → (AccountSyncRow → Prop) → Prop)
    (cursor : AccountSyncCursor) : Prop where
  bounds : CursorBounds log cursor
  caughtUp : cursor.cyclePrefix = none → owes cursor.seq fun _ => False
  cycle : ∀ start ∈ cursor.cyclePrefix, IsCycleKey start ∧
    owes cursor.cycleHead fun entry => position start ≤ position entry.key

/-- The item that is read covers the entry. -/
def Covers (item entry : AccountSyncRow) : Prop :=
  entry.key = item.key ∧ entry.version ≤ item.version

/-- What a step of the cycle has still to read: the items of the keys, and those ahead. -/
def Remaining (keys : List String) (next : Option String) (entry : AccountSyncRow) : Prop :=
  entry.key ∈ keys ∨ ∃ start ∈ next, position start ≤ position entry.key

def FetchSound (log : List String) (owes : ℕ → (AccountSyncRow → Prop) → Prop) :
    FetchStage → Prop
  | .idle | .readHead => True
  | .load head => head ≤ log.length
  | .query cursor start => CursorSound log owes cursor ∧ cursor.cyclePrefix = some start
  | .items cursor next keys => CursorBounds log cursor ∧ (∀ start ∈ next, IsCycleKey start) ∧
    owes cursor.cycleHead (Remaining keys next)
  | .merge cursor next keys item =>
    CursorBounds log cursor ∧ (∀ start ∈ next, IsCycleKey start) ∧
    owes cursor.cycleHead fun entry => Covers item entry ∨ Remaining keys next entry
  | .slot cursor last => CursorSound log owes cursor ∧ cursor.cyclePrefix = none ∧
    last ≤ log.length
  | .readItem cursor last docsKey => CursorBounds log cursor ∧ cursor.cyclePrefix = none ∧
    last ≤ log.length ∧ cursor.seq + 1 ≤ log.length ∧
    owes (cursor.seq + 1) fun entry => entry.key = docsKey
  | .adopt cursor last item => CursorBounds log cursor ∧ cursor.cyclePrefix = none ∧
    last ≤ log.length ∧ cursor.seq + 1 ≤ log.length ∧ owes (cursor.seq + 1) (Covers item)
  | .put cursor last => CursorBounds log cursor ∧ cursor.cyclePrefix = none ∧
    last ≤ log.length ∧ cursor.seq + 1 ≤ log.length ∧ owes (cursor.seq + 1) fun _ => False
  | .finish cursor => CursorSound log owes cursor

theorem CursorBounds.mono (h : CursorBounds log cursor) (hlog : log.length ≤ log'.length) :
  CursorBounds log' cursor
  :=
  ⟨h.seq.trans hlog, h.head.trans hlog, h.cycleHead.trans hlog⟩

theorem CursorSound.mono (h : CursorSound log owes cursor) (hlog : log.length ≤ log'.length)
    (howes : ∀ seq rest, seq ≤ log.length → owes seq rest → owes' seq rest) :
  CursorSound log' owes' cursor
  := by
  refine ⟨h.bounds.mono hlog, ?_, ?_⟩
  · intro hstands
    apply howes _ _ h.bounds.seq (h.caughtUp hstands)
  · intro start hstart
    obtain ⟨hkey, hcycle⟩ := h.cycle start hstart
    exact ⟨hkey, howes _ _ h.bounds.cycleHead hcycle⟩

/-- What a fetch relies on is kept while what is owed is kept. -/
theorem FetchSound.mono (h : FetchSound log owes stage) (hlog : log.length ≤ log'.length)
    (howes : ∀ seq rest, seq ≤ log.length → owes seq rest → owes' seq rest) :
  FetchSound log' owes' stage
  := by
  cases stage with
  | idle | readHead => trivial
  | load head => exact le_trans h hlog
  | query cursor start => exact ⟨h.1.mono hlog howes, h.2⟩
  | items cursor next keys | merge cursor next keys item =>
    obtain ⟨hbounds, hnext, h⟩ := h
    exact ⟨hbounds.mono hlog, hnext, howes _ _ hbounds.cycleHead h⟩
  | slot cursor last =>
    obtain ⟨hcursor, hstands, hlast⟩ := h
    exact ⟨hcursor.mono hlog howes, hstands, hlast.trans hlog⟩
  | readItem cursor last docsKey | adopt cursor last item | put cursor last =>
    obtain ⟨hbounds, hstands, hlast, hseq, h⟩ := h
    exact ⟨hbounds.mono hlog, hstands, hlast.trans hlog, hseq.trans hlog, howes _ _ hseq h⟩
  | finish cursor => exact CursorSound.mono h hlog howes

/-! ### Rows of the reader -/

theorem merge_rows (reader : AccountSyncReader) (item : AccountSyncRow)
    (hrow : reader.rows[key]? = some row) :
  ∃ row', (reader.merge item).rows[key]? = some row' ∧ row.version ≤ row'.version
  := by
  unfold AccountSyncReader.merge
  split
  case isTrue hnewer =>
    by_cases hkey : item.key = key
    · subst hkey
      rw [hrow] at hnewer
      exact ⟨item, Std.ExtTreeMap.getElem?_insert_self, le_of_lt (of_decide_eq_true hnewer)⟩
    · exact ⟨row, (getElem?_insert_of_ne hkey).trans hrow, le_rfl⟩
  case isFalse => exact ⟨row, hrow, le_rfl⟩

theorem merge_item (reader : AccountSyncReader) (item : AccountSyncRow) :
  ∃ row, (reader.merge item).rows[item.key]? = some row ∧ item.version ≤ row.version
  := by
  unfold AccountSyncReader.merge
  split
  case isTrue => exact ⟨item, Std.ExtTreeMap.getElem?_insert_self, le_rfl⟩
  case isFalse hnot =>
    generalize reader.rows[item.key]? = current at hnot
    cases current with
    | none =>
      exact absurd rfl hnot
    | some row =>
      refine ⟨row, rfl, not_lt.mp ?_⟩
      intro hlt
      apply hnot
      exact decide_eq_true hlt

theorem merge_cursor (reader : AccountSyncReader) (item : AccountSyncRow) :
  (reader.merge item).cursor = reader.cursor
  := by
  unfold AccountSyncReader.merge
  split <;> rfl

theorem Owes.weaken (h : Owes log writer reader.rows seq rest)
    (hrest : ∀ (key : String) (entry : AccountSyncRow),
      writer.device.entries[key]? = some entry → rest entry → rest' entry) :
  Owes log writer reader.rows seq rest'
  := by
  intro key entry hentry
  rcases h key entry hentry with hlogged | hannounced | hrows | h
  · exact .inl hlogged
  · exact .inr (.inl hannounced)
  · exact .inr (.inr (.inl hrows))
  · exact .inr (.inr (.inr (hrest key entry hentry h)))

section

variable (hannounced : Announced log writer)
include hannounced

/-- What the item covers is no longer owed once the item is merged. -/
theorem Owes.merge
    (h : Owes log writer reader.rows seq fun entry => Covers item entry ∨ rest entry) :
  Owes log writer (reader.merge item).rows seq rest
  := by
  intro key entry hentry
  rcases h key entry hentry with hlogged | hannounced | ⟨row, hrow, hle⟩ | hcovers | hrest
  · exact .inl hlogged
  · exact .inr (.inl hannounced)
  · obtain ⟨row', hrow', hle'⟩ := merge_rows reader item hrow
    exact .inr (.inr (.inl ⟨row', hrow', hle.trans hle'⟩))
  · obtain rfl := (hannounced.entries key entry hentry).1
    obtain ⟨row, hrow, hle⟩ := merge_item reader item
    rw [← hcovers.1] at hrow
    exact .inr (.inr (.inl ⟨row, hrow, hcovers.2.trans hle⟩))
  · exact .inr (.inr (.inr hrest))

theorem Owes.merge_of_owes (h : Owes log writer reader.rows seq rest) :
  Owes log writer (reader.merge item).rows seq rest
  := by
  apply Owes.merge hannounced
  apply Owes.weaken h
  exact fun key entry _ hrest => .inr hrest

/-- A new cursor: the cycle has everything ahead. -/
theorem cursorSound_new {head : ℕ} (hhead : head ≤ log.length) :
  CursorSound log (Owes log writer reader.rows) (newCursor head)
  := by
  refine ⟨⟨Nat.zero_le _, hhead, hhead⟩, nofun, ?_⟩
  rintro start ⟨⟩
  refine ⟨⟨0, [], placed_first⟩, ?_⟩
  intro key entry hentry
  obtain ⟨rfl, hkey⟩ := hannounced.entries key entry hentry
  exact .inr (.inr (.inr (position_first_le hkey)))

theorem fetchSound_dispatch (hcursor : CursorSound log (Owes log writer reader.rows) cursor) :
  FetchSound log (Owes log writer reader.rows) (.dispatch cursor)
  := by
  unfold FetchStage.dispatch
  cases hstands : cursor.cyclePrefix with
  | some start => exact ⟨hcursor, hstands⟩
  | none =>
    simp only
    split
    · exact cursorSound_new hannounced hcursor.bounds.head
    · exact ⟨hcursor, hstands, (min_le_left _ _).trans hcursor.bounds.head⟩

/-- A step of the cycle returns the keys up to where it goes on. -/
theorem Owes.query {start : String} (hstart : IsCycleKey start)
    (h : Owes log writer reader.rows seq fun entry => position start ≤ position entry.key) :
  let page := accountSyncCycleKeys (BTreeSet.setOf writer.device.entries.keys) start
  (∀ q ∈ page.2, IsCycleKey q) ∧ Owes log writer reader.rows seq (Remaining page.1 page.2)
  := by
  obtain ⟨i, letters, hplaced⟩ := hstart
  have hmem : ∀ key, key ∈ setOf writer.device.entries.keys ↔
      ∃ entry, writer.device.entries[key]? = some entry := by
    intro key
    rw [mem_setOf, Std.ExtTreeMap.mem_keys, mem_iff_exists]
  have hkeys : ∀ key ∈ setOf writer.device.entries.keys, IsCycleKey key := by
    intro key hkey
    obtain ⟨entry, hentry⟩ := (hmem key).mp hkey
    apply (hannounced.entries key entry hentry).2
  have hpage := isPage_cycleKeys hplaced hkeys
  refine ⟨isCycleKey_next hplaced, h.weaken ?_⟩
  intro key entry hentry hahead
  obtain rfl := (hannounced.entries key entry hentry).1
  by_cases hbefore : ∀ q ∈ (accountSyncCycleKeys
      (setOf writer.device.entries.keys) start).2, position entry.key < position q
  · left
    apply (hpage.mem entry.key).mpr
    exact ⟨(hmem entry.key).mpr ⟨entry, hentry⟩, hahead, hbefore⟩
  · right
    push Not at hbefore
    apply hbefore

end

/-- At the end of a step of the cycle the cursor goes on. -/
theorem cursorSound_of_done {next : Option String} (hbounds : CursorBounds log cursor)
    (hnext : ∀ start ∈ next, IsCycleKey start)
    (h : Owes log writer reader.rows cursor.cycleHead (Remaining [] next)) :
  CursorSound log (Owes log writer reader.rows)
    { cursor with
      cyclePrefix := next
      seq := if next.isNone then cursor.cycleHead else cursor.seq }
  := by
  cases next with
  | none =>
    refine ⟨⟨hbounds.cycleHead, hbounds.head, hbounds.cycleHead⟩, fun _ => ?_, nofun⟩
    apply h.weaken
    rintro key entry _ (hmem | ⟨start, hstart, _⟩)
    · cases hmem
    · cases hstart
  | some start =>
    refine ⟨⟨hbounds.seq, hbounds.head, hbounds.cycleHead⟩, nofun, ?_⟩
    rintro _ ⟨⟩
    refine ⟨hnext start rfl, h.weaken ?_⟩
    rintro key entry _ (hmem | ⟨_, hstart, hle⟩)
    · cases hmem
    · cases hstart
      exact hle

/-- The item that is read covers the entry of its key. -/
theorem covers_of_read (hannounced : Announced log writer) {key' : String}
    (hitem : writer.device.entries[key]? = some item)
    (hentry : writer.device.entries[key']? = some entry) (hkey : entry.key = key) :
  Covers item entry
  := by
  obtain rfl := (hannounced.entries key' entry hentry).1
  rw [hkey, hitem] at hentry
  cases hentry
  exact ⟨rfl, le_rfl⟩

/-- The change after the cursor says which item is no longer announced after it. -/
theorem Owes.change (hlogged : log[seq]? = some key)
    (h : Owes log writer reader.rows seq fun _ => False) (hannounced : Announced log writer) :
  Owes log writer reader.rows (seq + 1) fun entry => entry.key = key
  := by
  intro key' entry hentry
  rcases h key' entry hentry with ⟨s, hs, hlogged'⟩ | hannouncing | hrows | hfalse
  · rcases Nat.eq_or_lt_of_le hs with rfl | hlt
    · rw [hlogged] at hlogged'
      cases hlogged'
      exact .inr (.inr (.inr (hannounced.entries key entry hentry).1))
    · exact .inl ⟨s, hlt, hlogged'⟩
  · exact .inr (.inl hannouncing)
  · exact .inr (.inr (.inl hrows))
  · exact hfalse.elim

/-- A step of a fetch keeps what cursors and fetches rely on. -/
theorem fetchSound_next (hannounced : Announced log writer)
    (hcursor : ∀ cursor ∈ reader.cursor, CursorSound log (Owes log writer reader.rows) cursor)
    {stage' : FetchStage} {reader' : AccountSyncReader}
    (hstage : FetchSound log (Owes log writer reader.rows) stage)
    (hnext : stage.next writer.device reader = some (reader', stage')) :
  (∀ seq rest, Owes log writer reader.rows seq rest → Owes log writer reader'.rows seq rest) ∧
    (∀ cursor ∈ reader'.cursor, CursorSound log (Owes log writer reader'.rows) cursor) ∧
    FetchSound log (Owes log writer reader'.rows) stage'
  := by
  have hmono : ∀ item seq rest, Owes log writer reader.rows seq rest →
      Owes log writer (reader.merge item).rows seq rest :=
    fun _ _ _ => Owes.merge_of_owes hannounced
  have hmerged : ∀ item, ∀ cursor ∈ (reader.merge item).cursor,
      CursorSound log (Owes log writer (reader.merge item).rows) cursor := by
    intro item cursor hstored
    rw [merge_cursor] at hstored
    apply (hcursor cursor hstored).mono le_rfl
    exact fun seq rest _ => hmono item seq rest
  cases stage <;> try cases hnext
  case readHead =>
    refine ⟨fun _ _ h => h, hcursor, ?_⟩
    exact le_of_eq hannounced.head
  case load head =>
    refine ⟨fun _ _ h => h, hcursor, fetchSound_dispatch hannounced ?_⟩
    cases hstored : reader.cursor with
    | none => exact cursorSound_new hannounced hstage
    | some cursor =>
      obtain ⟨hbounds, hcaughtUp, hcycle⟩ := hcursor cursor hstored
      exact ⟨⟨hbounds.seq, hstage, hbounds.cycleHead⟩, hcaughtUp, hcycle⟩
  case query cursor start =>
    obtain ⟨hsound, hstands⟩ := hstage
    obtain ⟨hstart, howes⟩ := hsound.cycle start hstands
    exact ⟨fun _ _ h => h, hcursor, hsound.bounds, Owes.query hannounced hstart howes⟩
  case items cursor next keys =>
    obtain ⟨hbounds, hstarts, howes⟩ := hstage
    cases keys with
    | nil =>
      cases hnext
      exact ⟨fun _ _ h => h, hcursor, cursorSound_of_done hbounds hstarts howes⟩
    | cons key keys =>
      simp only [FetchStage.next] at hnext
      split at hnext <;> cases hnext
      case h_1 item hitem =>
        refine ⟨fun _ _ h => h, hcursor, hbounds, hstarts, howes.weaken ?_⟩
        rintro key' entry hentry (hmem | hahead)
        · rcases List.mem_cons.mp hmem with hkey | hmem
          · exact .inl (covers_of_read hannounced hitem hentry hkey)
          · exact .inr (.inl hmem)
        · exact .inr (.inr hahead)
      case h_2 hitem =>
        refine ⟨fun _ _ h => h, hcursor, hbounds, hstarts, howes.weaken ?_⟩
        rintro key' entry hentry (hmem | hahead)
        · rcases List.mem_cons.mp hmem with hkey | hmem
          · obtain rfl := (hannounced.entries key' entry hentry).1
            rw [hkey, hitem] at hentry
            cases hentry
          · exact .inl hmem
        · exact .inr hahead
  case merge cursor next keys item =>
    obtain ⟨hbounds, hstarts, howes⟩ := hstage
    exact ⟨hmono item, hmerged item, hbounds, hstarts, Owes.merge hannounced howes⟩
  case slot cursor last =>
    obtain ⟨hsound, hstands, hlast⟩ := hstage
    simp only [FetchStage.next] at hnext
    split at hnext
    case isTrue hseq =>
      have hseq : cursor.seq + 1 ≤ log.length := le_trans hseq hlast
      cases hslot : writer.device.slots[(cursor.seq + 1) % accountSyncChangeWindow]?.filter
          fun change => decide (change.seq = cursor.seq + 1) with
      | some change =>
        simp only [hslot] at hnext
        cases hnext
        obtain ⟨hchange, hsame⟩ := filter_eq_some_iff.mp hslot
        have hlogged := (hannounced.changes _ change hchange).logged
        rw [of_decide_eq_true hsame] at hlogged
        refine ⟨fun _ _ h => h, hcursor, hsound.bounds, hstands, hlast, hseq, ?_⟩
        exact Owes.change (hlogged hseq) (hsound.caughtUp hstands) hannounced
      | none =>
        simp only [hslot] at hnext
        cases hnext
        exact ⟨fun _ _ h => h, hcursor, cursorSound_new hannounced hsound.bounds.head⟩
    case isFalse =>
      cases hnext
      exact ⟨fun _ _ h => h, hcursor, hsound⟩
  case readItem cursor last docsKey =>
    obtain ⟨hbounds, hstands, hlast, hseq, howes⟩ := hstage
    simp only [FetchStage.next] at hnext
    split at hnext <;> cases hnext
    case h_1 item hitem =>
      refine ⟨fun _ _ h => h, hcursor, hbounds, hstands, hlast, hseq, howes.weaken ?_⟩
      exact fun key entry hentry hkey => covers_of_read hannounced hitem hentry hkey
    case h_2 hitem =>
      refine ⟨fun _ _ h => h, hcursor, hbounds, hstands, hlast, hseq, howes.weaken ?_⟩
      intro key entry hentry hkey
      obtain rfl := (hannounced.entries key entry hentry).1
      rw [hkey, hitem] at hentry
      cases hentry
  case adopt cursor last item =>
    obtain ⟨hbounds, hstands, hlast, hseq, howes⟩ := hstage
    refine ⟨hmono item, hmerged item, hbounds, hstands, hlast, hseq, Owes.merge hannounced ?_⟩
    exact howes.weaken fun key entry _ hcovers => .inl hcovers
  case put cursor last =>
    obtain ⟨hbounds, hstands, hlast, hseq, howes⟩ := hstage
    have hsound : CursorSound log (Owes log writer reader.rows)
        { cursor with seq := cursor.seq + 1 } := by
      refine ⟨⟨hseq, hbounds.head, hbounds.cycleHead⟩, fun _ => howes, ?_⟩
      intro start hstart
      rw [hstands] at hstart
      cases hstart
    refine ⟨fun _ _ h => h, ?_, hsound, hstands, hlast⟩
    rintro _ ⟨⟩
    exact hsound
  case finish cursor =>
    refine ⟨fun _ _ h => h, ?_, ?_⟩
    · rintro _ ⟨⟩
      exact hstage
    · split <;> trivial

/-! ### Runs -/

/-- What holds of the two devices along a run. -/
structure Following (log : List String) (state : SyncState) : Prop where
  announced : Announced log state.writer
  cursor : ∀ cursor ∈ state.reader.cursor,
    CursorSound log (Owes log state.writer state.reader.rows) cursor
  fetches : ∀ i, FetchSound log (Owes log state.writer state.reader.rows) (state.fetches i)

/-- A write that has set its entry goes on to the head, and the keys of items are spelled like
those that the cycle goes through. -/
structure Completes (e : SyncEvent) : Prop where
  head : ∀ i, e.op = .write (.stop i) → (e.before.writer.tasks i).stage.announcing = none
  key : ∀ i row, e.op = .write (.advance i) → (e.before.writer.tasks i).stage = .setEntry row →
    IsCycleKey row.key

theorem isLocked_of_starts {stage : SyncStage} (h : Starts stage) :
  stage.isLocked = false
  := by
  cases stage with
  | setEntry | readHead | setSlot | setHead => exact h.elim
  | _ => rfl

/-- A task that stops releases the lock. -/
theorem Announced.stop (h : Announced log before)
    (hhead : (before.tasks i).stage.announcing = none) :
  Announced log (before.stop i) ∧ Extends log before log (before.stop i)
  := by
  constructor
  · refine ⟨h.head, h.changes, h.entries, ?_⟩
    intro j
    by_cases hj : j = i
    · subst hj
      simp only [DeviceState.stop, update_self]
      apply holdsLock_of_unlocked rfl
    · simp only [DeviceState.stop, update_of_ne hj]
      obtain ⟨hlock, hslot, hhead⟩ := h.tasks j
      refine ⟨?_, hslot, hhead⟩
      intro hlocked
      have hwriting := hlock hlocked
      have hother : before.device.writing ≠ some i := by
        rw [hwriting]
        exact fun heq => hj (some.inj heq)
      simp only [if_neg hother]
      exact hwriting
  · have hentries : (before.stop i).device.entries = before.device.entries := rfl
    apply extends_of_keep hentries
    rw [hhead]
    rintro row ⟨⟩

/-- A step of the writer keeps the log or extends it. -/
theorem Announced.step {after : DeviceState} {call : DeviceCall} (h : Announced log before)
    (hstep : DeviceStep before call () after)
    (hhead : ∀ i, call = .stop i → (before.tasks i).stage.announcing = none)
    (hkey : ∀ i row, call = .advance i → (before.tasks i).stage = .setEntry row →
      IsCycleKey row.key) :
  ∃ log', Announced log' after ∧ Extends log before log' after
  := by
  cases call with
  | start i stage =>
    obtain ⟨hidle, hstarts, rfl⟩ := hstep
    have hquiet : Quiet before.device (before.tasks i) before.device
        (SyncTask.idle.goto stage) := by
      refine ⟨rfl, rfl, rfl, rfl, ?_, isLocked_of_starts hstarts⟩
      rw [hidle]
      rfl
    apply h.taskStep (.quiet hquiet)
    intro row hstage
    rw [hidle] at hstage
    cases hstage
  | advance i =>
    obtain ⟨⟨device, task⟩, hnext, rfl⟩ := map_eq_some_iff.mp hstep
    exact h.taskStep (taskStep_of_next hnext) fun row => hkey i row rfl
  | stop i =>
    obtain rfl := hstep
    exact ⟨log, h.stop (hhead i rfl)⟩

/-- A change of the reader that keeps what is owed. -/
theorem Following.read {before : SyncState} (h : Following log before)
    (howes : ∀ seq rest, Owes log before.writer before.reader.rows seq rest →
      Owes log before.writer reader.rows seq rest)
    (hcursor : ∀ cursor ∈ reader.cursor,
      CursorSound log (Owes log before.writer reader.rows) cursor)
    (hstage : FetchSound log (Owes log before.writer reader.rows) stage) :
  Following log { before with reader, fetches := Function.update before.fetches i stage }
  := by
  refine ⟨h.announced, hcursor, ?_⟩
  intro j
  by_cases hj : j = i
  · subst hj
    simp only [update_self]
    exact hstage
  · simp only [update_of_ne hj]
    apply (h.fetches j).mono le_rfl
    exact fun seq rest _ => howes seq rest

theorem Following.step {before after : SyncState} {call : SyncCall} {ret : Unit}
    (h : Following log before) (hstep : SyncStep before call ret after)
    (hcompletes : Completes ⟨before, call, ret, after⟩) :
  ∃ log', Following log' after
  := by
  cases hstep with
  | @write call writer hstep =>
    obtain ⟨log', hannounced, hextends⟩ := h.announced.step hstep
      (fun i hcall => hcompletes.head i (by rw [hcall]))
      (fun i row hcall => hcompletes.key i row (by rw [hcall]))
    have hlog := hextends.extends_log.length_le
    refine ⟨log', hannounced, ?_, ?_⟩
    · intro cursor hcursor
      exact (h.cursor cursor hcursor).mono hlog (hextends.owes before.reader.rows)
    · intro i
      exact (h.fetches i).mono hlog (hextends.owes before.reader.rows)
  | start hidle | stop => exact ⟨log, h.read (fun _ _ h => h) h.cursor trivial⟩
  | @advance i reader stage hnext =>
    obtain ⟨howes, hcursor, hstage⟩ := fetchSound_next h.announced h.cursor (h.fetches i) hnext
    exact ⟨log, h.read howes hcursor hstage⟩
  | @merge item =>
    have howes : ∀ seq rest, Owes log before.writer before.reader.rows seq rest →
        Owes log before.writer (before.reader.merge item).rows seq rest :=
      fun _ _ => Owes.merge_of_owes h.announced
    refine ⟨log, h.announced, ?_, ?_⟩
    · intro cursor hcursor
      rw [merge_cursor] at hcursor
      exact (h.cursor cursor hcursor).mono le_rfl fun seq rest _ => howes seq rest
    · intro i
      exact (h.fetches i).mono le_rfl fun seq rest _ => howes seq rest
  | dropCursor => exact ⟨log, h.announced, nofun, h.fetches⟩

theorem following_of_initial {state : SyncState} (h : state.Initial) :
  Following [] state
  := by
  refine ⟨⟨?_, ?_, ?_, ?_⟩, ?_, ?_⟩
  · rw [AccountSyncDevice.headSeq, h.head]
    rfl
  · intro n change hchange
    rw [h.slots, Std.ExtTreeMap.getElem?_empty] at hchange
    cases hchange
  · intro key entry hentry
    rw [h.entries, Std.ExtTreeMap.getElem?_empty] at hentry
    cases hentry
  · intro i
    rw [h.fresh.tasks i]
    apply holdsLock_of_unlocked rfl
  · rw [h.cursor]
    nofun
  · intro i
    rw [h.fetches i]
    trivial

/-- The reader has caught up with a writer that has nothing to do: no row is unwritten, no write is
going on, and the cursor is at the head. -/
structure CaughtUp (state : SyncState) : Prop where
  unwritten : state.writer.device.unwritten = ∅
  writing : ∀ i, (state.writer.tasks i).stage.isLocked = false
  cursor : ∃ cursor, state.reader.cursor = some cursor ∧ cursor.cyclePrefix = none ∧
    cursor.seq = state.writer.device.headSeq

/-- A reader that has caught up has every item of the writer's replica, or a newer version of it,
in every run in which no write stops between its entry and the head. -/
theorem updates_reach_reader {start state : SyncState} {history : List SyncEvent}
    (hstart : start.Initial) (htrace : Trace SyncStep start history state)
    (hcompletes : ∀ e ∈ history, Completes e) (hcaughtUp : CaughtUp state) :
  ∀ (key : String) (entry : AccountSyncRow), state.writer.device.entries[key]? = some entry →
    ∃ row, state.reader.rows[key]? = some row ∧ entry.version ≤ row.version
  := by
  obtain ⟨log, hfollowing⟩ : ∃ log, Following log state := by
    apply htrace.invariant_of_forall hcompletes ⟨[], following_of_initial hstart⟩
    rintro before call ret after ⟨log, hlog⟩ hstep he
    apply hlog.step hstep he
  intro key entry hentry
  obtain ⟨cursor, hcursor, hstands, hseq⟩ := hcaughtUp.cursor
  have howes := (hfollowing.cursor cursor hcursor).caughtUp hstands
  rcases howes key entry hentry with ⟨s, hs, hlogged⟩ | ⟨i, row, hrow, _⟩ | hrows | hfalse
  · -- Nothing is announced after the head.
    have hlt := (List.getElem?_eq_some_iff.mp hlogged).1
    rw [hseq, hfollowing.announced.head] at hs
    exact absurd hlt (not_lt.mpr hs)
  · rw [SyncStage.announcing_eq_none (hcaughtUp.writing i)] at hrow
    cases hrow
  · exact hrows
  · exact hfalse.elim

namespace Sample

/-- Two devices that have done nothing. -/
def newDevices : SyncState := ⟨newDevice, ⟨∅, none⟩, fun _ => .idle⟩

/-- A fetch of the given number of steps. -/
def fetching (steps : ℕ) : List SyncCall := .start 0 :: List.replicate steps (.advance 0)

/-- A write stops after the entry, and the unwritten rows are sent again. -/
def resending : List DeviceCall :=
  .start 0 (.publish (edit 1)) ::
    (List.replicate 3 (.advance 0) ++ .stop 0 :: .start 0 .list :: List.replicate 4 (.advance 0))

/-- The writer publishes an edit, and the reader goes through the cycle. -/
def reaching : List SyncCall := publishing.map .write ++ fetching 27

/-- The reader catches up before the write that stops. -/
def losing : List SyncCall := fetching 25 ++ resending.map .write

theorem initial_newDevices : newDevices.Initial :=
  ⟨fresh_newDevice, rfl, rfl, rfl, rfl, fun _ => rfl⟩

/-- Stages at which any task may start. -/
def isStart : SyncStage → Bool
  | .publish _ | .list => true
  | _ => false

theorem starts_of_isStart {stage : SyncStage} (h : isStart stage) :
  Starts stage
  := by
  cases stage with
  | publish | list => trivial
  | _ => cases h

/-- Whether a call is about the first task of the writer, if it is about the writer at all. -/
def usesFirstTask : SyncCall → Bool
  | .write (.start i stage) => i = 0 && isStart stage
  | .write (.advance i) | .write (.stop i) => i = 0
  | _ => true

theorem task_of_usesFirstTask {call : DeviceCall} (h : usesFirstTask (.write call)) :
  call.task = 0
  := by
  cases call with
  | start i stage => exact of_decide_eq_true (Bool.and_eq_true_iff.mp h).1
  | advance i | stop i => exact of_decide_eq_true h

/-- A run of such calls, and the tasks that it leaves alone. -/
theorem run_of_calls {calls : List SyncCall} (hcalls : ∀ call ∈ calls, usesFirstTask call) :
  let run := Trace.replay SyncState.perform newDevices calls
  Trace SyncStep newDevices run.1 run.2 ∧ ∀ i, i ≠ 0 → run.2.writer.tasks i = .idle
  := by
  intro run
  have htrace : Trace SyncStep newDevices run.1 run.2 := by
    apply Trace.of_replay
    intro call hcall before ret after hperform
    apply syncStep_of_perform _ hperform
    rintro i stage rfl
    exact starts_of_isStart (Bool.and_eq_true_iff.mp (hcalls _ hcall)).2
  refine ⟨htrace, ?_⟩
  intro i hi
  apply htrace.invariant_of_forall (P := fun state => state.writer.tasks i = .idle)
    (C := fun e => usesFirstTask e.op)
  · intro e he
    apply hcalls _ (Trace.op_mem_of_mem_replay he)
  · rfl
  · intro before call ret after hidle hstep hcall
    cases hstep with
    | write hstep =>
      rw [← hidle]
      apply hstep.tasks_of_ne
      rw [task_of_usesFirstTask hcall]
      exact hi.symm
    | _ => exact hidle

/-- Whether no write stops before the head, and all entries are of the profile. -/
def completes (e : SyncEvent) : Bool :=
  match e.op with
  | .write (.stop i) => (e.before.writer.tasks i).stage.announcing.isNone
  | .write (.advance i) =>
    match (e.before.writer.tasks i).stage with
    | .setEntry row => row.key = "profile"
    | _ => true
  | _ => true

theorem completes_of_completes {e : SyncEvent} (h : completes e) :
  Completes e
  := by
  refine ⟨?_, ?_⟩
  · intro i hop
    simp only [completes, hop] at h
    exact isNone_iff_eq_none.mp h
  · intro i row hop hstage
    simp only [completes, hop, hstage] at h
    rw [of_decide_eq_true h]
    exact ⟨0, [], placed_first⟩

end Sample

open Sample

/-- The reader has the edit that the writer has published. -/
theorem updates_reach_reader_published :
  let run := Trace.replay SyncState.perform Sample.newDevices Sample.reaching
  run.2.writer.device.entries["profile"]? = some (Sample.edit 1) ∧
    ∃ row, run.2.reader.rows["profile"]? = some row ∧ (Sample.edit 1).version ≤ row.version
  := by
  intro run
  have hcalls : ∀ call ∈ reaching, usesFirstTask call := by decide
  obtain ⟨htrace, htasks⟩ := run_of_calls hcalls
  have hentry : run.2.writer.device.entries["profile"]? = some (edit 1) := by
    decide +kernel
  have hcaughtUp : CaughtUp run.2 := by
    refine ⟨?_, ?_, ⟨1, 1, none, 1⟩, ?_, rfl, ?_⟩
    · apply Std.ExtTreeSet.isEmpty_iff.mp
      decide +kernel
    · intro i
      rcases eq_or_ne i 0 with rfl | hi
      · decide +kernel
      · rw [htasks i hi]
        rfl
    · decide +kernel
    · decide +kernel
  have hcompletes : ∀ e ∈ run.1, Completes e := by
    have hall : run.1.all completes = true := by decide +kernel
    intro e he
    apply completes_of_completes
    apply List.all_eq_true.mp hall e he
  exact ⟨hentry, updates_reach_reader initial_newDevices htrace hcompletes hcaughtUp
    "profile" _ hentry⟩

/-- A write that stops after its entry is lost: sending its row again only finds that the replica
has it, and a reader that had caught up before does not learn of it. -/
theorem exists_lost_update :
  ∃ (start state : SyncState) (history : List SyncEvent) (entry : AccountSyncRow),
    start.Initial ∧ Trace SyncStep start history state ∧ CaughtUp state ∧
    (∀ i, state.writer.tasks i = .idle) ∧ IsCycleKey "profile" ∧
    state.writer.device.entries["profile"]? = some entry ∧
    state.reader.rows["profile"]? = none
  := by
  have hcalls : ∀ call ∈ losing, usesFirstTask call := by decide
  obtain ⟨htrace, htasks⟩ := run_of_calls hcalls
  have hidle : ∀ i, (Trace.replay SyncState.perform newDevices
      losing).2.writer.tasks i = .idle := by
    intro i
    rcases eq_or_ne i 0 with rfl | hi
    · decide +kernel
    · exact htasks i hi
  refine ⟨_, _, _, edit 1, initial_newDevices, htrace, ?_, hidle,
    ⟨0, [], placed_first⟩, ?_, ?_⟩
  · refine ⟨?_, ?_, ⟨0, 0, none, 0⟩, ?_, rfl, ?_⟩
    · apply Std.ExtTreeSet.isEmpty_iff.mp
      decide +kernel
    · intro i
      rw [hidle i]
      rfl
    · decide +kernel
    · decide +kernel
  · decide +kernel
  · decide +kernel

end Kukuri
