import Kukuri.Data.BTree

/-!
# Cooldowns of failed fetches

`RemoteFetchRetryState` keeps the cooldown of each key, an index of the cooldowns by deadline, and
the fetches in flight. In every state that calls lead to the two indices agree, and a cooldown is
the last outcome of its key (`cooldowns_of_run`).

Instants are counted in nanoseconds. The channels of the fetches are a parameter: a call knows which
of them have a result or a sender.
-/

namespace Kukuri.FetchRetry

open Option BTreeMap Std.ExtTreeMap

abbrev Instant := ℕ

def remoteFetchRetryCooldown : ℕ := 3 * 10 ^ 9

def remoteFetchMaxCooldowns : ℕ := 1024

def remoteFetchMaxCooldownKeyBytes : ℕ := 256

inductive RemoteFetchBegin (Channel : Type) where
  | lead (sender : Channel)
  | join (receiver : Channel)
  | coolingDown

structure RemoteFetchRetryState (Channel : Type) where
  retryAfter : BTreeMap String Instant := ∅
  retryDeadlines : BTreeSet (Instant ×ₗ String) := ∅
  inFlight : BTreeMap String Channel := ∅

variable {Channel : Type}

namespace RemoteFetchRetryState

section

variable (state : RemoteFetchRetryState Channel) (channel : Channel)
  (cooldownKey flightKey : String) (now : Instant)

def removeCooldown (key : String) : RemoteFetchRetryState Channel :=
  match state.retryAfter[key]? with
  | some deadline =>
    { state with
      retryAfter := state.retryAfter.erase key
      retryDeadlines := state.retryDeadlines.erase (toLex (deadline, key)) }
  | none => state

/-- The part of `begin` for a fetch that is not in flight. -/
def start : RemoteFetchBegin Channel × RemoteFetchRetryState Channel :=
  if state.retryAfter[cooldownKey]?.any (now < ·) then (.coolingDown, state)
  else
    let state := state.removeCooldown cooldownKey
    (.lead channel, { state with inFlight := state.inFlight.insert flightKey channel })

/-- A call of `begin`, with the channel that it opens if it leads. -/
def «begin» (hasResult hasSender : Channel → Bool) :
    RemoteFetchBegin Channel × RemoteFetchRetryState Channel :=
  match state.inFlight[flightKey]? with
  | some receiver =>
    if hasResult receiver || hasSender receiver then (.join receiver, state)
    else
      let state := { state with inFlight := state.inFlight.erase flightKey }
      state.start channel cooldownKey flightKey now
  | none => state.start channel cooldownKey flightKey now

/-- The loop that removes the cooldowns that are over, with the number of steps it may take. -/
def expire (now : Instant) :
    ℕ → RemoteFetchRetryState Channel → Option (RemoteFetchRetryState Channel)
  | 0, _ => none
  | fuel + 1, state =>
    match BTreeSet.first state.retryDeadlines with
    | some entry =>
      if now < (ofLex entry).1 then some state
      else expire now fuel (state.removeCooldown (ofLex entry).2)
    | none => some state

/-- The part of `finish` that only removes. The loop may take a step for each cooldown. -/
def settle : Option (RemoteFetchRetryState Channel) :=
  let state := { state with inFlight := state.inFlight.erase flightKey }
  (expire now (state.retryAfter.size + 1) state).map (removeCooldown · cooldownKey)

/-- Makes room for a cooldown. Without an entry in the index the call panics. -/
def evict : Option (RemoteFetchRetryState Channel) :=
  (BTreeSet.first state.retryDeadlines).map fun entry => state.removeCooldown (ofLex entry).2

/-- A call of `finish`. There is no state after it if the loop does not end or the call panics. -/
def finish (success : Bool) : Option (RemoteFetchRetryState Channel) := do
  let state ← state.settle cooldownKey flightKey now
  if success ∨ remoteFetchMaxCooldownKeyBytes < cooldownKey.utf8ByteSize then
    return state
  let state ← if remoteFetchMaxCooldowns ≤ state.retryAfter.size then state.evict else some state
  let deadline := now + remoteFetchRetryCooldown
  return { state with
    retryAfter := state.retryAfter.insert cooldownKey deadline
    retryDeadlines := state.retryDeadlines.insert (toLex (deadline, cooldownKey)) }

end

end RemoteFetchRetryState

open RemoteFetchRetryState

/-- The states after a sequence of calls, with the last outcome of each key and its time. -/
inductive Run : (String → Option (Bool × Instant)) → RemoteFetchRetryState Channel → Prop
  | default : Run (fun _ => none) {}
  | begin {outcome state} (channel key flightKey now hasResult hasSender)
      (h : Run outcome state) :
      Run outcome (state.begin channel key flightKey now hasResult hasSender).2
  | finish {outcome state state'} (key flightKey now success) (h : Run outcome state)
      (hfinish : state.finish key flightKey now success = some state') :
      Run (Function.update outcome key (some (success, now))) state'

/-- The two indices hold the same cooldowns, and each one comes from the last outcome. -/
structure Sound (outcome : String → Option (Bool × Instant))
    (state : RemoteFetchRetryState Channel) : Prop where
  mirrored : ∀ deadline key, toLex (deadline, key) ∈ state.retryDeadlines ↔
    state.retryAfter[key]? = some deadline
  bounded : state.retryAfter.size ≤ remoteFetchMaxCooldowns
  failed : ∀ key deadline, state.retryAfter[key]? = some deadline →
    ∃ time, outcome key = some (false, time) ∧ deadline = time + remoteFetchRetryCooldown

/-- The last outcome of a key is a failure less than three seconds ago. -/
def JustFailed (outcome : String → Option (Bool × Instant)) (key : String) (now : Instant) : Prop :=
  ∃ time, outcome key = some (false, time) ∧ now < time + remoteFetchRetryCooldown

variable {outcome : String → Option (Bool × Instant)} {state : RemoteFetchRetryState Channel}
  {key : String} {now : Instant} {entry : Instant ×ₗ String}

theorem retryAfter_removeCooldown :
  (state.removeCooldown key).retryAfter = state.retryAfter.erase key
  := by
  unfold removeCooldown
  split
  case h_1 => rfl
  case h_2 h => rw [erase_of_getElem?_eq_none h]

section

variable (h : Sound outcome state)
include h

/-- The fetches in flight do not matter. -/
theorem Sound.inFlight (inFlight : BTreeMap String Channel) :
  Sound outcome { state with inFlight }
  := ⟨h.mirrored, h.bounded, h.failed⟩

theorem Sound.remove (key : String) :
  Sound outcome (state.removeCooldown key)
  where
  mirrored := by
    intro deadline key'
    have hentry := h.mirrored deadline key'
    unfold removeCooldown
    split
    case h_1 deadline' hdeadline =>
      simp only [Std.ExtTreeSet.mem_erase, getElem?_erase, ne_eq,
        Std.LawfulEqCmp.compare_eq_iff_eq, toLex_inj]
      grind
    case h_2 => exact hentry
  bounded := by
    rw [retryAfter_removeCooldown]
    exact size_erase_le.trans h.bounded
  failed := by
    intro key' deadline hdeadline
    rw [retryAfter_removeCooldown] at hdeadline
    exact h.failed key' deadline (getElem?_of_erase hdeadline)

/-- The first entry of the index is a cooldown with the least deadline. -/
theorem Sound.of_first (hfirst : BTreeSet.first state.retryDeadlines = some entry) :
  state.retryAfter[(ofLex entry).2]? = some (ofLex entry).1 ∧
    ∀ (key : String) deadline, state.retryAfter[key]? = some deadline → (ofLex entry).1 ≤ deadline
  := by
  obtain ⟨hmem, hleast⟩ := BTreeSet.first_eq_some.mp hfirst
  refine ⟨(h.mirrored _ _).mp hmem, ?_⟩
  intro key deadline hdeadline
  exact Prod.Lex.monotone_fst _ _ (hleast _ ((h.mirrored deadline key).mpr hdeadline))

theorem Sound.size_remove (hfirst : BTreeSet.first state.retryDeadlines = some entry) :
  (state.removeCooldown (ofLex entry).2).retryAfter.size < state.retryAfter.size
  := by
  have hmem := mem_iff_exists.mpr ⟨_, (h.of_first hfirst).1⟩
  rw [retryAfter_removeCooldown, size_erase_of_mem hmem]
  apply Nat.sub_one_lt
  rw [ne_eq, ← eq_empty_iff_size_eq_zero]
  rintro hempty
  simp [hempty] at hmem

/-- The loop ends, for each of its steps removes a cooldown. -/
theorem Sound.of_expire {fuel : ℕ} (hfuel : state.retryAfter.size < fuel) :
  ∃ state', expire now fuel state = some state' ∧ Sound outcome state'
  := by
  induction fuel generalizing state with
  | zero => omega
  | succ fuel ih =>
    unfold expire
    split
    case h_1 entry hfirst =>
      split
      case isTrue => exact ⟨_, rfl, h⟩
      case isFalse =>
        have hsize := h.size_remove hfirst
        exact ih (h.remove _) (by omega)
    case h_2 => exact ⟨_, rfl, h⟩

theorem Sound.of_settle (key flightKey : String) (now : Instant) :
  ∃ state', state.settle key flightKey now = some state' ∧ Sound outcome state' ∧
    state'.retryAfter[key]? = none
  := by
  obtain ⟨expired, hexpire, hsound⟩ := (h.inFlight _).of_expire (Nat.lt_succ_self _)
  refine ⟨_, map_eq_some_iff.mpr ⟨expired, hexpire, rfl⟩, hsound.remove key, ?_⟩
  simp [retryAfter_removeCooldown]

/-- Where the bound is reached there is a cooldown to remove. -/
theorem Sound.of_evict (hnone : state.retryAfter[key]? = none)
    (hsize : remoteFetchMaxCooldowns ≤ state.retryAfter.size) :
  ∃ state', state.evict = some state' ∧ Sound outcome state' ∧ state'.retryAfter[key]? = none ∧
    state'.retryAfter.size < remoteFetchMaxCooldowns
  := by
  cases hfirst : BTreeSet.first state.retryDeadlines with
  | none =>
    have hempty : state.retryAfter = ∅ := by
      rw [eq_empty_iff_forall_not_mem]
      intro key hkey
      obtain ⟨deadline, hdeadline⟩ := mem_iff_exists.mp hkey
      rw [← h.mirrored, BTreeSet.first_eq_none.mp hfirst] at hdeadline
      simp at hdeadline
    rw [hempty] at hsize
    exact absurd hsize (by decide)
  | some entry =>
    refine ⟨_, map_eq_some_iff.mpr ⟨entry, hfirst, rfl⟩, h.remove _, ?_, ?_⟩
    · rw [retryAfter_removeCooldown]
      grind
    · exact (h.size_remove hfirst).trans_le h.bounded

theorem Sound.insert (hnone : state.retryAfter[key]? = none)
    (hsize : state.retryAfter.size < remoteFetchMaxCooldowns)
    (houtcome : outcome key = some (false, now)) :
  Sound outcome { state with
    retryAfter := state.retryAfter.insert key (now + remoteFetchRetryCooldown)
    retryDeadlines := state.retryDeadlines.insert (toLex (now + remoteFetchRetryCooldown, key)) }
  where
  mirrored := by
    intro deadline key'
    have hentry := h.mirrored deadline key'
    simp only [Std.ExtTreeSet.mem_insert, getElem?_insert, compare_eq_iff_eq,
      toLex_inj]
    grind
  bounded := by
    have hmem : key ∉ state.retryAfter := by simpa using hnone
    rw [size_insert_of_not_mem hmem]
    exact hsize
  failed := by
    intro key' deadline hdeadline
    rcases getElem?_of_insert hdeadline with ⟨rfl, rfl⟩ | ⟨-, hold⟩
    · exact ⟨now, houtcome, rfl⟩
    · exact h.failed key' deadline hold

theorem Sound.of_finish (key flightKey : String) (now : Instant) (success : Bool) :
  ∃ state', state.finish key flightKey now success = some state' ∧
    Sound (Function.update outcome key (some (success, now))) state'
  := by
  obtain ⟨settled, hsettle, hsettled, hnone⟩ := h.of_settle key flightKey now
  have hsound : Sound (Function.update outcome key (some (success, now))) settled := by
    refine ⟨hsettled.mirrored, hsettled.bounded, ?_⟩
    intro key' deadline hdeadline
    have hne : key' ≠ key := by
      rintro rfl
      cases hnone.symm.trans hdeadline
    rw [Function.update_of_ne hne]
    exact hsettled.failed key' deadline hdeadline
  simp only [RemoteFetchRetryState.finish, hsettle, bind_eq_bind, bind_some]
  split
  case isTrue => exact ⟨settled, rfl, hsound⟩
  case isFalse hfailed =>
    have houtcome : Function.update outcome key (some (success, now)) key = some (false, now) := by
      simp_all
    split
    case isTrue hsize =>
      obtain ⟨room, hroom, hsound, hnone, hsize⟩ := hsound.of_evict hnone hsize
      rw [hroom]
      exact ⟨_, rfl, hsound.insert hnone hsize houtcome⟩
    case isFalse hsize => exact ⟨_, rfl, hsound.insert hnone (not_le.mp hsize) houtcome⟩

/-- The answer that a key is cooling down comes from a failure. -/
theorem Sound.of_start (channel : Channel) (key flightKey : String) (now : Instant) :
  Sound outcome (state.start channel key flightKey now).2 ∧
    ((state.start channel key flightKey now).1 = .coolingDown → JustFailed outcome key now)
  := by
  unfold start
  split
  case isTrue hcooling =>
    refine ⟨h, fun _ => ?_⟩
    obtain ⟨deadline, hdeadline, hnow⟩ := (any_eq_true ..).mp hcooling
    obtain ⟨time, hfailed, rfl⟩ := h.failed key deadline hdeadline
    exact ⟨time, hfailed, of_decide_eq_true hnow⟩
  case isFalse => exact ⟨(h.remove key).inFlight _, nofun⟩

theorem Sound.of_begin (channel : Channel) (key flightKey : String) (now : Instant)
    (hasResult hasSender : Channel → Bool) :
  Sound outcome (state.begin channel key flightKey now hasResult hasSender).2 ∧
    ((state.begin channel key flightKey now hasResult hasSender).1 = .coolingDown →
      JustFailed outcome key now)
  := by
  unfold «begin»
  split
  case h_1 receiver hflight =>
    split
    case isTrue => exact ⟨h, nofun⟩
    case isFalse => exact (h.inFlight _).of_start channel key flightKey now
  case h_2 => exact h.of_start channel key flightKey now

end

theorem Sound.of_run (h : Run outcome state) :
  Sound outcome state
  := by
  induction h with
  | default => exact ⟨by simp, by simp, by simp⟩
  | begin channel key flightKey now hasResult hasSender _ ih =>
    exact (ih.of_begin channel key flightKey now hasResult hasSender).1
  | finish key flightKey now success _ hfinish ih =>
    obtain ⟨state', hstate', hsound⟩ := ih.of_finish key flightKey now success
    cases hstate'.symm.trans hfinish
    exact hsound

/-- In every state that calls lead to the index of deadlines holds exactly the cooldowns, of which
there are at most 1024. The next `finish` comes to its end, and a cooldown that it removes to make
room has the least deadline. The next `begin` answers that a key is cooling down only if the key has
just failed. -/
theorem cooldowns_of_run (h : Run outcome state) :
  (∀ deadline key, toLex (deadline, key) ∈ state.retryDeadlines ↔
    state.retryAfter[key]? = some deadline) ∧
  state.retryAfter.size ≤ remoteFetchMaxCooldowns ∧
  (∀ key flightKey now success, (state.finish key flightKey now success).isSome) ∧
  (∀ key flightKey now settled evicted, state.settle key flightKey now = some settled →
    settled.evict = some evicted → ∃ (key : String) (deadline : Instant),
      settled.retryAfter[key]? = some deadline ∧ evicted = settled.removeCooldown key ∧
      ∀ (key' : String) deadline', settled.retryAfter[key']? = some deadline' →
        deadline ≤ deadline') ∧
  ∀ channel key flightKey now hasResult hasSender,
    (state.begin channel key flightKey now hasResult hasSender).1 = .coolingDown →
      JustFailed outcome key now
  := by
  have hsound := Sound.of_run h
  refine ⟨hsound.mirrored, hsound.bounded, ?_, ?_, ?_⟩
  · intro key flightKey now success
    obtain ⟨state', hfinish, -⟩ := hsound.of_finish key flightKey now success
    exact isSome_of_eq_some hfinish
  · intro key flightKey now settled evicted hsettle hevict
    obtain ⟨settled', hsettle', hsettled, -⟩ := hsound.of_settle key flightKey now
    cases hsettle'.symm.trans hsettle
    obtain ⟨entry, hfirst, rfl⟩ := map_eq_some_iff.mp hevict
    obtain ⟨hentry, hleast⟩ := hsettled.of_first hfirst
    exact ⟨_, _, hentry, rfl, hleast⟩
  · intro channel key flightKey now hasResult hasSender
    exact (hsound.of_begin channel key flightKey now hasResult hasSender).2

/-- After a failure its key is cooling down. -/
theorem cooldowns_of_run_failed :
  ∃ outcome, ∃ state : RemoteFetchRetryState Unit, Run outcome state ∧
    (state.begin () "hash" "hash" 1 default default).1 = .coolingDown ∧
    JustFailed outcome "hash" 1
  := by
  have hrun : Run _ (_ : RemoteFetchRetryState Unit) :=
    Run.default.finish "hash" "hash" 0 false rfl
  exact ⟨_, _, hrun, rfl, (cooldowns_of_run hrun).2.2.2.2 () _ "hash" _ default default rfl⟩

end Kukuri.FetchRetry
