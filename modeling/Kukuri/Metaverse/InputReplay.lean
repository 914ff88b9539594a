import Kukuri.Metaverse.SessionCapacity

/-!
# Inputs are not replayed

The mark of a signer covers the inputs that were accepted. It moves between the two tables of
the ledger when the signer leaves and comes back, and it is dropped when everything that it
covers has expired. It is also dropped when too many signers have departed. In a run in which
only expired marks are dropped for that reason, no input is accepted twice.
-/

namespace Kukuri

open Result Command List Option Std.ExtTreeMap BTreeMap InputLedger

theorem inputExpired_mono {sentAt sentAt' nowMillis nowMillis' : ℤ} (hsent : sentAt ≤ sentAt')
    (hnow : nowMillis ≤ nowMillis') (h : inputExpired sentAt' nowMillis) :
  inputExpired sentAt nowMillis'
  := by
  have hle : I64.saturatingAdd sentAt' domeAccessProofTtlMillis ≤ nowMillis := of_decide_eq_true h
  have hmono : I64.saturatingAdd sentAt domeAccessProofTtlMillis
      ≤ I64.saturatingAdd sentAt' domeAccessProofTtlMillis := by
    simp only [I64.saturatingAdd, I64.clamp]
    omega
  apply decide_eq_true (hmono.trans (hle.trans hnow))

namespace InputLedger

variable {ledger : InputLedger} {input : DomeSessionInput} {limit : ℕ} {nowMillis : ℤ}

/-! ### The shape of the ledger -/

/-- No signer is both present and departed, the departed are not too many, and the newest of
them has the greatest number. -/
structure Sound (limit : ℕ) (ledger : InputLedger) : Prop where
  disjoint : ∀ id ∈ ledger.active, id ∉ ledger.departed
  bounded : ledger.departed.size ≤ limit
  ordered : ∀ (id : String) (row : ℕ × InputMark), ledger.departed[id]? = some row →
    row.1 ≤ ledger.departures

theorem Sound.prune (h : Sound limit ledger) (nowMillis : ℤ) :
  Sound limit (ledger.prune nowMillis)
  where
  disjoint id hid hdeparted := h.disjoint id hid (mem_of_mem_filter hdeparted)
  bounded := size_filter_le_size.trans h.bounded
  ordered id row hrow := h.ordered id row (getElem?_of_filter hrow).1

theorem Sound.record (h : Sound limit ledger) (input : DomeSessionInput) (active : Bool) :
  Sound limit (ledger.record input active)
  := by
  cases active with
  | true =>
    refine ⟨?_, Std.ExtTreeMap.size_erase_le.trans h.bounded, ?_⟩
    · intro id hid hdeparted
      simp only [InputLedger.record, if_true, Std.ExtTreeMap.mem_insert, Std.ExtTreeMap.mem_erase]
        at hid hdeparted
      rcases hid with hid | hid
      · apply hdeparted.1 hid
      · apply h.disjoint id hid hdeparted.2
    · intro id row hrow
      apply h.ordered id row (BTreeMap.getElem?_of_erase hrow)
  | false =>
    refine ⟨?_, ?_, ?_⟩
    · intro id hid hdeparted
      apply h.disjoint id hid (Std.ExtTreeMap.mem_modify.mp hdeparted)
    · simp only [InputLedger.record, Bool.false_eq_true, if_false, Std.ExtTreeMap.size_modify]
      apply h.bounded
    · intro id row hrow
      simp only [InputLedger.record, Bool.false_eq_true, if_false,
        Std.ExtTreeMap.getElem?_modify] at hrow
      split at hrow
      · obtain ⟨row', hrow', rfl⟩ := Option.map_eq_some_iff.mp hrow
        apply h.ordered _ row' hrow'
      · apply h.ordered id row hrow

/-! ### Departing -/

/-- Every row is a row from before, or the new one. -/
theorem getElem?_joined {participantId id : String} {row : ℕ × InputMark}
    (h : (ledger.joined participantId)[id]? = some row) :
  (id = participantId ∧
    row = (ledger.departures + 1, (ledger.mark participantId).getD ⟨0, 0⟩)) ∨
    id ≠ participantId ∧ ledger.departed[id]? = some row
  := by
  rw [joined, Std.ExtTreeMap.getElem?_insert] at h
  grind

theorem dropped_eq_some {participantId : String} {oldest : String × ℕ × InputMark}
    (h : ledger.dropped participantId limit = some oldest) :
  limit < (ledger.joined participantId).size ∧
    (ledger.joined participantId)[oldest.1]? = some oldest.2 ∧
    ∀ (id : String) (row : ℕ × InputMark), (ledger.joined participantId)[id]? = some row →
      oldest.2.1 ≤ row.1
  := by
  unfold dropped at h
  split at h
  case isFalse => cases h
  case isTrue hover =>
    obtain ⟨hmem, hleast⟩ := @minBy_spec (String × ℕ × InputMark) ℕ _ _ (fun row => row.2.1)
      (fun _ _ => rfl) _ _ h
    refine ⟨hover, mem_toList.mp hmem, ?_⟩
    intro id row hrow
    apply hleast (id, row) (mem_toList.mpr hrow)

/-- The signer who has just departed is not the one who is dropped. -/
theorem Sound.dropped_ne (h : Sound limit ledger) (hlimit : 1 ≤ limit) {participantId : String}
    {oldest : String × ℕ × InputMark}
    (hdropped : ledger.dropped participantId limit = some oldest) :
  oldest.1 ≠ participantId
  := by
  obtain ⟨hover, holdest, hleast⟩ := dropped_eq_some hdropped
  intro hsame
  -- There is another row, and its number is smaller.
  have hmem : participantId ∈ ledger.joined participantId := by
    simp [joined]
  obtain ⟨id, hid, hne⟩ := exists_ne_of_size_ne_one hmem (by omega)
  obtain ⟨row, hrow⟩ := mem_iff_exists.mp hid
  have hle := hleast id row hrow
  obtain ⟨hid, -⟩ | ⟨-, hrow⟩ := getElem?_joined hrow
  · apply hne hid
  · have hnumber := h.ordered id row hrow
    obtain ⟨-, hold⟩ | ⟨hother, -⟩ := getElem?_joined holdest
    · rw [hold] at hle
      omega
    · apply hother hsame

/-- The rows that a departure leaves: all but the one that is dropped. -/
theorem departed_retire_of_joined {participantId id : String} {row : ℕ × InputMark}
    (hrow : (ledger.joined participantId)[id]? = some row)
    (hkept : ∀ oldest, ledger.dropped participantId limit = some oldest → oldest.1 ≠ id) :
  (ledger.retire participantId limit).departed[id]? = some row
  := by
  simp only [retire]
  split
  case h_1 oldest hdropped =>
    rw [getElem?_erase_of_ne (hkept oldest hdropped)]
    apply hrow
  case h_2 => apply hrow

theorem Sound.retire (h : Sound limit ledger) (participantId : String) :
  Sound limit (ledger.retire participantId limit)
  := by
  refine ⟨?_, ?_, ?_⟩
  · intro id hid hdeparted
    obtain ⟨hne, hid⟩ : participantId ≠ id ∧ id ∈ ledger.active := by
      simpa [InputLedger.retire] using hid
    obtain ⟨row, hrow⟩ := mem_iff_exists.mp hdeparted
    obtain ⟨hsame, -⟩ | ⟨-, hrow⟩ := departed_retire hrow
    · apply hne hsame.symm
    · apply h.disjoint id hid (mem_iff_exists.mpr ⟨row, hrow⟩)
  · have hjoined : (ledger.joined participantId).size ≤ limit + 1 :=
      size_insert_le.trans (by have := h.bounded; omega)
    simp only [InputLedger.retire]
    cases hdropped : ledger.dropped participantId limit with
    | some oldest =>
      obtain ⟨-, holdest, -⟩ := dropped_eq_some hdropped
      have hmem : oldest.1 ∈ ledger.joined participantId :=
        mem_iff_exists.mpr ⟨_, holdest⟩
      simp only [size_erase_of_mem hmem]
      omega
    | none =>
      unfold dropped at hdropped
      split at hdropped
      case isTrue hover =>
        rw [minBy_eq_none, Std.ExtTreeMap.toList_eq_nil_iff] at hdropped
        rw [hdropped] at hover
        simp at hover
      case isFalse hfits => apply not_lt.mp hfits
  · intro id row hrow
    obtain ⟨-, rfl⟩ | ⟨-, hrow⟩ := departed_retire hrow
    · apply le_refl
    · apply (h.ordered id row hrow).trans (Nat.le_succ _)

/-! ### What a mark covers -/

/-- The mark of the signer is at least as new as the input. -/
def Covers (ledger : InputLedger) (input : DomeSessionInput) : Prop :=
  ∃ mark, ledger.mark input.participantPubkey = some mark ∧
    input.sequence ≤ mark.sequence ∧ input.sentAt ≤ mark.sentAt

theorem mark_of_departed (h : Sound limit ledger) {id : String} {row : ℕ × InputMark}
    (hrow : ledger.departed[id]? = some row) :
  ledger.mark id = some row.2
  := by
  have hactive : ledger.active[id]? = none := by
    rw [Std.ExtTreeMap.getElem?_eq_none]
    intro hmem
    apply h.disjoint id hmem (mem_iff_exists.mpr ⟨row, hrow⟩)
  rw [mark, hactive, hrow]
  rfl

theorem mark_of_active {id : String} {mark : InputMark} (h : ledger.active[id]? = some mark) :
  ledger.mark id = some mark
  := by
  rw [InputLedger.mark, h]
  rfl

/-- Where a mark is. -/
theorem mark_cases {id : String} {mark : InputMark} (h : ledger.mark id = some mark) :
  ledger.active[id]? = some mark ∨ ∃ order, ledger.departed[id]? = some (order, mark)
  := by
  rw [InputLedger.mark] at h
  cases hactive : ledger.active[id]? with
  | some mark' =>
    rw [hactive] at h
    exact .inl h
  | none =>
    rw [hactive, none_or, map_eq_some_iff] at h
    obtain ⟨⟨order, _⟩, hrow, rfl⟩ := h
    exact .inr ⟨order, hrow⟩

section

variable (hsound : Sound limit ledger)
include hsound

/-- A mark that is pruned covers only inputs that have expired. -/
theorem Covers.prune (h : ledger.Covers input) (nowMillis : ℤ) :
  (ledger.prune nowMillis).Covers input ∨ inputExpired input.sentAt nowMillis
  := by
  obtain ⟨mark, hmark, hsequence, hsent⟩ := h
  rcases mark_cases hmark with hactive | ⟨order, hrow⟩
  · left
    exact ⟨mark, mark_of_active hactive, hsequence, hsent⟩
  · by_cases hexpired : inputExpired mark.sentAt nowMillis
    · right
      apply inputExpired_mono hsent (le_refl _) hexpired
    · left
      refine ⟨mark, ?_, hsequence, hsent⟩
      have hkept : (ledger.prune nowMillis).departed[input.participantPubkey]?
          = some (order, mark) := by
        rw [InputLedger.prune, getElem?_filter', hrow]
        simp [Option.filter, hexpired]
      apply mark_of_departed (hsound.prune nowMillis) hkept

/-- A newer input of the signer moves the mark on. -/
theorem Covers.record {input' : DomeSessionInput} (h : ledger.Covers input)
    (hnewer : ∀ mark ∈ ledger.mark input'.participantPubkey, mark.sequence < input'.sequence)
    (active : Bool) :
  (ledger.record input' active).Covers input
  := by
  obtain ⟨mark, hmark, hsequence, hsent⟩ := h
  by_cases hsame : input'.participantPubkey = input.participantPubkey
  · rw [hsame] at hnewer
    have hnewer := hnewer mark hmark
    let mark' : InputMark := ⟨input'.sequence, max mark.sentAt input'.sentAt⟩
    have hcovers : input.sequence ≤ mark'.sequence ∧ input.sentAt ≤ mark'.sentAt :=
      ⟨hsequence.trans hnewer.le, hsent.trans (le_max_left _ _)⟩
    cases active with
    | true =>
      refine ⟨mark', mark_of_active ?_, hcovers⟩
      simp [InputLedger.record, hsame, hmark, mark']
    | false =>
      rcases mark_cases hmark with hactive | ⟨order, hrow⟩
      · exact ⟨mark, mark_of_active hactive, hsequence, hsent⟩
      · have hrow' : (ledger.record input' false).departed[input.participantPubkey]?
            = some (order, mark') := by
          simp [InputLedger.record, hsame, hmark, hrow, mark']
        exact ⟨mark', mark_of_departed (hsound.record input' false) hrow', hcovers⟩
  · -- The record is about another signer.
    refine ⟨mark, ?_, hsequence, hsent⟩
    rw [← hmark, InputLedger.mark, InputLedger.mark]
    cases active with
    | true =>
      simp only [InputLedger.record, if_true]
      rw [getElem?_insert_of_ne hsame, getElem?_erase_of_ne hsame]
    | false =>
      simp only [InputLedger.record, Bool.false_eq_true, if_false]
      rw [Std.ExtTreeMap.getElem?_modify, if_neg]
      rw [Std.LawfulEqCmp.compare_eq_iff_eq]
      apply hsame

/-- A departure keeps what is covered, unless the row of the signer is dropped. -/
theorem Covers.retire (hlimit : 1 ≤ limit) (h : ledger.Covers input) (participantId : String)
    (hexpired : ∀ oldest, ledger.dropped participantId limit = some oldest →
      inputExpired oldest.2.2.sentAt nowMillis) :
  (ledger.retire participantId limit).Covers input ∨ inputExpired input.sentAt nowMillis
  := by
  obtain ⟨mark, hmark, hsequence, hsent⟩ := h
  have hsound' := hsound.retire participantId
  by_cases hsame : participantId = input.participantPubkey
  · -- The mark moves to the departed signers.
    left
    subst hsame
    refine ⟨mark, ?_, hsequence, hsent⟩
    have hrow : (ledger.joined input.participantPubkey)[input.participantPubkey]?
        = some (ledger.departures + 1, mark) := by
      simp [joined, hmark]
    apply mark_of_departed hsound' (departed_retire_of_joined hrow _)
    intro oldest hdropped
    apply hsound.dropped_ne hlimit hdropped
  · rcases mark_cases hmark with hactive | ⟨order, hrow⟩
    · left
      refine ⟨mark, mark_of_active ?_, hsequence, hsent⟩
      apply (getElem?_erase_of_ne hsame).trans hactive
    · have hjoined : (ledger.joined participantId)[input.participantPubkey]?
          = some (order, mark) := (getElem?_insert_of_ne hsame).trans hrow
      by_cases hlost : ∃ oldest, ledger.dropped participantId limit = some oldest ∧
          oldest.1 = input.participantPubkey
      · right
        obtain ⟨oldest, hdropped, hid⟩ := hlost
        obtain ⟨-, holdest, -⟩ := dropped_eq_some hdropped
        rw [hid, hjoined] at holdest
        have hexpired := hexpired oldest hdropped
        rw [← some.inj holdest] at hexpired
        apply inputExpired_mono hsent (le_refl _) hexpired
      · left
        refine ⟨mark, ?_, hsequence, hsent⟩
        apply mark_of_departed hsound' (departed_retire_of_joined hjoined _)
        intro oldest hdropped hid
        apply hlost ⟨oldest, hdropped, hid⟩

/-- An input that is covered, or has expired, does not pass the check. -/
theorem not_check_of_covers (h : ledger.Covers input ∨ inputExpired input.sentAt nowMillis)
    (u : Unit) :
  (ledger.check input nowMillis).1 ≠ .ok u
  := by
  intro hcheck
  obtain ⟨hlive, hnewer⟩ := check_eq_ok.mp hcheck
  have hcovers : (ledger.prune nowMillis).Covers input := by
    rcases h with h | h
    · apply (h.prune hsound nowMillis).resolve_right hlive
    · exact absurd h hlive
  obtain ⟨mark, hmark, hsequence, -⟩ := hcovers
  rw [hmark] at hnewer
  apply (not_lt.mpr hsequence) hnewer

end

end InputLedger

/-! ### Runs -/

section

variable {World Handle : Type} {physics : Physics World Handle}
variable {primitives : SessionPrimitives} {session : DomeSession}
variable {s t : DomeSessionState World Handle} {e : SessionEvent World Handle}
variable {input : DomeSessionInput}

/-- The event only drops marks that have expired when there are too many. -/
def Spares (physics : Physics World Handle) (session : DomeSession)
    (e : SessionEvent World Handle) : Prop :=
  ∀ ledger id, Retires physics session e ledger id →
    ∀ oldest, ledger.dropped id session.participantLimit = some oldest →
      inputExpired oldest.2.2.sentAt e.op.nowMillis

/-- The event is the acceptance of a signed input. -/
def Accepts (e : SessionEvent World Handle) (signed : SignedDomeSessionInput) : Prop :=
  e.op.call = .applySignedInput signed ∧ e.ret = .ok .done

theorem Sound.move (hs : s.inputs.Sound session.participantLimit)
    (h : Move physics session e s t) :
  t.inputs.Sound session.participantLimit
  := by
  cases h with
  | settle h =>
    rw [h.inputs]
    apply hs
  | prune => apply hs.prune
  | record hcall hnewer active => apply hs.record
  | enter hadmits hafter hparticipants hbodies hafterBodies hentered =>
    obtain ⟨world, bodiesById, high, -, rfl⟩ := hentered
    apply hs
  | @leave id hdeparts hretires =>
    obtain ⟨world, hevict⟩ := evictParticipant_eq physics session id s
    rw [hevict]
    split
    · apply hs.retire
    · apply hs
  | _ => apply hs

section

variable (hlimit : 1 ≤ session.participantLimit)
include hlimit

/-- What is covered stays covered, or has expired. -/
theorem Covers.move (hspares : Spares physics session e)
    (hs : s.inputs.Sound session.participantLimit)
    (hcovers : s.inputs.Covers input ∨ inputExpired input.sentAt e.op.nowMillis)
    (h : Move physics session e s t) :
  t.inputs.Covers input ∨ inputExpired input.sentAt e.op.nowMillis
  := by
  rcases hcovers with hcovers | hexpired
  case inr => exact .inr hexpired
  cases h with
  | settle h =>
    rw [h.inputs]
    exact .inl hcovers
  | prune => apply hcovers.prune hs
  | record hcall hnewer active =>
    left
    apply hcovers.record hs hnewer
  | enter hadmits hafter hparticipants hbodies hafterBodies hentered =>
    obtain ⟨world, bodiesById, high, -, rfl⟩ := hentered
    exact .inl hcovers
  | @leave id hdeparts hretires =>
    obtain ⟨world, hevict⟩ := evictParticipant_eq physics session id s
    rw [hevict]
    split
    case isTrue hretire =>
      apply hcovers.retire hs hlimit
      apply hspares _ _ (hretires hretire.1 hretire.2)
    case isFalse => exact .inl hcovers
  | _ => exact .inl hcovers

variable (hs : s.inputs.Sound session.participantLimit)
include hs

omit hlimit in
theorem Sound.step {timed : TimedCall} {result : SessionResult}
    (hstep : SessionStep physics primitives session s timed result t) :
  t.inputs.Sound session.participantLimit
  := by
  apply (moves_of_step hstep).invariant hs
  intro s t hs hmove
  apply Sound.move hs hmove

theorem Covers.step {timed : TimedCall} {result : SessionResult}
    (hstep : SessionStep physics primitives session s timed result t)
    (hspares : Spares physics session ⟨s, timed, result, t⟩) (hcovers : s.inputs.Covers input) :
  t.inputs.Covers input ∨ inputExpired input.sentAt timed.nowMillis
  := by
  have hboth : t.inputs.Sound session.participantLimit ∧
      (t.inputs.Covers input ∨ inputExpired input.sentAt timed.nowMillis) := by
    apply (moves_of_step hstep).invariant
      (P := fun s => s.inputs.Sound session.participantLimit ∧
        (s.inputs.Covers input ∨ inputExpired input.sentAt timed.nowMillis)) ⟨hs, .inl hcovers⟩
    intro s t hs hmove
    exact ⟨Sound.move hs.1 hmove, Covers.move hlimit hspares hs.1 hs.2 hmove⟩
  apply hboth.2

/-- An accepted input is covered when its signer is the owner, or was present before or after
it. -/
theorem covers_of_accepts {signed : SignedDomeSessionInput} {nowMillis : ℤ}
    (h : applySignedInputAt physics primitives session signed nowMillis s = (.ok (), t))
    (hsigner : signed.input.participantPubkey ∈ s.participants ∨
      signed.input.participantPubkey ∈ t.participants ∨
      signed.input.participantPubkey = session.lease.ownerPubkey) :
  t.inputs.Covers signed.input
  := by
  obtain ⟨-, hcheck, -, playerBudgets, s', -, happlied, world, transitionEntries, playerBudgets', -,
    -, -, rfl⟩ := applySignedInputAt_eq_ok h
  by_cases hactive : signed.input.participantPubkey ∈ s'.participants ∨
      signed.input.participantPubkey = session.lease.ownerPubkey
  · -- The mark is one of a signer who is present, or of the owner.
    have hactive : (decide (signed.input.participantPubkey ∈ s'.participants) ||
        decide (signed.input.participantPubkey = session.lease.ownerPubkey)) = true := by
      simpa using hactive
    simp only [hactive]
    refine ⟨_, mark_of_active (getElem?_insert_self ..), le_refl _, ?_⟩
    cases s'.inputs.mark signed.input.participantPubkey with
    | none => apply le_refl
    | some mark => apply le_max_right
  · -- The signer has left with this input, and has a row among those who departed.
    obtain ⟨habsent, hguest⟩ := not_or.mp hactive
    have hpresent : signed.input.participantPubkey ∈ s.participants := by
      rcases hsigner with hsigner | hsigner | hsigner
      · apply hsigner
      · exact absurd hsigner habsent
      · exact absurd hsigner hguest
    have hinputs : s'.inputs = (s.inputs.prune nowMillis).retire signed.input.participantPubkey
        session.participantLimit := by
      obtain ⟨-, hstays⟩ | hinputs := happlied.inputs
      · exact absurd (hstays hpresent) hactive
      · apply hinputs
    have hpruned := hs.prune nowMillis
    have hrow : s'.inputs.departed[signed.input.participantPubkey]? =
        some ((s.inputs.prune nowMillis).departures + 1,
          ((s.inputs.prune nowMillis).mark signed.input.participantPubkey).getD ⟨0, 0⟩) := by
      rw [hinputs]
      apply departed_retire_of_joined
      · simp [joined]
      · intro oldest hdropped
        apply hpruned.dropped_ne hlimit hdropped
    have hsound : s'.inputs.Sound session.participantLimit := by
      rw [hinputs]
      apply hpruned.retire
    have hactive : (decide (signed.input.participantPubkey ∈ s'.participants) ||
        decide (signed.input.participantPubkey = session.lease.ownerPubkey)) = false := by
      simp [habsent, hguest]
    simp only [hactive]
    have hmark := mark_of_departed hsound hrow
    have hrow' : (s'.inputs.record signed.input false).departed[
        signed.input.participantPubkey]? = some ((s.inputs.prune nowMillis).departures + 1,
          ⟨signed.input.sequence, (s'.inputs.mark signed.input.participantPubkey).elim
            signed.input.sentAt fun mark => max mark.sentAt signed.input.sentAt⟩) := by
      simp [record, hrow]
    refine ⟨_, mark_of_departed (hsound.record signed.input false) hrow', le_refl _, ?_⟩
    rw [hmark]
    apply le_max_right

/-- Along a run, what is covered stays covered or expires at one of the events. -/
theorem Covers.trace {h : List (SessionEvent World Handle)}
    (hcovers : s.inputs.Covers input)
    (htrace : Trace (SessionStep physics primitives session) s h t)
    (hspares : ∀ e ∈ h, Spares physics session e) :
  t.inputs.Sound session.participantLimit ∧ (t.inputs.Covers input ∨
    ∃ e ∈ h, inputExpired input.sentAt e.op.nowMillis)
  := by
  induction htrace with
  | nil => exact ⟨hs, .inl hcovers⟩
  | @snoc h s' timed result t htrace hstep ih =>
    obtain ⟨hs', hcovers'⟩ := ih fun e he => hspares e (mem_append_left _ he)
    refine ⟨Sound.step hs' hstep, ?_⟩
    rcases hcovers' with hcovers' | ⟨e, he, hexpired⟩
    · have hlast := hspares ⟨s', timed, result, t⟩ (by simp)
      rcases Covers.step hlimit hs' hstep hlast hcovers' with hcovers' | hexpired
      · exact .inl hcovers'
      · exact .inr ⟨⟨s', timed, result, t⟩, by simp, hexpired⟩
    · exact .inr ⟨e, mem_append_left _ he, hexpired⟩

end

/-- The step of an event that accepts an input. -/
theorem Accepts.applied {signed : SignedDomeSessionInput} (h : Accepts e signed)
    (hstep : SessionStep physics primitives session e.before e.op e.ret e.after) :
  applySignedInputAt physics primitives session signed e.op.nowMillis e.before
    = (.ok (), e.after)
  := by
  obtain ⟨hcall, hok⟩ := h
  have hperform : e.op.perform physics primitives session e.before = (e.ret, e.after) := hstep
  rw [TimedCall.perform, hcall, hok] at hperform
  obtain ⟨result, hinput, hresult⟩ := of_bind_pure hperform
  cases result with
  | error error => cases hresult
  | ok _ => apply hinput

end

section

variable {World Handle : Type}

/-- The ledger keeps its two tables apart and the second one small. In a run in which time does
not go back and only expired marks are dropped for want of room, no input is accepted twice,
when its signer is the owner, or was present before or after it was accepted. -/
theorem inputs_not_replayed (physics : Physics World Handle) (primitives : SessionPrimitives)
    (lease : SignedDomeHostingLease) (hostPubkey : Pubkey) (manifest : DomeInstanceManifest)
    (preset : DomePresetManifest) (sessionId : String) (startedAt : ℤ)
    (budget : MetaverseResourceBudgetConfig) (session : DomeSession)
    (s₀ s : DomeSessionState World Handle) (h : List (SessionEvent World Handle))
    (hstart : startWithBudget physics primitives lease hostPubkey manifest preset sessionId
      startedAt budget = .ok (session, s₀))
    (htrace : Trace (SessionStep physics primitives session) s₀ h s) :
  ((∀ id ∈ s.inputs.active, id ∉ s.inputs.departed) ∧
    s.inputs.departed.size ≤ session.participantLimit) ∧
  (h.Pairwise (fun e e' => e.op.nowMillis ≤ e'.op.nowMillis) →
    (∀ e ∈ h, Spares physics session e) →
    ∀ h₁ e h₂, h = h₁ ++ e :: h₂ → ∀ signed, Accepts e signed →
      (signed.input.participantPubkey ∈ e.before.participants ∨
        signed.input.participantPubkey ∈ e.after.participants ∨
        signed.input.participantPubkey = session.lease.ownerPubkey) →
      ∀ e' ∈ h₂, ∀ signed', signed'.input = signed.input → ¬ Accepts e' signed')
  := by
  have hstarted := startWithBudget_eq_ok hstart
  have hsound₀ : s₀.inputs.Sound session.participantLimit := by
    obtain ⟨_, _, _, _, rfl⟩ := hstarted.state
    refine ⟨?_, ?_, ?_⟩ <;> simp [DomeSessionState.empty, InputLedger.empty]
  have hsound : ∀ {h : List (SessionEvent World Handle)} {s},
      Trace (SessionStep physics primitives session) s₀ h s →
      s.inputs.Sound session.participantLimit := by
    intro h s htrace
    apply htrace.invariant hsound₀
    intro s timed result s' hs hstep
    apply Sound.step hs hstep
  refine ⟨⟨(hsound htrace).disjoint, (hsound htrace).bounded⟩, ?_⟩
  rintro htimes hspares h₁ e h₂ rfl signed haccepts hsigner e' he' signed' hsame haccepts'
  obtain ⟨htrace₁, hstep, htrace₂⟩ := htrace.split_event
  have hlimit := hstarted.limit
  have hcovers := covers_of_accepts hlimit (hsound htrace₁) (haccepts.applied hstep) hsigner
  -- The second acceptance happens after the events of `h₃`.
  obtain ⟨h₃, h₄, rfl⟩ := append_of_mem he'
  obtain ⟨htrace₃, hstep', -⟩ := htrace₂.split_event
  have hspares₃ : ∀ e ∈ h₃, Spares physics session e := by
    intro e'' he''
    apply hspares
    simp [he'']
  obtain ⟨hsound', hcovers'⟩ := Covers.trace hlimit (Sound.step (hsound htrace₁) hstep) hcovers
    htrace₃ hspares₃
  obtain ⟨-, hcheck, -⟩ := applySignedInputAt_eq_ok (haccepts'.applied hstep')
  rw [hsame] at hcheck
  apply InputLedger.not_check_of_covers hsound' _ () hcheck
  rcases hcovers' with hcovers' | ⟨e'', he'', hexpired⟩
  · exact .inl hcovers'
  · right
    have htime : e''.op.nowMillis ≤ e'.op.nowMillis := by
      rw [pairwise_append, pairwise_cons, pairwise_append] at htimes
      apply htimes.2.1.2.2.2 e'' he'' e' (by simp)
    apply inputExpired_mono (le_refl _) htime hexpired

end

/-- A participant joins, and the same input is refused when it comes again. -/
theorem inputs_not_replayed_join :
  ∃ session s₀ s s' result, Sample.start [Sample.joinChie] 2 = .ok (session, s₀) ∧
    SessionStep Sample.still (Sample.readInputs [Sample.joinChie]) session s₀
      ⟨20, .applySignedInput Sample.joinChie⟩ (.ok .done) s ∧
    SessionStep Sample.still (Sample.readInputs [Sample.joinChie]) session s
      ⟨25, .applySignedInput Sample.joinChie⟩ result s' ∧ result ≠ .ok .done
  := by
  obtain ⟨session, s₀, s, hstart, -, hstep, hs⟩ := Sample.exists_joined
  obtain ⟨result, s', hstep'⟩ : ∃ result s',
      SessionStep Sample.still (Sample.readInputs [Sample.joinChie]) session s
        ⟨25, .applySignedInput Sample.joinChie⟩ result s' := ⟨_, _, rfl⟩
  refine ⟨session, s₀, s, s', result, hstart, hstep, hstep', ?_⟩
  have htrace := (Trace.nil.snoc hstep).snoc hstep'
  -- Nobody leaves in this run.
  have hspares : ∀ e ∈ ([] ++ [⟨s₀, ⟨20, .applySignedInput Sample.joinChie⟩, .ok .done, s⟩]) ++
      [⟨s, ⟨25, .applySignedInput Sample.joinChie⟩, result, s'⟩],
      Spares Sample.still session e := by
    intro e he ledger id hretires
    simp only [nil_append, cons_append, mem_cons, not_mem_nil, or_false] at he
    rcases he with rfl | rfl
    · rcases hretires with ⟨⟨⟩⟩ | ⟨⟨⟩, -, ⟨⟩⟩ | ⟨⟨⟩⟩
    · rcases hretires with ⟨⟨⟩⟩ | ⟨⟨⟩, -, ⟨⟩⟩ | ⟨⟨⟩⟩
  obtain ⟨-, hreplay⟩ := inputs_not_replayed _ _ _ _ _ _ _ _ _ _ _ _ _ hstart htrace
  have htwice := hreplay (by simp) hspares [] _ _ rfl Sample.joinChie ⟨rfl, rfl⟩
    (.inr (.inl hs)) _ (mem_singleton.mpr rfl) Sample.joinChie rfl
  intro hresult'
  apply htwice ⟨rfl, hresult'⟩

end Kukuri
