import Kukuri.Metaverse.SessionCapacity

/-!
# Inputs that are refused

The windows of a player are charged before an input is applied, and those of a signer who does
not participate are dropped again. In every session that can be reached only participants have
windows, so a refused input of anybody else changes no window at all.
-/

namespace Kukuri

open Result Command Std.ExtTreeMap Std.ExtTreeSet

variable {World Handle : Type} {physics : Physics World Handle} {primitives : SessionPrimitives}
variable {session : DomeSession} {s t : DomeSessionState World Handle}

/-! ### Windows -/

theorem mem_congr {m m' : BTreeMap String PlayerBudgetState} {id : String}
    (h : m[id]? = m'[id]?) :
  id ∈ m ↔ id ∈ m'
  := by
  rw [mem_iff_isSome_getElem?, h, ← mem_iff_isSome_getElem?]

/-- Only participants have windows. -/
def WindowsOfParticipants (s : DomeSessionState World Handle) : Prop :=
  ∀ id ∈ s.playerBudgets, id ∈ s.participants

theorem WindowsOfParticipants.evict (h : WindowsOfParticipants s) (id : Pubkey) :
  WindowsOfParticipants (evictParticipant physics session id s).2
  := by
  obtain ⟨world, hevict⟩ := evictParticipant_eq physics session id s
  rw [hevict]
  intro id' hid'
  rw [Std.ExtTreeMap.mem_erase] at hid'
  exact Std.ExtTreeSet.mem_erase.mpr ⟨hid'.1, h id' hid'.2⟩

/-- An input is about its signer: nobody else leaves or gets windows. -/
theorem Applied.others {input : DomeSessionInput} (h : Applied physics session input s t)
    {id : String} (hid : id ≠ input.participantPubkey) :
  (id ∈ t.playerBudgets → id ∈ s.playerBudgets) ∧ (id ∈ s.participants → id ∈ t.participants)
  := by
  cases h with
  | join hkind hhoused => exact ⟨fun h => h, fun h => Std.ExtTreeSet.mem_insert.mpr (.inr h)⟩
  | leave hkind =>
    obtain ⟨world, hevict⟩ := evictParticipant_eq physics session input.participantPubkey s
    rw [hevict]
    refine ⟨fun h => (Std.ExtTreeMap.mem_erase.mp h).2, fun h => ?_⟩
    refine Std.ExtTreeSet.mem_erase.mpr ⟨?_, h⟩
    rw [ne_eq, Std.LawfulEqCmp.compare_eq_iff_eq]
    apply Ne.symm hid
  | _ => exact ⟨fun h => h, fun h => h⟩

/-- A signed input leaves windows of participants, whether it is accepted or not. -/
theorem WindowsOfParticipants.input (h : WindowsOfParticipants s)
    {signed : SignedDomeSessionInput} {nowMillis : ℤ} {result : Except SessionError Unit}
    (hinput : applySignedInputAt physics primitives session signed nowMillis s = (result, t)) :
  WindowsOfParticipants t
  := by
  cases result with
  | ok _ =>
    obtain ⟨-, -, -, playerBudgets, s', hothers, happlied, _, _, playerBudgets', -, hsame,
      hstranger, rfl⟩ := applySignedInputAt_eq_ok hinput
    intro id hid
    by_cases hsigner : id = signed.input.participantPubkey
    · subst hsigner
      by_contra habsent
      apply hstranger habsent hid
    · obtain ⟨hwindows, hpresent⟩ := happlied.others hsigner
      have hcharged := hwindows ((mem_congr (hsame id hsigner)).mp hid)
      apply hpresent
      apply h id ((mem_congr (hothers id hsigner)).mp hcharged)
  | error error =>
    obtain ⟨_, playerBudgets, _, _, -, hbudgets, rfl⟩ := applySignedInputAt_eq_error hinput
    intro id hid
    rcases hbudgets id with hsame | ⟨-, hpresent | hnone⟩
    · apply h id ((mem_congr hsame).mp hid)
    · apply hpresent
    · exact absurd hid hnone

/-! ### Runs -/

theorem windows_evictAll (ids : List String) (h : WindowsOfParticipants s) :
  WindowsOfParticipants (evictAll physics session ids s)
  := by
  induction ids generalizing s with
  | nil => apply h
  | cons id ids ih => apply ih (h.evict id)

/-- Nobody leaves when a ticket is redeemed. -/
theorem WindowsOfParticipants.redeem (h : WindowsOfParticipants s)
    {ticket : DomeTransitionAdmissionTicket} {position rotation : Vec3} {nowMillis : ℤ}
    {result : Except SessionError Unit}
    (hredeem : redeemTransition physics session ticket position rotation nowMillis s
      = (result, t)) :
  WindowsOfParticipants t
  := by
  cases result with
  | ok _ =>
    obtain ⟨_, ⟨_, _, _, -, rfl⟩, _, _, _, -, rfl⟩ := redeemTransition_eq_ok hredeem
    exact fun id hid => mem_insert.mpr (.inr (h id hid))
  | error error =>
    rcases redeemTransition_eq_error hredeem with rfl | ⟨_, _, _, -, rfl⟩
    · apply h
    · exact fun id hid => mem_insert.mpr (.inr (h id hid))

/-- Every call leaves windows of participants. -/
theorem WindowsOfParticipants.step (h : WindowsOfParticipants s) {timed : TimedCall}
    {result : SessionResult} (hstep : SessionStep physics primitives session s timed result t) :
  WindowsOfParticipants t
  := by
  obtain ⟨nowMillis, call⟩ := timed
  cases call with
  | applySignedInput signed =>
    obtain ⟨r, hinput, -⟩ := of_bind_pure hstep
    apply h.input hinput
  | prepareTransitionAdmission request access =>
    obtain ⟨r, hprepare, -⟩ := of_bind_pure hstep
    cases r with
    | ok ticket =>
      obtain ⟨-, ⟨-, -, rfl⟩ | ⟨-, -, rfl⟩⟩ := prepareTransitionAdmission_eq_ok hprepare <;> apply h
    | error error =>
      rw [prepareTransitionAdmission_eq_error hprepare]
      apply h
  | commitTransitionAdmission ticket position rotation =>
    obtain ⟨r, hcommit, -⟩ := of_bind_pure hstep
    rcases commitTransitionAdmission_eq hcommit with ⟨rfl, -⟩ | ⟨-, -, -, hredeem⟩
    · apply h
    · apply WindowsOfParticipants.redeem _ hredeem
      apply h
  | abortTransitionAdmission transitionId participantPubkey =>
    obtain ⟨r, habort, -⟩ := of_bind_pure hstep
    rcases abortTransitionAdmission_eq habort with ⟨rfl, -⟩ | ⟨-, -, rfl⟩ <;> apply h
  | evictParticipant participantPubkey =>
    obtain rfl := congrArg Prod.snd hstep
    apply h.evict
  | revokeTransitionAccess participantPubkey connectionId | drainConnection connectionId =>
    obtain rfl := congrArg Prod.snd hstep
    apply h
  | advanceTo =>
    obtain ⟨r, hadvance, -⟩ := of_bind_pure hstep
    rcases advanceTo_eq hadvance with ⟨-, rfl⟩ | ⟨-, steps, rfl⟩
    · apply h
    · obtain ⟨_, _, hremove⟩ := removeBodies_eq physics (expiredGuestProps nowMillis s) s
      obtain ⟨_, _, hsimulate, -⟩ := simulate_eq physics steps (expireStaleParticipants physics
        session nowMillis (expireGuestProps physics nowMillis s))
      rw [hsimulate]
      apply windows_evictAll
      rw [expireGuestProps, hremove]
      apply h

/-! ### Refusal -/

/-- A signed input that is refused in a session that can be reached changes nothing but marks of
departed signers that have expired, the windows of the signer, if it participates, and the
counters of rejections. -/
theorem refused_input_changes_nothing (physics : Physics World Handle)
    (primitives : SessionPrimitives) (lease : SignedDomeHostingLease) (hostPubkey : Pubkey)
    (manifest : DomeInstanceManifest) (preset : DomePresetManifest) (sessionId : String)
    (startedAt : ℤ) (budget : MetaverseResourceBudgetConfig) (session : DomeSession)
    (s₀ s t : DomeSessionState World Handle) (h : List (SessionEvent World Handle))
    (hstart : startWithBudget physics primitives lease hostPubkey manifest preset sessionId
      startedAt budget = .ok (session, s₀))
    (htrace : Trace (SessionStep physics primitives session) s₀ h s)
    (signed : SignedDomeSessionInput) (nowMillis : ℤ) (error : SessionError)
    (hrefused : applySignedInputAt physics primitives session signed nowMillis s
      = (.error error, t)) :
  ∃ departed playerBudgets rejectionCounts rejectedTotal,
    t = { s with
      inputs := { s.inputs with departed }
      playerBudgets, rejectionCounts, rejectedTotal } ∧
    (departed = s.inputs.departed ∨ departed =
      s.inputs.departed.filter fun _ row => ¬ inputExpired row.2.sentAt nowMillis) ∧
    ∀ id, playerBudgets[id]? = s.playerBudgets[id]? ∨
      id = signed.input.participantPubkey ∧ id ∈ s.participants
  := by
  have hwindows : WindowsOfParticipants s := by
    apply htrace.invariant
    · obtain ⟨_, _, _, _, rfl⟩ := (startWithBudget_eq_ok hstart).state
      intro id hid
      simp [DomeSessionState.empty] at hid
    · intro s timed result s' hs hstep
      apply hs.step hstep
  obtain ⟨inputs, playerBudgets, rejectionCounts, rejectedTotal, hinputs, hbudgets, hafter⟩ :=
    applySignedInputAt_eq_error hrefused
  have hkept : ∀ id, playerBudgets[id]? = s.playerBudgets[id]? ∨
      id = signed.input.participantPubkey ∧ id ∈ s.participants := by
    intro id
    rcases hbudgets id with hsame | ⟨hid, hpresent | hnone⟩
    · exact .inl hsame
    · exact .inr ⟨hid, hpresent⟩
    · -- Somebody who does not participate had no windows either.
      by_cases hpresent : id ∈ s.participants
      · exact .inr ⟨hid, hpresent⟩
      · left
        rw [getElem?_eq_none hnone, getElem?_eq_none fun hmem => hpresent (hwindows id hmem)]
  rcases hinputs with rfl | rfl
  · exact ⟨_, playerBudgets, rejectionCounts, rejectedTotal, hafter, .inl rfl, hkept⟩
  · exact ⟨_, playerBudgets, rejectionCounts, rejectedTotal, hafter, .inr rfl, hkept⟩

namespace Sample

def keepDaiki := signedInput "daiki" "daiki is here" 1 20 .keepAlive

end Sample

open Sample

/-- Somebody who has not joined is refused after the windows were charged, and has none
afterwards. -/
theorem refused_input_changes_nothing_stranger :
  ∃ session s₀ t error, Sample.start [Sample.keepDaiki] 2 = .ok (session, s₀) ∧
    applySignedInputAt Sample.still (Sample.readInputs [Sample.keepDaiki]) session
      Sample.keepDaiki 20 s₀ = (.error error, t) ∧
    t.participants = s₀.participants ∧ t.playerBudgets["daiki"]? = s₀.playerBudgets["daiki"]?
  := by
  have hrun : (start [keepDaiki] 2).map (fun started =>
      (decide ("daiki" ∈ started.2.participants), (applySignedInputAt still
        (readInputs [keepDaiki]) started.1 keepDaiki 20 started.2).1)) =
      .ok (false, .error (.failed
        (.bail "Dome session input requires a joined participant"))) := by
    decide +kernel
  obtain ⟨⟨session, s₀⟩, hstart, hrun⟩ := Result.map_eq_ok.mp hrun
  obtain ⟨habsent, herror⟩ := Prod.mk.inj hrun
  obtain ⟨t, hrefused⟩ : ∃ t, applySignedInputAt still
      (readInputs [keepDaiki]) session keepDaiki 20 s₀ = (.error _, t) :=
    ⟨_, Prod.ext herror rfl⟩
  obtain ⟨departed, playerBudgets, _, _, hafter, -, hbudgets⟩ :=
    refused_input_changes_nothing _ _ _ _ _ _ _ _ _ _ _ _ _ _ hstart .nil _ _ _ hrefused
  refine ⟨session, s₀, t, _, hstart, hrefused, ?_, ?_⟩ <;> rw [hafter]
  · apply (hbudgets "daiki").resolve_right
    rintro ⟨-, hpresent⟩
    apply of_decide_eq_false habsent hpresent

end Kukuri
