import Kukuri.Metaverse.SessionSteps

/-!
# Moves of a session

Every call of a session is a sequence of elementary changes, its moves. A move knows the event
that it belongs to, so that what the call has checked can be used where the change is made. An
invariant of sessions is proved once for each move (`moves_of_step`, `Moves.invariant`).
-/

namespace Kukuri

open Result Command List BTreeMap

variable {World Handle : Type} {physics : Physics World Handle}
variable {primitives : SessionPrimitives} {session : DomeSession}

/-! ### Events -/

/-- The event takes a participant who is not the owner from this ledger. -/
inductive Retires (physics : Physics World Handle) (session : DomeSession)
    (e : SessionEvent World Handle) : InputLedger → String → Prop
  | evict {id} (hcall : e.op.call = .evictParticipant id) (hpresent : id ∈ e.before.participants)
      (hguest : id ≠ session.lease.ownerPubkey) :
      Retires physics session e e.before.inputs id
  | input {signed} (hcall : e.op.call = .applySignedInput signed) (hok : e.ret = .ok .done)
      (hleaves : leaves signed.input.input)
      (hpresent : signed.input.participantPubkey ∈ e.before.participants)
      (hguest : signed.input.participantPubkey ≠ session.lease.ownerPubkey) :
      Retires physics session e (e.before.inputs.prune e.op.nowMillis)
        signed.input.participantPubkey
  | stale {earlier id later s} (hcall : e.op.call = .advanceTo) (hok : e.ret = .ok .done)
      (hids : staleParticipants e.op.nowMillis
        (expireGuestProps physics e.op.nowMillis e.before) = earlier ++ id :: later)
      (hs : s = evictAll physics session earlier
        (expireGuestProps physics e.op.nowMillis e.before))
      (hpresent : id ∈ s.participants) (hguest : id ≠ session.lease.ownerPubkey) :
      Retires physics session e s.inputs id

/-- The event lets the participant in. -/
inductive Admits (session : DomeSession) (e : SessionEvent World Handle) : String → Prop
  | join {signed collider} (hcall : e.op.call = .applySignedInput signed)
      (hkind : signed.input.input = .join collider)
      (hpermitted : Permitted session e.before signed.input) :
      Admits session e signed.input.participantPubkey
  | commit {ticket position rotation}
      (hcall : e.op.call = .commitTransitionAdmission ticket position rotation) :
      Admits session e ticket.request.participantPubkey

/-- Calls that drop reservations which are over. -/
def SessionCall.arrives : SessionCall → Bool
  | .prepareTransitionAdmission _ _ | .commitTransitionAdmission _ _ _
  | .abortTransitionAdmission _ _ => true
  | _ => false

/-- The event lets the participant of the ticket in with it. -/
def Redeems (e : SessionEvent World Handle) (ticket : DomeTransitionAdmissionTicket) : Prop :=
  (∃ position rotation, e.op.call = .commitTransitionAdmission ticket position rotation) ∧
    e.ret = .ok .done ∧ e.before.committedTransitions[ticket.request.transitionId]? = none

/-- The event ends the reservation that the identifier has. -/
inductive Ends (e : SessionEvent World Handle) (id : String)
    (ticket : DomeTransitionAdmissionTicket) : Prop
  | expire (hcall : e.op.call.arrives) (hlate : ticket.expiresAt ≤ e.op.nowMillis)
  | abort {participantPubkey}
      (hcall : e.op.call = .abortTransitionAdmission id participantPubkey)
      (hok : e.ret = .ok .done) (hopen : id ∉ e.before.committedTransitions)

/-- The event revokes the access that the ticket gives. -/
def Revokes (e : SessionEvent World Handle) (ticket : DomeTransitionAdmissionTicket) : Prop :=
  ∃ participantPubkey connectionId,
    e.op.call = .revokeTransitionAccess participantPubkey connectionId ∧
    (ticket.request.participantPubkey = participantPubkey ∨
      ticket.request.connectionId ∈ connectionId)

/-- The event drains the connection of the ticket. -/
def Drains (e : SessionEvent World Handle) (ticket : DomeTransitionAdmissionTicket) : Prop :=
  e.op.call = .drainConnection ticket.request.connectionId

/-- The event takes the participant out: by a call, by an input of its own, or because it has
not been seen for too long. -/
structure Departs (e : SessionEvent World Handle) (id : String) : Prop where
  absent : id ∉ e.after.participants
  cause : e.op.call = .evictParticipant id ∨
    (∃ signed, e.op.call = .applySignedInput signed ∧ e.ret = .ok .done ∧
      leaves signed.input.input ∧ signed.input.participantPubkey = id) ∨
    e.op.call = .advanceTo ∧ id ∈ e.before.participantLastSeenAt

/-! ### Moves -/

/-- Nothing but the world, the budgets, the counters and the clock has changed, and entries
that have ended. -/
structure Settled (s t : DomeSessionState World Handle) : Prop where
  participants : t.participants = s.participants
  reservations : t.transitionReservations = s.transitionReservations
  committed : t.committedTransitions = s.committedTransitions
  exits : t.preparedExits = s.preparedExits
  entries : ∀ id ∈ t.transitionEntries, id ∈ s.transitionEntries
  seats : t.seatedOn = s.seatedOn
  inputs : t.inputs = s.inputs
  lastSeen : t.participantLastSeenAt = s.participantLastSeenAt
  bodies : t.bodiesById = s.bodiesById

/-- The elementary changes of a call. -/
inductive Move (physics : Physics World Handle) (session : DomeSession)
    (e : SessionEvent World Handle) :
    DomeSessionState World Handle → DomeSessionState World Handle → Prop
  | settle {s t} (h : Settled s t) : Move physics session e s t
  | prune {s} :
      Move physics session e s { s with inputs := s.inputs.prune e.op.nowMillis }
  | record {s signed} (hcall : e.op.call = .applySignedInput signed)
      (hnewer : ∀ mark ∈ s.inputs.mark signed.input.participantPubkey,
        mark.sequence < signed.input.sequence) (active : Bool) :
      Move physics session e s { s with inputs := s.inputs.record signed.input active }
  | touch {s id} (hpresent : id ∈ s.participants) :
      Move physics session e s { s with
        participantLastSeenAt := s.participantLastSeenAt.insert id e.op.nowMillis }
  /-- Reservations and exits are given up, and commits when access is revoked. -/
  | withdraw {s} {transitionReservations committedTransitions preparedExits}
      (hreservations : ∀ (id : String) (ticket : DomeTransitionAdmissionTicket),
        transitionReservations[id]? = some ticket → s.transitionReservations[id]? = some ticket)
      (hcommitted : ∀ (id : String) (ticket : DomeTransitionAdmissionTicket),
        committedTransitions[id]? = some ticket → s.committedTransitions[id]? = some ticket)
      (hexits : ∀ id ∈ preparedExits, id ∈ s.preparedExits)
      (hreserved : ∀ (id : String) (ticket : DomeTransitionAdmissionTicket),
        s.transitionReservations[id]? = some ticket → transitionReservations[id]? = some ticket ∨
          Ends e id ticket ∨ Revokes e ticket ∨ Drains e ticket)
      (hremembered : ∀ (id : String) (ticket : DomeTransitionAdmissionTicket),
        s.committedTransitions[id]? = some ticket → committedTransitions[id]? = some ticket ∨
          Revokes e ticket) :
      Move physics session e s { s with
        transitionReservations, committedTransitions, preparedExits }
  | reserve {s request access}
      (hcall : e.op.call = .prepareTransitionAdmission request access)
      (hreservable : Reservable session s request) :
      Move physics session e s { s with
        transitionReservations := s.transitionReservations.insert request.transitionId
          (newTicket session request e.op.nowMillis) }
  | enter {s t id} (hadmits : Admits session e id) (hafter : id ∈ e.after.participants)
      (hparticipants : s.participants = e.before.participants)
      (hbodies : s.bodiesById = e.before.bodiesById)
      (hafterBodies : t.bodiesById = e.after.bodiesById)
      (hentered : Entered id e.op.nowMillis s t) :
      Move physics session e s t
  | redeem {s ticket} (hpresent : ticket.request.participantPubkey ∈ s.participants)
      (hredeems : Redeems e ticket)
      (hreserved : s.transitionReservations[ticket.request.transitionId]? = some ticket)
      (hfresh : s.committedTransitions[ticket.request.transitionId]? = none) :
      Move physics session e s (redeem ticket s)
  | leave {s id} (hdeparts : Departs e id)
      (hretires : id ∈ s.participants → id ≠ session.lease.ownerPubkey →
        Retires physics session e s.inputs id) :
      Move physics session e s (evictParticipant physics session id s).2
  | handle {s entityId participantId} {body body' : RuntimeBody Handle}
      (hpresent : participantId ∈ s.participants)
      (hbody : s.bodiesById[entityId]? = some body) (hkind : body'.kind = body.kind)
      (hgrab : ∀ id ∈ body'.grabbedBy, id = participantId ∨ id ∈ body.grabbedBy) :
      Move physics session e s { s with bodiesById := s.bodiesById.insert entityId body' }
  | sit {s id propId} (hpresent : id ∈ s.participants) :
      Move physics session e s { s with seatedOn := s.seatedOn.insert id propId }
  | prepareExit {s id exit} (hpresent : id ∈ s.participants) :
      Move physics session e s { s with
        bodiesById := releaseGrabs id s.bodiesById
        seatedOn := s.seatedOn.erase id
        preparedExits := s.preparedExits.insert id exit }
  | spawn {s propId} {body : RuntimeBody Handle} (hnew : propId ∉ s.bodiesById)
      (hroom : s.bodiesById.size + 1 ≤ session.budget.dome.maxRigidBodies)
      (hguest : body.kind = .guestProp) (hgrab : body.grabbedBy = none) :
      Move physics session e s { s with bodiesById := s.bodiesById.insert propId body }
  | upsert {s signed prop} {body : RuntimeBody Handle}
      (hcall : e.op.call = .applySignedInput signed)
      (hkind : signed.input.input = .upsertPersistentProp prop) (hok : e.ret = .ok .done)
      (hpermitted : Permitted session e.before signed.input)
      (hparticipants : s.participants = e.before.participants)
      (hbodies : s.bodiesById = e.before.bodiesById)
      (hpersistent : body.kind = .persistentProp) (hgrab : body.grabbedBy = none) :
      Move physics session e s { s with
        bodiesById := (s.bodiesById.erase prop.propId).insert prop.propId body }
  | discard {s propId} {body : RuntimeBody Handle} (hbody : s.bodiesById[propId]? = some body)
      (hkind : body.kind ≠ .avatar) :
      Move physics session e s { s with bodiesById := s.bodiesById.erase propId }

/-- A sequence of moves of one event. -/
def Moves (physics : Physics World Handle) (session : DomeSession)
    (e : SessionEvent World Handle) :
    DomeSessionState World Handle → DomeSessionState World Handle → Prop :=
  Relation.ReflTransGen (Move physics session e)

variable {s t : DomeSessionState World Handle}

section

variable {e : SessionEvent World Handle}

theorem Move.moves (h : Move physics session e s t) :
  Moves physics session e s t
  := .single h

theorem Moves.trans {s' : DomeSessionState World Handle} (h : Moves physics session e s s')
    (h' : Moves physics session e s' t) :
  Moves physics session e s t
  := Relation.ReflTransGen.trans h h'

theorem moves_refl (s : DomeSessionState World Handle) :
  Moves physics session e s s
  := Relation.ReflTransGen.refl

theorem moves_settle (h : Settled s t) :
  Moves physics session e s t
  := (Move.settle h).moves

/-- What every move of an event keeps, the event keeps. -/
theorem Moves.invariant {P : DomeSessionState World Handle → Prop}
    (h : Moves physics session e s t) (hs : P s)
    (hmove : ∀ s t, P s → Move physics session e s t → P t) :
  P t
  := by
  induction h with
  | refl => apply hs
  | tail _ hm ih => apply hmove _ _ ih hm

/-! ### Inputs -/

section

variable {signed : SignedDomeSessionInput}

/-- The state in which an input is applied. -/
def charged (e : SessionEvent World Handle) (playerBudgets : BTreeMap String PlayerBudgetState) :
    DomeSessionState World Handle :=
  { e.before with inputs := e.before.inputs.prune e.op.nowMillis, playerBudgets }

theorem moves_charged (playerBudgets : BTreeMap String PlayerBudgetState) :
  Moves physics session e e.before (charged e playerBudgets)
  := by
  apply Moves.trans Move.prune.moves
  apply moves_settle
  exact ⟨rfl, rfl, rfl, rfl, fun _ h => h, rfl, rfl, rfl, rfl⟩

/-- The state after the signer has been seen, if the signer participates. -/
def seen (e : SessionEvent World Handle) (id : String) (s : DomeSessionState World Handle) :
    DomeSessionState World Handle :=
  { s with
    participantLastSeenAt :=
      if id ∈ s.participants then s.participantLastSeenAt.insert id e.op.nowMillis
      else s.participantLastSeenAt }

theorem moves_seen (id : String) (s : DomeSessionState World Handle) :
  Moves physics session e s (seen e id s)
  := by
  by_cases hpresent : id ∈ s.participants
  · simp only [seen, if_pos hpresent]
    apply (Move.touch hpresent).moves
  · simp only [seen, if_neg hpresent]
    apply moves_refl

/-- An input makes the moves of its kind. -/
theorem moves_of_applied {playerBudgets : BTreeMap String PlayerBudgetState}
    (hcall : e.op.call = .applySignedInput signed) (hok : e.ret = .ok .done)
    (hpermitted : Permitted session e.before signed.input)
    (hparticipants : e.after.participants = t.participants)
    (hbodies : e.after.bodiesById = t.bodiesById)
    (h : Applied physics session signed.input (charged e playerBudgets) t) :
  Moves physics session e (charged e playerBudgets) (seen e signed.input.participantPubkey t)
  := by
  -- A participant who joins has been seen; in the other cases the signer is seen at the end.
  suffices hmoves : Moves physics session e (charged e playerBudgets) t ∨
      Moves physics session e (charged e playerBudgets)
        (seen e signed.input.participantPubkey t) by
    rcases hmoves with hmoves | hmoves
    · apply hmoves.trans (moves_seen _ _)
    · apply hmoves
  cases h with
  | @join collider world bodiesById _ _ hkind hhoused =>
    right
    have hpresent : signed.input.participantPubkey ∈ e.after.participants := by
      rw [hparticipants]
      simp
    let s' : DomeSessionState World Handle := { charged e playerBudgets with
      bodiesById
      participants := (charged e playerBudgets).participants.insert signed.input.participantPubkey
      participantLastSeenAt := (charged e playerBudgets).participantLastSeenAt.insert
        signed.input.participantPubkey e.op.nowMillis }
    apply Moves.trans (Move.enter (s := charged e playerBudgets) (t := s')
      (Admits.join hcall hkind hpermitted) hpresent rfl rfl hbodies.symm
      ⟨_, _, _, hhoused, rfl⟩).moves
    apply moves_settle
    exact ⟨rfl, rfl, rfl, rfl, fun _ h => h, rfl, rfl, by simp [seen, s'], rfl⟩
  | leave hkind =>
    left
    have hdeparts : Departs e signed.input.participantPubkey := by
      refine ⟨?_, .inr (.inl ⟨signed, hcall, hok, hkind, rfl⟩)⟩
      obtain ⟨world, hevict⟩ := evictParticipant_eq physics session
        signed.input.participantPubkey (charged e playerBudgets)
      rw [hparticipants, hevict]
      simp
    apply (Move.leave hdeparts (Retires.input hcall hok hkind)).moves
  | idle =>
    left
    apply moves_refl
  | handle hpresent hbody hkind hgrab =>
    left
    apply Moves.trans (Move.handle hpresent hbody hkind hgrab).moves
    apply moves_settle
    exact ⟨rfl, rfl, rfl, rfl, fun _ h => h, rfl, rfl, rfl, rfl⟩
  | sit hpresent =>
    left
    apply (Move.sit hpresent).moves
  | prepareExit hpresent =>
    left
    apply (Move.prepareExit hpresent).moves
  | abortExit =>
    left
    apply Move.moves
    apply Move.withdraw (fun _ _ h => h) (fun _ _ h => h) _ (fun _ _ => .inl) (fun _ _ => .inl)
    intro id hid
    apply (Std.ExtTreeMap.mem_erase.mp hid).2
  | spawn hkind hnew hguest hgrab =>
    left
    have hroom : e.before.bodiesById.size + 1 ≤ session.budget.dome.maxRigidBodies := by
      simpa only [Permitted, hkind] using hpermitted
    apply Moves.trans (Move.spawn hnew hroom hguest hgrab).moves
    apply moves_settle
    exact ⟨rfl, rfl, rfl, rfl, fun _ h => h, rfl, rfl, rfl, rfl⟩
  | upsert hkind howner hpersistent hgrab =>
    left
    apply Moves.trans (Move.upsert (s := charged e playerBudgets) hcall hkind hok hpermitted
      rfl rfl hpersistent hgrab).moves
    apply moves_settle
    exact ⟨rfl, rfl, rfl, rfl, fun _ h => h, rfl, rfl, rfl, rfl⟩
  | delete howner hbody hkind =>
    left
    have hnotAvatar := hkind.trans_ne (by decide : DomePhysicsBodyKind.persistentProp ≠ .avatar)
    apply Moves.trans (Move.discard hbody hnotAvatar).moves
    apply moves_settle
    exact ⟨rfl, rfl, rfl, rfl, fun _ h => h, rfl, rfl, rfl, rfl⟩

/-- An input leaves the ledger to the record, unless it takes the signer out. -/
theorem Applied.inputs {input : DomeSessionInput} (h : Applied physics session input s t) :
  (t.inputs = s.inputs ∧ (input.participantPubkey ∈ s.participants →
      input.participantPubkey ∈ t.participants ∨
      input.participantPubkey = session.lease.ownerPubkey)) ∨
    t.inputs = s.inputs.retire input.participantPubkey session.participantLimit
  := by
  cases h with
  | join hkind hhoused =>
    left
    exact ⟨rfl, fun _ => .inl (by simp)⟩
  | leave hkind =>
    obtain ⟨world, hevict⟩ := evictParticipant_eq physics session input.participantPubkey s
    rw [hevict]
    by_cases hretire : input.participantPubkey ∈ s.participants ∧
        input.participantPubkey ≠ session.lease.ownerPubkey
    · right
      simp only [if_pos hretire]
    · left
      simp only [if_neg hretire, true_and]
      intro hpresent
      right
      by_contra howner
      apply hretire ⟨hpresent, howner⟩
  | _ =>
    left
    exact ⟨rfl, .inl⟩

/-- The input is newer than the mark of its signer when it is recorded. -/
theorem Applied.newer {input : DomeSessionInput} (h : Applied physics session input s t)
    (hnewer : (s.inputs.mark input.participantPubkey).elim 0 InputMark.sequence
      < input.sequence) :
  ∀ mark ∈ t.inputs.mark input.participantPubkey, mark.sequence < input.sequence
  := by
  intro mark hmark
  obtain ⟨hinputs, -⟩ | hinputs := h.inputs <;> rw [hinputs] at hmark
  · rw [hmark] at hnewer
    apply hnewer
  · rw [InputLedger.mark_retire_self hmark]
    cases hold : s.inputs.mark input.participantPubkey with
    | none | some old =>
      rw [hold] at hnewer
      apply hnewer

/-- A signed input that is accepted. -/
theorem moves_of_input (hcall : e.op.call = .applySignedInput signed) (hok : e.ret = .ok .done)
    (h : applySignedInputAt physics primitives session signed e.op.nowMillis e.before
      = (.ok (), e.after)) :
  Moves physics session e e.before e.after
  := by
  obtain ⟨-, hcheck, hpermitted, playerBudgets, s', -, happlied, world, transitionEntries,
    playerBudgets', hentries, -, -, hafter⟩ := applySignedInputAt_eq_ok h
  have hnewer := happlied.newer (InputLedger.check_eq_ok.mp hcheck).2
  have hmoves := moves_of_applied hcall hok hpermitted (by rw [hafter]) (by rw [hafter]) happlied
  apply (moves_charged playerBudgets).trans
  apply hmoves.trans
  apply Moves.trans (Move.record (s := seen e signed.input.participantPubkey s') hcall hnewer
    (signed.input.participantPubkey ∈ s'.participants ||
      signed.input.participantPubkey = session.lease.ownerPubkey)).moves
  apply moves_settle
  rw [hafter]
  exact ⟨rfl, rfl, rfl, rfl, hentries, rfl, rfl, rfl, rfl⟩

/-- A signed input that is refused. -/
theorem moves_of_refused {error : SessionError}
    (h : applySignedInputAt physics primitives session signed e.op.nowMillis e.before
      = (.error error, e.after)) :
  Moves physics session e e.before e.after
  := by
  obtain ⟨inputs, playerBudgets, rejectionCounts, rejectedTotal, hinputs, -, hafter⟩ :=
    applySignedInputAt_eq_error h
  rw [hafter]
  rcases hinputs with rfl | rfl
  · apply moves_settle
    exact ⟨rfl, rfl, rfl, rfl, fun _ h => h, rfl, rfl, rfl, rfl⟩
  · apply Moves.trans Move.prune.moves
    apply moves_settle
    exact ⟨rfl, rfl, rfl, rfl, fun _ h => h, rfl, rfl, rfl, rfl⟩

end

/-! ### Transitions -/

section

variable {ticket : DomeTransitionAdmissionTicket}

theorem moves_expire (hcall : e.op.call.arrives) (s : DomeSessionState World Handle) :
  Moves physics session e s (expireTransitionReservations e.op.nowMillis s)
  := by
  apply Move.moves
  apply Move.withdraw _ (fun _ _ h => h) (fun _ h => h) _ (fun _ _ => .inl)
  · intro id ticket hticket
    apply (getElem?_of_filter hticket).1
  · intro id ticket hticket
    by_cases hlate : ticket.expiresAt ≤ e.op.nowMillis
    · exact .inr (.inl (.expire hcall hlate))
    · left
      apply getElem?_filter_of_pos hticket
      apply decide_eq_true (not_le.mp hlate)

theorem moves_of_prepare {request : DomeTransitionAdmissionRequest}
    {access : DomeTransitionAccessDecision}
    {result : Except SessionError DomeTransitionAdmissionTicket}
    (hcall : e.op.call = .prepareTransitionAdmission request access)
    (h : prepareTransitionAdmission session request access e.op.nowMillis e.before
      = (result, e.after)) :
  Moves physics session e e.before e.after
  := by
  apply (moves_expire (by rw [hcall]; rfl) e.before).trans
  cases result with
  | error error =>
    rw [prepareTransitionAdmission_eq_error h]
    apply moves_refl
  | ok ticket =>
    obtain ⟨-, ⟨-, -, hafter⟩ | ⟨hreservable, rfl, hafter⟩⟩ := prepareTransitionAdmission_eq_ok h
    · rw [hafter]
      apply moves_refl
    · rw [hafter]
      apply (Move.reserve hcall hreservable).moves

theorem moves_of_commit {position rotation : Vec3} {result : Except SessionError Unit}
    (hcall : e.op.call = .commitTransitionAdmission ticket position rotation)
    (hok : result = .ok () → e.ret = .ok .done)
    (h : commitTransitionAdmission physics session ticket position rotation e.op.nowMillis
      e.before = (result, e.after)) :
  Moves physics session e e.before e.after
  := by
  apply (moves_expire (by rw [hcall]; rfl) e.before).trans
  obtain ⟨hafter, -⟩ | ⟨hfresh, -, hreserved, hredeem⟩ := commitTransitionAdmission_eq h
  · rw [hafter]
    apply moves_refl
  cases result with
  | error error =>
    rcases redeemTransition_eq_error hredeem with hafter | hentered
    · rw [hafter]
      apply moves_refl
    · have hpresent : ticket.request.participantPubkey ∈ e.after.participants := by
        obtain ⟨world, bodiesById, high, -, hafter⟩ := hentered
        rw [hafter]
        simp
      apply (Move.enter (s := expireTransitionReservations e.op.nowMillis e.before)
        (.commit hcall) hpresent rfl rfl rfl hentered).moves
  | ok _ =>
    obtain ⟨s', hentered, world, transitionEntries, high, hentries, hafter⟩ :=
      redeemTransition_eq_ok hredeem
    have hredeems : Redeems e ticket := ⟨⟨position, rotation, hcall⟩, hok rfl, hfresh⟩
    have htables : s'.transitionReservations[ticket.request.transitionId]? = some ticket ∧
        s'.committedTransitions[ticket.request.transitionId]? = none := by
      obtain ⟨world, bodiesById, high, -, hs'⟩ := hentered
      rw [hs']
      exact ⟨hreserved, hfresh⟩
    have hpresent : ticket.request.participantPubkey ∈ s'.participants := by
      obtain ⟨world, bodiesById, high, -, hs'⟩ := hentered
      rw [hs']
      simp
    have hpresent' : ticket.request.participantPubkey ∈ e.after.participants := by
      rw [hafter]
      apply hpresent
    have hbodies : s'.bodiesById = e.after.bodiesById := by
      rw [hafter]
      rfl
    apply Moves.trans (Move.enter (s := expireTransitionReservations e.op.nowMillis e.before)
      (.commit hcall) hpresent' rfl rfl hbodies hentered).moves
    apply Moves.trans (Move.redeem hpresent hredeems htables.1 htables.2).moves
    apply moves_settle
    rw [hafter]
    exact ⟨rfl, rfl, rfl, rfl, hentries, rfl, rfl, rfl, rfl⟩

theorem moves_of_abort {transitionId : String} {participantPubkey : Pubkey}
    {result : Except SessionError Unit}
    (hcall : e.op.call = .abortTransitionAdmission transitionId participantPubkey)
    (hok : result = .ok () → e.ret = .ok .done)
    (h : abortTransitionAdmission transitionId participantPubkey e.op.nowMillis e.before
      = (result, e.after)) :
  Moves physics session e e.before e.after
  := by
  apply (moves_expire (by rw [hcall]; rfl) e.before).trans
  obtain ⟨hafter, -⟩ | ⟨rfl, hopen, hafter⟩ := abortTransitionAdmission_eq h <;> rw [hafter]
  · apply moves_refl
  · apply Move.moves
    apply Move.withdraw _ (fun _ _ h => h) (fun _ h => h) _ (fun _ _ => .inl)
    · intro id ticket hticket
      apply getElem?_of_erase hticket
    · intro id ticket hticket
      by_cases hid : transitionId = id
      · subst hid
        exact .inr (.inl (.abort hcall (hok rfl) hopen))
      · left
        apply (getElem?_erase_of_ne hid).trans hticket

theorem moves_revoke {participantPubkey : Pubkey} {connectionId : Option String}
    (hcall : e.op.call = .revokeTransitionAccess participantPubkey connectionId)
    (s : DomeSessionState World Handle) :
  Moves physics session e s (revokeTransitionAccess participantPubkey connectionId s).2
  := by
  apply Move.moves
  -- A ticket that is not kept is one of those that the call revokes.
  have hkeep : ∀ (tickets : BTreeMap String DomeTransitionAdmissionTicket) (id : String)
      (ticket : DomeTransitionAdmissionTicket), tickets[id]? = some ticket →
      (tickets.filter fun _ ticket => decide (ticket.request.participantPubkey ≠
        participantPubkey ∧ ∀ id ∈ connectionId, ticket.request.connectionId ≠ id))[id]? =
          some ticket ∨ Revokes e ticket := by
    intro tickets id ticket hticket
    by_cases hrevoked : ticket.request.participantPubkey ≠ participantPubkey ∧
        ∀ id ∈ connectionId, ticket.request.connectionId ≠ id
    · left
      apply getElem?_filter_of_pos hticket
      apply decide_eq_true hrevoked
    · right
      refine ⟨participantPubkey, connectionId, hcall, ?_⟩
      by_contra hneither
      push Not at hneither
      apply hrevoked ⟨hneither.1, ?_⟩
      rintro id hid rfl
      apply hneither.2 hid
  apply Move.withdraw
  · intro id ticket hticket
    apply (getElem?_of_filter hticket).1
  · intro id ticket hticket
    apply (getElem?_of_filter hticket).1
  · intro id hid
    apply (Std.ExtTreeMap.mem_erase.mp hid).2
  · intro id ticket hticket
    rcases hkeep _ id ticket hticket with hkept | hrevoked
    · exact .inl hkept
    · exact .inr (.inr (.inl hrevoked))
  · intro id ticket hticket
    apply hkeep _ id ticket hticket

theorem moves_drain {connectionId : String} (hcall : e.op.call = .drainConnection connectionId)
    (s : DomeSessionState World Handle) :
  Moves physics session e s (drainConnection connectionId s).2
  := by
  apply Move.moves
  apply Move.withdraw _ (fun _ _ h => h) _ _ (fun _ _ => .inl)
  · intro id ticket hticket
    apply (getElem?_of_filter hticket).1
  · intro id hid
    apply ((mem_foldl_erase _ _ _).mp hid).1
  · intro id ticket hticket
    by_cases hdrained : ticket.request.connectionId = connectionId
    · subst hdrained
      exact .inr (.inr (.inr hcall))
    · left
      apply getElem?_filter_of_pos hticket
      apply decide_eq_true hdrained

end

/-! ### Time -/

theorem moves_removeBodies (ids : List String) (s : DomeSessionState World Handle)
    (hkind : ∀ id ∈ ids, ∀ body : RuntimeBody Handle,
      s.bodiesById[id]? = some body → body.kind ≠ .avatar) :
  Moves physics session e s (ids.foldl (fun state id => removeBody physics id state) s)
  := by
  induction ids generalizing s with
  | nil => apply moves_refl
  | cons id ids ih =>
    obtain ⟨world, hremove⟩ := removeBody_eq physics id s
    rw [foldl_cons, hremove]
    refine Moves.trans ?_ (ih _ ?_)
    · cases hbody : s.bodiesById[id]? with
      | none =>
        rw [erase_of_getElem?_eq_none hbody]
        apply moves_settle
        exact ⟨rfl, rfl, rfl, rfl, fun _ h => h, rfl, rfl, rfl, rfl⟩
      | some body =>
        apply Moves.trans (Move.discard hbody (hkind id mem_cons_self body hbody)).moves
        apply moves_settle
        exact ⟨rfl, rfl, rfl, rfl, fun _ h => h, rfl, rfl, rfl, rfl⟩
    · intro id' hid' body hbody
      apply hkind id' (mem_cons_of_mem id hid')
      apply getElem?_of_erase hbody

/-- Removing bodies changes nothing else. -/
theorem removeBodies_eq (physics : Physics World Handle) (ids : List String)
    (s : DomeSessionState World Handle) :
  ∃ world bodiesById, ids.foldl (fun state id => removeBody physics id state) s =
    { s with world, bodiesById }
  := by
  induction ids generalizing s with
  | nil => exact ⟨_, _, rfl⟩
  | cons id ids ih =>
    obtain ⟨world, hremove⟩ := removeBody_eq physics id s
    rw [foldl_cons, hremove]
    apply ih

/-- The simulation moves bodies and ends entries. -/
theorem simulate_eq (physics : Physics World Handle) (steps : ℕ)
    (s : DomeSessionState World Handle) :
  ∃ world transitionEntries, (simulateStep physics)^[steps] s =
      { s with world, transitionEntries } ∧
    ∀ id ∈ transitionEntries, id ∈ s.transitionEntries
  := by
  induction steps generalizing s with
  | zero => exact ⟨_, _, rfl, fun _ h => h⟩
  | succ steps ih =>
    obtain ⟨world, entries, hclamp, hentries⟩ := clampBodiesToDome_eq physics
      { s with world := physics.step s.world }
    obtain ⟨world', entries', hrest, hentries'⟩ := ih (simulateStep physics s)
    rw [Function.iterate_succ_apply, hrest, simulateStep, hclamp]
    refine ⟨_, _, rfl, fun id hid => hentries id ?_⟩
    have hmem := hentries' id hid
    rw [simulateStep, hclamp] at hmem
    apply hmem

theorem moves_simulate (steps : ℕ) (s : DomeSessionState World Handle) :
  Moves physics session e s ((simulateStep physics)^[steps] s)
  := by
  obtain ⟨world, transitionEntries, hsimulate, hentries⟩ := simulate_eq physics steps s
  apply moves_settle
  rw [hsimulate]
  exact ⟨rfl, rfl, rfl, rfl, hentries, rfl, rfl, rfl, rfl⟩

/-- The participants of a list leave one after the other. -/
theorem moves_evictAll (ids : List String) (s : DomeSessionState World Handle)
    (hdeparts : ∀ id ∈ ids, Departs e id)
    (hretires : ∀ earlier id later, ids = earlier ++ id :: later →
      id ∈ (evictAll physics session earlier s).participants →
      id ≠ session.lease.ownerPubkey →
      Retires physics session e (evictAll physics session earlier s).inputs id) :
  Moves physics session e s (evictAll physics session ids s)
  := by
  induction ids generalizing s with
  | nil => apply moves_refl
  | cons id ids ih =>
    refine Moves.trans (Move.leave (hdeparts id mem_cons_self) ?_).moves (ih _ ?_ ?_)
    · apply hretires [] id ids rfl
    · intro id' hid'
      apply hdeparts id' (mem_cons_of_mem id hid')
    · intro earlier id' later hids
      apply hretires (id :: earlier) id' later
      rw [hids]
      rfl

theorem participants_evictAll (ids : List String) (s : DomeSessionState World Handle) :
  (evictAll physics session ids s).participants
    = ids.foldl (fun participants id => participants.erase id) s.participants
  := by
  induction ids generalizing s with
  | nil => rfl
  | cons id ids ih =>
    obtain ⟨world, hevict⟩ := evictParticipant_eq physics session id s
    rw [evictAll, foldl_cons, foldl_cons]
    rw [← evictAll, ih, hevict]

theorem mem_of_mem_staleParticipants {nowMillis : ℤ} {id : String}
    (hid : id ∈ staleParticipants nowMillis s) :
  id ∈ s.participantLastSeenAt
  := by
  obtain ⟨⟨id', seenAt⟩, hrow, rfl⟩ := mem_map.mp hid
  apply mem_iff_exists.mpr
  exact ⟨seenAt, mem_toList.mp (mem_filter.mp hrow).1⟩

theorem moves_of_advance {result : Except SessionError Unit} (hcall : e.op.call = .advanceTo)
    (hok : result = .ok () → e.ret = .ok .done)
    (h : advanceTo physics session e.op.nowMillis e.before = (result, e.after)) :
  Moves physics session e e.before e.after
  := by
  obtain ⟨-, hafter⟩ | ⟨rfl, steps, hafter⟩ := advanceTo_eq h
  · rw [hafter]
    apply moves_refl
  · have hguests : Moves physics session e e.before
        (expireGuestProps physics e.op.nowMillis e.before) := by
      apply moves_removeBodies
      intro id hid body hbody
      rw [kind_of_mem_expiredGuestProps hid hbody]
      decide
    have hstale : Moves physics session e (expireGuestProps physics e.op.nowMillis e.before)
        (expireStaleParticipants physics session e.op.nowMillis
          (expireGuestProps physics e.op.nowMillis e.before)) := by
      apply moves_evictAll
      · intro id hid
        refine ⟨?_, .inr (.inr ⟨hcall, ?_⟩)⟩
        · obtain ⟨world, transitionEntries, hsimulate, -⟩ := simulate_eq physics steps
            (expireStaleParticipants physics session e.op.nowMillis
              (expireGuestProps physics e.op.nowMillis e.before))
          rw [hafter, hsimulate]
          simp only [expireStaleParticipants, participants_evictAll, BTreeSet.mem_foldl_erase,
            not_and, not_not]
          intro _
          apply hid
        · have hseen := mem_of_mem_staleParticipants hid
          obtain ⟨_, _, hremove⟩ := removeBodies_eq physics
            (expiredGuestProps e.op.nowMillis e.before) e.before
          rw [expireGuestProps, hremove] at hseen
          apply hseen
      · intro earlier id later hids hpresent hguest
        apply Retires.stale hcall (hok rfl) hids rfl hpresent hguest
    apply hguests.trans
    apply hstale.trans
    apply (moves_simulate steps _).trans
    rw [hafter]
    apply moves_settle
    exact ⟨rfl, rfl, rfl, rfl, fun _ h => h, rfl, rfl, rfl, rfl⟩

end

/-- The outcome of a command whose result is wrapped. -/
theorem of_bind_pure {α : Type} {x : SessionCommand World Handle α} {reply : α → SessionReply}
    {result : SessionResult} (h : (x >>= fun a => pure (reply a)) s = (result, t)) :
  ∃ r, x s = (r, t) ∧ result = r.map reply
  := by
  cases result with
  | ok value =>
    obtain ⟨a, s', hx, h⟩ := Command.bind_eq_ok.mp h
    obtain ⟨rfl, rfl⟩ := Command.pure_eq_ok.mp h
    exact ⟨.ok a, hx, rfl⟩
  | error error =>
    rcases Command.bind_eq_error.mp h with h | ⟨a, s', -, h⟩
    · exact ⟨.error error, h, rfl⟩
    · exact absurd h Command.pure_eq_error

/-- Every call of a session is a sequence of moves. -/
theorem moves_of_step {timed : TimedCall} {result : SessionResult}
    (h : SessionStep physics primitives session s timed result t) :
  Moves physics session ⟨s, timed, result, t⟩ s t
  := by
  obtain ⟨nowMillis, call⟩ := timed
  have hperform : TimedCall.perform physics primitives session ⟨nowMillis, call⟩ s
    = (result, t) := h
  generalize he : (⟨s, ⟨nowMillis, call⟩, result, t⟩ : SessionEvent World Handle) = e
  obtain ⟨rfl, rfl, hop, rfl⟩ : s = e.before ∧ t = e.after ∧ e.op = ⟨nowMillis, call⟩ ∧
      result = e.ret := by
    rw [← he]
    exact ⟨rfl, rfl, rfl, rfl⟩
  obtain ⟨rfl, hcall⟩ : e.op.nowMillis = nowMillis ∧ e.op.call = call := by
    rw [hop]
    exact ⟨rfl, rfl⟩
  cases call with
  | applySignedInput signed =>
    obtain ⟨r, hinput, hreply⟩ := of_bind_pure hperform
    cases r with
    | error error => apply moves_of_refused hinput
    | ok _ => apply moves_of_input hcall hreply hinput
  | prepareTransitionAdmission request access =>
    obtain ⟨r, hprepare, -⟩ := of_bind_pure hperform
    apply moves_of_prepare hcall hprepare
  | commitTransitionAdmission ticket position rotation =>
    obtain ⟨r, hcommit, hreply⟩ := of_bind_pure hperform
    apply moves_of_commit hcall _ hcommit
    rintro rfl
    apply hreply
  | abortTransitionAdmission transitionId participantPubkey =>
    obtain ⟨r, habort, hreply⟩ := of_bind_pure hperform
    apply moves_of_abort hcall _ habort
    rintro rfl
    apply hreply
  | evictParticipant participantPubkey =>
    have hafter : (evictParticipant physics session participantPubkey e.before).2 = e.after :=
      congrArg Prod.snd hperform
    have hdeparts : Departs e participantPubkey := by
      refine ⟨?_, .inl hcall⟩
      obtain ⟨world, hevict⟩ := evictParticipant_eq physics session participantPubkey e.before
      rw [← hafter, hevict]
      simp
    rw [← hafter]
    apply (Move.leave hdeparts (Retires.evict hcall)).moves
  | revokeTransitionAccess participantPubkey connectionId =>
    have hafter : (revokeTransitionAccess participantPubkey connectionId e.before).2 = e.after :=
      congrArg Prod.snd hperform
    rw [← hafter]
    apply moves_revoke hcall
  | drainConnection connectionId =>
    have hafter : (drainConnection connectionId e.before).2 = e.after :=
      congrArg Prod.snd hperform
    rw [← hafter]
    apply moves_drain hcall
  | advanceTo =>
    obtain ⟨r, hadvance, hreply⟩ := of_bind_pure hperform
    apply moves_of_advance hcall _ hadvance
    rintro rfl
    apply hreply

end Kukuri
