import Kukuri.Metaverse.SessionCalls

/-!
# What the functions of a session do

One lemma for each function: what it has checked when it succeeds and what it has changed.
`applySignedInputAt_eq_ok` and `applySignedInputAt_eq_error` put those of the inputs together.
-/

namespace Kukuri

open Result Command BTreeMap

variable {World Handle : Type} {physics : Physics World Handle}
variable {primitives : SessionPrimitives} {session : DomeSession}
variable {s t : DomeSessionState World Handle} {u : Unit}
variable {participantId transitionId : String} {nowMillis : ℤ} {input : DomeSessionInput}
variable {prop : MetaversePersistentProp} {kind : DomePhysicsBodyKind} {expiresAt : Option ℤ}
variable {createdBy : Option String} {collider : Option MetaverseCollider} {error : SessionError}
variable {result : Except SessionError Unit} {participantPubkey : Pubkey}

/-! ### Checks -/

section

variable {condition : Prop} [Decidable condition] {message : String}

theorem refuseIf_eq_ok :
  refuseIf condition message s = (.ok u, t) ↔ ¬ condition ∧ s = t
  := by
  simp [refuseIf, lift_eq_ok, orFail_eq_ok, bailIf_eq_ok]

theorem refuseIf_bind_eq_ok {β : Type} {f : Unit → SessionCommand World Handle β} {b : β} :
  (refuseIf condition message >>= f) s = (.ok b, t) ↔ ¬ condition ∧ f () s = (.ok b, t)
  := by
  simp only [refuseIf, lift_bind_eq_ok, orFail_eq_ok, bailIf_eq_ok]
  constructor
  · rintro ⟨_, h⟩
    exact h
  · exact fun h => ⟨(), h⟩

theorem refuseIf_bind_cases {β : Type} {f : Unit → SessionCommand World Handle β}
    {outcome : Except SessionError β}
    (h : (refuseIf condition message >>= f) s = (outcome, t)) :
  (¬ condition ∧ f () s = (outcome, t)) ∨ (∃ e, outcome = .error e) ∧ t = s
  := by
  obtain ⟨_, hok, h⟩ | h := lift_bind_cases h
  · exact .inl ⟨bailIf_eq_ok.mp (orFail_eq_ok.mp hok), h⟩
  · exact .inr h

theorem along_refuseIf {R : DomeSessionState World Handle → DomeSessionState World Handle → Prop}
    [Std.Refl R] :
  Along R (refuseIf condition message)
  := along_lift _

end

theorem checkBodyCapacity_eq_ok {added : ℕ} :
  checkBodyCapacity session s added = .ok u ↔
    s.bodiesById.size + added ≤ session.budget.dome.maxRigidBodies ∧
    s.bodiesById.size + added ≤ session.budget.dome.maxColliders ∧
    s.bodiesById.size + added ≤ session.budget.host.maxSimulatedRigidBodies
  := by
  simp [checkBodyCapacity, Result.bind_eq_ok, checkLimit_eq_ok]

theorem requireParticipant_bind_eq_ok {β : Type} {f : Unit → SessionCommand World Handle β}
    {b : β} :
  (requireParticipant participantId >>= f) s = (.ok b, t) ↔
    participantId ∈ s.participants ∧ f () s = (.ok b, t)
  := by
  simp only [requireParticipant, Command.bind_eq_ok, get_eq_ok, refuseIf_eq_ok]
  grind

theorem requireParticipant_eq_ok :
  requireParticipant participantId s = (.ok u, t) ↔ participantId ∈ s.participants ∧ s = t
  := by
  simp only [requireParticipant, get_bind, refuseIf_eq_ok, not_not]

theorem along_requireParticipant :
  Along Eq (requireParticipant participantId : SessionCommand World Handle Unit)
  := along_get.bind fun _ => along_refuseIf

/-! ### Budgets -/

/-- Nothing but the windows of the players has changed. -/
def Charged (s t : DomeSessionState World Handle) : Prop :=
  ∃ playerBudgets, t = { s with playerBudgets }

instance : Std.Refl (@Charged World Handle) :=
  ⟨fun s => ⟨s.playerBudgets, rfl⟩⟩

instance : IsTrans (DomeSessionState World Handle) Charged where
  trans := by
    rintro s _ _ ⟨_, rfl⟩ ⟨budgets, rfl⟩
    exact ⟨budgets, rfl⟩

/-- Nothing but the windows of one player has changed. -/
def Charges (participantId : String) (s t : DomeSessionState World Handle) : Prop :=
  Charged s t ∧ ∀ id, id ≠ participantId → t.playerBudgets[id]? = s.playerBudgets[id]?

instance (participantId : String) : Std.Refl (@Charges World Handle participantId) :=
  ⟨fun s => ⟨Std.Refl.refl s, fun _ _ => rfl⟩⟩

instance (participantId : String) :
    IsTrans (DomeSessionState World Handle) (Charges participantId) where
  trans := by
    rintro s t u ⟨hcharged, hothers⟩ ⟨hcharged', hothers'⟩
    exact ⟨IsTrans.trans _ _ _ hcharged hcharged',
      fun id hid => (hothers' id hid).trans (hothers id hid)⟩

theorem along_charge {window : PlayerWindow} {durationMillis : ℤ} {amount limit : ℕ}
    {resource : MetaverseBudgetResource} :
  Along (Charges participantId) (charge participantId window nowMillis durationMillis amount limit
    resource : SessionCommand World Handle Unit)
  := by
  refine along_get.bind fun state => ?_
  refine Along.bind (along_modify fun s => ⟨⟨_, rfl⟩, fun id hid => ?_⟩) fun _ => ?_
  · apply getElem?_insert_of_ne (Ne.symm hid)
  · exact Along.ite (along_pure ()) (along_lift _)

theorem along_preflightKind {kind : DomeSessionInputKind} :
  Along (Charges participantId) (preflightKind session participantId nowMillis kind :
    SessionCommand World Handle Unit)
  := by
  cases kind with
  | join collider =>
    refine along_get.bind fun state => ?_
    refine Along.ite ?_ (along_pure ())
    refine (along_lift _).bind fun _ => ?_
    apply along_lift
  | spawnGuestProp prop expiresAt =>
    refine along_charge.bind fun _ => ?_
    refine along_get.bind fun state => ?_
    iterate 3
      refine (along_lift _).bind fun _ => ?_
    apply along_lift
  | upsertPersistentProp prop =>
    refine (along_lift _).bind fun _ => ?_
    refine along_get.bind fun state => ?_
    refine (along_lift _).bind fun _ => ?_
    exact Along.ite (along_pure ()) (along_lift _)
  | grab propId | sit propId => apply along_charge
  | throw propId impulse | push propId impulse =>
    refine along_charge.bind fun _ => ?_
    apply along_lift
  | _ => apply along_pure

theorem along_preflightInput :
  Along (Charges input.participantPubkey) (preflightInput primitives session input nowMillis :
    SessionCommand World Handle Unit)
  := by
  refine along_charge.bind fun _ => ?_
  refine along_get.bind fun state => ?_
  refine along_refuseIf.bind fun _ => ?_
  apply along_preflightKind

/-- What the checks of an input have found when it passes them. -/
def Permitted (session : DomeSession) (s : DomeSessionState World Handle)
    (input : DomeSessionInput) : Prop :=
  match input.input with
  | .join _ =>
    input.participantPubkey ∉ s.participants →
      s.participants.size + 1 ≤ session.participantLimit ∧
      s.bodiesById.size + 1 ≤ session.budget.dome.maxRigidBodies
  | .spawnGuestProp _ _ => s.bodiesById.size + 1 ≤ session.budget.dome.maxRigidBodies
  | .upsertPersistentProp prop =>
    (persistentPropCount s.bodiesById + if prop.propId ∈ s.bodiesById then 0 else 1)
      ≤ session.budget.dome.maxPersistentProps ∧
    (prop.propId ∉ s.bodiesById →
      s.bodiesById.size + 1 ≤ session.budget.dome.maxRigidBodies)
  | _ => True

theorem permitted_of_preflightKind
    (h : preflightKind session input.participantPubkey nowMillis input.input s = (.ok u, t)) :
  Permitted session s input
  := by
  unfold Permitted
  cases hkind : input.input with
  | join collider =>
    rw [hkind, preflightKind, get_bind] at h
    intro hp
    rw [if_pos hp, lift_bind_eq_ok] at h
    obtain ⟨_, hlimit, h⟩ := h
    obtain ⟨hcapacity, -⟩ := lift_eq_ok.mp h
    exact ⟨checkLimit_eq_ok.mp hlimit, (checkBodyCapacity_eq_ok.mp hcapacity).1⟩
  | spawnGuestProp prop expiresAt =>
    rw [hkind] at h
    obtain ⟨_, s', hcharge, h⟩ := Command.bind_eq_ok.mp h
    obtain ⟨⟨budgets, rfl⟩, -⟩ := along_charge.of_eq hcharge
    rw [get_bind, lift_bind_eq_ok] at h
    obtain ⟨_, -, h⟩ := h
    obtain ⟨_, -, h⟩ := lift_bind_eq_ok.mp h
    obtain ⟨_, -, h⟩ := lift_bind_eq_ok.mp h
    apply (checkBodyCapacity_eq_ok.mp (lift_eq_ok.mp h).1).1
  | upsertPersistentProp prop =>
    rw [hkind] at h
    obtain ⟨_, -, h⟩ := lift_bind_eq_ok.mp h
    rw [get_bind, lift_bind_eq_ok] at h
    obtain ⟨_, hlimit, h⟩ := h
    have hlimit := checkLimit_eq_ok.mp hlimit
    simp only [decide_eq_true_eq] at h hlimit
    refine ⟨hlimit, fun hmem => ?_⟩
    rw [if_neg hmem] at h
    apply (checkBodyCapacity_eq_ok.mp (lift_eq_ok.mp h).1).1
  | _ => trivial

/-- The checks take something from the windows of the player and leave the rest. -/
theorem preflightInput_eq_ok
    (h : preflightInput primitives session input nowMillis s = (.ok u, t)) :
  Charges input.participantPubkey s t ∧ Permitted session s input
  := by
  refine ⟨along_preflightInput.of_eq h, ?_⟩
  obtain ⟨_, s', hcharge, h⟩ := Command.bind_eq_ok.mp h
  obtain ⟨⟨budgets, rfl⟩, -⟩ := along_charge.of_eq hcharge
  rw [get_bind, refuseIf_bind_eq_ok] at h
  apply permitted_of_preflightKind h.2

/-! ### Bodies -/

/-- The avatar of the participant is present, or has been added. -/
def Housed (participantId : String) (bodies bodies' : BTreeMap String (RuntimeBody Handle)) :
    Prop :=
  (avatarId participantId ∈ bodies ∧ bodies' = bodies) ∨
    avatarId participantId ∉ bodies ∧ ∃ body : RuntimeBody Handle,
      body.kind = .avatar ∧ body.grabbedBy = none ∧
      bodies' = bodies.insert (avatarId participantId) body

theorem ensureAvatar_eq_ok
    (h : ensureAvatar physics session participantId collider s = (.ok u, t)) :
  ∃ world bodiesById rigidBodyHighWater,
    t = { s with world, bodiesById, rigidBodyHighWater } ∧
    Housed participantId s.bodiesById bodiesById
  := by
  simp only [ensureAvatar, get_bind] at h
  split at h
  case isTrue hmem =>
    obtain ⟨-, rfl⟩ := Command.pure_eq_ok.mp h
    exact ⟨_, _, _, rfl, .inl ⟨hmem, rfl⟩⟩
  case isFalse hmem =>
    obtain ⟨fallback, -, h⟩ := lift_bind_eq_ok.mp h
    obtain ⟨spawn, -, h⟩ := lift_bind_eq_ok.mp h
    obtain rfl := modify_eq_ok.mp h
    exact ⟨_, _, _, rfl, .inr ⟨hmem, _, rfl, rfl, rfl⟩⟩

theorem atomic_ensureAvatar :
  Atomic (ensureAvatar physics session participantId collider)
  := by
  refine along_get.before fun state => ?_
  split
  · apply (along_pure ()).atomic
  · refine (along_lift _).before fun fallback => ?_
    refine (along_lift _).before fun spawn => ?_
    apply atomic_modify

theorem insertProp_eq_ok (h : insertProp physics prop kind expiresAt createdBy s = (.ok u, t)) :
  prop.propId ∉ s.bodiesById ∧ ∃ world rigidBodyHighWater, ∃ body : RuntimeBody Handle,
    body.kind = kind ∧ body.grabbedBy = none ∧
    t = { s with
      world, rigidBodyHighWater, bodiesById := s.bodiesById.insert prop.propId body }
  := by
  simp only [insertProp, get_bind, refuseIf_bind_eq_ok, modify_eq_ok] at h
  obtain ⟨hmem, rfl⟩ := h
  exact ⟨hmem, _, _, _, rfl, rfl, rfl⟩

theorem insertProp_eq_error
    (h : insertProp physics prop kind expiresAt createdBy s = (.error error, t)) :
  prop.propId ∈ s.bodiesById ∧ t = s
  := by
  rw [insertProp, get_bind] at h
  rcases Command.bind_eq_error.mp h with h | ⟨_, s', -, h⟩
  · refine ⟨?_, Eq.symm (along_refuseIf.of_eq h)⟩
    by_contra hmem
    rw [refuseIf_eq_ok (u := ()) |>.mpr ⟨hmem, rfl⟩] at h
    cases h
  · cases h

theorem atomic_insertProp :
  Atomic (insertProp physics prop kind expiresAt createdBy)
  := fun _ _ _ h => (insertProp_eq_error h).2

theorem removeBody_eq (physics : Physics World Handle) (entityId : String)
    (s : DomeSessionState World Handle) :
  ∃ world, removeBody physics entityId s =
    { s with world, bodiesById := s.bodiesById.erase entityId }
  := by
  unfold removeBody
  split
  case h_1 hnone =>
    use s.world
    rw [erase_of_getElem?_eq_none hnone]
  case h_2 body hbody => exact ⟨_, rfl⟩

/-- Clamping moves bodies and ends entries. -/
theorem clampBodiesToDome_eq (physics : Physics World Handle) (s : DomeSessionState World Handle) :
  ∃ world transitionEntries,
    clampBodiesToDome physics s = { s with world, transitionEntries } ∧
    ∀ participantId ∈ transitionEntries, participantId ∈ s.transitionEntries
  := by
  refine ⟨_, _, rfl, ?_⟩
  intro participantId hmem
  apply ((mem_foldl_erase _ _ _).mp hmem).1

/-! ### Leaving -/

theorem evictParticipant_eq (physics : Physics World Handle) (session : DomeSession)
    (participantPubkey : Pubkey) (s : DomeSessionState World Handle) :
  ∃ world, (evictParticipant physics session participantPubkey s).2 =
    { s with
      world
      participants := s.participants.erase participantPubkey
      transitionReservations := s.transitionReservations.filter fun _ ticket =>
        ticket.request.participantPubkey ≠ participantPubkey
      committedTransitions := s.committedTransitions.filter fun _ ticket =>
        ticket.request.participantPubkey ≠ participantPubkey
      preparedExits := s.preparedExits.erase participantPubkey
      transitionEntries := s.transitionEntries.erase participantPubkey
      seatedOn := s.seatedOn.erase participantPubkey
      inputs :=
        if participantPubkey ∈ s.participants ∧ participantPubkey ≠ session.lease.ownerPubkey then
          s.inputs.retire participantPubkey session.participantLimit
        else s.inputs
      participantLastSeenAt := s.participantLastSeenAt.erase participantPubkey
      playerBudgets := s.playerBudgets.erase participantPubkey
      bodiesById :=
        releaseGrabs participantPubkey (s.bodiesById.erase (avatarId participantPubkey)) }
  := by
  choose world hworld using removeBody_eq physics (avatarId participantPubkey)
  simp only [evictParticipant, revokeTransitionAccess, hworld, Option.not_mem_none,
    decide_eq_true_eq, false_implies, implies_true, and_true]
  exact ⟨_, rfl⟩

/-! ### Inputs -/

/-- Inputs by which a participant leaves. -/
def leaves : DomeSessionInputKind → Bool
  | .leave | .completeTransition _ => true
  | _ => false

/-- What an input changes when it succeeds. -/
inductive Applied (physics : Physics World Handle) (session : DomeSession)
    (input : DomeSessionInput) (s : DomeSessionState World Handle) :
    DomeSessionState World Handle → Prop
  | join {collider world bodiesById rigidBodyHighWater participantHighWater}
      (hkind : input.input = .join collider)
      (hhoused : Housed input.participantPubkey s.bodiesById bodiesById) :
      Applied physics session input s { s with
        world, bodiesById, rigidBodyHighWater, participantHighWater
        participants := s.participants.insert input.participantPubkey }
  | leave (hkind : leaves input.input) :
      Applied physics session input s
        (evictParticipant physics session input.participantPubkey s).2
  /-- Nothing changes: the participant is alive, or the request was answered before. -/
  | idle : Applied physics session input s s
  /-- A body is moved, grabbed or let go. -/
  | handle {entityId world} {body body' : RuntimeBody Handle}
      (hpresent : input.participantPubkey ∈ s.participants)
      (hbody : s.bodiesById[entityId]? = some body) (hkind : body'.kind = body.kind)
      (hgrab : ∀ id ∈ body'.grabbedBy, id = input.participantPubkey ∨ id ∈ body.grabbedBy) :
      Applied physics session input s { s with
        world, bodiesById := s.bodiesById.insert entityId body' }
  | sit {propId} (hpresent : input.participantPubkey ∈ s.participants) :
      Applied physics session input s { s with
        seatedOn := s.seatedOn.insert input.participantPubkey propId }
  | prepareExit {exit} (hpresent : input.participantPubkey ∈ s.participants) :
      Applied physics session input s { s with
        bodiesById := releaseGrabs input.participantPubkey s.bodiesById
        seatedOn := s.seatedOn.erase input.participantPubkey
        preparedExits := s.preparedExits.insert input.participantPubkey exit }
  | abortExit :
      Applied physics session input s { s with
        preparedExits := s.preparedExits.erase input.participantPubkey }
  | spawn {prop expiresAt world rigidBodyHighWater} {body : RuntimeBody Handle}
      (hkind : input.input = .spawnGuestProp prop expiresAt)
      (hnew : prop.propId ∉ s.bodiesById) (hguest : body.kind = .guestProp)
      (hgrab : body.grabbedBy = none) :
      Applied physics session input s { s with
        world, rigidBodyHighWater, bodiesById := s.bodiesById.insert prop.propId body }
  | upsert {prop world rigidBodyHighWater} {body : RuntimeBody Handle}
      (hkind : input.input = .upsertPersistentProp prop)
      (howner : input.participantPubkey = session.lease.ownerPubkey)
      (hpersistent : body.kind = .persistentProp) (hgrab : body.grabbedBy = none) :
      Applied physics session input s { s with
        world, rigidBodyHighWater
        bodiesById := (s.bodiesById.erase prop.propId).insert prop.propId body }
  | delete {propId world} {body : RuntimeBody Handle}
      (howner : input.participantPubkey = session.lease.ownerPubkey)
      (hbody : s.bodiesById[propId]? = some body) (hkind : body.kind = .persistentProp) :
      Applied physics session input s { s with
        world, bodiesById := s.bodiesById.erase propId }

theorem prepareTransitionExit_eq_ok {direction : DomeDirection}
    (h : prepareTransitionExit participantId transitionId direction s = (.ok u, t)) :
  participantId ∈ s.participants ∧ (t = s ∨ t = { s with
    bodiesById := releaseGrabs participantId s.bodiesById
    seatedOn := s.seatedOn.erase participantId
    preparedExits := s.preparedExits.insert participantId ⟨transitionId, direction⟩ })
  := by
  obtain ⟨hpresent, h⟩ := requireParticipant_bind_eq_ok.mp h
  obtain ⟨-, h⟩ := refuseIf_bind_eq_ok.mp h
  rw [get_bind] at h
  refine ⟨hpresent, ?_⟩
  generalize s.preparedExits[participantId]? = current at h
  cases current with
  | some existing =>
    left
    apply (refuseIf_eq_ok.mp h).2.symm
  | none =>
    right
    apply (modify_eq_ok.mp h).symm

theorem abortTransitionExit_eq_ok
    (h : abortTransitionExit participantId transitionId s = (.ok u, t)) :
  t = s ∨ t = { s with preparedExits := s.preparedExits.erase participantId }
  := by
  rw [abortTransitionExit, get_bind] at h
  generalize s.preparedExits[participantId]? = current at h
  cases current with
  | some prepared =>
    right
    obtain ⟨-, h⟩ := refuseIf_bind_eq_ok.mp h
    apply (modify_eq_ok.mp h).symm
  | none =>
    left
    apply (Command.pure_eq_ok.mp h).2.symm

theorem completeTransitionExit_eq_ok
    (h : completeTransitionExit physics session participantPubkey transitionId s = (.ok u, t)) :
  t = s ∨ t = (evictParticipant physics session participantPubkey s).2
  := by
  rw [completeTransitionExit, get_bind] at h
  split at h
  · left
    apply (Command.pure_eq_ok.mp h).2.symm
  · right
    obtain ⟨prepared, -, h⟩ := lift_bind_eq_ok.mp h
    obtain ⟨-, h⟩ := refuseIf_bind_eq_ok.mp h
    apply (modify_eq_ok.mp h).symm

theorem applyImpulse_eq_ok {propId : String} {impulse : Vec3} {thrown : Bool}
    (h : applyImpulse physics participantId propId impulse thrown s = (.ok u, t)) :
  participantId ∈ s.participants ∧ ∃ body world, s.bodiesById[propId]? = some body ∧
    t = { s with
      world, bodiesById := s.bodiesById.insert propId { body with grabbedBy := none } }
  := by
  obtain ⟨hpresent, h⟩ := requireParticipant_bind_eq_ok.mp h
  obtain ⟨body, hbody, h⟩ := lift_bind_eq_ok.mp h
  obtain ⟨-, h⟩ := refuseIf_bind_eq_ok.mp h
  obtain ⟨-, h⟩ := refuseIf_bind_eq_ok.mp h
  exact ⟨hpresent, body, _, context_eq_ok.mp (orFail_eq_ok.mp hbody), (modify_eq_ok.mp h).symm⟩

/-- An input that succeeds does one of the changes of `Applied`. -/
theorem applyInput_eq_ok (h : applyInput physics session input s = (.ok u, t)) :
  Applied physics session input s t
  := by
  unfold applyInput at h
  cases hkind : input.input <;> simp only [hkind] at h
  case join collider =>
    obtain ⟨_, s', hensure, h⟩ := Command.bind_eq_ok.mp h
    obtain ⟨world, bodiesById, high, rfl, hhoused⟩ := ensureAvatar_eq_ok hensure
    obtain rfl := modify_eq_ok.mp h
    exact .join hkind hhoused
  case leave =>
    obtain rfl := modify_eq_ok.mp h
    apply Applied.leave
    rw [hkind]
    rfl
  case keepAlive =>
    obtain ⟨-, rfl⟩ := requireParticipant_eq_ok.mp h
    apply Applied.idle
  case move position rotation animation =>
    obtain ⟨hpresent, h⟩ := requireParticipant_bind_eq_ok.mp h
    obtain ⟨body, hbody, h⟩ := lift_bind_eq_ok.mp h
    obtain ⟨-, h⟩ := refuseIf_bind_eq_ok.mp h
    obtain rfl := modify_eq_ok.mp h
    exact .handle hpresent (context_eq_ok.mp (orFail_eq_ok.mp hbody)) rfl fun _ => .inr
  case grab propId =>
    obtain ⟨hpresent, h⟩ := requireParticipant_bind_eq_ok.mp h
    obtain ⟨body, hbody, h⟩ := lift_bind_eq_ok.mp h
    obtain rfl := modify_eq_ok.mp h
    refine .handle hpresent (context_eq_ok.mp (orFail_eq_ok.mp hbody)) rfl ?_
    intro id hid
    left
    apply (Option.some.inj hid).symm
  case throw propId impulse | push propId impulse =>
    obtain ⟨hpresent, body, world, hbody, rfl⟩ := applyImpulse_eq_ok h
    refine .handle hpresent hbody rfl ?_
    intro id hid
    cases hid
  case sit propId =>
    obtain ⟨hpresent, h⟩ := requireParticipant_bind_eq_ok.mp h
    obtain ⟨-, h⟩ := refuseIf_bind_eq_ok.mp h
    obtain rfl := modify_eq_ok.mp h
    apply Applied.sit hpresent
  case prepareTransition transitionId direction =>
    obtain ⟨hpresent, rfl | rfl⟩ := prepareTransitionExit_eq_ok h
    · apply Applied.idle
    · apply Applied.prepareExit hpresent
  case abortTransition transitionId =>
    obtain rfl | rfl := abortTransitionExit_eq_ok h
    · apply Applied.idle
    · apply Applied.abortExit
  case completeTransition transitionId =>
    obtain rfl | rfl := completeTransitionExit_eq_ok h
    · apply Applied.idle
    · apply Applied.leave
      rw [hkind]
      rfl
  case spawnGuestProp prop expiresAt =>
    obtain ⟨-, h⟩ := requireParticipant_bind_eq_ok.mp h
    obtain ⟨-, h⟩ := refuseIf_bind_eq_ok.mp h
    obtain ⟨hnew, world, high, body, hguest, hgrab, rfl⟩ := insertProp_eq_ok h
    exact .spawn hkind hnew hguest hgrab
  case upsertPersistentProp prop =>
    obtain ⟨howner, h⟩ := refuseIf_bind_eq_ok.mp h
    rw [modify_bind] at h
    obtain ⟨world, hremove⟩ := removeBody_eq physics prop.propId s
    rw [hremove] at h
    obtain ⟨-, world', high, body, hpersistent, hgrab, rfl⟩ := insertProp_eq_ok h
    exact .upsert hkind (not_not.mp howner) hpersistent hgrab
  case deletePersistentProp propId =>
    obtain ⟨howner, h⟩ := refuseIf_bind_eq_ok.mp h
    obtain ⟨hexists, h⟩ := refuseIf_bind_eq_ok.mp h
    obtain rfl := modify_eq_ok.mp h
    obtain ⟨world, hremove⟩ := removeBody_eq physics propId s
    rw [hremove]
    cases hbody : s.bodiesById[propId]? with
    | none => simp [hbody] at hexists
    | some body =>
      rw [hbody] at hexists
      exact .delete (not_not.mp howner) hbody (by simpa using hexists)

/-- The checks of an input come before its changes. -/
theorem atomic_applyInput :
  Atomic (applyInput physics session input)
  := by
  unfold applyInput
  cases input.input with
  | join collider => apply atomic_ensureAvatar.bind_modify
  | leave => apply atomic_modify
  | keepAlive => apply along_requireParticipant.atomic
  | move position rotation animation =>
    refine along_requireParticipant.before fun _ => ?_
    refine along_get.before fun state => ?_
    refine (along_lift _).before fun body => ?_
    refine along_refuseIf.before fun _ => ?_
    apply atomic_modify
  | grab propId =>
    refine along_requireParticipant.before fun _ => ?_
    refine along_get.before fun state => ?_
    refine (along_lift _).before fun body => ?_
    apply atomic_modify
  | throw propId impulse | push propId impulse =>
    refine along_requireParticipant.before fun _ => ?_
    refine along_get.before fun state => ?_
    refine (along_lift _).before fun body => ?_
    refine along_refuseIf.before fun _ => ?_
    refine along_refuseIf.before fun _ => ?_
    apply atomic_modify
  | sit propId =>
    refine along_requireParticipant.before fun _ => ?_
    refine along_get.before fun state => ?_
    refine along_refuseIf.before fun _ => ?_
    apply atomic_modify
  | prepareTransition transitionId direction =>
    refine along_requireParticipant.before fun _ => ?_
    refine along_refuseIf.before fun _ => ?_
    refine along_get.before fun state => ?_
    cases state.preparedExits[input.participantPubkey]? with
    | some existing => apply along_refuseIf.atomic
    | none => apply atomic_modify
  | abortTransition transitionId =>
    refine along_get.before fun state => ?_
    cases state.preparedExits[input.participantPubkey]? with
    | some prepared =>
      refine along_refuseIf.before fun _ => ?_
      apply atomic_modify
    | none => apply (along_pure ()).atomic
  | completeTransition transitionId =>
    refine along_get.before fun state => ?_
    split
    · apply (along_pure ()).atomic
    · refine (along_lift _).before fun prepared => ?_
      refine along_refuseIf.before fun _ => ?_
      apply atomic_modify
  | spawnGuestProp prop expiresAt =>
    refine along_requireParticipant.before fun _ => ?_
    refine along_get.before fun state => ?_
    refine along_refuseIf.before fun _ => ?_
    apply atomic_insertProp
  | upsertPersistentProp prop =>
    refine along_refuseIf.before fun _ => ?_
    intro s e t h
    -- The identifier is free once the body that had it is gone.
    obtain ⟨world, hremove⟩ := removeBody_eq physics prop.propId s
    rw [modify_bind, hremove] at h
    obtain ⟨hmem, -⟩ := insertProp_eq_error h
    simp at hmem
  | deletePersistentProp propId =>
    refine along_refuseIf.before fun _ => ?_
    refine along_get.before fun state => ?_
    refine along_refuseIf.before fun _ => ?_
    apply atomic_modify

theorem forgetStranger_eq (participantId : String) (s : DomeSessionState World Handle) :
  ∃ playerBudgets, forgetStranger participantId s = { s with playerBudgets } ∧
    (∀ id, id ≠ participantId → playerBudgets[id]? = s.playerBudgets[id]?) ∧
    (participantId ∉ s.participants → participantId ∉ playerBudgets)
  := by
  unfold forgetStranger
  split
  case isTrue hpresent => exact ⟨_, rfl, fun _ _ => rfl, absurd hpresent⟩
  case isFalse habsent =>
    refine ⟨_, rfl, fun id hid => getElem?_erase_of_ne (Ne.symm hid), fun _ => ?_⟩
    simp

theorem countRejection_eq (error : SessionError) (s : DomeSessionState World Handle) :
  ∃ rejectionCounts rejectedTotal,
    countRejection error s = { s with rejectionCounts, rejectedTotal }
  := by
  cases error with
  | failed failure => exact ⟨_, _, rfl⟩
  | rejected rejection => exact ⟨_, _, rfl⟩

section

variable {signed : SignedDomeSessionInput} {nowMillis : ℤ}

/-- A signed input is accepted when it is verified, newer than the last one and permitted. Then
it has its effect, and the ledger and the time at which the participant was seen are updated. -/
theorem applySignedInputAt_eq_ok
    (h : applySignedInputAt physics primitives session signed nowMillis s = (.ok u, t)) :
  verifySignedDomeSessionInput primitives signed session.lease session.sessionId = .ok () ∧
  (s.inputs.check signed.input nowMillis).1 = .ok () ∧ Permitted session s signed.input ∧
  ∃ playerBudgets s',
    (∀ id, id ≠ signed.input.participantPubkey → playerBudgets[id]? = s.playerBudgets[id]?) ∧
    Applied physics session signed.input
      { s with inputs := s.inputs.prune nowMillis, playerBudgets } s' ∧
    ∃ world transitionEntries playerBudgets',
      (∀ id ∈ transitionEntries, id ∈ s'.transitionEntries) ∧
      (∀ id, id ≠ signed.input.participantPubkey →
        playerBudgets'[id]? = s'.playerBudgets[id]?) ∧
      (signed.input.participantPubkey ∉ s'.participants →
        signed.input.participantPubkey ∉ playerBudgets') ∧
      t = { s' with
        world, transitionEntries
        playerBudgets := playerBudgets'
        inputs := s'.inputs.record signed.input
          (signed.input.participantPubkey ∈ s'.participants ||
            signed.input.participantPubkey = session.lease.ownerPubkey)
        participantLastSeenAt :=
          if signed.input.participantPubkey ∈ s'.participants then
            s'.participantLastSeenAt.insert signed.input.participantPubkey nowMillis
          else s'.participantLastSeenAt }
  := by
  obtain ⟨_, hverify, h⟩ := lift_bind_eq_ok.mp h
  obtain ⟨_, hcheck, h⟩ := lift_bind_eq_ok.mp h
  rw [attempt_bind, modify_bind] at h
  refine ⟨orFail_eq_ok.mp hverify, orFail_eq_ok.mp hcheck, ?_⟩
  generalize hattempt : (preflightInput primitives session signed.input nowMillis >>= fun _ =>
    applyInput physics session signed.input)
      { s with inputs := (s.inputs.check signed.input nowMillis).2 } = outcome at h
  obtain ⟨result, s'⟩ := outcome
  cases result with
  | error error => cases congrArg Prod.fst h
  | ok _ =>
    obtain ⟨_, s'', hpreflight, happly⟩ := Command.bind_eq_ok.mp hattempt
    obtain ⟨⟨⟨playerBudgets, rfl⟩, hothers⟩, hpermitted⟩ := preflightInput_eq_ok hpreflight
    refine ⟨hpermitted, playerBudgets, s', hothers, applyInput_eq_ok happly, ?_⟩
    obtain rfl : clampBodiesToDome physics (noteInput session signed.input nowMillis
        (forgetStranger signed.input.participantPubkey s')) = t := congrArg Prod.snd h
    obtain ⟨playerBudgets', hforget, hsame, hstranger⟩ :=
      forgetStranger_eq signed.input.participantPubkey s'
    obtain ⟨world, transitionEntries, hclamp, hentries⟩ := clampBodiesToDome_eq physics
      (noteInput session signed.input nowMillis
        (forgetStranger signed.input.participantPubkey s'))
    refine ⟨world, transitionEntries, playerBudgets', ?_, hsame, hstranger, ?_⟩
    · rw [hforget] at hentries
      apply hentries
    · rw [hclamp, hforget]
      simp [noteInput]

/-- A signed input that is refused leaves everything but the windows of the signer and counters,
and the marks that have expired. A signer who does not participate has no windows afterwards. -/
theorem applySignedInputAt_eq_error
    (h : applySignedInputAt physics primitives session signed nowMillis s = (.error error, t)) :
  ∃ inputs playerBudgets rejectionCounts rejectedTotal,
    (inputs = s.inputs ∨ inputs = s.inputs.prune nowMillis) ∧
    (∀ id, playerBudgets[id]? = s.playerBudgets[id]? ∨ id = signed.input.participantPubkey ∧
      (id ∈ s.participants ∨ id ∉ playerBudgets)) ∧
    t = { s with inputs, playerBudgets, rejectionCounts, rejectedTotal }
  := by
  rcases Command.bind_eq_error.mp h with h | ⟨_, s₁, hverify, h⟩
  · obtain ⟨-, rfl⟩ := lift_eq_error.mp h
    exact ⟨_, _, _, _, .inl rfl, fun _ => .inl rfl, rfl⟩
  obtain ⟨-, rfl⟩ := lift_eq_ok.mp hverify
  rw [get_bind, modify_bind] at h
  rcases Command.bind_eq_error.mp h with h | ⟨_, s₁, hcheck, h⟩
  · obtain ⟨-, rfl⟩ := lift_eq_error.mp h
    exact ⟨_, _, _, _, .inr rfl, fun _ => .inl rfl, rfl⟩
  obtain ⟨-, rfl⟩ := lift_eq_ok.mp hcheck
  rw [attempt_bind, modify_bind] at h
  generalize hattempt : (preflightInput primitives session signed.input nowMillis >>= fun _ =>
    applyInput physics session signed.input)
      { s with inputs := (s.inputs.check signed.input nowMillis).2 } = outcome at h
  obtain ⟨result, s'⟩ := outcome
  cases result with
  | ok _ => cases congrArg Prod.fst h
  | error error' =>
    obtain rfl : countRejection error' (forgetStranger signed.input.participantPubkey s') = t :=
      congrArg Prod.snd h
    obtain ⟨⟨playerBudgets, rfl⟩, hothers⟩ : Charges signed.input.participantPubkey
        { s with inputs := s.inputs.prune nowMillis } s' := by
      rcases Command.bind_eq_error.mp hattempt with hpreflight | ⟨_, s₂, hpreflight, happly⟩
      · apply along_preflightInput.of_eq hpreflight
      · obtain rfl := atomic_applyInput _ _ _ happly
        apply along_preflightInput.of_eq hpreflight
    obtain ⟨playerBudgets', hforget, hsame, hstranger⟩ := forgetStranger_eq
      signed.input.participantPubkey { s with inputs := s.inputs.prune nowMillis, playerBudgets }
    rw [hforget]
    obtain ⟨counts, total, hcount⟩ := countRejection_eq error'
      { s with inputs := s.inputs.prune nowMillis, playerBudgets := playerBudgets' }
    rw [hcount]
    refine ⟨_, _, _, _, .inr rfl, fun id => ?_, rfl⟩
    by_cases hid : id = signed.input.participantPubkey
    · subst hid
      exact .inr ⟨rfl, or_iff_not_imp_left.mpr hstranger⟩
    · exact .inl ((hsame id hid).trans (hothers id hid))

end

/-! ### Arriving -/

section

variable {request : DomeTransitionAdmissionRequest} {access : DomeTransitionAccessDecision}
variable {ticket : DomeTransitionAdmissionTicket} {position rotation : Vec3} {nowMillis : ℤ}

/-- What has been checked when a reservation is made. -/
structure Reservable (session : DomeSession) (s : DomeSessionState World Handle)
    (request : DomeTransitionAdmissionRequest) : Prop where
  unknown : knownTicket s request.transitionId = none
  single : ∀ (id : String) (ticket : DomeTransitionAdmissionTicket),
    s.transitionReservations[id]? = some ticket →
      ticket.request.participantPubkey ≠ request.participantPubkey
  slots : (s.participants.size + s.transitionReservations.size +
    if request.participantPubkey ∈ s.participants then 0 else 1) ≤ session.participantLimit
  bodies : request.participantPubkey ∉ s.participants →
    s.bodiesById.size + 1 ≤ session.budget.dome.maxRigidBodies

theorem reserveTransition_eq_ok (hunknown : knownTicket s request.transitionId = none)
    (h : reserveTransition session request nowMillis s = (.ok ticket, t)) :
  Reservable session s request ∧ ticket = newTicket session request nowMillis ∧
    t = { s with transitionReservations :=
      s.transitionReservations.insert request.transitionId ticket }
  := by
  obtain ⟨hsingle, h⟩ := refuseIf_bind_eq_ok.mp h
  obtain ⟨hslots, h⟩ := refuseIf_bind_eq_ok.mp h
  obtain ⟨_, hcapacity, h⟩ := lift_bind_eq_ok.mp h
  obtain ⟨rfl, rfl⟩ := Command.pure_eq_ok.mp h
  refine ⟨⟨hunknown, ?_, not_lt.mp hslots, ?_⟩, rfl, rfl⟩
  · intro id ticket hticket hsame
    apply hsingle
    rw [List.any_eq_true]
    exact ⟨(id, ticket), mem_toList.mpr hticket, decide_eq_true hsame⟩
  · intro habsent
    rw [if_neg habsent] at hcapacity
    apply (checkBodyCapacity_eq_ok.mp hcapacity).1

theorem atomic_reserveTransition :
  Atomic (reserveTransition session request nowMillis :
    SessionCommand World Handle DomeTransitionAdmissionTicket)
  := by
  refine along_get.before fun state => ?_
  refine along_refuseIf.before fun _ => ?_
  refine along_refuseIf.before fun _ => ?_
  refine (along_lift _).before fun _ => ?_
  intro s error t h
  cases h

/-- The request is for the instance of the session. -/
def Current (session : DomeSession) (request : DomeTransitionAdmissionRequest) : Prop :=
  request.validate = .ok () ∧ ¬ (request.spatialContext ≠ session.lease.spatialContext ∨
    request.targetInstanceId ≠ session.lease.instanceId ∨
    request.targetInstanceGeneration ≠ session.lease.instanceGeneration)

/-- A request is answered with the ticket that it has, or with a new reservation. -/
theorem prepareTransitionAdmission_eq_ok
    (h : prepareTransitionAdmission session request access nowMillis s = (.ok ticket, t)) :
  let s' := expireTransitionReservations nowMillis s
  Current session request ∧
    ((knownTicket s' request.transitionId = some ticket ∧ ticket.request = request ∧ t = s') ∨
      Reservable session s' request ∧ ticket = newTicket session request nowMillis ∧
        t = { s' with transitionReservations :=
          s'.transitionReservations.insert request.transitionId ticket })
  := by
  intro s'
  obtain ⟨_, hvalidate, h⟩ := lift_bind_eq_ok.mp h
  obtain ⟨_, -, h⟩ := lift_bind_eq_ok.mp h
  obtain ⟨hcurrent, h⟩ := refuseIf_bind_eq_ok.mp h
  rw [get_bind] at h
  refine ⟨⟨orFail_eq_ok.mp hvalidate, hcurrent⟩, ?_⟩
  cases hknown : knownTicket s' request.transitionId with
  | some known =>
    left
    simp only [s', hknown] at h
    obtain ⟨hrequest, h⟩ := refuseIf_bind_eq_ok.mp h
    obtain ⟨rfl, rfl⟩ := Command.pure_eq_ok.mp h
    exact ⟨rfl, not_not.mp hrequest, rfl⟩
  | none =>
    right
    simp only [s', hknown] at h
    apply reserveTransition_eq_ok hknown h

/-- A request that has a ticket is answered with it. -/
theorem prepareTransitionAdmission_of_known (hcurrent : Current session request)
    (hknown : knownTicket (expireTransitionReservations nowMillis s) request.transitionId
      = some ticket) (hrequest : ticket.request = request) :
  prepareTransitionAdmission session request .allowed nowMillis s
    = (.ok ticket, expireTransitionReservations nowMillis s)
  := by
  refine lift_bind_eq_ok.mpr ⟨(), orFail_eq_ok.mpr hcurrent.1, ?_⟩
  refine lift_bind_eq_ok.mpr ⟨(), orFail_eq_ok.mpr rfl, ?_⟩
  refine refuseIf_bind_eq_ok.mpr ⟨hcurrent.2, ?_⟩
  rw [get_bind]
  simp only [hknown]
  refine refuseIf_bind_eq_ok.mpr ⟨not_not.mpr hrequest, rfl⟩

theorem prepareTransitionAdmission_eq_error
    (h : prepareTransitionAdmission session request access nowMillis s = (.error error, t)) :
  t = expireTransitionReservations nowMillis s
  := by
  refine (along_lift _).before (fun _ => ?_) _ _ _ h
  refine (along_lift _).before fun _ => ?_
  refine along_refuseIf.before fun _ => ?_
  refine along_get.before fun state => ?_
  cases knownTicket state request.transitionId with
  | some known =>
    refine along_refuseIf.before fun _ => ?_
    apply (along_pure known).atomic
  | none => apply atomic_reserveTransition

/-- The participant has entered: it is present, seen now, and has an avatar. -/
def Entered (participantId : String) (nowMillis : ℤ) (s t : DomeSessionState World Handle) :
    Prop :=
  ∃ world bodiesById rigidBodyHighWater, Housed participantId s.bodiesById bodiesById ∧
    t = { s with
      world, bodiesById, rigidBodyHighWater
      participants := s.participants.insert participantId
      participantLastSeenAt := s.participantLastSeenAt.insert participantId nowMillis }

theorem setAvatarTransform_eq_ok
    (h : setAvatarTransform physics participantId position rotation s = (.ok u, t)) :
  ∃ world, t = { s with world }
  := by
  obtain ⟨body, -, h⟩ := lift_bind_eq_ok.mp h
  obtain ⟨-, h⟩ := refuseIf_bind_eq_ok.mp h
  obtain rfl := modify_eq_ok.mp h
  exact ⟨_, rfl⟩

theorem atomic_setAvatarTransform :
  Atomic (setAvatarTransform physics participantId position rotation)
  := by
  refine along_get.before fun state => ?_
  refine (along_lift _).before fun body => ?_
  refine along_refuseIf.before fun _ => ?_
  apply atomic_modify

/-- A redeemed ticket lets its participant in and is committed. -/
theorem redeemTransition_eq_ok
    (h : redeemTransition physics session ticket position rotation nowMillis s = (.ok u, t)) :
  ∃ s', Entered ticket.request.participantPubkey nowMillis s s' ∧
    ∃ world transitionEntries participantHighWater,
      (∀ id ∈ transitionEntries, id ∈ (redeem ticket s').transitionEntries) ∧
      t = { redeem ticket s' with world, transitionEntries, participantHighWater }
  := by
  obtain ⟨_, s', hensure, h⟩ := Command.bind_eq_ok.mp h
  obtain ⟨world, bodiesById, high, rfl, hhoused⟩ := ensureAvatar_eq_ok hensure
  rw [modify_bind] at h
  obtain ⟨_, s', htransform, h⟩ := Command.bind_eq_ok.mp h
  obtain ⟨world', hs'⟩ := setAvatarTransform_eq_ok htransform
  obtain rfl := modify_eq_ok.mp h
  obtain ⟨world, transitionEntries, hclamp, hentries⟩ := clampBodiesToDome_eq physics
    (redeem ticket s')
  rw [hclamp]
  exact ⟨s', ⟨world', bodiesById, high, hhoused, hs'⟩, world, transitionEntries, _, hentries, rfl⟩

/-- A commit fails before anything changes, or when the new avatar has no body to place. -/
theorem redeemTransition_eq_error
    (h : redeemTransition physics session ticket position rotation nowMillis s
      = (.error error, t)) :
  t = s ∨ Entered ticket.request.participantPubkey nowMillis s t
  := by
  rcases Command.bind_eq_error.mp h with h | ⟨_, s', hensure, h⟩
  · left
    apply atomic_ensureAvatar _ _ _ h
  right
  obtain ⟨world, bodiesById, high, rfl, hhoused⟩ := ensureAvatar_eq_ok hensure
  rw [modify_bind] at h
  rcases Command.bind_eq_error.mp h with h | ⟨_, s', -, h⟩
  · obtain rfl := atomic_setAvatarTransform _ _ _ h
    exact ⟨world, bodiesById, high, hhoused, rfl⟩
  · cases h

/-- A commit answers a ticket that was committed before, or redeems the reserved one. -/
theorem commitTransitionAdmission_eq
    (h : commitTransitionAdmission physics session ticket position rotation nowMillis s
      = (result, t)) :
  let s' := expireTransitionReservations nowMillis s
  (t = s' ∧ (result = .ok () →
      s.committedTransitions[ticket.request.transitionId]? = some ticket)) ∨
    (s.committedTransitions[ticket.request.transitionId]? = none ∧
      ticket.validateFor ticket.request session.lease.epoch session.sessionId nowMillis = .ok () ∧
      s'.transitionReservations[ticket.request.transitionId]? = some ticket ∧
      redeemTransition physics session ticket position rotation nowMillis s' = (result, t))
  := by
  intro s'
  rw [commitTransitionAdmission, modify_bind, get_bind] at h
  cases hcommitted : s.committedTransitions[ticket.request.transitionId]? with
  | some committed =>
    left
    have hcommitted' : (expireTransitionReservations nowMillis s).committedTransitions[
      ticket.request.transitionId]? = some committed := hcommitted
    simp only [hcommitted'] at h
    refine ⟨Eq.symm (along_refuseIf.of_eq h), ?_⟩
    rintro rfl
    obtain ⟨hsame, -⟩ := refuseIf_eq_ok.mp h
    rw [(not_not.mp hsame).1]
  | none =>
    have hcommitted' : (expireTransitionReservations nowMillis s).committedTransitions[
      ticket.request.transitionId]? = none := hcommitted
    simp only [hcommitted'] at h
    obtain ⟨_, hvalid, h⟩ | ⟨⟨e, rfl⟩, rfl⟩ := lift_bind_cases h
    · obtain ⟨hreserved, h⟩ | ⟨⟨e, rfl⟩, rfl⟩ := refuseIf_bind_cases h
      · right
        exact ⟨rfl, orFail_eq_ok.mp hvalid, not_not.mp hreserved, h⟩
      · left
        exact ⟨rfl, nofun⟩
    · left
      exact ⟨rfl, nofun⟩

/-- A commit that is repeated changes nothing but that reservations expire. -/
theorem commitTransitionAdmission_of_committed
    (hcommitted : s.committedTransitions[ticket.request.transitionId]? = some ticket)
    (hepoch : ticket.targetLeaseEpoch = session.lease.epoch)
    (hsession : ticket.targetSessionId = session.sessionId) :
  commitTransitionAdmission physics session ticket position rotation nowMillis s
    = (.ok (), expireTransitionReservations nowMillis s)
  := by
  rw [commitTransitionAdmission, modify_bind, get_bind]
  have hcommitted' : (expireTransitionReservations nowMillis s).committedTransitions[
    ticket.request.transitionId]? = some ticket := hcommitted
  simp only [hcommitted']
  apply refuseIf_eq_ok.mpr
  exact ⟨not_not.mpr ⟨trivial, hepoch, hsession⟩, rfl⟩

theorem abortTransitionAdmission_eq
    (h : abortTransitionAdmission transitionId participantPubkey nowMillis s = (result, t)) :
  let s' := expireTransitionReservations nowMillis s
  (t = s' ∧ (result = .ok () → transitionId ∈ s.committedTransitions)) ∨
    result = .ok () ∧ transitionId ∉ s.committedTransitions ∧ t = { s' with
      transitionReservations := s'.transitionReservations.erase transitionId }
  := by
  intro s'
  rw [abortTransitionAdmission, modify_bind, get_bind] at h
  split at h
  case isTrue hmem =>
    left
    cases h
    exact ⟨rfl, fun _ => hmem⟩
  case isFalse hmem =>
    obtain ⟨-, h⟩ | ⟨⟨e, rfl⟩, rfl⟩ := refuseIf_bind_cases h
    · right
      cases h
      exact ⟨rfl, hmem, rfl⟩
    · left
      exact ⟨rfl, nofun⟩

end

/-! ### Time -/

theorem kind_of_mem_expiredGuestProps {id : String} {body : RuntimeBody Handle}
    (hid : id ∈ expiredGuestProps nowMillis s) (hbody : s.bodiesById[id]? = some body) :
  body.kind = .guestProp
  := by
  simp only [expiredGuestProps, List.mem_map, List.mem_filter] at hid
  obtain ⟨⟨_, body'⟩, ⟨hrow, hkind⟩, rfl⟩ := hid
  obtain rfl : body' = body := by
    rw [mem_toList, hbody] at hrow
    apply (Option.some.inj hrow).symm
  simp only [decide_eq_true_eq] at hkind
  apply hkind.1

/-- The clock moves on unless it would move backwards. -/
theorem advanceTo_eq (h : advanceTo physics session nowMillis s = (result, t)) :
  ((∃ e, result = .error e) ∧ t = s) ∨ result = .ok () ∧ ∃ steps : ℕ, t =
    { (simulateStep physics)^[steps] (expireStaleParticipants physics session nowMillis
        (expireGuestProps physics nowMillis s)) with lastSimulatedAt := nowMillis }
  := by
  obtain ⟨-, h⟩ | ⟨⟨e, rfl⟩, rfl⟩ := refuseIf_bind_cases h
  · right
    cases h
    exact ⟨rfl, _, rfl⟩
  · left
    exact ⟨⟨e, rfl⟩, rfl⟩

/-! ### Starting -/

theorem insertProps_eq_ok {props : List MetaversePersistentProp}
    (h : insertProps physics props s = (.ok u, t)) :
  ∃ world bodiesById rigidBodyHighWater, t = { s with world, bodiesById, rigidBodyHighWater } ∧
    bodiesById.size = s.bodiesById.size + props.length ∧
    ∀ (id : String) (body : RuntimeBody Handle), bodiesById[id]? = some body →
      s.bodiesById[id]? = some body ∨ body.kind = .persistentProp ∧ body.grabbedBy = none
  := by
  induction props generalizing s with
  | nil =>
    obtain ⟨-, rfl⟩ := Command.pure_eq_ok.mp h
    exact ⟨_, _, _, rfl, rfl, fun _ _ h => .inl h⟩
  | cons prop props ih =>
    obtain ⟨_, s', hinsert, h⟩ := Command.bind_eq_ok.mp h
    obtain ⟨hnew, world, high, body, hkind, hgrab, rfl⟩ := insertProp_eq_ok hinsert
    obtain ⟨world', bodiesById, high', rfl, hsize, hbodies⟩ := ih h
    refine ⟨world', bodiesById, high', rfl, ?_, ?_⟩
    · rw [hsize, size_insert_of_not_mem hnew, List.length_cons]
      omega
    · intro id body' hbody'
      rcases hbodies id body' hbody' with hold | hnew'
      · rcases getElem?_of_insert hold with ⟨-, rfl⟩ | ⟨-, hold⟩
        · exact .inr ⟨hkind, hgrab⟩
        · exact .inl hold
      · exact .inr hnew'

/-- A session starts without participants, with the props of the layout and within its
limits. -/
structure Started (physics : Physics World Handle) (session : DomeSession)
    (s : DomeSessionState World Handle) : Prop where
  limit : 1 ≤ session.participantLimit
  state : ∃ startedAt world bodiesById rigidBodyHighWater,
    s = { DomeSessionState.empty physics startedAt with
      world, bodiesById, rigidBodyHighWater }
  bodies : s.bodiesById.size ≤ session.budget.dome.maxRigidBodies
  props : s.bodiesById.size ≤ session.budget.dome.maxPersistentProps
  kinds : ∀ (id : String) (body : RuntimeBody Handle), s.bodiesById[id]? = some body →
    body.kind = .persistentProp ∧ body.grabbedBy = none

theorem one_le_maxParticipants {budget : MetaverseResourceBudgetConfig}
    (h : budget.validate = .ok u) :
  1 ≤ budget.host.maxParticipants
  := by
  simp only [MetaverseResourceBudgetConfig.validate, Result.bind_eq_ok, bailIf_eq_ok] at h
  obtain ⟨_, hpositive, -⟩ := h
  by_contra hzero
  apply hpositive
  left
  have hzero : budget.host.maxParticipants = 0 := by omega
  simp [hzero]

theorem one_le_maxPeers {manifest : DomeInstanceManifest} {maxPeers : ℕ}
    (h : validateDomeInstanceManifest manifest = .ok u)
    (hpeers : manifest.maxPeers = some maxPeers) :
  1 ≤ maxPeers
  := by
  simp only [validateDomeInstanceManifest, Result.bind_eq_ok, bailIf_eq_ok] at h
  obtain ⟨_, -, _, -, _, -, _, hrange, -⟩ := h
  rw [hpeers] at hrange
  simp at hrange
  omega

theorem startWithBudget_eq_ok {lease : SignedDomeHostingLease} {hostPubkey : Pubkey}
    {manifest : DomeInstanceManifest} {preset : DomePresetManifest} {sessionId : String}
    {startedAt : ℤ} {budget : MetaverseResourceBudgetConfig}
    (h : startWithBudget physics primitives lease hostPubkey manifest preset sessionId startedAt
      budget = .ok (session, s)) :
  Started physics session s
  := by
  simp only [startWithBudget, Result.bind_eq_ok, orFail_eq_ok, checkLimit_eq_ok] at h
  obtain ⟨_, hbudget, _, hmanifest, _, -, _, -, _, hprops, _, -, _, hbodies, _, -, _, -, _, -,
    _, -, _, -, h⟩ := h
  have hlimit : 1 ≤ min (manifest.maxPeers.getD budget.host.maxParticipants)
      budget.host.maxParticipants := by
    have hhost := one_le_maxParticipants hbudget
    apply le_min _ hhost
    cases hpeers : manifest.maxPeers with
    | none => apply hhost
    | some maxPeers => apply one_le_maxPeers hmanifest hpeers
  generalize hinsert : insertProps physics preset.customization.persistentProps
    (DomeSessionState.empty physics startedAt) = outcome at h
  obtain ⟨_ | _, s'⟩ := outcome
  · cases h
  · obtain ⟨rfl, rfl⟩ := Prod.mk.inj (Result.pure_eq_ok.mp h)
    obtain ⟨world, bodiesById, high, rfl, hsize, hkinds⟩ := insertProps_eq_ok hinsert
    have hempty : (DomeSessionState.empty physics startedAt).bodiesById = ∅ := rfl
    rw [hempty, Std.ExtTreeMap.size_empty, Nat.zero_add] at hsize
    refine ⟨hlimit, ⟨startedAt, world, bodiesById, high, rfl⟩, hsize.trans_le hbodies,
      hsize.trans_le hprops, ?_⟩
    intro id body hbody
    rcases hkinds id body hbody with hold | hnew
    · rw [hempty] at hold
      simp at hold
    · apply hnew

end Kukuri
