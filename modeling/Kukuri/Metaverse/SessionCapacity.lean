import Kukuri.Core.HostingSafety
import Kukuri.Metaverse.SessionMoves

/-!
# Capacity of a session

A session has limits for its participants, its bodies and its persistent props. Joining,
spawning and preparing a transition are checked against them. Three changes are not: a commit
lets a participant in who may find no place any more, an avatar that is added for a commit or
for a participant who is present may find no room for its body, and a prop that replaces a body
of another kind is not counted as a new one. Runs in which these changes find room stay within
the limits.
-/

namespace Kukuri

open Result Command Std.ExtTreeMap BTreeMap

variable {World Handle : Type} {physics : Physics World Handle}
variable {primitives : SessionPrimitives} {session : DomeSession}
variable {s t : DomeSessionState World Handle} {e : SessionEvent World Handle}

/-- The session is within its limits. -/
structure Within (session : DomeSession) (s : DomeSessionState World Handle) : Prop where
  participants : s.participants.size ≤ session.participantLimit
  bodies : s.bodiesById.size ≤ session.budget.dome.maxRigidBodies
  props : persistentPropCount s.bodiesById ≤ session.budget.dome.maxPersistentProps

/-- The changes that are not checked find room. -/
structure Roomy (session : DomeSession) (e : SessionEvent World Handle) : Prop where
  /-- A commit that lets someone in finds a place. -/
  place : ∀ ticket position rotation,
    e.op.call = .commitTransitionAdmission ticket position rotation →
    ticket.request.participantPubkey ∈ e.after.participants →
    ticket.request.participantPubkey ∉ e.before.participants →
      e.before.participants.size < session.participantLimit
  /-- The avatar of a commit finds room for its body. -/
  arrival : ∀ ticket position rotation,
    e.op.call = .commitTransitionAdmission ticket position rotation →
    avatarId ticket.request.participantPubkey ∈ e.after.bodiesById →
    avatarId ticket.request.participantPubkey ∉ e.before.bodiesById →
      e.before.bodiesById.size < session.budget.dome.maxRigidBodies
  /-- So does the avatar of a participant who is present and joins again. -/
  rejoin : ∀ signed collider,
    e.op.call = .applySignedInput signed → signed.input.input = .join collider →
    signed.input.participantPubkey ∈ e.before.participants →
    avatarId signed.input.participantPubkey ∈ e.after.bodiesById →
    avatarId signed.input.participantPubkey ∉ e.before.bodiesById →
      e.before.bodiesById.size < session.budget.dome.maxRigidBodies
  /-- A prop that replaces a body of another kind is within the number of props. -/
  replacement : ∀ signed prop (body : RuntimeBody Handle),
    e.op.call = .applySignedInput signed → signed.input.input = .upsertPersistentProp prop →
    e.ret = .ok .done → e.before.bodiesById[prop.propId]? = some body →
    body.kind ≠ .persistentProp →
      persistentPropCount e.before.bodiesById < session.budget.dome.maxPersistentProps

/-! ### Counting props -/

section

variable {bodies : BTreeMap String (RuntimeBody Handle)} {id : String}
variable {body body' : RuntimeBody Handle}

theorem persistentPropCount_insert_of_ne (hnew : id ∉ bodies)
    (hkind : body.kind ≠ .persistentProp) :
  persistentPropCount (bodies.insert id body) = persistentPropCount bodies
  := by
  have hnone : bodies[id]? = none := getElem?_eq_none hnew
  simp [persistentPropCount, countOver_insert _ _ hnone, hkind]

theorem persistentPropCount_insert_le (bodies : BTreeMap String (RuntimeBody Handle)) (id : String)
    (body : RuntimeBody Handle) :
  persistentPropCount (bodies.insert id body) ≤ persistentPropCount bodies + 1
  := by
  cases hold : bodies[id]? with
  | none =>
    rw [persistentPropCount, countOver_insert _ _ hold, persistentPropCount]
    split <;> omega
  | some old =>
    have hreplace := countOver_replace
      (fun _ (body : RuntimeBody Handle) => decide (body.kind = .persistentProp)) body hold
    rw [persistentPropCount, persistentPropCount]
    split at hreplace <;> split at hreplace <;> omega

theorem persistentPropCount_replace (hbody : bodies[id]? = some body)
    (hkind : body'.kind = body.kind) :
  persistentPropCount (bodies.insert id body') = persistentPropCount bodies
  := by
  have hreplace := countOver_replace
    (fun _ (body : RuntimeBody Handle) => decide (body.kind = .persistentProp)) body' hbody
  rw [hkind] at hreplace
  rw [persistentPropCount, persistentPropCount]
  omega

theorem persistentPropCount_releaseGrabs (participantId : String)
    (bodies : BTreeMap String (RuntimeBody Handle)) :
  persistentPropCount (releaseGrabs participantId bodies) = persistentPropCount bodies
  := by
  apply countOver_map
  intro id body
  split <;> rfl

theorem persistentPropCount_erase_le (bodies : BTreeMap String (RuntimeBody Handle)) (id : String) :
  persistentPropCount (bodies.erase id) ≤ persistentPropCount bodies
  := countOver_erase_le _ _ _

theorem insert_erase (bodies : BTreeMap String (RuntimeBody Handle)) (id : String)
    (body : RuntimeBody Handle) :
  (bodies.erase id).insert id body = bodies.insert id body
  := by
  apply ext_getElem?
  intro id'
  grind

end

/-! ### Staying within the limits -/

/-- Participants who enter find a place, and their avatar finds room. -/
theorem Within.enter {id : String} (hroomy : Roomy session e) (hwithin : Within session s)
    (hadmits : Admits session e id) (hafter : id ∈ e.after.participants)
    (hparticipants : s.participants = e.before.participants)
    (hbodies : s.bodiesById = e.before.bodiesById)
    (hafterBodies : t.bodiesById = e.after.bodiesById)
    (hentered : Entered id e.op.nowMillis s t) :
  Within session t
  := by
  obtain ⟨world, bodiesById, high, hhoused, rfl⟩ := hentered
  have hplace : id ∉ s.participants → s.participants.size + 1 ≤ session.participantLimit := by
    intro habsent
    rw [hparticipants] at habsent ⊢
    cases hadmits with
    | @join signed collider hcall hkind hpermitted =>
      simp only [Permitted, hkind] at hpermitted
      apply (hpermitted habsent).1
    | @commit ticket position rotation hcall =>
      apply hroomy.place ticket position rotation hcall hafter habsent
  have hroom : avatarId id ∉ s.bodiesById → avatarId id ∈ bodiesById →
      s.bodiesById.size + 1 ≤ session.budget.dome.maxRigidBodies := by
    intro hnew hadded
    have hadded : avatarId id ∈ e.after.bodiesById := hafterBodies ▸ hadded
    rw [hbodies] at hnew ⊢
    cases hadmits with
    | @join signed collider hcall hkind hpermitted =>
      by_cases hpresent : signed.input.participantPubkey ∈ e.before.participants
      · apply hroomy.rejoin signed collider hcall hkind hpresent hadded hnew
      · simp only [Permitted, hkind] at hpermitted
        apply (hpermitted hpresent).2
    | @commit ticket position rotation hcall =>
      apply hroomy.arrival ticket position rotation hcall hadded hnew
  refine ⟨?_, ?_, ?_⟩
  · by_cases hpresent : id ∈ s.participants
    · have hsize : (s.participants.insert id).size = s.participants.size := by
        rw [Std.ExtTreeSet.size_insert, if_pos]
        apply hpresent
      apply hsize.trans_le hwithin.participants
    · apply Std.ExtTreeSet.size_insert_le.trans (hplace hpresent)
  · rcases hhoused with ⟨-, rfl⟩ | ⟨hnew, body, -, -, rfl⟩
    · apply hwithin.bodies
    · rw [size_insert_of_not_mem hnew]
      apply hroom hnew (by simp)
  · rcases hhoused with ⟨-, rfl⟩ | ⟨hnew, body, hkind, -, rfl⟩
    · apply hwithin.props
    · rw [persistentPropCount_insert_of_ne hnew (by rw [hkind]; decide)]
      apply hwithin.props

/-- Every move keeps a session within its limits. -/
theorem Within.move (hroomy : Roomy session e) (hwithin : Within session s)
    (h : Move physics session e s t) :
  Within session t
  := by
  cases h with
  | settle h =>
    rcases h with ⟨hparticipants, -, -, -, -, -, -, -, hbodies⟩
    exact ⟨hparticipants ▸ hwithin.participants, hbodies ▸ hwithin.bodies, hbodies ▸ hwithin.props⟩
  | enter hadmits hafter hparticipants hbodies hafterBodies hentered =>
    apply hwithin.enter hroomy hadmits hafter hparticipants hbodies hafterBodies hentered
  | @leave id hdeparts hretires =>
    obtain ⟨world, hevict⟩ := evictParticipant_eq physics session id s
    rw [hevict]
    refine ⟨Std.ExtTreeSet.size_erase_le.trans hwithin.participants, ?_, ?_⟩
    · simp only [releaseGrabs, size_map]
      apply size_erase_le.trans hwithin.bodies
    · simp only [persistentPropCount_releaseGrabs]
      apply (persistentPropCount_erase_le _ _).trans hwithin.props
  | handle hpresent hbody hkind hgrab =>
    refine ⟨hwithin.participants, ?_, ?_⟩
    · rw [size_insert_of_mem (mem_iff_exists.mpr ⟨_, hbody⟩)]
      apply hwithin.bodies
    · rw [persistentPropCount_replace hbody hkind]
      apply hwithin.props
  | prepareExit hpresent =>
    refine ⟨hwithin.participants, ?_, ?_⟩
    · simp only [releaseGrabs, size_map]
      apply hwithin.bodies
    · simp only [persistentPropCount_releaseGrabs]
      apply hwithin.props
  | spawn hnew hroom hguest hgrab =>
    refine ⟨hwithin.participants, ?_, ?_⟩
    · rw [size_insert_of_not_mem hnew]
      apply hroom
    · rw [persistentPropCount_insert_of_ne hnew (by rw [hguest]; decide)]
      apply hwithin.props
  | @upsert signed prop body hcall hkind hok hpermitted hparticipants hbodies hpersistent hgrab =>
    simp only [Permitted, hkind, ← hbodies] at hpermitted
    obtain ⟨hcount, hroom⟩ := hpermitted
    simp only [insert_erase]
    refine ⟨hwithin.participants, ?_, ?_⟩
    · by_cases hmem : prop.propId ∈ s.bodiesById
      · rw [size_insert_of_mem hmem]
        apply hwithin.bodies
      · rw [size_insert_of_not_mem hmem]
        apply hroom hmem
    · cases hold : s.bodiesById[prop.propId]? with
      | none =>
        have hmem : prop.propId ∉ s.bodiesById := by
          simpa using hold
        rw [if_neg hmem] at hcount
        apply (persistentPropCount_insert_le _ _ _).trans hcount
      | some old =>
        by_cases hsame : old.kind = .persistentProp
        · rw [persistentPropCount_replace hold (hpersistent.trans hsame.symm)]
          apply hwithin.props
        · rw [hbodies] at hold ⊢
          have hless := hroomy.replacement signed prop old hcall hkind hok hold hsame
          apply (persistentPropCount_insert_le _ _ _).trans hless
  | discard hbody hkind =>
    refine ⟨hwithin.participants, ?_, ?_⟩
    · apply size_erase_le.trans hwithin.bodies
    · apply (persistentPropCount_erase_le _ _).trans hwithin.props
  | _ => exact ⟨hwithin.participants, hwithin.bodies, hwithin.props⟩

theorem Started.within (h : Started physics session s) :
  Within session s
  where
  participants := by
    obtain ⟨startedAt, world, bodiesById, high, rfl⟩ := h.state
    simp [DomeSessionState.empty]
  bodies := h.bodies
  props := (countOver_le_size _ _).trans h.props

/-- A session stays within its limits in every run in which the changes that are not checked
find room. -/
theorem sessions_within_limits (physics : Physics World Handle) (primitives : SessionPrimitives)
    (lease : SignedDomeHostingLease) (hostPubkey : Pubkey) (manifest : DomeInstanceManifest)
    (preset : DomePresetManifest) (sessionId : String) (startedAt : ℤ)
    (budget : MetaverseResourceBudgetConfig) (session : DomeSession)
    (s₀ s : DomeSessionState World Handle) (h : List (SessionEvent World Handle))
    (hstart : startWithBudget physics primitives lease hostPubkey manifest preset sessionId
      startedAt budget = .ok (session, s₀))
    (htrace : Trace (SessionStep physics primitives session) s₀ h s)
    (hroomy : ∀ e ∈ h, Roomy session e) :
  s.participants.size ≤ session.participantLimit ∧
    s.bodiesById.size ≤ session.budget.dome.maxRigidBodies ∧
    persistentPropCount s.bodiesById ≤ session.budget.dome.maxPersistentProps
  := by
  have hwithin : Within session s := by
    apply htrace.invariant_of_forall hroomy (startWithBudget_eq_ok hstart).within
    intro s timed result s' hs hstep hroomy
    apply (moves_of_step hstep).invariant hs
    intro s t hs hmove
    apply hs.move hroomy hmove
  exact ⟨hwithin.participants, hwithin.bodies, hwithin.props⟩

/-! ### A session with two places -/

namespace Sample

/-- A world in which bodies stay where they are put: the next handle, and the collider and the
position of every body. -/
abbrev StillWorld := ℕ × List (ℕ × MetaverseCollider × Vec3)

/-- Put a body into the world. -/
def place (world : StillWorld) (collider : MetaverseCollider) (position : Vec3) :
    ℕ × StillWorld :=
  (world.1, world.1 + 1, (world.1, collider, position) :: world.2)

def still : Physics StillWorld ℕ where
  initial := (0, [])
  insertProp := fun world prop =>
    place world (prop.collider.getD (.capsule ⟨0, 0, 0⟩ 25 50)) prop.position
  insertAvatar := place
  remove := fun world handle => (world.1, world.2.filter fun body => body.1 ≠ handle)
  hasBody := fun world handle => world.2.any fun body => body.1 = handle
  setTransform := fun world handle position _ =>
    (world.1, world.2.map fun body =>
      if body.1 = handle then (handle, body.2.1, position) else body)
  applyImpulse := fun world _ _ => world
  colliderBounds := fun world handle =>
    (world.2.filter fun body => body.1 = handle).map fun body =>
      some (colliderBoundsCm body.2.1 body.2.2 0)
  inOpening := fun _ _ _ => false
  clamp := fun world _ _ => world
  step := fun world => world

def preset : DomePresetManifest where
  presetId := "lounge"
  ownerPubkey := "owner"
  revision := 2
  specId := "fixed_dome_v1"
  customization := .default
  assetRefs := []

/-- The input of a signer, which is the text of its envelope. -/
def signedInput (signer text : String) (sequence : ℕ) (sentAt : ℤ) (kind : DomeSessionInputKind) :
    SignedDomeSessionInput :=
  ⟨⟨text, "dome", 2, 1, "session", signer, sequence, sentAt, kind⟩,
    envelope signer inputKind text⟩

/-- Inputs are read back by the text that identifies them. -/
def readInputs (inputs : List SignedDomeSessionInput) : SessionPrimitives :=
  { Sample.primitives with
    decodeInput := fun text => (inputs.find? fun signed => signed.input.inputId = text).map
      SignedDomeSessionInput.input
    inputBytes := fun _ => 100 }

def request (participant transitionId : String) : DomeTransitionAdmissionRequest where
  transitionId
  connectionId := "bridge"
  topologyDigest := "digest"
  spatialContext := .topic "plaza"
  sourceInstanceId := "garden"
  sourceInstanceGeneration := 1
  targetInstanceId := "dome"
  targetInstanceGeneration := 2
  participantPubkey := participant
  direction := .north
  requestedAt := 5

/-- The session of the instance with places for the given number of participants. -/
def start (inputs : List SignedDomeSessionInput) (places : ℕ) :
    Except SessionError (DomeSession × DomeSessionState StillWorld ℕ) :=
  startWithBudget still (readInputs inputs) ⟨lease, envelope "owner" leaseKind "lease"⟩ "device"
    { manifest with maxPeers := some places } preset "session" 10 .default

def joinChie := signedInput "chie" "chie joins" 1 20 (.join none)
def joinDaiki := signedInput "daiki" "daiki joins" 1 20 (.join none)

/-- A participant joins an empty session. -/
theorem exists_joined :
  ∃ session s₀ s, start [joinChie] 2 = .ok (session, s₀) ∧ s₀.bodiesById.isEmpty ∧
    SessionStep still (readInputs [joinChie]) session s₀ ⟨20, .applySignedInput joinChie⟩
      (.ok .done) s ∧ "chie" ∈ s.participants
  := by
  have hrun : (start [joinChie] 2).map (fun started =>
      let outcome := TimedCall.perform still (readInputs [joinChie]) started.1
        ⟨20, .applySignedInput joinChie⟩ started.2
      (started.2.bodiesById.isEmpty, outcome.1, decide ("chie" ∈ outcome.2.participants))) =
        .ok (true, .ok .done, true) := by
    decide +kernel
  obtain ⟨⟨session, s₀⟩, hstart, hrun⟩ := Result.map_eq_ok.mp hrun
  obtain ⟨hempty, hrun⟩ := Prod.mk.inj hrun
  obtain ⟨hresult, hpresent⟩ := Prod.mk.inj hrun
  exact ⟨session, s₀, _, hstart, hempty, Prod.ext hresult rfl, of_decide_eq_true hpresent⟩

/-- Two participants reserve the two places, two others join, and one of the first arrives. -/
def overbooking (session : DomeSession) : List TimedCall :=
  [⟨20, .prepareTransitionAdmission (request "aoi" "one") .allowed⟩,
    ⟨20, .prepareTransitionAdmission (request "botan" "two") .allowed⟩,
    ⟨20, .applySignedInput joinChie⟩, ⟨20, .applySignedInput joinDaiki⟩,
    ⟨20, .commitTransitionAdmission (newTicket session (request "aoi" "one") 20) ⟨0, 0, 0⟩
      ⟨0, 0, 0⟩⟩]

end Sample

open Sample

/-- A participant joins an empty session, which stays within its limits. -/
theorem sessions_within_limits_join :
  ∃ session s₀ s, Sample.start [Sample.joinChie] 2 = .ok (session, s₀) ∧
    SessionStep Sample.still (Sample.readInputs [Sample.joinChie]) session s₀
      ⟨20, .applySignedInput Sample.joinChie⟩ (.ok .done) s ∧
    s.participants.size ≤ session.participantLimit ∧
    s.bodiesById.size ≤ session.budget.dome.maxRigidBodies ∧
    persistentPropCount s.bodiesById ≤ session.budget.dome.maxPersistentProps
  := by
  obtain ⟨session, s₀, s, hstart, -, hstep, -⟩ := exists_joined
  refine ⟨session, s₀, s, hstart, hstep, ?_⟩
  apply sessions_within_limits _ _ _ _ _ _ _ _ _ _ _ _ _ hstart (Trace.nil.snoc hstep)
  intro e he
  obtain rfl := List.mem_singleton.mp he
  obtain ⟨_, _, _, _, hs₀⟩ := (startWithBudget_eq_ok hstart).state
  have hempty : s₀.participants = ∅ := by
    rw [hs₀]
    rfl
  refine ⟨?_, ?_, ?_, ?_⟩
  · intro ticket position rotation hcall
    cases hcall
  · intro ticket position rotation hcall
    cases hcall
  · intro signed collider hcall hkind hpresent
    simp [hempty] at hpresent
  · rintro signed prop body ⟨⟩ hkind
    cases hkind

/-- Three participants are in a session with two places. -/
theorem exists_overbooked_session :
  ∃ session s₀ h s, Sample.start [Sample.joinChie, Sample.joinDaiki] 2 = .ok (session, s₀) ∧
    Trace (SessionStep Sample.still (Sample.readInputs [Sample.joinChie, Sample.joinDaiki])
      session) s₀ h s ∧
    session.participantLimit = 2 ∧ s.participants.size = 3
  := by
  have hrun : (start [joinChie, joinDaiki] 2).map (fun started =>
      (started.1.participantLimit, (runCalls still
        (readInputs [joinChie, joinDaiki]) started.1 started.2
        (overbooking started.1)).participants.size)) = .ok (2, 3) := by
    decide +kernel
  obtain ⟨⟨session, s₀⟩, hstart, hrun⟩ := Result.map_eq_ok.mp hrun
  obtain ⟨hlimit, hsize⟩ := Prod.mk.inj hrun
  exact ⟨session, s₀, _, _, hstart, trace_runEvents _ _ _ _ (overbooking session),
    hlimit, hsize⟩

end Kukuri
