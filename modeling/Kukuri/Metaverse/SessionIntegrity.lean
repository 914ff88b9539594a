import Kukuri.Metaverse.SessionCapacity

/-!
# Integrity of a session

The tables of a session refer to each other by the identifiers of participants and bodies.
`Referential` holds in every run. That every participant has an avatar (`Bodied`) needs more:
identifiers of props and of avatars share one name space, and a prop may take the identifier of
an avatar. It holds in the runs in which no prop does so.
-/

namespace Kukuri

open Result Command BTreeMap Std

variable {World Handle : Type} {physics : Physics World Handle}
variable {primitives : SessionPrimitives} {session : DomeSession}
variable {s t : DomeSessionState World Handle} {e : SessionEvent World Handle}

/-- Every participant has at most one ticket in the table. -/
def OneEach (tickets : BTreeMap String DomeTransitionAdmissionTicket) : Prop :=
  ∀ (id id' : String) (ticket ticket' : DomeTransitionAdmissionTicket),
    tickets[id]? = some ticket → tickets[id']? = some ticket' →
    ticket.request.participantPubkey = ticket'.request.participantPubkey → id = id'

/-- Bodies are held by participants, and avatars are theirs. -/
structure Owned (participants : BTreeSet String)
    (bodies : BTreeMap String (RuntimeBody Handle)) : Prop where
  grabs : ∀ (entityId : String) (body : RuntimeBody Handle),
    bodies[entityId]? = some body → ∀ id ∈ body.grabbedBy, id ∈ participants
  avatars : ∀ (entityId : String) (body : RuntimeBody Handle),
    bodies[entityId]? = some body → body.kind = .avatar →
      ∃ id ∈ participants, entityId = avatarId id

/-- What the tables say about participants is about those who are present. -/
structure Referential (s : DomeSessionState World Handle) : Prop where
  lastSeen : ∀ id, id ∈ s.participantLastSeenAt ↔ id ∈ s.participants
  exits : ∀ id ∈ s.preparedExits, id ∈ s.participants
  seats : ∀ id ∈ s.seatedOn, id ∈ s.participants
  entries : ∀ id ∈ s.transitionEntries, id ∈ s.participants
  reservations : OneEach s.transitionReservations
  committed : OneEach s.committedTransitions
  bodies : Owned s.participants s.bodiesById

/-- Every participant has an avatar. -/
def Bodied (s : DomeSessionState World Handle) : Prop :=
  ∀ id ∈ s.participants, ∃ body : RuntimeBody Handle,
    s.bodiesById[avatarId id]? = some body ∧ body.kind = .avatar

/-- No prop takes the identifier of an avatar. -/
structure Clear (e : SessionEvent World Handle) : Prop where
  /-- The owner does not replace the avatar of a participant by a prop. -/
  upsert : ∀ signed prop, e.op.call = .applySignedInput signed →
    signed.input.input = .upsertPersistentProp prop → e.ret = .ok .done →
    ∀ id ∈ e.before.participants, prop.propId ≠ avatarId id
  /-- Those who enter do not find a body with the identifier of their avatar. -/
  enter : ∀ id ∈ e.after.participants, id ∉ e.before.participants →
    avatarId id ∉ e.before.bodiesById

theorem avatarId_injective :
  Function.Injective avatarId
  := by
  intro id id' h
  apply String.append_right_inj _ |>.mp h

/-! ### Tables of tickets -/

theorem OneEach.of_subset {tickets tickets' : BTreeMap String DomeTransitionAdmissionTicket}
    (h : OneEach tickets)
    (hsubset : ∀ (id : String) (ticket : DomeTransitionAdmissionTicket),
      tickets'[id]? = some ticket → tickets[id]? = some ticket) :
  OneEach tickets'
  := by
  intro id id' ticket ticket' hticket hticket' hsame
  apply h id id' ticket ticket' (hsubset id ticket hticket) (hsubset id' ticket' hticket') hsame

/-- A ticket may be added for a participant who has none. -/
theorem OneEach.insert {tickets : BTreeMap String DomeTransitionAdmissionTicket}
    (h : OneEach tickets) {id : String} {ticket : DomeTransitionAdmissionTicket}
    (hnone : ∀ (id' : String) (ticket' : DomeTransitionAdmissionTicket),
      tickets[id']? = some ticket' →
        ticket'.request.participantPubkey ≠ ticket.request.participantPubkey) :
  OneEach (tickets.insert id ticket)
  := by
  intro id₁ id₂ ticket₁ ticket₂ h₁ h₂ hsame
  rcases getElem?_of_insert h₁ with ⟨rfl, rfl⟩ | ⟨-, h₁⟩
  · rcases getElem?_of_insert h₂ with ⟨rfl, -⟩ | ⟨-, h₂⟩
    · rfl
    · exact absurd hsame.symm (hnone id₂ ticket₂ h₂)
  · rcases getElem?_of_insert h₂ with ⟨rfl, rfl⟩ | ⟨-, h₂⟩
    · exact absurd hsame (hnone id₁ ticket₁ h₁)
    · apply h id₁ id₂ ticket₁ ticket₂ h₁ h₂ hsame

/-! ### Bodies -/

variable {body : RuntimeBody Handle}

/-- The rows of a table in which a participant has let go of what it held. -/
theorem getElem?_releaseGrabs {bodies : BTreeMap String (RuntimeBody Handle)}
    {participantId entityId : String}
    (h : (releaseGrabs participantId bodies)[entityId]? = some body) :
  ∃ body', bodies[entityId]? = some body' ∧ body.kind = body'.kind ∧
    ∀ id ∈ body.grabbedBy, id ∈ body'.grabbedBy ∧ id ≠ participantId
  := by
  rw [releaseGrabs, ExtTreeMap.getElem?_map, Option.map_eq_some_iff] at h
  obtain ⟨body', hbody', rfl⟩ := h
  refine ⟨body', hbody', ?_, ?_⟩
  · split <;> rfl
  · intro id hid
    split at hid
    · cases hid
    case isFalse hother =>
      refine ⟨hid, ?_⟩
      rintro rfl
      apply hother hid

theorem exists_releaseGrabs {bodies : BTreeMap String (RuntimeBody Handle)}
    {entityId : String} (participantId : String)
    (h : bodies[entityId]? = some body) :
  ∃ body', (releaseGrabs participantId bodies)[entityId]? = some body' ∧ body'.kind = body.kind
  := by
  rw [releaseGrabs, ExtTreeMap.getElem?_map, h, Option.map_some]
  refine ⟨_, rfl, ?_⟩
  split <;> rfl

namespace Owned

variable {participants : BTreeSet String} {bodies : BTreeMap String (RuntimeBody Handle)}

section

variable (h : Owned participants bodies)
include h

theorem mono {participants' : BTreeSet String} (hsubset : ∀ id ∈ participants, id ∈ participants') :
  Owned participants' bodies
  where
  grabs entityId body hbody id hid := hsubset id (h.grabs entityId body hbody id hid)
  avatars entityId body hbody hkind := by
    obtain ⟨id, hid, rfl⟩ := h.avatars entityId body hbody hkind
    exact ⟨id, hsubset id hid, rfl⟩

theorem insert {entityId : String}
    (hgrab : ∀ id ∈ body.grabbedBy, id ∈ participants)
    (havatar : body.kind = .avatar → ∃ id ∈ participants, entityId = avatarId id) :
  Owned participants (bodies.insert entityId body)
  := by
  constructor
  · intro entityId' body' hbody'
    rcases getElem?_of_insert hbody' with ⟨rfl, rfl⟩ | ⟨-, hbody'⟩
    · apply hgrab
    · apply h.grabs entityId' body' hbody'
  · intro entityId' body' hbody' hkind
    rcases getElem?_of_insert hbody' with ⟨rfl, rfl⟩ | ⟨-, hbody'⟩
    · apply havatar hkind
    · apply h.avatars entityId' body' hbody' hkind

theorem erase (entityId : String) :
  Owned participants (bodies.erase entityId)
  where
  grabs entityId' body' hbody' := h.grabs entityId' body' (getElem?_of_erase hbody')
  avatars entityId' body' hbody' := h.avatars entityId' body' (getElem?_of_erase hbody')

theorem release (participantId : String) :
  Owned participants (releaseGrabs participantId bodies)
  := by
  constructor
  · intro entityId body hbody id hid
    obtain ⟨body', hbody', -, hgrab⟩ := getElem?_releaseGrabs hbody
    apply h.grabs entityId body' hbody' id (hgrab id hid).1
  · intro entityId body hbody hkind
    obtain ⟨body', hbody', hsame, -⟩ := getElem?_releaseGrabs hbody
    apply h.avatars entityId body' hbody' (hsame ▸ hkind)

/-- A participant who leaves takes the avatar along and lets go of everything. -/
theorem leave (participantId : String) :
  Owned (participants.erase participantId)
    (releaseGrabs participantId (bodies.erase (avatarId participantId)))
  := by
  constructor
  · intro entityId body hbody id hid
    obtain ⟨body', hbody', -, hgrab⟩ := getElem?_releaseGrabs hbody
    obtain ⟨hgrabbed, hne⟩ := hgrab id hid
    have hid' := h.grabs entityId body' (getElem?_of_erase hbody') id hgrabbed
    simp [hid', Ne.symm hne]
  · intro entityId body hbody hkind
    obtain ⟨body', hbody', hsame, -⟩ := getElem?_releaseGrabs hbody
    obtain ⟨id, hid, rfl⟩ := h.avatars entityId body' (getElem?_of_erase hbody')
      (hsame ▸ hkind)
    refine ⟨id, ?_, rfl⟩
    have hne : participantId ≠ id := by
      rintro rfl
      simp at hbody'
    simp [hid, hne]

end

end Owned

/-! ### References -/

theorem Referential.enter {id : String} (hs : Referential s)
    (hentered : Entered id e.op.nowMillis s t) :
  Referential t
  := by
  obtain ⟨world, bodiesById, high, hhoused, rfl⟩ := hentered
  have hsubset : ∀ id' ∈ s.participants, id' ∈ s.participants.insert id := by
    intro id' hid'
    simp [hid']
  refine ⟨?_, ?_, ?_, ?_, hs.reservations, hs.committed, ?_⟩
  · intro id'
    simp [hs.lastSeen id']
  · intro id' hid'
    apply hsubset id' (hs.exits id' hid')
  · intro id' hid'
    apply hsubset id' (hs.seats id' hid')
  · intro id' hid'
    apply hsubset id' (hs.entries id' hid')
  · rcases hhoused with ⟨-, rfl⟩ | ⟨-, body, -, hgrab, rfl⟩
    · apply hs.bodies.mono hsubset
    · apply (hs.bodies.mono hsubset).insert
      · rw [hgrab]
        nofun
      · intro _
        exact ⟨id, by simp, rfl⟩

theorem Referential.leave (hs : Referential s) (id : String) :
  Referential (evictParticipant physics session id s).2
  := by
  obtain ⟨world, hevict⟩ := evictParticipant_eq physics session id s
  rw [hevict]
  refine ⟨?_, ?_, ?_, ?_, ?_, ?_, hs.bodies.leave id⟩
  · intro id'
    simp [hs.lastSeen id']
  · intro id' hid'
    simp only [ExtTreeMap.mem_erase, ExtTreeSet.mem_erase] at hid' ⊢
    exact ⟨hid'.1, hs.exits id' hid'.2⟩
  · intro id' hid'
    simp only [ExtTreeMap.mem_erase, ExtTreeSet.mem_erase] at hid' ⊢
    exact ⟨hid'.1, hs.seats id' hid'.2⟩
  · intro id' hid'
    simp only [ExtTreeMap.mem_erase, ExtTreeSet.mem_erase] at hid' ⊢
    exact ⟨hid'.1, hs.entries id' hid'.2⟩
  · apply hs.reservations.of_subset
    intro id' ticket hticket
    apply (getElem?_of_filter hticket).1
  · apply hs.committed.of_subset
    intro id' ticket hticket
    apply (getElem?_of_filter hticket).1

/-- Whatever is known of a key is known of a key that is inserted with it. -/
theorem forall_mem_insert {V : Type} {m : BTreeMap String V} {id : String} {value : V}
    {P : String → Prop} (hid : P id) (h : ∀ id' ∈ m, P id') :
  ∀ id' ∈ m.insert id value, P id'
  := by
  intro id' hid'
  rw [ExtTreeMap.mem_insert, LawfulEqCmp.compare_eq_iff_eq] at hid'
  rcases hid' with rfl | hid'
  · apply hid
  · apply h id' hid'

theorem forall_mem_erase {V : Type} {m : BTreeMap String V} {id : String} {P : String → Prop}
    (h : ∀ id' ∈ m, P id') :
  ∀ id' ∈ m.erase id, P id'
  := fun id' hid' => h id' (ExtTreeMap.mem_erase.mp hid').2

/-- Every move keeps the references. -/
theorem Referential.move (hs : Referential s) (h : Move physics session e s t) :
  Referential t
  := by
  cases h with
  | settle h =>
    rcases h with ⟨hparticipants, hreservations, hcommitted, hexits, hentries, hseats, -,
      hlastSeen, hbodies⟩
    refine ⟨?_, ?_, ?_, ?_, ?_, ?_, ?_⟩
    · rw [hlastSeen, hparticipants]
      apply hs.lastSeen
    · rw [hexits, hparticipants]
      apply hs.exits
    · rw [hseats, hparticipants]
      apply hs.seats
    · rw [hparticipants]
      intro id hid
      apply hs.entries id (hentries id hid)
    · rw [hreservations]
      apply hs.reservations
    · rw [hcommitted]
      apply hs.committed
    · rw [hparticipants, hbodies]
      apply hs.bodies
  | touch hpresent =>
    refine { hs with lastSeen := ?_ }
    intro id
    simp only [ExtTreeMap.mem_insert, LawfulEqCmp.compare_eq_iff_eq, hs.lastSeen id]
    grind
  | withdraw hreservations hcommitted hexits hreserved hremembered =>
    exact { hs with
      reservations := hs.reservations.of_subset hreservations
      committed := hs.committed.of_subset hcommitted
      exits := fun id hid => hs.exits id (hexits id hid) }
  | reserve hcall hreservable =>
    exact { hs with reservations := hs.reservations.insert hreservable.single }
  | enter hadmits hafter hparticipants hbodies hafterBodies hentered =>
    apply hs.enter hentered
  | @redeem ticket hpresent hredeems hreserved hfresh =>
    refine { hs with
      entries := forall_mem_insert hpresent hs.entries
      exits := forall_mem_erase hs.exits
      reservations := hs.reservations.of_subset fun _ _ => getElem?_of_erase
      committed := ?_ }
    apply OneEach.insert
    · apply hs.committed.of_subset
      intro id ticket hticket
      apply (getElem?_of_filter hticket).1
    · intro id ticket' hticket'
      apply of_decide_eq_true (getElem?_of_filter hticket').2
  | @leave id hdeparts hretires => apply hs.leave
  | handle hpresent hbody hkind hgrab =>
    refine { hs with bodies := hs.bodies.insert ?_ ?_ }
    · intro id hid
      rcases hgrab id hid with rfl | hid
      · apply hpresent
      · apply hs.bodies.grabs _ _ hbody id hid
    · intro havatar
      apply hs.bodies.avatars _ _ hbody (hkind ▸ havatar)
  | sit hpresent => exact { hs with seats := forall_mem_insert hpresent hs.seats }
  | prepareExit hpresent =>
    exact { hs with
      seats := forall_mem_erase hs.seats
      exits := forall_mem_insert hpresent hs.exits
      bodies := hs.bodies.release _ }
  | spawn hnew hroom hguest hgrab =>
    refine { hs with bodies := hs.bodies.insert ?_ ?_ }
    · rw [hgrab]
      nofun
    · rw [hguest]
      nofun
  | upsert hcall hkind hok hpermitted hparticipants hbodies hpersistent hgrab =>
    refine { hs with bodies := (hs.bodies.erase _).insert ?_ ?_ }
    · rw [hgrab]
      nofun
    · rw [hpersistent]
      nofun
  | discard hbody hkind => exact { hs with bodies := hs.bodies.erase _ }
  | _ => exact { hs with }

theorem Started.referential (h : Started physics session s) :
  Referential s
  := by
  have hkinds := h.kinds
  obtain ⟨startedAt, world, bodiesById, high, rfl⟩ := h.state
  refine ⟨?_, ?_, ?_, ?_, ?_, ?_, ?_, ?_⟩
  · simp [DomeSessionState.empty]
  · simp [DomeSessionState.empty]
  · simp [DomeSessionState.empty]
  · simp [DomeSessionState.empty]
  · simp [DomeSessionState.empty, OneEach]
  · simp [DomeSessionState.empty, OneEach]
  · intro entityId body hbody
    rw [(hkinds entityId body hbody).2]
    simp
  · intro entityId body hbody
    rw [(hkinds entityId body hbody).1]
    simp

/-- The tables refer to participants who are present, in every run. -/
theorem sessions_referential (hstart : Started physics session s)
    {h : List (SessionEvent World Handle)}
    (htrace : Trace (SessionStep physics primitives session) s h t) :
  Referential t
  := by
  apply htrace.invariant hstart.referential
  intro s timed result s' hs hstep
  apply (moves_of_step hstep).invariant hs
  intro s t hs hmove
  apply hs.move hmove

/-! ### Avatars -/

/-- A body is added under an identifier that no avatar of a participant has. -/
theorem Bodied.insert {entityId : String} (hs : Bodied s)
    (hother : ∀ id ∈ s.participants, entityId ≠ avatarId id) :
  Bodied { s with bodiesById := s.bodiesById.insert entityId body }
  := by
  intro id hid
  obtain ⟨body', hbody', hkind⟩ := hs id hid
  refine ⟨body', ?_, hkind⟩
  apply (getElem?_insert_of_ne (hother id hid)).trans hbody'

theorem Bodied.erase {entityId : String} (hs : Bodied s)
    (hother : ∀ id ∈ s.participants, entityId ≠ avatarId id) :
  Bodied { s with bodiesById := s.bodiesById.erase entityId }
  := by
  intro id hid
  obtain ⟨body', hbody', hkind⟩ := hs id hid
  refine ⟨body', ?_, hkind⟩
  apply (getElem?_erase_of_ne (hother id hid)).trans hbody'

/-- Those who enter get an avatar when no other body has its identifier. -/
theorem Bodied.enter {id : String} (hclear : id ∉ s.participants → avatarId id ∉ s.bodiesById)
    (hs : Bodied s) (hentered : Entered id e.op.nowMillis s t) :
  Bodied t
  := by
  obtain ⟨world, bodiesById, high, hhoused, rfl⟩ := hentered
  intro id' hid'
  by_cases hsame : id' = id
  · subst hsame
    rcases hhoused with ⟨hmem, rfl⟩ | ⟨-, body, hkind, -, rfl⟩
    · apply hs id'
      by_contra habsent
      apply hclear habsent hmem
    · refine ⟨body, ?_, hkind⟩
      simp
  · have hpresent : id' ∈ s.participants := by
      simpa [Ne.symm hsame] using hid'
    obtain ⟨body', hbody', hkind'⟩ := hs id' hpresent
    rcases hhoused with ⟨-, rfl⟩ | ⟨-, body, -, -, rfl⟩
    · exact ⟨body', hbody', hkind'⟩
    · refine ⟨body', ?_, hkind'⟩
      have hne : avatarId id ≠ avatarId id' := fun h => hsame (avatarId_injective h).symm
      apply (getElem?_insert_of_ne hne).trans hbody'

theorem Bodied.leave (hs : Bodied s) (id : String) :
  Bodied (evictParticipant physics session id s).2
  := by
  obtain ⟨world, hevict⟩ := evictParticipant_eq physics session id s
  rw [hevict]
  intro id' hid'
  obtain ⟨hne, hpresent⟩ : id ≠ id' ∧ id' ∈ s.participants := by
    simpa using hid'
  obtain ⟨body, hbody, hkind⟩ := hs id' hpresent
  have herase : (s.bodiesById.erase (avatarId id))[avatarId id']? = some body := by
    rw [getElem?_erase_of_ne fun hsame => hne (avatarId_injective hsame)]
    apply hbody
  obtain ⟨body', hbody', hkind'⟩ := exists_releaseGrabs id herase
  exact ⟨body', hbody', hkind'.trans hkind⟩

/-- Every move of an event that is clear keeps the avatars. -/
theorem Bodied.move (hclear : Clear e) (hs : Bodied s) (h : Move physics session e s t) :
  Bodied t
  := by
  -- A body that is not an avatar does not have the identifier of one.
  have hother : ∀ {entityId : String} {body : RuntimeBody Handle},
      s.bodiesById[entityId]? = some body → body.kind ≠ .avatar →
      ∀ id ∈ s.participants, entityId ≠ avatarId id := by
    rintro entityId body hbody hkind id hid rfl
    obtain ⟨body', hbody', hkind'⟩ := hs id hid
    rw [hbody] at hbody'
    cases hbody'
    apply hkind hkind'
  cases h with
  | settle h =>
    intro id hid
    rw [h.participants] at hid
    rw [h.bodies]
    apply hs id hid
  | enter hadmits hafter hparticipants hbodies hafterBodies hentered =>
    apply hs.enter _ hentered
    rw [hparticipants, hbodies]
    apply hclear.enter _ hafter
  | @leave id hdeparts hretires => apply hs.leave
  | @handle entityId participantId body body' hpresent hbody hkind hgrab =>
    intro id hid
    obtain ⟨old, hold, havatar⟩ := hs id hid
    by_cases hsame : entityId = avatarId id
    · subst hsame
      rw [hbody] at hold
      cases hold
      refine ⟨body', ?_, hkind.trans havatar⟩
      simp
    · refine ⟨old, ?_, havatar⟩
      apply (getElem?_insert_of_ne hsame).trans hold
  | @prepareExit participantId exit hpresent =>
    intro id hid
    obtain ⟨body, hbody, hkind⟩ := hs id hid
    obtain ⟨body', hbody', hkind'⟩ := exists_releaseGrabs participantId hbody
    exact ⟨body', hbody', hkind'.trans hkind⟩
  | spawn hnew hroom hguest hgrab =>
    apply hs.insert
    rintro id hid rfl
    obtain ⟨body, hbody, -⟩ := hs id hid
    apply hnew (mem_iff_exists.mpr ⟨body, hbody⟩)
  | @upsert signed prop body hcall hkind hok hpermitted hparticipants hbodies hpersistent hgrab =>
    simp only [insert_erase]
    apply hs.insert
    rw [hparticipants]
    apply hclear.upsert signed prop hcall hkind hok
  | discard hbody hkind => apply hs.erase (hother hbody hkind)
  | _ => apply hs

/-- The tables of a session are consistent in every run in which no prop takes the identifier of
an avatar. -/
theorem sessions_consistent (physics : Physics World Handle) (primitives : SessionPrimitives)
    (lease : SignedDomeHostingLease) (hostPubkey : Pubkey) (manifest : DomeInstanceManifest)
    (preset : DomePresetManifest) (sessionId : String) (startedAt : ℤ)
    (budget : MetaverseResourceBudgetConfig) (session : DomeSession)
    (s₀ s : DomeSessionState World Handle) (h : List (SessionEvent World Handle))
    (hstart : startWithBudget physics primitives lease hostPubkey manifest preset sessionId
      startedAt budget = .ok (session, s₀))
    (htrace : Trace (SessionStep physics primitives session) s₀ h s)
    (hclear : ∀ e ∈ h, Clear e) :
  Referential s ∧ Bodied s
  := by
  have hstarted := startWithBudget_eq_ok hstart
  refine ⟨sessions_referential hstarted htrace, ?_⟩
  apply htrace.invariant_of_forall hclear
  · obtain ⟨_, _, _, _, rfl⟩ := hstarted.state
    intro id hid
    simp [DomeSessionState.empty] at hid
  · intro s timed result s' hs hstep hclear
    apply (moves_of_step hstep).invariant hs
    intro s t hs hmove
    apply hs.move hclear hmove

/-- A participant joins an empty session, which is consistent afterwards. -/
theorem sessions_consistent_join :
  ∃ session s₀ s, Sample.start [Sample.joinChie] 2 = .ok (session, s₀) ∧
    SessionStep Sample.still (Sample.readInputs [Sample.joinChie]) session s₀
      ⟨20, .applySignedInput Sample.joinChie⟩ (.ok .done) s ∧ Referential s ∧ Bodied s
  := by
  obtain ⟨session, s₀, s, hstart, hempty, hstep, -⟩ := Sample.exists_joined
  refine ⟨session, s₀, s, hstart, hstep, ?_⟩
  apply sessions_consistent _ _ _ _ _ _ _ _ _ _ _ _ _ hstart (Trace.nil.snoc hstep)
  intro e he
  obtain rfl := List.mem_singleton.mp he
  constructor
  · rintro signed prop ⟨⟩ hkind
    cases hkind
  · intro id _ _ hmem
    rw [ExtTreeMap.isEmpty_iff] at hempty
    rw [hempty] at hmem
    simp at hmem

/-! ### A prop in the place of an avatar -/

namespace Sample

/-- A prop with the identifier of the avatar of somebody who has not joined. -/
def squatter : MetaversePersistentProp where
  propId := "avatar:daiki"
  assetRef := none
  primitiveFallback := .cube
  position := ⟨500, 0, 0⟩
  rotation := ⟨0, 0, 0⟩
  scale := ⟨100, 100, 100⟩
  visualOnly := false
  interactions := []
  collider := none

def spawnSquatter := signedInput "chie" "chie spawns" 2 20 (.spawnGuestProp squatter 1000)

def squatting : List SignedDomeSessionInput := [joinChie, spawnSquatter, joinDaiki]

end Sample

/-- A participant has no avatar, since a prop has its identifier. -/
theorem exists_bodiless_participant :
  ∃ session s₀ h s, Sample.start Sample.squatting 2 = .ok (session, s₀) ∧
    Trace (SessionStep Sample.still (Sample.readInputs Sample.squatting) session) s₀ h s ∧
    "daiki" ∈ s.participants ∧
    s.bodiesById["avatar:daiki"]?.map RuntimeBody.kind = some .guestProp
  := by
  have hrun : (Sample.start Sample.squatting 2).map (fun started =>
      let s := runCalls Sample.still (Sample.readInputs Sample.squatting) started.1 started.2
        (Sample.squatting.map fun signed => ⟨20, .applySignedInput signed⟩)
      (decide ("daiki" ∈ s.participants),
        s.bodiesById["avatar:daiki"]?.map RuntimeBody.kind)) = .ok (true, some .guestProp) := by
    decide +kernel
  obtain ⟨⟨session, s₀⟩, hstart, hrun⟩ := Result.map_eq_ok.mp hrun
  obtain ⟨hpresent, hkind⟩ := Prod.mk.inj hrun
  exact ⟨session, s₀, _, _, hstart, trace_runEvents _ _ _ _ _, of_decide_eq_true hpresent, hkind⟩

end Kukuri
