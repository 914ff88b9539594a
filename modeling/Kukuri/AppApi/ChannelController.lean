import Kukuri.Data.Trace

/-!
# The controller of a private channel

Of the devices of an account one updates the keys of a channel: its controller. The controller of a
generation hands over by a record that names another device and stops; the other device becomes
the controller of the next generation when it receives that record. Requests to hand over and
records reach the devices in any order, are lost, repeated and delayed.

A device first writes its row and then adopts the record that it sends, and may be restarted in
between. The main result is `one_controller`: at most one device takes itself for the controller.
-/

namespace Kukuri

open List Option Function

/-! ### Devices -/

structure PrivateChannelController where
  deviceId : String
  generation : ℕ
  /-- The device that the controller hands over to. -/
  transferTo : Option String
  deriving DecidableEq, Repr

/-- Whether the record that comes in replaces that of this device. -/
def controllerSupersedes (known : Option PrivateChannelController)
    (incoming : PrivateChannelController) : Bool :=
  match known with
  | none => true
  | some known =>
    decide (known.generation < incoming.generation) ||
      (decide (incoming.generation = known.generation) &&
        if incoming.deviceId = known.deviceId then
          known.transferTo.isNone && incoming.transferTo.isSome
        else decide (known.deviceId < incoming.deviceId))

structure PrivateChannelRow where
  joined : Bool
  /-- Whether the channel belongs to the account of the devices. -/
  owned : Bool
  controller : Option PrivateChannelController
  deriving DecidableEq, Repr

/-- What a device knows of the channel. -/
structure ChannelDevice where
  row : Option PrivateChannelRow
  /-- The record in the replica of the device. -/
  replica : Option PrivateChannelController
  /-- The record that is in the row and has not been adopted for sending. Meanwhile the device has
  the lock of its rows. -/
  publishing : Option PrivateChannelController
  deriving DecidableEq, Repr

namespace ChannelDevice

def controller (device : ChannelDevice) : Option PrivateChannelController :=
  device.row.bind (·.controller)

/-- Write the record into the row. A record to be sent is adopted next. -/
def putPrivateChannelController (device : ChannelDevice) (row : PrivateChannelRow)
    (controller : PrivateChannelController) (item : Option PrivateChannelController) :
    ChannelDevice :=
  { device with row := some { row with controller := some controller }, publishing := item }

/-- Take a record of another device: become the controller if it hands over to this device. Returns
whether the record was taken as it is. -/
def mergeChannelController (device : ChannelDevice) (deviceId : String)
    (incoming : PrivateChannelController) : Bool × ChannelDevice :=
  match device.row with
  | none => (controllerSupersedes device.replica incoming, device)
  | some row =>
    let activation : Option PrivateChannelController :=
      if row.joined ∧ incoming.transferTo = some deviceId then
        some ⟨deviceId, incoming.generation + 1, none⟩
      else none
    if ¬ controllerSupersedes row.controller incoming ∧
        (activation = none ∨ row.controller ≠ activation) then (false, device)
    else
      (activation.isNone,
        device.putPrivateChannelController row (activation.getD incoming) activation)

/-- Stop in favour of the device that requests it, if this device is the controller of that
generation. -/
def mergeChannelControllerRequest (device : ChannelDevice) (deviceId : String)
    (generation : ℕ) (toDeviceId : String) : ChannelDevice :=
  if toDeviceId = deviceId then device
  else
    let stop : PrivateChannelController := ⟨deviceId, generation, some toDeviceId⟩
    match device.row with
    | none => device
    | some row =>
      if row.joined ∧ row.owned ∧ row.controller.any fun known =>
          known.deviceId = deviceId && known.generation = stop.generation &&
            (known.transferTo.isNone || known.transferTo = stop.transferTo) then
        device.putPrivateChannelController row stop (some stop)
      else device

end ChannelDevice

/-! ### The devices of an account -/

structure ChannelState where
  devices : String → ChannelDevice
  /-- The records that have been adopted for sending. They may arrive anywhere at any time. -/
  records : List PrivateChannelController

inductive ChannelCall where
  /-- A record arrives at a device. -/
  | deliver (deviceId : String) (incoming : PrivateChannelController)
  /-- A request arrives at a device. -/
  | request (deviceId : String) (generation : ℕ) (toDeviceId : String)
  /-- A device adopts the record of its row for sending. -/
  | publish (deviceId : String)
  | restart (deviceId : String)
  /-- A device writes a record into its replica. -/
  | write (deviceId : String) (record : PrivateChannelController)
  deriving DecidableEq, Repr

namespace ChannelState

def update (state : ChannelState) (deviceId : String) (device : ChannelDevice) : ChannelState :=
  { state with devices := Function.update state.devices deviceId device }

/-- The step of a call. Rows are read and written under a lock. -/
def perform (state : ChannelState) : ChannelCall → Option (Bool × ChannelState)
  | .deliver deviceId incoming =>
    let device := state.devices deviceId
    if device.publishing = none ∧ incoming ∈ state.records then
      let merged := device.mergeChannelController deviceId incoming
      some (merged.1, state.update deviceId merged.2)
    else none
  | .request deviceId generation toDeviceId =>
    let device := state.devices deviceId
    if device.publishing = none then
      let device := device.mergeChannelControllerRequest deviceId generation toDeviceId
      some (true, state.update deviceId device)
    else none
  | .publish deviceId =>
    let device := state.devices deviceId
    match device.publishing with
    | some record =>
      some (true, { state.update deviceId { device with publishing := none } with
        records := record :: state.records })
    | none => none
  | .restart deviceId =>
    some (true, state.update deviceId { state.devices deviceId with publishing := none })
  | .write deviceId record =>
    if record ∈ state.records then
      some (true, state.update deviceId { state.devices deviceId with replica := some record })
    else none

end ChannelState

def ChannelStep (before : ChannelState) (call : ChannelCall) (ret : Bool)
    (after : ChannelState) : Prop :=
  before.perform call = some (ret, after)

abbrev ChannelEvent := Event ChannelState ChannelCall Bool

/-- Only the device that created the channel has a record, the first one. -/
structure ChannelState.Created (state : ChannelState) (creator : String) : Prop where
  first : (state.devices creator).controller = some ⟨creator, 1, none⟩
  others : ∀ deviceId, deviceId ≠ creator → (state.devices deviceId).controller = none
  publishing : ∀ deviceId, (state.devices deviceId).publishing = none
  replicas : ∀ deviceId, ∀ record ∈ (state.devices deviceId).replica, record = ⟨creator, 1, none⟩
  records : ∀ record ∈ state.records, record = ⟨creator, 1, none⟩

variable {before after state : ChannelState} {call : ChannelCall} {ret : Bool} {deviceId : String}
  {device : ChannelDevice} {record incoming : PrivateChannelController}
  {records : List PrivateChannelController} {known item : Option PrivateChannelController}

/-! ### What a step does to the records -/

/-- What a call does to the record of a device, and which record the device then has to send. -/
inductive Take (deviceId : String) (records : List PrivateChannelController)
    (known : Option PrivateChannelController) :
    PrivateChannelController → Option PrivateChannelController → Prop
  /-- The device takes a record as it is. -/
  | adopt {incoming : PrivateChannelController} (hmem : incoming ∈ records)
      (hsupersedes : controllerSupersedes known incoming) :
      Take deviceId records known incoming none
  /-- The device becomes the controller, or is it already by the same record. -/
  | activate {incoming : PrivateChannelController} (hmem : incoming ∈ records)
      (htransfer : incoming.transferTo = some deviceId)
      (htakes : controllerSupersedes known incoming ∨
        known = some ⟨deviceId, incoming.generation + 1, none⟩) :
      Take deviceId records known ⟨deviceId, incoming.generation + 1, none⟩
        (some ⟨deviceId, incoming.generation + 1, none⟩)
  /-- The device stops, or has stopped already in favour of the same device. -/
  | stop {generation : ℕ} {toDeviceId : String} (transferTo : Option String)
      (hknown : known = some ⟨deviceId, generation, transferTo⟩)
      (htransfer : transferTo = none ∨ transferTo = some toDeviceId) :
      Take deviceId records known ⟨deviceId, generation, some toDeviceId⟩
        (some ⟨deviceId, generation, some toDeviceId⟩)

/-- What a step does to the devices: one of them takes a record, or sends it, or nothing that
matters to the records happens. -/
inductive ChannelMove (before : ChannelState) : ChannelCall → ChannelState → Prop
  | quiet {call : ChannelCall} {after : ChannelState} (hrecords : after.records = before.records)
      (hcontroller : ∀ d, (after.devices d).controller = (before.devices d).controller)
      (hpublishing : ∀ d, ∀ record ∈ (after.devices d).publishing,
        (before.devices d).publishing = some record) :
      ChannelMove before call after
  | take {call : ChannelCall} (deviceId : String) {after : ChannelState}
      {record : PrivateChannelController} {item : Option PrivateChannelController}
      (htake : Take deviceId before.records (before.devices deviceId).controller record item)
      (hrecords : after.records = before.records)
      (hcontroller : (after.devices deviceId).controller = some record)
      (hpublishing : (after.devices deviceId).publishing = item)
      (hothers : ∀ d, d ≠ deviceId → after.devices d = before.devices d) :
      ChannelMove before call after
  | publish (deviceId : String) {after : ChannelState} {record : PrivateChannelController}
      (hpublishing : (before.devices deviceId).publishing = some record)
      (hrecords : after.records = record :: before.records)
      (hcontroller : ∀ d, (after.devices d).controller = (before.devices d).controller)
      (hkeeps : ∀ d, ∀ record ∈ (after.devices d).publishing,
        (before.devices d).publishing = some record) :
      ChannelMove before (.publish deviceId) after

theorem mergeChannelController_cases (device : ChannelDevice) (deviceId : String)
    (hmem : incoming ∈ records) :
  (device.mergeChannelController deviceId incoming).2 = device ∨
    ∃ record item, Take deviceId records device.controller record item ∧
      (device.mergeChannelController deviceId incoming).2.controller = some record ∧
      (device.mergeChannelController deviceId incoming).2.publishing = item
  := by
  unfold ChannelDevice.mergeChannelController
  cases hrow : device.row with
  | none => exact .inl rfl
  | some row =>
    have hcontroller : device.controller = row.controller := by
      rw [ChannelDevice.controller, hrow]
      rfl
    rw [hcontroller]
    simp only
    split_ifs with hactivates hskip hskip
    · exact .inl rfl
    · right
      refine ⟨_, _, .activate hmem hactivates.2 ?_, rfl, rfl⟩
      by_contra hnot
      push Not at hnot
      exact hskip ⟨hnot.1, .inr hnot.2⟩
    · exact .inl rfl
    · right
      refine ⟨_, _, .adopt hmem ?_, rfl, rfl⟩
      by_contra hnot
      exact hskip ⟨hnot, .inl rfl⟩

theorem mergeChannelControllerRequest_cases (device : ChannelDevice) (deviceId : String)
    (generation : ℕ) (toDeviceId : String) (records : List PrivateChannelController) :
  device.mergeChannelControllerRequest deviceId generation toDeviceId = device ∨
    ∃ record item, Take deviceId records device.controller record item ∧
      (device.mergeChannelControllerRequest deviceId generation toDeviceId).controller
        = some record ∧
      (device.mergeChannelControllerRequest deviceId generation toDeviceId).publishing = item
  := by
  unfold ChannelDevice.mergeChannelControllerRequest
  split_ifs with hself
  · exact .inl rfl
  cases hrow : device.row with
  | none => exact .inl rfl
  | some row =>
    have hcontroller : device.controller = row.controller := by
      rw [ChannelDevice.controller, hrow]
      rfl
    rw [hcontroller]
    simp only
    split_ifs with hstops
    · right
      obtain ⟨known, hknown, hsame⟩ := (any_eq_true _ _).mp hstops.2.2
      simp only [Bool.and_eq_true, Bool.or_eq_true, decide_eq_true_eq, isNone_iff_eq_none] at hsame
      obtain ⟨⟨hdevice, hgeneration⟩, htransfer⟩ := hsame
      obtain ⟨_, _, transferTo⟩ := known
      cases hdevice
      cases hgeneration
      exact ⟨_, _, .stop transferTo hknown htransfer, rfl, rfl⟩
    · exact .inl rfl

theorem devices_update_self (state : ChannelState) (deviceId : String) (device : ChannelDevice) :
  (state.update deviceId device).devices deviceId = device
  := update_self ..

theorem devices_update_of_ne (state : ChannelState) {d : String} (hd : d ≠ deviceId)
    (device : ChannelDevice) :
  (state.update deviceId device).devices d = state.devices d
  := update_of_ne hd ..

/-- A device is left as it is or takes a record. -/
theorem ChannelMove.of_update (h : device = before.devices deviceId ∨ ∃ record item,
      Take deviceId before.records (before.devices deviceId).controller record item ∧
      device.controller = some record ∧ device.publishing = item) :
  ChannelMove before call (before.update deviceId device)
  := by
  rcases h with rfl | ⟨record, item, htake, hcontroller, hpublishing⟩
  · rw [ChannelState.update, update_eq_self]
    exact .quiet rfl (fun _ => rfl) (fun _ _ h => h)
  · refine .take deviceId htake rfl ?_ ?_ fun d hd => devices_update_of_ne before hd _
    · rw [devices_update_self]
      exact hcontroller
    · rw [devices_update_self]
      exact hpublishing

/-- A change of one device that keeps its record. -/
theorem controller_update (h : device.controller = (state.devices deviceId).controller)
    (d : String) :
  ((state.update deviceId device).devices d).controller = (state.devices d).controller
  := by
  by_cases hd : d = deviceId
  · subst hd
    rw [devices_update_self, h]
  · rw [devices_update_of_ne state hd]

theorem publishing_update
    (h : ∀ record ∈ device.publishing, (state.devices deviceId).publishing = some record)
    (d : String) :
  ∀ record ∈ ((state.update deviceId device).devices d).publishing,
    (state.devices d).publishing = some record
  := by
  by_cases hd : d = deviceId
  · subst hd
    rw [devices_update_self]
    exact h
  · rw [devices_update_of_ne state hd]
    exact fun record hrecord => hrecord

theorem ChannelStep.move (hstep : ChannelStep before call ret after) :
  ChannelMove before call after
  := by
  unfold ChannelStep ChannelState.perform at hstep
  cases call with
  | deliver deviceId incoming =>
    obtain ⟨⟨_, hmem⟩, hafter⟩ := ite_none_right_eq_some.mp hstep
    cases hafter
    exact .of_update (mergeChannelController_cases (before.devices deviceId) deviceId hmem)
  | request deviceId generation toDeviceId =>
    obtain ⟨_, hafter⟩ := ite_none_right_eq_some.mp hstep
    cases hafter
    exact .of_update (mergeChannelControllerRequest_cases ..)
  | publish deviceId =>
    simp only at hstep
    split at hstep <;> cases hstep
    case h_1 record hpublishing =>
      exact .publish deviceId hpublishing rfl (controller_update rfl) (publishing_update nofun)
  | restart deviceId =>
    cases hstep
    exact .quiet rfl (controller_update rfl) (publishing_update nofun)
  | write deviceId record =>
    obtain ⟨_, hafter⟩ := ite_none_right_eq_some.mp hstep
    cases hafter
    exact .quiet rfl (controller_update rfl) (publishing_update fun _ h => h)

/-! ### The succession of controllers -/

/-- The record is that of a controller in the succession: the generation is its place, and it hands
over to the next one. -/
structure Conforms (succession : List String) (active : ℕ) (record : PrivateChannelController) :
    Prop where
  pos : 0 < record.generation
  active : record.generation ≤ active
  device : succession[record.generation - 1]? = some record.deviceId
  transfer : ∀ d ∈ record.transferTo, succession[record.generation]? = some d

/-- The controllers one after the other. All of them but the last one have been active. Each device
that has been active knows that it was, and knows that it has stopped once it has a successor. -/
structure Handed (succession : List String) (active : ℕ) (state : ChannelState) : Prop where
  active_le : active ≤ succession.length
  length_le : succession.length ≤ active + 1
  controllers : ∀ d, ∀ record ∈ (state.devices d).controller, Conforms succession active record
  publishing : ∀ d, ∀ record ∈ (state.devices d).publishing, Conforms succession active record
  records : ∀ record ∈ state.records, Conforms succession active record
  passed : ∀ i d, i < active → succession[i]? = some d → ∃ record,
    (state.devices d).controller = some record ∧ i < record.generation ∧
    (record.generation = i + 1 → i + 1 < succession.length → record.transferTo ≠ none)

variable {succession succession' : List String} {active active' : ℕ}

theorem getElem?_of_prefix {l l' : List String} (h : l <+: l') {i : ℕ} {d : String}
    (hd : l[i]? = some d) :
  l'[i]? = some d
  := by
  obtain ⟨rest, rfl⟩ := h
  rw [List.getElem?_append_left (List.getElem?_eq_some_iff.mp hd).1]
  exact hd

theorem Conforms.mono (h : Conforms succession active record)
    (hsuccession : succession <+: succession') (hactive : active ≤ active') :
  Conforms succession' active' record
  := by
  refine ⟨h.pos, h.active.trans hactive, ?_, ?_⟩
  · exact getElem?_of_prefix hsuccession h.device
  · exact fun d hd => getElem?_of_prefix hsuccession (h.transfer d hd)

/-- Records of one generation are of one device. -/
theorem Conforms.device_eq {record' : PrivateChannelController}
    (h : Conforms succession active record) (h' : Conforms succession active record')
    (hgeneration : record.generation = record'.generation) :
  record.deviceId = record'.deviceId
  := by
  have hdevice := h.device
  rw [hgeneration, h'.device] at hdevice
  exact (some.inj hdevice).symm

theorem controllerSupersedes_cases {known : PrivateChannelController}
    (h : controllerSupersedes (some known) incoming) :
  known.generation < incoming.generation ∨ incoming.generation = known.generation ∧
    (incoming.deviceId = known.deviceId → incoming.transferTo ≠ none)
  := by
  rcases (Bool.or_eq_true _ _).mp h with hgreater | hsame
  · exact .inl (of_decide_eq_true hgreater)
  · obtain ⟨hgeneration, hrest⟩ := (Bool.and_eq_true _ _).mp hsame
    refine .inr ⟨of_decide_eq_true hgeneration, ?_⟩
    intro hdevice
    rw [if_pos hdevice, Bool.and_eq_true] at hrest
    exact isSome_iff_ne_none.mp hrest.2

/-- A device stores a record, and has none but that to send. The others are as before. -/
structure Stores (before : ChannelState) (deviceId : String) (record : PrivateChannelController)
    (after : ChannelState) : Prop where
  records : after.records = before.records
  controller : (after.devices deviceId).controller = some record
  publishing : ∀ sent ∈ (after.devices deviceId).publishing, sent = record
  others : ∀ d, d ≠ deviceId → after.devices d = before.devices d

/-- The state goes on with the succession. -/
def HandedOn (succession : List String) (active : ℕ) (state : ChannelState) : Prop :=
  ∃ succession' active', succession <+: succession' ∧ active ≤ active' ∧
    Handed succession' active' state

section

variable (h : Handed succession active before)
include h

theorem Handed.replace (hsuccession : succession <+: succession') (hactive : active ≤ active')
    (hactive_le : active' ≤ succession'.length) (hlength_le : succession'.length ≤ active' + 1)
    (hstores : Stores before deviceId record after)
    (hrecord : Conforms succession' active' record)
    (hpassed : ∀ i d, i < active' → succession'[i]? = some d →
      ∃ record, (after.devices d).controller = some record ∧ i < record.generation ∧
        (record.generation = i + 1 → i + 1 < succession'.length → record.transferTo ≠ none)) :
  HandedOn succession active after
  := by
  refine ⟨succession', active', hsuccession, hactive, hactive_le, hlength_le, ?_, ?_, ?_, hpassed⟩
  · intro d known hknown
    by_cases hd : d = deviceId
    · subst hd
      rw [hstores.controller] at hknown
      cases hknown
      exact hrecord
    · rw [hstores.others d hd] at hknown
      exact (h.controllers d known hknown).mono hsuccession hactive
  · intro d sent hsent
    by_cases hd : d = deviceId
    · subst hd
      rw [hstores.publishing sent hsent]
      exact hrecord
    · rw [hstores.others d hd] at hsent
      exact (h.publishing d sent hsent).mono hsuccession hactive
  · rw [hstores.records]
    exact fun known hknown => (h.records known hknown).mono hsuccession hactive

/-- A device goes on to a record of the succession that is not behind its own. -/
theorem Handed.stay (hstores : Stores before deviceId record after)
    (hrecord : Conforms succession active record)
    (htake : ∀ known, (before.devices deviceId).controller = some known →
      known.generation < record.generation ∨
        record.generation = known.generation ∧ (record = known ∨ record.transferTo ≠ none)) :
  HandedOn succession active after
  := by
  apply h.replace prefix_rfl le_rfl h.active_le h.length_le hstores hrecord
  intro i d hi hd
  obtain ⟨known, hknown, hlt, hstopped⟩ := h.passed i d hi hd
  by_cases hsame : d = deviceId
  · subst hsame
    refine ⟨record, hstores.controller, ?_⟩
    rcases htake known hknown with hgreater | ⟨hgeneration, rfl | htransfer⟩
    · exact ⟨by omega, fun heq => by omega⟩
    · exact ⟨hlt, hstopped⟩
    · exact ⟨by omega, fun _ _ => htransfer⟩
  · rw [hstores.others d hsame]
    exact ⟨known, hknown, hlt, hstopped⟩

/-- A device stores the record that it has. -/
theorem Handed.again (hstores : Stores before deviceId record after)
    (hknown : (before.devices deviceId).controller = some record) :
  HandedOn succession active after
  := by
  apply h.stay hstores (h.controllers deviceId record hknown)
  intro known hsame
  cases hknown.symm.trans hsame
  exact .inr ⟨rfl, .inl rfl⟩

/-- A device that takes itself for the controller is the last one, and nobody is to follow it. -/
theorem Handed.last_of_running {generation : ℕ}
    (hknown : (before.devices deviceId).controller = some ⟨deviceId, generation, none⟩) :
  generation = active ∧ succession.length = active
  := by
  have hconforms := h.controllers deviceId _ hknown
  have hpos : 0 < generation := hconforms.pos
  have hle : generation ≤ active := hconforms.active
  obtain ⟨known, hknown', _, hstopped⟩ :=
    h.passed (generation - 1) deviceId (by omega) hconforms.device
  rw [hknown] at hknown'
  cases hknown'
  have hend : ¬ generation - 1 + 1 < succession.length := by
    intro hlt
    apply hstopped _ hlt rfl
    simp only
    omega
  have hactive := h.active_le
  omega

end

theorem Take.item_eq (h : Take deviceId records known record item) :
  ∀ sent ∈ item, sent = record
  := by
  cases h with
  | adopt => nofun
  | activate | stop =>
    rintro _ ⟨⟩
    rfl

section

variable (h : Handed succession active before)
include h

theorem Handed.take
    (htake : Take deviceId before.records (before.devices deviceId).controller record item)
    (hstores : Stores before deviceId record after) :
  HandedOn succession active after
  := by
  cases htake with
  | adopt hmem hsupersedes =>
    have hconforms := h.records record hmem
    apply h.stay hstores hconforms
    intro known hknown
    rw [hknown] at hsupersedes
    rcases controllerSupersedes_cases hsupersedes with hgreater | ⟨hgeneration, htransfer⟩
    · exact .inl hgreater
    · right
      refine ⟨hgeneration, .inr (htransfer ?_)⟩
      exact hconforms.device_eq (h.controllers deviceId known hknown) hgeneration
  | @activate incoming hmem htransfer htakes =>
    have hconforms := h.records incoming hmem
    have hnext := hconforms.transfer deviceId htransfer
    have hlength := (List.getElem?_eq_some_iff.mp hnext).1
    rcases Nat.lt_or_ge incoming.generation active with hbehind | htop
    · -- The device has been the controller since: only the same record is written again.
      obtain ⟨known, hknown, hlt, _⟩ := h.passed incoming.generation deviceId hbehind hnext
      rw [hknown] at htakes
      rcases htakes with hsupersedes | hsame
      · exfalso
        rcases controllerSupersedes_cases hsupersedes with hgreater | ⟨hgeneration, _⟩ <;> omega
      · exact h.again hstores (hknown.trans hsame)
    · -- The last controller has stopped in favour of this device.
      have hend : succession.length = active + 1 := by
        have hle := h.length_le
        omega
      apply h.replace prefix_rfl (Nat.le_succ _) (by omega) (by omega) hstores
      · refine ⟨Nat.succ_pos _, ?_, hnext, nofun⟩
        simp only
        omega
      · intro i d hi hd
        by_cases hsame : d = deviceId
        · subst hsame
          refine ⟨_, hstores.controller, ?_, ?_⟩ <;> simp only <;> omega
        · have hlt : i < active := by
            rcases Nat.lt_or_ge i active with hlt | hge
            · exact hlt
            · obtain rfl : i = incoming.generation := by omega
              rw [hnext] at hd
              exact absurd (some.inj hd).symm hsame
          rw [hstores.others d hsame]
          exact h.passed i d hlt hd
  | @stop generation toDeviceId transferTo hknown htransfer =>
    have hconforms := h.controllers deviceId _ hknown
    rcases htransfer with rfl | rfl
    · -- The device is the last controller, and has not stopped before.
      obtain ⟨hlast, hend⟩ := h.last_of_running hknown
      have hlength : (succession ++ [toDeviceId]).length = active + 1 := by
        rw [length_append, length_singleton, hend]
      apply h.replace (prefix_append _ [toDeviceId]) le_rfl (by omega) (by omega) hstores
      · refine ⟨hconforms.pos, hconforms.active, ?_, ?_⟩
        · exact getElem?_of_prefix (prefix_append _ _) hconforms.device
        · rintro d ⟨⟩
          have hplace : generation = succession.length := by omega
          simp only [hplace, getElem?_concat_length]
      · intro i d hi hd
        rw [getElem?_append_left (by omega)] at hd
        by_cases hsame : d = deviceId
        · subst hsame
          exact ⟨_, hstores.controller, by simp only; omega, fun _ _ => nofun⟩
        · obtain ⟨known, hknown', hlt, hstopped⟩ := h.passed i d hi hd
          rw [hstores.others d hsame]
          refine ⟨known, hknown', hlt, ?_⟩
          intro hgeneration _
          apply hstopped hgeneration
          -- The place before the end is that of the device itself.
          rcases Nat.lt_or_ge (i + 1) active with hlt | hge
          · omega
          · obtain rfl : i = generation - 1 := by omega
            rw [hconforms.device] at hd
            exact absurd (some.inj hd).symm hsame
    · exact h.again hstores hknown

/-- The records of the devices are as before, and no others are sent. -/
theorem Handed.keep
    (hcontroller : ∀ d, (after.devices d).controller = (before.devices d).controller)
    (hpublishing : ∀ d, ∀ record ∈ (after.devices d).publishing,
      (before.devices d).publishing = some record)
    (hrecords : ∀ record ∈ after.records, Conforms succession active record) :
  HandedOn succession active after
  := by
  refine ⟨succession, active, prefix_rfl, le_rfl, h.active_le, h.length_le, ?_, ?_, hrecords, ?_⟩
  · simp only [hcontroller]
    exact h.controllers
  · exact fun d record hrecord => h.publishing d record (hpublishing d record hrecord)
  · simp only [hcontroller]
    exact h.passed

/-! ### One controller -/

theorem Handed.move (hmove : ChannelMove before call after) :
  HandedOn succession active after
  := by
  cases hmove with
  | quiet hrecords hcontroller hpublishing =>
    apply h.keep hcontroller hpublishing
    rw [hrecords]
    exact h.records
  | take deviceId htake hrecords hcontroller hpublishing hothers =>
    apply h.take htake ⟨hrecords, hcontroller, ?_, hothers⟩
    rw [hpublishing]
    exact htake.item_eq
  | publish deviceId hsent hrecords hcontroller hpublishing =>
    apply h.keep hcontroller hpublishing
    rw [hrecords]
    intro known hknown
    rcases mem_cons.mp hknown with rfl | hknown
    · exact h.publishing deviceId _ hsent
    · exact h.records known hknown

end

theorem handed_of_created {creator : String} (h : state.Created creator) :
  Handed [creator] 1 state
  := by
  have hfirst : Conforms [creator] 1 ⟨creator, 1, none⟩ := ⟨Nat.one_pos, le_rfl, rfl, nofun⟩
  refine ⟨le_rfl, Nat.le_succ _, ?_, ?_, ?_, ?_⟩
  · intro d record hrecord
    by_cases hd : d = creator
    · subst hd
      rw [h.first] at hrecord
      cases hrecord
      exact hfirst
    · rw [h.others d hd] at hrecord
      cases hrecord
  · intro d record hrecord
    rw [h.publishing d] at hrecord
    cases hrecord
  · intro record hrecord
    rw [h.records record hrecord]
    exact hfirst
  · intro i d hi hd
    obtain rfl : i = 0 := by omega
    cases hd
    exact ⟨_, h.first, Nat.one_pos, fun _ hlt => absurd hlt (lt_irrefl _)⟩

/-- The device takes itself for the controller. -/
def ChannelState.Runs (state : ChannelState) (deviceId : String) : Prop :=
  ∃ generation, (state.devices deviceId).controller = some ⟨deviceId, generation, none⟩

/-- The device becomes the controller of the generation. -/
def Activates (e : ChannelEvent) (deviceId : String) (generation : ℕ) : Prop :=
  ∃ incoming, e.op = .deliver deviceId incoming ∧
    (e.after.devices deviceId).publishing = some ⟨deviceId, generation, none⟩

/-- The record of no device goes back to an earlier generation. -/
def Advances (e : ChannelEvent) : Prop :=
  ∀ deviceId, ∀ known ∈ (e.before.devices deviceId).controller,
    ∃ record, (e.after.devices deviceId).controller = some record ∧
      known.generation ≤ record.generation

theorem Take.generation_le {known : PrivateChannelController}
    (h : Take deviceId records (some known) record item) :
  known.generation ≤ record.generation
  := by
  cases h with
  | adopt _ hsupersedes =>
    rcases controllerSupersedes_cases hsupersedes with hgreater | ⟨hgeneration, _⟩
    · exact le_of_lt hgreater
    · exact le_of_eq hgeneration.symm
  | activate _ _ htakes =>
    rcases htakes with hsupersedes | hsame
    · rcases controllerSupersedes_cases hsupersedes with hgreater | ⟨hgeneration, _⟩
      · exact le_of_lt (Nat.lt_succ_of_lt hgreater)
      · exact le_of_lt (Nat.lt_succ_of_le (le_of_eq hgeneration.symm))
    · cases hsame
      exact le_rfl
  | stop _ hknown _ =>
    cases hknown
    exact le_rfl

theorem ChannelMove.advances (hmove : ChannelMove before call after) :
  Advances ⟨before, call, ret, after⟩
  := by
  intro d known hknown
  cases hmove with
  | quiet _ hcontroller | publish _ _ _ hcontroller =>
    exact ⟨known, (hcontroller d).trans hknown, le_rfl⟩
  | take deviceId htake _ hcontroller _ hothers =>
    by_cases hd : d = deviceId
    · subst hd
      rw [hknown] at htake
      exact ⟨_, hcontroller, htake.generation_le⟩
    · refine ⟨known, ?_, le_rfl⟩
      simp only [hothers d hd]
      exact hknown

/-- At most one device takes itself for the controller, no device goes back to an earlier
generation, and a generation has one controller. -/
theorem one_controller {start state : ChannelState} {creator : String}
    {history : List ChannelEvent} (hstart : start.Created creator)
    (htrace : Trace ChannelStep start history state) :
  (∀ d d', state.Runs d → state.Runs d' → d = d') ∧ (∀ e ∈ history, Advances e) ∧
    ∀ e ∈ history, ∀ e' ∈ history, ∀ d d' generation, Activates e d generation →
      Activates e' d' generation → d = d'
  := by
  -- Who has become the controller of a generation is the device at that place.
  have hinvariant : ∃ succession active, Handed succession active state ∧
      (∀ e ∈ history, Advances e) ∧
      ∀ e ∈ history, ∀ d generation, Activates e d generation →
        succession[generation - 1]? = some d := by
    apply htrace.history_invariant (P := fun history state => ∃ succession active,
      Handed succession active state ∧ (∀ e ∈ history, Advances e) ∧
      ∀ e ∈ history, ∀ d generation, Activates e d generation →
        succession[generation - 1]? = some d)
    · exact ⟨[creator], 1, handed_of_created hstart, nofun, nofun⟩
    · rintro history before call ret after _ ⟨succession, active, h, hadvances, hactivates⟩ hstep
      obtain ⟨succession', active', hsuccession, _, h'⟩ := h.move hstep.move
      refine ⟨succession', active', h', ?_, ?_⟩
      · exact forall_mem_append.mpr
          ⟨hadvances, forall_mem_singleton.mpr hstep.move.advances⟩
      · intro e he d generation hactivated
        rcases mem_append.mp he with he | he
        · exact getElem?_of_prefix hsuccession (hactivates e he d generation hactivated)
        · rw [mem_singleton.mp he] at hactivated
          obtain ⟨_, _, hpublishing⟩ := hactivated
          exact (h'.publishing d _ hpublishing).device
  obtain ⟨succession, active, h, hadvances, hactivates⟩ := hinvariant
  refine ⟨?_, hadvances, ?_⟩
  · rintro d d' ⟨generation, hd⟩ ⟨generation', hd'⟩
    obtain ⟨hlast, _⟩ := h.last_of_running hd
    obtain ⟨hlast', _⟩ := h.last_of_running hd'
    exact (h.controllers d _ hd).device_eq (h.controllers d' _ hd') (hlast.trans hlast'.symm)
  · intro e he e' he' d d' generation hactivated hactivated'
    have hplace := hactivates e he d generation hactivated
    rw [hactivates e' he' d' generation hactivated'] at hplace
    exact (some.inj hplace).symm

namespace Sample

/-- A device of the account with the given record. -/
def member (controller : Option PrivateChannelController) : ChannelDevice :=
  ⟨some ⟨true, true, controller⟩, none, none⟩

/-- The channel was created on the device `first`. -/
def createdChannel : ChannelState where
  devices := Function.update (fun _ => member none) "first" (member (some ⟨"first", 1, none⟩))
  records := [⟨"first", 1, none⟩]

/-- The device `second` asks for the channel, and is restarted when it has just become the
controller. -/
def handingOver : List ChannelCall :=
  [.request "first" 1 "second", .publish "first", .deliver "second" ⟨"first", 1, some "second"⟩,
    .restart "second", .deliver "second" ⟨"first", 1, some "second"⟩, .publish "second",
    .deliver "first" ⟨"second", 2, none⟩]

theorem created_createdChannel : createdChannel.Created "first" := by
  refine ⟨rfl, ?_, ?_, ?_, by simp [createdChannel]⟩
  · intro d hd
    simp only [createdChannel, update_of_ne hd]
    rfl
  · intro d
    by_cases hd : d = "first"
    · subst hd
      rfl
    · simp only [createdChannel, update_of_ne hd]
      rfl
  · intro d
    by_cases hd : d = "first"
    · subst hd
      nofun
    · simp only [createdChannel, update_of_ne hd]
      nofun

end Sample

/-- After the handover the new device is the only controller. -/
theorem one_controller_handing_over :
  let run := Trace.replay ChannelState.perform Sample.createdChannel Sample.handingOver
  run.1.length = 7 ∧ run.2.Runs "second" ∧ ∀ d, run.2.Runs d → d = "second"
  := by
  intro run
  have htrace : Trace ChannelStep Sample.createdChannel run.1 run.2 :=
    Trace.of_replay (fun _ _ _ _ _ h => h) _
  have hruns : run.2.Runs "second" := ⟨2, by decide +kernel⟩
  refine ⟨by decide +kernel, hruns, ?_⟩
  intro d hd
  exact (one_controller Sample.created_createdChannel htrace).1 d "second" hd hruns

end Kukuri
