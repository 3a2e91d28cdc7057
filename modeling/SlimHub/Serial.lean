import SlimHub.Lib.Journal
import SlimHub.ArrivalOrder
import SlimHub.OneReply
import SlimHub.ScanRound

/-! The daemon as if it did one thing at a time.

        tasks     scan round │ handle_frame │ client │ session │ run    taking turns at their awaits
        serial    scan · frame · request · …                              one function call each

    The serial daemon has no lock, no tasks and no awaits: a request is answered, a frame handled, a
    scan's devices taken over by one function of what the daemon keeps. Every run of the tasks is a
    run of the serial daemon, in the order in which the tasks got their turns. -/

namespace SlimHub
open Text Nus Json Ble Unitspace Asyncio Logging

/-! ### The requests that `Hub` does not have -/

namespace Hub

variable (interp : Interpreter)

def withSession (self : Hub) (ref : SessionRef) (f : DeviceSession → DeviceSession) : Hub :=
  { self with daemon.central.sessions := self.daemon.central.sessions.modify ref f }

/-- A config's name goes to the session that its address has. -/
def renamed (self : Hub) (config : DeviceRecord) : Except PyError Hub :=
  match self.registry.get config.address with
  | .error exc => .error exc
  | .ok none => .ok self
  | .ok (some ref) => .ok <| self.withSession ref fun session =>
    { session with name := orDefault (config.config interp).name session.name }

/-- The loop of `apply_config`. -/
def applyConfigs (self : Hub) : List DeviceRecord → Hub × Except PyError Unit
  | [] => (self, .ok ())
  | config :: configs =>
    match self.renamed interp config with
    | .error exc => (self, .error exc)
    | .ok hub => hub.applyConfigs configs

variable (self : Hub)

def applyConfig : Hub × Except PyError (List Part) :=
  match self.configStore.listAll interp with
  | .error exc => (self, .error exc)
  | .ok configs =>
    let applied := self.applyConfigs interp configs
    (applied.1, applied.2.map fun _ => [.lit "Config data applied"])

def serviceCommand (links : Links) (address action service : Value)
    (characteristic : Option Value) : Except PyError (List Part) :=
  match normalizeMac (fieldText interp address) with
  | .error exc => .error exc
  | .ok normalized =>
    match self.registry.get normalized with
    | .error exc => .error exc
    | .ok none => .ok [.str normalized, .lit " is not registered"]
    | .ok (some ref) =>
      if !(links ref).1 then .ok [.str normalized, .lit " is not connected"] else
        let actionText := fieldText interp action
        let serviceText := fieldText interp service
        let characteristicText := (characteristic.map (fieldText interp)).getD []
        if actionText = str "enable" then
          .ok [.str normalized, .lit ": characteristic ", .str serviceText, .lit " ",
            .str characteristicText, .lit " enabled"]
        else if actionText = str "disable" then
          .ok [.str normalized, .lit ": characteristic ", .str serviceText, .lit " ",
            .str characteristicText, .lit " disabled"]
        else if actionText = str "activate" then
          .ok [.str normalized, .lit ": service ", .str serviceText, .lit " activated"]
        else if actionText = str "deactivate" then
          .ok [.str normalized, .lit ": service ", .str serviceText, .lit " deactivated"]
        else .error ⟨.valueError,
          [.lit "service action must be enable, disable, activate or deactivate"]⟩

def unsupportedDeviceCommand (address : Value) (commandName : String) (detail : Str) :
    Except PyError (List Part) :=
  match normalizeMac (fieldText interp address) with
  | .error exc => .error exc
  | .ok normalized =>
    match self.registry.get normalized with
    | .error exc => .error exc
    | .ok none => .ok [.str normalized, .lit " is not registered"]
    | .ok (some _) =>
      let suffix : List Part := if detail = [] then [] else [.lit " ", .str detail]
      .ok (.lit commandName :: suffix ++
        [.lit " is not supported by SLIMHUB_v2 NUS-only daemon"])

end Hub

/-! ### The serial daemon -/

/-- What the daemon keeps, with the clock's readings and the answers given so far. -/
structure Serial where
  hub : Hub
  hubConfigStore : HubConfigStore
  links : Links
  times : ℕ → ℚ
  reads : ℕ
  answers : List (Except PyError Reply)

/-- One thing that the daemon does: the hub's config is read or made at the start, the address
    given at the start is connected, a scan's devices are taken over, a frame is handled
    (`logRaises` tells how the logger takes its event), a request is answered. The last three are
    what the sessions' own tasks and connections change, and the `stop` of a session. -/
inductive Operation where
  | loadHubConfig
  | connect (address : Str)
  | scan (devices : List Target)
  | frame (task : FrameTask) (logRaises : LogEvent → Option PyError)
  | request (request : Request)
  | session (ref : SessionRef) (change : SessionChange)
  | link (ref : SessionRef) (connected : Bool) (lastError : Option Str)
  | stopSession (ref : SessionRef)

namespace Serial

variable (interp : Interpreter) (self : Serial)

/-- `time.time()`, the next time it is called. -/
def now : ℚ := self.times self.reads

/-- `update_target` reads the clock; a new session does not. -/
def retargets (target : Target) : Bool :=
  match normalizeMac target.addressText with
  | .error _ => false
  | .ok a => (self.hub.registry.find a).isSome

def connect (address : Str) : Serial × Except PyError SessionStatus :=
  let connected := self.hub.connectAddress interp self.links address self.now
  ({ self with
      hub := connected.1
      reads := self.reads + (self.retargets (.text address)).toNat }, connected.2)

def scanDevice (target : Target) : Serial × Except PyError Unit :=
  let started := self.hub.startOrUpdateSession interp target self.now
  ({ self with
      hub := started.1
      reads := self.reads + (self.retargets target).toNat }, started.2)

/-- The devices of a scan, up to the first with which something goes wrong. -/
def scan : List Target → Serial → Serial
  | [], self => self
  | device :: devices, self =>
    match (self.scanDevice interp device).2 with
    | .error _ => (self.scanDevice interp device).1
    | .ok _ => scan devices (self.scanDevice interp device).1

/-- How the config of a frame comes out. -/
def frameConfig (task : FrameTask) : Except PyError DeviceConfig :=
  match self.hub.registry.registerAlias task.frame.mac task.source with
  | .error exc => .error exc
  | .ok _ => ((ConfigWrite.framed task.frame.mac).apply interp self.hub.configStore).2.map
    (DeviceRecord.config interp)

/-- How the event of a frame is logged, once it is made. -/
def frameLogged (task : FrameTask) (logRaises : LogEvent → Option PyError) : Except PyError Unit :=
  match self.frameConfig interp task with
  | .error _ => .ok ()
  | .ok config =>
    match logRaises (Daemon.eventOf task.frame config self.now) with
    | none => .ok ()
    | some exc => .error exc

def handle (task : FrameTask) (logRaises : LogEvent → Option PyError) : Serial :=
  { self with
    hub := ({ self.hub with daemon.frameTasks := [task] }.runTask interp self.now
      (self.frameLogged interp task logRaises)).getD self.hub
    reads := self.reads + (self.frameConfig interp task).isOk.toNat }

/-- `dispatch`. Where the state is `self` again, the request reads only. -/
def answer : Request → Serial × Except PyError Reply
  | .stop => (self, .ok .stopping)
  | .devices => (self, (self.hub.devicesPayload interp self.links).map .devices)
  | .connect address =>
    let connected := self.connect interp address
    (connected.1, connected.2.map .session)
  | .commandSend address command =>
    let sent := self.hub.sendCommand interp self.links address command
    ({ self with hub := sent.1 }, sent.2.map .command)
  | .configSet address field value =>
    let written := (ConfigWrite.configSet address field value).apply interp self.hub.configStore
    ({ self with hub.configStore := written.1 }, written.2.map .config)
  | .configApply =>
    let applied := self.hub.applyConfig interp
    ({ self with hub := applied.1 }, applied.2.map .text)
  | .hubConfigSet field value =>
    let written := self.hubConfigStore.setField interp field value
    ({ self with hubConfigStore := written.1 }, written.2.map .hubConfig)
  | .service address action service characteristic =>
    (self, (self.hub.serviceCommand interp self.links address action service characteristic).map
      .text)
  | .reset address =>
    (self, (self.hub.unsupportedDeviceCommand interp address "Reset" []).map .text)
  | .model address modelCommand =>
    (self, (self.hub.unsupportedDeviceCommand interp address "Model" modelCommand).map .text)
  | .feature address featureCommand =>
    (self, (self.hub.unsupportedDeviceCommand interp address "Feature collection"
      featureCommand).map .text)
  | .file address filePath =>
    (self, (self.hub.unsupportedDeviceCommand interp address "File transfer" filePath).map .text)
  | .unitspaceStatus => (self, .ok (.unitspace self.hub.daemon.estimator))
  | .other answer => (self, answer.map .lines)

def perform (self : Serial) : Operation → Serial
  | .loadHubConfig => { self with hubConfigStore := (self.hubConfigStore.loadOrCreate interp).1 }
  | .connect address => (self.connect interp address).1
  | .scan devices => self.scan interp devices
  | .frame task logRaises => self.handle interp task logRaises
  | .request request =>
    let answered := self.answer interp request
    { answered.1 with answers := answered.1.answers ++ [answered.2] }
  | .session ref change => { self with hub := self.hub.withSession ref change.apply }
  | .link ref connected lastError =>
    { self with links := Function.update self.links ref (connected, lastError) }
  | .stopSession ref =>
    { self with hub := self.hub.withSession ref fun session =>
      { session with stopRequested := true } }

end Serial

/-! ### What the tasks do, as operations -/

/-- The serial daemon that the tasks share. -/
def Station.serial (self : Station) : Serial :=
  ⟨self.hub, self.hubConfigStore, self.links, self.times, self.reads, self.history.answers⟩

/-- The operations of a piece or a callback. A round whose scan failed, or that was cancelled, does
    nothing; nor do the waits of `run` and the callbacks of the logger. -/
def operations (w : Writer) (s : Station) : Point ⊕ Callback → List Operation
  | .inl (.main _ _) => if (w.ensure s.logger.disk).1 = none then [.loadHubConfig] else []
  | .inl (.serving (some address) _) => if address = [] then [] else [.connect address]
  | .inl (.scanned (.ok devices)) => if s.scanCancelled then [] else [.scan devices]
  | .inl (.request request) => [.request request]
  | .inl (.frame task) => [.frame task (s.logger.logRaises w)]
  | .inl (.stopSession ref) => [.stopSession ref]
  | .inl (.sessionStopped ref) => [.session ref .ends]
  | .inr (.session ref change) => [.session ref change]
  | .inr (.link ref connected lastError) => [.link ref connected lastError]
  | _ => []

namespace Station

variable (s : Station)

@[simp] theorem hub_central : s.hub.daemon.central = s.central := rfl
@[simp] theorem hub_registry : s.hub.registry = s.central.registry := rfl
@[simp] theorem hub_configStore : s.hub.configStore = s.configStore := rfl
@[simp] theorem serial_hub : s.serial.hub = s.hub := rfl
@[simp] theorem serial_now : s.serial.now = s.times s.reads := rfl

end Station

/-! ### The pieces do what the serial daemon does -/

namespace Daemon
open Piece

variable (interp : Interpreter) {s : Station}

/-- The piece changes what the serial daemon keeps into `t`, and comes to `r`. -/
abbrev Does {α : Type} (c : Routine α) (s : Station) (t : Serial) (r : Except PyError α) : Prop :=
  c.After s fun result s' => s'.serial = t ∧ result = r

theorem does_of_exec {α : Type} {c : Routine α} {created : List Point} {s' : Station}
    {r r' : Except PyError α} {t : Serial} (h : c.exec s = ⟨s', created, r⟩) :
    Does c s t r' ↔ s'.serial = t ∧ r = r' :=
  after_of_exec h

theorem Does.map {α β : Type} {c : Routine α} {t : Serial} {r : Except PyError α} (h : Does c s t r)
    (f : α → β) : Does (c >>= fun a => pure (f a)) s t (r.map f) := by
  obtain ⟨hserial, hresult⟩ := h
  rw [Does, After, exec_bind, andThen, hresult]
  cases r with
  | error exc => exact ⟨hserial, rfl⟩
  | ok a => exact ⟨hserial, rfl⟩

/-- `ensure_target` does what it does in the central, and reads the clock where that finds a
    session. -/
theorem exec_ensureTarget {target : Target} {a : Str}
    (h : normalizeMac target.addressText = .ok a) : ∃ s' created ref,
    (ensureTarget target).exec s = ⟨s', created, .ok ref⟩ ∧
      s.central.ensureTarget target (s.times s.reads) = (s'.central, .ok ref) ∧
      s'.serial = { s.serial with
        hub.daemon.central := s'.central
        reads := s.reads + (s.serial.retargets target).toNat } := by
  have hidem := normalizeMac_idem h
  have hretargets : s.serial.retargets target = (s.central.registry.find a).isSome := by
    rw [Serial.retargets, h]
    rfl
  cases hfind : s.central.registry.find a with
  | none =>
    refine ⟨_, _, _, exec_ensureTarget_new h hfind, Prod.ext rfl ?_, ?_⟩
    · have hadd (session : DeviceSession) (hsession : session.address = a) :
          s.central.registry.add s.central.sessions.length session = .ok { s.central.registry with
            sessions := s.central.registry.sessions.set a s.central.sessions.length } :=
        DeviceRegistry.add_ok (hsession ▸ hidem)
      simp only [BleCentral.ensureTarget, h, DeviceRegistry.get_ok hidem, hfind,
        DeviceSession.new_ok_iff.mpr ⟨a, h, rfl⟩, hadd]
    · rw [hretargets, hfind]
      rfl
  | some ref =>
    refine ⟨_, _, _, exec_ensureTarget_found h hfind, Prod.ext rfl ?_, ?_⟩
    · simp only [BleCentral.ensureTarget, h, DeviceRegistry.get_ok hidem, hfind]
    · rw [hretargets, hfind]
      rfl

/-- A connect request. -/
theorem does_connectAddress (address : Str) : Does (connectAddress interp address) s
    (s.serial.connect interp address).1 (s.serial.connect interp address).2 := by
  cases hnorm : normalizeMac address with
  | error exc =>
    simp [Does, connectAddress, hnorm, Serial.connect, Hub.connectAddress, Serial.retargets,
      Station.serial, Target.addressText]
  | ok a =>
    have hidem := normalizeMac_idem hnorm
    obtain ⟨s', created, ref, hexec, hcentral, hserial⟩ :=
      @exec_ensureTarget s (.text a) a hidem
    have hretargets : s.serial.retargets (.text address) = s.serial.retargets (.text a) := by
      simp only [Serial.retargets, Target.addressText, hnorm, hidem]
    have hstore : s'.configStore = s.configStore := congrArg (·.hub.configStore) hserial
    have hlinks : s'.links = s.links := congrArg Serial.links hserial
    simp only [Does, connectAddress, ensureAddress, after_bind, after_lift, hnorm, hidem]
    rw [after_of_exec hexec]
    simp only [sessionAt, after_bind, after_get, Serial.connect, Hub.connectAddress, hnorm,
      Station.serial_hub, Station.serial_now, Station.hub, BleCentral.ensureAddress_eq hidem,
      hcentral, Hub.session, hretargets]
    cases hsession : s'.central.sessions[ref]? with
    | none =>
      exact ⟨hserial, rfl⟩
    | some session =>
      simp only [after_pure, write, after_act, hstore]
      have hsaved (configStore : DeviceConfigStore) : { s' with configStore }.serial =
          { s.serial with
            hub.daemon.central := s'.central
            hub.configStore := configStore
            reads := s.reads + (s.serial.retargets (.text a)).toNat } :=
        congrArg (fun t : Serial => { t with hub.configStore := configStore }) hserial
      cases hwrite : ((ConfigWrite.connected a session.name).apply interp s.configStore).2 with
      | error exc => exact ⟨hsaved _, rfl⟩
      | ok config => exact ⟨hsaved _, by rw [hlinks]; rfl⟩

/-- A `command.send` request. -/
theorem does_manualCommand (address command : Value) : Does (manualCommand interp address command) s
    { s.serial with hub := (s.hub.sendCommand interp s.links address command).1 }
    (s.hub.sendCommand interp s.links address command).2 := by
  cases address with
  | str address =>
    by_cases hempty : address = []
    · simp only [Does, manualCommand, after_bind, after_lift, hempty, if_true]
      cases command <;> exact ⟨rfl, rfl⟩
    cases command with
    | str command =>
      simp only [Does, manualCommand, after_bind, after_lift, hempty, if_false,
        Hub.sendCommand]
      cases hnorm : normalizeMac address with
      | error exc => exact ⟨rfl, rfl⟩
      | ok a =>
        cases hvalid : validateCommand command with
        | error exc => exact ⟨rfl, rfl⟩
        | ok validated =>
          have hidem := normalizeMac_idem hnorm
          simp only [after_find s hidem, DeviceRegistry.get_ok hidem, Station.hub_registry,
            Station.hub_configStore, Station.hub_central]
          cases hfind : s.central.registry.find a with
          | none => exact ⟨rfl, rfl⟩
          | some ref =>
            simp only [after_bind, after_get, after_lift]
            cases hload : s.configStore.load interp a with
            | error exc => exact ⟨rfl, rfl⟩
            | ok record =>
              have hsend := @BleCentral.sendCommand_ok s.central a
                ⟨a, validated, fieldText interp record.location⟩ hidem
              simp only [hfind] at hsend
              simp only [sendCommand, after_bind, after_find s hidem, hfind, after_modify,
                after_pure, hsend, Bool.not_true, Bool.false_eq_true, if_false, sessionAt,
                after_get, Hub.session, Station.withSession]
              cases (s.central.sessions.modify ref (·.sendCommand
                  ⟨a, validated, fieldText interp record.location⟩))[ref]? with
              | none => exact ⟨rfl, rfl⟩
              | some session => exact ⟨rfl, rfl⟩
    | _ =>
      simp only [Does, manualCommand, after_bind, after_lift, hempty, if_false, Hub.sendCommand]
      exact ⟨rfl, trivial⟩
  | _ =>
    simp only [Does, manualCommand, after_bind, after_lift]
    cases command <;> exact ⟨rfl, rfl⟩

/-- The requests that look the device up and answer with a text. -/
theorem does_unsupported (address : Value) (commandName : String) (detail : Str) :
    Does (unsupportedDeviceCommand interp address commandName detail) s s.serial
      (s.hub.unsupportedDeviceCommand interp address commandName detail) := by
  simp only [Does, unsupportedDeviceCommand, Hub.unsupportedDeviceCommand, after_bind, after_lift]
  cases hnorm : normalizeMac (fieldText interp address) with
  | error exc => exact ⟨trivial, rfl⟩
  | ok a =>
    simp only [after_find s (normalizeMac_idem hnorm), Station.hub_registry,
      DeviceRegistry.get_ok (normalizeMac_idem hnorm)]
    cases s.central.registry.find a with
    | none => exact ⟨rfl, rfl⟩
    | some ref => exact ⟨rfl, rfl⟩

theorem does_serviceCommand (address action service : Value) (characteristic : Option Value) :
    Does (serviceCommand interp address action service characteristic) s s.serial
      (s.hub.serviceCommand interp s.links address action service characteristic) := by
  simp only [Does, serviceCommand, Hub.serviceCommand, after_bind, after_lift]
  cases hnorm : normalizeMac (fieldText interp address) with
  | error exc => exact ⟨trivial, rfl⟩
  | ok a =>
    simp only [after_find s (normalizeMac_idem hnorm), Station.hub_registry,
      DeviceRegistry.get_ok (normalizeMac_idem hnorm)]
    cases s.central.registry.find a with
    | none => exact ⟨rfl, rfl⟩
    | some ref =>
      simp only [after_bind, after_get]
      cases (s.links ref).1 with
      | false => exact ⟨rfl, rfl⟩
      | true =>
        simp only [Bool.not_true, Bool.false_eq_true, if_false]
        split_ifs <;> exact ⟨rfl, rfl⟩

/-- One config that is applied. -/
theorem exec_renamed (config : DeviceRecord) : ∃ s', (do
      match ← get config.address with
      | none => return ()
      | some ref => Piece.modify (·.withSession ref fun session =>
          { session with name := orDefault (config.config interp).name session.name }) :
      Routine PUnit).exec s = ⟨s', [], (s.hub.renamed interp config).map fun _ => ()⟩ ∧
    s'.serial = { s.serial with hub := (s.hub.renamed interp config).toOption.getD s.hub } := by
  cases hnorm : normalizeMac config.address with
  | error exc =>
    have hget : s.hub.registry.get config.address = .error exc := by
      rw [DeviceRegistry.get, hnorm]
      rfl
    rw [exec_bind, get, exec_bind, exec_lift, hnorm, Hub.renamed, hget]
    exact ⟨s, rfl, rfl⟩
  | ok a =>
    have hget : s.hub.registry.get config.address = .ok (s.central.registry.find a) :=
      DeviceRegistry.get_ok hnorm
    have hexec : (get config.address).exec s = ⟨s, [], .ok (s.central.registry.find a)⟩ := by
      simp only [get, exec_bind, exec_lift, hnorm, andThen_ok, exec_locked]
    rw [exec_bind, hexec, andThen_ok, Hub.renamed, hget]
    cases s.central.registry.find a with
    | none => exact ⟨s, rfl, rfl⟩
    | some ref => exact ⟨_, rfl, rfl⟩

/-- Configs that are applied to the sessions. -/
theorem does_applyConfigs (configs : List DeviceRecord) : Does (configs.forM fun config => do
      match ← get config.address with
      | none => return ()
      | some ref => Piece.modify (·.withSession ref fun session =>
          { session with name := orDefault (config.config interp).name session.name })) s
    { s.serial with hub := (s.hub.applyConfigs interp configs).1 }
    (s.hub.applyConfigs interp configs).2 := by
  induction configs generalizing s with
  | nil => exact ⟨rfl, rfl⟩
  | cons config configs ih =>
    obtain ⟨s', hexec, hserial⟩ := @exec_renamed interp s config
    rw [Does, After, exec_forM_cons, hexec, andThen, Hub.applyConfigs]
    cases hrenamed : s.hub.renamed interp config with
    | error exc =>
      rw [hrenamed] at hserial
      exact ⟨hserial, rfl⟩
    | ok hub =>
      rw [hrenamed] at hserial
      have hrest := @ih s'
      have hhub : s'.hub = hub := congrArg Serial.hub hserial
      rw [hserial, hhub] at hrest
      exact hrest

theorem does_applyConfig : Does (applyConfig interp) s
    { s.serial with hub := (s.hub.applyConfig interp).1 } (s.hub.applyConfig interp).2 := by
  rw [Does, After, applyConfig, exec_bind, exec_get, andThen_ok, exec_bind, exec_lift,
    Hub.applyConfig, Station.hub_configStore]
  cases s.configStore.listAll interp with
  | error exc => exact ⟨rfl, rfl⟩
  | ok configs =>
    rw [andThen_ok]
    exact (@does_applyConfigs interp s configs).map fun _ => [Part.lit "Config data applied"]

/-- A request that is answered. -/
theorem does_dispatch (request : Request) : Does (dispatch interp request) s
    (s.serial.answer interp request).1 (s.serial.answer interp request).2 := by
  cases request with
  | stop => exact ⟨rfl, rfl⟩
  | devices =>
    have hdevices : Does (devicesPayload interp) s s.serial (s.hub.devicesPayload interp s.links) :=
      (does_of_exec (exec_devicesPayload s interp)).mpr ⟨rfl, rfl⟩
    exact hdevices.map Reply.devices
  | connect address => exact (does_connectAddress interp address).map Reply.session
  | commandSend address command =>
    exact (does_manualCommand interp address command).map Reply.command
  | configSet address field value =>
    have hwrite : Does (write interp (.configSet address field value)) s _ _ := ⟨rfl, rfl⟩
    exact hwrite.map Reply.config
  | configApply => exact (does_applyConfig interp).map Reply.text
  | hubConfigSet field value => exact ⟨rfl, rfl⟩
  | service address action service characteristic =>
    exact (does_serviceCommand interp address action service characteristic).map Reply.text
  | reset address => exact (does_unsupported interp address "Reset" []).map Reply.text
  | model address detail => exact (does_unsupported interp address "Model" detail).map Reply.text
  | feature address detail =>
    exact (does_unsupported interp address "Feature collection" detail).map Reply.text
  | file address detail =>
    exact (does_unsupported interp address "File transfer" detail).map Reply.text
  | unitspaceStatus => exact ⟨rfl, rfl⟩
  | other answer =>
    have hlift : Does (Piece.lift answer) s s.serial answer := ⟨rfl, rfl⟩
    exact hlift.map Reply.lines

/-- A device of a scan. -/
theorem does_startOrUpdateSession (target : Target) : Does (startOrUpdateSession interp target) s
    (s.serial.scanDevice interp target).1 (s.serial.scanDevice interp target).2 := by
  cases hnorm : normalizeMac target.addressText with
  | error exc =>
    rw [Does, after_of_exec (startOrUpdateSession_error hnorm)]
    simp [Serial.scanDevice, Hub.startOrUpdateSession, hnorm, Serial.retargets, Station.serial]
  | ok a =>
    obtain ⟨s', created, ref, hexec, hcentral, hserial⟩ := exec_ensureTarget (s := s) hnorm
    have hstore : s'.configStore = s.configStore := congrArg (·.hub.configStore) hserial
    simp only [Does, startOrUpdateSession, after_bind, after_lift, hnorm]
    rw [after_of_exec hexec]
    simp only [write, after_act, hstore, Serial.scanDevice, Hub.startOrUpdateSession, hnorm,
      Station.serial_hub, Station.serial_now, Station.hub_central, Station.hub_configStore,
      hcentral]
    have hsaved (configStore : DeviceConfigStore) : { s' with configStore }.serial =
        { s.serial with
          hub.daemon.central := s'.central
          hub.configStore := configStore
          reads := s.reads + (s.serial.retargets target).toNat } :=
      congrArg (fun t : Serial => { t with hub.configStore := configStore }) hserial
    cases ((ConfigWrite.scanned target).apply interp s.configStore).2 with
    | error exc => exact ⟨hsaved _, rfl⟩
    | ok config => exact ⟨hsaved _, rfl⟩

/-- The loop over a scan's devices. -/
theorem serial_forM (devices : List Target) :
    ((devices.forM (startOrUpdateSession interp)).exec s).shared.serial =
      Serial.scan interp devices s.serial := by
  induction devices generalizing s with
  | nil => rfl
  | cons device devices ih =>
    obtain ⟨hserial, hresult⟩ := @does_startOrUpdateSession interp s device
    rw [exec_forM_cons, andThen, hresult, Serial.scan]
    cases (s.serial.scanDevice interp device).2 with
    | error exc => exact hserial
    | ok _ => exact ih.trans (congrArg (Serial.scan interp devices) hserial)

/-! ### Frames -/

theorem exec_registerAlias_eq (mac source : Str) : (registerAlias mac source).exec s =
    match s.central.registry.registerAlias mac source with
    | .error exc => ⟨s, [], .error exc⟩
    | .ok registry => ⟨{ s with central.registry := registry }, [], .ok ()⟩ := by
  simp only [registerAlias, exec_bind, exec_lift, DeviceRegistry.registerAlias]
  cases normalizeMac mac with
  | error exc => rfl
  | ok a =>
    cases normalizeMac source with
    | error exc => rfl
    | ok c => rfl

/-- One command of the estimator. -/
theorem exec_sendCommand (command : CommandEvent) : ∃ s', (do
      let _ ← sendCommand command
      return () : Routine PUnit).exec s =
        ⟨s', [], (s.central.sendCommand command).map fun _ => ()⟩ ∧
    s'.serial = { s.serial with
      hub.daemon.central :=
        ((s.central.sendCommand command).map Prod.fst).toOption.getD s.central } := by
  cases hnorm : normalizeMac command.address with
  | error exc =>
    have hsend : s.central.sendCommand command = .error exc := by
      rw [BleCentral.sendCommand, DeviceRegistry.get, hnorm]
      rfl
    rw [hsend]
    refine ⟨s, ?_, rfl⟩
    simp only [sendCommand, get, exec_bind, exec_lift, hnorm, andThen_error]
    rfl
  | ok a =>
    have hfind : (get command.address).exec s = ⟨s, [], .ok (s.central.registry.find a)⟩ := by
      simp only [get, exec_bind, exec_lift, hnorm, andThen_ok, exec_locked]
    rw [BleCentral.sendCommand_ok hnorm]
    simp only [sendCommand, exec_bind, hfind, andThen_ok]
    cases s.central.registry.find a with
    | none => exact ⟨s, rfl, rfl⟩
    | some ref => exact ⟨_, rfl, rfl⟩

theorem serial_sendCommands (commands : List CommandEvent) :
    ((commands.forM fun command => do
      let _ ← sendCommand command
      return () : Routine PUnit).exec s).shared.serial =
        { s.serial with hub.daemon := (s.hub.daemon.sendCommands commands).daemon } := by
  induction commands generalizing s with
  | nil => rfl
  | cons command commands ih =>
    obtain ⟨s', hexec, hserial⟩ := @exec_sendCommand s command
    rw [exec_forM_cons, hexec, andThen, SlimHubDaemon.sendCommands, Station.hub_central]
    cases hsend : s.central.sendCommand command with
    | error exc =>
      rw [hsend] at hserial
      exact hserial
    | ok sent =>
      obtain ⟨central, ref⟩ := sent
      rw [hsend] at hserial
      have hrest := @ih s'
      have hdaemon : s'.hub.daemon = { s.hub.daemon with central } :=
        congrArg (·.hub.daemon) hserial
      rw [hserial, hdaemon] at hrest
      exact hrest

/-- A frame that is handled. -/
theorem serial_handleFrame (w : Writer) (task : FrameTask) :
    ((handleFrame interp w task).exec s).shared.serial =
      s.serial.handle interp task (s.logger.logRaises w) := by
  simp only [shared_handleFrame, frameEvent, exec_bind, exec_registerAlias_eq, Serial.handle,
    Serial.frameLogged, Serial.frameConfig, Hub.runTask, SlimHubDaemon.runTask, Option.map_some,
    Option.getD_some, SlimHubDaemon.handleFrame, Hub.registry, Station.serial_hub,
    Station.hub_central, Station.hub_configStore]
  cases hregister : s.central.registry.registerAlias task.frame.mac task.source with
  | error exc =>
    simp only [andThen_error, processEvent, exec_bind, exec_modify, andThen_ok, exec_lift]
    rfl
  | ok registry =>
    simp only [andThen_ok, write, exec_bind, exec_act, time]
    cases hwrite : ((ConfigWrite.framed task.frame.mac).apply interp s.configStore).2 with
    | error exc =>
      simp only [andThen_error, processEvent, exec_bind, exec_modify, andThen_ok, exec_lift]
      rfl
    | ok record =>
      simp only [andThen_ok, exec_bind, exec_act, exec_pure, processEvent, exec_modify, exec_lift,
        log, Except.map]
      have hnow : s.serial.now = s.times s.reads := rfl
      cases hraises : s.logger.logRaises w
          (eventOf task.frame (record.config interp) (s.times s.reads)) with
      | some exc =>
        simp only [andThen_error, hnow, hraises]
        rfl
      | none =>
        simp only [andThen_ok, hnow, hraises]
        cases hparsed : task.frame.parsed with
        | alert packet =>
          simp only [eventOf, hparsed, exec_pure]
          rfl
        | rawData packet =>
          simp only [eventOf, hparsed, answerEvent, exec_bind, estimate, exec_act]
          have hestimator : s.hub.daemon.estimator = s.estimator := rfl
          simp only [hestimator]
          cases s.estimator.handle {
              timestamp := s.times s.reads
              mac := task.frame.mac
              location := (record.config interp).location
              packet
              payload := task.frame.payload
              deviceType := (record.config interp).type } with
          | error exc => rfl
          | ok answer =>
            simp only [andThen_ok, serial_sendCommands]
            rfl

/-! ### All pieces -/

/-- Nothing that the serial daemon keeps is changed, and nothing that comes from the nodes. -/
structure Idle (s t : Station) : Prop where
  serial : t.serial = s.serial
  connections : t.connections = s.connections
  completed : t.history.completed = s.history.completed

instance : Std.Refl Idle := ⟨fun _ => ⟨rfl, rfl, rfl⟩⟩
instance : IsTrans Station Idle := ⟨fun _ _ _ h h' => ⟨h'.serial.trans h.serial,
  h'.connections.trans h.connections, h'.completed.trans h.completed⟩⟩

/-- The piece is idle; which tasks it makes and where it goes on does not matter here. -/
abbrev Idles (c : Routine (Rest Point Answer)) : Prop :=
  c.Guarantees Idle (fun _ => True) (·.Leads fun _ => True)

/-- What comes after a piece and is idle does not matter. -/
theorem Does.then_idle {α : Type} {c : Routine α} {f : α → Routine (Rest Point Answer)} {t : Serial}
    {r : Except PyError α} (h : Does c s t r) (hf : ∀ a, Idles (f a)) :
    ((c >>= f).exec s).shared.serial = t := by
  rw [exec_bind, andThen, h.2]
  cases r with
  | error exc => exact h.1
  | ok a => exact ((hf a).shared _).serial.trans h.1

theorem idles_waitThen (point : Point) : Idles (waitThen point) := guarantees_waitThen trivial

theorem idles_returnStop (ref : SessionRef) : Idles (returnStop ref) :=
  (guarantees_modify fun _ => ⟨rfl, rfl, rfl⟩).bind fun _ => guarantees_pure trivial

theorem idles_sessionAt (ref : SessionRef) :
    (sessionAt ref).Guarantees Idle (fun _ => True) fun _ => True := by
  refine guarantees_get.bind fun self => ?_
  cases self.central.sessions[ref]? with
  | none => exact guarantees_lift _
  | some session => exact guarantees_return _

theorem idles_finish (raised : Option PyError) : Idles (finish raised) := by
  refine (guarantees_modify fun _ => ⟨rfl, rfl, rfl⟩).bind fun _ => ?_
  cases raised with
  | none => exact guarantees_pure trivial
  | some exc => exact guarantees_raise exc

theorem idles_unlinkSocket : Idles unlinkSocket := by
  refine guarantees_get.bind fun self => ?_
  cases self.unlinkError with
  | some exc => exact idles_finish _
  | none => exact (guarantees_modify fun _ => ⟨rfl, rfl, rfl⟩).bind fun _ => idles_finish none

theorem idles_joinLogger : Idles joinLogger := by
  refine guarantees_get.bind fun self => ?_
  rcases self.logger.stopped.getLast? with _ | _ | exc
  · exact idles_waitThen .loggerStopped
  · cases self.awaitsClients with
    | true => exact idles_waitThen .serverClosed
    | false => exact idles_unlinkSocket
  · exact idles_finish _

theorem idles_joinSessions : Idles joinSessions := by
  refine guarantees_get.bind fun self => ?_
  split
  · exact (guarantees_modify fun _ => ⟨rfl, rfl, rfl⟩).bind fun _ => idles_joinLogger
  · exact idles_waitThen .sessionsStopped

theorem idles_stopAll : Idles stopAll := by
  refine Guarantees.bind (guarantees_locked fun _ => ⟨rfl, rfl, rfl⟩) fun sessions => ?_
  exact Guarantees.bind (guarantees_forM (fun ref => guarantees_create trivial) sessions)
    fun _ => idles_joinSessions

theorem idles_serve (scan : Bool) : Idles (serve scan) := by
  refine guarantees_get.bind fun self => ?_
  split
  · exact idles_waitThen (.stopping scan)
  · cases scan with
    | true => exact (guarantees_modify fun _ => ⟨rfl, rfl, rfl⟩).bind fun _ => idles_waitThen .scanEnded
    | false => exact idles_stopAll

/-- `run` from where the tasks are started. -/
theorem idles_startScan (scan : Bool) : Idles (do startScan scan; serve scan) := by
  refine Guarantees.bind ?_ fun _ => idles_serve scan
  cases scan with
  | true => exact guarantees_create trivial
  | false => exact guarantees_return _

theorem serial_startUp (w : Writer) (address : Option Str) (scan : Bool) :
    ((startUp interp w address scan).exec s).shared.serial =
      (operations w s (.inl (.main address scan))).foldl (Serial.perform interp) s.serial := by
  cases hensure : (w.ensure s.logger.disk).1 with
  | some exc =>
    simp only [startUp, exec_bind, exec_act, operations, hensure, andThen_error]
    rfl
  | none =>
    simp only [startUp, exec_bind, exec_act, operations, hensure, andThen_ok]
    cases hload : (s.hubConfigStore.loadOrCreate interp).2 with
    | error exc =>
      simp only [andThen_error]
      rfl
    | ok config =>
      simp only [andThen_ok, exec_bind, exec_act]
      split
      · rfl
      · rfl

/-- Every piece does what the operations noted for it do. -/
theorem serial_body (w : Writer) (s : Station) (point : Point) :
    ((body interp w point).exec s).shared.serial =
      (operations w s (.inl point)).foldl (Serial.perform interp) s.serial := by
  cases point with
  | main address scan => exact serial_startUp interp w address scan
  | serving address scan =>
    cases address with
    | none => exact ((idles_startScan scan).shared s).serial
    | some address =>
      simp only [body, connectAtStart, operations]
      split
      · exact ((idles_startScan scan).shared s).serial
      · exact ((does_connectAddress interp address).map fun _ => ()).then_idle
          fun _ => idles_startScan scan
  | stopping scan => exact ((idles_serve scan).shared s).serial
  | scanEnded => exact (idles_stopAll.shared s).serial
  | sessionsStopped => exact (idles_joinSessions.shared s).serial
  | loggerStopped => exact (idles_joinLogger.shared s).serial
  | serverClosed => exact (idles_unlinkSocket.shared s).serial
  | scan =>
    simp only [body, scanLoop, exec_bind, exec_get, andThen_ok]
    split <;> rfl
  | scanned found =>
    simp only [body, scanRound, exec_bind, exec_get, andThen_ok]
    cases hcancelled : s.scanCancelled with
    | true => cases found <;> simp [operations, hcancelled]
    | false =>
      cases found with
      | error exc => rfl
      | ok devices =>
        have hforM := @serial_forM interp s devices
        simpa [operations, hcancelled, connectedSessionCount, listStatus, exec_bind, andThen,
          waitThen, Serial.perform] using hforM
  | client => rfl
  | request request =>
    obtain ⟨hserial, hresult⟩ := @does_dispatch interp s request
    simp only [body, handleClient, exec_bind, exec_attempt, andThen, exec_modify, exec_pure,
      hresult]
    exact congrArg (fun t : Serial => { t with answers := t.answers ++
      [(s.serial.answer interp request).2] }) hserial
  | frame task =>
    rw [(exec_body_frame interp w task s).1]
    exact serial_handleFrame interp w task
  | session ref => rfl
  | stopSession ref =>
    have hmodify : Does (Piece.modify (·.withSession ref fun session =>
        { session with stopRequested := true })) s (s.serial.perform interp (.stopSession ref))
          (.ok ()) := ⟨rfl, rfl⟩
    refine hmodify.then_idle fun _ => (idles_sessionAt ref).bind fun session => ?_
    split
    · exact idles_waitThen (.sessionStopped ref)
    · exact idles_returnStop ref
  | sessionStopped ref =>
    simp only [body, exec_bind, exec_modify, andThen_ok]
    exact ((idles_returnStop ref).shared _).serial

end Daemon

variable (interp : Interpreter)

/-- A callback does too. -/
theorem serial_callback (w : Writer) (s : Station) (cb : Callback) :
    (callback w cb s).1.serial =
      (operations w s (.inr cb)).foldl (Serial.perform interp) s.serial := by
  cases cb with
  | notify connection data =>
    simp only [callback, notified]
    cases s.connections[connection]? with
    | none => rfl
    | some entry => cases hsession : s.central.sessions[entry.1]? <;> simp only [hsession] <;> rfl
  | client line => cases line <;> rfl
  | _ => rfl

theorem serial_follows (w : Writer) : Follows (Daemon.body interp w) (callback w) Station.serial
    (Serial.perform interp) (operations w) where
  piece := Daemon.serial_body interp w
  call := serial_callback interp w

/-- CORRECT: the daemon's tasks do together what the serial daemon does. In every run, whatever
    turns the tasks take, the sessions, the registry, the estimator, the configs and the answers to
    clients are those of the serial daemon after the run's operations, in the order in which they
    ran. (In both, a config's type, name or location that is no string is its text.) -/
theorem tasks_are_serial (interp : Interpreter) (w : Writer) (station : Station)
    (address : Option Str) (scan : Bool) (events : List (Event Answer Callback))
    (L : Loop Station Point PyError Answer)
    (hrun : Machine.run (Daemon.loopStep interp w) events (station.launch address scan) = some L) :
    L.shared.serial = (Loop.journal (Daemon.body interp w) (callback w) (operations w) events
      (station.launch address scan)).foldl (Serial.perform interp) station.serial :=
  Loop.run_journal (A := station.launched address scan) (serial_follows interp w) hrun

/-- Two clients connect to one device while a scan finds it: both get an answer. -/
theorem connectTwice_serial : ∃ L,
    Machine.run (Daemon.loopStep freshInterpreter openDisk) connectTwice
      (freshStation.launch none true) = some L ∧
    L.shared.serial = (Loop.journal (Daemon.body freshInterpreter openDisk) (callback openDisk)
      (operations openDisk) connectTwice (freshStation.launch none true)).foldl
        (Serial.perform freshInterpreter) freshStation.serial ∧
    L.shared.serial.answers.length = 2 := by
  have hstate : (Machine.run (Daemon.loopStep freshInterpreter openDisk) connectTwice
      (freshStation.launch none true)).map (fun L => decide
        (L.shared.history.answers.length = 2)) = some true := by decide +kernel
  obtain ⟨L, hrun, hanswers⟩ := Option.map_eq_some_iff.mp hstate
  exact ⟨L, hrun, tasks_are_serial freshInterpreter openDisk _ _ _ _ L hrun,
    of_decide_eq_true hanswers⟩

end SlimHub
