import SlimHub.Answers
import SlimHub.ConfigUpdate
import SlimHub.Logging.Delivery
import SlimHub.NoOrphans

/-! One reply to every line.

        raised inside the try ──▶ an error text, without surrogates ──▶ written
        a value with surrogates, or nested too deeply ──▶ raised outside of it: no reply

    Requests echo texts of the client, and statuses and configs hold texts of devices and of files:
    `Answerable` says of each command when its answer is one that can be written down. -/

namespace SlimHub
open Text Nus Json Ble Unitspace Asyncio LineReader Logging

variable {rt : Runtime}

/-! ### The reply to a line -/

/-- The client got one line with one object that has the keys of a reply, and the connection was
    closed. -/
def Replied (rt : Runtime) (result : Except PyError Connection) : Prop :=
  ∃ ok data error line, utf8Decode line = some (text rt.floatRepr (envelope ok data error)) ∧
    lineFeed ∉ line ∧ result = .ok { sent := line ++ [lineFeed], closed := true }

section
variable {paths : AppPaths} {mtime : Files.Path → ℚ}

theorem result_handleStream (self : Station) (line : Except Overrun Bytes) :
    ((Daemon.handleStream rt paths mtime line).exec self).result =
      (encodeLine rt (response rt ((Daemon.dispatch rt.toInterpreter
        (requestOf rt paths mtime self line)).exec self).result)).map
          fun reply => { sent := reply, closed := true } := by
  simp only [Daemon.handleStream, Piece.exec_bind, Piece.exec_get, Piece.exec_attempt,
    Piece.andThen, Piece.exec_modify, Piece.exec_lift]
  cases encodeLine rt (response rt ((Daemon.dispatch rt.toInterpreter
    (requestOf rt paths mtime self line)).exec self).result) <;> rfl

/-- The reply is there just when the answer can be written down. -/
theorem replied_iff (self : Station) (line : Except Overrun Bytes) :
    Replied rt ((Daemon.handleStream rt paths mtime line).exec self).result ↔
      Delivers rt ((Daemon.dispatch rt.toInterpreter
        (requestOf rt paths mtime self line)).exec self).result := by
  rw [result_handleStream]
  generalize ((Daemon.dispatch rt.toInterpreter
    (requestOf rt paths mtime self line)).exec self).result = answer
  constructor
  · rintro ⟨_, _, _, _, _, _, hresult⟩
    by_contra hdeliver
    obtain ⟨exc, hexc⟩ := encodeLine_error hdeliver
    rw [hexc] at hresult
    cases hresult
  · intro hdeliver
    obtain ⟨sent, hsent, hfeed, hdecode⟩ := encodeLine_ok hdeliver
    cases answer with
    | ok reply => exact ⟨_, _, _, sent, hdecode, hfeed, by rw [hsent]; rfl⟩
    | error exc => exact ⟨_, _, _, sent, hdecode, hfeed, by rw [hsent]; rfl⟩

end

/-! ### Which answers can be written -/

namespace Station

variable (rt : Runtime) (self : Station)

/-- The session that an address has, or that a connect request makes for it, with its name. -/
def sessionFor (address : Str) : Option (SessionRef × Str) :=
  match self.central.registry.find address with
  | none => some (self.central.sessions.length, [])
  | some ref => self.central.sessions[ref]?.map fun session => (ref, session.name)

/-- What the device list shows under an address: the last session that has it, and the last config
    that resolves to it. -/
def Listed (configs : List DeviceRecord) (key : Str) : Prop :=
  (∀ row, ((self.hub.listStatus self.links).filter (·.address = key)).getLast? = some row →
    RowClean row) ∧
  ∀ config, (configs.filter fun config =>
    canonical self.central.registry config.address = key).getLast? = some config →
      noSurrogate key = true ∧ ConfigWrites rt config

/-- The answer to a request can be written down: what it echoes, and what it shows of sessions,
    configs and the estimator, holds no surrogate and does not nest too deeply. -/
def Answerable : Request → Prop
  | .stop => True
  | .devices => ∀ configs, self.configStore.listAll rt.toInterpreter = .ok configs →
      ∀ key, self.Listed rt configs key
  | .connect address => ∀ a, normalizeMac address = .ok a →
      ∀ session, self.sessionFor a = some session →
      -- where the config cannot be saved, the answer is an error
      (∃ config, ((ConfigWrite.connected a session.2).apply rt.toInterpreter
        self.configStore).2 = .ok config) →
      noSurrogate session.2 = true ∧ (self.links session.1).2.all noSurrogate = true
  | .commandSend address command => ∀ text, address = .str text → text ≠ [] →
      ∀ a, normalizeMac text = .ok a → ∀ c, command = .str c → c ∈ validCommands →
      ∀ ref, self.central.registry.find a = some ref →
      ∀ config, self.configStore.load rt.toInterpreter a = .ok config →
      ∀ session, self.central.sessions[ref]? = some session →
      StatusClean (session.status (self.links ref).1 (self.links ref).2)
  | .configSet address field value => field ∈ DeviceConfigStore.fields → ∀ config,
      self.configStore.load rt.toInterpreter address = .ok config →
      Storable rt.toInterpreter (DeviceConfigStore.assign config field value).members →
      membersNesting (DeviceConfigStore.assign config field value).members ≤ rt.innerDepth + 2
  | .configApply => True
  | .hubConfigSet field value => field ∈ HubConfigStore.fields → ∀ config,
      (self.hubConfigStore.loadOrCreate rt.toInterpreter).2 = .ok config →
      Storable rt.toInterpreter (HubConfigStore.assign config field value).members →
      membersNesting (HubConfigStore.assign config field value).members ≤ rt.innerDepth + 2
  | .service address action service characteristic =>
      ∀ a, normalizeMac (textOf rt address) = .ok a →
      ∀ ref, self.central.registry.find a = some ref → (self.links ref).1 = true →
      (textOf rt action ∈ [str "enable", str "disable", str "activate", str "deactivate"] →
        noSurrogate (textOf rt service) = true) ∧
      (textOf rt action ∈ [str "enable", str "disable"] →
        ∀ value ∈ characteristic, noSurrogate (textOf rt value) = true)
  | .reset _ => True
  | .model address detail => ∀ a, normalizeMac (textOf rt address) = .ok a →
      self.central.registry.find a ≠ none → noSurrogate detail = true
  | .feature address detail => ∀ a, normalizeMac (textOf rt address) = .ok a →
      self.central.registry.find a ≠ none → noSurrogate detail = true
  | .file address detail => ∀ a, normalizeMac (textOf rt address) = .ok a →
      self.central.registry.find a ≠ none → noSurrogate detail = true
  | .unitspaceStatus => self.estimator.lastAddress.all noSurrogate = true ∧
      self.estimator.lastLocation.all noSurrogate = true
  | .other _ => True

end Station

/-! ### Every command -/

namespace Daemon
open Piece Station

variable (self : Station)

/-- The answer that a piece comes to can be written down. -/
abbrev Comes (rt : Runtime) (c : Routine Reply) (self : Station) : Prop :=
  c.After self fun answer _ => Delivers rt answer

/-- What `normalize_mac` raises can be written down. -/
theorem delivers_of_normalizeMac {mac : Str} {exc : PyError} (h : normalizeMac mac = .error exc) :
    Delivers rt (.error exc) :=
  delivers_error (tidy_normalizeMac mac exc h)

theorem delivers_text {parts : List Part} :
    Delivers rt (.ok (.text parts)) ↔ ∀ part ∈ parts, part.Clean := by
  rw [delivers_ok, dataOf, writes_str, noSurrogate_messageText]

/-- `DeviceRegistry.get` of a normalised address. -/
theorem after_find {a : Str} (hidem : normalizeMac a = .ok a)
    {Q : Except PyError (Option SessionRef) → Station → Prop} :
    (get a).After self Q ↔ Q (.ok (self.central.registry.find a)) self := by
  simp [get, hidem]

theorem comes_unsupported (address : Value) (commandName : String) (detail : Str) :
    Comes rt (do return .text (← unsupportedDeviceCommand rt.toInterpreter address commandName
      detail)) self ↔ ∀ a, normalizeMac (textOf rt address) = .ok a →
        self.central.registry.find a ≠ none → noSurrogate detail = true := by
  cases hnorm : normalizeMac (textOf rt address) with
  | error exc =>
    simp [Comes, unsupportedDeviceCommand, hnorm, delivers_of_normalizeMac hnorm]
  | ok a =>
    have ha := noSurrogate_of_normalizeMac hnorm
    cases hfind : self.central.registry.find a with
    | none =>
      simp [Comes, unsupportedDeviceCommand, hnorm, after_find, normalizeMac_idem hnorm, hfind,
        delivers_text, Part.Clean, ha]
    | some ref =>
      by_cases hdetail : detail = []
      · simp [Comes, unsupportedDeviceCommand, hnorm, after_find, normalizeMac_idem hnorm, hfind,
          delivers_text, Part.Clean, hdetail]
      · simp [Comes, unsupportedDeviceCommand, hnorm, after_find, normalizeMac_idem hnorm, hfind,
          delivers_text, Part.Clean, hdetail]

theorem comes_service (address action service : Value) (characteristic : Option Value) :
    Comes rt (dispatch rt.toInterpreter (.service address action service characteristic)) self ↔
      self.Answerable rt (.service address action service characteristic) := by
  have hdistinct : str "enable" ≠ str "disable" ∧ str "enable" ≠ str "activate" ∧
      str "enable" ≠ str "deactivate" ∧ str "disable" ≠ str "activate" ∧
      str "disable" ≠ str "deactivate" ∧ str "activate" ≠ str "deactivate" := by decide
  cases hnorm : normalizeMac (textOf rt address) with
  | error exc =>
    simp [Comes, dispatch, Answerable, serviceCommand, hnorm, delivers_of_normalizeMac hnorm]
  | ok a =>
    have ha := noSurrogate_of_normalizeMac hnorm
    cases hfind : self.central.registry.find a with
    | none =>
      simp [Comes, dispatch, Answerable, serviceCommand, hnorm, after_find, normalizeMac_idem hnorm, hfind,
        delivers_text, Part.Clean, ha]
    | some ref =>
      cases hconnected : (self.links ref).1 with
      | false =>
        simp [Comes, dispatch, Answerable, serviceCommand, hnorm, after_find, normalizeMac_idem hnorm,
          hfind, hconnected, delivers_text, Part.Clean, ha]
      | true =>
        have hcharacteristic :
            noSurrogate ((characteristic.map (textOf rt)).getD []) = true ↔
              ∀ value ∈ characteristic, noSurrogate (textOf rt value) = true := by
          cases characteristic <;> simp
        by_cases henable : textOf rt action = str "enable"
        · simp [Comes, dispatch, Answerable, serviceCommand, hnorm, after_find, normalizeMac_idem hnorm,
            hfind, hconnected, henable, delivers_text, Part.Clean, ha, hcharacteristic]
        by_cases hdisable : textOf rt action = str "disable"
        · simp [Comes, dispatch, Answerable, serviceCommand, hnorm, after_find, normalizeMac_idem hnorm,
            hfind, hconnected, hdisable, hdistinct.1.symm, delivers_text, Part.Clean, ha,
            hcharacteristic]
        by_cases hactivate : textOf rt action = str "activate"
        · simp [Comes, dispatch, Answerable, serviceCommand, hnorm, after_find, normalizeMac_idem hnorm,
            hfind, hconnected, hactivate, hdistinct.2.1.symm, hdistinct.2.2.2.1.symm,
            delivers_text, Part.Clean, ha]
        by_cases hdeactivate : textOf rt action = str "deactivate"
        · simp [Comes, dispatch, Answerable, serviceCommand, hnorm, after_find, normalizeMac_idem hnorm,
            hfind, hconnected, hdeactivate, hdistinct.2.2.1.symm, hdistinct.2.2.2.2.1.symm,
            hdistinct.2.2.2.2.2.symm, delivers_text, Part.Clean, ha]
        · have hclean : PyError.Clean ⟨.valueError,
              [.lit "service action must be enable, disable, activate or deactivate"]⟩ :=
            clean_lit (by simp)
          simp [Comes, dispatch, Answerable, serviceCommand, hnorm, after_find, normalizeMac_idem hnorm,
            hfind, hconnected, henable, hdisable, hactivate, hdeactivate, delivers_error hclean]

theorem after_of_exec {α : Type} {c : Routine α} {s t : Station} {created : List Point}
    {result : Except PyError α} (h : c.exec s = ⟨t, created, result⟩)
    {Q : Except PyError α → Station → Prop} : c.After s Q ↔ Q result t := by
  rw [After, h]

theorem delivers_session (status : SessionStatus) :
    Delivers rt (.ok (.session status)) ↔ StatusClean status := by
  rw [delivers_ok]
  exact writes_status status

theorem delivers_command (reply : CommandReply) : Delivers rt (.ok (.command reply)) ↔
    noSurrogate reply.address = true ∧ noSurrogate reply.command = true ∧
      StatusClean reply.session := by
  rw [delivers_ok, dataOf, commandValue, writes_obj, ← @writes_status rt (rt.innerDepth + 1)]
  simp [noSurrogate_str]

/-- A connect request that has its session: the config is saved, and the status is the answer. -/
theorem comes_connected {address a : Str} {t : Station} {created : List Point} {ref : SessionRef}
    {session : DeviceSession} (hnorm : normalizeMac address = .ok a)
    (hensure : (ensureTarget (.text a)).exec self = ⟨t, created, .ok ref⟩)
    (hsession : t.central.sessions[ref]? = some session) (haddress : session.address = a) :
    Comes rt (dispatch rt.toInterpreter (.connect address)) self ↔
      ((∃ config, ((ConfigWrite.connected a session.name).apply rt.toInterpreter
        t.configStore).2 = .ok config) →
      noSurrogate session.name = true ∧ (t.links ref).2.all noSurrogate = true) := by
  have hclean : noSurrogate session.address = true := haddress ▸ noSurrogate_of_normalizeMac hnorm
  have hidem := normalizeMac_idem hnorm
  have htidy := @tidy_apply rt t.configStore (.connected a session.name)
  simp only [Comes, dispatch, connectAddress, ensureAddress, after_bind, after_lift, hnorm, hidem]
  rw [after_of_exec hensure]
  cases hwrite : ((ConfigWrite.connected a session.name).apply rt.toInterpreter t.configStore).2 with
  | error exc =>
    simp [sessionAt, hsession, write, hwrite, delivers_error (htidy exc hwrite)]
  | ok config =>
    simp [sessionAt, hsession, write, hwrite, delivers_session, StatusClean, DeviceSession.status,
      hclean]

theorem comes_connect (address : Str) :
    Comes rt (dispatch rt.toInterpreter (.connect address)) self ↔
      self.Answerable rt (.connect address) := by
  cases hnorm : normalizeMac address with
  | error exc =>
    simp [Comes, dispatch, Answerable, connectAddress, hnorm, delivers_of_normalizeMac hnorm]
  | ok a =>
    have hidem : normalizeMac (Target.text a).addressText = .ok a := normalizeMac_idem hnorm
    cases hfind : self.central.registry.find a with
    | none =>
      have hsession : (self.central.ensureTarget (.text a)
          (self.times self.reads)).1.sessions[self.central.sessions.length]? =
            some (DeviceSession.start { target := .text a, address := a, name := [] }) := by
        rw [BleCentral.ensureTarget_new hidem hfind]
        exact List.getElem?_concat_length
      rw [comes_connected self hnorm (exec_ensureTarget_new hidem hfind) hsession
        (DeviceSession.start_address _)]
      simp [Answerable, hnorm, sessionFor, hfind, DeviceSession.start]
    | some ref =>
      cases hat : self.central.sessions[ref]? with
      | none =>
        have hensure := @exec_ensureTarget_found self (.text a) a ref hidem hfind
        have hgone : (self.central.ensureTarget (.text a)
            (self.times self.reads)).1.sessions[ref]? = none := by
          rw [BleCentral.ensureTarget_found hidem hfind, List.getElem?_modify, hat]
          rfl
        simp only [Comes, dispatch, connectAddress, ensureAddress, after_bind, after_lift, hnorm,
          normalizeMac_idem hnorm]
        rw [after_of_exec hensure]
        simp [sessionAt, hgone, Answerable, hnorm, sessionFor, hfind, hat,
          delivers_error (clean_silent _)]
      | some session =>
        have hsession : (self.central.ensureTarget (.text a)
            (self.times self.reads)).1.sessions[ref]? =
              some (session.updateTarget (.text a) (self.times self.reads)).1 := by
          rw [BleCentral.ensureTarget_found hidem hfind, List.getElem?_modify, hat]
          simp
        have hupdated := session.updateTarget_ok (self.times self.reads) hidem
        rw [comes_connected self hnorm (exec_ensureTarget_found hidem hfind) hsession hupdated.2.1]
        have hname : (session.updateTarget (.text a) (self.times self.reads)).1.name =
            session.name := by
          rw [DeviceSession.updateTarget, hidem]
          rfl
        simp [Answerable, hnorm, sessionFor, hfind, hat, hname]

/-- A command that is sent: what it carries is clean, so all depends on the session's status. -/
theorem comes_validCommand {address command a : Str} (hne : address ≠ [])
    (hnorm : normalizeMac address = .ok a) (hvalid : command ∈ validCommands) :
    Comes rt (dispatch rt.toInterpreter (.commandSend (.str address) (.str command))) self ↔
      ∀ ref, self.central.registry.find a = some ref →
      ∀ config, self.configStore.load rt.toInterpreter a = .ok config →
      ∀ session, self.central.sessions[ref]? = some session →
      StatusClean (session.status (self.links ref).1 (self.links ref).2) := by
  have ha := noSurrogate_of_normalizeMac hnorm
  have hidem := normalizeMac_idem hnorm
  have hnone : PyError.Clean ⟨.valueError,
      [.lit "no active device session for address: ", .str a]⟩ := clean_lit (by simp [ha])
  have hvalidated : validateCommand command =
      .ok ((commandAliases.lookup command).getD command) := if_neg (not_not_intro hvalid)
  have hsent : noSurrogate ((commandAliases.lookup command).getD command) = true := by
    have hall : validCommands.all (fun command =>
        noSurrogate ((commandAliases.lookup command).getD command)) = true := by decide
    exact List.all_eq_true.mp hall command hvalid
  simp only [Comes, dispatch, manualCommand, after_bind, after_lift, if_neg hne, hnorm, hvalidated,
    after_find self hidem]
  cases hfind : self.central.registry.find a with
  | none => simp [delivers_error hnone]
  | some ref =>
    cases hload : self.configStore.load rt.toInterpreter a with
    | error exc => simp [hload, delivers_error (tidy_load _ _ exc hload)]
    | ok config =>
      cases hat : self.central.sessions[ref]? with
      | none =>
        simp [hload, sendCommand, after_find self hidem, hfind, Station.withSession, sessionAt, hat,
          delivers_error (clean_silent _)]
      | some session =>
        simp [hload, sendCommand, after_find self hidem, hfind, Station.withSession, sessionAt, hat,
          delivers_command, ha, hsent, StatusClean, DeviceSession.status,
          DeviceSession.sendCommand]

theorem comes_commandSend (address command : Value) :
    Comes rt (dispatch rt.toInterpreter (.commandSend address command)) self ↔
      self.Answerable rt (.commandSend address command) := by
  have hrequired : PyError.Clean ⟨.valueError, [.lit "address is required"]⟩ := clean_lit (by simp)
  have hcommands : PyError.Clean ⟨.valueError, [.lit "command must be one of: strong_enter, strong_exit, weak_enter, weak_exit, default_action, enter, exit"]⟩ :=
    clean_lit (by simp)
  cases address with
  | str address =>
    by_cases hempty : address = []
    · simp [Comes, dispatch, manualCommand, Answerable, hempty, delivers_error hrequired]
    cases command with
    | str command =>
      cases hnorm : normalizeMac address with
      | error exc =>
        simp [Comes, dispatch, manualCommand, Answerable, hempty, hnorm,
          delivers_of_normalizeMac hnorm]
      | ok a =>
        by_cases hvalid : command ∈ validCommands
        · rw [comes_validCommand self hempty hnorm hvalid]
          simp [Answerable, hempty, hnorm, hvalid]
        · have hinvalid : validateCommand command = .error ⟨.valueError, [.lit "command must be one of: strong_enter, strong_exit, weak_enter, weak_exit, default_action, enter, exit"]⟩ :=
            if_pos hvalid
          simp [Comes, dispatch, manualCommand, Answerable, hempty, hnorm, hvalid, hinvalid,
            delivers_error hcommands]
    | _ => simp [Comes, dispatch, manualCommand, Answerable, hempty, delivers_error hcommands]
  | _ => simp [Comes, dispatch, manualCommand, Answerable, delivers_error hrequired]

/-- What was saved is clean, but may nest too deeply for a reply. -/
theorem writes_saved {members : List (Str × Value)} (h : Storable rt.toInterpreter members) :
    Writes (rt.innerDepth + 3) (.obj members) ↔ membersNesting members ≤ rt.innerDepth + 2 := by
  rw [writes_obj, ← writes_members]
  exact and_iff_left h.2.2

theorem comes_configSet (address field value : Str) :
    Comes rt (dispatch rt.toInterpreter (.configSet address field value)) self ↔
      self.Answerable rt (.configSet address field value) := by
  have htidy := @tidy_setField rt self.configStore address field value
  have hcomes : Comes rt (dispatch rt.toInterpreter (.configSet address field value)) self ↔
      Delivers rt ((self.configStore.setField rt.toInterpreter address field value).2.map
        Reply.config) := by
    cases h : (self.configStore.setField rt.toInterpreter address field value).2 with
    | error exc => simp [Comes, dispatch, write, ConfigWrite.apply, h, Except.map]
    | ok config => simp [Comes, dispatch, write, ConfigWrite.apply, h, Except.map]
  rw [hcomes]
  by_cases hfield : field ∈ DeviceConfigStore.fields
  · cases hload : self.configStore.load rt.toInterpreter address with
    | error exc =>
      have hset : (self.configStore.setField rt.toInterpreter address field value).2 =
          .error exc := by
        simp [DeviceConfigStore.setField, hfield, hload]
      simp [hset, Except.map, delivers_error (htidy exc hset), Answerable, hload]
    | ok config =>
      have hfilled := DeviceConfigStore.assign_filled rt.toInterpreter field value
        (DeviceConfigStore.load_ok rt.toInterpreter self.configStore address hload).1
      have hset := DeviceConfigStore.setField_ok rt.toInterpreter self.configStore address field
        value hfield hload
      have hsave := DeviceConfigStore.save_filled rt.toInterpreter self.configStore hfilled
      by_cases hstorable :
          Storable rt.toInterpreter (DeviceConfigStore.assign config field value).members
      · have hok := (writeMembers_ok_iff rt.toInterpreter _).mpr hstorable
        simp only [hset, hsave, hok, Except.map, delivers_ok, dataOf, writes_saved hstorable]
        simp [Answerable, hfield, hload, hstorable]
      · obtain ⟨exc, hexc⟩ := (DeviceConfigStore.save_error_iff rt.toInterpreter self.configStore
          hfilled).mpr hstorable
        rw [hset] at htidy ⊢
        simp [hexc, Except.map, delivers_error (htidy exc hexc), Answerable, hload, hstorable]
  · have hset : ∃ exc, (self.configStore.setField rt.toInterpreter address field value).2 =
        .error exc := ⟨_, by simp [DeviceConfigStore.setField, hfield]; rfl⟩
    obtain ⟨exc, hexc⟩ := hset
    simp [hexc, Except.map, delivers_error (htidy exc hexc), Answerable, hfield]

theorem comes_hubConfigSet (field value : Str) :
    Comes rt (dispatch rt.toInterpreter (.hubConfigSet field value)) self ↔
      self.Answerable rt (.hubConfigSet field value) := by
  have htidy := @tidy_hubSetField rt self.hubConfigStore field value
  have hcomes : Comes rt (dispatch rt.toInterpreter (.hubConfigSet field value)) self ↔
      Delivers rt ((self.hubConfigStore.setField rt.toInterpreter field value).2.map
        Reply.hubConfig) := by
    simp [Comes, dispatch]
  rw [hcomes]
  by_cases hfield : field ∈ HubConfigStore.fields
  · cases hload : (self.hubConfigStore.loadOrCreate rt.toInterpreter).2 with
    | error exc =>
      have hset := HubConfigStore.setField_error rt.toInterpreter self.hubConfigStore field value
        hfield hload
      rw [hset] at htidy ⊢
      simp [Except.map, delivers_error (htidy exc rfl), Answerable, hload]
    | ok config =>
      have hset := HubConfigStore.setField_ok rt.toInterpreter self.hubConfigStore field value
        hfield hload
      rw [hset] at htidy ⊢
      by_cases hstorable :
          Storable rt.toInterpreter (HubConfigStore.assign config field value).members
      · have hok := (writeMembers_ok_iff rt.toInterpreter _).mpr hstorable
        simp only [HubConfigStore.save, hok, Except.map, delivers_ok, dataOf,
          writes_saved hstorable]
        simp [Answerable, hfield, hload, hstorable]
      · obtain ⟨exc, hexc⟩ := (HubConfigStore.save_error_iff rt.toInterpreter _).mpr hstorable
        simp [hexc, Except.map, delivers_error (htidy exc hexc), Answerable, hload, hstorable]
  · have hset : ∃ exc, (self.hubConfigStore.setField rt.toInterpreter field value).2 =
        .error exc := ⟨_, by simp [HubConfigStore.setField, hfield]; rfl⟩
    obtain ⟨exc, hexc⟩ := hset
    simp [hexc, Except.map, delivers_error (htidy exc hexc), Answerable, hfield]

/-- One config in the device list. -/
theorem exec_shownAt (statuses : Dict Str DeviceRow) (config : DeviceRecord) :
    (do
      let canonical ← resolveAddress config.address
      return shownAt statuses canonical config : Routine (Dict Str DeviceRow)).exec self =
      ⟨self, [], Hub.showConfig self.central.registry statuses config⟩ := by
  rw [exec_bind, resolveAddress, exec_bind, exec_lift, Hub.showConfig,
    DeviceRegistry.resolveAddress]
  cases normalizeMac config.address with
  | error exc => rfl
  | ok a => rfl

theorem exec_foldlM_shown (configs : List DeviceRecord) (statuses : Dict Str DeviceRow) :
    (configs.foldlM (fun statuses config => do
      let canonical ← resolveAddress config.address
      return shownAt statuses canonical config) statuses : Routine (Dict Str DeviceRow)).exec self =
      ⟨self, [], configs.foldlM (Hub.showConfig self.central.registry) statuses⟩ := by
  induction configs generalizing statuses with
  | nil => rfl
  | cons config configs ih =>
    rw [List.foldlM_cons, exec_bind, exec_shownAt, List.foldlM_cons]
    cases Hub.showConfig self.central.registry statuses config with
    | error exc => rfl
    | ok statuses => exact ih statuses

theorem exec_devicesPayload (interp : Interpreter) : (devicesPayload interp).exec self =
    ⟨self, [], self.hub.devicesPayload interp self.links⟩ := by
  have hstore : self.hub.configStore = self.configStore := rfl
  have hregistry : self.hub.registry = self.central.registry := rfl
  rw [devicesPayload, listStatus, exec_bind, exec_locked, andThen_ok, exec_bind, exec_get,
    andThen_ok, exec_bind, exec_lift, Hub.devicesPayload, hstore, hregistry]
  cases self.configStore.listAll interp with
  | error exc => rfl
  | ok configs =>
    rw [andThen_ok, exec_bind, exec_foldlM_shown]
    change _ = (⟨self, [], configs.foldlM (Hub.showConfig self.central.registry) _ >>= _⟩ :
      Ran Station Point PyError (List DeviceRow))
    cases configs.foldlM (Hub.showConfig self.central.registry) _ with
    | error exc => rfl
    | ok statuses => rfl

/-- The rows that the device list comes to, in terms of what is listed under an address. -/
theorem listed_iff {configs : List DeviceRecord}
    (hnorm : ∀ config ∈ configs, normalizeMac config.address = .ok config.address) (key : Str) :
    (∀ row, (configs.foldl (shown self.central.registry)
      (sessionRows (self.hub.listStatus self.links))).get? key = some row →
        Writes (rt.innerDepth + 2) (rowValue rt row)) ↔ self.Listed rt configs key := by
  have hplain : ∀ row ∈ self.hub.listStatus self.links,
      (Writes (rt.innerDepth + 2) (rowValue rt row) ↔ RowClean row) := by
    intro row hrow
    obtain ⟨entry, _, hentry⟩ := List.mem_filterMap.mp hrow
    obtain ⟨session, _, rfl⟩ := Option.map_eq_some_iff.mp hentry
    rw [writes_row]
    simp [Hub.statusRow]
  have hlast : ∀ row, ((self.hub.listStatus self.links).filter (·.address = key)).getLast? =
      some row → row ∈ self.hub.listStatus self.links ∧ row.address = key := by
    intro row hrow
    have hmem := List.mem_filter.mp (List.mem_of_getLast? hrow)
    exact ⟨hmem.1, of_decide_eq_true hmem.2⟩
  rw [get?_foldl_shown, get?_sessionRows, Listed]
  cases hconfig : (configs.filter fun config =>
      canonical self.central.registry config.address = key).getLast? with
  | none =>
    cases hrow : ((self.hub.listStatus self.links).filter (·.address = key)).getLast? with
    | none => simp
    | some row => simp [hplain row (hlast row hrow).1]
  | some config =>
    have hmem := List.mem_of_getLast? hconfig
    have haddress := noSurrogate_of_normalizeMac (hnorm config (List.mem_filter.mp hmem).1)
    simp only [Option.some.injEq, forall_eq', writes_withConfig _ haddress]
    cases hrow : ((self.hub.listStatus self.links).filter (·.address = key)).getLast? with
    | none => simp [freshRow, RowClean]
    | some row =>
      have hkey := (hlast row hrow).2
      simp only [Option.getD_some, Option.some.injEq, forall_eq', RowClean, hkey]
      tauto

theorem comes_devices :
    Comes rt (dispatch rt.toInterpreter .devices) self ↔ self.Answerable rt .devices := by
  have hcomes : Comes rt (dispatch rt.toInterpreter .devices) self ↔
      Delivers rt ((self.hub.devicesPayload rt.toInterpreter self.links).map Reply.devices) := by
    simp only [Comes, dispatch, after_bind]
    rw [after_of_exec (exec_devicesPayload self rt.toInterpreter)]
    cases self.hub.devicesPayload rt.toInterpreter self.links with
    | error exc => rfl
    | ok rows => rfl
  rw [hcomes, Answerable]
  cases hall : self.configStore.listAll rt.toInterpreter with
  | error exc =>
    have hpayload : self.hub.devicesPayload rt.toInterpreter self.links = .error exc := by
      rw [Hub.devicesPayload]
      change (do
        let configs ← self.configStore.listAll rt.toInterpreter
        _) = _
      rw [hall]
      rfl
    simp [hpayload, Except.map, delivers_error (tidy_listAll self.configStore exc hall)]
  | ok configs =>
    have hnorm : ∀ config ∈ configs, normalizeMac config.address = .ok config.address :=
      fun config hconfig => (DeviceConfigStore.filled_of_listAll hall config hconfig).address
    rw [Hub.devicesPayload_ok (h := self.hub) self.links hall hnorm]
    simp only [Except.map, delivers_ok, dataOf, writes_arr, List.forall_mem_map, Except.ok.injEq,
      forall_eq', ← listed_iff self hnorm]
    constructor
    · intro h key row hrow
      exact h (key, row) (Dict.get?_eq_some.mp hrow)
    · rintro h ⟨key, row⟩ hrow
      exact h key row (Dict.get?_eq_some.mpr hrow)

theorem tidy_forM {α : Type} {f : α → Routine PUnit} (hf : ∀ a s, Tidy ((f a).exec s).result)
    (as : List α) (s : Station) : Tidy ((as.forM f).exec s).result := by
  induction as generalizing s with
  | nil => exact tidy_ok _
  | cons a as ih =>
    rw [exec_forM_cons, andThen]
    cases h : ((f a).exec s).result with
    | error exc => exact tidy_error (hf a s exc h)
    | ok _ => exact ih _

theorem after_of_tidy {α : Type} {c : Routine α} {s : Station}
    {Q : Except PyError α → Station → Prop} (hc : Tidy (c.exec s).result)
    (herror : ∀ exc : PyError, exc.Clean → Q (.error exc) (c.exec s).shared)
    (hok : ∀ a, Q (.ok a) (c.exec s).shared) : c.After s Q := by
  rw [After]
  cases h : (c.exec s).result with
  | error exc => exact herror exc (hc exc h)
  | ok a => exact hok a

theorem comes_configApply : Comes rt (dispatch rt.toInterpreter .configApply) self := by
  have hone : ∀ (config : DeviceRecord) (s : Station), Tidy ((do
      match ← get config.address with
      | none => return ()
      | some ref => Piece.modify (·.withSession ref fun session =>
          { session with name := orDefault (config.config rt.toInterpreter).name session.name }) :
      Routine PUnit).exec s).result := by
    intro config s
    rw [exec_bind, get, exec_bind, exec_lift]
    cases hnorm : normalizeMac config.address with
    | error exc => exact tidy_error (tidy_normalizeMac _ exc hnorm)
    | ok a =>
      rw [andThen_ok, exec_locked, andThen_ok]
      cases s.central.registry.find a with
      | none => exact tidy_ok _
      | some ref => exact tidy_ok _
  simp only [Comes, dispatch, applyConfig, after_bind, after_get, after_lift]
  cases hall : self.configStore.listAll rt.toInterpreter with
  | error exc => exact delivers_error (tidy_listAll self.configStore exc hall)
  | ok configs =>
    have hforM := tidy_forM hone configs self
    have hlit : Delivers rt (.ok (.text [.lit "Config data applied"])) :=
      delivers_text.mpr (by simp [Part.Clean])
    exact after_of_tidy hforM (fun exc hexc => delivers_error hexc) fun _ => hlit

end Daemon

namespace Daemon
open Piece Station

variable (self : Station)

theorem comes_unitspaceStatus : Comes rt (dispatch rt.toInterpreter .unitspaceStatus) self ↔
    self.Answerable rt .unitspaceStatus := by
  simp only [Comes, dispatch, after_bind, after_get, after_pure, delivers_ok, dataOf, snapshot,
    Answerable, writes_obj, List.forall_mem_cons, writes_optional, writes_float, noSurrogate_str]
  simp

theorem comes_other {answer : Except PyError (List Str)} (h : TailAnswer answer) :
    Comes rt (dispatch rt.toInterpreter (.other answer)) self := by
  simp only [Comes, dispatch, after_bind, after_lift]
  cases answer with
  | error exc => exact delivers_error (h.tidy exc rfl)
  | ok lines =>
    simp only [after_pure, delivers_ok]
    exact writes_lines.mpr (h.lines lines rfl)

/-- Over all commands: the answer can be written just when the request is answerable. -/
theorem comes_iff (request : Request)
    (hother : ∀ answer, request = .other answer → TailAnswer answer) :
    Comes rt (dispatch rt.toInterpreter request) self ↔ self.Answerable rt request := by
  cases request with
  | stop =>
    simp only [Comes, dispatch, after_bind, after_modify, after_pure, delivers_ok, dataOf,
      Answerable, writes_obj, List.forall_mem_cons, noSurrogate_str]
    simp
  | devices => exact comes_devices self
  | connect address => exact comes_connect self address
  | commandSend address command => exact comes_commandSend self address command
  | configSet address field value => exact comes_configSet self address field value
  | configApply => exact iff_true_intro (comes_configApply self)
  | hubConfigSet field value => exact comes_hubConfigSet self field value
  | service address action service characteristic =>
    exact comes_service self address action service characteristic
  | reset address =>
    refine (comes_unsupported self address "Reset" []).trans (iff_true_intro ?_)
    exact fun _ _ _ => rfl
  | model address detail => exact comes_unsupported self address "Model" detail
  | feature address detail => exact comes_unsupported self address "Feature collection" detail
  | file address detail => exact comes_unsupported self address "File transfer" detail
  | unitspaceStatus => exact comes_unitspaceStatus self
  | other answer => exact iff_true_intro (comes_other self (hother answer rfl))

end Daemon

/-- CORRECT: a request line gets exactly one reply, and the connection is closed, just when the
    answer to it can be written down. -/
theorem one_reply_iff (rt : Runtime) (paths : AppPaths) (mtime : Files.Path → ℚ) (self : Station)
    (line : Except Overrun Bytes) :
    Replied rt ((Daemon.handleStream rt paths mtime line).exec self).result ↔
      self.Answerable rt (requestOf rt paths mtime self line) := by
  rw [replied_iff]
  exact Daemon.comes_iff self _ fun _ => requestOf_other

/-- A fresh interpreter, with the depth that is left in a handler. -/
def freshRuntime : Runtime where
  toInterpreter := freshInterpreter
  strRepr _ := str "..."
  libraryText _ := str "..."
  toInt _ := .error .valueError
  floatText _ := str "0.0"
  innerDepth := 980
  valueRepr_clean _ := show noSurrogate (str "...") = true by decide
  strRepr_clean _ := by decide
  libraryText_clean _ := by decide
  floatRepr_line _ := show noNewline (str "0.0") = true by decide

/-- A model command that is a lone surrogate, for a device that was connected before: the handler
    raises where it encodes the reply. -/
theorem surrogate_gets_no_reply :
    let connect := Request.connect (str "AA:BB:CC:DD:EE:01")
    let self := ((Daemon.dispatch freshInterpreter connect).exec freshStation).shared
    let line := (utf8Encode (str "\x7b\"command\": \"model\", \"args\": \x7b\"address\": \"AA:BB:CC:DD:EE:01\", \"model_command\": \"\\ud800\"\x7d\x7d\n")).getD []
    ¬Replied freshRuntime
      ((Daemon.handleStream freshRuntime somePaths (fun _ => 0) (.ok line)).exec self).result := by
  intro connect self line hreplied
  have hclean := ((replied_iff self (.ok line)).mp hreplied).2
  exact absurd hclean (by decide +kernel)

end SlimHub
