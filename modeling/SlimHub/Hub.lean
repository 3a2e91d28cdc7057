import SlimHub.Routing
import SlimHub.Settings

/-! The daemon with its device configs.

        scan, connect ──▶ session, then config under the address that was asked for
        frame ──▶ alias, config under the frame's MAC, event, commands

    Each of these runs without waiting, so each is one step. The sessions' connections do not touch
    the registry or the configs; what they know (`connected`, `last_error`) is given where a status
    is asked for. -/

namespace SlimHub
open Text Nus Json Ble Unitspace

variable (interp : Interpreter)

/-- The text of a field. In a file of the store's own every field is a string; where an operator has
    put another value, the daemon goes on with its text. -/
def fieldText : Value → Str
  | .str s => s
  | value => interp.valueRepr value

/-- A loaded config as the daemon uses it; a name that counts as nothing is empty. -/
def DeviceRecord.config (self : DeviceRecord) : DeviceConfig where
  address := self.address
  type := fieldText interp self.type
  name := if truthy interp self.name then fieldText interp self.name else []
  location := fieldText interp self.location

structure Hub where
  daemon : SlimHubDaemon
  configStore : DeviceConfigStore
  deriving DecidableEq

/-- What a session's connection adds to its status: `connected` and `last_error`. -/
abbrev Links := SessionRef → Bool × Option Str

/-- A row of the device list. A session's row has the first fields; a config that resolves to it
    fills in the last ones. -/
structure DeviceRow where
  address : Str
  name : Str
  connected : Bool
  lastSeen : ℚ
  lastError : Option Str
  queuedCommands : ℕ
  waitingForAdvertisement : Option Bool := none
  aliases : Option (List Str) := none
  type : Option Value := none
  packetAddress : Option Str := none
  configuredName : Option Value := none
  location : Option Value := none

/-- The answer to `command.send`. -/
structure CommandReply where
  address : Str
  command : Str
  session : SessionStatus
  deriving DecidableEq

namespace Hub

/-- A daemon that starts on a config directory. -/
def start (configStore : DeviceConfigStore) : Hub := ⟨SlimHubDaemon.empty, configStore⟩

variable (self : Hub)

def registry : DeviceRegistry := self.daemon.central.registry

def session (ref : SessionRef) : Option DeviceSession := self.daemon.central.sessions[ref]?

/-- `_start_or_update_session`. -/
def startOrUpdateSession (target : Target) (now : ℚ) : Hub × Except PyError Unit :=
  match normalizeMac target.addressText with
  | .error exc => (self, .error exc)
  | .ok _ =>
    match self.daemon.central.ensureTarget target now with
    | (central, .error exc) => ({ self with daemon := { self.daemon with central } }, .error exc)
    | (central, .ok _) =>
      let written := (ConfigWrite.scanned target).apply interp self.configStore
      (⟨{ self.daemon with central }, written.1⟩, written.2.map fun _ => ())

/-- `connect_address`. -/
def connectAddress (links : Links) (address : Str) (now : ℚ) : Hub × Except PyError SessionStatus :=
  match normalizeMac address with
  | .error exc => (self, .error exc)
  | .ok normalized =>
    match self.daemon.central.ensureAddress normalized now with
    | (central, .error exc) => ({ self with daemon := { self.daemon with central } }, .error exc)
    | (central, .ok ref) =>
      let self := { self with daemon := { self.daemon with central } }
      match self.session ref with
      | none => (self, .error ⟨.other, []⟩) -- a session object is never gone
      | some session =>
        let written := (ConfigWrite.connected normalized session.name).apply interp self.configStore
        ({ self with configStore := written.1 },
          written.2.map fun _ => session.status (links ref).1 (links ref).2)

/-- The oldest `handle_frame` task runs; `now` is the time of its event and `logged` how logging the
    event ended. -/
def runTask (now : ℚ) (logged : Except PyError Unit) : Option Hub :=
  match self.daemon.frameTasks with
  | [] => none
  | task :: _ =>
    -- the config is loaded and saved once the alias is registered
    let written : DeviceConfigStore × Except PyError DeviceRecord :=
      match self.registry.registerAlias task.frame.mac task.source with
      | .error exc => (self.configStore, .error exc)
      | .ok _ => (ConfigWrite.framed task.frame.mac).apply interp self.configStore
    let config := written.2.map (DeviceRecord.config interp)
    (self.daemon.runTask config now logged).map fun run => ⟨run.2.daemon, written.1⟩

/-- What can happen: a scan result, a connect request, a frame from a session, a `handle_frame`
    task, a `config.set` request. -/
inductive Action where
  | scan (target : Target) (now : ℚ)
  | connect (address : Str) (now : ℚ)
  | notify (session : SessionRef) (data : Bytes)
  | handle (now : ℚ) (logged : Except PyError Unit)
  | configSet (address field value : Str)

/-- The connections' part in a connect request's answer has no effect. -/
def step : Action → Hub → Option Hub
  | .scan target now, self => some (self.startOrUpdateSession interp target now).1
  | .connect address now, self =>
    some (self.connectAddress interp (fun _ => (false, none)) address now).1
  | .notify session data, self =>
    (self.daemon.notify session data).map fun daemon => { self with daemon }
  | .handle now logged, self => self.runTask interp now logged
  | .configSet address field value, self =>
    some { self with
      configStore := ((ConfigWrite.configSet address field value).apply interp
        self.configStore).1 }

/-! ### Requests that read -/

/-- `send_command`, on the JSON values of the request. -/
def sendCommand (links : Links) (address command : Value) : Hub × Except PyError CommandReply :=
  match address, command with
  | .str address, .str command =>
    if address = [] then (self, .error ⟨.valueError, [.lit "address is required"]⟩)
    else
      let noSession (normalized : Str) : PyError :=
        ⟨.valueError, [.lit "no active device session for address: ", .str normalized]⟩
      match normalizeMac address, validateCommand command with
      | .error exc, _ => (self, .error exc)
      | _, .error exc => (self, .error exc)
      | .ok normalized, .ok validated =>
        match self.registry.get normalized with
        | .error exc => (self, .error exc)
        | .ok none => (self, .error (noSession normalized))
        | .ok (some ref) =>
          match self.configStore.load interp normalized with
          | .error exc => (self, .error exc)
          | .ok record =>
            match self.daemon.central.sendCommand
              ⟨normalized, validated, fieldText interp record.location⟩ with
            | .error exc => (self, .error exc)
            | .ok (_, none) => (self, .error (noSession normalized))
            | .ok (central, some _) =>
              let self := { self with daemon := { self.daemon with central } }
              match self.session ref with
              | none => (self, .error ⟨.other, []⟩) -- a session object is never gone
              | some session => (self, .ok {
                  address := normalized
                  command := validated
                  session := session.status (links ref).1 (links ref).2 })
  | .str address, _ =>
    if address = [] then (self, .error ⟨.valueError, [.lit "address is required"]⟩)
    else (self, .error ⟨.valueError, [.lit "command must be one of: strong_enter, strong_exit, weak_enter, weak_exit, default_action, enter, exit"]⟩)
  | _, _ => (self, .error ⟨.valueError, [.lit "address is required"]⟩)

/-- The aliases of a key, sorted. -/
def aliasesOf (registry : DeviceRegistry) (key : Str) : List Str :=
  ((registry.aliases.entries.filter (·.2 = key)).map Prod.fst).mergeSort (· ≤ ·)

/-- The row of the session under a key. -/
def statusRow (registry : DeviceRegistry) (links : Links) (entry : Str × SessionRef)
    (session : DeviceSession) : DeviceRow :=
  let status := session.status (links entry.2).1 (links entry.2).2
  { address := status.address
    name := status.name
    connected := status.connected
    lastSeen := status.lastSeen
    lastError := status.lastError
    queuedCommands := status.queuedCommands
    waitingForAdvertisement := some status.waitingForAdvertisement
    aliases := some (aliasesOf registry entry.1) }

def listStatus (links : Links) : List DeviceRow :=
  self.registry.sessions.entries.filterMap fun entry =>
    (self.session entry.2).map (statusRow self.registry links entry)

/-- A config goes to the row of the address it resolves to, which is made if it is not there. -/
def showConfig (registry : DeviceRegistry) (statuses : Dict Str DeviceRow) (config : DeviceRecord) :
    Except PyError (Dict Str DeviceRow) := do
  let canonical ← registry.resolveAddress config.address
  let status := (statuses.get? canonical).getD
    { address := canonical
      name := []
      connected := false
      lastSeen := 0
      lastError := none
      queuedCommands := 0
      type := some (.str defaultDeviceType) }
  return statuses.set canonical { status with
    packetAddress := some config.address
    configuredName := some config.name
    type := some config.type
    location := some config.location }

/-- `_devices_payload`. -/
def devicesPayload (links : Links) : Except PyError (List DeviceRow) := do
  let statuses := (self.listStatus links).foldl
    (fun statuses row => statuses.set row.address row) Dict.empty
  let configs ← self.configStore.listAll interp
  let statuses ← configs.foldlM (showConfig self.registry) statuses
  return statuses.entries.map Prod.snd

end Hub

/-! ### Resolving addresses -/

/-- The address that `resolve_address` gives for a normalised one. -/
def canonical (registry : DeviceRegistry) (a : Str) : Str :=
  if registry.sessions.get? a ≠ none then a else (registry.aliases.get? a).getD a

/-- Only the key and its one alias resolve to the key, and the alias only if it is no key. -/
theorem canonical_eq_key {r : DeviceRegistry} {k m : Str} (hk : r.sessions.get? k ≠ none)
    (hm : r.aliases.get? m = some k) (honly : ∀ a, r.aliases.get? a = some k → a = m) (a : Str) :
    canonical r a = k ↔ a = k ∨ a = m ∧ r.sessions.get? m = none := by
  unfold canonical
  by_cases ha : r.sessions.get? a = none
  · have hak : a ≠ k := fun heq => hk (heq ▸ ha)
    simp only [ha, ne_eq, not_true_eq_false, if_false, hak, false_or]
    constructor
    · intro hcanon
      cases hal : r.aliases.get? a with
      | none => rw [hal] at hcanon; exact absurd hcanon hak
      | some l =>
        rw [hal, Option.getD_some] at hcanon
        obtain rfl := honly a (hcanon ▸ hal)
        exact ⟨rfl, ha⟩
    · rintro ⟨rfl, _⟩
      rw [hm, Option.getD_some]
  · have hcanon : (if r.sessions.get? a ≠ none then a else (r.aliases.get? a).getD a) = a :=
      if_pos ha
    rw [hcanon]
    refine ⟨.inl, ?_⟩
    rintro (heq | ⟨rfl, hnone⟩)
    · exact heq
    · exact absurd hnone ha

theorem aliases_singleton {r : DeviceRegistry} {k m : Str} (h : r.aliases.entries = [(m, k)]) :
    r.aliases.get? m = some k ∧ ∀ a, r.aliases.get? a = some k → a = m := by
  refine ⟨Dict.get?_eq_some.mpr (h ▸ List.mem_singleton_self _), fun a ha => ?_⟩
  have hmem := Dict.get?_eq_some.mp ha
  rw [h, List.mem_singleton] at hmem
  exact congrArg Prod.fst hmem

/-! ### Reachable states -/

open DeviceConfigStore ConfigWrite

/-- The daemon is sound, the directory is the store's own, and every key and every alias has a
    config file. -/
structure Hub.Sound (h : Hub) : Prop where
  daemon : SlimHub.Sound h.daemon
  own : Own interp h.configStore
  keyFile : ∀ {k}, h.registry.sessions.get? k ≠ none → h.configStore.files.get? k ≠ none
  aliasFile : ∀ {a}, h.registry.aliases.get? a ≠ none → h.configStore.files.get? a ≠ none

namespace Hub.Sound

theorem start {configStore : DeviceConfigStore} (h : Own interp configStore) :
    (Hub.start configStore).Sound interp where
  daemon := SlimHub.Sound.empty
  own := h
  keyFile hk := absurd rfl hk
  aliasFile ha := absurd rfl ha

variable {interp} {h : Hub}

/-- The keys and aliases after a step are those before it, and addresses that were written. -/
theorem of_write (hs : h.Sound interp) (w : ConfigWrite) {daemon : SlimHubDaemon}
    (hdaemon : SlimHub.Sound daemon)
    (hkeys : ∀ {k}, daemon.central.registry.sessions.get? k ≠ none →
      w.path = some k ∨ h.registry.sessions.get? k ≠ none)
    (haliases : ∀ {a}, daemon.central.registry.aliases.get? a ≠ none →
      w.path = some a ∨ h.registry.aliases.get? a ≠ none) :
    Hub.Sound interp ⟨daemon, (w.apply interp h.configStore).1⟩ where
  daemon := hdaemon
  own := apply_own interp hs.own w
  keyFile hk := apply_file interp hs.own w ((hkeys hk).imp_right hs.keyFile)
  aliasFile ha := apply_file interp hs.own w ((haliases ha).imp_right hs.aliasFile)

/-- The keys and aliases after `ensure_target`. -/
theorem ensureTarget_keys {c : BleCentral} {target : Target} {a : Str} (now : ℚ)
    (hnorm : normalizeMac target.addressText = .ok a) :
    (∀ {k}, (c.ensureTarget target now).1.registry.sessions.get? k ≠ none →
      some a = some k ∨ c.registry.sessions.get? k ≠ none) ∧
      (c.ensureTarget target now).1.registry.aliases = c.registry.aliases := by
  cases hfind : c.registry.find a with
  | none =>
    rw [BleCentral.ensureTarget_new hnorm hfind]
    refine ⟨?_, rfl⟩
    intro k hk
    simp only [Dict.get?_set] at hk
    split at hk
    · rename_i hka
      exact .inl (congrArg some hka.symm)
    · exact .inr hk
  | some ref =>
    rw [BleCentral.ensureTarget_found hnorm hfind]
    exact ⟨.inr, rfl⟩

theorem scan (hs : h.Sound interp) (target : Target) (now : ℚ) :
    (h.startOrUpdateSession interp target now).1.Sound interp := by
  cases hnorm : normalizeMac target.addressText with
  | error exc =>
    rw [Hub.startOrUpdateSession, hnorm]
    exact hs
  | ok a =>
    have hdaemon : SlimHub.Sound
        { h.daemon with central := (h.daemon.central.ensureTarget target now).1 } :=
      @SlimHub.Sound.step _ _ (.ensureTarget target now) hs.daemon rfl
    have hpath : (ConfigWrite.scanned target).path = some a := by rw [ConfigWrite.path, hnorm]; rfl
    obtain ⟨hkeys, haliases⟩ := @ensureTarget_keys h.daemon.central target a now hnorm
    obtain ⟨ref, s, hok, _⟩ := hs.daemon.tables.ensureTarget_ok now hnorm
    rw [Hub.startOrUpdateSession, hnorm]
    revert hdaemon hkeys haliases hok
    rcases h.daemon.central.ensureTarget target now with ⟨central, result⟩
    rintro hdaemon hkeys haliases rfl
    refine hs.of_write (.scanned target) hdaemon (fun hk => ?_) (fun ha => ?_)
    · rw [hpath]
      exact hkeys hk
    · exact .inr (haliases ▸ ha)

theorem connect (hs : h.Sound interp) (links : Links) (address : Str) (now : ℚ) :
    (h.connectAddress interp links address now).1.Sound interp := by
  cases hnorm : normalizeMac address with
  | error exc =>
    rw [Hub.connectAddress, hnorm]
    exact hs
  | ok a =>
    have hidem : normalizeMac a = .ok a := normalizeMac_idem hnorm
    have hdaemon : SlimHub.Sound
        { h.daemon with central := (h.daemon.central.ensureTarget (.text a) now).1 } :=
      @SlimHub.Sound.step _ _ (.ensureTarget (.text a) now) hs.daemon rfl
    obtain ⟨hkeys, haliases⟩ := @ensureTarget_keys h.daemon.central (.text a) a now hidem
    obtain ⟨ref, s, hok, hsession⟩ :=
      @Tables.ensureTarget_ok h.daemon.central a hs.daemon.tables (.text a) now hidem
    simp only [Hub.connectAddress, hnorm, BleCentral.ensureAddress_eq hidem]
    revert hdaemon hkeys haliases hok hsession
    rcases h.daemon.central.ensureTarget (.text a) now with ⟨central, result⟩
    rintro hdaemon hkeys haliases rfl hsession
    simp only [Hub.session, hsession]
    refine hs.of_write (.connected a s.name) hdaemon (fun hk => ?_) (fun ha => ?_)
    · rw [ConfigWrite.path, hidem]
      exact hkeys hk
    · exact .inr (haliases ▸ ha)

theorem handle {h' : Hub} (hs : h.Sound interp) {now : ℚ} {logged : Except PyError Unit}
    (hrun : h.runTask interp now logged = some h') : h'.Sound interp := by
  cases htasks : h.daemon.frameTasks with
  | nil => simp [Hub.runTask, htasks] at hrun
  | cons task rest =>
    obtain ⟨hmac, hsource, _⟩ := hs.daemon.task task (htasks ▸ List.mem_cons_self)
    have hreg : h.registry.registerAlias task.frame.mac task.source =
        .ok (aliased h.registry task.frame.mac task.source) :=
      DeviceRegistry.registerAlias_ok hmac hsource
    simp only [Hub.runTask, htasks, hreg] at hrun
    obtain ⟨run, hdaemonRun, rfl⟩ := Option.map_eq_some_iff.mp hrun
    have hdaemon : SlimHub.Sound run.2.daemon := @SlimHub.Sound.step _ _ (.handle _ now logged)
      hs.daemon (by rw [SlimHubDaemon.step, hdaemonRun]; rfl)
    have hregistry : run.2.daemon.central.registry =
        aliased h.registry task.frame.mac task.source := by
      rw [SlimHubDaemon.runTask, htasks, Option.some.injEq] at hdaemonRun
      obtain ⟨_, hqueues, _⟩ := handleFrame_spec { h.daemon with frameTasks := rest }
        (((ConfigWrite.framed task.frame.mac).apply interp h.configStore).2.map
          (DeviceRecord.config interp)) now logged hmac hsource
      rw [← hdaemonRun]
      exact hqueues.registry
    refine hs.of_write (.framed task.frame.mac) hdaemon (fun hk => ?_) (fun ha => ?_)
    · rw [hregistry, aliased_sessions] at hk
      exact .inr hk
    · rw [hregistry, aliased] at ha
      split at ha
      · simp only [Dict.get?_set] at ha
        split at ha
        · rename_i hmine
          rw [ConfigWrite.path, hmac, hmine]
          exact .inl rfl
        · exact .inr ha
      · exact .inr ha

/-- Every step keeps the invariant. -/
theorem step {h' : Hub} {act : Hub.Action} (hs : h.Sound interp)
    (hstep : Hub.step interp act h = some h') : h'.Sound interp := by
  cases act with
  | scan target now => exact Option.some.inj hstep ▸ hs.scan target now
  | connect address now => exact Option.some.inj hstep ▸ hs.connect _ address now
  | notify session data =>
    obtain ⟨daemon, hdaemon, rfl⟩ := Option.map_eq_some_iff.mp hstep
    have hregistry : daemon.central = h.daemon.central := by
      obtain ⟨s, _, rfl | ⟨frame, _, rfl⟩⟩ := SlimHubDaemon.step_notify hdaemon <;> rfl
    refine ⟨@SlimHub.Sound.step _ _ (.notify session data) hs.daemon hdaemon, hs.own, ?_, ?_⟩
    · simp only [Hub.registry, hregistry]
      exact hs.keyFile
    · simp only [Hub.registry, hregistry]
      exact hs.aliasFile
  | handle now logged => exact hs.handle hstep
  | configSet address field value =>
    obtain rfl := Option.some.inj hstep
    exact hs.of_write (.configSet address field value) hs.daemon .inr .inr

theorem run {configStore : DeviceConfigStore} {as : List Hub.Action}
    (hown : Own interp configStore)
    (hrun : Machine.run (Hub.step interp) as (Hub.start configStore) = some h) : h.Sound interp :=
  Machine.run_invariant (fun _ _ _ hs ht => hs.step ht) (Hub.Sound.start interp hown) hrun

end Hub.Sound

end SlimHub
