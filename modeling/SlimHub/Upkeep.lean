import SlimHub.DeviceList
import SlimHub.Serial

/-! What every run of the daemon keeps up.

        registry   keys ─── sessions ─── aliases of keys
                     │                     │
        configs    <key>.json            <alias>.json        each the store's own

    Every operation of the serial daemon keeps its tables sound and its config directory its own,
    and has a config file for every key and alias; so every run of the tasks does. The device list
    can then be told from the tables and the files. -/

namespace SlimHub
open Text Nus Json Ble Unitspace Asyncio Logging DeviceConfigStore

variable {interp : Interpreter}

/-! ### One operation -/

/-- The MAC and the source of a frame that a session delivers are normalised. -/
def Operation.Normal : Operation → Prop
  | .frame task _ =>
    normalizeMac task.frame.mac = .ok task.frame.mac ∧ normalizeMac task.source = .ok task.source
  | _ => True

/-- What `send_command` does: nothing, with an error, or a command is queued at the session that the
    registry finds under the address. -/
theorem Hub.sendCommand_cases (h : Hub) (links : Links) (address command : Value) :
    (∃ exc, h.sendCommand interp links address command = (h, .error exc)) ∨
      ∃ text a name validated ref record, address = .str text ∧ normalizeMac text = .ok a ∧
        command = .str name ∧ validateCommand name = .ok validated ∧
        h.registry.find a = some ref ∧ h.configStore.load interp a = .ok record ∧
        let sent :=
          h.withSession ref (·.sendCommand ⟨a, validated, fieldText interp record.location⟩)
        h.sendCommand interp links address command = (sent,
          match sent.session ref with
          | none => .error ⟨.other, []⟩
          | some session => .ok {
              address := a
              command := validated
              session := session.status (links ref).1 (links ref).2 }) := by
  cases address with
  | str text =>
    by_cases hempty : text = []
    · refine .inl ?_
      cases command <;> exact ⟨_, if_pos hempty⟩
    cases command with
    | str name =>
      cases hnorm : normalizeMac text with
      | error exc => exact .inl ⟨exc, by simp only [Hub.sendCommand, if_neg hempty, hnorm]⟩
      | ok a =>
        have hget := @DeviceRegistry.get_ok h.registry a a (normalizeMac_idem hnorm)
        cases hvalid : validateCommand name with
        | error exc =>
          exact .inl ⟨exc, by simp only [Hub.sendCommand, if_neg hempty, hnorm, hvalid]⟩
        | ok validated =>
          cases hfind : h.registry.find a with
          | none =>
            rw [hfind] at hget
            exact .inl ⟨_, by simp only [Hub.sendCommand, if_neg hempty, hnorm, hvalid, hget]; rfl⟩
          | some ref =>
            rw [hfind] at hget
            cases hload : h.configStore.load interp a with
            | error exc =>
              refine .inl ⟨exc, ?_⟩
              simp only [Hub.sendCommand, if_neg hempty, hnorm, hvalid, hget, hload]
            | ok record =>
              have hsend := @BleCentral.sendCommand_ok h.daemon.central a
                ⟨a, validated, fieldText interp record.location⟩ (normalizeMac_idem hnorm)
              rw [show h.daemon.central.registry.find a = some ref from hfind] at hsend
              refine .inr ⟨text, a, name, validated, ref, record, rfl, hnorm, rfl, hvalid, hfind,
                hload, ?_⟩
              simp only [Hub.sendCommand, if_neg hempty, hnorm, hvalid, hget, hload, hsend]
              change _ = ((_, match (h.withSession ref _).session ref with
                | none => _ | some _ => _) : Hub × Except PyError CommandReply)
              simp only [Hub.withSession]
              generalize Hub.session _ ref = found
              cases found <;> rfl
    | _ =>
      exact .inl ⟨_, if_neg hempty⟩
  | _ => cases command <;> exact .inl ⟨_, rfl⟩

/-- A change of a session that leaves its address. -/
theorem quiet_modify (c : BleCentral) (ref : SessionRef) {f : DeviceSession → DeviceSession}
    (hf : ∀ session, (f session).address = session.address) :
    QueuesOnly c { c with sessions := c.sessions.modify ref f } := by
  refine ⟨rfl, List.ext_getElem? fun i => ?_⟩
  simp only [List.getElem?_map, List.getElem?_modify]
  cases c.sessions[i]? with
  | none => rfl
  | some session =>
    simp only [Option.map_eq_map, Option.map_some]
    split
    · exact congrArg some (hf session)
    · rfl

namespace Hub.Sound

variable {h : Hub}

/-- The sessions' addresses and the registry stay as they are. -/
theorem quiet (hs : h.Sound interp) {central : BleCentral}
    (hq : QueuesOnly h.daemon.central central) :
    Hub.Sound interp { h with daemon.central := central } where
  daemon := ⟨hq.tables hs.daemon.tables, by rw [hq.registry]; exact hs.daemon.task⟩
  own := hs.own
  keyFile {k} hk := by
    have hsame : central.registry.sessions.get? k ≠ none := hk
    rw [hq.registry] at hsame
    exact hs.keyFile hsame
  aliasFile {a} ha := by
    have hsame : central.registry.aliases.get? a ≠ none := ha
    rw [hq.registry] at hsame
    exact hs.aliasFile hsame

theorem withSession (hs : h.Sound interp) (ref : SessionRef) {f : DeviceSession → DeviceSession}
    (hf : ∀ session, (f session).address = session.address) :
    (h.withSession ref f).Sound interp :=
  hs.quiet (quiet_modify h.daemon.central ref hf)

theorem sendCommand (hs : h.Sound interp) (links : Links) (address command : Value) :
    (h.sendCommand interp links address command).1.Sound interp := by
  rcases h.sendCommand_cases links address command with
    ⟨exc, heq⟩ | ⟨_, _, _, _, ref, _, _, _, _, _, _, _, heq⟩
  · rw [heq]
    exact hs
  · rw [heq]
    exact hs.withSession ref fun _ => rfl

theorem applyConfigs (hs : h.Sound interp) (configs : List DeviceRecord) :
    (h.applyConfigs interp configs).1.Sound interp := by
  induction configs generalizing h with
  | nil => exact hs
  | cons config configs ih =>
    rw [Hub.applyConfigs, Hub.renamed]
    cases h.registry.get config.address with
    | error exc => exact hs
    | ok found =>
      cases found with
      | none => exact ih hs
      | some ref => exact ih (hs.withSession ref fun _ => rfl)

theorem applyConfig (hs : h.Sound interp) : (h.applyConfig interp).1.Sound interp := by
  rw [Hub.applyConfig]
  cases h.configStore.listAll interp with
  | error exc => exact hs
  | ok configs => exact hs.applyConfigs configs

end Hub.Sound

namespace Serial

variable {s : Serial}

theorem sound_scan (hs : s.hub.Sound interp) (devices : List Target) :
    (Serial.scan interp devices s).hub.Sound interp := by
  induction devices generalizing s with
  | nil => exact hs
  | cons device devices ih =>
    have hdevice : (s.scanDevice interp device).1.hub.Sound interp := hs.scan device s.now
    rw [Serial.scan]
    cases (s.scanDevice interp device).2 with
    | error exc => exact hdevice
    | ok _ => exact ih hdevice

theorem sound_handle (hs : s.hub.Sound interp) {task : FrameTask}
    (hmac : normalizeMac task.frame.mac = .ok task.frame.mac)
    (hsource : normalizeMac task.source = .ok task.source) (logRaises : LogEvent → Option PyError) :
    (s.handle interp task logRaises).hub.Sound interp := by
  have hreg := @DeviceRegistry.registerAlias_ok s.hub.registry _ _ _ _ hmac hsource
  obtain ⟨-, hqueues, htasks, -⟩ := handleFrame_spec { s.hub.daemon with frameTasks := [] }
    (((ConfigWrite.framed task.frame.mac).apply interp s.hub.configStore).2.map
      (DeviceRecord.config interp)) s.now (s.frameLogged interp task logRaises) hmac hsource
  obtain ⟨htables, -⟩ := tables_aliased hs.daemon.tables task.frame.mac task.source
  have hrun : ({ s.hub with daemon.frameTasks := [task] }.runTask interp s.now
      (s.frameLogged interp task logRaises)) = some
        ⟨({ s.hub.daemon with frameTasks := [] }.handleFrame task.source task.frame
          (((ConfigWrite.framed task.frame.mac).apply interp s.hub.configStore).2.map
            (DeviceRecord.config interp)) s.now (s.frameLogged interp task logRaises)).daemon,
          ((ConfigWrite.framed task.frame.mac).apply interp s.hub.configStore).1⟩ := by
    simp only [Hub.runTask, SlimHubDaemon.runTask, Option.map_some, Hub.registry]
    rw [show s.hub.daemon.central.registry.registerAlias task.frame.mac task.source = _ from hreg]
  rw [Serial.handle, hrun, Option.getD_some]
  refine hs.of_write (.framed task.frame.mac) ⟨hqueues.tables htables, ?_⟩ (fun hk => ?_)
    fun ha => ?_
  · rw [htasks]
    exact List.forall_mem_nil _
  · rw [hqueues.registry, aliased_sessions] at hk
    exact .inr hk
  · rw [hqueues.registry, aliased] at ha
    split at ha
    · simp only [Dict.get?_set] at ha
      split at ha
      · rename_i hmine
        rw [ConfigWrite.path, hmac, hmine]
        exact .inl rfl
      · exact .inr ha
    · exact .inr ha

theorem sound_answer (hs : s.hub.Sound interp) (request : Request) :
    (s.answer interp request).1.hub.Sound interp := by
  cases request with
  | connect address => exact hs.connect s.links address s.now
  | commandSend address command => exact hs.sendCommand s.links address command
  | configSet address field value =>
    exact hs.of_write (.configSet address field value) hs.daemon .inr .inr
  | configApply => exact hs.applyConfig
  | _ => exact hs

/-- Every operation keeps the tables and the config directory in order. -/
theorem sound_perform (hs : s.hub.Sound interp) {op : Operation} (hop : op.Normal) :
    (s.perform interp op).hub.Sound interp := by
  cases op with
  | connect address => exact hs.connect s.links address s.now
  | scan devices => exact sound_scan hs devices
  | frame task logRaises => exact sound_handle hs hop.1 hop.2 logRaises
  | request request => exact sound_answer hs request
  | session ref change => exact hs.withSession ref fun session => by cases change <;> rfl
  | stopSession ref => exact hs.withSession ref fun _ => rfl
  | _ => exact hs

theorem sound_foldl (hs : s.hub.Sound interp) {ops : List Operation}
    (hops : ∀ op ∈ ops, op.Normal) :
    (ops.foldl (Serial.perform interp) s).hub.Sound interp := by
  induction ops generalizing s with
  | nil => exact hs
  | cons op ops ih =>
    exact ih (sound_perform hs (hops op List.mem_cons_self))
      fun other hother => hops other (List.mem_cons_of_mem op hother)

end Serial

/-! ### The device list -/

namespace Hub

variable {h : Hub} (links : Links)

/-- An address has a row in the device list: a session has it, or the config of a file resolves to
    it. -/
def HasRow (h : Hub) (a : Str) : Prop :=
  (∃ i session, h.session i = some session ∧ session.address = a) ∨
    ∃ path, h.configStore.files.get? path ≠ none ∧ canonical h.registry path = a

/-- The rows of the sessions stand under the sessions' addresses. -/
theorem Sound.sessionRows_ne_none (hs : h.Sound interp) {a : Str} :
    (sessionRows (h.listStatus links)).get? a ≠ none ↔
      ∃ i session, h.session i = some session ∧ session.address = a := by
  obtain ⟨haddressed, hmem, hget⟩ := sessionRows_spec (h.listStatus links)
  constructor
  · intro hne
    obtain ⟨row, hrow⟩ := Option.ne_none_iff_exists'.mp hne
    obtain ⟨⟨k, i⟩, _, hstatus⟩ := List.mem_filterMap.mp (hmem hrow)
    obtain ⟨session, hsession, rfl⟩ := Option.map_eq_some_iff.mp hstatus
    exact ⟨i, session, hsession, haddressed a _ hrow⟩
  · rintro ⟨i, session, hsession, rfl⟩
    obtain ⟨k, hk, _⟩ := hs.daemon.tables.stored hsession
    refine hget (statusRow h.registry links (k, i) session) (List.mem_filterMap.mpr ?_)
    exact ⟨(k, i), Dict.get?_eq_some.mp hk, Option.map_eq_some_iff.mpr ⟨session, hsession, rfl⟩⟩

/-- The rows of a hub in order: one for each such address. -/
theorem Sound.devicesPayload (hs : h.Sound interp) (hread : AllReadable interp h.configStore) :
    ∃ rows, h.devicesPayload interp links = .ok rows ∧ (rows.map (·.address)).Nodup ∧
      ∀ a, a ∈ rows.map (·.address) ↔ h.HasRow a := by
  obtain ⟨records, hall, _, hrecords, hfiles⟩ := listAll_of_readable hs.own hread
  have hpayload := devicesPayload_ok links hall fun record hrecord => (hrecords record hrecord).1
  have hstands : Addressed (records.foldl (shown h.registry) (sessionRows (h.listStatus links))) :=
    (sessionRows_spec (h.listStatus links)).1.foldl records
  have hkeys : ((records.foldl (shown h.registry) (sessionRows (h.listStatus links))).entries.map
      Prod.snd).map (·.address) = (records.foldl (shown h.registry)
        (sessionRows (h.listStatus links))).keys := by
    rw [List.map_map]
    exact List.map_congr_left fun entry hentry => hstands _ _ (Dict.get?_eq_some.mpr hentry)
  refine ⟨_, hpayload, hkeys ▸ Dict.nodup _, fun a => ?_⟩
  rw [hkeys, Dict.mem_keys, get?_foldl_shown, HasRow, ← hs.sessionRows_ne_none links]
  cases hlast : (records.filter fun config => canonical h.registry config.address = a).getLast? with
  | some config =>
    obtain ⟨hmem, hcanonical⟩ := List.mem_filter.mp (List.mem_of_getLast? hlast)
    simp only [ne_eq, reduceCtorEq, not_false_eq_true, true_iff]
    exact .inr ⟨config.address, (hrecords config hmem).2.2, of_decide_eq_true hcanonical⟩
  | none =>
    rw [List.getLast?_eq_none_iff, List.filter_eq_nil_iff] at hlast
    refine ⟨.inl, ?_⟩
    rintro (hsession | ⟨path, hfile, hcanonical⟩)
    · exact hsession
    · obtain ⟨content, hcontent⟩ := Option.ne_none_iff_exists'.mp hfile
      obtain ⟨record, hrecord, rfl⟩ := hfiles path content hcontent
      exact absurd (decide_eq_true hcanonical) (hlast record hrecord)

theorem devicesPayload_error {exc : PyError} (hall : h.configStore.listAll interp = .error exc) :
    h.devicesPayload interp links = .error exc := by
  rw [devicesPayload, hall]
  rfl

end Hub

/-! ### Every run -/

/-- The operations of a run have normalised addresses. -/
theorem normal_journal {w : Writer} {A : Atomic Station Point Answer} (hA : Arrived interp A)
    (events : List (Event Answer Callback)) :
    ∀ op ∈ Loop.journal (Daemon.body interp w) (callback w) (operations w) events
      (A.toLoop (ε := PyError)), op.Normal := by
  refine Loop.forall_journal (fun _ _ _ hs ht => hs.step ht)
    (fun B point ready hB hready op hop => ?_)
    (fun B cb _ op hop => ?_) hA
  · cases point with
    | frame task =>
      obtain rfl := List.mem_singleton.mp hop
      exact hB.normal task (hready ▸ List.mem_cons_self)
    | main address scan =>
      simp only [operations] at hop
      split at hop <;> simp_all [Operation.Normal]
    | serving address scan =>
      cases address with
      | none => cases hop
      | some address =>
        simp only [operations] at hop
        split at hop <;> simp_all [Operation.Normal]
    | scanned found =>
      cases found with
      | error exc => cases hop
      | ok devices =>
        simp only [operations] at hop
        split at hop <;> simp_all [Operation.Normal]
    | _ => simp_all [operations, Operation.Normal]
  · cases cb <;> simp_all [operations, Operation.Normal]

variable (interp) in
theorem arrived_new (configStore : DeviceConfigStore) (hubConfigStore : HubConfigStore)
    (disk : Files.FS) (times : ℕ → ℚ) (awaitsClients : Bool) (unlinkError : Option PyError)
    (address : Option Str) (scan : Bool) : Arrived interp ((Station.new configStore hubConfigStore
      disk times awaitsClients unlinkError).launched address scan) where
  registered := Registered.new ..
  inOrder := ⟨List.forall_mem_nil _, rfl, rfl, rfl⟩
  completed := rfl
  normal := List.forall_mem_nil _
  paused := List.forall_mem_nil _

theorem arrived_run {w : Writer} {configStore : DeviceConfigStore} {hubConfigStore : HubConfigStore}
    {disk : Files.FS} {times : ℕ → ℚ} {awaitsClients : Bool} {unlinkError : Option PyError}
    {address : Option Str} {scan : Bool} {events : List (Event Answer Callback)}
    {L : Loop Station Point PyError Answer}
    (hrun : Machine.run (Daemon.loopStep interp w) events
      ((Station.new configStore hubConfigStore disk times awaitsClients unlinkError).launch address
        scan) = some L) : ∃ A : Atomic Station Point Answer, L = A.toLoop ∧ Arrived interp A := by
  obtain ⟨A, hA, rfl⟩ := Loop.run_exists (A := (Station.new configStore hubConfigStore disk times
    awaitsClients unlinkError).launched address scan) hrun
  exact ⟨A, rfl, Machine.run_invariant (fun _ _ _ hs ht => hs.step ht) (arrived_new interp ..) hA⟩

theorem sound_run {w : Writer} {configStore : DeviceConfigStore} (hown : Own interp configStore)
    {hubConfigStore : HubConfigStore} {disk : Files.FS} {times : ℕ → ℚ} {awaitsClients : Bool}
    {unlinkError : Option PyError} {address : Option Str} {scan : Bool}
    {events : List (Event Answer Callback)} {L : Loop Station Point PyError Answer}
    (hrun : Machine.run (Daemon.loopStep interp w) events
      ((Station.new configStore hubConfigStore disk times awaitsClients unlinkError).launch address
        scan) = some L) : L.shared.hub.Sound interp := by
  have hserial := Loop.run_journal (A := (Station.new configStore hubConfigStore disk times
    awaitsClients unlinkError).launched address scan) (serial_follows interp w) hrun
  have hhub : L.shared.hub = _ := congrArg Serial.hub hserial
  rw [hhub]
  exact Serial.sound_foldl (Hub.Sound.start interp hown) (normal_journal (arrived_new ..) events)

/-- CORRECT: what every run keeps up. From a config directory of the store's own, in every state of
    every run keys and sessions correspond, aliases point at keys, every config file is still the
    store's own, and every key and every alias has one. The operating system refuses no operation
    on a config file. -/
theorem tables_and_configs_kept (interp : Interpreter) (w : Writer)
    (configStore : DeviceConfigStore) (hown : Own interp configStore)
    (hubConfigStore : HubConfigStore) (disk : Files.FS) (times : ℕ → ℚ) (awaitsClients : Bool)
    (unlinkError : Option PyError) (address : Option Str)
    (scan : Bool) (events : List (Event Answer Callback)) (L : Loop Station Point PyError Answer)
    (hrun : Machine.run (Daemon.loopStep interp w) events
      ((Station.new configStore hubConfigStore disk times awaitsClients unlinkError).launch address
        scan) = some L) :
    Tables L.shared.central ∧ Own interp L.shared.configStore ∧
      (∀ k, L.shared.central.registry.sessions.get? k ≠ none →
        L.shared.configStore.files.get? k ≠ none) ∧
      ∀ a, L.shared.central.registry.aliases.get? a ≠ none →
        L.shared.configStore.files.get? a ≠ none := by
  have hsound := sound_run hown hrun
  exact ⟨hsound.daemon.tables, hsound.own, fun _ => hsound.keyFile, fun _ => hsound.aliasFile⟩

/-- A node that reported has a config under its BLE address, and one under the MAC of its frames. -/
theorem reportTwice_kept : ∃ L,
    Machine.run (Daemon.loopStep freshInterpreter openDisk) reportTwice
      (freshStation.launch none false) = some L ∧
    L.shared.configStore.files.get? (str "11:22:33:44:55:66") ≠ none ∧
    L.shared.central.registry.aliases.entries.length = 1 ∧
    ∀ a, L.shared.central.registry.aliases.get? a ≠ none →
      L.shared.configStore.files.get? a ≠ none := by
  have hstate : (Machine.run (Daemon.loopStep freshInterpreter openDisk) reportTwice
      (freshStation.launch none false)).map (fun L => decide
        (L.shared.central.registry.sessions.get? (str "11:22:33:44:55:66") ≠ none ∧
          L.shared.central.registry.aliases.entries.length = 1)) = some true := by decide +kernel
  obtain ⟨L, hrun, hfacts⟩ := Option.map_eq_some_iff.mp hstate
  obtain ⟨hkey, haliases⟩ := of_decide_eq_true hfacts
  have hkept :=
    tables_and_configs_kept freshInterpreter openDisk _ (Own.empty _) _ _ _ _ _ _ _ _ L hrun
  exact ⟨L, hrun, hkept.2.2.1 _ hkey, haliases, hkept.2.2.2⟩

/-- CORRECT: the device list is complete and repeats nothing. In every state of every run from a
    config directory of the store's own, as long as every config file is readable, it has exactly
    one row for each address that a session has or that a config resolves to; else the answer is an
    error. -/
theorem device_list_complete (interp : Interpreter) (w : Writer) (configStore : DeviceConfigStore)
    (hown : Own interp configStore) (hubConfigStore : HubConfigStore) (disk : Files.FS)
    (times : ℕ → ℚ) (awaitsClients : Bool) (unlinkError : Option PyError) (address : Option Str)
    (scan : Bool) (events : List (Event Answer Callback)) (L : Loop Station Point PyError Answer)
    (hrun : Machine.run (Daemon.loopStep interp w) events
      ((Station.new configStore hubConfigStore disk times awaitsClients unlinkError).launch address
        scan) = some L) :
    (AllReadable interp L.shared.configStore → ∃ rows,
      ((Daemon.dispatch interp .devices).exec L.shared).result = .ok (.devices rows) ∧
        (rows.map (·.address)).Nodup ∧
        ∀ a, a ∈ rows.map (·.address) ↔ L.shared.hub.HasRow a) ∧
    (¬AllReadable interp L.shared.configStore → ∃ exc,
      ((Daemon.dispatch interp .devices).exec L.shared).result = .error exc) := by
  have hanswer := (@Daemon.does_dispatch interp L.shared .devices).2
  refine ⟨fun hread => ?_, fun hnot => ?_⟩
  · obtain ⟨rows, hrows, hnodup, hmem⟩ := (sound_run hown hrun).devicesPayload L.shared.links hread
    exact ⟨rows, hanswer.trans (congrArg (Except.map Reply.devices) hrows), hnodup, hmem⟩
  · cases hall : L.shared.configStore.listAll interp with
    | ok records => exact absurd (readable_of_listAll hall) hnot
    | error exc =>
      have hpayload := Hub.devicesPayload_error L.shared.links (h := L.shared.hub) hall
      exact ⟨exc, hanswer.trans (congrArg (Except.map Reply.devices) hpayload)⟩

theorem allReadable_of_all {store : DeviceConfigStore} (h : (store.files.entries.all fun file =>
    (readMembers interp file.2).isOk) = true) : AllReadable interp store := by
  intro path content hfile
  have hok := List.all_eq_true.mp h _ (Dict.get?_eq_some.mp hfile)
  cases hmembers : readMembers interp content with
  | error exc => rw [hmembers] at hok; cases hok
  | ok data => exact ⟨data, hmembers⟩

/-- A node that reported is listed under its BLE address. -/
theorem reportTwice_listed : ∃ L rows,
    Machine.run (Daemon.loopStep freshInterpreter openDisk) reportTwice
      (freshStation.launch none false) = some L ∧
    ((Daemon.dispatch freshInterpreter .devices).exec L.shared).result = .ok (.devices rows) ∧
    str "11:22:33:44:55:66" ∈ rows.map (·.address) := by
  have hstate : (Machine.run (Daemon.loopStep freshInterpreter openDisk) reportTwice
      (freshStation.launch none false)).map (fun L => decide
        (L.shared.configStore.files.entries.all (fun file =>
          (readMembers freshInterpreter file.2).isOk) = true ∧
        (L.shared.central.sessions.map (·.address))[0]? = some (str "11:22:33:44:55:66"))) =
          some true := by decide +kernel
  obtain ⟨L, hrun, hfacts⟩ := Option.map_eq_some_iff.mp hstate
  obtain ⟨hreadable, hsession⟩ := of_decide_eq_true hfacts
  obtain ⟨rows, hrows, _, hmem⟩ := (device_list_complete freshInterpreter openDisk _ (Own.empty _)
    _ _ _ _ _ _ _ _ L hrun).1 (allReadable_of_all hreadable)
  rw [List.getElem?_map] at hsession
  obtain ⟨session, hget, haddress⟩ := Option.map_eq_some_iff.mp hsession
  exact ⟨L, rows, hrun, hrows, (hmem _).mpr (.inl ⟨0, session, hget, haddress⟩)⟩

end SlimHub
