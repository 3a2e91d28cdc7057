import SlimHub.Upkeep

/-! What a request leaves behind.

        connect            session ── config file      the session stays, the file is no config
        config.set                    config file      the file is no config
        hub.config.set                hub's file       the file is no config
        the others                                     nothing

    A request that fails has done nothing, unless it is one of the three that write a config and got
    as far as the writing; then what it leaves is confined to what it names. `config.apply` writes
    names only, and each session gets the last name that the config files have for it. -/

namespace SlimHub
open Text Nus Json Ble Unitspace Asyncio Logging DeviceConfigStore

variable {interp : Interpreter}

/-! ### A config that could not be written -/

/-- A writer that raises leaves behind, at its own path, what is no config: the file was not
    readable before, or the writer has cut it short. -/
theorem ConfigWrite.load_of_apply_error {store : DeviceConfigStore} (h : Own interp store)
    {w : ConfigWrite} {a : Str} (hpath : w.path = some a) {exc : PyError}
    (herror : (w.apply interp store).2 = .error exc) :
    ∃ exc', (w.apply interp store).1.load interp a = .error exc' := by
  have hidem := path_normalized hpath
  rcases h.holds_or interp hidem with ⟨config, rfl, hholds⟩ | ⟨content, hfile, hread⟩
  · have hfilled := change_filled (hholds.filled interp)
      (store.files.get? config.address).isSome w
    have haddress := change_address (store.files.get? config.address).isSome w config
    rw [apply_of_holds interp hholds hpath] at herror ⊢
    generalize w.change (store.files.get? config.address).isSome config = changed at *
    have hfault := (save_error_iff interp store (hfilled.record interp)).mp ⟨exc, herror⟩
    rw [← writeMembers_ok_iff] at hfault
    rw [save_record interp store hfilled, ← haddress]
    exact load_of_not_readable interp hfilled.address (store.files.get?_set_self _ _)
      (torn_not_readable interp (List.cons_ne_nil _ _) hfault)
  · obtain ⟨exc', hload⟩ := load_of_not_readable interp hidem hfile hread
    refine ⟨exc', ?_⟩
    rw [apply_of_load_error interp hpath hload]
    exact hload

theorem HubConfigStore.load_of_setField_error {store : HubConfigStore} {field value : Str}
    (hfield : field ∈ HubConfigStore.fields) {config : HubConfig}
    (hload : (store.loadOrCreate interp).2 = .ok config) {exc : PyError}
    (herror : (store.setField interp field value).2 = .error exc) :
    ∃ exc', ((store.setField interp field value).1.loadOrCreate interp).2 = .error exc' := by
  rw [HubConfigStore.setField_ok interp store field value hfield hload] at herror ⊢
  have hfault := (HubConfigStore.save_error_iff interp _).mp ⟨exc, herror⟩
  rw [← writeMembers_ok_iff] at hfault
  cases hagain : ((HubConfigStore.save interp
      (HubConfigStore.assign config field value)).1.loadOrCreate interp).2 with
  | error exc' => exact ⟨exc', rfl⟩
  | ok other =>
    have hread := HubConfigStore.loadOrCreate_ok interp _ hagain _ rfl
    exact absurd hread (torn_not_readable interp (List.cons_ne_nil _ _) hfault)

/-! ### `config.apply` -/

namespace Hub

variable (h : Hub)

variable {h}

/-- The loop over the configs touches the sessions only. -/
theorem applyConfigs_frame {configs : List DeviceRecord}
    (hconfigs : ∀ config ∈ configs, normalizeMac config.address = .ok config.address) :
    (h.applyConfigs interp configs).2 = .ok () ∧
    (h.applyConfigs interp configs).1 = { h with
      daemon.central.sessions := (h.applyConfigs interp configs).1.daemon.central.sessions } := by
  induction configs generalizing h with
  | nil => exact ⟨rfl, rfl⟩
  | cons config configs ih =>
    have hrest := fun other hother => hconfigs other (List.mem_cons_of_mem config hother)
    rw [applyConfigs, renamed, DeviceRegistry.get_ok (hconfigs config List.mem_cons_self)]
    cases hfind : h.registry.find config.address with
    | none => exact @ih h hrest
    | some ref => exact @ih (h.withSession ref _) hrest

end Hub

/-! ### A request that fails -/

theorem error_of_map {α β : Type} {f : α → β} {result : Except PyError α} {exc : PyError}
    (h : result.map f = .error exc) : result = .error exc := by
  cases result with
  | error exc' => exact congrArg Except.error (Except.error.inj h)
  | ok a => cases h

/-- What the registry finds is a session. -/
theorem session_of_find {c : BleCentral} (h : Tables c) {a : Str} {ref : SessionRef}
    (hfind : c.registry.find a = some ref) : ∃ session, c.sessions[ref]? = some session := by
  suffices hlt : ref < c.sessions.length from ⟨_, List.getElem?_eq_getElem hlt⟩
  cases hk : c.registry.sessions.get? a with
  | some i =>
    rw [DeviceRegistry.find_of_key hk] at hfind
    exact Option.some.inj hfind ▸ h.ref_lt hk
  | none =>
    rw [DeviceRegistry.find_of_not_key hk] at hfind
    obtain ⟨k, _, hi⟩ := Option.bind_eq_some_iff.mp hfind
    exact h.ref_lt hi

/-- The one session that a central has touched is that of an address: it was there, or it is new and
    the address is now its key. -/
structure SessionOnly (c after : BleCentral) (a : Str) (ref : SessionRef) : Prop where
  found : after.registry.find a = some ref
  there : (after.sessions[ref]?).isSome = true
  others : ∀ i ≠ ref, after.sessions[i]? = c.sessions[i]?
  registry : c.registry.find a = some ref ∧ after.registry = c.registry ∨
    c.registry.find a = none ∧ c.sessions[ref]? = none ∧
      after.sessions[ref]?.map DeviceSession.address = some a ∧
      after.registry = { c.registry with sessions := c.registry.sessions.set a ref }

/-- `ensure_target` touches the session of its address only. -/
theorem ensureTarget_sessionOnly {c : BleCentral} (h : Tables c) {a : Str} {target : Target}
    (now : ℚ) (hnorm : normalizeMac target.addressText = .ok a) :
    ∃ ref, SessionOnly c (c.ensureTarget target now).1 a ref := by
  cases hfind : c.registry.find a with
  | none =>
    rw [BleCentral.ensureTarget_new hnorm hfind]
    refine ⟨c.sessions.length, ?_, ?_, fun i hne => ?_, .inr ⟨hfind, ?_, ?_, rfl⟩⟩
    · exact DeviceRegistry.find_of_key (Dict.get?_set_self _ _ _)
    · rw [List.getElem?_concat_length]
      rfl
    · rcases lt_or_gt_of_ne hne with hlt | hgt
      · exact List.getElem?_append_left hlt
      · rw [List.getElem?_eq_none hgt.le, List.getElem?_eq_none (by simpa using hgt)]
    · exact List.getElem?_eq_none le_rfl
    · rw [List.getElem?_concat_length]
      rfl
  | some ref =>
    obtain ⟨session, hsession⟩ := session_of_find h hfind
    rw [BleCentral.ensureTarget_found hnorm hfind]
    refine ⟨ref, hfind, ?_, fun i hne => ?_, .inl ⟨hfind, rfl⟩⟩
    · simp [hsession]
    · exact List.getElem?_modify_ne _ _ hne.symm

/-- A connect request on a valid address has its session, and then sees to the config. -/
theorem connectAddress_eq {h : Hub} (ht : Tables h.daemon.central) (links : Links) (now : ℚ)
    {address a : Str} (hnorm : normalizeMac address = .ok a) :
    ∃ (ref : SessionRef) (session : DeviceSession), h.connectAddress interp links address now =
      ({ h with
          daemon.central := (h.daemon.central.ensureTarget (.text a) now).1
          configStore := ((ConfigWrite.connected a session.name).apply interp h.configStore).1 },
        ((ConfigWrite.connected a session.name).apply interp h.configStore).2.map
          fun _ => session.status (links ref).1 (links ref).2) := by
  have hidem : normalizeMac a = .ok a := normalizeMac_idem hnorm
  obtain ⟨ref, session, hok, hsession⟩ :=
    @Tables.ensureTarget_ok h.daemon.central a ht (.text a) now hidem
  refine ⟨ref, session, ?_⟩
  simp only [Hub.connectAddress, hnorm, BleCentral.ensureAddress_eq hidem]
  revert hok hsession
  rcases h.daemon.central.ensureTarget (.text a) now with ⟨central, result⟩
  rintro rfl hsession
  simp only [Hub.session, hsession]

namespace Serial

variable (interp) (self : Serial)

/-- If the request fails, it fails in what it asks for and not before: the address of a connect
    request is one, the field to set is one and the config that it is in was read. -/
def Begins : Request → Prop
  | .connect address => ∃ a, normalizeMac address = .ok a
  | .configSet address field _ => field ∈ DeviceConfigStore.fields ∧
      ∃ record, self.hub.configStore.load interp address = .ok record
  | .hubConfigSet field _ => field ∈ HubConfigStore.fields ∧
      ∃ config, (self.hubConfigStore.loadOrCreate interp).2 = .ok config
  | _ => False

/-- What such a request leaves behind. -/
def Leaves (left : Serial) : Request → Prop
  | .connect address => ∀ a, normalizeMac address = .ok a →
      (∃ ref, SessionOnly self.hub.daemon.central left.hub.daemon.central a ref) ∧
      (∃ exc, left.hub.configStore.load interp a = .error exc) ∧
      (∀ path ≠ a,
        left.hub.configStore.files.get? path = self.hub.configStore.files.get? path) ∧
      left = { self with
        hub.daemon.central := left.hub.daemon.central
        hub.configStore := left.hub.configStore
        reads := self.reads + (self.hub.registry.find a).isSome.toNat }
  | .configSet address _ _ => ∀ a, normalizeMac address = .ok a →
      (∃ exc, left.hub.configStore.load interp a = .error exc) ∧
      (∀ path ≠ a,
        left.hub.configStore.files.get? path = self.hub.configStore.files.get? path) ∧
      left = { self with hub.configStore := left.hub.configStore }
  | .hubConfigSet _ _ =>
      (∃ exc, (left.hubConfigStore.loadOrCreate interp).2 = .error exc) ∧
      left = { self with hubConfigStore := left.hubConfigStore }
  | _ => left = self

variable {interp} {self}

/-- A connect request. -/
theorem connect_failed (hs : self.hub.Sound interp) {address : Str} {exc : PyError}
    (herror : (self.connect interp address).2 = .error exc) :
    (¬self.Begins interp (.connect address) → (self.connect interp address).1 = self) ∧
      self.Leaves interp (self.connect interp address).1 (.connect address) := by
  cases hnorm : normalizeMac address with
  | error exc' =>
    refine ⟨fun _ => ?_, fun a ha => ?_⟩
    · simp [Serial.connect, Hub.connectAddress, retargets, hnorm, Target.addressText]
    · rw [hnorm] at ha
      cases ha
  | ok a =>
    refine ⟨fun hbegins => absurd ⟨a, hnorm⟩ hbegins, fun a' ha' => ?_⟩
    obtain rfl := Except.ok.inj (hnorm.symm.trans ha')
    have honly := @ensureTarget_sessionOnly self.hub.daemon.central hs.daemon.tables a (.text a)
      self.now (normalizeMac_idem hnorm)
    obtain ⟨ref, session, heq⟩ := connectAddress_eq hs.daemon.tables self.links self.now hnorm
    have hpath : (ConfigWrite.connected a session.name).path = some a := by
      rw [ConfigWrite.path, normalizeMac_idem hnorm]
      rfl
    rw [Serial.connect, heq] at herror ⊢
    cases hwritten : ((ConfigWrite.connected a session.name).apply interp
        self.hub.configStore).2 with
    | ok record => rw [hwritten] at herror; cases herror
    | error exc' =>
      refine ⟨honly, ConfigWrite.load_of_apply_error hs.own hpath hwritten, ?_, ?_⟩
      · intro path hne
        refine ConfigWrite.apply_get?_of_ne interp hs.own ?_
        rw [hpath]
        exact fun heq => hne (Option.some.inj heq).symm
      · simp only [retargets, Target.addressText, hnorm]

/-- A `config.set` request. -/
theorem configSet_failed (hown : Own interp self.hub.configStore) {address field value : Str}
    {exc : PyError} (herror : ((ConfigWrite.configSet address field value).apply interp
      self.hub.configStore).2 = .error exc) :
    (¬self.Begins interp (.configSet address field value) →
      ((ConfigWrite.configSet address field value).apply interp self.hub.configStore).1 =
        self.hub.configStore) ∧
    (self.Begins interp (.configSet address field value) → ∀ a, normalizeMac address = .ok a →
      (∃ exc', ((ConfigWrite.configSet address field value).apply interp
        self.hub.configStore).1.load interp a = .error exc') ∧
      ∀ path ≠ a, ((ConfigWrite.configSet address field value).apply interp
        self.hub.configStore).1.files.get? path = self.hub.configStore.files.get? path) := by
  constructor
  · intro hbegins
    by_cases hfield : field ∈ DeviceConfigStore.fields
    · cases hload : self.hub.configStore.load interp address with
      | ok record => exact absurd ⟨hfield, record, hload⟩ hbegins
      | error exc' => simp [ConfigWrite.apply, setField, hfield, hload]
    · simp [ConfigWrite.apply, setField, hfield]
  · rintro ⟨hfield, _⟩ a hnorm
    have hpath : (ConfigWrite.configSet address field value).path = some a := by
      rw [ConfigWrite.path, if_pos (List.contains_iff_mem.mpr hfield), hnorm]
      rfl
    refine ⟨ConfigWrite.load_of_apply_error hown hpath herror, fun path hne => ?_⟩
    refine ConfigWrite.apply_get?_of_ne interp hown ?_
    rw [hpath]
    exact fun heq => hne (Option.some.inj heq).symm

/-- A `hub.config.set` request. -/
theorem hubConfigSet_failed {field value : Str} {exc : PyError}
    (herror : (self.hubConfigStore.setField interp field value).2 = .error exc) :
    (¬self.Begins interp (.hubConfigSet field value) →
      (self.hubConfigStore.setField interp field value).1 = self.hubConfigStore) ∧
    (self.Begins interp (.hubConfigSet field value) → ∃ exc',
      ((self.hubConfigStore.setField interp field value).1.loadOrCreate interp).2 =
        .error exc') := by
  constructor
  · intro hbegins
    by_cases hfield : field ∈ HubConfigStore.fields
    · cases hload : (self.hubConfigStore.loadOrCreate interp).2 with
      | ok config => exact absurd ⟨hfield, config, hload⟩ hbegins
      | error exc' => rw [HubConfigStore.setField_error interp _ field value hfield hload]
    · simp [HubConfigStore.setField, hfield]
  · rintro ⟨hfield, config, hload⟩
    exact HubConfigStore.load_of_setField_error hfield hload herror

/-- Every request. -/
theorem answer_failed (hs : self.hub.Sound interp) {request : Request} {exc : PyError}
    (herror : (self.answer interp request).2 = .error exc) :
    (¬self.Begins interp request → (self.answer interp request).1 = self) ∧
      (self.Begins interp request → self.Leaves interp (self.answer interp request).1 request) := by
  cases request with
  | connect address =>
    obtain ⟨hidle, hleaves⟩ := connect_failed hs (error_of_map herror)
    exact ⟨hidle, fun _ => hleaves⟩
  | configSet address field value =>
    obtain ⟨hidle, hleaves⟩ := @configSet_failed interp self hs.own address field value _
      (error_of_map herror)
    refine ⟨fun hbegins => ?_, fun hbegins a hnorm => ?_⟩
    · rw [answer, hidle hbegins]
    · obtain ⟨hload, hothers⟩ := hleaves hbegins a hnorm
      exact ⟨hload, hothers, rfl⟩
  | hubConfigSet field value =>
    obtain ⟨hidle, hleaves⟩ := @hubConfigSet_failed interp self field value _ (error_of_map herror)
    refine ⟨fun hbegins => ?_, fun hbegins => ⟨hleaves hbegins, rfl⟩⟩
    rw [answer, hidle hbegins]
  | commandSend address command =>
    rcases @Hub.sendCommand_cases interp self.hub self.links address command with
      ⟨exc', heq⟩ | ⟨_, a, _, validated, ref, record, _, _, _, _, hfind, _, heq⟩
    · rw [answer, heq]
      exact ⟨fun _ => rfl, fun hbegins => hbegins.elim⟩
    · obtain ⟨session, hsession⟩ := session_of_find hs.daemon.tables hfind
      simp only [answer, heq, Hub.session, Hub.withSession, List.getElem?_modify, hsession,
        if_true, Option.map_eq_map, Option.map_some] at herror
      cases herror
  | configApply =>
    simp only [answer, Hub.applyConfig] at herror ⊢
    cases hall : self.hub.configStore.listAll interp with
    | error exc' => simp [Begins]
    | ok configs =>
      obtain ⟨hok, _⟩ := @Hub.applyConfigs_frame interp self.hub configs fun config hconfig =>
        (filled_of_listAll hall config hconfig).address
      rw [hall] at herror
      simp only [hok] at herror
      cases herror
  | _ => exact ⟨fun _ => rfl, fun hbegins => hbegins.elim⟩

end Serial

/-- CORRECT: a failed request is confined. In every state of every run from a config directory of
    the store's own, a request that is answered with an error has changed nothing, unless it got as
    far as writing a config. Then a connect request leaves the session of its address, which was there
    or is the only new one, and each of the three leaves a config that no longer loads; no other
    session, key, alias or config is touched. The operating system refuses no operation on a config
    file: what fails is encoding and reading. -/
theorem failed_request_confined (interp : Interpreter) (w : Writer)
    (configStore : DeviceConfigStore) (hown : Own interp configStore)
    (hubConfigStore : HubConfigStore) (disk : Files.FS) (times : ℕ → ℚ) (awaitsClients : Bool)
    (unlinkError : Option PyError) (address : Option Str) (scan : Bool)
    (events : List (Event Answer Callback)) (L : Loop Station Point PyError Answer)
    (hrun : Machine.run (Daemon.loopStep interp w) events
      ((Station.new configStore hubConfigStore disk times awaitsClients unlinkError).launch address
        scan) = some L)
    (request : Request) (exc : PyError)
    (herror : ((Daemon.dispatch interp request).exec L.shared).result = .error exc) :
    (¬L.shared.serial.Begins interp request →
      ((Daemon.dispatch interp request).exec L.shared).shared.serial = L.shared.serial) ∧
    (L.shared.serial.Begins interp request → L.shared.serial.Leaves interp
      ((Daemon.dispatch interp request).exec L.shared).shared.serial request) := by
  obtain ⟨hserial, hresult⟩ := @Daemon.does_dispatch interp L.shared request
  rw [hserial]
  exact Serial.answer_failed (sound_run hown hrun) (hresult.symm.trans herror)

/-- A node's location cannot be set to a lone surrogate: the request fails, and leaves a file that
    is no config. -/
theorem reportTwice_failed : ∃ L exc,
    Machine.run (Daemon.loopStep freshInterpreter openDisk) reportTwice
      (freshStation.launch none false) = some L ∧
    ((Daemon.dispatch freshInterpreter (.configSet (str "11:22:33:44:55:66") (str "location")
      [0xD800])).exec L.shared).result = .error exc ∧
    ∃ exc', ((Daemon.dispatch freshInterpreter (.configSet (str "11:22:33:44:55:66")
      (str "location") [0xD800])).exec L.shared).shared.configStore.load freshInterpreter
        (str "11:22:33:44:55:66") = .error exc' := by
  have hstate : (Machine.run (Daemon.loopStep freshInterpreter openDisk) reportTwice
      (freshStation.launch none false)).map (fun L => decide
        (((Daemon.dispatch freshInterpreter (.configSet (str "11:22:33:44:55:66") (str "location")
          [0xD800])).exec L.shared).result.isOk = false ∧
        (L.shared.configStore.load freshInterpreter (str "11:22:33:44:55:66")).isOk = true)) =
          some true := by decide +kernel
  obtain ⟨L, hrun, hfacts⟩ := Option.map_eq_some_iff.mp hstate
  obtain ⟨hfailed, hloaded⟩ := of_decide_eq_true hfacts
  obtain ⟨exc, herror⟩ := error_of_isOk hfailed
  have hconfined := failed_request_confined freshInterpreter openDisk _ (Own.empty _) _ _ _ _ _ _ _
    _ L hrun _ exc herror
  have hbegins : L.shared.serial.Begins freshInterpreter
      (.configSet (str "11:22:33:44:55:66") (str "location") [0xD800]) := by
    refine ⟨by decide, ?_⟩
    cases hload : L.shared.configStore.load freshInterpreter (str "11:22:33:44:55:66") with
    | error exc' => rw [hload] at hloaded; cases hloaded
    | ok record => exact ⟨record, hload⟩
  obtain ⟨hspoiled, _⟩ := hconfined.2 hbegins (str "11:22:33:44:55:66") (by decide)
  exact ⟨L, exc, hrun, herror, hspoiled⟩

end SlimHub
