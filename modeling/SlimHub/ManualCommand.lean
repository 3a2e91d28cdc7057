import SlimHub.Hub

/-! Manual commands and the MAC in their frames.

        send_command x ──▶ session of x, event for x ──▶ queue ──▶ COMMAND frame for x

    The session is looked up through the aliases; the event keeps the caller's address. A node that
    is called by its BLE address gets a frame with that address in it. -/

namespace SlimHub
open Text Nus Json Ble DeviceConfigStore

/-! ### The frame of a command -/

/-- A validated command passes again, and its text fits into a frame. -/
theorem validateCommand_again {command validated : Str}
    (h : validateCommand command = .ok validated) : validateCommand validated = .ok validated ∧
      ∃ payload, utf8Encode validated = some payload ∧ payload.length ≤ 0xFFFF := by
  have hall : validCommands.all (fun c =>
      let v := (commandAliases.lookup c).getD c
      decide (validateCommand v = .ok v) && (utf8Encode v).any fun p => p.length ≤ 0xFFFF) =
        true := by decide
  unfold validateCommand at h
  split at h
  · cases h
  · rename_i hmem
    obtain rfl := Except.ok.inj h
    obtain ⟨hagain, hfits⟩ := Bool.and_eq_true_iff.mp
      (List.all_eq_true.mp hall command (not_not.mp hmem))
    refine ⟨of_decide_eq_true hagain, ?_⟩
    cases hpayload : utf8Encode ((commandAliases.lookup command).getD command) with
    | none => rw [hpayload] at hfits; cases hfits
    | some payload =>
      rw [hpayload] at hfits
      exact ⟨payload, rfl, of_decide_eq_true hfits⟩

/-- The frame that a worker builds of a validated command starts with the bytes of its address. -/
theorem buildCommandFrame_mac {address command validated : Str} {macBytes : Bytes}
    (haddress : macToBytes address = .ok macBytes) (hcommand : validateCommand command = .ok validated) :
    ∃ frame, buildCommandFrame address validated = .ok frame ∧ frame.take macLen = macBytes := by
  obtain ⟨hagain, payload, hpayload, hfits⟩ := validateCommand_again hcommand
  obtain ⟨typeBytes, htype⟩ : ∃ typeBytes, packetTypeBytes (str "COMMAND") = .ok typeBytes :=
    ⟨_, rfl⟩
  refine ⟨frameBytes macBytes typeBytes payload, ?_, ?_⟩
  · rw [buildCommandFrame, hagain]
    simp only [bind, Except.bind, hpayload]
    exact buildFrame_ok_iff.mpr ⟨hfits, macBytes, typeBytes, haddress, htype, rfl⟩
  · exact take_mac_frameBytes ⟨macToBytes_length haddress, packetTypeBytes_length htype, hfits⟩

/-! ### `send_command` -/

namespace Hub

variable {interp : Interpreter} {h : Hub} {links : Links} {address command validated a : Str}
  {i : SessionRef} {s : DeviceSession} {record : DeviceRecord}

theorem ne_nil_of_normalizeMac (haddress : normalizeMac address = .ok a) : address ≠ [] := by
  rintro rfl
  have hlen := (normalizeMac_ok_iff.mp haddress).1
  simp [compact] at hlen

/-- A config that is not loaded stops the command. -/
theorem sendCommand_of_load_error {exc : PyError} (haddress : normalizeMac address = .ok a)
    (hcommand : validateCommand command = .ok validated) (hfind : h.registry.find a = some i)
    (hload : h.configStore.load interp a = .error exc) :
    h.sendCommand interp links (.str address) (.str command) = (h, .error exc) := by
  rw [sendCommand, if_neg (ne_nil_of_normalizeMac haddress), haddress, hcommand]
  simp only [DeviceRegistry.get_ok (normalizeMac_idem haddress), hfind, hload]

/-- The command goes to the end of the queue of the session that is found, for the address that was
    asked for. -/
theorem sendCommand_queue (haddress : normalizeMac address = .ok a)
    (hcommand : validateCommand command = .ok validated) (hfind : h.registry.find a = some i)
    (hs : h.session i = some s) (hload : h.configStore.load interp a = .ok record) :
    (h.sendCommand interp links (.str address) (.str command)).1.session i =
      some (s.sendCommand ⟨a, validated, fieldText interp record.location⟩) := by
  have hidem := normalizeMac_idem haddress
  have hsend := @BleCentral.sendCommand_ok h.daemon.central a
    ⟨a, validated, fieldText interp record.location⟩ hidem
  have hget : ∀ command, (h.daemon.central.sessions.modify i (·.sendCommand command))[i]? =
      some (s.sendCommand command) := by
    intro command
    rw [List.getElem?_modify, show h.daemon.central.sessions[i]? = some s from hs]
    simp
  rw [show h.daemon.central.registry.find a = some i from hfind] at hsend
  rw [sendCommand, if_neg (ne_nil_of_normalizeMac haddress), haddress, hcommand]
  simp only [DeviceRegistry.get_ok hidem, hfind, hload, hsend, session, hget]

/-- Sending the command to `address` puts one event at the end of the session's queue, and the frame
    that the session's worker builds of it starts with the bytes of `m`. -/
def CommandCarries (interp : Interpreter) (h : Hub) (links : Links) (i : SessionRef)
    (m address command : Str) : Prop :=
  ∃ s event frame, h.session i = some s ∧
    ((h.sendCommand interp links (.str address) (.str command)).1.session i).map (·.commandQueue) =
      some (s.commandQueue ++ [event]) ∧
    buildCommandFrame event.address event.command = .ok frame ∧
      macToBytes m = .ok (frame.take macLen)

/-- A command that goes out for `a` carries `m` just when they are the same address. -/
theorem commandCarries_of_load {m : Str} (hm : normalizeMac m = .ok m)
    (haddress : normalizeMac address = .ok a) (hcommand : validateCommand command = .ok validated)
    (hfind : h.registry.find a = some i) (hs : h.session i = some s)
    (hload : h.configStore.load interp a = .ok record) :
    CommandCarries interp h links i m address command ↔ a = m := by
  have hidem := normalizeMac_idem haddress
  obtain ⟨hlen, ha⟩ := normalizeMac_ok_iff.mp hidem
  have hbytes := macToBytes_ok_iff.mpr ⟨hlen, rfl⟩
  obtain ⟨frame, hframe, htake⟩ := buildCommandFrame_mac hbytes hcommand
  constructor
  · rintro ⟨s', event, frame', hs', hqueue, hframe', hmac⟩
    obtain rfl := Option.some.inj (hs.symm.trans hs')
    rw [sendCommand_queue haddress hcommand hfind hs hload, Option.map_some,
      DeviceSession.sendCommand] at hqueue
    obtain rfl := List.singleton_injective (List.append_cancel_left (Option.some.inj hqueue))
    obtain rfl := Except.ok.inj (hframe.symm.trans hframe')
    rw [htake] at hmac
    have hmm := normalizeMac_of_macToBytes hmac
    rw [hm, Except.ok.injEq] at hmm
    rw [ha, hmm]
  · rintro rfl
    refine ⟨s, ⟨a, validated, fieldText interp record.location⟩, frame, hs, ?_, hframe,
      htake ▸ hbytes⟩
    rw [sendCommand_queue haddress hcommand hfind hs hload]
    rfl

theorem not_commandCarries_of_load_error {m : Str} {exc : PyError}
    (haddress : normalizeMac address = .ok a) (hcommand : validateCommand command = .ok validated)
    (hfind : h.registry.find a = some i) (hload : h.configStore.load interp a = .error exc) :
    ¬ CommandCarries interp h links i m address command := by
  rintro ⟨s, event, frame, hs, hqueue, _⟩
  rw [sendCommand_of_load_error haddress hcommand hfind hload, hs, Option.map_some,
    Option.some.injEq] at hqueue
  simp at hqueue

end Hub

theorem Hub.Sound.commandCarries_iff {interp : Interpreter} {h : Hub} (hsound : h.Sound interp)
    (links : Links) {k m : Str} {i : SessionRef} (hk : h.registry.sessions.get? k = some i)
    (hm : h.registry.aliases.get? m = some k) (hnone : h.registry.sessions.get? m = none)
    (honly : ∀ a, h.registry.aliases.get? a = some k → a = m) {address command validated : Str}
    (haddress : h.registry.resolveAddress address = .ok k)
    (hcommand : validateCommand command = .ok validated) :
    Hub.CommandCarries interp h links i m address command ↔
      normalizeMac address = .ok m ∧
        ∀ content, h.configStore.files.get? m = some content → Readable interp content := by
  have hkne : h.registry.sessions.get? k ≠ none := by rw [hk]; exact Option.some_ne_none i
  have hmne : h.registry.aliases.get? m ≠ none := by rw [hm]; exact Option.some_ne_none k
  obtain ⟨_, hmfile⟩ := Option.ne_none_iff_exists'.mp (hsound.aliasFile hmne)
  have hmnorm := hsound.own.path hmfile
  cases hnorm : normalizeMac address with
  | error exc =>
    rw [DeviceRegistry.resolveAddress, hnorm] at haddress
    cases haddress
  | ok a =>
    rw [DeviceRegistry.resolveAddress, hnorm] at haddress
    have hcanon : canonical h.registry a = k := Except.ok.inj haddress
    have hname := (canonical_eq_key hkne hm honly a).mp hcanon
    have hfind : h.registry.find a = some i := by
      rcases hname with rfl | ⟨rfl, _⟩
      · exact DeviceRegistry.find_of_key hk
      · rw [DeviceRegistry.find_of_not_key hnone, hm]
        exact hk
    obtain ⟨s, hs⟩ : ∃ s, h.session i = some s :=
      ⟨_, List.getElem?_eq_getElem (hsound.daemon.tables.ref_lt hk)⟩
    rw [Except.ok.injEq]
    rcases hsound.own.holds_or interp (normalizeMac_idem hnorm) with
      ⟨config, rfl, hholds⟩ | ⟨content, hfile, hread⟩
    · have hload := load_of_holds interp hholds hholds.filled.address
      rw [Hub.commandCarries_of_load hmnorm hnorm hcommand hfind hs hload]
      refine ⟨fun heq => ⟨heq, ?_⟩, And.left⟩
      rintro content hfile
      cases hholds with
      | whole file filled encodable =>
        rw [heq, hfile] at file
        obtain rfl := Option.some.inj file
        exact ⟨_, DeviceConfig.readMembers_content interp filled encodable⟩
      | absent file _ _ =>
        rw [heq, hfile] at file
        cases file
    · obtain ⟨exc, hload⟩ := load_of_not_readable interp (normalizeMac_idem hnorm) hfile hread
      refine iff_of_false (Hub.not_commandCarries_of_load_error hnorm hcommand hfind hload) ?_
      rintro ⟨rfl, hall⟩
      exact hread (hall content hfile)

/-- CORRECT: in every reachable state, a command to a session by any name of it carries the MAC of
    its frames exactly when it is sent to that MAC, whose config is readable. -/
theorem command_carries_mac_iff (interp : Interpreter) (links : Links) {store : DeviceConfigStore}
    (hstore : Own interp store) {as : List Hub.Action} {h : Hub}
    (hrun : Machine.run (Hub.step interp) as (Hub.start store) = some h) {k m : Str}
    {i : SessionRef} (hk : h.registry.sessions.get? k = some i)
    (hm : h.registry.aliases.get? m = some k) (hnone : h.registry.sessions.get? m = none)
    (honly : ∀ a, h.registry.aliases.get? a = some k → a = m) {address command validated : Str}
    (haddress : h.registry.resolveAddress address = .ok k)
    (hcommand : validateCommand command = .ok validated) :
    Hub.CommandCarries interp h links i m address command ↔
      normalizeMac address = .ok m ∧
        ∀ content, h.configStore.files.get? m = some content → Readable interp content :=
  (Hub.Sound.run hstore hrun).commandCarries_iff links hk hm hnone honly haddress hcommand

/-- A scan finds a node under its BLE address, and a frame of it makes its MAC an alias. -/
def deliveredNode : List Hub.Action :=
  [.scan (.device (str "11:22:33:44:55:66") (some defaultDeviceName)) 0, .notify 0 enterFrame,
    .handle 0 (.ok ())]

/-- What is needed of the state after that. -/
theorem deliveredNode_state : ∃ h,
    Machine.run (Hub.step freshInterpreter) deliveredNode (Hub.start ⟨Dict.empty⟩) = some h ∧
      h.registry.sessions.get? (str "11:22:33:44:55:66") = some 0 ∧
      h.registry.sessions.get? (str "AA:BB:CC:DD:EE:FF") = none ∧
      h.registry.aliases.entries = [(str "AA:BB:CC:DD:EE:FF", str "11:22:33:44:55:66")] ∧
      (∀ address ∈ [str "11-22-33-44-55-66", str "aabbccddeeff"],
        h.registry.resolveAddress address = .ok (str "11:22:33:44:55:66")) ∧
      h.configStore.files.entries.all (fun file => (readMembers freshInterpreter file.2).isOk) =
        true := by
  have hstate : (Machine.run (Hub.step freshInterpreter) deliveredNode
      (Hub.start ⟨Dict.empty⟩)).map (fun h => decide (
        h.registry.sessions.get? (str "11:22:33:44:55:66") = some 0 ∧
        h.registry.sessions.get? (str "AA:BB:CC:DD:EE:FF") = none ∧
        h.registry.aliases.entries = [(str "AA:BB:CC:DD:EE:FF", str "11:22:33:44:55:66")] ∧
        (∀ address ∈ [str "11-22-33-44-55-66", str "aabbccddeeff"],
          h.registry.resolveAddress address = .ok (str "11:22:33:44:55:66")) ∧
        h.configStore.files.entries.all (fun file => (readMembers freshInterpreter file.2).isOk) =
          true)) = some true := by decide +kernel
  obtain ⟨h, hrun, hfacts⟩ := Option.map_eq_some_iff.mp hstate
  exact ⟨h, hrun, of_decide_eq_true hfacts⟩

/-- A command sent to the node's MAC carries it. -/
theorem command_by_mac_carries_mac : ∃ h,
    Machine.run (Hub.step freshInterpreter) deliveredNode (Hub.start ⟨Dict.empty⟩) = some h ∧
      Hub.CommandCarries freshInterpreter h (fun _ => (true, none)) 0 (str "AA:BB:CC:DD:EE:FF")
        (str "aabbccddeeff") (str "enter") := by
  obtain ⟨h, hrun, hk, hnone, haliases, hresolve, hread⟩ := deliveredNode_state
  obtain ⟨hm, honly⟩ := aliases_singleton haliases
  refine ⟨h, hrun, (command_carries_mac_iff freshInterpreter _ (Own.empty _) hrun hk hm hnone honly
    (hresolve _ (by decide)) (by decide : validateCommand (str "enter") =
      .ok (str "strong_enter"))).mpr ⟨by decide, ?_⟩⟩
  intro content hget
  have hok := List.all_eq_true.mp hread _ (Dict.get?_eq_some.mp hget)
  cases hdata : readMembers freshInterpreter content with
  | ok data => exact ⟨data, hdata⟩
  | error exc => simp only [hdata] at hok; cases hok

/-- A command sent to the node's BLE address goes to the node's session and does not. -/
theorem command_by_address_carries_address : ∃ h,
    Machine.run (Hub.step freshInterpreter) deliveredNode (Hub.start ⟨Dict.empty⟩) = some h ∧
      h.registry.sessions.get? (str "11:22:33:44:55:66") = some 0 ∧
      h.registry.sessions.get? (str "AA:BB:CC:DD:EE:FF") = none ∧
      h.registry.aliases.get? (str "AA:BB:CC:DD:EE:FF") = some (str "11:22:33:44:55:66") ∧
      (∀ a, h.registry.aliases.get? a = some (str "11:22:33:44:55:66") →
        a = str "AA:BB:CC:DD:EE:FF") ∧
      h.registry.resolveAddress (str "11-22-33-44-55-66") = .ok (str "11:22:33:44:55:66") ∧
      ¬ Hub.CommandCarries freshInterpreter h (fun _ => (true, none)) 0 (str "AA:BB:CC:DD:EE:FF")
        (str "11-22-33-44-55-66") (str "enter") := by
  obtain ⟨h, hrun, hk, hnone, haliases, hresolve, _⟩ := deliveredNode_state
  obtain ⟨hm, honly⟩ := aliases_singleton haliases
  refine ⟨h, hrun, hk, hnone, hm, honly, hresolve _ (by decide), ?_⟩
  rw [(Hub.Sound.run (Own.empty _) hrun).commandCarries_iff _ hk hm hnone honly
    (hresolve _ (by decide)) (by decide : validateCommand (str "enter") = .ok (str "strong_enter"))]
  rintro ⟨hnorm, _⟩
  exact absurd hnorm (by decide)

end SlimHub
