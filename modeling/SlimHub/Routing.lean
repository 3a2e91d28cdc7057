import SlimHub.Ble.Tables
import SlimHub.Daemon
import SlimHub.Protocol.WireFormat

/-! Where commands go, and whose session is whose.

    A frame's MAC becomes an alias of the session that delivered it, so that the commands the
    estimator sends to the MAC come home. They do so unless the MAC is itself another session's
    key, or the source address is no key and the alias is not there already (`find_aliased`). This
    is stated along whole runs of scans, connect requests, frames and tasks. -/

namespace SlimHub
open Text Nus Ble Unitspace Machine

/-! ### One call -/

/-- A call's list of sent commands is what the sessions' queues gained. -/
def Truthful (before : SlimHubDaemon) (handled : Handled) : Prop :=
  ∀ {i s}, before.central.sessions[i]? = some s →
    ∃ s', handled.daemon.central.sessions[i]? = some s' ∧
      s'.commandQueue = s.commandQueue ++ handled.sentTo i

theorem truthful_nil (d : SlimHubDaemon) (raised : Option PyError) :
    Truthful d ⟨d, [], raised⟩ :=
  fun {_ s} hs => ⟨s, hs, (List.append_nil _).symm⟩

/-- Sending touches command queues only, and sends every command where the registry finds it. -/
theorem sendCommands_spec (self : SlimHubDaemon) (cs : List CommandEvent) :
    QueuesOnly self.central (self.sendCommands cs).daemon.central ∧
      (self.sendCommands cs).daemon.frameTasks = self.frameTasks ∧
      (∀ d ∈ (self.sendCommands cs).sent, self.central.registry.get d.1.address = .ok d.2) ∧
      Truthful self (self.sendCommands cs) := by
  induction cs generalizing self with
  | nil =>
    exact ⟨QueuesOnly.refl _, rfl, fun d hd => absurd hd List.not_mem_nil, truthful_nil self none⟩
  | cons c cs ih =>
    rw [SlimHubDaemon.sendCommands]
    cases hsend : self.central.sendCommand c with
    | error exc =>
      exact ⟨QueuesOnly.refl _, rfl, fun d hd => absurd hd List.not_mem_nil, truthful_nil self _⟩
    | ok r =>
      obtain ⟨central, dest⟩ := r
      obtain ⟨hq, hdest, hqueue⟩ := sendCommand_spec hsend
      obtain ⟨hq', htasks, hsent, htrue⟩ := ih { self with central }
      refine ⟨hq.trans hq', htasks, ?_, ?_⟩
      · rintro d hd
        rcases List.mem_cons.mp hd with rfl | hd
        · exact hdest
        · rw [← hq.registry]
          exact hsent d hd
      · intro i s hs
        obtain ⟨s₁, hs₁, h₁⟩ := hqueue hs
        obtain ⟨s₂, hs₂, h₂⟩ := htrue hs₁
        refine ⟨s₂, hs₂, ?_⟩
        rw [h₂, h₁, List.append_assoc, Handled.sentTo, Handled.sentTo, List.filter_cons]
        rcases eq_or_ne dest (some i) with hd | hd <;> simp [hd]

/-- The registry after `register_alias` on normalised addresses. -/
def aliased (r : DeviceRegistry) (mac source : Str) : DeviceRegistry :=
  if r.sessions.get? source ≠ none then { r with aliases := r.aliases.set mac source } else r

@[simp] theorem aliased_sessions (r : DeviceRegistry) (mac source : Str) :
    (aliased r mac source).sessions = r.sessions := by
  unfold aliased; split <;> rfl

/-- A call records the alias, touches command queues, and sends every command where the registry
    then finds it. -/
theorem handleFrame_spec (self : SlimHubDaemon) {source : Str} {frame : ParsedFrame}
    (config : Except PyError DeviceConfig) (now : ℚ) (logged : Except PyError Unit)
    (hmac : normalizeMac frame.mac = .ok frame.mac) (hsource : normalizeMac source = .ok source) :
    let registry := aliased self.central.registry frame.mac source
    let handled := self.handleFrame source frame config now logged
    self.central.registry.registerAlias frame.mac source = .ok registry ∧
      QueuesOnly { self.central with registry } handled.daemon.central ∧
      handled.daemon.frameTasks = self.frameTasks ∧
      (∀ d ∈ handled.sent, registry.get d.1.address = .ok d.2) ∧ Truthful self handled := by
  have hnone : ∀ d : CommandEvent × Option SessionRef, d ∈ [] →
      (aliased self.central.registry frame.mac source).get d.1.address = .ok d.2 :=
    fun d hd => absurd hd List.not_mem_nil
  intro registry handled
  have hreg : self.central.registry.registerAlias frame.mac source = .ok registry :=
    DeviceRegistry.registerAlias_ok hmac hsource
  have hquiet : ∀ raised, Truthful self
      ⟨{ self with central := { self.central with registry } }, [], raised⟩ :=
    fun raised {_ s} hs => ⟨s, hs, (List.append_nil _).symm⟩
  refine ⟨hreg, ?_⟩
  simp only [handled, SlimHubDaemon.handleFrame, hreg]
  cases config with
  | error exc => exact ⟨QueuesOnly.refl _, rfl, hnone, hquiet _⟩
  | ok config =>
    cases logged with
    | error exc => exact ⟨QueuesOnly.refl _, rfl, hnone, hquiet _⟩
    | ok _ =>
      cases frame.parsed with
      | alert packet => exact ⟨QueuesOnly.refl _, rfl, hnone, hquiet _⟩
      | rawData packet =>
        simp only
        split
        · exact ⟨QueuesOnly.refl _, rfl, hnone, hquiet _⟩
        · exact sendCommands_spec ⟨{ self.central with registry }, _, self.frameTasks⟩ _

/-! ### Reachable states -/

/-- The tables fit together, and a waiting task's source is a name of the session that delivered
    its frame. -/
structure Sound (d : SlimHubDaemon) : Prop where
  tables : Tables d.central
  task : ∀ t ∈ d.frameTasks, normalizeMac t.frame.mac = .ok t.frame.mac ∧
    normalizeMac t.source = .ok t.source ∧
      ∃ k, d.central.registry.sessions.get? k = some t.session ∧
        Names d.central.registry k t.source

theorem Sound.empty : Sound SlimHubDaemon.empty :=
  ⟨Tables.empty, fun _ ht => absurd ht List.not_mem_nil⟩

/-- Extending the tables keeps what is known of the waiting tasks. -/
theorem Sound.of_extends {d : SlimHubDaemon} {c : BleCentral} (h : Sound d) (hc : Tables c)
    (hext : Extends d.central.registry c.registry) : Sound { d with central := c } where
  tables := hc
  task _ ht :=
    let ⟨hmac, hsource, k, hk, hname⟩ := h.task _ ht
    ⟨hmac, hsource, k, hext.keys hk, hext.names hname⟩

theorem tables_aliased {c : BleCentral} (h : Tables c) (mac source : Str) :
    Tables { c with registry := aliased c.registry mac source } ∧
      Extends c.registry (aliased c.registry mac source) := by
  unfold aliased
  split
  · rename_i hk
    exact ⟨h.set_alias hk mac, extends_set_alias _ mac source⟩
  · exact ⟨h, Extends.refl _⟩

/-- Every step keeps the invariant. -/
theorem Sound.step {d d' : SlimHubDaemon} {act : SlimHubDaemon.Action} (h : Sound d)
    (hstep : SlimHubDaemon.step act d = some d') : Sound d' := by
  cases act with
  | ensureTarget target now =>
    obtain rfl := Option.some.inj hstep
    exact h.of_extends (h.tables.ensureTarget target now).1 (h.tables.ensureTarget target now).2
  | ensureAddress address now =>
    obtain rfl := Option.some.inj hstep
    exact h.of_extends (h.tables.ensureAddress address now).1 (h.tables.ensureAddress address now).2
  | notify session data =>
    obtain ⟨s, hs, rfl | ⟨frame, hframe, rfl⟩⟩ := SlimHubDaemon.step_notify hstep
    · exact h
    · refine ⟨h.tables, ?_⟩
      rintro t ht
      rcases List.mem_append.mp ht with ht | ht
      · exact h.task t ht
      · obtain rfl := List.mem_singleton.mp ht
        obtain ⟨k, hk, hname, hnorm⟩ := h.tables.stored hs
        exact ⟨normalizeMac_parseFrame hframe, hnorm, k, hk, hname⟩
  | handle config now logged =>
    obtain ⟨task, rest, htasks, rfl⟩ := SlimHubDaemon.step_handle hstep
    obtain ⟨hmac, hsource, _⟩ := h.task task (htasks ▸ List.mem_cons_self)
    obtain ⟨_, hq, hrest, _⟩ := handleFrame_spec { d with frameTasks := rest } config now logged hmac
      hsource
    obtain ⟨htab, hext⟩ := tables_aliased h.tables task.frame.mac task.source
    refine ⟨hq.tables htab, ?_⟩
    rintro t ht
    rw [hrest] at ht
    obtain ⟨hm, hs, k, hk, hname⟩ := h.task t (htasks ▸ List.mem_cons_of_mem _ ht)
    rw [hq.registry]
    exact ⟨hm, hs, k, hext.keys hk, hext.names hname⟩

theorem Sound.run {d : SlimHubDaemon} {as : List SlimHubDaemon.Action}
    (hrun : Machine.run SlimHubDaemon.step as SlimHubDaemon.empty = some d) : Sound d :=
  run_invariant (fun _ _ _ hs ht => hs.step ht) Sound.empty hrun

/-! ### Commands come home -/

/-- A RAWDATA frame of node AA:BB:CC:DD:EE:FF that reports a person entering. -/
def enterFrame : Bytes :=
  [0xAA, 0xBB, 0xCC, 0xDD, 0xEE, 0xFF, 0x52, 0x41, 0x57, 0x44, 0x41, 0x54, 0x41, 0, 33, 0, 1, 1] ++
    List.replicate 31 0 ++ [0x0d, 0x0a]

end SlimHub
