import SlimHub.Ledger
import SlimHub.SessionTasks

/-! The daemon with the tasks of its sessions.

        daemon's tasks ──calls──▶ session ◀──turns── _run · worker · helpers · link
              │                      │
              └──── what it sees ◀───┘

    The daemon's tasks make sessions and call them; between two of these calls a session's own tasks
    take their turns. The daemon's model alone has arbitrary changes in their place. Here the two
    models run together: every such run is one of the daemon's model alone, and a command can be
    followed from the frame or the client that it comes from to the write that it ends in. -/

namespace SlimHub
open Text Nus Json Ble Unitspace Asyncio Logging

/-! ### Calls -/

/-- A call that the daemon makes on a session; `make` makes the session and starts it. -/
inductive Call where
  | make (target : Target) (address : Str)
  | updateTarget (ref : SessionRef) (target : Target) (now : ℚ)
  | rename (ref : SessionRef) (name : Str)
  | sendCommand (ref : SessionRef) (command : CommandEvent)
  | stop (ref : SessionRef)

namespace Call

/-- The call on the attributes of a session. -/
def onSessions (sessions : List DeviceSession) : Call → List DeviceSession
  | .make target address =>
    sessions ++ [DeviceSession.start { target, address, name := target.nameOr [] }]
  | .updateTarget ref target now =>
    sessions.modify ref fun session => (session.updateTarget target now).1
  | .rename ref name => sessions.modify ref fun session =>
    { session with name := orDefault name session.name }
  | .sendCommand ref command => sessions.modify ref (·.sendCommand command)
  | .stop ref => sessions.modify ref fun session => { session with stopRequested := true }

/-- The call on a session with its tasks. -/
def onProcesses (processes : List Process) : Call → List Process
  | .make target address => processes ++ [(Process.new target address (target.nameOr [])).start]
  | .updateTarget ref target now => processes.modify ref (·.updateTarget target now)
  | .rename ref name => processes.modify ref fun process =>
    { process with name := orDefault name process.name }
  | .sendCommand ref command => processes.modify ref (·.sendCommand command)
  | .stop ref => processes.modify ref Process.stop

/-- The commands among the calls on one session. -/
def command? (ref : SessionRef) : Call → Option CommandEvent
  | .sendCommand r command => if r = ref then some command else none
  | _ => none

theorem map_modify {α β : Type} {f : α → β} {g : α → α} {g' : β → β} {l : List α} {i : ℕ}
    (h : ∀ a ∈ l, f (g a) = g' (f a)) : (l.modify i g).map f = (l.map f).modify i g' := by
  refine List.ext_getElem? ?_
  intro j
  simp only [List.getElem?_map, List.getElem?_modify]
  cases ha : l[j]? with
  | none => rfl
  | some a =>
    simp only [Option.map_eq_map, Option.map_some]
    split
    · rw [h a (List.mem_of_getElem? ha)]
    · rfl

theorem mem_modify {α : Type} {P : α → Prop} {g : α → α} {l : List α} {i : ℕ} (h : ∀ a ∈ l, P a)
    (hg : ∀ a, P a → P (g a)) : ∀ a ∈ l.modify i g, P a := by
  intro a ha
  obtain ⟨j, hj⟩ := List.mem_iff_getElem?.mp ha
  rw [List.getElem?_modify] at hj
  obtain ⟨b, hb, rfl⟩ := Option.map_eq_some_iff.mp hj
  have hP := h b (List.mem_of_getElem? hb)
  split
  · exact hg b hP
  · exact hP

variable {processes : List Process}

/-- Every session was started once. -/
theorem alone (call : Call) (h : ∀ p ∈ processes, p.StartedOnce) :
    ∀ p ∈ onProcesses processes call, p.StartedOnce := by
  cases call with
  | make target address =>
    intro p hp
    rcases List.mem_append.mp hp with hp | hp
    · exact h p hp
    · obtain rfl := List.mem_singleton.mp hp
      exact ⟨(Process.Orderly.new target address _).step (a := .start) rfl rfl, rfl⟩
  | updateTarget ref target now =>
    exact mem_modify h fun p hp => hp.step (a := .updateTarget target now) (by simp) rfl
  | rename ref name =>
    refine mem_modify h fun p hp => ?_
    obtain ⟨⟨hsound, hone, horder⟩, hlength⟩ := hp
    exact ⟨⟨hsound, ⟨hone.task, hone.stopping, hone.worker⟩, horder⟩, hlength⟩
  | sendCommand ref command =>
    exact mem_modify h fun p hp => hp.step (a := .sendCommand command) (by simp) rfl
  | stop ref => exact mem_modify h fun p hp => hp.step (a := .stop) (by simp) rfl

/-- The attributes after a call are those that the daemon's model has. -/
theorem map_onProcesses (call : Call) (h : ∀ p ∈ processes, p.StartedOnce) :
    (onProcesses processes call).map Process.toSession =
      onSessions (processes.map Process.toSession) call := by
  cases call with
  | make target address =>
    rw [onProcesses, onSessions, List.map_append, List.map_singleton, Process.toSession_start,
      Process.toSession_new]
  | updateTarget ref target now =>
    exact map_modify fun p _ => p.toSession_updateTarget target now
  | rename ref name => exact map_modify fun _ _ => rfl
  | sendCommand ref command => exact map_modify fun p _ => p.toSession_sendCommand command
  | stop ref => exact map_modify fun p hp => (h p hp).toSession_stop

end Call

/-- The sessions after some calls. -/
def sessionsAfter (calls : List Call) (sessions : List DeviceSession) : List DeviceSession :=
  calls.foldl Call.onSessions sessions

def processesAfter (calls : List Call) (processes : List Process) : List Process :=
  calls.foldl Call.onProcesses processes

theorem alone_processesAfter {processes : List Process} (calls : List Call)
    (h : ∀ p ∈ processes, p.StartedOnce) : ∀ p ∈ processesAfter calls processes, p.StartedOnce := by
  induction calls generalizing processes with
  | nil => exact h
  | cons call calls ih => exact ih (call.alone h)

theorem map_processesAfter {processes : List Process} (calls : List Call)
    (h : ∀ p ∈ processes, p.StartedOnce) :
    (processesAfter calls processes).map Process.toSession =
      sessionsAfter calls (processes.map Process.toSession) := by
  induction calls generalizing processes with
  | nil => rfl
  | cons call calls ih =>
    refine (ih (call.alone h)).trans ?_
    rw [call.map_onProcesses h]
    rfl

/-- The calls of `ensure_target`. -/
def ensureCalls (registry : DeviceRegistry) (target : Target) (now : ℚ) : List Call :=
  match normalizeMac target.addressText with
  | .error _ => []
  | .ok address =>
    match registry.find address with
    | none => [.make target address]
    | some ref => [.updateTarget ref target now]

/-- The calls that send commands. -/
def posts (sent : List (CommandEvent × Option SessionRef)) : List Call :=
  sent.filterMap fun d => d.2.map (Call.sendCommand · d.1)

/-- The calls of `apply_config`. -/
def applyCalls (interp : Interpreter) (registry : DeviceRegistry) : List DeviceRecord → List Call
  | [] => []
  | config :: configs =>
    match registry.get config.address with
    | .error _ => []
    | .ok none => applyCalls interp registry configs
    | .ok (some ref) =>
      .rename ref (config.config interp).name :: applyCalls interp registry configs

namespace Serial

variable (interp : Interpreter) (self : Serial)

def connectCalls (address : Str) : List Call :=
  match normalizeMac address with
  | .error _ => []
  | .ok a => ensureCalls self.hub.registry (.text a) self.now

/-- The calls for the devices of a scan. -/
def scanCalls : List Target → Serial → List Call
  | [], _ => []
  | device :: devices, self => ensureCalls self.hub.registry device self.now ++
    match (self.scanDevice interp device).2 with
    | .error _ => []
    | .ok _ => scanCalls devices (self.scanDevice interp device).1

/-- The calls on sessions that an operation makes. -/
def calls : Operation → List Call
  | .connect address => self.connectCalls address
  | .scan devices => self.scanCalls interp devices
  | .frame task logRaises => posts (self.sends interp (.frame task logRaises))
  | .request (.connect address) => self.connectCalls address
  | .request (.commandSend address command) =>
    posts (self.sends interp (.request (.commandSend address command)))
  | .request .configApply =>
    match self.hub.configStore.listAll interp with
    | .error _ => []
    | .ok configs => applyCalls interp self.hub.registry configs
  | .stopSession ref => [.stop ref]
  | _ => []

/-- The operation is a call, or what a session's own tasks have done already. -/
def Calling : Operation → Prop
  | .session ref change => change = .ends ∧
    ∀ session, self.hub.session ref = some session → session.running = false
  | .link .. => False
  | _ => True

end Serial

/-! ### What the calls do -/

theorem sessions_ensureTarget (c : BleCentral) (target : Target) (now : ℚ) :
    (c.ensureTarget target now).1.sessions =
      sessionsAfter (ensureCalls c.registry target now) c.sessions := by
  rw [ensureCalls]
  cases hnorm : normalizeMac target.addressText with
  | error exc =>
    rw [BleCentral.ensureTarget_invalid hnorm]
    rfl
  | ok a =>
    cases hfind : c.registry.find a with
    | none =>
      rw [BleCentral.ensureTarget_new hnorm hfind]
      simp only [hfind]
      rfl
    | some ref =>
      rw [BleCentral.ensureTarget_found hnorm hfind]
      simp only [hfind]
      rfl

theorem sessions_sendCommands (d : SlimHubDaemon) (commands : List CommandEvent) :
    (d.sendCommands commands).daemon.central.sessions =
      sessionsAfter (posts (d.sendCommands commands).sent) d.central.sessions := by
  induction commands generalizing d with
  | nil => rfl
  | cons command commands ih =>
    rw [SlimHubDaemon.sendCommands]
    cases hsend : d.central.sendCommand command with
    | error exc => rfl
    | ok sent =>
      obtain ⟨central, dest⟩ := sent
      refine (ih { d with central }).trans ?_
      cases hnorm : normalizeMac command.address with
      | error exc =>
        rw [BleCentral.sendCommand, DeviceRegistry.get, hnorm] at hsend
        cases hsend
      | ok a =>
        rw [BleCentral.sendCommand_ok hnorm] at hsend
        cases hfind : d.central.registry.find a with
        | none =>
          rw [hfind] at hsend
          cases hsend
          rfl
        | some ref =>
          rw [hfind] at hsend
          cases hsend
          rfl

theorem sessions_handleFrame (d : SlimHubDaemon) (source : Str) (frame : ParsedFrame)
    (config : Except PyError DeviceConfig) (now : ℚ) (logged : Except PyError Unit) :
    (d.handleFrame source frame config now logged).daemon.central.sessions =
      sessionsAfter (posts (d.handleFrame source frame config now logged).sent)
        d.central.sessions := by
  rw [SlimHubDaemon.handleFrame]
  cases d.central.registry.registerAlias frame.mac source with
  | error exc => rfl
  | ok registry =>
    cases config with
    | error exc => rfl
    | ok config =>
      cases logged with
      | error exc => rfl
      | ok _ =>
        cases frame.parsed with
        | alert packet => rfl
        | rawData packet =>
          dsimp only
          split
          · rfl
          · exact sessions_sendCommands _ _

namespace Serial

variable {interp : Interpreter} {self : Serial}

theorem sessions_connect (h : Tables self.hub.daemon.central) (address : Str) :
    (self.connect interp address).1.hub.daemon.central.sessions =
      sessionsAfter (self.connectCalls address) self.hub.daemon.central.sessions := by
  rw [Serial.connect, connectCalls]
  cases hnorm : normalizeMac address with
  | error exc =>
    rw [Hub.connectAddress, hnorm]
    rfl
  | ok a =>
    obtain ⟨_, _, heq⟩ := @connectAddress_eq interp self.hub h self.links self.now _ _ hnorm
    rw [heq]
    exact sessions_ensureTarget self.hub.daemon.central (.text a) self.now

theorem sessions_scanDevice (device : Target) :
    (self.scanDevice interp device).1.hub.daemon.central.sessions =
      sessionsAfter (ensureCalls self.hub.registry device self.now)
        self.hub.daemon.central.sessions := by
  have hsessions := sessions_ensureTarget self.hub.daemon.central device self.now
  rw [Serial.scanDevice, Hub.startOrUpdateSession]
  cases hnorm : normalizeMac device.addressText with
  | error exc =>
    rw [ensureCalls, hnorm]
    rfl
  | ok a =>
    revert hsessions
    rcases self.hub.daemon.central.ensureTarget device self.now with ⟨central, _ | ref⟩
    · exact id
    · exact id

theorem sessions_scan (devices : List Target) :
    (self.scan interp devices).hub.daemon.central.sessions =
      sessionsAfter (self.scanCalls interp devices) self.hub.daemon.central.sessions := by
  induction devices generalizing self with
  | nil => rfl
  | cons device devices ih =>
    have hdevice := @sessions_scanDevice interp self device
    rw [Serial.scan, scanCalls, sessionsAfter, List.foldl_append]
    cases (self.scanDevice interp device).2 with
    | error exc => exact hdevice
    | ok _ =>
      refine ih.trans ?_
      rw [hdevice]
      rfl

theorem sessions_applyConfigs {h : Hub} (configs : List DeviceRecord) :
    (h.applyConfigs interp configs).1.daemon.central.sessions =
      sessionsAfter (applyCalls interp h.registry configs) h.daemon.central.sessions := by
  induction configs generalizing h with
  | nil => rfl
  | cons config configs ih =>
    rw [Hub.applyConfigs, Hub.renamed, applyCalls]
    cases h.registry.get config.address with
    | error exc => rfl
    | ok found =>
      cases found with
      | none => exact ih
      | some ref => exact ih

theorem sessions_sendCommand (h : Tables self.hub.daemon.central) (address command : Value) :
    (self.hub.sendCommand interp self.links address command).1.daemon.central.sessions =
      sessionsAfter (posts (self.sends interp (.request (.commandSend address command))))
        self.hub.daemon.central.sessions := by
  rcases @Hub.sendCommand_cases interp self.hub self.links address command with
    ⟨exc, heq⟩ | ⟨text, a, name, validated, ref, record, rfl, hnorm, rfl, hvalid, hfind, hload, heq⟩
  · rw [sends, heq]
    rfl
  · obtain ⟨session, hsession⟩ := session_of_find h hfind
    have hload' : self.hub.configStore.load interp text = .ok record :=
      (DeviceConfigStore.load_congr interp _ hnorm).trans hload
    have hsent : (self.hub.withSession ref (·.sendCommand
        ⟨a, validated, fieldText interp record.location⟩)).session ref = some (session.sendCommand
          ⟨a, validated, fieldText interp record.location⟩) := by
      simp [Hub.session, Hub.withSession, hsession]
    have htext : fieldText interp (.str text) = text := rfl
    simp only [hsent] at heq
    rw [sends, heq]
    simp only [htext, hload', hfind]
    rfl

/-- An operation does to the sessions what its calls do. -/
theorem sessions_perform (h : Tables self.hub.daemon.central) {op : Operation}
    (hop : self.Calling op) : (self.perform interp op).hub.daemon.central.sessions =
      sessionsAfter (self.calls interp op) self.hub.daemon.central.sessions := by
  cases op with
  | loadHubConfig => rfl
  | connect address => exact sessions_connect h address
  | scan devices => exact sessions_scan devices
  | frame task logRaises =>
    refine (congrArg BleCentral.sessions (handle_central task logRaises)).trans ?_
    exact sessions_handleFrame _ _ _ _ _ _
  | request request =>
    cases request with
    | connect address => exact sessions_connect h address
    | commandSend address command => exact sessions_sendCommand h address command
    | configApply =>
      refine (congrArg (·.daemon.central.sessions) (show (self.hub.applyConfig interp).1 = _ from
        rfl)).trans ?_
      rw [Hub.applyConfig, calls]
      cases self.hub.configStore.listAll interp with
      | error exc => rfl
      | ok configs => exact sessions_applyConfigs configs
    | _ => rfl
  | session ref change =>
    obtain ⟨rfl, hover⟩ := hop
    refine List.ext_getElem? ?_
    intro i
    simp only [perform, Hub.withSession, List.getElem?_modify]
    cases hsession : self.hub.daemon.central.sessions[i]? with
    | none => simp [calls, sessionsAfter, hsession]
    | some session =>
      simp only [calls, sessionsAfter, List.foldl_nil, hsession, Option.map_eq_map,
        Option.map_some]
      split
      · rename_i heq
        rw [SessionChange.apply, ← hover session (heq ▸ hsession)]
      · rfl
  | link ref connected lastError => exact hop.elim
  | stopSession ref => rfl

end Serial

/-! ### What the calls do not touch -/

section
variable {β : Type} {look : Process → β}

theorem look_modify {f : Process → Process} (h : ∀ p, look (f p) = look p) (default : β)
    (processes : List Process) (i ref : SessionRef) :
    ((processes.modify i f)[ref]?.map look).getD default =
      (processes[ref]?.map look).getD default := by
  rw [List.getElem?_modify]
  cases processes[ref]? with
  | none => rfl
  | some p =>
    simp only [Option.map_eq_map, Option.map_some]
    split
    · exact h p
    · rfl

theorem look_append (p : Process) (processes : List Process) (ref : SessionRef) :
    ((processes ++ [p])[ref]?.map look).getD (look p) =
      (processes[ref]?.map look).getD (look p) := by
  rcases lt_trichotomy ref processes.length with hlt | rfl | hgt
  · rw [List.getElem?_append_left hlt]
  · rw [List.getElem?_concat_length, List.getElem?_eq_none le_rfl]
    rfl
  · rw [List.getElem?_eq_none (by simpa using hgt), List.getElem?_eq_none hgt.le]

end

/-- The commands that a session has accepted; none as long as there is no session. -/
def acceptedAt (processes : List Process) (ref : SessionRef) : List CommandEvent :=
  (processes[ref]?.map (·.courier.accepted)).getD []

/-- What a session's connection adds to its status; `text` is `str` of an exception. -/
def linkAt (text : PyError → Str) (processes : List Process) : Links := fun ref =>
  (processes[ref]?.map fun p => (p.connected, p.courier.lastError.map text)).getD (false, none)

theorem lastError_wakeNext (c : Courier) : c.wakeNext.lastError = c.lastError := by
  unfold Courier.wakeNext
  split <;> rfl

theorem linkAt_processesAfter (text : PyError → Str) (calls : List Call)
    (processes : List Process) :
    linkAt text (processesAfter calls processes) = linkAt text processes := by
  induction calls generalizing processes with
  | nil => rfl
  | cons call calls ih =>
    refine (ih (Call.onProcesses processes call)).trans (funext fun ref => ?_)
    cases call with
    | make target address => exact look_append _ processes ref
    | updateTarget i target now =>
      refine look_modify (fun p => ?_) _ processes i ref
      simp only [Process.updateTarget]
      split <;> rfl
    | rename i name =>
      refine look_modify (fun p => ?_) _ processes i ref
      rfl
    | sendCommand i command =>
      refine look_modify (fun p => ?_) _ processes i ref
      exact congrArg (fun lastError => (p.connected, lastError.map text)) (lastError_wakeNext _)
    | stop i =>
      refine look_modify (fun p => ?_) _ processes i ref
      obtain ⟨_, _, hstop, _⟩ := p.stop_cases
      rw [hstop]

theorem length_onProcesses (processes : List Process) (call : Call) :
    processes.length ≤ (Call.onProcesses processes call).length := by
  cases call <;> simp [Call.onProcesses]

theorem acceptedAt_onProcesses {processes : List Process} {call : Call} {ref : SessionRef}
    (h : ref < processes.length ∨ call.command? ref = none) :
    acceptedAt (Call.onProcesses processes call) ref =
      acceptedAt processes ref ++ (call.command? ref).toList := by
  have same {accepted : List CommandEvent} (heq : accepted = acceptedAt processes ref) :
      accepted = acceptedAt processes ref ++ none.toList := by
    rw [heq]
    exact (List.append_nil _).symm
  cases call with
  | make target address => exact same (look_append _ processes ref)
  | updateTarget i target now =>
    refine same (look_modify (fun p => ?_) _ processes i ref)
    simp only [Process.updateTarget]
    split <;> rfl
  | rename i name =>
    refine same (look_modify (fun p => ?_) _ processes i ref)
    rfl
  | stop i =>
    refine same (look_modify (fun p => ?_) _ processes i ref)
    obtain ⟨_, _, hstop, _⟩ := p.stop_cases
    rw [hstop]
  | sendCommand i command =>
    simp only [Call.onProcesses, Call.command?, acceptedAt, List.getElem?_modify] at h ⊢
    split
    · rename_i heq
      have hlt : ref < processes.length := h.resolve_right (by simp [heq])
      simp [hlt, Process.sendCommand, Courier.sendCommand]
    · cases processes[ref]? <;> simp

theorem acceptedAt_processesAfter {processes : List Process} {calls : List Call} {ref : SessionRef}
    (h : ref < processes.length ∨ calls.filterMap (·.command? ref) = []) :
    acceptedAt (processesAfter calls processes) ref =
      acceptedAt processes ref ++ calls.filterMap (·.command? ref) := by
  induction calls generalizing processes with
  | nil => exact (List.append_nil _).symm
  | cons call calls ih =>
    have hcall : ref < processes.length ∨ call.command? ref = none := by
      refine h.imp_right fun hnil => ?_
      cases hcommand : call.command? ref with
      | none => rfl
      | some command => simp [hcommand] at hnil
    have hcalls : ref < (Call.onProcesses processes call).length ∨
        calls.filterMap (·.command? ref) = [] := by
      refine h.imp (fun hlt => hlt.trans_le (length_onProcesses processes call)) fun hnil => ?_
      cases hcommand : call.command? ref with
      | none => simpa [hcommand] using hnil
      | some command => simp [hcommand] at hnil
    refine (ih hcalls).trans ?_
    rw [acceptedAt_onProcesses hcall, List.append_assoc]
    cases hcommand : call.command? ref with
    | none => simp [hcommand]
    | some command => simp [hcommand]

theorem command?_posts (sent : List (CommandEvent × Option SessionRef)) (ref : SessionRef) :
    (posts sent).filterMap (·.command? ref) = sentTo sent ref := by
  induction sent with
  | nil => rfl
  | cons d sent ih =>
    obtain ⟨command, dest⟩ := d
    cases dest with
    | none => simpa [posts, sentTo] using ih
    | some i =>
      rcases eq_or_ne i ref with rfl | hne
      · simpa [posts, sentTo, Call.command?] using ih
      · simpa [posts, sentTo, Call.command?, hne] using ih

theorem command?_ensureCalls (registry : DeviceRegistry) (target : Target) (now : ℚ)
    (ref : SessionRef) : (ensureCalls registry target now).filterMap (·.command? ref) = [] := by
  unfold ensureCalls
  split
  · rfl
  · split <;> rfl

theorem command?_applyCalls (interp : Interpreter) (registry : DeviceRegistry)
    (configs : List DeviceRecord) (ref : SessionRef) :
    (applyCalls interp registry configs).filterMap (·.command? ref) = [] := by
  induction configs with
  | nil => rfl
  | cons config configs ih =>
    rw [applyCalls]
    split
    · rfl
    · exact ih
    · exact ih

namespace Serial

variable {interp : Interpreter} {self : Serial}

theorem command?_connectCalls (address : Str) (ref : SessionRef) :
    (self.connectCalls address).filterMap (·.command? ref) = [] := by
  unfold connectCalls
  split
  · rfl
  · exact command?_ensureCalls ..

theorem command?_scanCalls (devices : List Target) (ref : SessionRef) :
    (self.scanCalls interp devices).filterMap (·.command? ref) = [] := by
  induction devices generalizing self with
  | nil => rfl
  | cons device devices ih =>
    rw [scanCalls, List.filterMap_append, command?_ensureCalls]
    split
    · rfl
    · exact ih

/-- The commands that an operation sends are those among its calls. -/
theorem command?_calls (op : Operation) (ref : SessionRef) :
    (self.calls interp op).filterMap (·.command? ref) = sentTo (self.sends interp op) ref := by
  cases op with
  | connect address => exact command?_connectCalls address ref
  | scan devices => exact command?_scanCalls devices ref
  | frame task logRaises => exact command?_posts _ ref
  | request request =>
    cases request with
    | connect address => exact command?_connectCalls address ref
    | commandSend address command => exact command?_posts _ ref
    | configApply =>
      rw [calls]
      split
      · rfl
      · exact command?_applyCalls ..
    | _ => rfl
  | _ => rfl

theorem length_posts (sent : List (CommandEvent × Option SessionRef))
    (sessions : List DeviceSession) :
    (sessionsAfter (posts sent) sessions).length = sessions.length := by
  induction sent generalizing sessions with
  | nil => rfl
  | cons d sent ih =>
    obtain ⟨command, _ | i⟩ := d
    · exact ih sessions
    · exact (ih _).trans (List.length_modify ..)

/-- Nothing is sent to a session that is not there. -/
theorem sentTo_of_length (h : Tables self.hub.daemon.central) {op : Operation} (hop : op.Normal)
    {ref : SessionRef} (hlength : self.hub.daemon.central.sessions.length ≤ ref) :
    sentTo (self.sends interp op) ref = [] := by
  have hqueue : self.hub.daemon.central.queue ref ++ sentTo (self.sends interp op) ref =
      self.takes ref op ++ (self.perform interp op).hub.daemon.central.queue ref :=
    (queue_perform h hop).2 ref
  have hbefore : self.hub.daemon.central.queue ref = [] := by
    rw [BleCentral.queue, List.getElem?_eq_none hlength]
    rfl
  have hafter {sent : List (CommandEvent × Option SessionRef)}
      (hsessions : (self.perform interp op).hub.daemon.central.sessions =
        sessionsAfter (posts sent) self.hub.daemon.central.sessions) :
      (self.perform interp op).hub.daemon.central.queue ref = [] := by
    rw [BleCentral.queue, hsessions, List.getElem?_eq_none (by rw [length_posts]; exact hlength)]
    rfl
  cases op with
  | frame task logRaises =>
    rw [hbefore, hafter (sessions_perform h trivial)] at hqueue
    exact hqueue
  | request request =>
    cases request with
    | commandSend address command =>
      rw [hbefore, hafter (sessions_perform h trivial)] at hqueue
      exact hqueue
    | _ => rfl
  | _ => rfl

theorem links_scan (devices : List Target) :
    (self.scan interp devices).links = self.links := by
  induction devices generalizing self with
  | nil => rfl
  | cons device devices ih =>
    rw [Serial.scan]
    split
    · rfl
    · exact ih

theorem links_perform {op : Operation} (hop : self.Calling op) :
    (self.perform interp op).links = self.links := by
  cases op with
  | scan devices => exact links_scan devices
  | request request => cases request <;> rfl
  | link ref connected lastError => exact hop.elim
  | _ => rfl

/-- What the calls of one turn come to. -/
theorem calls_entries (h : Tables self.hub.daemon.central) {ops : List Operation}
    (hops : ops = [] ∨ ∃ op, ops = [op]) (hcalling : ∀ op ∈ ops, self.Calling op)
    (hnormal : ∀ op ∈ ops, op.Normal) :
    let calls := entries (perform interp) (calls interp) ops self
    let sent := entries (perform interp) (sends interp) ops self
    (ops.foldl (perform interp) self).hub.daemon.central.sessions =
        sessionsAfter calls self.hub.daemon.central.sessions ∧
      (ops.foldl (perform interp) self).links = self.links ∧
      (∀ ref, calls.filterMap (·.command? ref) = sentTo sent ref) ∧
      ∀ ref, self.hub.daemon.central.sessions.length ≤ ref → sentTo sent ref = [] := by
  rcases hops with rfl | ⟨op, rfl⟩
  · exact ⟨rfl, rfl, fun _ => rfl, fun _ _ => rfl⟩
  · have hop := hcalling op (List.mem_singleton_self op)
    simp only [entries, List.append_nil]
    exact ⟨sessions_perform h hop, links_perform hop, command?_calls op, fun ref hlength =>
      sentTo_of_length h (hnormal op (List.mem_singleton_self op)) hlength⟩

end Serial

/-! ### The whole hub -/

/-- The daemon's loop and the sessions with their tasks, by the numbers that the daemon has for
    them. -/
structure Whole where
  loop : Loop Station Point PyError Answer
  processes : List Process

/-- A step of the daemon, or of a session's own. -/
inductive Move where
  | hub (event : Event Answer Callback)
  | own (ref : SessionRef) (action : Process.Action)

def Move.hub? : Move → Option (Event Answer Callback)
  | .hub event => some event
  | .own .. => none

/-- Callbacks that stand for a session's own steps where the daemon's model is alone. -/
def standsIn : Event Answer Callback → Bool
  | .call (.session ..) => true
  | .call (.link ..) => true
  | _ => false

namespace Whole

variable (interp : Interpreter) (w : Writer) (text : PyError → Str) (self : Whole)

/-- A `stop` call goes on once the session's task is over. -/
def allows (event : Event Answer Callback) : Bool :=
  match self.loop.job event with
  | some (.inl (.sessionStopped ref)) => (self.processes[ref]?.map Process.running) != some true
  | _ => !standsIn event

/-- The calls that an event leads to. -/
def calls (event : Event Answer Callback) : List Call :=
  entries (Serial.perform interp) (Serial.calls interp)
    ((self.loop.job event).elim [] (operations w self.loop.shared)) self.loop.shared.serial

/-- The daemon sees the attributes of a session. -/
def showing (ref : SessionRef) (process : Process) : Station := { self.loop.shared with
  central.sessions := self.loop.shared.central.sessions.set ref process.toSession
  links := Function.update self.loop.shared.links ref
    (process.connected, process.courier.lastError.map text) }

def step : Move → Whole → Option Whole
  | .hub event, self =>
    if self.allows event then
      (Daemon.loopStep interp w event self.loop).map fun loop =>
        ⟨loop, processesAfter (self.calls interp w event) self.processes⟩
    else none
  | .own ref action, self =>
    if action.Own then
      self.processes[ref]?.bind fun process => (Process.step action process).map fun process =>
        ⟨{ self.loop with shared := self.showing text ref process },
          self.processes.set ref process⟩
    else none

/-- The start, without a session. -/
def launch (station : Station) (address : Option Str) (scan : Bool) : Whole :=
  ⟨station.launch address scan, []⟩

end Whole

/-! ### Own steps as callbacks -/

section
variable (interp : Interpreter) (w : Writer)

theorem run_changes (ref : SessionRef) (changes : List SessionChange)
    (L : Loop Station Point PyError Answer) :
    Machine.run (Daemon.loopStep interp w) (changes.map fun change => .call (.session ref change))
        L = some { L with shared := L.shared.withSession ref (changed changes) } ∧
      Loop.journal (Daemon.body interp w) (callback w) (operations w)
        (changes.map fun change => .call (.session ref change)) L =
          changes.map (Operation.session ref) := by
  induction changes generalizing L with
  | nil =>
    refine ⟨congrArg some ?_, rfl⟩
    have hid : L.shared.central.sessions.modify ref (changed []) = L.shared.central.sessions :=
      List.modify_id ..
    simp only [Station.withSession, hid]
  | cons change changes ih =>
    obtain ⟨hrun, hjournal⟩ := ih { L with shared := L.shared.withSession ref change.apply }
    have hready : L.ready ++ ([] : List Point).map Scheduled.start = L.ready :=
      List.append_nil _
    constructor
    · simp only [List.map_cons, Machine.run, Daemon.loopStep, Loop.step, callback, hready,
        Option.bind_some]
      refine hrun.trans (congrArg some ?_)
      simp only [Station.withSession, List.modify_modify_eq]
      rfl
    · simp only [List.map_cons, Loop.journal, Loop.job, Loop.step, callback, hready,
        Option.elim_some, operations]
      exact congrArg (Operation.session ref change :: ·) hjournal

/-- The callbacks for a step of a session's own. -/
def ownEvents (ref : SessionRef) (changes : List SessionChange) (connected : Bool)
    (lastError : Option Str) : List (Event Answer Callback) :=
  (changes.map fun change => .call (.session ref change)) ++
    [.call (.link ref connected lastError)]

/-- The callbacks for a step of a session's own do to the daemon what it sees of the step. -/
theorem run_ownEvents {L : Loop Station Point PyError Answer} {ref : SessionRef}
    (changes : List SessionChange) {session : DeviceSession}
    (hsession : L.shared.central.sessions[ref]? = some session) (connected : Bool)
    (lastError : Option Str) :
    Machine.run (Daemon.loopStep interp w) (ownEvents ref changes connected lastError) L =
        some { L with shared := { L.shared with
          central.sessions := L.shared.central.sessions.set ref (changed changes session)
          links := Function.update L.shared.links ref (connected, lastError) } } ∧
      Loop.journal (Daemon.body interp w) (callback w) (operations w)
        (ownEvents ref changes connected lastError) L =
          changes.map (Operation.session ref) ++ [.link ref connected lastError] := by
  obtain ⟨hrun, hjournal⟩ := run_changes interp w ref changes L
  have hset : L.shared.central.sessions.modify ref (changed changes) =
      L.shared.central.sessions.set ref (changed changes session) := by
    rw [List.modify_eq_set_getElem?, hsession]
    rfl
  have hready : L.ready ++ ([] : List Point).map Scheduled.start = L.ready := List.append_nil _
  constructor
  · rw [ownEvents, Machine.run_append, hrun]
    simp only [Option.bind_some, Machine.run, Daemon.loopStep, Loop.step, callback, hready,
      Station.withSession, hset]
  · rw [ownEvents, Loop.journal_append hrun, hjournal]
    rfl

/-- Nothing is sent by them. -/
theorem sends_own (ref : SessionRef) (changes : List SessionChange) (connected : Bool)
    (lastError : Option Str) (s : Serial) :
    entries (Serial.perform interp) (Serial.sends interp)
      (changes.map (Operation.session ref) ++ [.link ref connected lastError]) s = [] := by
  induction changes generalizing s with
  | nil => rfl
  | cons change changes ih => exact ih _

/-- One turn notes one operation at most. -/
theorem operations_cases (w : Writer) (s : Station) (job : Option (Point ⊕ Callback)) :
    job.elim [] (operations w s) = [] ∨ ∃ op, job.elim [] (operations w s) = [op] := by
  cases job with
  | none => exact .inl rfl
  | some job =>
    rw [Option.elim_some]
    unfold operations
    split <;> (try split) <;> simp

end

/-- A step of a session's own accepts no command. -/
theorem Ble.Process.StartedOnce.accepted_own {p q : Process} {a : Process.Action}
    (h : p.StartedOnce) (ha : a.Own = true) (hstep : Process.step a p = some q) :
    q.courier.accepted = p.courier.accepted := by
  rcases Process.step_courier hstep with ⟨_, _, he⟩ | ⟨_, rfl, _⟩ | ⟨_, _, _, hwork⟩
  · exact (Courier.employs_same he).1
  · cases ha
  · obtain ⟨_, _, mid, _, _, _, heffect, hmid⟩ := Courier.work_spec h.orderly.sound hwork
    rcases hmid with hmid | hmid
    · rw [hmid, heffect.accepted]
    · rw [hmid, Courier.wakeNext_accepted, heffect.accepted]

namespace Whole

variable {interp : Interpreter} {w : Writer} {text : PyError → Str}

/-- An event that the daemon takes makes calls, or finds done what it notes. -/
theorem calling_of_allows {self : Whole} {event : Event Answer Callback} {op : Operation}
    (hsessions : self.loop.shared.central.sessions = self.processes.map Process.toSession)
    (hallows : self.allows event = true)
    (hop : op ∈ (self.loop.job event).elim [] (operations w self.loop.shared)) :
    self.loop.shared.serial.Calling op := by
  rw [allows] at hallows
  cases event with
  | resume i answer => cases hop
  | call cb =>
    cases cb with
    | session ref change => cases hallows
    | link ref connected lastError => cases hallows
    | _ => simp [Loop.job, operations] at hop
  | tick =>
    cases hjob : self.loop.job (.tick : Event Answer Callback) with
    | none =>
      rw [hjob] at hop
      cases hop
    | some job =>
      rw [hjob] at hop hallows
      cases job with
      | inr cb =>
        rw [Loop.job] at hjob
        split at hjob <;> cases hjob
      | inl point =>
        cases point with
        | sessionStopped ref =>
          obtain rfl := List.mem_singleton.mp hop
          refine ⟨rfl, fun session hsession => ?_⟩
          have hfound : self.loop.shared.central.sessions[ref]? = some session := hsession
          rw [hsessions, List.getElem?_map] at hfound
          obtain ⟨p, hp, rfl⟩ := Option.map_eq_some_iff.mp hfound
          have hover : p.running = false := by simpa [hp] using hallows
          exact hover
        | main address scan =>
          simp only [Option.elim_some, operations] at hop
          split at hop
          · obtain rfl := List.mem_singleton.mp hop
            trivial
          · cases hop
        | serving address scan =>
          cases address with
          | none => cases hop
          | some address =>
            simp only [Option.elim_some, operations] at hop
            split at hop
            · cases hop
            · obtain rfl := List.mem_singleton.mp hop
              trivial
        | scanned found =>
          cases found with
          | error exc => cases hop
          | ok devices =>
            simp only [Option.elim_some, operations] at hop
            split at hop
            · cases hop
            · obtain rfl := List.mem_singleton.mp hop
              trivial
        | request request =>
          obtain rfl := List.mem_singleton.mp hop
          trivial
        | frame task =>
          obtain rfl := List.mem_singleton.mp hop
          trivial
        | stopSession ref =>
          obtain rfl := List.mem_singleton.mp hop
          trivial
        | _ => cases hop

/-- The daemon alone comes to the same state by these events, and sees the sessions as they are;
    what it has sent to each is what the session has accepted. -/
structure Fits (interp : Interpreter) (w : Writer) (text : PyError → Str)
    (start : Loop Station Point PyError Answer) (events : List (Event Answer Callback))
    (whole : Whole) : Prop where
  run : Machine.run (Daemon.loopStep interp w) events start = some whole.loop
  alone : ∀ p ∈ whole.processes, p.StartedOnce
  sessions : whole.loop.shared.central.sessions = whole.processes.map Process.toSession
  links : whole.loop.shared.links = linkAt text whole.processes
  accepted : ∀ ref, acceptedAt whole.processes ref =
    sentTo (entries (Serial.perform interp) (Serial.sends interp)
      (Loop.journal (Daemon.body interp w) (callback w) (operations w) events start)
      start.shared.serial) ref

section
variable {configStore : DeviceConfigStore} {hubConfigStore : HubConfigStore} {disk : Files.FS}
  {times : ℕ → ℚ} {awaitsClients : Bool} {unlinkError : Option PyError} {address : Option Str}
  {scan : Bool} {self after : Whole} {events : List (Event Answer Callback)}

/-- What one more event of a run does to the daemon. -/
theorem run_event {L next : Loop Station Point PyError Answer}
    (hrun : Machine.run (Daemon.loopStep interp w) events ((Station.new configStore hubConfigStore
      disk times awaitsClients unlinkError).launch address scan) = some L)
    {event : Event Answer Callback} (hstep : Daemon.loopStep interp w event L = some next) :
    let ops := (L.job event).elim [] (operations w L.shared)
    next.shared.serial = ops.foldl (Serial.perform interp) L.shared.serial ∧
      Tables L.shared.serial.hub.daemon.central ∧ (∀ op ∈ ops, op.Normal) ∧
      (ops = [] ∨ ∃ op, ops = [op]) := by
  intro ops
  obtain ⟨A, rfl, harrived⟩ := arrived_run hrun
  have hone : Machine.run (Daemon.loopStep interp w) [event] (A.toLoop (ε := PyError)) =
      some next := by
    rw [Machine.run, hstep]
    rfl
  have hjournal : Loop.journal (Daemon.body interp w) (callback w) (operations w) [event]
      A.toLoop = ops := Loop.journal_singleton hstep
  have hserial := Loop.run_journal (serial_follows interp w) hone
  have hnormal := normal_journal (w := w) harrived [event]
  rw [hjournal] at hserial hnormal
  exact ⟨hserial, harrived.registered.tables, hnormal, operations_cases w _ _⟩

theorem Fits.hub (h : self.Fits interp w text ((Station.new configStore hubConfigStore disk times
      awaitsClients unlinkError).launch address scan) events) {event : Event Answer Callback}
    (hstep : self.step interp w text (.hub event) = some after) :
    after.Fits interp w text ((Station.new configStore hubConfigStore disk times
      awaitsClients unlinkError).launch address scan) (events ++ [event]) := by
  rw [step] at hstep
  split at hstep
  · rename_i hallows
    obtain ⟨loop, hloop, rfl⟩ := Option.map_eq_some_iff.mp hstep
    obtain ⟨hnext, htables, hnormal, hsingle⟩ := run_event h.run hloop
    obtain ⟨hsessions, hlinks, hcommands, hnone⟩ := Serial.calls_entries htables hsingle
      (fun op hop => calling_of_allows h.sessions hallows hop) hnormal
    refine ⟨?_, alone_processesAfter _ h.alone, ?_, ?_, ?_⟩
    · rw [Machine.run_append, h.run, Option.bind_some, Machine.run, hloop]
      rfl
    · refine (congrArg (·.hub.daemon.central.sessions) hnext).trans (hsessions.trans ?_)
      rw [map_processesAfter _ h.alone, ← h.sessions]
      rfl
    · refine (congrArg Serial.links hnext).trans (hlinks.trans ?_)
      rw [linkAt_processesAfter]
      exact h.links
    · intro ref
      have hthere : ref < self.processes.length ∨
          (self.calls interp w event).filterMap (·.command? ref) = [] := by
        rcases lt_or_ge ref self.processes.length with hlt | hge
        · exact .inl hlt
        · refine .inr ((hcommands ref).trans (hnone ref ?_))
          have hlength := congrArg List.length h.sessions
          rw [List.length_map] at hlength
          exact hlength.trans_le hge
      -- the journal so far has brought the daemon to where the calls are made
      have hserial : self.loop.shared.serial = (Loop.journal (Daemon.body interp w) (callback w)
          (operations w) events _).foldl (Serial.perform interp) _ :=
        Loop.run_journal (A := (Station.new configStore hubConfigStore disk times awaitsClients
          unlinkError).launched address scan) (serial_follows interp w) h.run
      rw [Loop.journal_append h.run, entries_append, sentTo_append, Loop.journal_singleton hloop,
        acceptedAt_processesAfter hthere, h.accepted ref]
      refine congrArg _ ((hcommands ref).trans ?_)
      rw [hserial]
      rfl
  · cases hstep

theorem Fits.own (h : self.Fits interp w text ((Station.new configStore hubConfigStore disk times
      awaitsClients unlinkError).launch address scan) events) {ref : SessionRef}
    {action : Process.Action} (hstep : self.step interp w text (.own ref action) = some after) :
    ∃ changes connected lastError, after.Fits interp w text ((Station.new configStore hubConfigStore
      disk times awaitsClients unlinkError).launch address scan)
        (events ++ ownEvents ref changes connected lastError) := by
  rw [step] at hstep
  split at hstep
  · rename_i hown
    obtain ⟨p, hp, hstep⟩ := Option.bind_eq_some_iff.mp hstep
    obtain ⟨q, hq, rfl⟩ := Option.map_eq_some_iff.mp hstep
    have hmem : p ∈ self.processes := List.mem_of_getElem? hp
    have halone : p.StartedOnce := h.alone p hmem
    obtain ⟨changes, hchanges⟩ := (halone.owned hown hq).changes
    have hsession : self.loop.shared.central.sessions[ref]? = some p.toSession := by
      rw [h.sessions, List.getElem?_map, hp]
      rfl
    obtain ⟨hrun, hjournal⟩ := run_ownEvents interp w changes hsession q.connected
      (q.courier.lastError.map text)
    refine ⟨changes, q.connected, q.courier.lastError.map text, ?_, ?_, ?_, ?_, ?_⟩
    · rw [Machine.run_append, h.run, Option.bind_some, hrun, hchanges]
      rfl
    · intro r hr
      rcases List.mem_or_eq_of_mem_set hr with hr | rfl
      · exact h.alone r hr
      · exact halone.step (by rintro rfl; cases hown) hq
    · show self.loop.shared.central.sessions.set ref q.toSession = _
      rw [h.sessions, List.map_set]
    · show Function.update self.loop.shared.links ref _ = _
      rw [h.links]
      funext i
      obtain ⟨hlt, _⟩ := List.getElem?_eq_some_iff.mp hp
      rcases eq_or_ne i ref with rfl | hne
      · simp [linkAt, hlt]
      · simp [linkAt, hne, List.getElem?_set_ne hne.symm]
    · intro i
      rw [Loop.journal_append h.run, entries_append, sentTo_append, hjournal, sends_own]
      refine Eq.trans ?_ ((h.accepted i).trans (List.append_nil _).symm)
      obtain ⟨hlt, _⟩ := List.getElem?_eq_some_iff.mp hp
      rcases eq_or_ne ref i with rfl | hne
      · rw [acceptedAt, acceptedAt, List.getElem?_set_self hlt, hp]
        exact halone.accepted_own hown hq
      · simp [acceptedAt, List.getElem?_set_ne hne]
  · cases hstep

theorem standsIn_of_allows {event : Event Answer Callback} (h : self.allows event = true) :
    standsIn event = false := by
  cases event with
  | call cb =>
    rw [allows] at h
    simpa [Loop.job] using h
  | _ => rfl

theorem filter_ownEvents (ref : SessionRef) (changes : List SessionChange) (connected : Bool)
    (lastError : Option Str) :
    (ownEvents ref changes connected lastError).filter (fun event => !standsIn event) = [] := by
  rw [List.filter_eq_nil_iff]
  intro event hevent
  rcases List.mem_append.mp hevent with hevent | hevent
  · obtain ⟨change, _, rfl⟩ := List.mem_map.mp hevent
    exact Bool.false_ne_true
  · obtain rfl := List.mem_singleton.mp hevent
    exact Bool.false_ne_true

theorem Fits.launch : (Whole.launch (Station.new configStore hubConfigStore disk times awaitsClients
    unlinkError) address scan).Fits interp w text ((Station.new configStore hubConfigStore disk
      times awaitsClients unlinkError).launch address scan) [] where
  run := rfl
  alone := List.forall_mem_nil _
  sessions := rfl
  links := rfl
  accepted _ := rfl

/-- A move of the whole hub is some callbacks of the daemon alone. -/
theorem Fits.step {move : Move} (h : self.Fits interp w text ((Station.new configStore
      hubConfigStore disk times awaitsClients unlinkError).launch address scan) events)
    (hstep : self.step interp w text move = some after) :
    ∃ more, after.Fits interp w text ((Station.new configStore hubConfigStore disk times
        awaitsClients unlinkError).launch address scan) (events ++ more) ∧
      more.filter (fun event => !standsIn event) = move.hub?.toList := by
  cases move with
  | hub event =>
    have hallows : self.allows event = true := by
      rw [Whole.step] at hstep
      split at hstep
      · assumption
      · cases hstep
    refine ⟨[event], h.hub hstep, ?_⟩
    rw [List.filter_cons, standsIn_of_allows hallows]
    rfl
  | own ref action =>
    obtain ⟨changes, connected, lastError, hown⟩ := h.own hstep
    exact ⟨ownEvents ref changes connected lastError, hown, filter_ownEvents ..⟩

/-- A run of the whole hub is one of the daemon alone. -/
theorem Fits.of_run {moves : List Move} (hrun : Machine.run (Whole.step interp w text) moves
      (Whole.launch (Station.new configStore hubConfigStore disk times awaitsClients unlinkError)
        address scan) = some after) :
    ∃ events, after.Fits interp w text ((Station.new configStore hubConfigStore disk times
        awaitsClients unlinkError).launch address scan) events ∧
      events.filter (fun event => !standsIn event) = moves.filterMap Move.hub? :=
  Machine.run_matched (fun _ _ _ _ h hstep => h.step hstep) Fits.launch hrun

end

end Whole

/-- A node is connected, its session subscribes, a client sends it a command, and the worker writes
    the command. -/
def sendAndWrite : List Move :=
  [.hub .tick, .hub (.resume 0 .done), .hub .tick,
    .hub (.call (.client (some (.connect (str "11:22:33:44:55:66"))))), .hub .tick, .hub .tick,
    .own 0 (.run 0 (.ok true) 0), .own 0 (.run 0 (.ok true) 0), .own 0 (.run 0 (.ok true) 0),
    .own 0 (.run 0 (.ok true) 0), .own 0 (.worker 0 (.ok ())),
    .hub (.call (.client (some (.commandSend (.str (str "11:22:33:44:55:66"))
      (.str (str "exit")))))), .hub .tick,
    .own 0 (.worker 0 (.ok ())), .own 0 (.worker 0 (.ok ()))]

section
variable (interp : Interpreter) (w : Writer) (text : PyError → Str)
  (configStore : DeviceConfigStore) (hubConfigStore : HubConfigStore) (disk : Files.FS)
  (times : ℕ → ℚ) (awaitsClients : Bool) (unlinkError : Option PyError) (address : Option Str)
  (scan : Bool) (moves : List Move) (W : Whole)

/-- CORRECT: the daemon's model covers the tasks of its sessions. Every run of the daemon together
    with its sessions' tasks, in any order, is a run of the daemon alone with the same events of its
    own in the same order, and what the daemon sees of the sessions is what their tasks made of
    them. (For both, a config's type, name or location that is no string is its text.) -/
theorem session_tasks_covered (hrun : Machine.run (Whole.step interp w text) moves
      (Whole.launch (Station.new configStore hubConfigStore disk times awaitsClients unlinkError)
        address scan) = some W) :
    ∃ events, Machine.run (Daemon.loopStep interp w) events ((Station.new configStore hubConfigStore
        disk times awaitsClients unlinkError).launch address scan) = some W.loop ∧
      events.filter (fun event => !standsIn event) = moves.filterMap Move.hub? ∧
      W.loop.shared.central.sessions = W.processes.map Process.toSession ∧
      ∀ ref p, W.processes[ref]? = some p →
        W.loop.shared.links ref = (p.connected, p.courier.lastError.map text) := by
  obtain ⟨events, hfits, hfilter⟩ := Whole.Fits.of_run hrun
  refine ⟨events, hfits.run, hfilter, hfits.sessions, ?_⟩
  intro ref p hp
  rw [hfits.links, linkAt, hp]
  rfl

/-- In the end the node is connected, for the session and for the daemon. -/
theorem sendAndWrite_covered : ∃ W events,
    Machine.run (Whole.step freshInterpreter openDisk fun _ => []) sendAndWrite
      (Whole.launch freshStation none false) = some W ∧
    W.processes.map (·.connected) = [true] ∧
    Machine.run (Daemon.loopStep freshInterpreter openDisk) events
      (freshStation.launch none false) = some W.loop ∧
    events.filter (fun event => !standsIn event) = sendAndWrite.filterMap Move.hub? ∧
    W.loop.shared.central.sessions = W.processes.map Process.toSession := by
  have hstate : (Machine.run (Whole.step freshInterpreter openDisk fun _ => []) sendAndWrite
      (Whole.launch freshStation none false)).map (fun W =>
        decide (W.processes.map (·.connected) = [true])) = some true := by decide +kernel
  obtain ⟨W, hrun, hconnected⟩ := Option.map_eq_some_iff.mp hstate
  obtain ⟨events, hevents, hfilter, hsessions, _⟩ :=
    session_tasks_covered freshInterpreter openDisk _ _ _ _ _ _ _ _ _ _ W hrun
  exact ⟨W, events, hrun, of_decide_eq_true hconnected, hevents, hfilter, hsessions⟩

/-- CORRECT: commands can be followed to the air. In every run of the daemon together with its
    sessions' tasks, what frames and clients have sent to a session is, in order, what its worker
    has attempted, what it is writing and what is in the queue; and the frames written are those of
    the commands that did not fail. (In a command, a config's location that is no string is its
    text.) -/
theorem commands_followed (hrun : Machine.run (Whole.step interp w text) moves
      (Whole.launch (Station.new configStore hubConfigStore disk times awaitsClients unlinkError)
        address scan) = some W) :
    ∃ events, Machine.run (Daemon.loopStep interp w) events ((Station.new configStore hubConfigStore
        disk times awaitsClients unlinkError).launch address scan) = some W.loop ∧
      events.filter (fun event => !standsIn event) = moves.filterMap Move.hub? ∧
      ∀ ref p, W.processes[ref]? = some p →
        sentTo (entries (Serial.perform interp) (Serial.sends interp)
            (Loop.journal (Daemon.body interp w) (callback w) (operations w) events
              ((Station.new configStore hubConfigStore disk times awaitsClients unlinkError).launch
                address scan))
            (Station.new configStore hubConfigStore disk times awaitsClients unlinkError).serial)
            ref =
          p.courier.attempts.map Prod.fst ++ p.courier.inFlight ++ p.courier.queue ∧
        p.courier.written.map (fun c => buildCommandFrame c.address c.command) =
          p.courier.frames.map .ok := by
  obtain ⟨events, hfits, hfilter⟩ := Whole.Fits.of_run hrun
  refine ⟨events, hfits.run, hfilter, ?_⟩
  intro ref p hp
  have horderly := (hfits.alone p (List.mem_of_getElem? hp)).orderly
  refine ⟨?_, Courier.frames_built fun _ _ hx => horderly.sound.frame hx⟩
  have haccepted := hfits.accepted ref
  rw [acceptedAt, hp] at haccepted
  exact haccepted.symm.trans horderly.inOrder

end

/-- The client's command was written, and is the one that was sent. -/
theorem sendAndWrite_followed : ∃ W events p,
    Machine.run (Whole.step freshInterpreter openDisk fun _ => []) sendAndWrite
      (Whole.launch freshStation none false) = some W ∧
    W.processes[0]? = some p ∧ p.courier.written.map (·.command) = [str "strong_exit"] ∧
    sentTo (entries (Serial.perform freshInterpreter) (Serial.sends freshInterpreter)
        (Loop.journal (Daemon.body freshInterpreter openDisk) (callback openDisk)
          (operations openDisk) events (freshStation.launch none false)) freshStation.serial) 0 =
      p.courier.attempts.map Prod.fst ++ p.courier.inFlight ++ p.courier.queue := by
  have hstate : (Machine.run (Whole.step freshInterpreter openDisk fun _ => []) sendAndWrite
      (Whole.launch freshStation none false)).map (fun W => decide ((W.processes[0]?.map fun p =>
        p.courier.written.map (·.command)) = some [str "strong_exit"])) = some true := by
    decide +kernel
  obtain ⟨W, hrun, hwritten⟩ := Option.map_eq_some_iff.mp hstate
  obtain ⟨p, hp, hcommand⟩ := Option.map_eq_some_iff.mp (of_decide_eq_true hwritten)
  obtain ⟨events, _, _, hfollowed⟩ :=
    commands_followed freshInterpreter openDisk _ _ _ _ _ _ _ _ _ _ W hrun
  exact ⟨W, events, p, hrun, hp, hcommand, (hfollowed 0 p hp).1⟩

end SlimHub
