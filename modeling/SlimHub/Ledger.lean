import SlimHub.Outcomes

/-! The commands that the daemon sends, and the queues that take them.

        handle_frame ── estimator ──┐
                                    ├── registry.send_command ── queue of a session ── its worker
        command.send ───────────────┘

    A session's queue is fed by frames and by clients, from anywhere in the registry, and emptied by
    the session's own worker. Over a run, what was sent to a session is what its worker took and
    what is still in the queue, in the same order. -/

namespace SlimHub
open Text Nus Json Ble Unitspace Asyncio Logging DeviceConfigStore

/-- The commands that went to one session, in order. -/
def sentTo (sent : List (CommandEvent × Option SessionRef)) (ref : SessionRef) :
    List CommandEvent :=
  (sent.filter (·.2 = some ref)).map Prod.fst

theorem sentTo_append (sent sent' : List (CommandEvent × Option SessionRef)) (ref : SessionRef) :
    sentTo (sent ++ sent') ref = sentTo sent ref ++ sentTo sent' ref := by
  simp [sentTo]

/-! ### The queues of the central -/

namespace Ble.BleCentral

/-- The queue of a session; empty as long as there is none. -/
def queue (self : BleCentral) (ref : SessionRef) : List CommandEvent :=
  (self.sessions[ref]?.map (·.commandQueue)).getD []

variable {c c' c'' : BleCentral} {sent sent' : List (CommandEvent × Option SessionRef)}

/-- The tables stay in order, and the queues gain what is sent. -/
structure Posts (c c' : BleCentral) (sent : List (CommandEvent × Option SessionRef)) : Prop where
  tables : Tables c'
  queue : ∀ i, c'.queue i = c.queue i ++ sentTo sent i

theorem Posts.refl (h : Tables c) : Posts c c [] := ⟨h, fun _ => (List.append_nil _).symm⟩

theorem Posts.trans (h : Posts c c' sent) (h' : Posts c' c'' sent') :
    Posts c c'' (sent ++ sent') where
  tables := h'.tables
  queue i := by rw [h'.queue, h.queue, sentTo_append, List.append_assoc]

theorem queue_modify {f : DeviceSession → DeviceSession}
    (hf : ∀ session, (f session).commandQueue = session.commandQueue) (c : BleCentral)
    (ref i : SessionRef) :
    queue { c with sessions := c.sessions.modify ref f } i = c.queue i := by
  rw [queue, queue, List.getElem?_modify]
  cases c.sessions[i]? with
  | none => rfl
  | some session =>
    simp only [Option.map_eq_map, Option.map_some]
    split
    · exact hf session
    · rfl

/-- A change of a session that leaves its address and its queue. -/
theorem posts_modify (h : Tables c) (ref : SessionRef) {f : DeviceSession → DeviceSession}
    (haddress : ∀ session, (f session).address = session.address)
    (hqueue : ∀ session, (f session).commandQueue = session.commandQueue) :
    Posts c { c with sessions := c.sessions.modify ref f } [] where
  tables := (quiet_modify c ref haddress).tables h
  queue i := by rw [queue_modify hqueue]; exact (List.append_nil _).symm

/-- A new session has an empty queue, and a target that is found keeps its own. -/
theorem posts_ensureTarget (h : Tables c) (target : Target) (now : ℚ) :
    Posts c (c.ensureTarget target now).1 [] where
  tables := (h.ensureTarget target now).1
  queue i := by
    rw [sentTo, List.filter_nil, List.map_nil, List.append_nil]
    cases hnorm : normalizeMac target.addressText with
    | error exc => rw [ensureTarget_invalid hnorm]
    | ok a =>
      cases hfind : c.registry.find a with
      | none =>
        rw [ensureTarget_new hnorm hfind, queue, queue]
        rcases lt_trichotomy i c.sessions.length with hlt | rfl | hgt
        · rw [List.getElem?_append_left hlt]
        · rw [List.getElem?_concat_length, List.getElem?_eq_none le_rfl]
          rfl
        · rw [List.getElem?_eq_none hgt.le, List.getElem?_eq_none (by simpa using hgt)]
      | some ref =>
        rw [ensureTarget_found hnorm hfind]
        exact queue_modify (fun session => (session.updateTarget_ok now hnorm).2.2) c ref i

end Ble.BleCentral

/-! ### What an operation sends -/

namespace Serial

variable (interp : Interpreter) (self : Serial)

/-- The `handle_frame` call for a frame. -/
def handled (task : FrameTask) (logRaises : LogEvent → Option PyError) : Handled :=
  { self.hub.daemon with frameTasks := [] }.handleFrame task.source task.frame
    (((ConfigWrite.framed task.frame.mac).apply interp self.hub.configStore).2.map
      (DeviceRecord.config interp)) self.now (self.frameLogged interp task logRaises)

/-- The commands that an operation sends, each with the session that takes it: those of the
    estimator for a frame, and the one of a `command.send` request that succeeds. -/
def sends : Operation → List (CommandEvent × Option SessionRef)
  | .frame task logRaises => (self.handled interp task logRaises).sent
  | .request (.commandSend address command) =>
    match (self.hub.sendCommand interp self.links address command).2,
      self.hub.configStore.load interp (fieldText interp address) with
    | .ok reply, .ok record =>
      [(⟨reply.address, reply.command, fieldText interp record.location⟩,
        self.hub.registry.find reply.address)]
    | _, _ => []
  | _ => []

/-- The command that a session's worker takes from its queue. -/
def takes (ref : SessionRef) : Operation → List CommandEvent
  | .session worker .takesCommand =>
    if worker = ref then (self.hub.daemon.central.queue ref).take 1 else []
  | _ => []

variable {interp self}

theorem handle_central (task : FrameTask) (logRaises : LogEvent → Option PyError) :
    (self.handle interp task logRaises).hub.daemon.central =
      (self.handled interp task logRaises).daemon.central := by
  simp only [handle, handled, Hub.runTask, SlimHubDaemon.runTask, Option.map_some,
    Option.getD_some, SlimHubDaemon.handleFrame, Hub.registry]
  cases self.hub.daemon.central.registry.registerAlias task.frame.mac task.source with
  | error exc => rfl
  | ok registry => rfl

open BleCentral

theorem posts_connect (h : Tables self.hub.daemon.central) (address : Str) :
    Posts self.hub.daemon.central (self.connect interp address).1.hub.daemon.central [] := by
  rw [Serial.connect]
  cases hnorm : normalizeMac address with
  | error exc =>
    rw [Hub.connectAddress, hnorm]
    exact Posts.refl h
  | ok a =>
    obtain ⟨_, _, heq⟩ := @connectAddress_eq interp self.hub h self.links self.now _ _ hnorm
    rw [heq]
    exact posts_ensureTarget h (.text a) self.now

theorem posts_scanDevice (h : Tables self.hub.daemon.central) (device : Target) :
    Posts self.hub.daemon.central (self.scanDevice interp device).1.hub.daemon.central [] := by
  have hposts := posts_ensureTarget h device self.now
  rw [Serial.scanDevice, Hub.startOrUpdateSession]
  cases normalizeMac device.addressText with
  | error exc => exact Posts.refl h
  | ok a =>
    revert hposts
    rcases self.hub.daemon.central.ensureTarget device self.now with ⟨central, _ | ref⟩
    · exact id
    · exact id

theorem posts_scan (h : Tables self.hub.daemon.central) (devices : List Target) :
    Posts self.hub.daemon.central (Serial.scan interp devices self).hub.daemon.central [] := by
  induction devices generalizing self with
  | nil => exact Posts.refl h
  | cons device devices ih =>
    have hdevice := @posts_scanDevice interp self h device
    rw [Serial.scan]
    cases (self.scanDevice interp device).2 with
    | error exc => exact hdevice
    | ok _ => exact hdevice.trans (ih hdevice.tables)

/-- A session that a command is sent to is there. -/
theorem sentTo_of_none {c : BleCentral} (h : Tables c)
    {sent : List (CommandEvent × Option SessionRef)}
    (hsent : ∀ d ∈ sent, c.registry.get d.1.address = .ok d.2) {i : SessionRef}
    (hnone : c.sessions[i]? = none) : sentTo sent i = [] := by
  rw [sentTo, List.map_eq_nil_iff, List.filter_eq_nil_iff]
  intro d hd hdest
  have hget := hsent d hd
  rw [of_decide_eq_true hdest] at hget
  cases hnorm : normalizeMac d.1.address with
  | error exc => rw [DeviceRegistry.get, hnorm] at hget; cases hget
  | ok a =>
    rw [DeviceRegistry.get_ok hnorm] at hget
    obtain ⟨session, hsession⟩ := session_of_find h (Except.ok.inj hget)
    rw [hnone] at hsession
    cases hsession

/-- What the call does to the central. -/
theorem handled_spec {task : FrameTask} (hmac : normalizeMac task.frame.mac = .ok task.frame.mac)
    (hsource : normalizeMac task.source = .ok task.source)
    (logRaises : LogEvent → Option PyError) :
    let registry := aliased self.hub.registry task.frame.mac task.source
    let handled := self.handled interp task logRaises
    QueuesOnly { self.hub.daemon.central with registry } handled.daemon.central ∧
      (∀ d ∈ handled.sent, registry.get d.1.address = .ok d.2) ∧
      ∀ {i session}, self.hub.session i = some session → ∃ session',
        handled.daemon.central.sessions[i]? = some session' ∧
          session'.commandQueue = session.commandQueue ++ sentTo handled.sent i := by
  obtain ⟨-, hqueues, -, hsent, htrue⟩ := handleFrame_spec { self.hub.daemon with frameTasks := [] }
    (((ConfigWrite.framed task.frame.mac).apply interp self.hub.configStore).2.map
      (DeviceRecord.config interp)) self.now (self.frameLogged interp task logRaises) hmac hsource
  exact ⟨hqueues, hsent, htrue⟩

theorem posts_handle (h : Tables self.hub.daemon.central) {task : FrameTask}
    (hmac : normalizeMac task.frame.mac = .ok task.frame.mac)
    (hsource : normalizeMac task.source = .ok task.source)
    (logRaises : LogEvent → Option PyError) :
    Posts self.hub.daemon.central (self.handle interp task logRaises).hub.daemon.central
      (self.handled interp task logRaises).sent := by
  obtain ⟨hqueues, hsent, htrue⟩ := @handled_spec interp self task hmac hsource logRaises
  obtain ⟨haliased, -⟩ := tables_aliased h task.frame.mac task.source
  rw [handle_central]
  refine ⟨hqueues.tables haliased, fun i => ?_⟩
  cases hsession : self.hub.session i with
  | some session =>
    obtain ⟨session', hsession', hqueue⟩ := htrue hsession
    rw [BleCentral.queue, BleCentral.queue, hsession', show
      self.hub.daemon.central.sessions[i]? = some session from hsession]
    exact hqueue
  | none =>
    rw [sentTo_of_none haliased hsent hsession]
    cases hsession' : (self.handled interp task logRaises).daemon.central.sessions[i]? with
    | none =>
      rw [BleCentral.queue, BleCentral.queue, hsession', show
        self.hub.daemon.central.sessions[i]? = none from hsession]
      rfl
    | some session' =>
      obtain ⟨_, hbefore, _⟩ := hqueues.getElem? hsession'
      rw [show self.hub.daemon.central.sessions[i]? = none from hsession] at hbefore
      cases hbefore

theorem posts_applyConfigs {h : Hub} (ht : Tables h.daemon.central)
    (configs : List DeviceRecord) :
    Posts h.daemon.central (h.applyConfigs interp configs).1.daemon.central [] := by
  induction configs generalizing h with
  | nil => exact Posts.refl ht
  | cons config configs ih =>
    rw [Hub.applyConfigs, Hub.renamed]
    cases h.registry.get config.address with
    | error exc => exact Posts.refl ht
    | ok found =>
      cases found with
      | none => exact ih ht
      | some ref =>
        have hposts := posts_modify ht ref (f := fun session =>
          { session with name := orDefault (config.config interp).name session.name })
          (fun _ => rfl) fun _ => rfl
        exact hposts.trans (ih (h := h.withSession ref _) hposts.tables)

/-- A command that a client sends. -/
theorem posts_sendCommand (h : Tables self.hub.daemon.central) (address command : Value) :
    Posts self.hub.daemon.central
      (self.hub.sendCommand interp self.links address command).1.daemon.central
      (self.sends interp (.request (.commandSend address command))) := by
  rcases @Hub.sendCommand_cases interp self.hub self.links address command with
    ⟨exc, heq⟩ | ⟨text, a, name, validated, ref, record, rfl, hnorm, rfl, hvalid, hfind, hload, heq⟩
  · rw [sends, heq]
    exact Posts.refl h
  · obtain ⟨session, hsession⟩ := session_of_find h hfind
    have hload' : self.hub.configStore.load interp text = .ok record :=
      (load_congr interp _ hnorm).trans hload
    have hsent : (self.hub.withSession ref (·.sendCommand
        ⟨a, validated, fieldText interp record.location⟩)).session ref = some (session.sendCommand
          ⟨a, validated, fieldText interp record.location⟩) := by
      simp [Hub.session, Hub.withSession, hsession]
    simp only [hsent] at heq
    rw [sends, heq]
    have htext : fieldText interp (.str text) = text := rfl
    simp only [htext, hload', hfind]
    refine ⟨(quiet_modify (f := (·.sendCommand ⟨a, validated, fieldText interp record.location⟩))
      self.hub.daemon.central ref fun _ => rfl).tables h, fun i => ?_⟩
    simp only [BleCentral.queue, Hub.withSession, List.getElem?_modify, sentTo]
    rcases eq_or_ne ref i with rfl | hne
    · simp [hsession, DeviceSession.sendCommand]
    · simp [hne]

/-- An operation gives the queues what it sends, after the worker has taken what it takes. -/
theorem queue_perform (h : Tables self.hub.daemon.central) {op : Operation} (hop : op.Normal) :
    Tables (self.perform interp op).hub.daemon.central ∧ ∀ i,
      self.hub.daemon.central.queue i ++ sentTo (self.sends interp op) i =
        self.takes i op ++ (self.perform interp op).hub.daemon.central.queue i := by
  have posts {c : BleCentral} {sent : List (CommandEvent × Option SessionRef)}
      (hposts : Posts self.hub.daemon.central c sent) : Tables c ∧ ∀ i,
        self.hub.daemon.central.queue i ++ sentTo sent i = [] ++ c.queue i :=
    ⟨hposts.tables, fun i => (hposts.queue i).symm⟩
  cases op with
  | loadHubConfig => exact posts (Posts.refl h)
  | connect address => exact posts (posts_connect h address)
  | scan devices => exact posts (posts_scan h devices)
  | frame task logRaises => exact posts (posts_handle h hop.1 hop.2 logRaises)
  | request request =>
    cases request with
    | connect address => exact posts (posts_connect h address)
    | commandSend address command => exact posts (posts_sendCommand h address command)
    | configApply =>
      refine posts (c := (self.hub.applyConfig interp).1.daemon.central) ?_
      rw [Hub.applyConfig]
      cases self.hub.configStore.listAll interp with
      | error exc => exact Posts.refl h
      | ok configs => exact posts_applyConfigs h configs
    | _ => exact posts (Posts.refl h)
  | session worker change =>
    cases change with
    | takesCommand =>
      refine ⟨(quiet_modify self.hub.daemon.central worker
        (f := SessionChange.takesCommand.apply) fun _ => rfl).tables h, fun i => ?_⟩
      simp only [sends, takes, sentTo, List.filter_nil, List.map_nil, List.append_nil, perform,
        Hub.withSession, BleCentral.queue, List.getElem?_modify]
      rcases eq_or_ne worker i with rfl | hne
      · cases self.hub.daemon.central.sessions[worker]? with
        | none => simp
        | some session =>
          simp only [if_true, Option.map_some, Option.getD_some, Option.map_eq_map,
            SessionChange.apply]
          exact (List.take_append_drop 1 session.commandQueue).symm
      · simp [hne]
    | _ => exact posts (posts_modify h worker (fun _ => rfl) fun _ => rfl)
  | link ref connected lastError => exact posts (Posts.refl h)
  | stopSession ref => exact posts (posts_modify h ref (fun _ => rfl) fun _ => rfl)

end Serial

/-- A node is connected and reports that a person enters, a client sends it a command, and its
    worker takes one. -/
def sendThenTake : List (Event Answer Callback) :=
  reportTwice ++ [.call (.client (some (.commandSend (.str (str "11:22:33:44:55:66"))
    (.str (str "exit"))))), .tick, .call (.session 0 .takesCommand)]

/-- CORRECT: no command is lost, repeated, reordered or misdelivered between the daemon and the
    workers. In every run, whatever turns the tasks take, what was sent to a session, by frames and
    by clients, is what its worker took, followed by what is in its queue. (In a command, a config's
    location that is no string is its text.) -/
theorem commands_accounted (interp : Interpreter) (w : Writer) (configStore : DeviceConfigStore)
    (hubConfigStore : HubConfigStore) (disk : Files.FS) (times : ℕ → ℚ) (awaitsClients : Bool)
    (unlinkError : Option PyError) (address : Option Str) (scan : Bool)
    (events : List (Event Answer Callback)) (L : Loop Station Point PyError Answer)
    (hrun : Machine.run (Daemon.loopStep interp w) events
      ((Station.new configStore hubConfigStore disk times awaitsClients unlinkError).launch address
        scan) = some L) (ref : SessionRef) :
    let station := Station.new configStore hubConfigStore disk times awaitsClients unlinkError
    let journal := Loop.journal (Daemon.body interp w) (callback w) (operations w) events
      (station.launch address scan)
    sentTo (entries (Serial.perform interp) (Serial.sends interp) journal station.serial) ref =
      entries (Serial.perform interp) (fun s => s.takes ref) journal station.serial ++
        L.shared.central.queue ref := by
  intro station journal
  have hserial : L.shared.serial = journal.foldl (Serial.perform interp) station.serial :=
    Loop.run_journal (A := station.launched address scan) (serial_follows interp w) hrun
  have hnormal : ∀ op ∈ journal, op.Normal := normal_journal (arrived_new ..) events
  have hqueue := queue_entries (fun s : Serial => Tables s.hub.daemon.central) Operation.Normal
    (fun s => s.hub.daemon.central.queue ref) (fun s op => sentTo (s.sends interp op) ref)
    (fun s => s.takes ref) (fun s op hs hop => (Serial.queue_perform hs hop).1)
    (fun s op hs hop => (Serial.queue_perform hs hop).2 ref) hnormal
    (show Tables station.serial.hub.daemon.central from Tables.empty)
  have hempty : station.serial.hub.daemon.central.queue ref = [] := rfl
  have hend : (journal.foldl (Serial.perform interp) station.serial).hub.daemon.central =
      L.shared.central := congrArg (·.hub.daemon.central) hserial.symm
  rw [hempty, List.nil_append, hend] at hqueue
  rw [entries_map (f := (sentTo · ref)) rfl fun as bs => sentTo_append as bs ref]
  exact hqueue

/-- The worker took the frame's command, and the client's waits. -/
theorem sendThenTake_accounted : ∃ L,
    Machine.run (Daemon.loopStep freshInterpreter openDisk) sendThenTake
      (freshStation.launch none false) = some L ∧
    (L.shared.central.queue 0).map (·.command) = [str "strong_exit"] ∧
    sentTo (entries (Serial.perform freshInterpreter) (Serial.sends freshInterpreter)
        (Loop.journal (Daemon.body freshInterpreter openDisk) (callback openDisk)
          (operations openDisk) sendThenTake (freshStation.launch none false))
        freshStation.serial) 0 =
      entries (Serial.perform freshInterpreter) (fun s => s.takes 0)
        (Loop.journal (Daemon.body freshInterpreter openDisk) (callback openDisk)
          (operations openDisk) sendThenTake (freshStation.launch none false))
        freshStation.serial ++ L.shared.central.queue 0 := by
  have hstate : (Machine.run (Daemon.loopStep freshInterpreter openDisk) sendThenTake
      (freshStation.launch none false)).map (fun L =>
        decide ((L.shared.central.queue 0).map (·.command) = [str "strong_exit"])) = some true := by
    decide +kernel
  obtain ⟨L, hrun, hqueue⟩ := Option.map_eq_some_iff.mp hstate
  exact ⟨L, hrun, of_decide_eq_true hqueue,
    commands_accounted freshInterpreter openDisk _ _ _ _ _ _ _ _ _ L hrun 0⟩

end SlimHub
