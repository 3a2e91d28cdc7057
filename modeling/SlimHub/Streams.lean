import SlimHub.Upkeep

/-! From the bytes of a connection to the frames that are handled.

        connection 0    ▪▪▪▪│▪▪│▪▪▪▪▪    assembler    frames ──┐
        connection 1    ▪▪│▪▪▪▪▪▪▪│▪     assembler    frames ──┼── tasks ── handle_frame
        …                                                     ─┘

    Notifications of all connections come in any order and in pieces of any length. What becomes of
    a connection depends on its own bytes alone: its assembler is as if these had come at once, and
    its tasks are the frames that parse among those, in order. -/

namespace SlimHub
open Text Nus Json Ble Unitspace Asyncio Logging

/-! ### What comes from the nodes -/

/-- The connections with their assemblers, and the frames that are complete, as tasks. -/
structure Reception where
  connections : List (SessionRef × FrameAssembler)
  completed : List FrameTask

/-- A session opens a connection, or bytes come over one while its session has this address. -/
inductive Arrival where
  | opens (ref : SessionRef)
  | bytes (connection : ℕ) (address : Str) (data : Bytes)

namespace Reception

variable (self : Reception)

/-- The tasks of the frames that an arrival completes, with their connection. -/
def tasks : Arrival → List (ℕ × FrameTask)
  | .opens _ => []
  | .bytes connection address data =>
    match self.connections[connection]? with
    | none => []
    | some (ref, assembler) => (onFrameCalls (handleNotify address assembler data).2.1).map
      fun frame => (connection, ⟨ref, address, frame⟩)

def perform (arrival : Arrival) : Reception where
  connections :=
    match arrival with
    | .opens ref => self.connections ++ [(ref, .new)]
    | .bytes connection address data => self.connections.modify connection fun entry =>
      (entry.1, (handleNotify address entry.2 data).1)
  completed := self.completed ++ (self.tasks arrival).map Prod.snd

/-- The bytes that come over a connection. -/
def received (k : ℕ) : Arrival → Bytes
  | .opens _ => []
  | .bytes connection _ data =>
    if connection = k ∧ k < self.connections.length then data else []

variable {self} {connection k : ℕ} {address : Str} {data : Bytes}

theorem tasks_of_none (h : self.connections[connection]? = none) :
    self.tasks (.bytes connection address data) = [] := by
  rw [tasks, h]

theorem tasks_of_some {ref : SessionRef} {assembler : FrameAssembler}
    (h : self.connections[connection]? = some (ref, assembler)) :
    self.tasks (.bytes connection address data) =
      (accepted (assembler.push data).2).map fun frame => (connection, ⟨ref, address, frame⟩) := by
  simp only [tasks, h, handleNotify, handleFrames_eq, onFrameCalls_report]

theorem filter_tasks_of_ne (h : connection ≠ k) :
    (self.tasks (.bytes connection address data)).filter (·.1 = k) = [] := by
  rw [List.filter_eq_nil_iff]
  intro task htask
  cases hentry : self.connections[connection]? with
  | none =>
    rw [tasks_of_none hentry] at htask
    cases htask
  | some entry =>
    rw [tasks_of_some hentry] at htask
    obtain ⟨frame, _, rfl⟩ := List.mem_map.mp htask
    simpa using h

end Reception

/-! ### One connection -/

namespace Nus.FrameAssembler

/-- Bytes that come in two pieces are pushed as one. -/
theorem push_append (self : FrameAssembler) (bytes data : Bytes) :
    (self.push (bytes ++ data)).1 = ((self.push bytes).1.push data).1 ∧
      accepted (self.push (bytes ++ data)).2 =
        accepted (self.push bytes).2 ++ accepted ((self.push bytes).1.push data).2 := by
  have hpieces := self.pushAll_cons bytes [data]
  simp only [pushAll, List.append_nil, List.flatten_cons, List.flatten_nil] at hpieces
  rw [← hpieces]
  exact ⟨rfl, List.filterMap_append ..⟩

end Nus.FrameAssembler

/-- The state of a connection after the bytes that came over it, and its tasks. -/
structure Received (k : ℕ) (reception : Reception) (bytes : Bytes) (tasks : List (ℕ × FrameTask)) :
    Prop where
  unopened : reception.connections[k]? = none → bytes = [] ∧ tasks = []
  assembler : ∀ {ref assembler}, reception.connections[k]? = some (ref, assembler) →
    assembler = (FrameAssembler.new.push bytes).1 ∧
      tasks.map (·.2.frame) = accepted (FrameAssembler.new.push bytes).2 ∧
      ∀ task ∈ tasks, task.2.session = ref

/-- Every arrival keeps it. -/
theorem Received.perform {k : ℕ} {reception : Reception} {bytes : Bytes}
    {tasks : List (ℕ × FrameTask)} (h : Received k reception bytes tasks) (arrival : Arrival) :
    Received k (reception.perform arrival) (bytes ++ reception.received k arrival)
      (tasks ++ (reception.tasks arrival).filter (·.1 = k)) := by
  cases arrival with
  | opens ref =>
    simp only [Reception.received, Reception.tasks, List.filter_nil, List.append_nil]
    rcases lt_trichotomy k reception.connections.length with hlt | rfl | hgt
    · have hsame : (reception.perform (.opens ref)).connections[k]? =
          reception.connections[k]? := List.getElem?_append_left hlt
      exact ⟨by rw [hsame]; exact h.unopened, by rw [hsame]; exact h.assembler⟩
    · obtain ⟨rfl, rfl⟩ := h.unopened (List.getElem?_eq_none le_rfl)
      have hnew : (reception.perform (.opens ref)).connections[reception.connections.length]? =
          some (ref, .new) := List.getElem?_concat_length
      refine ⟨fun hnone => ⟨rfl, rfl⟩, fun hsome => ?_⟩
      obtain ⟨rfl, rfl⟩ := Prod.mk.inj (Option.some.inj (hnew.symm.trans hsome))
      exact ⟨rfl, rfl, List.forall_mem_nil _⟩
    · obtain ⟨rfl, rfl⟩ := h.unopened (List.getElem?_eq_none hgt.le)
      have hnone : (reception.perform (.opens ref)).connections[k]? = none :=
        List.getElem?_eq_none (by simpa [Reception.perform] using hgt)
      exact ⟨fun _ => ⟨rfl, rfl⟩, fun hsome => absurd (hnone.symm.trans hsome)
        (Option.some_ne_none _).symm⟩
  | bytes connection address data =>
    have hperform : (reception.perform (.bytes connection address data)).connections[k]? =
        (reception.connections[k]?).map fun entry =>
          if connection = k then (entry.1, (entry.2.push data).1) else entry :=
      List.getElem?_modify ..
    cases hentry : reception.connections[k]? with
    | none =>
      obtain ⟨rfl, rfl⟩ := h.unopened hentry
      rw [hentry] at hperform
      refine ⟨fun _ => ?_, fun hsome => absurd (hperform.symm.trans hsome)
        (Option.some_ne_none _).symm⟩
      have hlen := List.getElem?_eq_none_iff.mp hentry
      rw [Reception.received, if_neg fun hopen => absurd hopen.2 hlen.not_gt, List.nil_append,
        List.nil_append]
      refine ⟨rfl, ?_⟩
      rcases eq_or_ne connection k with rfl | hne
      · rw [Reception.tasks_of_none hentry, List.filter_nil]
      · exact Reception.filter_tasks_of_ne hne
    | some entry =>
      obtain ⟨ref, assembler⟩ := entry
      obtain ⟨hassembler, hframes, hsession⟩ := h.assembler hentry
      have hlen : k < reception.connections.length := (List.getElem?_eq_some_iff.mp hentry).1
      rw [hentry] at hperform
      refine ⟨fun hnone => absurd (hperform.symm.trans hnone) (Option.some_ne_none _),
        fun hsome => ?_⟩
      have hsame := hperform.symm.trans hsome
      rcases eq_or_ne connection k with rfl | hne
      · simp only [Option.map_some, if_true, Option.some.injEq, Prod.mk.injEq] at hsame
        obtain ⟨rfl, rfl⟩ := hsame
        obtain ⟨hpush, haccepted⟩ := FrameAssembler.new.push_append bytes data
        have hmine : (reception.tasks (.bytes connection address data)).filter
            (·.1 = connection) = reception.tasks (.bytes connection address data) := by
          rw [Reception.tasks_of_some hentry, List.filter_eq_self]
          intro task htask
          obtain ⟨frame, _, rfl⟩ := List.mem_map.mp htask
          exact decide_eq_true rfl
        rw [Reception.received, if_pos ⟨rfl, hlen⟩, hpush, haccepted, ← hassembler, hmine,
          Reception.tasks_of_some hentry]
        refine ⟨rfl, ?_, fun task htask => ?_⟩
        · rw [List.map_append, hframes, List.map_map]
          exact congrArg (_ ++ ·) (List.map_id _)
        · rcases List.mem_append.mp htask with htask | htask
          · exact hsession task htask
          · obtain ⟨frame, _, rfl⟩ := List.mem_map.mp htask
            rfl
      · simp only [Option.map_some, if_neg hne, Option.some.injEq, Prod.mk.injEq] at hsame
        obtain ⟨rfl, rfl⟩ := hsame
        rw [Reception.received, if_neg fun hopen => hne hopen.1, Reception.filter_tasks_of_ne hne,
          List.append_nil, List.append_nil]
        exact ⟨hassembler, hframes, hsession⟩

/-- After any arrivals, a connection is as if its bytes had come at once. -/
theorem received_run (k : ℕ) (arrivals : List Arrival) :
    Received k (arrivals.foldl Reception.perform ⟨[], []⟩)
      (entries Reception.perform (fun reception => reception.received k) arrivals ⟨[], []⟩)
      ((entries Reception.perform Reception.tasks arrivals ⟨[], []⟩).filter (·.1 = k)) := by
  induction arrivals using List.reverseRecOn with
  | nil => exact ⟨fun _ => ⟨rfl, rfl⟩, fun hsome => by cases hsome⟩
  | append_singleton arrivals arrival ih =>
    rw [List.foldl_append, entries_concat, entries_concat, List.filter_append]
    exact ih.perform arrival

/-- The complete frames are the tasks of all arrivals. -/
theorem completed_run (arrivals : List Arrival) :
    (arrivals.foldl Reception.perform ⟨[], []⟩).completed =
      (entries Reception.perform Reception.tasks arrivals ⟨[], []⟩).map Prod.snd := by
  induction arrivals using List.reverseRecOn with
  | nil => rfl
  | append_singleton arrivals arrival ih =>
    rw [List.foldl_append, entries_concat, List.map_append, ← ih]
    rfl

/-! ### Every run -/

def Station.reception (self : Station) : Reception :=
  ⟨self.connections, self.history.completed⟩

/-- What comes from the nodes with a callback. Bytes of a session that is not there are lost. -/
def arrivals (s : Station) : Point ⊕ Callback → List Arrival
  | .inr (.subscribe ref) => [.opens ref]
  | .inr (.notify connection data) =>
    match s.connections[connection]?.bind fun entry => s.central.sessions[entry.1]? with
    | none => []
    | some session => [.bytes connection session.address data]
  | _ => []

theorem reception_callback (w : Writer) (s : Station) (cb : Callback) :
    (callback w cb s).1.reception =
      (arrivals s (.inr cb)).foldl Reception.perform s.reception := by
  cases cb with
  | subscribe ref =>
    simp [callback, arrivals, Station.reception, Reception.perform, Reception.tasks]
  | notify connection data =>
    simp only [callback, notified, arrivals]
    cases hentry : s.connections[connection]? with
    | none => rfl
    | some entry =>
      obtain ⟨ref, assembler⟩ := entry
      simp only [Option.bind_some]
      cases hsession : s.central.sessions[ref]? with
      | none => rfl
      | some session =>
        have hset : s.connections.set connection (ref, (handleNotify session.address assembler
            data).1) = s.connections.modify connection fun entry =>
              (entry.1, (handleNotify session.address entry.2 data).1) := by
          have hlen := (List.getElem?_eq_some_iff.mp hentry).1
          refine List.ext_getElem? fun i => ?_
          rw [List.getElem?_modify, List.getElem?_set]
          rcases eq_or_ne connection i with rfl | hne
          · simp only [if_true, if_pos hlen, hentry, Option.map_eq_map, Option.map_some]
          · simp [hne]
        simp only [List.foldl_cons, List.foldl_nil, Station.reception, Reception.perform,
          Reception.tasks, hentry, hset, List.map_map, Function.comp_def]
  | client line => cases line <;> rfl
  | _ => rfl

namespace Daemon
open Piece

/-- Nothing comes from the nodes while a piece runs. -/
structure Deaf (s t : Station) : Prop where
  reception : t.reception = s.reception

instance : Std.Refl Deaf := ⟨fun _ => ⟨rfl⟩⟩
instance : IsTrans Station Deaf := ⟨fun _ _ _ h h' => ⟨h'.reception.trans h.reception⟩⟩

theorem Change.deaf {starts : Prop} {s t : Station} (h : Change starts s t) : Deaf s t := by
  cases h with
  | ensured target =>
    cases hnorm : normalizeMac target.addressText with
    | error exc =>
      rw [exec_ensureTarget_invalid hnorm]
      exact ⟨rfl⟩
    | ok a =>
      cases hfind : s.central.registry.find a with
      | none =>
        rw [exec_ensureTarget_new hnorm hfind]
        exact ⟨rfl⟩
      | some ref =>
        rw [exec_ensureTarget_found hnorm hfind]
        exact ⟨rfl⟩
  | _ => exact ⟨rfl⟩

theorem Changes.deaf {starts : Prop} {s t : Station} (h : Changes starts s t) : Deaf s t := by
  induction h with
  | refl => exact ⟨rfl⟩
  | tail _ hlast ih => exact Trans.trans ih (Change.deaf hlast)

theorem Idle.deaf {s t : Station} (h : Idle s t) : Deaf s t :=
  ⟨congrArg₂ Reception.mk h.connections h.completed⟩

variable (interp : Interpreter) (w : Writer)

theorem deaf_startUp (address : Option Str) (scan : Bool) :
    (startUp interp w address scan).Guarantees Deaf (fun _ => True) fun _ => True := by
  refine (guarantees_act fun _ => ⟨rfl⟩).bind fun _ => ?_
  refine (guarantees_act fun _ => ⟨rfl⟩).bind fun _ => ?_
  exact (guarantees_act fun _ => ⟨rfl⟩).bind fun _ => guarantees_pure trivial

theorem deaf_body (point : Point) (s : Station) : Deaf s ((body interp w point).exec s).shared := by
  have haside (haside : Point.Aside True point) : Deaf s ((body interp w point).exec s).shared :=
    Changes.deaf ((calm_body True interp w haside (fun _ _ => trivial)
      fun _ _ => trivial).shared s)
  cases point with
  | main address scan => exact (deaf_startUp interp w address scan).shared s
  | serving address scan =>
    have hconnect : (connectAtStart interp address).Guarantees Deaf (fun _ => True) fun _ => True :=
      (calm_connectAtStart interp trivial (fun _ => trivial) address).mono
        fun _ _ (h : Changes True _ _) => Changes.deaf h
    exact (hconnect.bind fun _ => (idles_startScan scan).mono fun _ _ => Idle.deaf).shared s
  | stopping scan => exact Idle.deaf ((idles_serve scan).shared s)
  | scanEnded => exact Idle.deaf (idles_stopAll.shared s)
  | sessionsStopped => exact Idle.deaf (idles_joinSessions.shared s)
  | loggerStopped => exact Idle.deaf (idles_joinLogger.shared s)
  | serverClosed => exact Idle.deaf (idles_unlinkSocket.shared s)
  | frame task =>
    rw [(exec_body_frame interp w task s).1]
    exact (guarantees_handleFrame interp w (P := fun _ => True) (fun _ _ => Changes.deaf)
      (fun _ _ => ⟨rfl⟩) (fun _ _ _ => ⟨rfl⟩) (fun _ _ _ => ⟨rfl⟩) task).shared s
  | _ => exact haside trivial

end Daemon

theorem arrivals_follow (interp : Interpreter) (w : Writer) : Follows (Daemon.body interp w)
    (callback w) Station.reception Reception.perform arrivals where
  piece s point := (Daemon.deaf_body interp w point s).reception
  call s cb := reception_callback w s cb

/-- A node is connected twice; a frame comes over each connection, one in two pieces with the other
    in between. -/
def mixedNotifications : List (Event Answer Callback) :=
  [.tick, .resume 0 .done, .tick, .call (.client (some (.connect (str "11:22:33:44:55:66")))),
    .tick, .call (.subscribe 0), .call (.subscribe 0), .call (.notify 0 (enterFrame.take 20)),
    .call (.notify 1 enterFrame), .call (.notify 0 (enterFrame.drop 20)), .tick, .tick, .tick]

/-- CORRECT: from the bytes of a connection to the frames that are handled. In every run, however
    notifications are cut and mixed with those of other connections, a connection's assembler is as
    if its bytes had come at once, the tasks made for it are the frames that parse among those, each
    for the session of the connection; all tasks together are the complete frames; and those that
    were handled are the first of them. -/
theorem streams_handled (interp : Interpreter) (w : Writer) (configStore : DeviceConfigStore)
    (hubConfigStore : HubConfigStore) (disk : Files.FS) (times : ℕ → ℚ) (awaitsClients : Bool)
    (unlinkError : Option PyError) (address : Option Str) (scan : Bool)
    (events : List (Event Answer Callback)) (L : Loop Station Point PyError Answer)
    (hrun : Machine.run (Daemon.loopStep interp w) events
      ((Station.new configStore hubConfigStore disk times awaitsClients unlinkError).launch address
        scan) = some L) :
    let came := Loop.journal (Daemon.body interp w) (callback w) arrivals events
      ((Station.new configStore hubConfigStore disk times awaitsClients unlinkError).launch address
        scan)
    let tasks := entries Reception.perform Reception.tasks came ⟨[], []⟩
    (∀ k ref assembler, L.shared.connections[k]? = some (ref, assembler) →
      let bytes := entries Reception.perform (fun reception => reception.received k) came ⟨[], []⟩
      assembler = (FrameAssembler.new.push bytes).1 ∧
        (tasks.filter (·.1 = k)).map (·.2.frame) = accepted (FrameAssembler.new.push bytes).2 ∧
        ∀ task ∈ tasks.filter (·.1 = k), task.2.session = ref) ∧
    L.shared.history.completed = tasks.map Prod.snd ∧
    L.shared.history.handled.map Prod.fst =
      (tasks.take L.shared.history.handled.length).map Prod.snd := by
  intro came tasks
  have hreception : L.shared.reception = came.foldl Reception.perform ⟨[], []⟩ :=
    Loop.run_journal (A := (Station.new configStore hubConfigStore disk times awaitsClients
      unlinkError).launched address scan) (arrivals_follow interp w) hrun
  have hcompleted : L.shared.history.completed = tasks.map Prod.snd := by
    rw [← completed_run, ← hreception]
    rfl
  refine ⟨fun k ref assembler hconnection => ?_, hcompleted, ?_⟩
  · have hreceived := received_run k came
    rw [← hreception] at hreceived
    exact hreceived.assembler hconnection
  · have hprefix : L.shared.history.handled.map Prod.fst <+: tasks.map Prod.snd := by
      obtain ⟨B, hB, rfl⟩ := Loop.run_exists (A := (Station.new configStore hubConfigStore disk
        times awaitsClients unlinkError).launched address scan) hrun
      have harrived : Arrived interp B :=
        Machine.run_invariant (fun _ _ _ hs ht => hs.step ht) (arrived_new interp ..) hB
      rw [← hcompleted]
      exact ⟨_, harrived.completed.symm⟩
    rw [List.map_take]
    have htake := List.prefix_iff_eq_take.mp hprefix
    rwa [List.length_map] at htake

/-- Both frames are handled, and they are the first two tasks. -/
theorem mixedNotifications_handled : ∃ L,
    Machine.run (Daemon.loopStep freshInterpreter openDisk) mixedNotifications
      (freshStation.launch none false) = some L ∧
    L.shared.history.handled.length = 2 ∧
    (L.shared.connections.map Prod.fst) = [0, 0] ∧
    L.shared.history.handled.map Prod.fst = ((entries Reception.perform Reception.tasks
      (Loop.journal (Daemon.body freshInterpreter openDisk) (callback openDisk) arrivals
        mixedNotifications (freshStation.launch none false)) ⟨[], []⟩).take 2).map Prod.snd := by
  have hstate : (Machine.run (Daemon.loopStep freshInterpreter openDisk) mixedNotifications
      (freshStation.launch none false)).map (fun L => decide
        (L.shared.history.handled.length = 2 ∧ L.shared.connections.map Prod.fst = [0, 0])) =
          some true := by decide +kernel
  obtain ⟨L, hrun, hfacts⟩ := Option.map_eq_some_iff.mp hstate
  obtain ⟨hhandled, hconnections⟩ := of_decide_eq_true hfacts
  obtain ⟨_, _, hfirst⟩ := streams_handled freshInterpreter openDisk _ _ _ _ _ _ _ _ _ L hrun
  rw [hhandled] at hfirst
  exact ⟨L, hrun, hhandled, hconnections, hfirst⟩

end SlimHub
