import SlimHub.NoOrphans
import SlimHub.Protocol.Stream

/-! Frames are handled in the order in which they arrived.

        assembler ──▶ completed      = handled ++ waiting        (the ready list is a queue)
                       handled  ──▶ logged ──▶ estimated         (one piece each, in this order)

    A frame becomes a task when its assembler completes it. The piece of a frame task is the whole
    `handle_frame`: the alias, the config, the event, the logger, the estimator and the commands. So
    what the logger and the estimator are given is in the order of the frames. -/

namespace SlimHub
open Text Nus Ble Asyncio Logging

variable (interp : Interpreter) (w : Writer)

/-- What a logged event is for the estimator: a RAWDATA event whose logging did not raise. -/
def estimable : LogEvent × Option PyError → Option RawDataEvent
  | (.rawData event, none) => some event
  | _ => none

/-- The event of a frame, or what loading and saving its config raised. -/
def FrameTask.MadeOf (task : FrameTask) (made : Except PyError LogEvent) : Prop :=
  ∃ (store : DeviceConfigStore) (timestamp : ℚ),
    made = ((ConfigWrite.framed task.frame.mac).apply interp store).2.map fun config =>
      Daemon.eventOf task.frame (config.config interp) timestamp

/-- The events follow the frames: each handled frame has its event or none, the logger was given
    these, it accepted those whose logging did not raise, and the estimator was given the RAWDATA
    events among them. -/
structure InOrder (s : Station) : Prop where
  made : ∀ entry ∈ s.history.handled, entry.1.MadeOf interp entry.2
  logged : s.history.logged.map Prod.fst = s.history.handled.filterMap fun entry => entry.2.toOption
  accepted : s.logger.accepted = (s.history.logged.filter (·.2 = none)).map Prod.fst
  estimated : s.history.estimated = s.history.logged.filterMap estimable

variable {interp w} {s t : Station}

theorem InOrder.of_frames (h : InOrder interp s) (hframes : t.frames = s.frames) :
    InOrder interp t := by
  obtain ⟨_, hhandled, hlogged, hestimated, haccepted⟩ := by simpa [Station.frames] using hframes
  exact ⟨hhandled ▸ h.made, by rw [hlogged, hhandled, h.logged],
    by rw [haccepted, hlogged, h.accepted], by rw [hestimated, hlogged, h.estimated]⟩

/-! ### One frame -/

namespace Daemon
open Piece

theorem exec_registerAlias {mac source : Str} (hmac : normalizeMac mac = .ok mac)
    (hsource : normalizeMac source = .ok source) :
    (registerAlias mac source).exec s =
      ⟨{ s with central.registry := aliased s.central.registry mac source }, [], .ok ()⟩ := by
  simp only [registerAlias, exec_bind, exec_lift, hmac, hsource, andThen_ok, exec_locked]

theorem frameEvent_result {task : FrameTask} (hmac : normalizeMac task.frame.mac = .ok task.frame.mac)
    (hsource : normalizeMac task.source = .ok task.source) :
    ((frameEvent interp task).exec s).result =
      ((ConfigWrite.framed task.frame.mac).apply interp s.configStore).2.map fun config =>
        eventOf task.frame (config.config interp) (s.times s.reads) := by
  simp only [frameEvent, exec_bind, exec_registerAlias hmac hsource, andThen_ok, write, exec_act]
  cases ((ConfigWrite.framed task.frame.mac).apply interp s.configStore).2 with
  | error exc => rfl
  | ok config => rfl

theorem frames_answerEvent (event : RawDataEvent) (s : Station) :
    ((answerEvent event).exec s).shared.frames = (s.history.completed, s.history.handled,
      s.history.logged, s.history.estimated ++ [event], s.logger.accepted) := by
  have hsend (commands : List CommandEvent) (s : Station) :
      ((commands.forM fun command => do let _ ← sendCommand command; return ()).exec s).shared.frames =
        s.frames :=
    ((calm_sendCommands commands : Calm False (fun _ => True) _).shared s).quiet.frames
  simp only [answerEvent, exec_bind, estimate, exec_act]
  cases s.estimator.handle event with
  | error exc => rfl
  | ok answer => exact hsend answer.2 _

theorem shared_handleFrame (task : FrameTask) (s : Station) :
    ((handleFrame interp w task).exec s).shared =
      ((processEvent w task ((frameEvent interp task).exec s).result).exec
        ((frameEvent interp task).exec s).shared).shared := by
  rw [handleFrame, exec_bind, exec_attempt]
  rfl

/-- The frame is handled and its event logged, but the estimator has not seen it. -/
theorem InOrder.logged_next {task : FrameTask} {event : LogEvent} {s' : Station}
    (hs : InOrder interp s) (hmade : task.MadeOf interp (.ok event))
    (hhandled : s'.history.handled = s.history.handled ++ [(task, .ok event)])
    (hlogged : s'.history.logged = s.history.logged ++ [(event, s.logger.logRaises w event)])
    (haccepted : s'.logger.accepted = (s.logger.log w event).accepted)
    (hestimated : s'.history.estimated =
      s.history.estimated ++ (estimable (event, s.logger.logRaises w event)).toList) :
    InOrder interp s' where
  made := by
    rw [hhandled]
    intro entry hentry
    rcases List.mem_append.mp hentry with hentry | hentry
    · exact hs.made entry hentry
    · rw [List.mem_singleton.mp hentry]
      exact hmade
  logged := by
    rw [hlogged, hhandled, List.map_append, List.filterMap_append, hs.logged]
    rfl
  accepted := by
    rw [haccepted, hlogged, RawDataLogger.accepted_log, List.filter_append, List.map_append,
      hs.accepted]
    congr 1
    cases s.logger.logRaises w event <;> rfl
  estimated := by
    rw [hestimated, hlogged, List.filterMap_append, hs.estimated]
    congr 1

/-- Handling a frame appends it to the handled ones and keeps the order. -/
theorem processEvent_inOrder {task : FrameTask} {made : Except PyError LogEvent}
    (hs : InOrder interp s) (hmade : task.MadeOf interp made) :
    InOrder interp ((processEvent w task made).exec s).shared ∧
      ((processEvent w task made).exec s).shared.history.completed = s.history.completed ∧
      ((processEvent w task made).exec s).shared.history.handled =
        s.history.handled ++ [(task, made)] := by
  cases made with
  | error exc =>
    simp only [processEvent, exec_bind, exec_modify, andThen_ok, exec_lift, andThen_error]
    refine ⟨⟨fun entry hentry => ?_, ?_, hs.accepted, hs.estimated⟩, trivial, trivial⟩
    · rcases List.mem_append.mp hentry with hentry | hentry
      · exact hs.made entry hentry
      · rw [List.mem_singleton.mp hentry]
        exact hmade
    · rw [List.filterMap_append, hs.logged]
      exact (List.append_nil _).symm
  | ok event =>
    simp only [processEvent, exec_bind, exec_modify, andThen_ok, exec_lift, log, exec_act]
    cases hraised : s.logger.logRaises w event with
    | some exc =>
      simp only [andThen_error]
      refine ⟨InOrder.logged_next hs hmade rfl (by rw [hraised]) rfl ?_, trivial, trivial⟩
      cases event <;> simp [hraised, estimable]
    | none =>
      simp only [andThen_ok]
      cases event with
      | alert event =>
        refine ⟨InOrder.logged_next hs hmade rfl (by rw [hraised]; rfl) rfl ?_, rfl, rfl⟩
        exact (List.append_nil _).symm
      | rawData event =>
        have hframes := frames_answerEvent event { s with
          logger := s.logger.log w (.rawData event)
          history.handled := s.history.handled ++ [(task, .ok (.rawData event))]
          history.logged := s.history.logged ++ [(.rawData event, none)] }
        simp only [Station.frames, Prod.mk.injEq] at hframes
        obtain ⟨hcompleted, hhandled, hlogged, hestimated, haccepted⟩ := hframes
        refine ⟨InOrder.logged_next hs hmade hhandled (by rw [hraised]; exact hlogged) haccepted ?_,
          hcompleted, hhandled⟩
        rw [hraised]
        exact hestimated

end Daemon

/-! ### Every run -/

/-- The frame tasks among the scheduled ones, in order. -/
def pendingFrames (ready : List (Scheduled Station Point PyError Answer)) : List FrameTask :=
  ready.filterMap fun
    | .start point => point.frame?
    | .woken _ => none

/-- The completed frames are the handled ones and then the scheduled ones, whose addresses are
    normalised; and no waiting task goes on at a frame. -/
structure Arrived (interp : Interpreter) (A : Atomic Station Point Answer) : Prop where
  registered : Registered A.shared
  inOrder : InOrder interp A.shared
  completed : A.shared.history.completed =
    A.shared.history.handled.map Prod.fst ++ A.ready.filterMap Point.frame?
  normal : ∀ task ∈ A.ready.filterMap Point.frame?,
    normalizeMac task.frame.mac = .ok task.frame.mac ∧ normalizeMac task.source = .ok task.source
  paused : ∀ next ∈ A.paused, ∀ answer point, next answer = some point → point.frame? = none

theorem normalizeMac_of_onFrameCalls {address : Str} {assembler : FrameAssembler} {data : Bytes}
    {frame : ParsedFrame} (h : frame ∈ onFrameCalls (handleNotify address assembler data).2.1) :
    normalizeMac frame.mac = .ok frame.mac := by
  rw [handleNotify, handleFrames_eq, onFrameCalls_report, accepted, List.mem_filterMap] at h
  obtain ⟨bytes, _, hparsed⟩ := h
  cases hframe : parseFrame bytes with
  | error exc => rw [hframe] at hparsed; cases hparsed
  | ok parsed =>
    rw [hframe] at hparsed
    exact Option.some.inj hparsed ▸ normalizeMac_parseFrame hframe

theorem filterMap_frame?_eq_nil {points : List Point} (h : ∀ point ∈ points, point.frame? = none) :
    points.filterMap Point.frame? = [] :=
  List.filterMap_eq_nil_iff.mpr h

theorem leads_of_waits {result : Except PyError (Rest Point Answer)} {P : Point → Prop}
    (h : ∀ rest, result = .ok rest → rest.Leads P) {next : Answer → Option Point}
    (hnext : next ∈ waits result) : ∀ answer point, next answer = some point → P point := by
  cases result with
  | error exc => cases hnext
  | ok rest =>
    cases rest with
    | finish => cases hnext
    | wait next' =>
      rw [List.mem_singleton.mp hnext]
      exact h _ rfl

namespace Arrived

variable {A B : Atomic Station Point Answer}

/-- What a notification does to the frames: each that parses is completed and scheduled. -/
theorem notify (h : Arrived interp A) (connection : ℕ) (data : Bytes) :
    Arrived interp { A with
      shared := (notified A.shared connection data).1
      ready := A.ready ++ (notified A.shared connection data).2 } := by
  have hregistered := keeps_notified A.shared connection data h.registered
  have hsame : Arrived interp { A with shared := A.shared, ready := A.ready ++ [] } := by
    rw [List.append_nil]
    exact h
  revert hregistered
  unfold notified
  cases A.shared.connections[connection]? with
  | none => exact fun _ => hsame
  | some entry =>
    obtain ⟨ref, assembler⟩ := entry
    dsimp only
    cases hsession : A.shared.central.sessions[ref]? with
    | none => exact fun _ => hsame
    | some session =>
      intro hregistered
      have hframes (tasks : List FrameTask) : (tasks.map Point.frame).filterMap Point.frame? = tasks := by
        rw [List.filterMap_map]
        exact List.filterMap_some
      refine ⟨hregistered, ⟨h.inOrder.made, h.inOrder.logged, h.inOrder.accepted,
        h.inOrder.estimated⟩, ?_, ?_, h.paused⟩
      · simp only [List.filterMap_append, hframes, h.completed, List.append_assoc]
      · intro task htask
        rw [List.filterMap_append, hframes] at htask
        rcases List.mem_append.mp htask with htask | htask
        · exact h.normal task htask
        · obtain ⟨frame, hframe, rfl⟩ := List.mem_map.mp htask
          obtain ⟨_, _, _, hnorm⟩ := h.registered.tables.stored hsession
          exact ⟨normalizeMac_of_onFrameCalls hframe, hnorm⟩

/-- A frame task runs: the whole of `handle_frame`. -/
theorem frame {task : FrameTask} {ready : List Point} (h : Arrived interp A)
    (hready : A.ready = .frame task :: ready) :
    Arrived interp { A with
      shared := ((Daemon.handleFrame interp w task).exec A.shared).shared, ready } := by
  have hpending : A.ready.filterMap Point.frame? = task :: ready.filterMap Point.frame? := by
    rw [hready]
    rfl
  obtain ⟨hmac, hsource⟩ := h.normal task (hpending ▸ List.mem_cons_self)
  have hquiet : Quiet A.shared ((Daemon.frameEvent interp task).exec A.shared).shared :=
    ((Daemon.calm_frameEvent interp task : Calm False (fun _ => True) _).shared A.shared).quiet
  have hmade : task.MadeOf interp ((Daemon.frameEvent interp task).exec A.shared).result :=
    ⟨_, _, Daemon.frameEvent_result hmac hsource⟩
  obtain ⟨hinOrder, hcompleted, hhandled⟩ :=
    Daemon.processEvent_inOrder (w := w) (h.inOrder.of_frames hquiet.frames) hmade
  have hframes := hquiet.frames
  simp only [Station.frames, Prod.mk.injEq] at hframes
  have hregistered := (Daemon.keeps_handleFrame interp w task (P := fun _ => True)).shared A.shared
    h.registered
  rw [Daemon.shared_handleFrame] at hregistered ⊢
  refine ⟨hregistered, hinOrder, ?_, ?_, h.paused⟩
  · rw [hcompleted, hhandled, hframes.1, hframes.2.1, h.completed, hpending, List.map_append,
      List.append_assoc]
    rfl
  · intro other hother
    exact h.normal other (hpending ▸ List.mem_cons_of_mem _ hother)

/-- Nothing happens to the frames. -/
theorem quiet {s : Station} {ready : List Point} {paused : List (Answer → Option Point)}
    (h : Arrived interp A) (hquiet : Quiet A.shared s)
    (hready : ready.filterMap Point.frame? = A.ready.filterMap Point.frame?)
    (hpaused : ∀ next ∈ paused, ∀ answer point, next answer = some point → point.frame? = none) :
    Arrived interp ⟨s, ready, paused⟩ := by
  have hframes := hquiet.frames
  simp only [Station.frames, Prod.mk.injEq] at hframes
  refine ⟨hquiet.keeps h.registered, h.inOrder.of_frames hquiet.frames, ?_, ?_, hpaused⟩
  · rw [hframes.1, hframes.2.1, hready]
    exact h.completed
  · rw [hready]
    exact h.normal

/-- Any other piece runs. -/
theorem piece {point : Point} {ready : List Point} (h : Arrived interp A)
    (hready : A.ready = point :: ready) (hpoint : point.frame? = none) :
    Arrived interp {
      shared := ((Daemon.body interp w point).exec A.shared).shared
      ready := ready ++ ((Daemon.body interp w point).exec A.shared).created
      paused := A.paused ++ waits ((Daemon.body interp w point).exec A.shared).result } := by
  have hcalm := Daemon.quiet_body interp w hpoint
  refine h.quiet (hcalm.shared A.shared) ?_ ?_
  · rw [List.filterMap_append, filterMap_frame?_eq_nil (hcalm.created A.shared), List.append_nil,
      hready, List.filterMap_cons_none hpoint]
  · intro next hnext
    rcases List.mem_append.mp hnext with hnext | hnext
    · exact h.paused next hnext
    · exact leads_of_waits (hcalm.result A.shared) hnext

/-- Every step keeps the invariant. -/
theorem step {event : Event Answer Callback} (h : Arrived interp A)
    (hstep : A.step (Daemon.body interp w) (callback w) event = some B) : Arrived interp B := by
  cases event with
  | tick =>
    cases hready : A.ready with
    | nil => simp [Atomic.step, hready] at hstep
    | cons point ready =>
      simp only [Atomic.step, hready, Option.some.injEq] at hstep
      rw [← hstep]
      cases hpoint : point.frame? with
      | none => exact h.piece hready hpoint
      | some task =>
        cases point with
        | frame task =>
          obtain ⟨hshared, hcreated, hwaits⟩ := Daemon.exec_body_frame interp w task A.shared
          rw [hshared, hcreated, hwaits, List.append_nil, List.append_nil]
          exact h.frame hready
        | _ => cases hpoint
  | resume i answer =>
    obtain ⟨point, hpoint, rfl⟩ := Option.map_eq_some_iff.mp hstep
    obtain ⟨next, hnext, hanswer⟩ := Option.bind_eq_some_iff.mp hpoint
    refine h.quiet ⟨rfl, id⟩ ?_ fun next hnext => h.paused next (List.mem_of_mem_eraseIdx hnext)
    have hframe : point.frame? = none :=
      h.paused next (List.mem_of_getElem? hnext) answer point hanswer
    rw [List.filterMap_append, List.filterMap_cons_none hframe, List.filterMap_nil, List.append_nil]
  | call cb =>
    rw [← Option.some.inj hstep]
    by_cases hnotify : ∃ connection data, cb = .notify connection data
    · obtain ⟨connection, data, rfl⟩ := hnotify
      exact h.notify connection data
    · obtain ⟨hquiet, hpoints⟩ := quiet_callback w cb
        (fun connection data heq => hnotify ⟨connection, data, heq⟩) A.shared
      refine h.quiet hquiet ?_ h.paused
      rw [List.filterMap_append, filterMap_frame?_eq_nil hpoints, List.append_nil]

end Arrived

/-- CORRECT: frames are handled in the order in which they arrived. In every state of every run the
    lock is free, nobody waits for it, and no task is in the middle of a piece; the next step of a
    frame task is its whole `handle_frame`; the completed frames are the handled and then the
    scheduled ones; and the logger and the estimator were given the frames' events in this order. (In
    an event, a config's type or location that is no string is its text.) -/
theorem frames_in_arrival_order (interp : Interpreter) (w : Writer)
    (configStore : DeviceConfigStore) (hubConfigStore : HubConfigStore) (disk : Files.FS)
    (times : ℕ → ℚ) (awaitsClients : Bool) (unlinkError : Option PyError) (address : Option Str)
    (scan : Bool) (events : List (Event Answer Callback)) (L : Loop Station Point PyError Answer)
    (hrun : Machine.run (Daemon.loopStep interp w) events
      ((Station.new configStore hubConfigStore disk times awaitsClients unlinkError).launch address
        scan) = some L) :
    (L.locked = false ∧ L.waiters = [] ∧ ∀ task ∈ L.ready, ∃ point, task = .start point) ∧
      (∀ task rest, L.ready = .start (.frame task) :: rest →
        Daemon.loopStep interp w .tick L = some {
          shared := ((Daemon.handleFrame interp w task).exec L.shared).shared
          ready := rest
          paused := L.paused }) ∧
      L.shared.history.completed =
        L.shared.history.handled.map Prod.fst ++ pendingFrames L.ready ∧
      InOrder interp L.shared := by
  obtain ⟨B, hB, rfl⟩ := Loop.run_exists (A := (Station.new configStore hubConfigStore disk times
    awaitsClients unlinkError).launched address scan) hrun
  have hstart : Arrived interp ((Station.new configStore hubConfigStore disk times awaitsClients
      unlinkError).launched address scan) :=
    ⟨Registered.new .., ⟨List.forall_mem_nil _, rfl, rfl, rfl⟩, rfl, List.forall_mem_nil _,
      List.forall_mem_nil _⟩
  have h : Arrived interp B := Machine.run_invariant (fun _ _ _ hs ht => hs.step ht) hstart hB
  refine ⟨⟨rfl, rfl, fun task htask => ?_⟩, fun task rest hready => ?_, ?_, h.inOrder⟩
  · obtain ⟨point, _, rfl⟩ := List.mem_map.mp htask
    exact ⟨point, rfl⟩
  · obtain ⟨hshared, hcreated, hwaits⟩ := Daemon.exec_body_frame interp w task B.shared
    obtain ⟨points, hpoints, rfl⟩ : ∃ points, B.ready = .frame task :: points ∧
        rest = points.map .start := by
      cases hB' : B.ready with
      | nil => simp [Atomic.toLoop, hB'] at hready
      | cons point points =>
        simp only [Atomic.toLoop, hB', List.map_cons, List.cons.injEq, Scheduled.start.injEq] at hready
        exact ⟨points, by rw [hready.1], hready.2.symm⟩
    rw [Daemon.loopStep, step_toLoop, Atomic.step, hpoints]
    simp only [Option.map_some, Atomic.toLoop, hshared, hcreated, hwaits, List.append_nil]
  · rw [pendingFrames, Atomic.toLoop, List.filterMap_map]
    exact h.completed

/-- A node is connected and reports twice that a person enters; both frames are handled. -/
def reportTwice : List (Event Answer Callback) :=
  [.tick, .resume 0 .done, .tick, .call (.client (some (.connect (str "11:22:33:44:55:66")))), .tick,
    .call (.subscribe 0), .call (.notify 0 (enterFrame ++ enterFrame)), .tick, .tick, .tick]

/-- Both events reached the logger and the estimator, in order. -/
theorem reportTwice_in_order : ∃ L,
    Machine.run (Daemon.loopStep freshInterpreter openDisk) reportTwice
      (freshStation.launch none false) = some L ∧
      L.shared.history.completed.length = 2 ∧
      L.shared.history.completed = L.shared.history.handled.map Prod.fst ∧
      L.shared.history.estimated.length = 2 ∧
      L.shared.history.estimated = L.shared.history.logged.filterMap estimable := by
  have hstate : (Machine.run (Daemon.loopStep freshInterpreter openDisk) reportTwice
      (freshStation.launch none false)).map (fun L => decide
        (L.shared.history.completed.length = 2 ∧ L.shared.history.estimated.length = 2 ∧
          L.ready.length = 0)) = some true := by decide +kernel
  obtain ⟨L, hrun, hfacts⟩ := Option.map_eq_some_iff.mp hstate
  obtain ⟨hcompleted, hestimated, hready⟩ := of_decide_eq_true hfacts
  obtain ⟨_, _, hpending, horder⟩ := frames_in_arrival_order freshInterpreter openDisk _ _ _ _ _ _ _ _ _
    L hrun
  rw [List.eq_nil_of_length_eq_zero hready] at hpending
  refine ⟨L, hrun, hcompleted, ?_, hestimated, horder.estimated⟩
  rw [hpending]
  exact List.append_nil _

end SlimHub
