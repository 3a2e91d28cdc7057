import SlimHub.Tasks

/-! What the pieces of the daemon's tasks do.

    `ensure_target` looks an address up and adds a session under two separate holds of the lock; in
    one piece it does what the central does in one step (`exec_ensureTarget_new`,
    `exec_ensureTarget_found`). Every piece but those of `handle_frame` leaves the record of the
    frames alone, and all pieces keep the registry in step with what was added (`Quiet`). -/

namespace SlimHub
open Text Nus Ble Asyncio Logging

/-- The registry holds what was added, in that order; what was added was started; and what was
    started was stopped by every `stop_all` after it. -/
structure Registered (s : Station) : Prop where
  tables : Tables s.central
  added : s.history.added = s.central.registry.sessions.entries
  started : s.history.started = s.history.added.map Prod.snd
  stopAlls : ∀ call ∈ s.history.stopAlls, call.2 = call.1

namespace Station

/-- The record of the frames. -/
def frames (s : Station) := (s.history.completed, s.history.handled, s.history.logged,
  s.history.estimated, s.logger.accepted)

/-- The sessions and their record. -/
def keeping (s : Station) := (s.central, s.history.added, s.history.started, s.history.stopAlls)

end Station

/-- The frame that a point is about to handle. -/
def Point.frame? : Point → Option FrameTask
  | .frame task => some task
  | _ => none

/-- A change that keeps the registry in step with its record. -/
def Keeps (s t : Station) : Prop := Registered s → Registered t

/-- Such a change that leaves the record of the frames alone. -/
structure Quiet (s t : Station) : Prop where
  frames : t.frames = s.frames
  keeps : Keeps s t

instance : Std.Refl Keeps := ⟨fun _ => id⟩
instance : IsTrans Station Keeps := ⟨fun _ _ _ h h' => h' ∘ h⟩
instance : Std.Refl Quiet := ⟨fun _ => ⟨rfl, id⟩⟩
instance : IsTrans Station Quiet := ⟨fun _ _ _ h h' => ⟨h'.frames.trans h.frames, h'.keeps ∘ h.keeps⟩⟩

variable {s t : Station} {α : Type}

theorem Keeps.of_keeping (h : t.keeping = s.keeping) : Keeps s t := by
  intro hs
  obtain ⟨hcentral, hadded, hstarted, hstopAlls⟩ := by simpa [Station.keeping] using h
  exact ⟨hcentral ▸ hs.tables, by rw [hadded, hcentral, hs.added],
    by rw [hstarted, hadded, hs.started], hstopAlls ▸ hs.stopAlls⟩

theorem Quiet.of_eq (hframes : t.frames = s.frames) (hkeeping : t.keeping = s.keeping) :
    Quiet s t :=
  ⟨hframes, .of_keeping hkeeping⟩

theorem Quiet.of_accepted {logger : RawDataLogger} (h : logger.accepted = s.logger.accepted) :
    Quiet s { s with logger } where
  frames := by simp only [Station.frames, h]
  keeps := .of_keeping rfl

/-- Keys and addresses stay as they are. -/
theorem Quiet.of_queuesOnly {central : BleCentral} (h : QueuesOnly s.central central) :
    Quiet s { s with central } where
  frames := rfl
  keeps hs := {
    tables := h.tables hs.tables
    added := by rw [h.registry]; exact hs.added
    started := hs.started
    stopAlls := hs.stopAlls }

theorem quiet_withSession (s : Station) (ref : SessionRef) {f : DeviceSession → DeviceSession}
    (hf : ∀ session, (f session).address = session.address) : Quiet s (s.withSession ref f) := by
  refine .of_queuesOnly ⟨rfl, List.ext_getElem? fun i => ?_⟩
  simp only [List.getElem?_map, List.getElem?_modify]
  cases s.central.sessions[i]? with
  | none => rfl
  | some session =>
    simp only [Option.map_eq_map, Option.map_some]
    split
    · exact congrArg some (hf session)
    · rfl

namespace Daemon
open Piece

/-! ### `ensure_target` in one piece -/

theorem modify_concat {β : Type} (f : β → β) (xs : List β) (x : β) :
    (xs ++ [x]).modify xs.length f = xs ++ [f x] :=
  List.modifyTailIdx_add _ 0 xs [x]

theorem exec_start {ref : SessionRef} {session : DeviceSession}
    (h : s.central.sessions[ref]? = some session) (hrunning : session.running = false) :
    (start ref).exec s = ⟨{ s.withSession ref DeviceSession.start with
      history.started := s.history.started ++ [ref] }, [.session ref], .ok ()⟩ := by
  simp only [start, sessionAt, exec_bind, exec_get, andThen_ok, h, exec_pure, hrunning,
    Bool.false_eq_true, if_false, exec_modify, exec_create, Station.withSession]

/-- An address that resolves to no session: a session is made, added and started. -/
theorem exec_ensureTarget_new {target : Target} {a : Str}
    (h : normalizeMac target.addressText = .ok a) (hfind : s.central.registry.find a = none) :
    (ensureTarget target).exec s = ⟨{ s with
      central := (s.central.ensureTarget target (s.times s.reads)).1
      history.added := s.history.added ++ [(a, s.central.sessions.length)]
      history.started := s.history.started ++ [s.central.sessions.length] },
      [.session s.central.sessions.length], .ok s.central.sessions.length⟩ := by
  have hnew : DeviceSession.new target = .ok { target, address := a, name := target.nameOr [] } :=
    DeviceSession.new_ok_iff.mpr ⟨a, h, rfl⟩
  rw [BleCentral.ensureTarget_new h hfind]
  simp only [ensureTarget, exec_bind, exec_lift, h, andThen_ok, get, normalizeMac_idem h,
    exec_locked, hfind, newSession, exec_act, hnew, add]
  rw [exec_start List.getElem?_concat_length rfl]
  simp only [andThen, exec_pure, List.append_nil, Station.withSession, modify_concat]

/-- An address that resolves to a session: the session gets the target. -/
theorem exec_ensureTarget_found {target : Target} {a : Str} {ref : SessionRef}
    (h : normalizeMac target.addressText = .ok a) (hfind : s.central.registry.find a = some ref) :
    (ensureTarget target).exec s = ⟨{ s with
      central := (s.central.ensureTarget target (s.times s.reads)).1
      reads := s.reads + 1 }, [], .ok ref⟩ := by
  rw [BleCentral.ensureTarget_found h hfind]
  simp only [ensureTarget, exec_bind, exec_lift, h, andThen_ok, get, normalizeMac_idem h,
    exec_locked, hfind, time, exec_act, exec_modify, exec_pure, Station.withSession]

theorem exec_ensureTarget_invalid {target : Target} {exc : PyError}
    (h : normalizeMac target.addressText = .error exc) :
    (ensureTarget target).exec s = ⟨s, [], .error exc⟩ := by
  simp only [ensureTarget, exec_bind, exec_lift, h, andThen_error]

theorem quiet_ensureTarget (target : Target) (s : Station) :
    Quiet s ((ensureTarget target).exec s).shared := by
  cases h : normalizeMac target.addressText with
  | error exc =>
    rw [exec_ensureTarget_invalid h]
    exact ⟨rfl, id⟩
  | ok a =>
    cases hfind : s.central.registry.find a with
    | none =>
      rw [exec_ensureTarget_new h hfind]
      refine ⟨rfl, fun hs => ⟨(hs.tables.ensureTarget target _).1, ?_, ?_, hs.stopAlls⟩⟩
      · -- the address is no key yet, so it goes to the end of the registry
        obtain ⟨hkey, _⟩ := hs.tables.find_eq_none.mp hfind
        rw [BleCentral.ensureTarget_new h hfind, Dict.entries_set hkey, ← hs.added]
      · rw [List.map_append, ← hs.started, List.map_singleton]
    | some ref =>
      rw [exec_ensureTarget_found h hfind]
      refine ⟨rfl, fun hs => ⟨(hs.tables.ensureTarget target _).1, ?_, hs.started, hs.stopAlls⟩⟩
      rw [BleCentral.ensureTarget_found h hfind]
      exact hs.added

theorem created_ensureTarget (target : Target) (s : Station) :
    ∀ point ∈ ((ensureTarget target).exec s).created, ∃ ref, point = .session ref := by
  cases h : normalizeMac target.addressText with
  | error exc =>
    rw [exec_ensureTarget_invalid h]
    exact List.forall_mem_nil _
  | ok a =>
    cases hfind : s.central.registry.find a with
    | none =>
      rw [exec_ensureTarget_new h hfind]
      exact fun point hpoint => ⟨_, List.mem_singleton.mp hpoint⟩
    | some ref =>
      rw [exec_ensureTarget_found h hfind]
      exact List.forall_mem_nil _

end Daemon

/-! ### Changes -/

/-- What a piece that is not part of `run` changes, but for the record of the frames; it starts
    sessions only where `starts` holds. -/
inductive Change (starts : Prop) (s : Station) : Station → Prop where
  | session (ref : SessionRef) (f : DeviceSession → DeviceSession)
    (hf : ∀ session, (f session).address = session.address) : Change starts s (s.withSession ref f)
  | aliased (mac source : Str) : Change starts s
    { s with central.registry := aliased s.central.registry mac source }
  | config (configStore : DeviceConfigStore) : Change starts s { s with configStore }
  | hubConfig (hubConfigStore : HubConfigStore) : Change starts s { s with hubConfigStore }
  | time : Change starts s { s with reads := s.reads + 1 }
  | stop : Change starts s { s with stopRequested := true }
  | answered (answer : Except PyError Reply) : Change starts s
    { s with history.answers := s.history.answers ++ [answer] }
  | returned (ref : SessionRef) : Change starts s { s with
      stopsPending := s.stopsPending.filter (· ≠ ref)
      history.stopped := s.history.stopped ++ [ref] }
  | ensured (target : Target) (h : starts) :
    Change starts s ((Daemon.ensureTarget target).exec s).shared

/-- Such changes one after another. -/
abbrev Changes (starts : Prop) : Station → Station → Prop := Relation.ReflTransGen (Change starts)

theorem Change.quiet {starts : Prop} (h : Change starts s t) : Quiet s t := by
  cases h with
  | session ref f hf => exact quiet_withSession s ref hf
  | aliased mac source =>
    refine ⟨rfl, fun hs => ⟨(tables_aliased hs.tables mac source).1, ?_, hs.started, hs.stopAlls⟩⟩
    rw [aliased_sessions]
    exact hs.added
  | config configStore => exact .of_eq rfl rfl
  | hubConfig hubConfigStore => exact .of_eq rfl rfl
  | time => exact .of_eq rfl rfl
  | stop => exact .of_eq rfl rfl
  | answered answer => exact .of_eq rfl rfl
  | returned ref => exact .of_eq rfl rfl
  | ensured target => exact Daemon.quiet_ensureTarget target s

theorem Changes.quiet {starts : Prop} (h : Changes starts s t) : Quiet s t := by
  induction h with
  | refl => exact Std.Refl.refl s
  | tail _ hlast ih => exact Trans.trans ih hlast.quiet

instance (starts : Prop) : Std.Refl (Changes starts) := ⟨fun _ => .refl⟩
instance (starts : Prop) : IsTrans Station (Changes starts) := ⟨fun _ _ _ => .trans⟩

/-- The piece makes only such changes, and starts tasks in `P`. -/
abbrev Calm (starts : Prop) (P : Point → Prop) (c : Routine α) : Prop :=
  c.Guarantees (Changes starts) P fun _ => True

/-- And where the task goes on is in `P`. -/
abbrev CalmRest (starts : Prop) (P : Point → Prop) (c : Routine (Rest Point Answer)) : Prop :=
  c.Guarantees (Changes starts) P (·.Leads P)

namespace Daemon
open Piece

section
variable {R : Station → Station → Prop} [Std.Refl R] {P Q : Point → Prop}

theorem guarantees_waitThen {point : Point} (h : Q point) :
    (waitThen point).Guarantees R P (·.Leads Q) := by
  refine guarantees_pure ?_
  intro answer next hnext
  cases answer with
  | done => exact Option.some.inj hnext ▸ h
  | devices => cases hnext
  | line => cases hnext

end

variable {starts : Prop} {P : Point → Prop}

theorem calm_time : Calm starts P time := guarantees_act fun _ => .single .time

theorem calm_sessionAt (ref : SessionRef) : Calm starts P (sessionAt ref) := by
  refine guarantees_get.bind fun self => ?_
  cases self.central.sessions[ref]? with
  | none => exact guarantees_lift _
  | some session => exact guarantees_return _

theorem calm_get (address : Str) : Calm starts P (get address) :=
  (guarantees_lift _).bind fun _ => guarantees_locked fun _ => .refl

theorem calm_resolveAddress (address : Str) : Calm starts P (resolveAddress address) :=
  (guarantees_lift _).bind fun _ => guarantees_locked fun _ => .refl

theorem calm_registerAlias (aliasAddress canonicalAddress : Str) :
    Calm starts P (registerAlias aliasAddress canonicalAddress) :=
  (guarantees_lift _).bind fun a => (guarantees_lift _).bind fun c =>
    guarantees_locked fun _ => .single (.aliased a c)

theorem calm_sendCommand (command : CommandEvent) : Calm starts P (sendCommand command) := by
  refine (calm_get _).bind fun found => ?_
  cases found with
  | none => exact guarantees_return _
  | some ref =>
    refine (guarantees_modify fun s => ?_).bind fun _ => guarantees_return _
    exact .single (.session ref _ fun _ => rfl)

theorem calm_listStatus : Calm starts P listStatus := guarantees_locked fun _ => .refl

theorem calm_ensureTarget (hstarts : starts) (hP : ∀ ref, P (.session ref)) (target : Target) :
    Calm starts P (ensureTarget target) where
  shared s := .single (.ensured target hstarts)
  created s point hpoint := by
    obtain ⟨ref, rfl⟩ := created_ensureTarget target s point hpoint
    exact hP ref
  result _ _ _ := trivial

theorem calm_ensureAddress (hstarts : starts) (hP : ∀ ref, P (.session ref)) (address : Str) :
    Calm starts P (ensureAddress address) :=
  (guarantees_lift _).bind fun _ => calm_ensureTarget hstarts hP _

/-! ### Requests -/

section
variable (interp : Interpreter) (w : Writer)

theorem calm_write (change : ConfigWrite) : Calm starts P (write interp change) :=
  guarantees_act fun _ => .single (.config _)

theorem calm_connectAddress (hstarts : starts) (hP : ∀ ref, P (.session ref)) (address : Str) :
    Calm starts P (connectAddress interp address) := by
  refine (guarantees_lift _).bind fun normalized => ?_
  refine (calm_ensureAddress hstarts hP normalized).bind fun ref => ?_
  refine (calm_sessionAt ref).bind fun session => (calm_write interp _).bind fun _ => ?_
  exact guarantees_get.bind fun _ => guarantees_return _

theorem calm_manualCommand (address command : Json.Value) :
    Calm starts P (manualCommand interp address command) := by
  refine (guarantees_lift _).bind fun address => (guarantees_lift _).bind fun command => ?_
  refine (guarantees_lift _).bind fun normalized => (guarantees_lift _).bind fun validated => ?_
  refine (calm_get normalized).bind fun found => ?_
  cases found with
  | none => exact guarantees_lift _
  | some ref =>
    refine guarantees_get.bind fun self => (guarantees_lift _).bind fun config => ?_
    refine (calm_sendCommand _).bind fun sent => ?_
    cases sent with
    | false => exact guarantees_lift _
    | true =>
      exact (calm_sessionAt ref).bind fun _ => guarantees_get.bind fun _ => guarantees_return _

theorem calm_applyConfig : Calm starts P (applyConfig interp) := by
  refine guarantees_get.bind fun self => (guarantees_lift _).bind fun configs => ?_
  refine (guarantees_forM (fun config => ?_) configs).bind fun _ => guarantees_return _
  refine (calm_get config.address).bind fun found => ?_
  cases found with
  | none => exact guarantees_return _
  | some ref => exact guarantees_modify fun s => .single (.session ref _ fun _ => rfl)

theorem calm_serviceCommand (address action service : Json.Value)
    (characteristic : Option Json.Value) :
    Calm starts P (serviceCommand interp address action service characteristic) := by
  refine (guarantees_lift _).bind fun normalized => (calm_get normalized).bind fun found => ?_
  cases found with
  | none => exact guarantees_return _
  | some ref =>
    refine guarantees_get.bind fun self => ?_
    split
    · exact guarantees_return _
    · dsimp only
      split_ifs
      · exact guarantees_return _
      · exact guarantees_return _
      · exact guarantees_return _
      · exact guarantees_return _
      · exact guarantees_lift _

theorem calm_unsupportedDeviceCommand (address : Json.Value) (commandName : String)
    (detail : Str) : Calm starts P (unsupportedDeviceCommand interp address commandName detail) := by
  refine (guarantees_lift _).bind fun normalized => (calm_get normalized).bind fun found => ?_
  cases found with
  | none => exact guarantees_return _
  | some ref => exact guarantees_return _

theorem calm_devicesPayload : Calm starts P (devicesPayload interp) := by
  refine calm_listStatus.bind fun rows => guarantees_get.bind fun self => ?_
  refine (guarantees_lift _).bind fun configs => ?_
  refine (guarantees_foldlM (fun statuses config => ?_) configs _).bind fun _ => guarantees_return _
  exact (calm_resolveAddress _).bind fun _ => guarantees_return _

/-- Only a connect request starts sessions. -/
theorem calm_dispatch (request : Request) (hstarts : ∀ address, request = .connect address → starts)
    (hP : ∀ ref, P (.session ref)) : Calm starts P (dispatch interp request) := by
  cases request with
  | stop => exact (guarantees_modify fun _ => .single .stop).bind fun _ => guarantees_return _
  | devices => exact (calm_devicesPayload interp).bind fun _ => guarantees_return _
  | connect address =>
    exact (calm_connectAddress interp (hstarts address rfl) hP address).bind
      fun _ => guarantees_return _
  | commandSend => exact (calm_manualCommand interp _ _).bind fun _ => guarantees_return _
  | configSet => exact (calm_write interp _).bind fun _ => guarantees_return _
  | configApply => exact (calm_applyConfig interp).bind fun _ => guarantees_return _
  | hubConfigSet => exact guarantees_act fun _ => .single (.hubConfig _)
  | service => exact (calm_serviceCommand interp _ _ _ _).bind fun _ => guarantees_return _
  | reset => exact (calm_unsupportedDeviceCommand interp _ _ _).bind fun _ => guarantees_return _
  | model => exact (calm_unsupportedDeviceCommand interp _ _ _).bind fun _ => guarantees_return _
  | feature => exact (calm_unsupportedDeviceCommand interp _ _ _).bind fun _ => guarantees_return _
  | file => exact (calm_unsupportedDeviceCommand interp _ _ _).bind fun _ => guarantees_return _
  | unitspaceStatus => exact guarantees_get.bind fun _ => guarantees_return _
  | other => exact (guarantees_lift _).bind fun _ => guarantees_return _

theorem calm_handleClient (request : Request)
    (hstarts : ∀ address, request = .connect address → starts) (hP : ∀ ref, P (.session ref)) :
    CalmRest starts P (handleClient interp request) := by
  refine (calm_dispatch interp request hstarts hP).attempt.bind fun answer => ?_
  exact (guarantees_modify fun _ => .single (.answered answer)).bind
    fun _ => guarantees_pure trivial

/-! ### Scans and sessions -/

theorem calm_startOrUpdateSession (hstarts : starts) (hP : ∀ ref, P (.session ref))
    (target : Target) : Calm starts P (startOrUpdateSession interp target) :=
  (guarantees_lift _).bind fun _ => (calm_ensureTarget hstarts hP target).bind fun _ =>
    (calm_write interp _).bind fun _ => guarantees_return _

theorem calm_scanLoop (hP : ∀ found, P (.scanned found)) : CalmRest starts P scanLoop := by
  refine guarantees_get.bind fun self => ?_
  split
  · exact guarantees_pure trivial
  · refine guarantees_pure fun answer next hnext => ?_
    cases answer with
    | done => cases hnext
    | devices found => exact Option.some.inj hnext ▸ hP found
    | line => cases hnext

theorem calm_scanRound (hstarts : starts) (hP : ∀ ref, P (.session ref)) (hscan : P .scan)
    (found : Except PyError (List Target)) : CalmRest starts P (scanRound interp found) := by
  refine guarantees_get.bind fun self => ?_
  split
  · exact guarantees_pure trivial
  · refine Guarantees.bind (Guarantees.attempt ?_) fun _ => guarantees_waitThen hscan
    refine (guarantees_lift _).bind fun devices => ?_
    refine (calm_listStatus.bind fun _ => guarantees_return _).bind fun _ => ?_
    exact guarantees_forM (calm_startOrUpdateSession interp hstarts hP) devices

theorem calm_returnStop (ref : SessionRef) : CalmRest starts P (returnStop ref) :=
  (guarantees_modify fun _ => .single (.returned ref)).bind fun _ => guarantees_pure trivial

theorem calm_stopSession (ref : SessionRef) (hP : P (.sessionStopped ref)) :
    CalmRest starts P (stopSession ref) := by
  refine (guarantees_modify fun s => ?_).bind fun _ => (calm_sessionAt ref).bind fun session => ?_
  · exact .single (.session ref _ fun _ => rfl)
  · split
    · exact guarantees_waitThen hP
    · exact calm_returnStop ref

theorem calm_connectAtStart (hstarts : starts) (hP : ∀ ref, P (.session ref))
    (address : Option Str) : Calm starts P (connectAtStart interp address) := by
  cases address with
  | none => exact guarantees_return _
  | some address =>
    rw [connectAtStart]
    split
    · exact guarantees_return _
    · exact (calm_connectAddress interp hstarts hP address).bind fun _ => guarantees_return _

/-! ### Frames -/

theorem calm_frameEvent (task : FrameTask) : Calm starts P (frameEvent interp task) :=
  (calm_registerAlias _ _).bind fun _ => (calm_write interp _).bind fun _ =>
    calm_time.bind fun _ => guarantees_return _

theorem calm_sendCommands (commands : List CommandEvent) :
    Calm starts P (commands.forM fun command => do let _ ← sendCommand command; return ()) :=
  guarantees_forM (fun command => (calm_sendCommand command).bind fun _ => guarantees_return _)
    commands

/-- What a frame's piece does, in terms of what its actions do. -/
theorem guarantees_handleFrame {R : Station → Station → Prop} [Std.Refl R] [IsTrans Station R]
    (hchanges : ∀ s t, Changes False s t → R s t)
    (hhandled : ∀ (s : Station) handled, R s { s with history.handled := handled })
    (hlogged : ∀ (s : Station) event logged, R s { s with
      logger := s.logger.log w event
      history.logged := logged })
    (hestimated : ∀ (s : Station) estimator estimated, R s { s with
      estimator := estimator
      history.estimated := estimated }) (task : FrameTask) :
    (handleFrame interp w task).Guarantees R P fun _ => True := by
  refine ((calm_frameEvent interp task).attempt.mono hchanges).bind fun made => ?_
  refine (guarantees_modify fun s => hhandled s _).bind fun _ => ?_
  refine (guarantees_lift made).bind fun event => ?_
  refine (guarantees_act fun s => hlogged s event _).bind fun _ => ?_
  cases event with
  | alert event => exact guarantees_return _
  | rawData event =>
    refine (guarantees_act fun s => ?_).bind fun commands =>
      (calm_sendCommands commands).mono hchanges
    dsimp only
    cases s.estimator.handle event with
    | error exc => exact hestimated s s.estimator _
    | ok answer => exact hestimated s answer.1 _

theorem keeps_handleFrame (task : FrameTask) :
    (handleFrame interp w task).Guarantees Keeps P fun _ => True :=
  guarantees_handleFrame interp w (fun _ _ h => h.quiet.keeps) (fun _ _ => .of_keeping rfl)
    (fun _ _ _ => .of_keeping rfl) (fun _ _ _ => .of_keeping rfl) task

theorem created_handleFrame (task : FrameTask) (s : Station) :
    ((handleFrame interp w task).exec s).created = [] :=
  List.eq_nil_iff_forall_not_mem.mpr
    ((keeps_handleFrame interp w task (P := fun _ => False)).created s)

/-- The piece of a frame task is `handle_frame`, which leaves nothing behind. -/
theorem exec_body_frame (task : FrameTask) (s : Station) :
    ((body interp w (.frame task)).exec s).shared = ((handleFrame interp w task).exec s).shared ∧
      ((body interp w (.frame task)).exec s).created = [] ∧
      waits ((body interp w (.frame task)).exec s).result = [] := by
  have hcreated := created_handleFrame interp w task s
  rw [body, exec_bind, andThen]
  cases ((handleFrame interp w task).exec s).result with
  | error exc => exact ⟨rfl, hcreated, rfl⟩
  | ok _ => exact ⟨rfl, by rw [hcreated]; rfl, rfl⟩

/-! ### `run` -/

variable {R : Station → Station → Prop} {Q : Point → Prop}

theorem quiet_startUp (address : Option Str) (scan : Bool) (hQ : Q (.serving address scan)) :
    (startUp interp w address scan).Guarantees Quiet P (·.Leads Q) := by
  refine (guarantees_act fun _ => .of_eq rfl rfl).bind fun _ => ?_
  refine (guarantees_act fun _ => .of_eq rfl rfl).bind fun _ => ?_
  refine (guarantees_act fun s => .of_accepted ?_).bind fun _ => guarantees_waitThen hQ
  exact RawDataLogger.accepted_start w s.logger

theorem quiet_finish (raised : Option PyError) :
    (finish raised).Guarantees Quiet P (·.Leads Q) := by
  refine (guarantees_modify fun _ => .of_eq rfl rfl).bind fun _ => ?_
  cases raised with
  | none => exact guarantees_pure trivial
  | some exc => exact guarantees_raise exc

theorem quiet_unlinkSocket : unlinkSocket.Guarantees Quiet P (·.Leads Q) := by
  refine guarantees_get.bind fun self => ?_
  cases self.unlinkError with
  | some exc => exact quiet_finish _
  | none => exact (guarantees_modify fun _ => .of_eq rfl rfl).bind fun _ => quiet_finish none

/-- The points at which the main task waits once it stops the sessions. -/
structure StopPoints (Q : Point → Prop) : Prop where
  sessionsStopped : Q .sessionsStopped
  loggerStopped : Q .loggerStopped
  serverClosed : Q .serverClosed

theorem quiet_joinLogger (hQ : StopPoints Q) : joinLogger.Guarantees Quiet P (·.Leads Q) := by
  refine guarantees_get.bind fun self => ?_
  cases self.logger.stopped.getLast? with
  | none => exact guarantees_waitThen hQ.loggerStopped
  | some result =>
    cases result with
    | some exc => exact quiet_finish _
    | none =>
      cases self.awaitsClients with
      | true => exact guarantees_waitThen hQ.serverClosed
      | false => exact quiet_unlinkSocket

theorem quiet_joinSessions (hQ : StopPoints Q) : joinSessions.Guarantees Quiet P (·.Leads Q) := by
  refine guarantees_get.bind fun self => ?_
  split
  · refine (guarantees_modify fun s => .of_accepted ?_).bind fun _ => quiet_joinLogger hQ
    exact RawDataLogger.accepted_stop s.logger
  · exact guarantees_waitThen hQ.sessionsStopped

theorem quiet_stopAll (hP : ∀ ref, P (.stopSession ref)) (hQ : StopPoints Q) :
    stopAll.Guarantees Quiet P (·.Leads Q) := by
  refine Guarantees.bind (guarantees_locked fun s => ⟨rfl, fun hs => ?_⟩) fun sessions => ?_
  · refine ⟨hs.tables, hs.added, hs.started, fun call hcall => ?_⟩
    rcases List.mem_append.mp hcall with hcall | hcall
    · exact hs.stopAlls call hcall
    · rw [List.mem_singleton.mp hcall, hs.started, hs.added]
  · exact Guarantees.bind (guarantees_forM (fun ref => guarantees_create (hP ref)) sessions)
      fun _ => quiet_joinSessions hQ

theorem quiet_serve (scan : Bool) (hP : ∀ ref, P (.stopSession ref)) (hQ : StopPoints Q)
    (hstopping : Q (.stopping scan)) (hscanEnded : scan = true → Q .scanEnded) :
    (serve scan).Guarantees Quiet P (·.Leads Q) := by
  refine guarantees_get.bind fun self => ?_
  split
  · exact guarantees_waitThen hstopping
  · cases scan with
    | true =>
      exact (guarantees_modify fun _ => .of_eq rfl rfl).bind
        fun _ => guarantees_waitThen (hscanEnded rfl)
    | false => exact quiet_stopAll hP hQ

/-! ### All pieces -/

/-- A task that is neither `run` nor a frame. -/
def Point.Aside (scan : Prop) : Point → Prop
  | .scan | .scanned _ => scan
  | .client | .request _ | .session _ | .stopSession _ | .sessionStopped _ => True
  | _ => False

variable (starts) in
/-- Such a task stays aside; it starts sessions only as a scan round or a connect request. -/
theorem calm_body {scan : Prop} {point : Point} (h : Point.Aside scan point)
    (hscan : ∀ found, point = .scanned found → starts)
    (hconnect : ∀ address, point = .request (.connect address) → starts) :
    CalmRest starts (Point.Aside scan) (body interp w point) := by
  cases point with
  | scan => exact calm_scanLoop fun found => h
  | scanned found => exact calm_scanRound interp (hscan found rfl) (fun ref => trivial) h found
  | client =>
    refine guarantees_pure fun answer next hnext => ?_
    cases answer with
    | done => cases hnext
    | devices => cases hnext
    | line request => exact Option.some.inj hnext ▸ trivial
  | request request =>
    refine calm_handleClient interp request (fun address heq => ?_) fun ref => trivial
    exact hconnect address (congrArg Point.request heq)
  | session ref => exact guarantees_waitThen trivial
  | stopSession ref => exact calm_stopSession ref trivial
  | sessionStopped ref =>
    refine (guarantees_modify fun s => ?_).bind fun _ => calm_returnStop ref
    exact .single (.session ref _ fun _ => rfl)
  | _ => exact h.elim

theorem Point.frame?_of_aside {scan : Prop} {point : Point} (h : Point.Aside scan point) :
    point.frame? = none := by
  cases point with
  | frame task => exact h.elim
  | _ => rfl

/-- Every piece but that of a frame leaves the frames alone. -/
theorem quiet_body {point : Point} (h : point.frame? = none) :
    (body interp w point).Guarantees Quiet (fun point => point.frame? = none)
      (·.Leads fun point => point.frame? = none) := by
  have haside (haside : Point.Aside True point) : (body interp w point).Guarantees Quiet
      (fun point => point.frame? = none) (·.Leads fun point => point.frame? = none) :=
    (calm_body True interp w haside (fun _ _ => trivial) fun _ _ => trivial).imp
      (fun _ _ => Changes.quiet) (fun _ => Point.frame?_of_aside)
      fun _ hleads => hleads.imp fun _ => Point.frame?_of_aside
  cases point with
  | main address scan => exact quiet_startUp interp w address scan rfl
  | serving address scan =>
    refine ((calm_connectAtStart interp trivial (fun _ => rfl) address).mono
      fun _ _ (h : Changes True _ _) => h.quiet).bind fun _ => ?_
    refine Guarantees.bind ?_ fun _ =>
      quiet_serve scan (fun _ => rfl) ⟨rfl, rfl, rfl⟩ rfl fun _ => rfl
    cases scan with
    | true => exact guarantees_create rfl
    | false => exact guarantees_return _
  | stopping scan => exact quiet_serve scan (fun _ => rfl) ⟨rfl, rfl, rfl⟩ rfl fun _ => rfl
  | scanEnded => exact quiet_stopAll (fun _ => rfl) ⟨rfl, rfl, rfl⟩
  | sessionsStopped => exact quiet_joinSessions ⟨rfl, rfl, rfl⟩
  | loggerStopped => exact quiet_joinLogger ⟨rfl, rfl, rfl⟩
  | serverClosed => exact quiet_unlinkSocket
  | frame task => cases h
  | _ => exact haside trivial

/-- Every piece keeps the registry in step with its record. -/
theorem keeps_body (point : Point) (s : Station) : Keeps s ((body interp w point).exec s).shared := by
  cases hframe : point.frame? with
  | none => exact ((quiet_body interp w hframe).shared s).keeps
  | some task =>
    cases point with
    | frame task =>
      rw [(exec_body_frame interp w task s).1]
      exact (keeps_handleFrame interp w task (P := fun _ => True)).shared s
    | _ => cases hframe

end

/-! ### Whatever the pieces may change -/

/-- What the pieces of `run` may change, beside what its tasks do: it loads the hub's config, works
    the logger and goes through the stages of the shutdown. -/
structure AllowsRun (w : Writer) (R : Station → Station → Prop) : Prop where
  makesDirs : ∀ s : Station, R s { s with logger.disk := (w.ensure s.logger.disk).2 }
  loads : ∀ (s : Station) hubConfigStore, R s { s with hubConfigStore }
  startsLogger : ∀ s : Station, R s { s with logger := s.logger.start w }
  stopsAll : ∀ (s : Station) stopsPending stopAlls, R s { s with
    stopsPending := stopsPending
    history.stopAlls := stopAlls }
  stopsLogger : ∀ s : Station, R s { s with logger := s.logger.stop }
  unlinks : ∀ s : Station, R s { s with socketRemoved := true }
  finishes : ∀ (s : Station) raised, R s { s with finished := some raised }

section
variable {w : Writer} {R : Station → Station → Prop} [Std.Refl R] [IsTrans Station R]

/-- The piece does what is allowed; which tasks it makes and where it goes on does not matter. -/
abbrev Runs (R : Station → Station → Prop) (c : Routine (Rest Point Answer)) : Prop :=
  c.Guarantees R (fun _ => True) fun _ => True

theorem runs_finish (hR : AllowsRun w R) (raised : Option PyError) : Runs R (finish raised) := by
  refine (guarantees_modify fun s => hR.finishes s raised).bind fun _ => ?_
  cases raised with
  | none => exact guarantees_return _
  | some exc => exact guarantees_raise exc

theorem runs_unlinkSocket (hR : AllowsRun w R) : Runs R unlinkSocket := by
  refine guarantees_get.bind fun self => ?_
  cases self.unlinkError with
  | some exc => exact runs_finish hR _
  | none => exact (guarantees_modify fun s => hR.unlinks s).bind fun _ => runs_finish hR none

theorem runs_joinLogger (hR : AllowsRun w R) : Runs R joinLogger := by
  refine guarantees_get.bind fun self => ?_
  split
  · exact guarantees_return _
  · exact runs_finish hR _
  · split
    · exact guarantees_return _
    · exact runs_unlinkSocket hR

theorem runs_joinSessions (hR : AllowsRun w R) : Runs R joinSessions := by
  refine guarantees_get.bind fun self => ?_
  split
  · exact (guarantees_modify fun s => hR.stopsLogger s).bind fun _ => runs_joinLogger hR
  · exact guarantees_return _

theorem runs_stopAll (hR : AllowsRun w R) : Runs R stopAll := by
  refine (guarantees_locked fun s => hR.stopsAll s _ _).bind fun sessions => ?_
  refine (guarantees_forM (fun ref => guarantees_create trivial) sessions).bind fun _ => ?_
  exact runs_joinSessions hR

theorem runs_serve (hR : AllowsRun w R) (hcancels : ∀ s : Station, s.stopRequested = true →
    R s { s with scanCancelled := true }) (scan : Bool) : Runs R (serve scan) := by
  refine ⟨fun s => ?_, fun _ _ _ => trivial, fun _ _ _ => trivial⟩
  rw [serve, exec_bind, exec_get, andThen_ok]
  split
  · exact Std.Refl.refl s
  · rename_i hstop
    cases scan with
    | true => exact hcancels s (by simpa using hstop)
    | false => exact (runs_stopAll hR).shared s

theorem runs_startUp (hR : AllowsRun w R) (interp : Interpreter) (address : Option Str)
    (scan : Bool) : Runs R (startUp interp w address scan) := by
  refine (guarantees_act fun s => hR.makesDirs s).bind fun _ => ?_
  refine (guarantees_act fun s => hR.loads s _).bind fun _ => ?_
  exact (guarantees_act fun s => hR.startsLogger s).bind fun _ => guarantees_return _

/-- What any piece does, in terms of what its actions do. -/
theorem runs_body (hR : AllowsRun w R) (hcancels : ∀ s : Station, s.stopRequested = true →
    R s { s with scanCancelled := true }) (interp : Interpreter)
    (hchanges : ∀ s t, Changes True s t → R s t)
    (hframe : ∀ task, (handleFrame interp w task).Guarantees R (fun _ => True) fun _ => True)
    (point : Point) : Runs R (body interp w point) := by
  have haside (haside : Point.Aside True point) : Runs R (body interp w point) :=
    (calm_body True interp w haside (fun _ _ => trivial) fun _ _ => trivial).imp hchanges
      (fun _ _ => trivial) fun _ _ => trivial
  cases point with
  | main address scan => exact runs_startUp hR interp address scan
  | serving address scan =>
    have hconnect : (connectAtStart interp address).Guarantees R (fun _ => True) fun _ => True :=
      (calm_connectAtStart interp trivial (fun _ => trivial) address).mono hchanges
    refine hconnect.bind fun _ => Guarantees.bind ?_ fun _ => runs_serve hR hcancels scan
    cases scan with
    | true => exact guarantees_create trivial
    | false => exact guarantees_return _
  | stopping scan => exact runs_serve hR hcancels scan
  | scanEnded => exact runs_stopAll hR
  | sessionsStopped => exact runs_joinSessions hR
  | loggerStopped => exact runs_joinLogger hR
  | serverClosed => exact runs_unlinkSocket hR
  | frame task => exact (hframe task).bind fun _ => guarantees_return _
  | _ => exact haside trivial

end

end Daemon

/-- A callback other than a notification is quiet. -/
theorem quiet_callback (w : Writer) (cb : Callback) (hcb : ∀ connection data,
    cb ≠ .notify connection data) (s : Station) : Quiet s (callback w cb s).1 ∧
      ∀ point ∈ (callback w cb s).2, point.frame? = none := by
  cases cb with
  | notify connection data => exact absurd rfl (hcb connection data)
  | subscribe ref => exact ⟨.of_eq rfl rfl, List.forall_mem_nil _⟩
  | session ref change =>
    refine ⟨quiet_withSession s ref fun session => ?_, List.forall_mem_nil _⟩
    cases change <;> rfl
  | link ref connected lastError => exact ⟨.of_eq rfl rfl, List.forall_mem_nil _⟩
  | client line =>
    refine ⟨?_, ?_⟩
    · cases line <;> exact .of_eq rfl rfl
    · cases line <;> simp [callback, Point.frame?]
  | requestStop => exact ⟨.of_eq rfl rfl, List.forall_mem_nil _⟩
  | logWorker i =>
    refine ⟨.of_accepted ?_, List.forall_mem_nil _⟩
    cases hrun : s.logger.runWorker w i with
    | none => rfl
    | some logger => exact RawDataLogger.accepted_runWorker w hrun
  | logStopped j =>
    refine ⟨.of_accepted ?_, List.forall_mem_nil _⟩
    cases hrun : s.logger.resumeStop j with
    | none => rfl
    | some logger => exact RawDataLogger.accepted_resumeStop hrun

theorem keeps_notified (s : Station) (connection : ℕ) (data : Bytes) :
    Keeps s (notified s connection data).1 := by
  unfold notified
  cases s.connections[connection]? with
  | none => exact id
  | some entry =>
    obtain ⟨ref, assembler⟩ := entry
    dsimp only
    cases s.central.sessions[ref]? with
    | none => exact id
    | some session => exact .of_keeping rfl

theorem keeps_callback (w : Writer) (cb : Callback) (s : Station) :
    Keeps s (callback w cb s).1 := by
  cases cb with
  | notify connection data => exact keeps_notified s connection data
  | _ => exact (quiet_callback w _ (by simp) s).1.keeps

end SlimHub
