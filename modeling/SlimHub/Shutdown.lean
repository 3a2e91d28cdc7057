import SlimHub.NoOrphans
import SlimHub.Routing

/-! What is left when `run` is over.

        stop ──▶ scan cancelled ──▶ stop_all ──▶ raw_logger.stop ──▶ _stop_server ──▶ over
                                      │             │                   │
                             the sessions of now    raises if the       socket file
                                                    worker failed

    The socket server is open until `_stop_server`. A connect request that comes while the sessions
    or the logger are awaited can start a session that `stop_all` has not seen; and where the worker
    of the logger failed, its exception ends the `finally` before `_stop_server`. -/

namespace SlimHub
open Text Nus Ble Asyncio Logging

/-- Once `run` is over, at the end of its `finally`, every session that was started was stopped, and
    the socket file is gone. -/
def ShutDown (s : Station) : Prop :=
  s.finished ≠ none →
    (∀ ref ∈ s.history.started, ref ∈ s.history.stopped) ∧ s.socketRemoved = true

instance (s : Station) : Decidable (ShutDown s) := inferInstanceAs (Decidable (_ → _))

/-- The address of the connect request that is handled next. -/
def connecting (L : Loop Station Point PyError Answer) : Option Str :=
  match L.ready with
  | .start (.request (.connect address)) :: _ => (normalizeMac address).toOption
  | _ => none

/-- The logger's worker has not failed, and after `stop_all` no connect request is handled whose
    address has no session. -/
def Undisturbed (L : Loop Station Point PyError Answer) (event : Event Answer Callback) : Prop :=
  (∀ worker ∈ L.shared.logger.workers, worker.Sound) ∧
    match event with
    | .tick => L.shared.history.stopAlls ≠ [] →
      ∀ a ∈ connecting L, L.shared.central.registry.find a ≠ none
    | _ => True

instance (L : Loop Station Point PyError Answer) : ∀ event, Decidable (Undisturbed L event)
  | .tick => inferInstanceAs (Decidable (_ ∧ (_ → _)))
  | .resume .. => inferInstanceAs (Decidable (_ ∧ True))
  | .call _ => inferInstanceAs (Decidable (_ ∧ True))

namespace Station

/-- The stages of the shutdown that were reached. -/
def stages (s : Station) :=
  (s.history.stopAlls, s.finished, s.socketRemoved, s.unlinkError, s.scanCancelled)

end Station

/-- What a task beside `run` leaves alone: after `stop_all` it starts no session, and the sessions
    that are to stop are stopped in the end. -/
structure Spares (s t : Station) : Prop where
  stages : t.stages = s.stages
  started : s.history.stopAlls ≠ [] → t.history.started = s.history.started
  stopped : ∀ ref ∈ s.history.stopped, ref ∈ t.history.stopped
  pending : ∀ ref ∈ s.stopsPending, ref ∈ t.stopsPending ∨ ref ∈ t.history.stopped
  joined : (∀ r ∈ s.logger.stopped, r = none) → ∀ r ∈ t.logger.stopped, r = none

variable {s t u : Station}

namespace Spares

theorem stopAlls (h : Spares s t) : t.history.stopAlls = s.history.stopAlls :=
  congrArg Prod.fst h.stages

theorem of_eq (hstages : t.stages = s.stages) (hhistory : t.history.started = s.history.started ∧
    t.history.stopped = s.history.stopped) (hpending : t.stopsPending = s.stopsPending)
    (hlogger : t.logger.stopped = s.logger.stopped) : Spares s t where
  stages := hstages
  started _ := hhistory.1
  stopped _ href := hhistory.2 ▸ href
  pending _ href := .inl (hpending ▸ href)
  joined h := hlogger ▸ h

theorem trans (h : Spares s t) (h' : Spares t u) : Spares s u where
  stages := h'.stages.trans h.stages
  started hstop := (h'.started (h.stopAlls ▸ hstop)).trans (h.started hstop)
  stopped ref href := h'.stopped ref (h.stopped ref href)
  pending ref href := by
    rcases h.pending ref href with href | href
    · exact h'.pending ref href
    · exact .inr (h'.stopped ref href)
  joined := h'.joined ∘ h.joined

end Spares

instance : Std.Refl Spares := ⟨fun _ => .of_eq rfl ⟨rfl, rfl⟩ rfl rfl⟩
instance : IsTrans Station Spares := ⟨fun _ _ _ => .trans⟩

/-! ### Tasks beside `run` -/

namespace Daemon
open Piece

/-- `ensure_target` touches the central, its record and the clock. -/
theorem shared_ensureTarget (target : Target) (s : Station) : ∃ central added started reads,
    ((ensureTarget target).exec s).shared = { s with
      central := central
      history.added := added
      history.started := started
      reads := reads } := by
  cases h : normalizeMac target.addressText with
  | error exc =>
    rw [exec_ensureTarget_invalid h]
    exact ⟨_, _, _, _, rfl⟩
  | ok a =>
    cases hfind : s.central.registry.find a with
    | none =>
      rw [exec_ensureTarget_new h hfind]
      exact ⟨_, _, _, _, rfl⟩
    | some ref =>
      rw [exec_ensureTarget_found h hfind]
      exact ⟨_, _, _, _, rfl⟩

end Daemon

theorem Change.spares {starts : Prop} (h : Change starts s t)
    (hstarts : starts → s.history.stopAlls = []) : Spares s t := by
  cases h with
  | returned ref =>
    refine ⟨rfl, fun _ => rfl, fun _ => List.mem_append_left _, fun r hr => ?_, id⟩
    by_cases heq : r = ref
    · exact .inr (List.mem_append_right _ (List.mem_singleton.mpr heq))
    · exact .inl (List.mem_filter.mpr ⟨hr, decide_eq_true heq⟩)
  | ensured target h =>
    obtain ⟨central, added, started, reads, heq⟩ := Daemon.shared_ensureTarget target s
    rw [heq]
    exact ⟨rfl, fun hstop => absurd (hstarts h) hstop, fun _ => id, fun _ => .inl, id⟩
  | _ => exact .of_eq rfl ⟨rfl, rfl⟩ rfl rfl

theorem Change.logger {starts : Prop} (h : Change starts s t) : t.logger = s.logger := by
  cases h with
  | ensured target h =>
    obtain ⟨central, added, started, reads, heq⟩ := Daemon.shared_ensureTarget target s
    rw [heq]
  | _ => rfl

theorem Changes.spares {starts : Prop} (h : Changes starts s t)
    (hstarts : starts → s.history.stopAlls = []) : Spares s t := by
  induction h with
  | refl => exact Std.Refl.refl s
  | tail _ hlast ih => exact ih.trans (hlast.spares fun h => ih.stopAlls.trans (hstarts h))

theorem Changes.logger {starts : Prop} (h : Changes starts s t) : t.logger = s.logger := by
  induction h with
  | refl => rfl
  | tail _ hlast ih => exact hlast.logger.trans ih

namespace Daemon
open Piece

variable (interp : Interpreter) (w : Writer)

theorem spares_handleFrame (task : FrameTask) (P : Point → Prop) :
    (handleFrame interp w task).Guarantees Spares P fun _ => True :=
  guarantees_handleFrame interp w (fun _ _ h => h.spares False.elim)
    (fun _ _ => .of_eq rfl ⟨rfl, rfl⟩ rfl rfl)
    (fun s event _ => .of_eq rfl ⟨rfl, rfl⟩ rfl (RawDataLogger.stopped_log w s.logger event))
    (fun _ _ _ => .of_eq rfl ⟨rfl, rfl⟩ rfl rfl) task

/-- A connect request for an address that has a session starts none. -/
theorem spares_connectAddress {address : Str}
    (h : ∀ a, normalizeMac address = .ok a → s.central.registry.find a ≠ none) :
    Spares s ((connectAddress interp address).exec s).shared := by
  cases ha : normalizeMac address with
  | error exc =>
    simp only [connectAddress, exec_bind, exec_lift, ha, andThen_error]
    exact Std.Refl.refl s
  | ok a =>
    have hrest (ref : SessionRef) (t : Station) : Spares t ((do
        let session ← sessionAt ref
        let _ ← write interp (.connected a session.name)
        let links := (← Piece.get).links
        return session.status (links ref).1 (links ref).2 :
          Routine SessionStatus).exec t).shared :=
      (((calm_sessionAt ref).bind fun session => (calm_write interp _).bind fun _ =>
        guarantees_get.bind fun _ => guarantees_return _ :
          Calm False (fun _ => True) _).shared t).spares False.elim
    rw [connectAddress, exec_bind, exec_lift, ha, andThen_ok]
    refine shared_bind ?_ fun ref t => hrest ref t
    have hidem : normalizeMac (Target.text a).addressText = .ok a := normalizeMac_idem ha
    rw [ensureAddress, exec_bind, exec_lift, normalizeMac_idem ha, andThen_ok]
    cases hfind : s.central.registry.find a with
    | none => exact absurd hfind (h a ha)
    | some ref =>
      rw [exec_ensureTarget_found hidem hfind]
      exact .of_eq rfl ⟨rfl, rfl⟩ rfl rfl

/-- What the piece of a task beside `run` leaves alone. -/
theorem spares_body {scan : Prop} {point : Point} (h : Point.Aside scan point)
    (hscan : s.history.stopAlls ≠ [] → scan → s.scanCancelled = true)
    (hconnect : s.history.stopAlls ≠ [] → ∀ address a, point = .request (.connect address) →
      normalizeMac address = .ok a → s.central.registry.find a ≠ none) :
    Spares s ((body interp w point).exec s).shared := by
  by_cases hstop : s.history.stopAlls = []
  · have hcalm := calm_body True interp w h (fun _ _ => trivial) fun _ _ => trivial
    exact (hcalm.shared s).spares fun _ => hstop
  · have hcalm (hscanned : ∀ found, point ≠ .scanned found)
        (hrequest : ∀ address, point ≠ .request (.connect address)) :
        Spares s ((body interp w point).exec s).shared :=
      ((calm_body False interp w h hscanned hrequest).shared s).spares False.elim
    cases point with
    | scanned found =>
      have hcancelled : s.scanCancelled = true := hscan hstop h
      simp only [body, scanRound, exec_bind, exec_get, andThen_ok, hcancelled, if_true, exec_pure]
      exact Std.Refl.refl s
    | request request =>
      cases request with
      | connect address =>
        rw [body, handleClient]
        refine shared_bind ?_ fun answer t => .of_eq rfl ⟨rfl, rfl⟩ rfl rfl
        rw [exec_attempt, dispatch]
        refine shared_bind ?_ fun status t => Std.Refl.refl t
        exact spares_connectAddress interp fun a => hconnect hstop address a rfl
      | _ => exact hcalm (by simp) (by simp)
    | _ => exact hcalm (by simp) (by simp)

end Daemon

/-! ### The stages of `run` -/

/-- The points of `run`. -/
def Point.OfRun : Point → Prop
  | .main .. | .serving .. | .stopping _ | .scanEnded => True
  | .sessionsStopped | .loggerStopped | .serverClosed => True
  | _ => False

/-- `stop_all` has not been called. -/
structure Serving (s : Station) : Prop where
  stopAlls : s.history.stopAlls = []
  finished : s.finished = none

/-- It has, and `run` is not over. -/
structure Stopping (s : Station) : Prop where
  stopAlls : s.history.stopAlls ≠ []
  finished : s.finished = none

/-- Where a task can be at a stage; `scan` says whether there is a scan loop. -/
def Point.Admitted (scan : Bool) (s : Station) : Point → Prop
  | .main _ scan' | .serving _ scan' | .stopping scan' => scan' = scan ∧ Serving s
  | .scanEnded => Serving s ∧ s.scanCancelled = true
  | .sessionsStopped => Stopping s ∧
    ∀ ref ∈ s.history.started, ref ∈ s.stopsPending ∨ ref ∈ s.history.stopped
  | .loggerStopped | .serverClosed => Stopping s ∧ ∀ ref ∈ s.history.started, ref ∈ s.history.stopped
  | .scan | .scanned _ => scan = true
  | _ => True

/-- What holds at every stage. -/
structure Orderly (scan : Bool) (s : Station) : Prop where
  unlinks : s.unlinkError = none
  joined : ∀ r ∈ s.logger.stopped, r = none
  cancelled : s.history.stopAlls ≠ [] → scan = true → s.scanCancelled = true
  complete : s.finished ≠ none → s.history.stopAlls ≠ [] ∧
    (∀ ref ∈ s.history.started, ref ∈ s.history.stopped) ∧ s.socketRemoved = true

variable {scan : Bool} {point : Point}

theorem Serving.spared (h : Serving s) (hst : Spares s t) : Serving t := by
  obtain ⟨hstopAlls, hfinished, _⟩ := by simpa [Station.stages] using hst.stages
  exact ⟨hstopAlls ▸ h.stopAlls, hfinished ▸ h.finished⟩

theorem Stopping.spared (h : Stopping s) (hst : Spares s t) : Stopping t := by
  obtain ⟨hstopAlls, hfinished, _⟩ := by simpa [Station.stages] using hst.stages
  exact ⟨hstopAlls ▸ h.stopAlls, hfinished ▸ h.finished⟩

theorem Orderly.spared (h : Orderly scan s) (hst : Spares s t) : Orderly scan t := by
  obtain ⟨hstopAlls, hfinished, hremoved, hunlink, hcancelled⟩ :=
    by simpa [Station.stages] using hst.stages
  refine ⟨hunlink ▸ h.unlinks, hst.joined h.joined, ?_, fun hover => ?_⟩
  · rw [hstopAlls, hcancelled]
    exact h.cancelled
  · obtain ⟨hstop, hstopped, hsocket⟩ := h.complete (hfinished ▸ hover)
    refine ⟨hstopAlls ▸ hstop, fun ref href => ?_, hremoved ▸ hsocket⟩
    exact hst.stopped ref (hstopped ref (hst.started hstop ▸ href))

theorem Point.Admitted.spared (h : point.Admitted scan s) (hst : Spares s t) :
    point.Admitted scan t := by
  have hstopped (hstop : Stopping s ∧ ∀ ref ∈ s.history.started, ref ∈ s.history.stopped) :
      Stopping t ∧ ∀ ref ∈ t.history.started, ref ∈ t.history.stopped :=
    ⟨hstop.1.spared hst, fun ref href =>
      hst.stopped ref (hstop.2 ref (hst.started hstop.1.stopAlls ▸ href))⟩
  cases point with
  | main address scan' => exact ⟨h.1, h.2.spared hst⟩
  | serving address scan' => exact ⟨h.1, h.2.spared hst⟩
  | stopping scan' => exact ⟨h.1, h.2.spared hst⟩
  | scanEnded =>
    refine ⟨h.1.spared hst, ?_⟩
    obtain ⟨_, _, _, _, hcancelled⟩ := by simpa [Station.stages] using hst.stages
    exact hcancelled ▸ h.2
  | sessionsStopped =>
    refine ⟨h.1.spared hst, fun ref href => ?_⟩
    rcases h.2 ref (hst.started h.1.stopAlls ▸ href) with href | href
    · exact hst.pending ref href
    · exact .inr (hst.stopped ref href)
  | loggerStopped => exact hstopped h
  | serverClosed => exact hstopped h
  | _ => exact h

/-- A task beside `run` can be where it is at every stage. -/
theorem Point.Admitted.of_not_ofRun (h : point.Admitted scan s) (hpoint : ¬ point.OfRun) :
    point.Admitted scan t := by
  cases point with
  | scan => exact h
  | scanned found => exact h
  | client | request | frame | session | stopSession | sessionStopped => trivial
  | _ => exact (hpoint trivial).elim

theorem Point.Admitted.of_aside (h : Daemon.Point.Aside (scan = true) point) :
    ¬ point.OfRun ∧ point.Admitted scan s := by
  cases point with
  | scan => exact ⟨id, h⟩
  | scanned found => exact ⟨id, h⟩
  | client | request | session | stopSession | sessionStopped => exact ⟨id, trivial⟩
  | _ => exact h.elim

/-- What a piece of `run` does at a stage. -/
structure Stage (scan : Bool) (ran : Ran Station Point PyError (Rest Point Answer)) : Prop where
  shared : Orderly scan ran.shared
  created : ∀ p ∈ ran.created, ¬ p.OfRun ∧ p.Admitted scan ran.shared
  leads : ∀ rest, ran.result = .ok rest → rest.Leads (·.Admitted scan ran.shared)

namespace Daemon
open Piece

theorem stage_waitThen (h : Orderly scan s) (hpoint : point.Admitted scan s) :
    Stage scan ((waitThen point).exec s) where
  shared := h
  created := List.forall_mem_nil _
  leads rest hrest := by
    rw [← Except.ok.inj hrest]
    intro answer p hp
    cases answer with
    | done => exact Option.some.inj hp ▸ hpoint
    | devices => cases hp
    | line => cases hp

/-- The tasks that the first part creates are beside `run`. -/
theorem stage_bind {α : Type} {c : Routine α} {f : α → Routine (Rest Point Answer)}
    (horder : Orderly scan (c.exec s).shared)
    (hcreated : ∀ p ∈ (c.exec s).created, ¬ p.OfRun ∧ p.Admitted scan s)
    (hf : ∀ a, Stage scan ((f a).exec (c.exec s).shared)) : Stage scan ((c >>= f).exec s) := by
  rw [exec_bind, andThen]
  cases (c.exec s).result with
  | error exc =>
    refine ⟨horder, fun p hp => ?_, fun rest hrest => ?_⟩
    · exact ⟨(hcreated p hp).1, (hcreated p hp).2.of_not_ofRun (hcreated p hp).1⟩
    · cases hrest
  | ok a =>
    refine ⟨(hf a).shared, fun p hp => ?_, (hf a).leads⟩
    rcases List.mem_append.mp hp with hp | hp
    · exact ⟨(hcreated p hp).1, (hcreated p hp).2.of_not_ofRun (hcreated p hp).1⟩
    · exact (hf a).created p hp

theorem stage_unlinkSocket (h : Orderly scan s) (hpoint : Point.serverClosed.Admitted scan s) :
    Stage scan (unlinkSocket.exec s) := by
  rw [unlinkSocket, exec_bind, exec_get, andThen_ok, h.unlinks]
  simp only [exec_bind, exec_modify, andThen_ok, finish, exec_pure]
  exact ⟨⟨h.unlinks, h.joined, h.cancelled, fun _ => ⟨hpoint.1.stopAlls, hpoint.2, rfl⟩⟩,
    List.forall_mem_nil _, fun rest hrest => Except.ok.inj hrest ▸ trivial⟩

theorem stage_joinLogger (h : Orderly scan s) (hpoint : Point.loggerStopped.Admitted scan s) :
    Stage scan (joinLogger.exec s) := by
  rw [joinLogger, exec_bind, exec_get, andThen_ok]
  cases hlast : s.logger.stopped.getLast? with
  | none => exact stage_waitThen h hpoint
  | some result =>
    obtain rfl : result = none := h.joined result (List.mem_of_getLast? hlast)
    dsimp only
    split
    · exact stage_waitThen h hpoint
    · exact stage_unlinkSocket h hpoint

theorem stage_joinSessions (h : Orderly scan s) (hpoint : Point.sessionsStopped.Admitted scan s)
    (hworker : ∀ worker ∈ s.logger.workers, worker.Sound) :
    Stage scan (joinSessions.exec s) := by
  rw [joinSessions, exec_bind, exec_get, andThen_ok]
  split
  · rename_i hpending
    rw [stopLogger, exec_bind, exec_modify, andThen_ok]
    refine stage_joinLogger ?_ ⟨⟨hpoint.1.stopAlls, hpoint.1.finished⟩, fun ref href => ?_⟩
    · exact ⟨h.unlinks, RawDataLogger.stopped_stop hworker h.joined, h.cancelled, h.complete⟩
    · rcases hpoint.2 ref href with href | href
      · rw [hpending] at href
        cases href
      · exact href
  · exact stage_waitThen h hpoint

/-- The sessions that `stop_all` stops are all that were started. -/
theorem stage_stopAll (h : Orderly scan s) (hs : Registered s) (hserving : Serving s)
    (hcancelled : scan = true → s.scanCancelled = true)
    (hworker : ∀ worker ∈ s.logger.workers, worker.Sound) : Stage scan (stopAll.exec s) := by
  rw [stopAll, exec_bind, exec_locked, andThen_ok]
  have horder : Orderly scan { s with
      stopsPending := s.central.registry.sessions.entries.map Prod.snd
      history.stopAlls := s.history.stopAlls ++
        [(s.history.started, s.central.registry.sessions.entries.map Prod.snd)] } :=
    ⟨h.unlinks, h.joined, fun _ => hcancelled, fun hover => absurd hserving.finished hover⟩
  refine stage_bind ?_ (fun p hp => ?_) fun _ => ?_
  · rw [exec_forM_create]
    exact horder
  · rw [exec_forM_create] at hp
    obtain ⟨ref, _, rfl⟩ := List.mem_map.mp hp
    exact ⟨id, trivial⟩
  · rw [exec_forM_create]
    refine stage_joinSessions horder ⟨⟨?_, hserving.finished⟩, fun ref href => ?_⟩ hworker
    · exact List.append_ne_nil_of_right_ne_nil _ (List.cons_ne_nil _ _)
    · rw [hs.started, hs.added] at href
      exact .inl href

theorem stage_serve (h : Orderly scan s) (hs : Registered s) (hserving : Serving s)
    (hworker : ∀ worker ∈ s.logger.workers, worker.Sound) :
    Stage scan ((serve scan).exec s) := by
  rw [serve, exec_bind, exec_get, andThen_ok]
  split
  · exact stage_waitThen h ⟨rfl, hserving⟩
  · cases scan with
    | true =>
      simp only [if_true, exec_bind, exec_modify, andThen_ok]
      exact stage_waitThen ⟨h.unlinks, h.joined, fun _ _ => rfl, h.complete⟩
        ⟨⟨hserving.stopAlls, hserving.finished⟩, rfl⟩
    | false =>
      exact stage_stopAll h hs hserving (fun hscan => absurd hscan Bool.false_ne_true) hworker

variable (interp : Interpreter) (w : Writer)

theorem stage_startUp (address : Option Str) (h : Orderly scan s) (hserving : Serving s) :
    Stage scan ((startUp interp w address scan).exec s) := by
  have hspares : (startUp interp w address scan).Guarantees Spares (fun _ => False)
      (·.Leads (· = .serving address scan)) := by
    refine (guarantees_act fun _ => .of_eq rfl ⟨rfl, rfl⟩ rfl rfl).bind fun _ => ?_
    refine (guarantees_act fun _ => .of_eq rfl ⟨rfl, rfl⟩ rfl rfl).bind fun _ => ?_
    refine (guarantees_act fun s => .of_eq rfl ⟨rfl, rfl⟩ rfl ?_).bind
      fun _ => guarantees_waitThen rfl
    exact RawDataLogger.stopped_start w s.logger
  refine ⟨h.spared (hspares.shared s), fun p hp => (hspares.created s p hp).elim, ?_⟩
  intro rest hrest
  refine (hspares.result s rest hrest).imp fun p hp => ?_
  rw [hp]
  exact ⟨rfl, hserving.spared (hspares.shared s)⟩

theorem stage_serving (address : Option Str) (h : Orderly scan s) (hs : Registered s)
    (hserving : Serving s) (hworker : ∀ worker ∈ s.logger.workers, worker.Sound) :
    Stage scan ((body interp w (.serving address scan)).exec s) := by
  have hcalm : Calm True (∃ ref, · = Point.session ref) (connectAtStart interp address) :=
    calm_connectAtStart interp trivial (fun ref => ⟨ref, rfl⟩) address
  have hchanges := hcalm.shared s
  have hspares := hchanges.spares fun _ => hserving.stopAlls
  refine stage_bind (h.spared hspares) (fun p hp => ?_) fun _ => ?_
  · obtain ⟨ref, rfl⟩ := hcalm.created s p hp
    exact ⟨id, trivial⟩
  · have hserve := stage_serve (h.spared hspares) (hchanges.quiet.keeps hs)
      (hserving.spared hspares) (hchanges.logger ▸ hworker)
    cases scan with
    | true =>
      exact stage_bind (h.spared hspares)
        (fun p hp => List.mem_singleton.mp hp ▸ ⟨id, rfl⟩) fun _ => hserve
    | false => exact stage_bind (h.spared hspares) (List.forall_mem_nil _) fun _ => hserve

/-- Every piece of `run` does its part of the shutdown. -/
theorem stage_body (h : Orderly scan s) (hs : Registered s) (hpoint : point.Admitted scan s)
    (hrun : point.OfRun) (hworker : ∀ worker ∈ s.logger.workers, worker.Sound) :
    Stage scan ((body interp w point).exec s) := by
  cases point with
  | main address scan' =>
    obtain ⟨rfl, hserving⟩ := hpoint
    exact stage_startUp interp w address h hserving
  | serving address scan' =>
    obtain ⟨rfl, hserving⟩ := hpoint
    exact stage_serving interp w address h hs hserving hworker
  | stopping scan' =>
    obtain ⟨rfl, hserving⟩ := hpoint
    exact stage_serve h hs hserving hworker
  | scanEnded => exact stage_stopAll h hs hpoint.1 (fun _ => hpoint.2) hworker
  | sessionsStopped => exact stage_joinSessions h hpoint hworker
  | loggerStopped => exact stage_joinLogger h hpoint
  | serverClosed => exact stage_unlinkSocket h hpoint
  | _ => exact hrun.elim

end Daemon

/-! ### Whole runs -/

/-- At most the main task is at a point of `run`, and all tasks are where the stage admits them. -/
abbrev Managed (scan : Bool) (A : Atomic Station Point Answer) : Prop :=
  A.Led Point.OfRun (fun s => Registered s ∧ Orderly scan s) (fun s point => point.Admitted scan s)

variable (interp : Interpreter) (w : Writer)

/-- What a callback leaves alone. -/
theorem spares_callback (cb : Callback) (s : Station)
    (hworker : ∀ worker ∈ s.logger.workers, worker.Sound) :
    Spares s (callback w cb s).1 ∧ ∀ p ∈ (callback w cb s).2, ¬ p.OfRun ∧ p.Admitted scan t := by
  cases cb with
  | notify connection data =>
    unfold callback notified
    dsimp only
    split
    · exact ⟨Std.Refl.refl s, List.forall_mem_nil _⟩
    · split
      · exact ⟨Std.Refl.refl s, List.forall_mem_nil _⟩
      · refine ⟨.of_eq rfl ⟨rfl, rfl⟩ rfl rfl, fun p hp => ?_⟩
        obtain ⟨task, _, rfl⟩ := List.mem_map.mp hp
        exact ⟨id, trivial⟩
  | subscribe ref => exact ⟨.of_eq rfl ⟨rfl, rfl⟩ rfl rfl, List.forall_mem_nil _⟩
  | session ref change => exact ⟨.of_eq rfl ⟨rfl, rfl⟩ rfl rfl, List.forall_mem_nil _⟩
  | link ref connected lastError => exact ⟨.of_eq rfl ⟨rfl, rfl⟩ rfl rfl, List.forall_mem_nil _⟩
  | client line =>
    cases line with
    | none => exact ⟨Std.Refl.refl s, fun p hp => List.mem_singleton.mp hp ▸ ⟨id, trivial⟩⟩
    | some request => exact ⟨Std.Refl.refl s, fun p hp => List.mem_singleton.mp hp ▸ ⟨id, trivial⟩⟩
  | requestStop => exact ⟨.of_eq rfl ⟨rfl, rfl⟩ rfl rfl, List.forall_mem_nil _⟩
  | logWorker i =>
    refine ⟨.of_eq rfl ⟨rfl, rfl⟩ rfl ?_, List.forall_mem_nil _⟩
    change ((s.logger.runWorker w i).getD s.logger).stopped = s.logger.stopped
    cases hrun : s.logger.runWorker w i with
    | none => rfl
    | some logger => exact RawDataLogger.stopped_runWorker w hrun
  | logStopped j =>
    refine ⟨⟨rfl, fun _ => rfl, fun _ => id, fun _ => .inl, fun hjoined => ?_⟩, List.forall_mem_nil _⟩
    change ∀ r ∈ ((s.logger.resumeStop j).getD s.logger).stopped, r = none
    cases hrun : s.logger.resumeStop j with
    | none => exact hjoined
    | some logger => exact RawDataLogger.stopped_resumeStop hworker hjoined hrun

/-- A piece does its part, whoever's it is. -/
theorem settles_body (hs : Registered s) (h : Orderly scan s) (hpoint : point.Admitted scan s)
    (hworker : ∀ worker ∈ s.logger.workers, worker.Sound)
    (hconnect : s.history.stopAlls ≠ [] → ∀ address a, point = .request (.connect address) →
      normalizeMac address = .ok a → s.central.registry.find a ≠ none) :
    Atomic.Settles Point.OfRun (fun s => Registered s ∧ Orderly scan s)
      (fun s point => point.Admitted scan s) s point ((Daemon.body interp w point).exec s) := by
  have hkeeps := Daemon.keeps_body interp w point s hs
  by_cases hrun : point.OfRun
  · have hstage := Daemon.stage_body interp w h hs hpoint hrun hworker
    refine ⟨⟨hkeeps, hstage.shared⟩, hstage.created, fun rest hrest => ?_, fun p hp hadmitted => ?_⟩
    · exact (hstage.leads rest hrest).imp fun p hp => ⟨fun _ => hrun, hp⟩
    · exact hadmitted.of_not_ofRun fun hmain => hp ⟨hmain, hrun⟩
  · have haside {P : Prop} (hframe : ∀ task, point = .frame task → P)
        (hother : Daemon.Point.Aside (scan = true) point → P) : P := by
      cases point with
      | frame task => exact hframe task rfl
      | scan => exact hother hpoint
      | scanned found => exact hother hpoint
      | client | request | session | stopSession | sessionStopped => exact hother trivial
      | _ => exact (hrun trivial).elim
    have hspares : Spares s ((Daemon.body interp w point).exec s).shared := by
      refine haside (fun task htask => ?_) fun haside => ?_
      · rw [htask, (Daemon.exec_body_frame interp w task s).1]
        exact (Daemon.spares_handleFrame interp w task fun _ => True).shared s
      · exact Daemon.spares_body interp w haside h.cancelled hconnect
    have hothers : (∀ p ∈ ((Daemon.body interp w point).exec s).created,
          ¬ p.OfRun ∧ p.Admitted scan s) ∧
        ∀ rest, ((Daemon.body interp w point).exec s).result = .ok rest →
          rest.Leads fun p => ¬ p.OfRun ∧ p.Admitted scan s := by
      refine haside (fun task htask => ?_) fun haside => ?_
      · obtain ⟨_, hcreated, hwaits⟩ := Daemon.exec_body_frame interp w task s
        rw [htask, hcreated]
        refine ⟨List.forall_mem_nil _, fun rest hrest => ?_⟩
        rw [hrest] at hwaits
        cases rest with
        | finish => trivial
        | wait next => cases hwaits
      · have hcalm := Daemon.calm_body True interp w haside (fun _ _ => trivial)
          fun _ _ => trivial
        exact ⟨fun p hp => Point.Admitted.of_aside (hcalm.created s p hp),
          fun rest hrest => (hcalm.result s rest hrest).imp
            fun p hp => Point.Admitted.of_aside hp⟩
    refine ⟨⟨hkeeps, h.spared hspares⟩, fun p hp => ?_, fun rest hrest => ?_,
      fun p _ hadmitted => hadmitted.spared hspares⟩
    · exact ⟨(hothers.1 p hp).1, (hothers.1 p hp).2.spared hspares⟩
    · exact (hothers.2 rest hrest).imp fun p hp =>
        ⟨fun hmain => absurd hmain hp.1, hp.2.spared hspares⟩

theorem managed_step (L : Loop Station Point PyError Answer) (event : Event Answer Callback)
    (M : Loop Station Point PyError Answer) (h : ∃ A, L = A.toLoop ∧ Managed scan A)
    (hevent : Undisturbed L event) (hstep : Daemon.loopStep interp w event L = some M) :
    ∃ B, M = B.toLoop ∧ Managed scan B := by
  obtain ⟨A, rfl, h⟩ := h
  rw [Daemon.loopStep, step_toLoop] at hstep
  obtain ⟨B, hB, rfl⟩ := Option.map_eq_some_iff.mp hstep
  refine ⟨B, rfl, h.step (fun htick point hhead hpoint => ?_) (fun cb _ => ?_) hB⟩
  · refine settles_body interp w h.shared.1 h.shared.2 hpoint hevent.1 ?_
    rintro hstop address a rfl ha
    subst htick
    obtain ⟨ready, hready⟩ := List.head?_eq_some_iff.mp hhead
    refine hevent.2 hstop a ?_
    simp only [connecting, Atomic.toLoop, hready, List.map_cons, ha]
    rfl
  · obtain ⟨hspares, hcreated⟩ := spares_callback w cb A.shared hevent.1
    exact ⟨⟨keeps_callback w cb A.shared h.shared.1, h.shared.2.spared hspares⟩, hcreated,
      fun p hp => hp.spared hspares⟩

theorem managed_launched {station : Station} (h : Registered station)
    (hunlink : station.unlinkError = none) (hstopped : station.logger.stopped = [])
    (hserving : Serving station) (address : Option Str) (scan : Bool) :
    Managed scan (station.launched address scan) where
  shared := ⟨h, hunlink, by rw [Station.launched, hstopped]; exact List.forall_mem_nil _,
    fun hstop => absurd hserving.stopAlls hstop, fun hover => absurd hserving.finished hover⟩
  one := List.countP_le_length
  ready p hp := List.mem_singleton.mp hp ▸ ⟨rfl, hserving⟩
  paused := List.forall_mem_nil _

/-- CORRECT: where the logger's worker does not fail, no connect request for an address without a
    session is handled after `stop_all`, and the socket file can be unlinked, a shutdown is
    complete: in every state of every run, if `run` has come to the end of its `finally`, all
    sessions that it started were stopped and it has removed the socket file. A start-up that raises
    before the `try`, as for an address whose config cannot be read, never gets there. -/
theorem shutdown_complete (configStore : DeviceConfigStore) (hubConfigStore : HubConfigStore)
    (disk : Files.FS) (times : ℕ → ℚ) (awaitsClients : Bool) (address : Option Str) (scan : Bool)
    (events : List (Event Answer Callback)) (L : Loop Station Point PyError Answer)
    (hevents : Machine.Along (Daemon.loopStep interp w) (fun L event _ => Undisturbed L event)
      ((Station.new configStore hubConfigStore disk times awaitsClients none).launch address scan)
      events)
    (hrun : Machine.run (Daemon.loopStep interp w) events
      ((Station.new configStore hubConfigStore disk times awaitsClients none).launch address scan) =
        some L) :
    ShutDown L.shared := by
  obtain ⟨A, rfl, hA⟩ := Machine.run_invariant_along (managed_step interp w)
    ⟨_, rfl, managed_launched (Registered.new ..) rfl rfl ⟨rfl, rfl⟩ address scan⟩ hevents hrun
  exact fun hover => (hA.shared.2.complete hover).2

/-- A client asks for an address while the worker of the logger is awaited. -/
def connectWhileStopping : List (Event Answer Callback) :=
  [.tick, .resume 0 .done, .tick, .call .requestStop, .resume 0 .done, .tick,
    .call (.client (some (.connect (str "11:22:33:44:55:66")))), .tick, .call (.logWorker 0),
    .call (.logStopped 0), .resume 0 .done, .tick, .tick]

/-- A disk on which no event can be written. -/
def fullDisk : Writer :=
  ⟨fun disk => (none, disk), fun _ disk => (some ⟨.osError, [.lit "No space left on device"]⟩, disk)⟩

/-- A node reports, and the daemon is stopped, once its session has stopped. -/
def reportThenStop : List (Event Answer Callback) :=
  [.tick, .resume 0 .done, .tick, .call (.client (some (.connect (str "11:22:33:44:55:66")))), .tick,
    .call (.subscribe 0), .call (.notify 0 enterFrame), .tick, .tick, .call (.logWorker 0),
    .call .requestStop, .resume 0 .done, .tick, .tick, .resume 2 .done, .tick, .resume 1 .done, .tick]

/-- The session of a late connect request is not stopped, and with a failed worker the socket file
    stays. -/
theorem shutdown_incomplete :
    (∃ L, Machine.run (Daemon.loopStep freshInterpreter openDisk) connectWhileStopping
      (freshStation.launch none false) = some L ∧ ¬ ShutDown L.shared) ∧
    ∃ L, Machine.run (Daemon.loopStep freshInterpreter fullDisk) reportThenStop
      (freshStation.launch none false) = some L ∧ ¬ ShutDown L.shared := by
  have hlate : (Machine.run (Daemon.loopStep freshInterpreter openDisk) connectWhileStopping
      (freshStation.launch none false)).map (fun L => decide (ShutDown L.shared)) = some false := by
    decide +kernel
  have hfailed : (Machine.run (Daemon.loopStep freshInterpreter fullDisk) reportThenStop
      (freshStation.launch none false)).map (fun L => decide (ShutDown L.shared)) = some false := by
    decide +kernel
  obtain ⟨L, hrun, hL⟩ := Option.map_eq_some_iff.mp hlate
  obtain ⟨M, hrun', hM⟩ := Option.map_eq_some_iff.mp hfailed
  exact ⟨⟨L, hrun, of_decide_eq_false hL⟩, M, hrun', of_decide_eq_false hM⟩

/-- With a disk that takes the event, the shutdown after a report is complete. -/
theorem reportThenStop_complete : ∃ L,
    Machine.run (Daemon.loopStep freshInterpreter openDisk)
      (reportThenStop ++ [.call (.logWorker 0), .call (.logStopped 0), .resume 1 .done, .tick])
      (freshStation.launch none false) = some L ∧
      L.shared.finished ≠ none ∧ L.shared.history.started = [0] ∧ ShutDown L.shared := by
  have hevents : Machine.Along (Daemon.loopStep freshInterpreter openDisk)
      (fun L event _ => Undisturbed L event) (freshStation.launch none false)
      (reportThenStop ++ [.call (.logWorker 0), .call (.logStopped 0), .resume 1 .done, .tick]) := by
    decide +kernel
  have hstate : (Machine.run (Daemon.loopStep freshInterpreter openDisk)
      (reportThenStop ++ [.call (.logWorker 0), .call (.logStopped 0), .resume 1 .done, .tick])
      (freshStation.launch none false)).map
        (fun L => decide (L.shared.finished ≠ none ∧ L.shared.history.started = [0])) =
          some true := by decide +kernel
  obtain ⟨L, hrun, hL⟩ := Option.map_eq_some_iff.mp hstate
  obtain ⟨hover, hstarted⟩ := of_decide_eq_true hL
  exact ⟨L, hrun, hover, hstarted,
    shutdown_complete freshInterpreter openDisk _ _ _ _ _ _ _ _ L hevents hrun⟩

end SlimHub
