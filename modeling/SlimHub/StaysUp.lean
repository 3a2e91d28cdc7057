import SlimHub.Lib.Living
import SlimHub.Shutdown

/-! What keeps the daemon up.

        main ──▶ serving ──▶ stop_event.wait()                      waits until a stop is requested
                    │
                    └──▶ scan ──▶ BleakScanner ──▶ round ──▶ _wait_or_stop ──▶ scan ──▶ …

    Once it has started, only a stop ends the daemon: an invalid frame, an error of the scanner, of
    a config file or of the logger, and whatever clients ask for, end a round, a request or a frame
    task, but neither the main task nor the scan loop. -/

namespace SlimHub
open Text Nus Ble Asyncio Logging

/-- Where `run` starts up. -/
def Point.Starts (scan : Bool) : Point → Prop
  | .main _ scan' | .serving _ scan' => scan' = scan
  | _ => False

/-- Where `run` awaits the stop event. -/
def Point.AwaitsStop (scan : Bool) (point : Point) : Prop := point = .stopping scan

/-- Where the scan loop goes on. -/
def Point.Scans : Point → Prop
  | .scan | .scanned _ => True
  | _ => False

/-- The daemon is up: `run` starts up, or it awaits the stop event and beside it, with `scan`, the
    scan loop runs. -/
def Up (scan : Bool) (L : Loop Station Point PyError Answer) : Prop :=
  L.Lives (Point.Starts scan) ∨
    L.Lives (Point.AwaitsStop scan) ∧ (scan = true → L.Lives Point.Scans)

/-- The piece of the start-up that runs next. -/
def starting (L : Loop Station Point PyError Answer) : Option Point :=
  match L.ready with
  | .start (.main address scan) :: _ => some (.main address scan)
  | .start (.serving address scan) :: _ => some (.serving address scan)
  | _ => none

/-- It does not raise: the directories and the hub's config can be made, and a given address can be
    connected to. -/
def StartsUp (interp : Interpreter) (w : Writer) (L : Loop Station Point PyError Answer) :
    Event Answer Callback → Prop
  | .tick => ∀ point ∈ starting L, ((Daemon.body interp w point).exec L.shared).result.isOk = true
  | _ => True

instance (interp : Interpreter) (w : Writer) (L : Loop Station Point PyError Answer) :
    ∀ event, Decidable (StartsUp interp w L event)
  | .tick => inferInstanceAs (Decidable (∀ point ∈ starting L, _ = true))
  | .resume .. => inferInstanceAs (Decidable True)
  | .call _ => inferInstanceAs (Decidable True)

/-- What no piece undoes: a stop stays requested, and the scan loop is cancelled only for one. -/
structure Heeds (s t : Station) : Prop where
  stops : s.stopRequested = true → t.stopRequested = true
  cancels : t.scanCancelled = true → s.scanCancelled = true ∨ t.stopRequested = true

variable {s t u : Station}

namespace Heeds

theorem of_eq (hstop : t.stopRequested = s.stopRequested)
    (hcancelled : t.scanCancelled = s.scanCancelled) : Heeds s t :=
  ⟨fun h => hstop ▸ h, fun h => .inl (hcancelled ▸ h)⟩

theorem trans (h : Heeds s t) (h' : Heeds t u) : Heeds s u where
  stops := h'.stops ∘ h.stops
  cancels hu := by
    rcases h'.cancels hu with ht | hstop
    · exact (h.cancels ht).imp_right h'.stops
    · exact .inr hstop

end Heeds

instance : Std.Refl Heeds := ⟨fun _ => .of_eq rfl rfl⟩
instance : IsTrans Station Heeds := ⟨fun _ _ _ => .trans⟩

theorem Change.heeds {starts : Prop} (h : Change starts s t) : Heeds s t := by
  cases h with
  | stop => exact ⟨fun _ => rfl, fun _ => .inr rfl⟩
  | ensured target =>
    obtain ⟨central, added, started, reads, heq⟩ := Daemon.shared_ensureTarget target s
    rw [heq]
    exact .of_eq rfl rfl
  | _ => exact .of_eq rfl rfl

theorem Changes.heeds {starts : Prop} (h : Changes starts s t) : Heeds s t := by
  induction h with
  | refl => exact Std.Refl.refl s
  | tail _ hlast ih => exact ih.trans hlast.heeds

namespace Daemon
open Piece

variable (interp : Interpreter) (w : Writer)

theorem allowsRun_heeds : AllowsRun w Heeds where
  makesDirs _ := .of_eq rfl rfl
  loads _ _ := .of_eq rfl rfl
  startsLogger _ := .of_eq rfl rfl
  stopsAll _ _ _ := .of_eq rfl rfl
  stopsLogger _ := .of_eq rfl rfl
  unlinks _ := .of_eq rfl rfl
  finishes _ _ := .of_eq rfl rfl

theorem heeds_cancelled (h : s.stopRequested = true) : Heeds s { s with scanCancelled := true } :=
  ⟨id, fun _ => .inr h⟩

theorem heeds_serve (scan : Bool) (s : Station) : Heeds s ((serve scan).exec s).shared :=
  (runs_serve (allowsRun_heeds ⟨fun disk => (none, disk), fun _ disk => (none, disk)⟩)
    (fun _ => heeds_cancelled) scan).shared s

theorem heeds_body (point : Point) (s : Station) :
    Heeds s ((body interp w point).exec s).shared := by
  have hframe (task : FrameTask) : (handleFrame interp w task).Guarantees Heeds (fun _ => True)
      fun _ => True :=
    guarantees_handleFrame interp w (fun _ _ => Changes.heeds) (fun _ _ => .of_eq rfl rfl)
      (fun _ _ _ => .of_eq rfl rfl) (fun _ _ _ => .of_eq rfl rfl) task
  exact (runs_body (allowsRun_heeds w) (fun _ => heeds_cancelled) interp
    (fun _ _ => Changes.heeds) hframe point).shared s

/-! ### What the pieces of `run` and of the scan loop leave -/

theorem goes_done {P : Point → Prop} {point : Point} (h : P point) :
    Goes P (fun | Answer.done => some point | _ => none) where
  ends := ⟨.done, Option.some_ne_none point⟩
  within answer p hp := by
    cases answer with
    | done => exact Option.some.inj hp ▸ h
    | devices => cases hp
    | line => cases hp

theorem leaves_waitThen {P : Point → Prop} {point : Point} (h : P point) (s : Station) :
    Leaves P ((waitThen point).exec s) :=
  .inr ⟨_, rfl, goes_done h⟩

/-- A start that gets through leaves the main task where the server is up. -/
theorem leaves_startUp {address : Option Str} {scan : Bool}
    (hok : ∃ rest, ((startUp interp w address scan).exec s).result = .ok rest) :
    Leaves (Point.Starts scan) ((startUp interp w address scan).exec s) := by
  have hserving : (Point.serving address scan).Starts scan := rfl
  refine Leaves.bind hok fun _ t hok => Leaves.bind hok fun _ t hok => ?_
  exact Leaves.bind hok fun _ t _ => leaves_waitThen hserving t

/-- As long as no stop is requested, the main task awaits one. -/
theorem leaves_serve {scan : Bool} (hstop : ((serve scan).exec s).shared.stopRequested = false) :
    Leaves (Point.AwaitsStop scan) ((serve scan).exec s) := by
  have hpoint : (Point.stopping scan).AwaitsStop scan := rfl
  have hstop' : s.stopRequested = false := by
    refine eq_false_of_ne_true fun h => Bool.false_ne_true ?_
    exact hstop.symm.trans ((heeds_serve scan s).stops h)
  rw [serve, exec_bind, exec_get, andThen_ok, hstop']
  exact leaves_waitThen hpoint s

/-- Once it has started, it awaits a stop, and the scan loop is a task. -/
theorem leaves_serving {address : Option Str} {scan : Bool}
    (hok : ∃ rest, ((body interp w (.serving address scan)).exec s).result = .ok rest)
    (hstop : ((body interp w (.serving address scan)).exec s).shared.stopRequested = false) :
    Leaves (Point.AwaitsStop scan) ((body interp w (.serving address scan)).exec s) ∧
      (scan = true → Leaves Point.Scans ((body interp w (.serving address scan)).exec s)) := by
  obtain ⟨rest, hrest⟩ := hok
  rw [body] at hrest hstop ⊢
  obtain ⟨_, _, hconnected⟩ := exec_bind_ok hrest
  rw [hconnected] at hrest hstop ⊢
  obtain ⟨_, _, hscan⟩ := exec_bind_ok hrest
  have hshared : ((startScan scan).exec ((connectAtStart interp address).exec s).shared).shared =
      ((connectAtStart interp address).exec s).shared := by
    cases scan <;> rfl
  rw [hscan, hshared] at hstop ⊢
  refine ⟨?_, ?_⟩
  · rcases leaves_serve hstop with ⟨p, hp, hin⟩ | hwait
    · exact .inl ⟨p, List.mem_append_right _ (List.mem_append_right _ hp), hin⟩
    · exact .inr hwait
  · rintro rfl
    refine .inl ⟨.scan, List.mem_append_right _ (List.mem_append_left _ ?_), trivial⟩
    exact List.mem_singleton_self _

/-- Whatever a scan finds, and whatever a round raises, the scan loop goes on. -/
theorem leaves_scans {point : Point} (h : point.Scans) (hstop : s.stopRequested = false)
    (hcancelled : s.scanCancelled = false) :
    Leaves Point.Scans ((body interp w point).exec s) := by
  cases point with
  | scan =>
    simp only [body, scanLoop, exec_bind, exec_get, andThen_ok, hstop, hcancelled,
      Bool.false_eq_true, or_self, if_false, exec_pure]
    refine .inr ⟨_, rfl, ⟨.devices (.ok []), Option.some_ne_none _⟩, fun answer p hp => ?_⟩
    cases answer with
    | devices found => exact Option.some.inj hp ▸ trivial
    | done => cases hp
    | line => cases hp
  | scanned found =>
    have hscan : Point.scan.Scans := trivial
    simp only [body, scanRound]
    rw [exec_bind, exec_get, andThen_ok, hcancelled, if_neg Bool.false_ne_true]
    refine Leaves.bind ?_ fun _ t _ => leaves_waitThen hscan t
    rw [exec_bind, exec_attempt]
    exact ⟨_, rfl⟩
  | _ => exact h.elim

end Daemon

/-! ### Whole runs -/

theorem heeds_callback (w : Writer) (cb : Callback) (s : Station) :
    Heeds s (callback w cb s).1 := by
  cases cb with
  | notify connection data =>
    unfold callback notified
    dsimp only
    split
    · exact Std.Refl.refl s
    · split
      · exact Std.Refl.refl s
      · exact .of_eq rfl rfl
  | client line => cases line <;> exact Std.Refl.refl s
  | requestStop => exact ⟨fun _ => rfl, fun _ => .inr rfl⟩
  | _ => exact .of_eq rfl rfl

/-- Without a stop, the scan is not cancelled and the daemon is up. -/
def Steady (scan : Bool) (L : Loop Station Point PyError Answer) : Prop :=
  L.shared.stopRequested = false → L.shared.scanCancelled = false ∧ Up scan L

variable {scan : Bool} (interp : Interpreter) (w : Writer)

/-- Every event heeds a stop. -/
theorem heeds_step {A B : Atomic Station Point Answer} {event : Event Answer Callback}
    (hstep : A.step (Daemon.body interp w) (callback w) event = some B) :
    Heeds A.shared B.shared := by
  cases event with
  | tick =>
    cases hready : A.ready with
    | nil => simp [Atomic.step, hready] at hstep
    | cons point ready =>
      simp only [Atomic.step, hready, Option.some.injEq] at hstep
      exact hstep ▸ Daemon.heeds_body interp w point A.shared
  | resume i answer =>
    obtain ⟨point, _, rfl⟩ := Option.map_eq_some_iff.mp hstep
    exact Std.Refl.refl A.shared
  | call cb =>
    rw [← Option.some.inj hstep]
    exact heeds_callback w cb A.shared

theorem steady_step (L : Loop Station Point PyError Answer) (event : Event Answer Callback)
    (M : Loop Station Point PyError Answer)
    (h : ∃ A : Atomic Station Point Answer, L = A.toLoop ∧ Steady scan A.toLoop)
    (hevent : StartsUp interp w L event) (hstep : Daemon.loopStep interp w event L = some M) :
    ∃ B : Atomic Station Point Answer, M = B.toLoop ∧ Steady scan B.toLoop := by
  obtain ⟨A, rfl, h⟩ := h
  rw [Daemon.loopStep, step_toLoop] at hstep
  obtain ⟨B, hB, rfl⟩ := Option.map_eq_some_iff.mp hstep
  refine ⟨B, rfl, fun (hstop : B.shared.stopRequested = false) => ?_⟩
  have hheeds := heeds_step interp w hB
  have hstop' : A.shared.stopRequested = false :=
    eq_false_of_ne_true fun hs => Bool.false_ne_true (hstop.symm.trans (hheeds.stops hs))
  obtain ⟨hcancelled, hup⟩ := h hstop'
  refine ⟨eq_false_of_ne_true fun hB => ?_, ?_⟩
  · rcases hheeds.cancels hB with hA | hB
    · exact Bool.false_ne_true (hcancelled.symm.trans hA)
    · exact Bool.false_ne_true (hstop.symm.trans hB)
  have hran {point : Point} {ready : List Point} (htick : event = .tick)
      (hready : A.ready = point :: ready) :
      B.shared = ((Daemon.body interp w point).exec A.shared).shared := by
    subst htick
    simp only [Atomic.step, hready, Option.some.injEq] at hB
    rw [← hB]
  -- each of the two tasks lives on by itself, or by what its own piece leaves
  rcases hup with hstarts | ⟨hawaits, hscans⟩
  · rcases lives_step hstarts hB with hlives | ⟨rfl, point, ready, hready, hpoint⟩
    · exact .inl hlives
    have hok (hstarting : starting A.toLoop = some point) :
        ∃ rest, ((Daemon.body interp w point).exec A.shared).result = .ok rest := by
      have hisOk := hevent point hstarting
      cases hresult : ((Daemon.body interp w point).exec A.shared).result with
      | ok rest => exact ⟨rest, rfl⟩
      | error exc =>
        rw [show A.toLoop.shared = A.shared from rfl, hresult] at hisOk
        cases hisOk
    cases point with
    | main address scan' =>
      obtain rfl : scan' = scan := hpoint
      have hrest := hok (by simp [starting, Atomic.toLoop, hready])
      exact .inl (lives_tick hready (Daemon.leaves_startUp interp w hrest) hB)
    | serving address scan' =>
      obtain rfl : scan' = scan := hpoint
      have hrest := hok (by simp [starting, Atomic.toLoop, hready])
      rw [hran rfl hready] at hstop
      obtain ⟨hawaits, hscans⟩ := Daemon.leaves_serving interp w hrest hstop
      exact .inr ⟨lives_tick hready hawaits hB, fun hscan => lives_tick hready (hscans hscan) hB⟩
    | _ => exact hpoint.elim
  · refine .inr ⟨?_, fun hscan => ?_⟩
    · rcases lives_step hawaits hB with hlives | ⟨rfl, point, ready, hready, hpoint⟩
      · exact hlives
      obtain rfl : point = .stopping scan := hpoint
      rw [hran rfl hready] at hstop
      exact lives_tick hready (Daemon.leaves_serve hstop) hB
    · rcases lives_step (hscans hscan) hB with hlives | ⟨rfl, point, ready, hready, hpoint⟩
      · exact hlives
      exact lives_tick hready (Daemon.leaves_scans interp w hpoint hstop' hcancelled) hB

/-- CORRECT: only a stop ends the daemon. In every state of every run whose start-up does not raise,
    and whatever else happened (frames that do not parse or are not handled, scans that fail, config
    files that cannot be read or written, a logger that fails, any requests), if no stop is
    requested then `run` awaits one, and with `scan` the scan loop runs beside it. -/
theorem only_stop_ends (configStore : DeviceConfigStore) (hubConfigStore : HubConfigStore)
    (disk : Files.FS) (times : ℕ → ℚ) (awaitsClients : Bool) (unlinkError : Option PyError)
    (address : Option Str) (scan : Bool) (events : List (Event Answer Callback))
    (L : Loop Station Point PyError Answer)
    (hevents : Machine.Along (Daemon.loopStep interp w) (fun L event _ => StartsUp interp w L event)
      ((Station.new configStore hubConfigStore disk times awaitsClients unlinkError).launch
        address scan) events)
    (hrun : Machine.run (Daemon.loopStep interp w) events
      ((Station.new configStore hubConfigStore disk times awaitsClients unlinkError).launch
        address scan) = some L) (hstop : L.shared.stopRequested = false) : Up scan L := by
  have hlaunched : Steady scan ((Station.new configStore hubConfigStore disk times awaitsClients
      unlinkError).launched address scan).toLoop :=
    fun _ => ⟨rfl, .inl (.inl ⟨_, List.mem_singleton_self _, rfl⟩)⟩
  obtain ⟨A, rfl, hA⟩ := Machine.run_invariant_along (steady_step interp w)
    ⟨(Station.new configStore hubConfigStore disk times awaitsClients unlinkError).launched
      address scan, rfl, hlaunched⟩ hevents hrun
  exact (hA hstop).2

/-- A scan fails, a client asks for an address that is none, and a node sends no frame. -/
def mishaps : List (Event Answer Callback) :=
  [.tick, .resume 0 .done, .tick, .tick,
    .resume 1 (.devices (.error ⟨.other, [.lit "No powered Bluetooth adapters found"]⟩)), .tick,
    .call (.client (some (.connect (str "11:22:33:44:55:66")))),
    .call (.client (some (.connect (str "nowhere")))), .tick, .tick, .tick,
    .call (.subscribe 0), .call (.notify 0 [0x7E, 0x00, 0x7E]), .resume 1 .done, .tick]

/-- The daemon is up after that, and so is its scan loop. -/
theorem mishaps_up : ∃ L, Machine.run (Daemon.loopStep freshInterpreter openDisk) mishaps
    (freshStation.launch none true) = some L ∧ L.shared.history.answers.length = 2 ∧
      Up true L := by
  have hevents : Machine.Along (Daemon.loopStep freshInterpreter openDisk)
      (fun L event _ => StartsUp freshInterpreter openDisk L event)
      (freshStation.launch none true) mishaps := by decide +kernel
  have hstate : (Machine.run (Daemon.loopStep freshInterpreter openDisk) mishaps
      (freshStation.launch none true)).map (fun L =>
        decide (L.shared.stopRequested = false ∧ L.shared.history.answers.length = 2)) =
          some true := by decide +kernel
  obtain ⟨L, hrun, hL⟩ := Option.map_eq_some_iff.mp hstate
  obtain ⟨hstop, hanswers⟩ := of_decide_eq_true hL
  exact ⟨L, hrun, hanswers, only_stop_ends freshInterpreter openDisk _ _ _ _ _ _ _ _ _ L hevents
    hrun hstop⟩

end SlimHub
