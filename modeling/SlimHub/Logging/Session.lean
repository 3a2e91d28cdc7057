import SlimHub.Logging.Delivery

/-! One session of the logger, with writes that raise.

    The logger starts, events are logged, and `stop` is called. A write that raises ends the
    worker, so the session leaves in the files what writing one event after another leaves there up
    to the first exception, and `stop` raises it (`session_outcome`). -/

namespace SlimHub.Logging
open Text Machine

variable {w : Writer}

/-- The events that a run logs. -/
def logged : List RawDataLogger.Action → List LogEvent
  | [] => []
  | .log event :: as => event :: logged as
  | _ :: as => logged as

/-- A step between `start` and `stop`: an event is logged, or the worker runs. -/
def Serving : RawDataLogger.Action → Prop
  | .log _ => True
  | .worker _ => True
  | _ => False

/-- A step after `stop`: the worker runs, or the `stop` call goes on. -/
def Finishing : RawDataLogger.Action → Prop
  | .worker _ => True
  | .resume _ => True
  | _ => False

instance : DecidablePred Serving
  | .log _ | .worker _ => isTrue trivial
  | .start | .stop | .resume _ => isFalse id

instance : DecidablePred Finishing
  | .worker _ | .resume _ => isTrue trivial
  | .start | .stop | .log _ => isFalse id

/-- A session's log against writing its events in order to the files as they were at the start.
    `called` says whether `stop` was called. -/
def Serves (w : Writer) (disk₀ : Files.FS) (called : Bool) (l : Log) : Prop :=
  match l.mode with
  | .running => called = false ∧ l.stopped = [] ∧ ∃ done, l.accepted = done ++ l.pending ∧
      writeAll w done disk₀ = ⟨l.attempts, none, l.disk⟩
  | .closing => called = true ∧ l.stopped = [] ∧ ∃ done, l.accepted = done ++ l.pending ∧
      writeAll w done disk₀ = ⟨l.attempts, none, l.disk⟩
  | .closed => called = true ∧ l.stopped = [] ∧
      writeAll w l.accepted disk₀ = ⟨l.attempts, none, l.disk⟩
  | .idle => called = true ∧ l.stopped = [none] ∧
      writeAll w l.accepted disk₀ = ⟨l.attempts, none, l.disk⟩
  | .broken exc stopping => (stopping = true → called = true) ∧
      l.stopped = (if called = true ∧ stopping = false then [some exc] else []) ∧
        writeAll w l.accepted disk₀ = ⟨l.attempts, some exc, l.disk⟩

variable {disk₀ : Files.FS} {called : Bool} {l l' : Log}

/-- Writing what waits continues the sequential writing. -/
theorem writeAll_pending {done : List LogEvent} (hacc : l.accepted = done ++ l.pending)
    (hdone : writeAll w done disk₀ = ⟨l.attempts, none, l.disk⟩) :
    writeAll w l.accepted disk₀ = ⟨l.attempts ++ (writeAll w l.pending l.disk).attempts,
      (writeAll w l.pending l.disk).raised, (writeAll w l.pending l.disk).disk⟩ := by
  rw [hacc, writeAll_append l.pending (by rw [hdone]), hdone]

theorem serves_write (h : Serves w disk₀ called l) (hstep : l.write w = some l') :
    Serves w disk₀ called l' ∧ l'.accepted = l.accepted := by
  unfold Log.write at hstep
  cases hmode : l.mode with
  | running =>
    rw [Serves, hmode] at h
    obtain ⟨hcalled, hstopped, done, hacc, hdone⟩ := h
    have hall := writeAll_pending hacc hdone
    simp only [hmode, Option.some.injEq] at hstep
    subst hstep
    cases hr : (writeAll w l.pending l.disk).raised with
    | none =>
      rw [hr] at hall
      exact ⟨⟨hcalled, hstopped, l.accepted, (List.append_nil _).symm, hall⟩, rfl⟩
    | some exc =>
      rw [hr] at hall
      exact ⟨⟨fun hb => (by cases hb), by simp [hcalled, hstopped], hall⟩, rfl⟩
  | closing =>
    rw [Serves, hmode] at h
    obtain ⟨hcalled, hstopped, done, hacc, hdone⟩ := h
    have hall := writeAll_pending hacc hdone
    simp only [hmode, Option.some.injEq] at hstep
    subst hstep
    cases hr : (writeAll w l.pending l.disk).raised with
    | none =>
      rw [hr] at hall
      exact ⟨⟨hcalled, hstopped, hall⟩, rfl⟩
    | some exc =>
      rw [hr] at hall
      exact ⟨⟨fun _ => hcalled, by simp [hstopped], hall⟩, rfl⟩
  | idle => simp only [hmode] at hstep; cases hstep
  | closed => simp only [hmode] at hstep; cases hstep
  | broken exc stopping => simp only [hmode] at hstep; cases hstep

/-- Before `stop`: an event waits, or is lost behind the one that raised. -/
theorem serves_log {event : LogEvent} (h : Serves w disk₀ false l)
    (hstep : l.log w event = some l') :
    Serves w disk₀ false l' ∧ l'.accepted = l.accepted ++ [event] := by
  unfold Log.log at hstep
  split at hstep
  · rename_i hmode
    rw [Serves, hmode] at h
    cases h.1
  · rename_i hmode
    rw [Serves, hmode] at h
    obtain ⟨_, hstopped, done, hacc, hdone⟩ := h
    obtain rfl := Option.some.inj hstep
    refine ⟨?_, rfl⟩
    rw [Serves]
    simp only [hmode]
    exact ⟨trivial, hstopped, done, by rw [hacc, List.append_assoc], hdone⟩
  · rename_i exc hmode
    rw [Serves, hmode] at h
    obtain ⟨_, hstopped, hall⟩ := h
    obtain rfl := Option.some.inj hstep
    refine ⟨?_, rfl⟩
    rw [Serves]
    simp only [hmode]
    refine ⟨fun hb => (by cases hb), hstopped, ?_⟩
    rw [writeAll_append_of_raised [event] (by rw [hall]), hall]
  · cases hstep

theorem serves_stop (h : Serves w disk₀ false l) (hstep : l.stop = some l') :
    Serves w disk₀ true l' ∧ l'.accepted = l.accepted := by
  unfold Log.stop at hstep
  split at hstep
  · rename_i hmode
    rw [Serves, hmode] at h
    cases h.1
  · rename_i hmode
    rw [Serves, hmode] at h
    obtain ⟨_, hsession⟩ := h
    obtain rfl := Option.some.inj hstep
    exact ⟨⟨rfl, hsession⟩, rfl⟩
  · rename_i exc hmode
    rw [Serves, hmode] at h
    obtain ⟨_, hstopped, hall⟩ := h
    obtain rfl := Option.some.inj hstep
    refine ⟨?_, rfl⟩
    rw [Serves]
    simp only [hmode]
    exact ⟨fun hb => (by cases hb), by simp [hstopped], hall⟩
  · cases hstep

theorem serves_resume (h : Serves w disk₀ called l) (hstep : l.resume = some l') :
    Serves w disk₀ called l' ∧ l'.accepted = l.accepted := by
  unfold Log.resume at hstep
  split at hstep
  · rename_i hmode
    rw [Serves, hmode] at h
    obtain ⟨hcalled, hstopped, hall⟩ := h
    obtain rfl := Option.some.inj hstep
    exact ⟨⟨hcalled, by simp [hstopped], hall⟩, rfl⟩
  · rename_i exc hmode
    rw [Serves, hmode] at h
    obtain ⟨hcalled, hstopped, hall⟩ := h
    obtain rfl := Option.some.inj hstep
    exact ⟨⟨fun hb => (by cases hb), by simp [hstopped, hcalled], hall⟩, rfl⟩
  · cases hstep

/-- Before `stop` nothing can be pending. -/
theorem stopping_eq_nil {s : RawDataLogger} (href : Refines s l) (h : Serves w disk₀ false l) :
    s.stopping = [] := by
  have hcontrol := href.control
  cases hmode : l.mode with
  | idle => rw [hmode] at hcontrol; exact hcontrol.2.2.1
  | running => rw [hmode] at hcontrol; obtain ⟨i, _, _, hs, _⟩ := hcontrol; exact hs
  | closing => rw [Serves, hmode] at h; cases h.1
  | closed => rw [Serves, hmode] at h; cases h.1
  | broken exc stopping =>
    rw [Serves, hmode] at h
    rw [hmode] at hcontrol
    obtain ⟨i, _, hs, _⟩ := hcontrol
    cases stopping with
    | false => exact hs
    | true => cases h.1 rfl

/-- One step between `start` and `stop`. -/
theorem serving_step {s t : RawDataLogger} {act : RawDataLogger.Action} (href : Refines s l)
    (hserves : Serves w disk₀ false l) (hact : Serving act)
    (hstep : RawDataLogger.step w act s = some t) :
    ∃ l', Refines t l' ∧ Serves w disk₀ false l' ∧ l'.accepted = l.accepted ++ logged [act] := by
  cases act with
  | log event =>
    have hquiet : Quiet s (.log event) := stopping_eq_nil href hserves
    obtain ⟨l', hl', href'⟩ := refines_step href hquiet hstep
    exact ⟨l', href', serves_log hserves hl'⟩
  | worker i =>
    have hquiet : Quiet s (.worker i) := trivial
    obtain ⟨l', hl', href'⟩ := refines_step href hquiet hstep
    obtain ⟨hserves', hacc⟩ := serves_write hserves hl'
    exact ⟨l', href', hserves', by rw [hacc]; exact (List.append_nil _).symm⟩
  | start => exact hact.elim
  | stop => exact hact.elim
  | resume j => exact hact.elim

theorem logged_cons (act : RawDataLogger.Action) (as : List RawDataLogger.Action) :
    logged (act :: as) = logged [act] ++ logged as := by
  cases act <;> rfl

/-- A run between `start` and `stop`. -/
theorem run_serving {body : List RawDataLogger.Action} {s t : RawDataLogger} (href : Refines s l)
    (hserves : Serves w disk₀ false l) (hbody : ∀ act ∈ body, Serving act)
    (hrun : run (RawDataLogger.step w) body s = some t) :
    ∃ l', Refines t l' ∧ Serves w disk₀ false l' ∧ l'.accepted = l.accepted ++ logged body := by
  induction body generalizing s l with
  | nil =>
    rw [run, Option.some.injEq] at hrun
    exact ⟨l, hrun ▸ href, hserves, (List.append_nil _).symm⟩
  | cons act body ih =>
    rw [run] at hrun
    obtain ⟨u, hu, hrest⟩ := Option.bind_eq_some_iff.mp hrun
    obtain ⟨hact, hbody'⟩ := List.forall_mem_cons.mp hbody
    obtain ⟨l₁, href₁, hserves₁, hacc₁⟩ := serving_step href hserves hact hu
    obtain ⟨l', href', hserves', hacc'⟩ := ih href₁ hserves₁ hbody' hrest
    refine ⟨l', href', hserves', ?_⟩
    rw [hacc', hacc₁, logged_cons act body, List.append_assoc]

/-- One step after `stop`. -/
theorem finishing_step {s t : RawDataLogger} {act : RawDataLogger.Action} (href : Refines s l)
    (hserves : Serves w disk₀ true l) (hact : Finishing act)
    (hstep : RawDataLogger.step w act s = some t) :
    ∃ l', Refines t l' ∧ Serves w disk₀ true l' ∧ l'.accepted = l.accepted := by
  cases act with
  | worker i =>
    have hquiet : Quiet s (.worker i) := trivial
    obtain ⟨l', hl', href'⟩ := refines_step href hquiet hstep
    exact ⟨l', href', serves_write hserves hl'⟩
  | resume j =>
    have hquiet : Quiet s (.resume j) := trivial
    obtain ⟨l', hl', href'⟩ := refines_step href hquiet hstep
    exact ⟨l', href', serves_resume hserves hl'⟩
  | start => exact hact.elim
  | log event => exact hact.elim
  | stop => exact hact.elim

/-- A run after `stop`. -/
theorem run_finishing {tail : List RawDataLogger.Action} {s t : RawDataLogger} (href : Refines s l)
    (hserves : Serves w disk₀ true l) (htail : ∀ act ∈ tail, Finishing act)
    (hrun : run (RawDataLogger.step w) tail s = some t) :
    ∃ l', Refines t l' ∧ Serves w disk₀ true l' ∧ l'.accepted = l.accepted := by
  induction tail generalizing s l with
  | nil =>
    rw [run, Option.some.injEq] at hrun
    exact ⟨l, hrun ▸ href, hserves, rfl⟩
  | cons act tail ih =>
    rw [run] at hrun
    obtain ⟨u, hu, hrest⟩ := Option.bind_eq_some_iff.mp hrun
    obtain ⟨hact, htail'⟩ := List.forall_mem_cons.mp htail
    obtain ⟨l₁, href₁, hserves₁, hacc₁⟩ := finishing_step href hserves hact hu
    obtain ⟨l', href', hserves', hacc'⟩ := ih href₁ hserves₁ htail' hrest
    exact ⟨l', href', hserves', hacc'.trans hacc₁⟩

/-- When nothing is left to run after `stop`, the sequential writing is over and `stop` ended with
    what it raised. -/
theorem serves_quiescent {t : RawDataLogger} (href : Refines t l) (h : Serves w disk₀ true l)
    (hq : t.Quiescent) : t.attempts = (writeAll w l.accepted disk₀).attempts ∧
      t.stopped = [(writeAll w l.accepted disk₀).raised] := by
  obtain ⟨hready, hpending⟩ := hq
  have hcontrol := href.control
  cases hmode : l.mode with
  | idle =>
    rw [Serves, hmode] at h
    obtain ⟨_, hstopped, hall⟩ := h
    rw [href.attempts, href.stopped, hall, hstopped]
    exact ⟨rfl, rfl⟩
  | running => rw [Serves, hmode] at h; cases h.1
  | closing =>
    rw [hmode] at hcontrol
    obtain ⟨i, _, _, _, hw, _⟩ := hcontrol
    exact absurd rfl (hready _ (List.mem_of_getElem? hw))
  | closed =>
    rw [hmode] at hcontrol
    obtain ⟨i, _, _, hstopping, hw, _⟩ := hcontrol
    have hnone := hpending i (by rw [hstopping]; exact List.mem_singleton_self i)
    rw [hw] at hnone
    cases hnone
  | broken exc stopping =>
    rw [hmode] at hcontrol
    obtain ⟨i, _, hstopping, hw, _⟩ := hcontrol
    cases stopping with
    | true =>
      have hnone := hpending i (by rw [hstopping]; exact List.mem_singleton_self i)
      rw [hw] at hnone
      cases hnone
    | false =>
      rw [Serves, hmode] at h
      obtain ⟨_, hstopped, hall⟩ := h
      rw [href.attempts, href.stopped, hall, hstopped]
      exact ⟨rfl, rfl⟩

/-- A whole session: the logger starts, events are logged while the worker runs now and then,
    `stop` is called, and the rest runs until nothing is left to run. -/
structure Session (w : Writer) (disk : Files.FS) (body tail : List RawDataLogger.Action)
    (t : RawDataLogger) : Prop where
  started : (w.ensure disk).1 = none
  serving : ∀ act ∈ body, Serving act
  finishing : ∀ act ∈ tail, Finishing act
  runs : run (RawDataLogger.step w) (.start :: body ++ .stop :: tail) { disk } = some t
  quiescent : t.Quiescent

/-- A session writes its events in order up to the first that raises, and `stop` ends with that
    exception. -/
theorem session_outcome {disk : Files.FS} {body tail : List RawDataLogger.Action}
    {t : RawDataLogger} (h : Session w disk body tail t) :
    t.attempts = (writeAll w (logged body) (w.ensure disk).2).attempts ∧
      t.stopped = [(writeAll w (logged body) (w.ensure disk).2).raised] := by
  obtain ⟨hstarted, hbody, htail, hrun, hq⟩ := h
  rw [List.cons_append, Machine.run] at hrun
  obtain ⟨s₀, hs₀, hrun⟩ := Option.bind_eq_some_iff.mp hrun
  rw [run_append] at hrun
  obtain ⟨s₁, hs₁, hrun⟩ := Option.bind_eq_some_iff.mp hrun
  rw [Machine.run] at hrun
  obtain ⟨s₂, hs₂, hs₃⟩ := Option.bind_eq_some_iff.mp hrun
  have hquiet₀ : Quiet { disk } .start := trivial
  obtain ⟨l₀, hl₀, href₀⟩ := refines_step (Refines.init disk) hquiet₀ hs₀
  have hserves₀ : Serves w (w.ensure disk).2 false l₀ := by
    obtain rfl := Option.some.inj hl₀
    rcases hens : w.ensure disk with ⟨_ | exc, disk'⟩
    · simp only [Log.start, hens]
      exact ⟨rfl, rfl, [], rfl, rfl⟩
    · rw [hens] at hstarted
      cases hstarted
  have hacc₀ : l₀.accepted = [] := by
    obtain rfl := Option.some.inj hl₀
    rcases hens : w.ensure disk with ⟨_ | exc, disk'⟩ <;> simp only [Log.start, hens]
  obtain ⟨l₁, href₁, hserves₁, hacc₁⟩ := run_serving href₀ hserves₀ hbody hs₁
  have hquiet₁ : Quiet s₁ .stop := stopping_eq_nil href₁ hserves₁
  obtain ⟨l₂, hl₂, href₂⟩ := refines_step href₁ hquiet₁ hs₂
  obtain ⟨hserves₂, hacc₂⟩ := serves_stop hserves₁ hl₂
  obtain ⟨l₃, href₃, hserves₃, hacc₃⟩ := run_finishing href₂ hserves₂ htail hs₃
  have hout := serves_quiescent href₃ hserves₃ hq
  rw [hacc₃, hacc₂, hacc₁, hacc₀, List.nil_append] at hout
  exact hout

/-- Every event was attempted, and `stop` completed. -/
def Survives (events : List LogEvent) (t : RawDataLogger) : Prop :=
  t.attempts.map Prod.fst = events ∧ t.stopped = [none]

instance (events : List LogEvent) (t : RawDataLogger) : Decidable (Survives events t) :=
  inferInstanceAs (Decidable (_ ∧ _))

/-- CORRECT: a session attempts all its events and its `stop` completes exactly when none of their
    writes raises, one after another. -/
theorem session_survives_iff (host : Host) (paths : AppPaths) (disk : Files.FS)
    (body tail : List RawDataLogger.Action) (t : RawDataLogger)
    (h : Session (diskWriter host paths) disk body tail t) :
    Survives (logged body) t ↔ (writeAll (diskWriter host paths) (logged body)
      ((diskWriter host paths).ensure disk).2).raised = none := by
  obtain ⟨hattempts, hstopped⟩ := session_outcome h
  rw [Survives, hattempts, hstopped, List.cons.injEq]
  constructor
  · rintro ⟨_, hraised, _⟩
    exact hraised
  · intro hraised
    refine ⟨?_, hraised, rfl⟩
    rw [writeAll_attempts hraised, List.map_map]
    exact List.map_id _

/-- A session from a computed run. -/
theorem exists_session (w : Writer) (disk : Files.FS) (body tail : List RawDataLogger.Action)
    (p : RawDataLogger → Prop) [DecidablePred p] (hstarted : (w.ensure disk).1 = none)
    (hbody : ∀ act ∈ body, Serving act) (htail : ∀ act ∈ tail, Finishing act)
    (h : (run (RawDataLogger.step w) (.start :: body ++ .stop :: tail) { disk }).map
      (fun t => decide (t.Quiescent ∧ p t)) = some true) : ∃ t, Session w disk body tail t ∧ p t := by
  obtain ⟨t, hrun, ht⟩ := Option.map_eq_some_iff.mp h
  obtain ⟨hq, hp⟩ := of_decide_eq_true ht
  exact ⟨t, ⟨hstarted, hbody, htail, hrun, hq⟩, hp⟩

/-- Two alerts that can be written. -/
theorem session_survives_two_alerts :
    ∃ t, Session (diskWriter someHost somePaths) Files.FS.empty
        [.worker 0, .log (alertOf "ready"), .log (alertOf "door"), .worker 0] [.worker 0, .resume 0] t ∧
      Survives [alertOf "ready", alertOf "door"] t := by
  obtain ⟨t, hsession, _⟩ := exists_session (diskWriter someHost somePaths) Files.FS.empty
    [.worker 0, .log (alertOf "ready"), .log (alertOf "door"), .worker 0] [.worker 0, .resume 0]
    (fun _ => True) (by decide +kernel) (by decide) (by decide) (by decide +kernel)
  exact ⟨t, hsession, (session_survives_iff someHost somePaths Files.FS.empty _ _ t hsession).mpr
    (by decide +kernel)⟩

/-- An alert that is a JSON object with an escaped lone surrogate ends the worker: the alert after
    it, which could be written, never is, and `stop` raises. -/
theorem surrogate_alert_ends_logging :
    ∃ t, Session (diskWriter someHost somePaths) Files.FS.empty
        [.log (alertOf "\x7b\"a\": \"\\ud800\"\x7d"), .log (alertOf "ready"), .worker 0] [] t ∧
      ((diskWriter someHost somePaths).write (alertOf "ready") t.disk).1 = none ∧ t.written = [] ∧
        ¬Survives [alertOf "\x7b\"a\": \"\\ud800\"\x7d", alertOf "ready"] t :=
  exists_session _ _ _ _ _ (by decide +kernel) (by decide) (by decide) (by decide +kernel)

end SlimHub.Logging
