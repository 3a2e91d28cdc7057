import SlimHub.Logging.Sequential

/-! What reaches the files.

    In a run in which no write raises, and nothing is logged while a `stop` is pending, every
    accepted event is written once and in order before `stop` returns. An event that is logged
    while a `stop` is pending goes behind the sentinel, where no worker looks. -/

namespace SlimHub.Logging
open Text Machine

variable {w : Writer}

/-- No write raised. -/
def NoRaise (attempts : List (LogEvent × Option PyError)) : Prop := ∀ x ∈ attempts, x.2 = none

instance (attempts : List (LogEvent × Option PyError)) : Decidable (NoRaise attempts) :=
  inferInstanceAs (Decidable (∀ x ∈ attempts, x.2 = none))

theorem NoRaise.of_append {xs ys : List (LogEvent × Option PyError)} (h : NoRaise (xs ++ ys)) :
    NoRaise xs ∧ NoRaise ys :=
  List.forall_mem_append.mp h

theorem NoRaise.written {s : RawDataLogger} (h : NoRaise s.attempts) :
    s.written = s.attempts.map Prod.fst := by
  rw [RawDataLogger.written, List.filter_eq_self.mpr]
  intro x hx
  exact decide_eq_true (h x hx)

/-- The accepted events are the written ones and those that wait; none wait once the log closed. -/
structure Complete (l : Log) : Prop where
  whole : ∀ exc stopping, l.mode ≠ .broken exc stopping
  accepted : l.accepted = l.attempts.map Prod.fst ++ l.pending
  drained : l.mode = .idle ∨ l.mode = .closed → l.pending = []

theorem Complete.init (disk : Files.FS) : Complete { disk } :=
  ⟨fun _ _ h => (by cases h), rfl, fun _ => rfl⟩

/-- If no attempt raised, writing what waits did not. -/
theorem raised_eq_none {l : Log} (hno : NoRaise (writeAll w l.pending l.disk).attempts) :
    (writeAll w l.pending l.disk).raised = none := by
  cases hr : (writeAll w l.pending l.disk).raised with
  | none => rfl
  | some exc =>
    obtain ⟨x, hx, hne⟩ := writeAll_raised hr
    exact absurd (hno x hx) hne

theorem Complete.write {l l' : Log} (h : Complete l) (hstep : l.write w = some l')
    (hno : NoRaise l'.attempts) : Complete l' ∧ l'.stopped = l.stopped := by
  have hmode : l.mode = .running ∨ l.mode = .closing := by
    unfold Log.write at hstep
    split at hstep
    · exact Or.inl ‹_›
    · exact Or.inr ‹_›
    · cases hstep
  have hall : (l.attempts ++ (writeAll w l.pending l.disk).attempts).map Prod.fst = l.accepted ∨
      (writeAll w l.pending l.disk).raised ≠ none := by
    cases hr : (writeAll w l.pending l.disk).raised with
    | some exc => exact Or.inr (Option.some_ne_none exc)
    | none =>
      rw [List.map_append, writeAll_attempts hr, List.map_map, h.accepted]
      exact Or.inl (congrArg _ (List.map_id _))
  rcases hmode with hmode | hmode
  · simp only [Log.write, hmode, Option.some.injEq] at hstep
    subst hstep
    have hr := raised_eq_none hno.of_append.2
    simp only [hr]
    exact ⟨⟨fun _ _ hb => (by cases hb), by simp [hall.resolve_right (· hr)],
      fun hb => (by rcases hb with hb | hb <;> cases hb)⟩, trivial⟩
  · simp only [Log.write, hmode, Option.some.injEq] at hstep
    subst hstep
    have hr := raised_eq_none hno.of_append.2
    simp only [hr]
    exact ⟨⟨fun _ _ hb => (by cases hb), by simp [hall.resolve_right (· hr)], fun _ => rfl⟩, trivial⟩

theorem Complete.start {l : Log} (h : Complete l) :
    Complete (l.start w) ∧ (l.start w).stopped = l.stopped := by
  unfold Log.start
  split
  · rename_i hmode
    split
    · exact ⟨⟨h.whole, h.accepted, h.drained⟩, rfl⟩
    · exact ⟨⟨fun _ _ hb => (by cases hb), h.accepted, fun _ => h.drained (Or.inl hmode)⟩, rfl⟩
  · exact ⟨h, rfl⟩

theorem Complete.log {l l' : Log} {event : LogEvent} (h : Complete l)
    (hstep : l.log w event = some l') (hno : NoRaise l'.attempts) :
    Complete l' ∧ l'.stopped = l.stopped := by
  unfold Log.log at hstep
  split at hstep
  · rename_i hmode
    obtain rfl := Option.some.inj hstep
    have hok : (w.write event l.disk).1 = none := hno.of_append.2 _ (List.mem_singleton_self _)
    refine ⟨⟨h.whole, ?_, h.drained⟩, rfl⟩
    simp [hok, h.accepted, h.drained (Or.inl hmode)]
  · rename_i hmode
    obtain rfl := Option.some.inj hstep
    refine ⟨⟨h.whole, ?_, fun hb => ?_⟩, rfl⟩
    · simp [h.accepted]
    · rcases hb with hb | hb <;> exact absurd (hmode.symm.trans hb) (by decide)
  · rename_i exc hmode
    exact absurd hmode (h.whole exc false)
  · cases hstep

/-- A `stop` that returns at once finds nothing waiting; another one returns later. -/
theorem Complete.stop {l l' : Log} (h : Complete l) (hstep : l.stop = some l') :
    Complete l' ∧ (l'.stopped = l.stopped ∨ l'.pending = []) := by
  unfold Log.stop at hstep
  split at hstep
  · rename_i hmode
    obtain rfl := Option.some.inj hstep
    exact ⟨⟨h.whole, h.accepted, h.drained⟩, Or.inr (h.drained (Or.inl hmode))⟩
  · obtain rfl := Option.some.inj hstep
    exact ⟨⟨fun _ _ hb => (by cases hb), h.accepted,
      fun hb => (by rcases hb with hb | hb <;> cases hb)⟩, Or.inl rfl⟩
  · rename_i exc hmode
    exact absurd hmode (h.whole exc false)
  · cases hstep

theorem Complete.resume {l l' : Log} (h : Complete l) (hstep : l.resume = some l') :
    Complete l' ∧ l'.pending = [] := by
  unfold Log.resume at hstep
  split at hstep
  · rename_i hmode
    obtain rfl := Option.some.inj hstep
    have hpending := h.drained (Or.inr hmode)
    exact ⟨⟨fun _ _ hb => (by cases hb), h.accepted, fun _ => hpending⟩, hpending⟩
  · rename_i exc hmode
    exact absurd hmode (h.whole exc true)
  · cases hstep

/-- A step without an exception; when a `stop` returns in it, nothing waits any more. -/
theorem Complete.step {l l' : Log} {act : RawDataLogger.Action} (h : Complete l)
    (hstep : l.step w act = some l') (hno : NoRaise l'.attempts) :
    Complete l' ∧ (l.stopped.length < l'.stopped.length →
      l'.attempts.map Prod.fst = l'.accepted) := by
  have hstay : l'.stopped = l.stopped → ¬l.stopped.length < l'.stopped.length := by
    intro hstopped
    rw [hstopped]
    exact lt_irrefl _
  have hall : Complete l' → l'.pending = [] → l'.attempts.map Prod.fst = l'.accepted := by
    intro hc hpending
    rw [hc.accepted, hpending, List.append_nil]
  cases act with
  | start =>
    obtain rfl := Option.some.inj hstep
    obtain ⟨hc, hstopped⟩ := h.start (w := w)
    exact ⟨hc, fun hlt => absurd hlt (hstay hstopped)⟩
  | log event =>
    obtain ⟨hc, hstopped⟩ := h.log hstep hno
    exact ⟨hc, fun hlt => absurd hlt (hstay hstopped)⟩
  | worker i =>
    obtain ⟨hc, hstopped⟩ := h.write hstep hno
    exact ⟨hc, fun hlt => absurd hlt (hstay hstopped)⟩
  | stop =>
    obtain ⟨hc, hstopped | hpending⟩ := h.stop hstep
    · exact ⟨hc, fun hlt => absurd hlt (hstay hstopped)⟩
    · exact ⟨hc, fun _ => hall hc hpending⟩
  | resume j =>
    obtain ⟨hc, hpending⟩ := h.resume hstep
    exact ⟨hc, fun _ => hall hc hpending⟩

/-- The files hold a first part of the accepted events, and all of them whenever a `stop` call
    ends in this step. -/
def Accounted (s : RawDataLogger) (_ : RawDataLogger.Action) (t : RawDataLogger) : Prop :=
  t.written <+: t.accepted ∧ (s.stopped.length < t.stopped.length → t.written = t.accepted)

instance (s : RawDataLogger) (act : RawDataLogger.Action) (t : RawDataLogger) :
    Decidable (Accounted s act t) := inferInstanceAs (Decidable (_ ∧ (_ → _)))

/-- CORRECT: along a run without exceptions, in which nothing is logged and no second `stop` is
    called while a `stop` is pending, events are written once each, in order, and all of them are
    when a `stop` returns. -/
theorem no_event_lost (host : Host) (paths : AppPaths) (disk : Files.FS)
    (as : List RawDataLogger.Action)
    (h : Along (RawDataLogger.step (diskWriter host paths))
      (fun s act t => Quiet s act ∧ NoRaise t.attempts) { disk } as) :
    Along (RawDataLogger.step (diskWriter host paths)) Accounted { disk } as := by
  refine along_of_step (fun s act t (hs : ∃ l, Refines s l ∧ Complete l) hP hstep => ?_)
    ⟨{ disk }, Refines.init disk, Complete.init disk⟩ h
  obtain ⟨l, href, hc⟩ := hs
  obtain ⟨l', hl', href'⟩ := refines_step href hP.1 hstep
  obtain ⟨hc', hstop⟩ := hc.step hl' (href'.attempts ▸ hP.2)
  refine ⟨⟨l', href', hc'⟩, ?_, ?_⟩
  · rw [hP.2.written, href'.attempts, href'.accepted, hc'.accepted]
    exact List.prefix_append _ _
  · intro hlt
    rw [href.stopped, href'.stopped] at hlt
    rw [hP.2.written, href'.attempts, href'.accepted]
    exact hstop hlt

/-- A machine that refuses nothing, at the first second of 1970. -/
def someHost : Host where
  fromtimestamp _ := .ok ⟨1970, 1, 1, 0, 0, 0⟩
  floatRepr := id
  loadsDepth := 900
  dumpsDepth := 900
  refuses _ := none

def somePaths : AppPaths := ⟨[str "srv"]⟩

/-- An alert of one device. -/
def alertOf (message : String) : LogEvent :=
  .alert { timestamp := 0, mac := str "AA:BB:CC:DD:EE:FF", location := [], packet := ⟨str message⟩,
           payload := [] }

/-- Two alerts around a step of the worker. -/
theorem no_event_lost_two_alerts :
    Along (RawDataLogger.step (diskWriter someHost somePaths)) Accounted { disk := Files.FS.empty }
      [.start, .log (alertOf "ready"), .worker 0, .log (alertOf "door"), .stop, .worker 0,
        .resume 0] :=
  no_event_lost someHost somePaths Files.FS.empty _ (by decide +kernel)

/-- An alert that is logged after the sentinel is still in the queue when `stop` returns. -/
theorem logged_while_stopping_is_lost :
    ¬Along (RawDataLogger.step (diskWriter someHost somePaths))
      (fun s act t => NoRaise t.attempts → Accounted s act t) { disk := Files.FS.empty }
      [.start, .stop, .log (alertOf "ready"), .worker 0, .resume 0] := by
  decide +kernel

end SlimHub.Logging
