import SlimHub.Logging.AlertLines
import SlimHub.Shutdown
import SlimHub.Upkeep

/-! From the frames that are handled to the files.

        handle_frame ──▶ event ──▶ queue ──▶ worker ──▶ rawdata file    a row
                                                        alert file      a line

    The event of a handled frame is written once or waits in the queue, in the order of the frames
    until `raw_logger.stop` returns. The files are what they were, and one row or one line for each
    event that was written to them; writes that raise leave nothing behind, unless it is the system
    that refuses them. -/

namespace SlimHub.Logging
open Text Nus Files

/-! ### What writes keep -/

/-- A fact about the writes so far and the disk after them that holds on through any write. -/
structure KeptOnDisk (w : Writer) (P : List (LogEvent × Option PyError) → FS → Prop) : Prop where
  write : ∀ {attempts disk} event, P attempts disk →
    P (attempts ++ [(event, (w.write event disk).1)]) (w.write event disk).2
  ensure : ∀ {attempts disk}, P attempts disk → P attempts (w.ensure disk).2

variable {w : Writer} {P : List (LogEvent × Option PyError) → FS → Prop}

theorem KeptOnDisk.drain (hP : KeptOnDisk w P) {attempts : List (LogEvent × Option PyError)}
    (queue : List (Option LogEvent)) {disk : FS} (h : P attempts disk) :
    P (attempts ++ (drain w queue disk).attempts) (drain w queue disk).disk := by
  induction queue generalizing attempts disk with
  | nil => rwa [Logging.drain, List.append_nil]
  | cons item queue ih =>
    cases item with
    | none => rwa [Logging.drain, List.append_nil]
    | some event =>
      have hwrite := hP.write event h
      rw [Logging.drain]
      rcases hwritten : w.write event disk with ⟨_ | exc, disk'⟩
      · rw [hwritten] at hwrite
        have hrest := ih hwrite
        rwa [List.append_assoc] at hrest
      · rwa [hwritten] at hwrite

/-- A worker takes events off the front of the queue. -/
theorem drain_queue (queue : List (Option LogEvent)) (disk : FS) :
    (drain w queue disk).attempts.map Prod.fst ++ (drain w queue disk).queue.reduceOption =
      queue.reduceOption := by
  induction queue generalizing disk with
  | nil => rfl
  | cons item queue ih =>
    cases item with
    | none => exact (List.reduceOption_cons_of_none queue).symm
    | some event =>
      rw [drain, List.reduceOption_cons_of_some]
      rcases w.write event disk with ⟨_ | exc, disk'⟩
      · exact congrArg (event :: ·) (ih disk')
      · rfl

/-! ### The logger's account -/

/-- Every event that was given to the logger was written once or is in the queue; until a `stop`
    returns, in order, and with nothing in the queue while there is no worker. -/
structure Filed (P : List (LogEvent × Option PyError) → FS → Prop) (logger : RawDataLogger)
    (given : List LogEvent) : Prop where
  disk : P logger.attempts logger.disk
  once : (logger.attempts.map Prod.fst ++ logger.queue.reduceOption).Perm given
  inOrder : logger.stopped = [] →
    logger.attempts.map Prod.fst ++ logger.queue.reduceOption = given ∧
      (logger.task = none → logger.queue.reduceOption = [])

namespace Filed

variable {logger after : RawDataLogger} {given : List LogEvent}

theorem of_eq (h : Filed P logger given) (hdisk : P after.attempts after.disk)
    (hattempts : after.attempts = logger.attempts) (hqueue : after.queue.reduceOption =
      logger.queue.reduceOption) (hstopped : after.stopped = [] → logger.stopped = [] ∧
        (after.task = none → logger.task = none)) : Filed P after given where
  disk := hdisk
  once := by
    rw [hattempts, hqueue]
    exact h.once
  inOrder hnone := by
    obtain ⟨hlogger, htask⟩ := hstopped hnone
    obtain ⟨horder, hidle⟩ := h.inOrder hlogger
    rw [hattempts, hqueue]
    exact ⟨horder, fun hafter => hidle (htask hafter)⟩

theorem ensure (h : Filed P logger given) (hP : KeptOnDisk w P) :
    Filed P { logger with disk := (w.ensure logger.disk).2 } given :=
  h.of_eq (hP.ensure h.disk) rfl rfl fun hstopped => ⟨hstopped, id⟩

theorem start (h : Filed P logger given) (hP : KeptOnDisk w P) :
    Filed P (logger.start w) given := by
  have hensured := hP.ensure h.disk
  unfold RawDataLogger.start
  cases htask : logger.task with
  | some i => exact h
  | none =>
    revert hensured
    rcases w.ensure logger.disk with ⟨_ | exc, disk⟩
    · exact fun hensured => h.of_eq hensured rfl rfl fun hstopped => ⟨hstopped, fun _ => htask⟩
    · exact fun hensured => h.of_eq hensured rfl rfl fun hstopped => ⟨hstopped, fun _ => htask⟩

theorem put_queue (logger : RawDataLogger) (item : Option LogEvent) :
    (logger.put item).queue = logger.queue ++ [item] := by
  unfold RawDataLogger.put
  dsimp only
  split <;> rfl

theorem put_same (logger : RawDataLogger) (item : Option LogEvent) :
    (logger.put item).attempts = logger.attempts ∧ (logger.put item).disk = logger.disk ∧
      (logger.put item).task = logger.task := by
  unfold RawDataLogger.put
  dsimp only
  split <;> exact ⟨rfl, rfl, rfl⟩

theorem log (h : Filed P logger given) (hP : KeptOnDisk w P) (event : LogEvent) :
    Filed P (logger.log w event) (given ++ [event]) := by
  unfold RawDataLogger.log
  cases htask : logger.task with
  | none =>
    have hbehind : ((logger.attempts ++ [(event, (w.write event logger.disk).1)]).map Prod.fst ++
        logger.queue.reduceOption).Perm
          (logger.attempts.map Prod.fst ++ logger.queue.reduceOption ++ [event]) := by
      rw [List.map_append, List.append_assoc, List.append_assoc]
      exact List.perm_append_comm.append_left _
    refine ⟨hP.write event h.disk, hbehind.trans (h.once.append_right _), fun hstopped => ?_⟩
    obtain ⟨horder, hidle⟩ := h.inOrder hstopped
    have hqueue := hidle htask
    rw [hqueue, List.append_nil] at horder
    refine ⟨?_, fun _ => hqueue⟩
    simp only [hqueue, List.append_nil, List.map_append, horder, List.map_cons, List.map_nil]
  | some i =>
    obtain ⟨hattempts, hdisk, hsame⟩ := put_same logger (some event)
    have hqueue : (logger.put (some event)).queue.reduceOption =
        logger.queue.reduceOption ++ [event] := by
      rw [put_queue, List.reduceOption_append]
      rfl
    refine ⟨?_, ?_, fun hstopped => ?_⟩
    · dsimp only
      rw [hattempts, hdisk]
      exact h.disk
    · dsimp only
      rw [hattempts, hqueue, ← List.append_assoc]
      exact h.once.append_right _
    · rw [RawDataLogger.stopped_put] at hstopped
      obtain ⟨horder, _⟩ := h.inOrder hstopped
      dsimp only
      rw [hattempts, hqueue, ← List.append_assoc, horder]
      exact ⟨rfl, fun hnone => absurd (hsame ▸ hnone) (htask ▸ Option.some_ne_none i)⟩

theorem put_none (h : Filed P logger given) : Filed P (logger.put none) given := by
  obtain ⟨hattempts, hdisk, htask⟩ := put_same logger none
  refine h.of_eq ?_ hattempts ?_ fun hstopped => ?_
  · rw [hattempts, hdisk]
    exact h.disk
  · rw [put_queue, List.reduceOption_append, List.reduceOption_cons_of_none,
      List.reduceOption_nil, List.append_nil]
  · rw [RawDataLogger.stopped_put] at hstopped
    exact ⟨hstopped, fun hnone => htask ▸ hnone⟩

theorem finishStop (h : Filed P logger given) (result : Option PyError) :
    Filed P (logger.finishStop result) given := by
  cases result with
  | none =>
    refine h.of_eq h.disk rfl rfl fun hstopped => ?_
    exact absurd hstopped (List.append_ne_nil_of_right_ne_nil _ (List.cons_ne_nil _ _))
  | some exc =>
    refine h.of_eq h.disk rfl rfl fun hstopped => ?_
    exact absurd hstopped (List.append_ne_nil_of_right_ne_nil _ (List.cons_ne_nil _ _))

theorem stop (h : Filed P logger given) : Filed P logger.stop given := by
  unfold RawDataLogger.stop
  cases logger.task with
  | none =>
    refine h.of_eq h.disk rfl rfl fun hstopped => ?_
    exact absurd hstopped (List.append_ne_nil_of_right_ne_nil _ (List.cons_ne_nil _ _))
  | some i =>
    dsimp only
    split
    · exact h.put_none.finishStop _
    · exact h.put_none.of_eq h.put_none.disk rfl rfl fun hstopped => ⟨hstopped, id⟩

theorem resumeStop (h : Filed P logger given) {j : ℕ} (hresume : logger.resumeStop j = some after) :
    Filed P after given := by
  unfold RawDataLogger.resumeStop at hresume
  cases hj : logger.stopping[j]? with
  | none => rw [hj] at hresume; cases hresume
  | some i =>
    rw [hj] at hresume
    obtain ⟨result, _, rfl⟩ := Option.map_eq_some_iff.mp hresume
    have hsame : Filed P { logger with stopping := logger.stopping.eraseIdx j } given :=
      h.of_eq h.disk rfl rfl fun hstopped => ⟨hstopped, id⟩
    exact hsame.finishStop result

theorem runWorker (h : Filed P logger given) (hP : KeptOnDisk w P) {i : ℕ}
    (hrun : logger.runWorker w i = some after) : Filed P after given := by
  unfold RawDataLogger.runWorker at hrun
  split at hrun
  · rw [← Option.some.inj hrun]
    have hsame : (logger.attempts ++ (drain w logger.queue logger.disk).attempts).map Prod.fst ++
        (drain w logger.queue logger.disk).queue.reduceOption =
          logger.attempts.map Prod.fst ++ logger.queue.reduceOption := by
      rw [List.map_append, List.append_assoc, drain_queue]
    refine ⟨hP.drain logger.queue h.disk, hsame ▸ h.once, fun hstopped => ?_⟩
    obtain ⟨horder, hidle⟩ := h.inOrder hstopped
    refine ⟨hsame.trans horder, fun hnone => ?_⟩
    have hdrained := drain_queue (w := w) logger.queue logger.disk
    rw [hidle hnone] at hdrained
    exact (List.append_eq_nil_iff.mp hdrained).2
  · cases hrun

end Filed

/-! ### What the files hold -/

/-- No write was refused by the system. -/
def NoneRefused (attempts : List (LogEvent × Option PyError)) : Prop :=
  ∀ call ∈ attempts, ∀ exc, call.2 = some exc → exc.cls ≠ .osError

section
variable (host : Host) (paths : AppPaths)

/-- The alerts that were written to a file. -/
def alertsIn (file : Files.Path) (attempts : List (LogEvent × Option PyError)) : List AlertEvent :=
  attempts.filterMap fun
    | (.alert event, none) => if alertFileOf host paths event = some file then some event else none
    | _ => none

/-- A rawdata file holds the rows that it held and one for each event written to it. -/
def RowsAdded (disk₀ : FS) (attempts : List (LogEvent × Option PyError)) (disk : FS) : Prop :=
  NoneRefused attempts → ∀ event file rows, fileOf host paths event = some file →
    HoldsRows disk₀ file rows →
      ∃ more, List.Forall₂ (fun event row => rowFor host event = .ok row)
          (eventsAt host paths file attempts) more ∧
        HoldsRows disk file (rows ++ more)

/-- An alert file holds what it held and one line for each alert written to it. -/
def LinesAdded (disk₀ : FS) (attempts : List (LogEvent × Option PyError)) (disk : FS) : Prop :=
  NoneRefused attempts → ∀ alert file, alertFileOf host paths alert = some file →
    ∃ lines bytes, List.Forall₂ (fun event line => alertLineFor host event = .ok line)
        (alertsIn host paths file attempts) lines ∧
      utf8Encode (lines.flatMap (· ++ [0x0A])) = some bytes ∧
      disk.content file = disk₀.content file ++ bytes

/-- A file that no event goes to is as it was. -/
def OthersKept (disk₀ : FS) (attempts : List (LogEvent × Option PyError)) (disk : FS) : Prop :=
  ∀ file, (∀ call ∈ attempts, logFileOf host paths call.1 ≠ some file) →
    disk.file? file = disk₀.file? file

/-- What the writes made of the files. -/
structure FilesAfter (disk₀ : FS) (attempts : List (LogEvent × Option PyError)) (disk : FS) :
    Prop where
  rows : RowsAdded host paths disk₀ attempts disk
  lines : LinesAdded host paths disk₀ attempts disk
  others : OthersKept host paths disk₀ attempts disk

variable {host paths} {disk₀ : FS}

theorem NoneRefused.of_concat {attempts : List (LogEvent × Option PyError)}
    {call : LogEvent × Option PyError} (h : NoneRefused (attempts ++ [call])) :
    NoneRefused attempts ∧ ∀ exc, call.2 = some exc → exc.cls ≠ .osError :=
  ⟨fun other hother => h other (List.mem_append_left _ hother),
    h call (List.mem_append_right _ (List.mem_singleton_self _))⟩

theorem eventsAt_concat (file : Files.Path) (attempts : List (LogEvent × Option PyError))
    (call : LogEvent × Option PyError) : eventsAt host paths file (attempts ++ [call]) =
      eventsAt host paths file attempts ++ eventsAt host paths file [call] := by
  induction attempts with
  | nil => rfl
  | cons first attempts ih =>
    rw [List.cons_append, eventsAt_cons, ih, eventsAt_cons first attempts, List.append_assoc]

theorem file?_ensure (disk : FS) :
    ((diskWriter host paths).ensure disk).2.file? = disk.file? := by
  have hensure : After (onDisk (paths.ensure host.refuses)) disk
      fun _ disk' => disk'.file? = disk.file? := by
    refine after_onDisk.mpr ?_
    refine (after_mkdirs host.refuses _ disk).bind (fun _ disk₁ h₁ => ?_) fun _ _ h₁ => h₁
    refine (after_mkdirs host.refuses _ disk₁).bind (fun _ disk₂ h₂ => ?_)
      fun _ _ h₂ => h₂.trans h₁
    exact (after_mkdirs host.refuses _ disk₂).mono fun _ _ h₃ => h₃.trans (h₂.trans h₁)
  exact after_attempt hensure

theorem content_ensure (file : Files.Path) (disk : FS) :
    ((diskWriter host paths).ensure disk).2.content file = disk.content file := by
  rw [FS.content, file?_ensure, FS.content]

theorem kept_rowsAdded : KeptOnDisk (diskWriter host paths) (RowsAdded host paths disk₀) where
  write {attempts disk} event h := by
    intro hnone file' file rows hfile hrows
    obtain ⟨hbefore, hlast⟩ := hnone.of_concat
    obtain ⟨more, hmore, hholds⟩ := h hbefore file' file rows hfile hrows
    obtain ⟨last, hadded, hafter⟩ := holdsRows_write hfile hlast hholds
    refine ⟨more ++ last, ?_, List.append_assoc rows more last ▸ hafter⟩
    rw [eventsAt_concat]
    exact List.rel_append hmore hadded
  ensure {attempts disk} h := by
    intro hnone file' file rows hfile hrows
    obtain ⟨more, hmore, hholds⟩ := h hnone file' file rows hfile hrows
    exact ⟨more, hmore, hholds.congr (content_ensure file disk)⟩

theorem kept_othersKept : KeptOnDisk (diskWriter host paths) (OthersKept host paths disk₀) where
  write {attempts disk} event h := by
    intro file hother
    have hlast := hother _ (List.mem_append_right _ (List.mem_singleton_self _))
    have hbefore := h file fun call hcall => hother call (List.mem_append_left _ hcall)
    exact (write_elsewhere host paths disk hlast).trans hbefore
  ensure {attempts disk} h := by
    intro file hother
    rw [file?_ensure]
    exact h file hother

/-- A write that the system does not refuse adds its line to an alert file, if it is one for that
    file and does not raise. -/
theorem line_added {event : LogEvent} {disk : FS} {alert : AlertEvent} {file : Files.Path}
    (hfile : alertFileOf host paths alert = some file)
    (hlast : ∀ exc, ((diskWriter host paths).write event disk).1 = some exc →
      exc.cls ≠ .osError) :
    ∃ lines bytes, List.Forall₂ (fun event line => alertLineFor host event = .ok line)
        (alertsIn host paths file [(event, ((diskWriter host paths).write event disk).1)]) lines ∧
      utf8Encode (lines.flatMap (· ++ [0x0A])) = some bytes ∧
      ((diskWriter host paths).write event disk).2.content file = disk.content file ++ bytes := by
  have hsame {disk' : FS} (hcontent : disk'.content file = disk.content file) :
      disk'.content file = disk.content file ++ [] := by
    rw [hcontent, List.append_nil]
  cases event with
  | rawData event =>
    refine ⟨[], [], .nil, rfl, hsame ?_⟩
    rw [FS.content, write_rawData_file? hfile, FS.content]
  | alert event =>
    cases hraised : ((diskWriter host paths).write (.alert event) disk).1 with
    | none =>
      obtain ⟨lines, bytes, hlines, hbytes, hcontent⟩ := content_write_alert file hraised
      refine ⟨lines, bytes, ?_, hbytes, hcontent⟩
      have hat : alertsIn host paths file [(.alert event, none)] =
          alertsAt host paths file [event] := by
        by_cases hevent : alertFileOf host paths event = some file
        · simp only [alertsIn, alertsAt, List.filterMap_cons, List.filterMap_nil, hevent, if_true,
            List.filter_cons, decide_true, List.filter_nil]
        · simp only [alertsIn, alertsAt, List.filterMap_cons, List.filterMap_nil, hevent, if_false,
            List.filter_cons, decide_false, List.filter_nil, Bool.false_eq_true]
      rw [hat]
      exact hlines
    | some exc =>
      refine ⟨[], [], .nil, rfl, hsame ?_⟩
      have hwrite := write_alert host paths event disk
      by_cases hevent : alertFileOf host paths event = some file
      · rw [hevent] at hwrite
        exact Appends.spared hwrite exc (by rw [hraised]; rfl) (hlast exc hraised)
      · rw [FS.content, hwrite.elsewhere hevent, FS.content]

theorem kept_linesAdded : KeptOnDisk (diskWriter host paths) (LinesAdded host paths disk₀) where
  write {attempts disk} event h := by
    intro hnone alert file hfile
    obtain ⟨hbefore, hlast⟩ := hnone.of_concat
    obtain ⟨lines, bytes, hlines, hbytes, hcontent⟩ := h hbefore alert file hfile
    obtain ⟨last, bytes', hadded, hbytes', hcontent'⟩ := line_added hfile hlast
    refine ⟨lines ++ last, bytes ++ bytes', ?_, ?_, ?_⟩
    · rw [alertsIn, List.filterMap_append]
      exact List.rel_append hlines hadded
    · rw [List.flatMap_append, utf8Encode_append, hbytes, hbytes']
      rfl
    · rw [hcontent', hcontent, List.append_assoc]
  ensure {attempts disk} h := by
    intro hnone alert file hfile
    obtain ⟨lines, bytes, hlines, hbytes, hcontent⟩ := h hnone alert file hfile
    exact ⟨lines, bytes, hlines, hbytes, (content_ensure file disk).trans hcontent⟩

theorem kept_filesAfter : KeptOnDisk (diskWriter host paths) (FilesAfter host paths disk₀) where
  write event h := ⟨kept_rowsAdded.write event h.rows, kept_linesAdded.write event h.lines,
    kept_othersKept.write event h.others⟩
  ensure h := ⟨kept_rowsAdded.ensure h.rows, kept_linesAdded.ensure h.lines,
    kept_othersKept.ensure h.others⟩

theorem FilesAfter.start (disk : FS) : FilesAfter host paths disk [] disk where
  rows _ _ _ rows _ hrows := ⟨[], .nil, (List.append_nil rows).symm ▸ hrows⟩
  lines _ _ _ _ := ⟨[], [], .nil, rfl, (List.append_nil _).symm⟩
  others _ _ := rfl

end

end SlimHub.Logging

namespace SlimHub
open Text Nus Ble Asyncio Logging

/-! ### The logger in the daemon -/

namespace Daemon
open Piece

/-- The logger accounts for what it was given. -/
def Booked (P : List (LogEvent × Option PyError) → Files.FS → Prop) (s : Station) : Prop :=
  Filed P s.logger (s.history.logged.map Prod.fst)

/-- And goes on to do so. -/
def Books (P : List (LogEvent × Option PyError) → Files.FS → Prop) (s t : Station) : Prop :=
  Booked P s → Booked P t

variable {w : Writer} {P : List (LogEvent × Option PyError) → Files.FS → Prop}

instance : Std.Refl (Books P) := ⟨fun _ => id⟩
instance : IsTrans Station (Books P) := ⟨fun _ _ _ h h' => h' ∘ h⟩

theorem Changes.books {starts : Prop} {s t : Station} (h : Changes starts s t) : Books P s t := by
  have hframes := h.quiet.frames
  simp only [Station.frames, Prod.mk.injEq] at hframes
  intro hs
  rw [Booked, Changes.logger h, hframes.2.2.1]
  exact hs

theorem allowsRun_books (hP : KeptOnDisk w P) : AllowsRun w (Books P) where
  makesDirs _ hs := Filed.ensure hs hP
  loads _ _ := id
  startsLogger _ hs := Filed.start hs hP
  stopsAll _ _ _ := id
  stopsLogger _ hs := Filed.stop hs
  unlinks _ := id
  finishes _ _ := id

theorem books_handleFrame (hP : KeptOnDisk w P) (interp : Interpreter) (task : FrameTask) :
    (handleFrame interp w task).Guarantees (Books P) (fun _ => True) fun _ => True := by
  have hchanges : ∀ s t, Changes False s t → Books P s t := fun _ _ h => Changes.books h
  refine ((calm_frameEvent interp task).attempt.mono hchanges).bind fun made => ?_
  refine (guarantees_modify fun s => id).bind fun _ => (guarantees_lift made).bind fun event => ?_
  refine (guarantees_act fun s hs => ?_).bind fun _ => ?_
  · have hlog := Filed.log hs hP event
    rw [Booked, List.map_append]
    exact hlog
  · cases event with
    | alert event => exact guarantees_return _
    | rawData event =>
      refine (guarantees_act fun s => ?_).bind fun commands =>
        (calm_sendCommands commands).mono hchanges
      dsimp only
      cases s.estimator.handle event with
      | error exc => exact id
      | ok answer => exact id

theorem books_body (hP : KeptOnDisk w P) (interp : Interpreter) (point : Point) (s : Station) :
    Books P s ((body interp w point).exec s).shared :=
  (runs_body (allowsRun_books hP) (fun _ _ => id) interp (fun _ _ => Changes.books)
    (books_handleFrame hP interp) point).shared s

theorem books_callback (hP : KeptOnDisk w P) (cb : Callback) (s : Station) :
    Books P s (callback w cb s).1 := by
  cases cb with
  | notify connection data =>
    rw [callback, notified]
    cases s.connections[connection]? with
    | none => exact id
    | some entry =>
      dsimp only
      cases s.central.sessions[entry.1]? with
      | none => exact id
      | some session => exact id
  | client line => cases line <;> exact id
  | logWorker i =>
    intro hs
    rw [callback]
    cases hrun : s.logger.runWorker w i with
    | none => exact hs
    | some logger => exact Filed.runWorker hs hP hrun
  | logStopped j =>
    intro hs
    rw [callback]
    cases hresume : s.logger.resumeStop j with
    | none => exact hs
    | some logger => exact Filed.resumeStop hs hresume
  | _ => exact id

end Daemon

section
variable {interp : Interpreter} {configStore : DeviceConfigStore} {hubConfigStore : HubConfigStore}
  {disk : Files.FS} {times : ℕ → ℚ} {awaitsClients : Bool} {unlinkError : Option PyError}
  {address : Option Str} {scan : Bool} {events : List (Event Answer Callback)}
  {L : Loop Station Point PyError Answer}

/-- The logger's account of the events that were made of the handled frames. -/
theorem filed_run {host : Host} {paths : AppPaths}
    (hrun : Machine.run (Daemon.loopStep interp (diskWriter host paths)) events
      ((Station.new configStore hubConfigStore disk times awaitsClients unlinkError).launch address
        scan) = some L) :
    Filed (FilesAfter host paths disk) L.shared.logger
      (L.shared.history.handled.filterMap fun entry => entry.2.toOption) := by
  have hmade : L.shared.history.logged.map Prod.fst =
      L.shared.history.handled.filterMap fun entry => entry.2.toOption := by
    obtain ⟨A, rfl, harrived⟩ := arrived_run hrun
    exact harrived.inOrder.logged
  have hnew : Filed (FilesAfter host paths disk) { disk } [] :=
    ⟨.start disk, .nil, fun _ => ⟨rfl, fun _ => rfl⟩⟩
  have hfiled : Daemon.Booked (FilesAfter host paths disk) L.shared :=
    Loop.run_shared (A := (Station.new configStore hubConfigStore disk times
      awaitsClients unlinkError).launched address scan)
      (fun point s => Daemon.books_body kept_filesAfter interp point s)
      (fun cb s => Daemon.books_callback kept_filesAfter cb s) hnew hrun
  rwa [Daemon.Booked, hmade] at hfiled

end

/-- CORRECT: from the frames that are handled to the files. In every run, whatever raises and
    whenever `stop` comes, each event made of a handled frame was given to one write or waits in the
    queue; until `raw_logger.stop` returns, the writes are those of the first events, in the order
    of the frames, and the queue holds the others. Unless the system refused a write, a rawdata file
    that held rows holds one more for each event written to it and an alert file holds one more line
    for each alert written to it; files that no event goes to are as they were. (The path has the
    text of a config's type or location that is no string.) -/
theorem events_on_file (interp : Interpreter) (host : Host) (paths : AppPaths)
    (configStore : DeviceConfigStore) (hubConfigStore : HubConfigStore) (disk : Files.FS)
    (times : ℕ → ℚ) (awaitsClients : Bool) (unlinkError : Option PyError) (address : Option Str)
    (scan : Bool) (events : List (Event Answer Callback)) (L : Loop Station Point PyError Answer)
    (hrun : Machine.run (Daemon.loopStep interp (diskWriter host paths)) events
      ((Station.new configStore hubConfigStore disk times awaitsClients unlinkError).launch address
        scan) = some L) :
    let logger := L.shared.logger
    let made := L.shared.history.handled.filterMap fun entry => entry.2.toOption
    (logger.attempts.map Prod.fst ++ logger.queue.reduceOption).Perm made ∧
    (logger.stopped = [] → logger.attempts.map Prod.fst ++ logger.queue.reduceOption = made) ∧
    FilesAfter host paths disk logger.attempts logger.disk := by
  have hfiled := filed_run hrun
  exact ⟨hfiled.once, fun hstopped => (hfiled.inOrder hstopped).1, hfiled.disk⟩

/-- The rawdata file of a node that has no location, on the first day of 1970. -/
def reportedFile : Files.Path :=
  [str "srv", str "data", defaultLocation, defaultDeviceType, str "AA:BB:CC:DD:EE:FF",
    str "inference", str "rawdata", str "1970-01-01.txt"]

/-- Two frames are handled, and the worker runs: the node's new file gets two rows. -/
theorem reportTwice_on_file : ∃ L,
    Machine.run (Daemon.loopStep freshInterpreter (diskWriter someHost somePaths))
      (reportTwice ++ [.call (.logWorker 0)]) (freshStation.launch none false) = some L ∧
    L.shared.logger.queue = [] ∧ ∃ rows, rows.length = 2 ∧
      HoldsRows L.shared.logger.disk reportedFile rows := by
  have hstate : (Machine.run (Daemon.loopStep freshInterpreter (diskWriter someHost somePaths))
      (reportTwice ++ [.call (.logWorker 0)]) (freshStation.launch none false)).map (fun L => decide
        (L.shared.logger.queue = [] ∧ NoRaise L.shared.logger.attempts ∧
          (eventsAt someHost somePaths reportedFile L.shared.logger.attempts).length = 2)) =
            some true := by
    decide +kernel
  have hfile : fileOf someHost somePaths (eventIn "" 0) = some reportedFile := by decide +kernel
  obtain ⟨L, hrun, hfacts⟩ := Option.map_eq_some_iff.mp hstate
  obtain ⟨hqueue, hno, hlength⟩ := of_decide_eq_true hfacts
  obtain ⟨_, _, hafter⟩ := events_on_file freshInterpreter someHost somePaths _ _ _ _ _ _ _ _ _ L
    hrun
  have hnone : NoneRefused L.shared.logger.attempts := by
    intro call hcall exc hexc
    rw [hno call hcall] at hexc
    cases hexc
  obtain ⟨rows, hmade, hholds⟩ := hafter.rows hnone _ _ [] hfile ⟨List.forall_mem_nil _, rfl⟩
  exact ⟨L, hrun, hqueue, rows, hmade.length_eq ▸ hlength, hholds⟩

end SlimHub
