import SlimHub.Pieces

/-! No session is lost from the registry.

        ensure_target:  get (lock) ── no session ──▶ add (lock) ──▶ start

    Between the two holds of the lock another caller could add a session of its own, and the first
    one would be lost to `stop_all`. No caller runs in between, since the lock is never found held. -/

namespace SlimHub
open Text Nus Ble Asyncio Logging

/-- The daemon's loop at its start, without the lock. -/
def Station.launched (self : Station) (address : Option Str) (scan : Bool) :
    Atomic Station Point Answer :=
  { shared := self, ready := [.main address scan] }

theorem Registered.new (configStore : DeviceConfigStore) (hubConfigStore : HubConfigStore)
    (disk : Files.FS) (times : ℕ → ℚ) (awaitsClients : Bool) (unlinkError : Option PyError) :
    Registered (.new configStore hubConfigStore disk times awaitsClients unlinkError) where
  tables := Tables.empty
  added := rfl
  started := rfl
  stopAlls := List.forall_mem_nil _

variable (interp : Interpreter) (w : Writer)

/-- Along every run the registry is in step with its record. -/
theorem registered_run {station : Station} (h : Registered station) {address : Option Str}
    {scan : Bool} {events : List (Event Answer Callback)} {L : Loop Station Point PyError Answer}
    (hrun : Machine.run (Daemon.loopStep interp w) events (station.launch address scan) = some L) :
    Registered L.shared :=
  Loop.run_shared (A := station.launched address scan)
    (fun point s hs => Daemon.keeps_body interp w point s hs)
    (fun cb s hs => keeps_callback w cb s hs) h hrun

/-- `stop_all` starts a `stop` call for every session in the registry. -/
theorem Daemon.created_stopAll (s : Station) : ∃ rest, (stopAll.exec s).created =
    (s.central.registry.sessions.entries.map Prod.snd).map Point.stopSession ++ rest := by
  simp only [stopAll, Piece.exec_bind, Piece.exec_locked, Piece.andThen_ok, Piece.exec_forM_create]
  exact ⟨_, rfl⟩

/-- CORRECT: `registry.add` never replaces an entry. In every state of every run the calls of `add`
    were under different keys, each key still holds the session that was added under it, and these
    are the sessions that were started; so every `stop_all` reaches all sessions started before. -/
theorem no_orphan_session (configStore : DeviceConfigStore) (hubConfigStore : HubConfigStore)
    (disk : Files.FS) (times : ℕ → ℚ) (awaitsClients : Bool) (unlinkError : Option PyError)
    (address : Option Str) (scan : Bool) (events : List (Event Answer Callback))
    (L : Loop Station Point PyError Answer)
    (hrun : Machine.run (Daemon.loopStep interp w) events
      ((Station.new configStore hubConfigStore disk times awaitsClients unlinkError).launch address
        scan) = some L) :
    (L.shared.history.added.map Prod.fst).Nodup ∧
      (∀ k ref, (k, ref) ∈ L.shared.history.added →
        L.shared.central.registry.sessions.get? k = some ref) ∧
      L.shared.history.started = L.shared.history.added.map Prod.snd ∧
      (∀ call ∈ L.shared.history.stopAlls, call.2 = call.1) ∧
      ∀ ref ∈ L.shared.history.started,
        Point.stopSession ref ∈ (Daemon.stopAll.exec L.shared).created := by
  have hreg : Registered L.shared := registered_run interp w (Registered.new ..) hrun
  refine ⟨?_, ?_, hreg.started, hreg.stopAlls, ?_⟩
  · rw [hreg.added]
    exact L.shared.central.registry.sessions.nodup
  · intro k ref hmem
    rw [hreg.added] at hmem
    exact Dict.get?_eq_some.mpr hmem
  · intro ref href
    obtain ⟨rest, hcreated⟩ := Daemon.created_stopAll L.shared
    rw [hreg.started, hreg.added] at href
    rw [hcreated]
    exact List.mem_append_left _ (List.mem_map_of_mem href)

/-- Files that take everything. -/
def openDisk : Writer := ⟨fun disk => (none, disk), fun _ disk => (none, disk)⟩

/-- A daemon without files. -/
def freshStation : Station := Station.new ⟨Dict.empty⟩ ⟨none⟩ Files.FS.empty (fun _ => 0) false none

/-- Two clients ask for one address, in two spellings, while a scan finds it. -/
def connectTwice : List (Event Answer Callback) :=
  [.tick, .resume 0 .done, .tick, .tick,
    .resume 1 (.devices (.ok [.device (str "11:22:33:44:55:66") (some defaultDeviceName)])),
    .call (.client (some (.connect (str "112233445566")))),
    .call (.client (some (.connect (str "11-22-33-44-55-66")))), .tick, .tick, .tick]

/-- One session is started, and `stop_all` would reach it. -/
theorem connectTwice_one_session : ∃ L,
    Machine.run (Daemon.loopStep freshInterpreter openDisk) connectTwice
      (freshStation.launch none true) = some L ∧
      L.shared.history.started = [0] ∧
      Point.stopSession 0 ∈ (Daemon.stopAll.exec L.shared).created := by
  have hstate : (Machine.run (Daemon.loopStep freshInterpreter openDisk) connectTwice
      (freshStation.launch none true)).map (fun L => decide (L.shared.history.started = [0])) =
        some true := by decide +kernel
  obtain ⟨L, hrun, hstarted⟩ := Option.map_eq_some_iff.mp hstate
  have hfacts := no_orphan_session freshInterpreter openDisk _ _ _ _ _ _ _ _ _ L hrun
  have hstarted : L.shared.history.started = [0] := of_decide_eq_true hstarted
  refine ⟨L, hrun, hstarted, hfacts.2.2.2.2 0 ?_⟩
  rw [hstarted]
  exact List.mem_singleton_self 0

end SlimHub
