import SlimHub.NoOrphans

/-! A round of the scan loop.

        device ──▶ ensure_target ──▶ config_store.ensure ──▶ next device
           │                               │
           └── no address                  └── raises: the round is over, and later devices wait

    One `try` is around the whole loop over the devices. What goes wrong with one of them ends the
    round for all that the scan listed after it. -/

namespace SlimHub
open Text Nus Ble Asyncio Logging

variable (interp : Interpreter)

/-- `registry.get` gives a session for this address. -/
def Station.HasSession (self : Station) (a : Str) : Prop := self.central.registry.find a ≠ none

instance (self : Station) (a : Str) : Decidable (self.HasSession a) :=
  inferInstanceAs (Decidable (_ ≠ _))

/-- The scan's writes for these devices go through, one after another: every address normalises,
    every config is read and saved. -/
def Written (store : DeviceConfigStore) : List Target → Prop
  | [] => True
  | device :: devices =>
    (∃ config, ((ConfigWrite.scanned device).apply interp store).2 = .ok config) ∧
      Written ((ConfigWrite.scanned device).apply interp store).1 devices

/-- A device with this address is listed, and nothing goes wrong with the devices before it. -/
def GetsTo (store : DeviceConfigStore) (devices : List Target) (a : Str) : Prop :=
  ∃ earlier device later, devices = earlier ++ device :: later ∧
    normalizeMac device.addressText = .ok a ∧ Written interp store earlier

variable {interp} {s : Station} {a : Str} {target : Target} {store : DeviceConfigStore}

theorem getsTo_cons {device : Target} {devices : List Target} :
    GetsTo interp store (device :: devices) a ↔ normalizeMac device.addressText = .ok a ∨
      (∃ config, ((ConfigWrite.scanned device).apply interp store).2 = .ok config) ∧
        GetsTo interp ((ConfigWrite.scanned device).apply interp store).1 devices a := by
  constructor
  · rintro ⟨earlier, other, later, heq, hnorm, hwritten⟩
    cases earlier with
    | nil =>
      obtain ⟨rfl, rfl⟩ := List.cons.inj heq
      exact .inl hnorm
    | cons first earlier =>
      obtain ⟨rfl, rfl⟩ := List.cons.inj heq
      exact .inr ⟨hwritten.1, earlier, other, later, rfl, hnorm, hwritten.2⟩
  · rintro (hnorm | ⟨hfirst, earlier, other, later, rfl, hnorm, hwritten⟩)
    · exact ⟨[], device, devices, rfl, hnorm, trivial⟩
    · exact ⟨device :: earlier, other, later, rfl, hnorm, hfirst, hwritten⟩

theorem not_getsTo_nil : ¬GetsTo interp store [] a := by
  rintro ⟨earlier, device, later, heq, _, _⟩
  cases earlier <;> cases heq

/-! ### One device -/

namespace Daemon
open Piece

/-- `ensure_target` gives the address a session, takes none away, and leaves the configs alone. -/
theorem ensureTarget_ok (htables : Tables s.central) {b : Str}
    (hnorm : normalizeMac target.addressText = .ok b) :
    ∃ t created ref, (ensureTarget target).exec s = ⟨t, created, .ok ref⟩ ∧
      t.configStore = s.configStore ∧ Tables t.central ∧
      ∀ a, t.HasSession a ↔ b = a ∨ s.HasSession a := by
  have hkept := (htables.ensureTarget target (s.times s.reads)).1
  cases hfind : s.central.registry.find b with
  | some ref =>
    refine ⟨_, _, _, exec_ensureTarget_found hnorm hfind, rfl, hkept, fun a => ?_⟩
    simp only [Station.HasSession, BleCentral.ensureTarget_found hnorm hfind]
    constructor
    · exact .inr
    · rintro (rfl | ha)
      · rw [hfind]
        exact Option.some_ne_none ref
      · exact ha
  | none =>
    refine ⟨_, _, _, exec_ensureTarget_new hnorm hfind, rfl, hkept, fun a => ?_⟩
    have hlater := hkept.find_eq_none (a := a)
    rw [BleCentral.ensureTarget_new hnorm hfind] at hlater
    simp only [Station.HasSession, BleCentral.ensureTarget_new hnorm hfind, ne_eq, hlater,
      htables.find_eq_none, Dict.get?_set]
    split
    · rename_i heq
      simp [heq]
    · rename_i hne
      simp [Ne.symm hne]

/-- What the piece of one device does. -/
theorem startOrUpdateSession_ok (htables : Tables s.central) {b : Str}
    (hnorm : normalizeMac target.addressText = .ok b) :
    ∃ t created, (startOrUpdateSession interp target).exec s = ⟨t, created,
        ((ConfigWrite.scanned target).apply interp s.configStore).2.map fun _ => ()⟩ ∧
      t.configStore = ((ConfigWrite.scanned target).apply interp s.configStore).1 ∧
      Tables t.central ∧ ∀ a, t.HasSession a ↔ b = a ∨ s.HasSession a := by
  obtain ⟨t, created, ref, hexec, hstore, hkept, hsession⟩ := ensureTarget_ok htables hnorm
  refine ⟨{ t with configStore := ((ConfigWrite.scanned target).apply interp s.configStore).1 },
    created, ?_, rfl, hkept, hsession⟩
  simp only [startOrUpdateSession, exec_bind, exec_lift, hnorm, hexec, andThen, write,
    exec_act, hstore]
  cases ((ConfigWrite.scanned target).apply interp s.configStore).2 with
  | error exc => simp [Except.map]
  | ok config => simp [Except.map]

theorem startOrUpdateSession_error {exc : PyError}
    (hnorm : normalizeMac target.addressText = .error exc) :
    (startOrUpdateSession interp target).exec s = ⟨s, [], .error exc⟩ := by
  simp only [startOrUpdateSession, exec_bind, exec_lift, hnorm, andThen_error]

/-! ### All devices -/

/-- After the loop over the devices the new sessions are those of the devices that it got to. -/
theorem hasSession_forM (devices : List Target) (htables : Tables s.central) :
    ((devices.forM (startOrUpdateSession interp)).exec s).shared.HasSession a ↔
      s.HasSession a ∨ GetsTo interp s.configStore devices a := by
  induction devices generalizing s with
  | nil => simp [not_getsTo_nil, List.forM_nil]
  | cons device devices ih =>
    rw [exec_forM_cons, getsTo_cons]
    cases hnorm : normalizeMac device.addressText with
    | error exc =>
      rw [startOrUpdateSession_error hnorm]
      simp [ConfigWrite.apply, hnorm]
    | ok b =>
      obtain ⟨t, created, hexec, hstore, hkept, hsession⟩ :=
        @startOrUpdateSession_ok interp _ _ htables b hnorm
      rw [hexec, andThen]
      cases hwrite : ((ConfigWrite.scanned device).apply interp s.configStore).2 with
      | error exc => simp [Except.map, hsession, or_comm]
      | ok config =>
        have hrest := @ih t hkept
        simp only [hsession, hstore] at hrest
        simp only [Except.map, hrest, Except.ok.injEq, exists_eq', true_and]
        tauto

/-- What a round does; a cancelled one does nothing. -/
theorem hasSession_round (w : Writer) (devices : List Target) (htables : Tables s.central) :
    ((body interp w (.scanned (.ok devices))).exec s).shared.HasSession a ↔
      s.HasSession a ∨ s.scanCancelled = false ∧ GetsTo interp s.configStore devices a := by
  have hforM := @hasSession_forM interp s a devices htables
  cases hcancelled : s.scanCancelled with
  | true => simp [body, scanRound, exec_bind, hcancelled]
  | false =>
    simpa [body, scanRound, exec_bind, hcancelled, connectedSessionCount, listStatus,
      waitThen, andThen] using hforM

end Daemon

/-- CORRECT: in every state of every run, a round of the scan loop leaves a session for each device
    that was found under a valid address, just when each of them has one already or the loop gets to
    it: nothing goes wrong with the devices listed before it. -/
theorem session_for_each_iff (interp : Interpreter) (w : Writer) (configStore : DeviceConfigStore)
    (hubConfigStore : HubConfigStore) (disk : Files.FS) (times : ℕ → ℚ) (awaitsClients : Bool)
    (unlinkError : Option PyError) (address : Option Str) (scan : Bool)
    (events : List (Event Answer Callback)) (L : Loop Station Point PyError Answer)
    (hrun : Machine.run (Daemon.loopStep interp w) events
      ((Station.new configStore hubConfigStore disk times awaitsClients unlinkError).launch address
        scan) = some L) (devices : List Target) :
    (∀ device ∈ devices, ∀ a, normalizeMac device.addressText = .ok a →
      ((Daemon.body interp w (.scanned (.ok devices))).exec L.shared).shared.HasSession a) ↔
    ∀ device ∈ devices, ∀ a, normalizeMac device.addressText = .ok a →
      L.shared.HasSession a ∨
        L.shared.scanCancelled = false ∧ GetsTo interp L.shared.configStore devices a := by
  have htables : Tables L.shared.central :=
    (registered_run interp w (Registered.new ..) hrun).tables
  constructor
  · intro h device hdevice a hnorm
    exact (Daemon.hasSession_round w devices htables).mp (h device hdevice a hnorm)
  · intro h device hdevice a hnorm
    exact (Daemon.hasSession_round w devices htables).mpr (h device hdevice a hnorm)

/-- A daemon with an empty config file for one of two devices. -/
def spoiledStation : Station :=
  .new ⟨Dict.empty.set (str "AA:BB:CC:DD:EE:01") []⟩ ⟨none⟩ Files.FS.empty (fun _ => 0) false none

def spoiledDevice : Target := .device (str "AA:BB:CC:DD:EE:01") (some defaultDeviceName)

def soundDevice : Target := .device (str "AA:BB:CC:DD:EE:02") (some defaultDeviceName)

/-- The first scan finds these devices; their round is next. -/
def scanFinds (devices : List Target) : List (Event Answer Callback) :=
  [.tick, .resume 0 .done, .tick, .tick, .resume 1 (.devices (.ok devices))]

/-- With the spoiled device in front the sound one gets no session, and again none when the second
    scan finds both. -/
theorem spoiled_device_blocks_sound : ∃ L,
    Machine.run (Daemon.loopStep freshInterpreter openDisk)
      (scanFinds [spoiledDevice, soundDevice] ++ [.tick, .tick, .resume 1 .done, .tick,
        .resume 2 (.devices (.ok [spoiledDevice, soundDevice]))])
      (spoiledStation.launch none true) = some L ∧
    ¬∀ device ∈ [spoiledDevice, soundDevice], ∀ a, normalizeMac device.addressText = .ok a →
      ((Daemon.body freshInterpreter openDisk
        (.scanned (.ok [spoiledDevice, soundDevice]))).exec L.shared).shared.HasSession a := by
  have hstate : (Machine.run (Daemon.loopStep freshInterpreter openDisk)
      (scanFinds [spoiledDevice, soundDevice] ++ [.tick, .tick, .resume 1 .done, .tick,
        .resume 2 (.devices (.ok [spoiledDevice, soundDevice]))])
      (spoiledStation.launch none true)).map (fun L => decide
        (((Daemon.body freshInterpreter openDisk
          (.scanned (.ok [spoiledDevice, soundDevice]))).exec L.shared).shared.HasSession
            (str "AA:BB:CC:DD:EE:02"))) = some false := by decide +kernel
  obtain ⟨L, hrun, hlost⟩ := Option.map_eq_some_iff.mp hstate
  refine ⟨L, hrun, fun hall => of_decide_eq_false hlost ?_⟩
  exact hall soundDevice (by simp) (str "AA:BB:CC:DD:EE:02") (by decide)

/-- Behind the sound device the spoiled one does no harm. -/
theorem session_for_each_sound_first : ∃ L,
    Machine.run (Daemon.loopStep freshInterpreter openDisk)
      (scanFinds [soundDevice, spoiledDevice]) (spoiledStation.launch none true) = some L ∧
    ∀ device ∈ [soundDevice, spoiledDevice], ∀ a, normalizeMac device.addressText = .ok a →
      ((Daemon.body freshInterpreter openDisk
        (.scanned (.ok [soundDevice, spoiledDevice]))).exec L.shared).shared.HasSession a := by
  have hstate : (Machine.run (Daemon.loopStep freshInterpreter openDisk)
      (scanFinds [soundDevice, spoiledDevice]) (spoiledStation.launch none true)).map (fun L =>
        (L.shared.scanCancelled, ((ConfigWrite.scanned soundDevice).apply freshInterpreter
          L.shared.configStore).2.isOk)) = some (false, true) := by decide +kernel
  obtain ⟨L, hrun, hready⟩ := Option.map_eq_some_iff.mp hstate
  obtain ⟨hcancelled, hok⟩ := Prod.mk.inj hready
  refine ⟨L, hrun, ?_⟩
  refine (session_for_each_iff freshInterpreter openDisk _ _ _ _ _ _ _ _ _ L hrun _).mpr ?_
  intro device hdevice a hnorm
  refine .inr ⟨hcancelled, ?_⟩
  rcases List.mem_pair.mp hdevice with rfl | rfl
  · exact ⟨[], soundDevice, [spoiledDevice], rfl, hnorm, trivial⟩
  · refine ⟨[soundDevice], spoiledDevice, [], rfl, hnorm, ?_, trivial⟩
    cases hwrite : ((ConfigWrite.scanned soundDevice).apply freshInterpreter
        L.shared.configStore).2 with
    | error exc => rw [hwrite] at hok; cases hok
    | ok config => exact ⟨config, rfl⟩

end SlimHub
