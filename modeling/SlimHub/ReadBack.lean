import SlimHub.OnFile
import SlimHub.Protocol.Rawdata
import SlimHub.Streams

/-! What a reader of a rawdata file gets.

        payload   0 … 13                    14 15      16 … 28              29 … 32
                  flags, values             accuracy   flag, twelve sounds  four sounds
                    │                                     │
        row    time, GridEye, …, temp, …, bvoc,        SOUND, background, …, watering_high

    A row has the second in which a frame was handled, and 27 of the 33 bytes that the node sent:
    each number is written so that it can be read again. -/

namespace SlimHub.Logging
open Text Nus Files

/-! ### Values -/

/-- `int(value)`, for a value without a sign. -/
def readNat (value : Str) : ℤ := decNat value

/-- The hundredths of a value with two decimals. -/
def readHundredths (value : Str) : ℤ := decNat (value.filter isDigit)

/-- The signed byte of a sound value: its decimals are those of a multiple of 1/256. -/
def readSound (value : Str) : ℤ :=
  let decimals := value.drop 2
  (decNat (decimals ++ List.replicate (8 - decimals.length) (chr '0')) / 390625 : ℕ) - 128

theorem readNat_intText {n : ℤ} (h : 0 ≤ n) : readNat (intText n) = n := by
  rw [readNat, intText, if_neg (not_lt.mpr h), decNat_natText]
  omega

theorem filter_isDigit {s : Str} (h : ∀ c ∈ s, isDigit c = true) : s.filter isDigit = s :=
  List.filter_eq_self.mpr h

theorem roundHalfEven_natCast (n : ℕ) : roundHalfEven n = n := by
  have hfloor : (n : ℚ).floor.toNat = n := by
    rw [← Int.cast_natCast, Rat.floor_intCast, Int.toNat_natCast]
  have hhalf : (n : ℚ) - n < 1 / 2 := by norm_num
  rw [roundHalfEven, hfloor]
  exact if_pos hhalf

/-- `f"{raw / 100:.2f}"` shows all of `raw`. -/
theorem readHundredths_fixed2 {raw : ℤ} (h : 0 ≤ raw) :
    readHundredths (fixed2 ((raw : ℚ) / 100)) = raw := by
  obtain ⟨n, rfl⟩ := Int.eq_ofNat_of_zero_le h
  have hvalue : |((n : ℤ) : ℚ) / 100| * 100 = (n : ℕ) := by
    rw [abs_of_nonneg (by positivity)]
    push_cast
    ring
  have hsign : ¬ ((n : ℤ) : ℚ) / 100 < 0 := not_lt.mpr (by positivity)
  have hpoint : (str ".").filter isDigit = [] := by decide
  have hlength : (padded 2 (n % 100)).length = 2 := length_padded (by decide) (by omega)
  rw [readHundredths, fixed2, if_neg hsign, hvalue, roundHalfEven_natCast, List.nil_append,
    List.filter_append, List.filter_append, hpoint, List.append_nil,
    filter_isDigit fun _ => isDigit_of_mem_natText, filter_isDigit fun _ => isDigit_of_mem_padded,
    decNat_append, decNat_natText, decNat_padded, hlength]
  omega

/-- Characters that were cut off at the end can be put back. -/
theorem rdropWhile_append_replicate (s : Str) (c : CodePoint) :
    s.rdropWhile (· = c) ++ List.replicate (s.length - (s.rdropWhile (· = c)).length) c = s := by
  induction s using List.reverseRecOn with
  | nil => rfl
  | append_singleton s d ih =>
    by_cases hd : d = c
    · have hle : (s.rdropWhile (· = c)).length ≤ s.length := (List.rdropWhile_prefix _ s).length_le
      rw [List.rdropWhile_concat_pos _ _ _ (by simpa using hd), List.length_append,
        List.length_singleton, Nat.sub_add_comm hle, List.replicate_succ', ← List.append_assoc, ih,
        hd]
    · rw [List.rdropWhile_concat_neg _ _ _ (by simpa using hd), Nat.sub_self, List.replicate_zero,
        List.append_nil]

theorem readSound_soundText {value : ℤ} (h : -128 ≤ value ∧ value < 128) :
    readSound (soundText value) = value := by
  obtain ⟨m, hm⟩ := Int.eq_ofNat_of_zero_le (a := value + 128) (by omega)
  have hsmall : m < 256 := by omega
  have hsign : ¬ ((m : ℕ) : ℤ) < 0 := by omega
  have hlength : (padded 8 (m * 390625)).length = 8 := length_padded (by decide) (by omega)
  have hback := rdropWhile_append_replicate (padded 8 (m * 390625)) (chr '0')
  have hzero : natText 0 = str "0" := by decide
  rw [readSound, soundText, hm, if_neg hsign, Int.natAbs_natCast, Nat.div_eq_of_lt hsmall,
    Nat.mod_eq_of_lt hsmall, hzero]
  rw [hlength] at hback
  generalize (padded 8 (m * 390625)).rdropWhile (fun c => decide (c = chr '0')) = decimals
    at hback ⊢
  have hwhole : ([] ++ str "0" ++ str ".").length = 2 := by decide
  -- the one zero that stands for no decimals is one of those that were cut off
  have hpad : (if decimals = [] then str "0" else decimals) ++
      List.replicate (8 - (if decimals = [] then str "0" else decimals).length) (chr '0') =
        decimals ++ List.replicate (8 - decimals.length) (chr '0') := by
    split
    · rename_i hnone
      rw [hnone]
      rfl
    · rfl
  rw [List.drop_left' hwhole, hpad, hback, decNat_padded, Nat.mul_div_cancel _ (by decide)]
  omega

/-! ### Rows -/

/-- The layout of the bytes that a row shows. -/
def shownFormat : List Struct.Code :=
  [.B, .B] ++ List.replicate 6 .H ++ [.B] ++ List.replicate 12 .b

/-- These bytes of a payload: all but the accuracy and the last four sound classes. -/
def shownBytes (payload : Bytes) : Bytes := payload.take 14 ++ (payload.drop 16).take 13

/-- How the values after the time are read. -/
def columnReaders : List (Str → ℤ) :=
  [readNat, readNat, readNat, readHundredths, readNat, readNat, readNat, readNat, readNat] ++
    List.replicate 12 readSound

/-- The time of a row and the bytes that it shows. -/
def readRow : List Str → Option (Str × Bytes)
  | [] => none
  | time :: values =>
    (Struct.pack shownFormat (List.zipWith (fun read value => read value) columnReaders values)).map
      fun bytes => (time, bytes)

/-- What the row of an event is to show. -/
structure ReadsAs (host : Host) (event : RawDataEvent) (reading : Str × Bytes) : Prop where
  time : (host.fromtimestamp event.timestamp).map DateTime.timeText = .ok reading.1
  bytes : shownBytes event.payload = reading.2

variable {payload : Bytes} {packet : RawDataPacket}

theorem readAll_of_parseRawdata (h : parseRawdata payload = .ok packet) :
    Struct.readAll rawdataFormat payload = rawdataFields packet := by
  have hlen := (length_of_parseRawdata h).trans calcsize_rawdataFormat.symm
  exact Option.some.inj ((Struct.unpack_of_length hlen).symm.trans (unpack_of_parseRawdata h).1)

theorem inRange_of_parseRawdata (h : parseRawdata payload = .ok packet) : packet.InRange := by
  have hlen := (length_of_parseRawdata h).trans calcsize_rawdataFormat.symm
  have hfits := Struct.fits_readAll hlen
  have htemperature : ∃ raw : ℤ, packet.temperatureC = raw / 100 := by
    rw [parseRawdata, if_neg (not_not.mpr (length_of_parseRawdata h)),
      Struct.unpack_of_length hlen] at h
    obtain rfl := Except.ok.inj h
    exact ⟨_, rfl⟩
  obtain ⟨raw, hraw⟩ := htemperature
  have hfloor : (packet.temperatureC * 100).floor = raw := by simp [hraw]
  have hformat : rawdataFormat = .B :: .B :: .H :: .H :: .H :: .H :: .H :: .H :: .H :: .B ::
      List.replicate 16 .b := rfl
  rw [readAll_of_parseRawdata h, rawdataFields, hfloor, hformat] at hfits
  simp only [List.cons_append, List.nil_append, List.forall₂_cons] at hfits
  obtain ⟨hpresence, hdetected, henv, htemp, hhumid, hiaq, heco2, hbvoc, hacc, hflag,
    hsound⟩ := hfits
  have hcount : packet.sound.length = 16 := by simpa using hsound.length_eq.symm
  refine ⟨hpresence, hdetected, henv, ⟨raw, hraw, htemp⟩, hhumid, hiaq, heco2, hbvoc, hacc, hflag,
    hcount, fun value hvalue => ?_⟩
  obtain ⟨i, hi, rfl⟩ := List.mem_iff_getElem.mp hvalue
  have hfit := (List.forall₂_iff_get.mp hsound).2 i (by rw [List.length_replicate]; omega) hi
  rwa [List.get_eq_getElem, List.getElem_replicate] at hfit

/-- The layout of a payload around what a row leaves out. -/
theorem formats_cut : ∃ front back : List Struct.Code,
    shownFormat = front ++ back ∧
    rawdataFormat = (front ++ [.H]) ++ (back ++ List.replicate 4 .b) ∧
    (front.length = 8 ∧ Struct.calcsize front = 14) ∧
    Struct.calcsize (front ++ [.H]) = 16 ∧
    back.length = 13 ∧ Struct.calcsize back = 13 :=
  ⟨[.B, .B] ++ List.replicate 6 .H, [.B] ++ List.replicate 12 .b, by decide⟩

/-- The fields that stand in the shown bytes. -/
theorem unpack_shown (h : parseRawdata payload = .ok packet) :
    Struct.unpack shownFormat (shownBytes payload) =
      some ((rawdataFields packet).take 8 ++ ((rawdataFields packet).drop 9).take 13) := by
  have hlen : payload.length = 33 := length_of_parseRawdata h
  obtain ⟨front, back, hshown, hformat, ⟨hfront, hfront'⟩, hmiddle, hback, hback'⟩ := formats_cut
  have htake : (payload.take 14).length = 14 := by rw [List.length_take]; omega
  have hfirst : Struct.readAll front (shownBytes payload) = Struct.readAll front payload := by
    rw [← Struct.readAll_take hfront'.le, shownBytes, List.take_left' htake,
      Struct.readAll_take hfront'.le]
  have hsecond : Struct.readAll back ((shownBytes payload).drop 14) =
      Struct.readAll back (payload.drop 16) := by
    rw [shownBytes, List.drop_left' htake, Struct.readAll_take hback'.le]
  have hfields : rawdataFields packet = (Struct.readAll front payload ++
      Struct.readAll [.H] (payload.drop 14)) ++ (Struct.readAll back (payload.drop 16) ++
        Struct.readAll (List.replicate 4 .b) ((payload.drop 16).drop 13)) := by
    rw [← readAll_of_parseRawdata h, hformat, Struct.readAll_append, Struct.readAll_append,
      Struct.readAll_append, hfront', hmiddle, hback']
  have hcut : (Struct.readAll front payload ++
      Struct.readAll [.H] (payload.drop 14)).length = 9 := by
    rw [List.length_append, Struct.length_readAll, Struct.length_readAll, hfront]
    rfl
  rw [Struct.unpack_of_length, hshown, Struct.readAll_append, hfront', hfirst, hsecond, hfields,
    List.drop_left' hcut, List.take_left' ((Struct.length_readAll _ _).trans hback),
    List.append_assoc, List.take_left' ((Struct.length_readAll _ _).trans hfront)]
  rw [shownBytes, List.length_append, htake, List.length_take, List.length_drop, hlen]
  decide

theorem zipWith_readSound {sound : List ℤ} (h : ∀ value ∈ sound, -128 ≤ value ∧ value < 128) :
    List.zipWith (fun read value => read value) (List.replicate sound.length readSound)
      (sound.map soundText) = sound := by
  induction sound with
  | nil => rfl
  | cons value sound ih =>
    rw [List.length_cons, List.replicate_succ, List.map_cons, List.zipWith_cons_cons,
      readSound_soundText (h value List.mem_cons_self),
      ih fun v hv => h v (List.mem_cons_of_mem _ hv)]

/-- Reading the row of an event gives its time and the bytes that are shown of its payload. -/
theorem readRow_rowFor {host : Host} {event : RawDataEvent} {row : List Str}
    (hparse : parseRawdata event.payload = .ok event.packet) (h : rowFor host event = .ok row) :
    ∃ reading, readRow row = some reading ∧ ReadsAs host event reading := by
  have hrange := inRange_of_parseRawdata hparse
  have hpack := Struct.pack_eq_some_iff.mpr (unpack_shown hparse)
  unfold rowFor at h
  cases hnow : host.fromtimestamp event.timestamp with
  | error exc => rw [hnow] at h; cases h
  | ok now =>
    rw [hnow] at h
    obtain rfl := Except.ok.inj h
    refine ⟨(now.timeText, shownBytes event.payload), ?_, ⟨by rw [hnow]; rfl, rfl⟩⟩
    obtain ⟨raw, hraw, hraw₀, _⟩ := hrange.temperatureC
    have hfloor : (event.packet.temperatureC * 100).floor = raw := by simp [hraw]
    have hclasses : soundClasslist.length = 12 := rfl
    have htwelve : (event.packet.sound.take 12).length = 12 := by
      rw [List.length_take, hrange.sound.1]
      rfl
    have hshown : ∀ value ∈ event.packet.sound.take 12, -128 ≤ value ∧ value < 128 := by
      intro value hvalue
      exact hrange.sound.2 value (List.mem_of_mem_take hvalue)
    have hsound := zipWith_readSound hshown
    have hfields : (rawdataFields event.packet).take 8 ++
        ((rawdataFields event.packet).drop 9).take 13 = [event.packet.flagHumanPresence,
          event.packet.detected, event.packet.flagEnv, raw, event.packet.humidity,
          event.packet.iaq, event.packet.eco2, event.packet.bvoc, event.packet.flagSound] ++
            event.packet.sound.take 12 := by
      rw [← hfloor]
      rfl
    rw [htwelve] at hsound
    rw [hfields] at hpack
    simp only [hclasses, htwelve, Nat.sub_self, List.replicate_zero, List.append_nil,
      List.cons_append, List.nil_append, readRow, columnReaders, List.zipWith_cons_cons, hsound,
      readNat_intText hrange.flagHumanPresence.1, readNat_intText hrange.detected.1,
      readNat_intText hrange.flagEnv.1, hraw, readHundredths_fixed2 hraw₀,
      readNat_intText hrange.humidity.1, readNat_intText hrange.iaq.1,
      readNat_intText hrange.eco2.1, readNat_intText hrange.bvoc.1,
      readNat_intText hrange.flagSound.1]
    simp only [List.cons_append, List.nil_append] at hpack
    rw [hpack]
    rfl

/-! ### Files -/

/-- What a reader of a file gets: the readings of the lines below the header. -/
def readFile (bytes : Bytes) : Option (List (Str × Bytes)) := do
  let text ← utf8Decode bytes
  (readCsv text).tail.mapM readRow

theorem HoldsRows.readFile {fs : FS} {file : Files.Path} {rows : List (List Str)}
    (h : HoldsRows fs file rows) : readFile (fs.content file) = rows.mapM readRow := by
  rw [Logging.readFile, utf8Decode_utf8Encode h.text]
  cases hrows : rows with
  | nil => rfl
  | cons row rows' =>
    change (readCsv (csvText (row :: rows'))).tail.mapM readRow = _
    rw [← hrows, readCsv_csvText (hrows ▸ List.cons_ne_nil _ _) h.isRow, List.tail_cons]

/-- The rows of events are read as these events. -/
theorem mapM_readRow {host : Host} {events : List RawDataEvent} {rows : List (List Str)}
    (hparse : ∀ event ∈ events, parseRawdata event.payload = .ok event.packet)
    (h : List.Forall₂ (fun event row => rowFor host event = .ok row) events rows) :
    ∃ readings, rows.mapM readRow = some readings ∧
      List.Forall₂ (ReadsAs host) events readings := by
  induction h with
  | nil => exact ⟨[], rfl, .nil⟩
  | @cons event row events rows hrow _ ih =>
    obtain ⟨reading, hread, has⟩ := readRow_rowFor (hparse event List.mem_cons_self) hrow
    obtain ⟨readings, hreadings, hall⟩ := ih fun e he => hparse e (List.mem_cons_of_mem _ he)
    refine ⟨reading :: readings, ?_, .cons has hall⟩
    rw [List.mapM_cons, hread, hreadings]
    rfl

theorem map_bytes {host : Host} {events : List RawDataEvent} {readings : List (Str × Bytes)}
    (h : List.Forall₂ (ReadsAs host) events readings) :
    readings.map Prod.snd = events.map fun event => shownBytes event.payload := by
  induction h with
  | nil => rfl
  | cons hfirst _ ih => rw [List.map_cons, List.map_cons, hfirst.bytes, ih]

end SlimHub.Logging

namespace SlimHub
open Text Nus Ble Asyncio Logging

/-! ### Every run -/

/-- The frame was parsed from bytes. -/
def Nus.ParsedFrame.Parsed (frame : ParsedFrame) : Prop := ∃ data, parseFrame data = .ok frame

/-- The packet of a RAWDATA frame is what its payload is decoded to. -/
theorem Nus.ParsedFrame.Parsed.rawData {frame : ParsedFrame} {packet : RawDataPacket}
    (h : frame.Parsed) (hraw : frame.parsed = .rawData packet) :
    parseRawdata frame.payload = .ok packet := by
  obtain ⟨data, hdata⟩ := h
  rcases parseFrame_cases data with ⟨mb, tb, p, hs, rfl⟩ | ⟨exc, herror, _⟩
  · rw [parseFrame_frameBytes hs, parseBody] at hdata
    cases hdecode : asciiDecode (rstripNul tb) with
    | none => rw [hdecode] at hdata; cases hdata
    | some packetType =>
      rw [hdecode] at hdata
      dsimp only at hdata
      split_ifs at hdata
      · cases hpacket : parseRawdata p with
        | error exc => rw [hpacket] at hdata; cases hdata
        | ok parsed =>
          rw [hpacket] at hdata
          obtain rfl := Except.ok.inj hdata
          exact hpacket.trans (congrArg Except.ok (Parsed.rawData.inj hraw))
      · obtain rfl := Except.ok.inj hdata
        cases hraw
  · rw [herror] at hdata
    cases hdata

theorem parsed_of_onFrameCalls {address : Str} {assembler : FrameAssembler} {data : Bytes}
    {frame : ParsedFrame} (h : frame ∈ onFrameCalls (handleNotify address assembler data).2.1) :
    frame.Parsed := by
  rw [handleNotify, handleFrames_eq, onFrameCalls_report, accepted, List.mem_filterMap] at h
  obtain ⟨bytes, _, hparsed⟩ := h
  cases hframe : parseFrame bytes with
  | error exc => rw [hframe] at hparsed; cases hparsed
  | ok parsed =>
    rw [hframe] at hparsed
    exact ⟨bytes, Option.some.inj hparsed ▸ hframe⟩

/-- Frames come only from bytes. -/
def AllParsed (s : Station) : Prop := ∀ task ∈ s.history.completed, task.frame.Parsed

theorem allParsed_callback (w : Writer) (cb : Callback) (s : Station) (h : AllParsed s) :
    AllParsed (callback w cb s).1 := by
  cases cb with
  | notify connection data =>
    rw [callback, notified]
    cases s.connections[connection]? with
    | none => exact h
    | some entry =>
      dsimp only
      cases s.central.sessions[entry.1]? with
      | none => exact h
      | some session =>
        intro task htask
        rcases List.mem_append.mp htask with htask | htask
        · exact h task htask
        · obtain ⟨frame, hframe, rfl⟩ := List.mem_map.mp htask
          exact parsed_of_onFrameCalls hframe
  | client line => cases line <;> exact h
  | _ => exact h

section
variable {interp : Interpreter} {configStore : DeviceConfigStore} {hubConfigStore : HubConfigStore}
  {disk : Files.FS} {times : ℕ → ℚ} {awaitsClients : Bool} {unlinkError : Option PyError}
  {address : Option Str} {scan : Bool} {events : List (Event Answer Callback)}
  {L : Loop Station Point PyError Answer}

/-- An event that was written is one of a frame, with its payload. -/
theorem written_of_frame {host : Host} {paths : AppPaths}
    (hrun : Machine.run (Daemon.loopStep interp (diskWriter host paths)) events
      ((Station.new configStore hubConfigStore disk times awaitsClients unlinkError).launch address
        scan) = some L) {event : RawDataEvent}
    (hevent : LogEvent.rawData event ∈ L.shared.logger.attempts.map Prod.fst) :
    ∃ task ∈ L.shared.history.completed, event.mac = task.frame.mac ∧
      event.payload = task.frame.payload ∧ parseRawdata event.payload = .ok event.packet := by
  have hall : AllParsed L.shared :=
    Loop.run_shared (A := (Station.new configStore hubConfigStore disk times
      awaitsClients unlinkError).launched address scan)
      (fun point s hs => by
        have hdeaf := (Daemon.deaf_body interp (diskWriter host paths) point s).reception
        have hcompleted : ((Daemon.body interp (diskWriter host paths) point).exec
            s).shared.history.completed = s.history.completed :=
          congrArg Reception.completed hdeaf
        rwa [AllParsed, hcompleted])
      (fun cb s => allParsed_callback (diskWriter host paths) cb s) (List.forall_mem_nil _) hrun
  have hmade := (filed_run hrun).once.subset (List.mem_append_left _ hevent)
  obtain ⟨A, rfl, harrived⟩ := arrived_run hrun
  obtain ⟨⟨task, made⟩, hhandled, hok⟩ := List.mem_filterMap.mp hmade
  have htask : task ∈ A.shared.history.completed := by
    rw [harrived.completed]
    exact List.mem_append_left _ (List.mem_map_of_mem hhandled)
  obtain ⟨store, timestamp, hof⟩ := harrived.inOrder.made _ hhandled
  dsimp only at hof hok
  rw [hof] at hok
  cases hconfig : ((ConfigWrite.framed task.frame.mac).apply interp store).2 with
  | error exc => rw [hconfig] at hok; cases hok
  | ok config =>
    rw [hconfig] at hok
    have heq := Option.some.inj hok
    unfold Daemon.eventOf at heq
    cases hparsed : task.frame.parsed with
    | alert packet => rw [hparsed] at heq; cases heq
    | rawData packet =>
      rw [hparsed] at heq
      obtain rfl := LogEvent.rawData.inj heq
      exact ⟨task, htask, rfl, rfl, (hall task htask).rawData hparsed⟩

end

theorem mem_eventsAt {host : Host} {paths : AppPaths} {file : Files.Path}
    {attempts : List (LogEvent × Option PyError)} {event : RawDataEvent}
    (h : event ∈ eventsAt host paths file attempts) :
    LogEvent.rawData event ∈ attempts.map Prod.fst := by
  induction attempts with
  | nil => cases h
  | cons call attempts ih =>
    rw [eventsAt_cons] at h
    rcases List.mem_append.mp h with hfirst | hrest
    · obtain ⟨_ | other, _ | _⟩ := call
      · simp only [eventsAt] at hfirst
        split at hfirst
        · rw [List.mem_singleton.mp hfirst]
          exact List.mem_cons_self
        · cases hfirst
      · cases hfirst
      · cases hfirst
      · cases hfirst
    · exact List.mem_cons_of_mem _ (ih hrest)

/-- CORRECT: what nodes report can be read in the files. In every run in which the system refused no
    write, a reader of a rawdata file that held readable rows gets these, and then, for each event
    written to it, the second of the event and the bytes of its payload but for the accuracy and the
    last four sound classes; and the payload is that of a frame from a node with the event's MAC.
    (The path has the text of a config's type or location that is no string.) -/
theorem rawdata_reads_back (interp : Interpreter) (host : Host) (paths : AppPaths)
    (configStore : DeviceConfigStore) (hubConfigStore : HubConfigStore) (disk : Files.FS)
    (times : ℕ → ℚ) (awaitsClients : Bool) (unlinkError : Option PyError) (address : Option Str)
    (scan : Bool) (events : List (Event Answer Callback)) (L : Loop Station Point PyError Answer)
    (hrun : Machine.run (Daemon.loopStep interp (diskWriter host paths)) events
      ((Station.new configStore hubConfigStore disk times awaitsClients unlinkError).launch address
        scan) = some L) (hnone : NoneRefused L.shared.logger.attempts) {event : RawDataEvent}
    {file : Files.Path} (hfile : fileOf host paths event = some file) {rows : List (List Str)}
    (hrows : HoldsRows disk file rows) {before : List (Str × Bytes)}
    (hbefore : rows.mapM readRow = some before) :
    (∃ readings, readFile (L.shared.logger.disk.content file) = some (before ++ readings) ∧
      List.Forall₂ (ReadsAs host) (eventsAt host paths file L.shared.logger.attempts) readings) ∧
    ∀ written ∈ eventsAt host paths file L.shared.logger.attempts,
      ∃ task ∈ L.shared.history.completed,
        written.mac = task.frame.mac ∧ written.payload = task.frame.payload := by
  refine ⟨?_, fun written hwritten => ?_⟩
  · obtain ⟨more, hmore, hholds⟩ := (filed_run hrun).disk.rows hnone event file rows hfile hrows
    obtain ⟨readings, hreadings, hall⟩ := mapM_readRow (fun written hwritten => by
      obtain ⟨_, _, _, _, hparse⟩ := written_of_frame hrun (mem_eventsAt hwritten)
      exact hparse) hmore
    refine ⟨readings, ?_, hall⟩
    rw [hholds.readFile, List.mapM_append, hbefore, hreadings]
    rfl
  · obtain ⟨task, htask, hmac, hpayload, _⟩ := written_of_frame hrun (mem_eventsAt hwritten)
    exact ⟨task, htask, hmac, hpayload⟩

/-- Two frames are handled and written: a reader gets what the node sent, twice. -/
theorem reportTwice_reads_back : ∃ L,
    Machine.run (Daemon.loopStep freshInterpreter (diskWriter someHost somePaths))
      (reportTwice ++ [.call (.logWorker 0)]) (freshStation.launch none false) = some L ∧
    ∃ readings, readFile (L.shared.logger.disk.content reportedFile) = some readings ∧
      readings.map Prod.snd = [shownBytes pirPayload, shownBytes pirPayload] := by
  have hstate : (Machine.run (Daemon.loopStep freshInterpreter (diskWriter someHost somePaths))
      (reportTwice ++ [.call (.logWorker 0)]) (freshStation.launch none false)).map (fun L => decide
        (NoRaise L.shared.logger.attempts ∧ (eventsAt someHost somePaths reportedFile
          L.shared.logger.attempts).map (fun event => shownBytes event.payload) =
            [shownBytes pirPayload, shownBytes pirPayload])) = some true := by
    decide +kernel
  have hfile : fileOf someHost somePaths (eventIn "" 0) = some reportedFile := by decide +kernel
  obtain ⟨L, hrun, hfacts⟩ := Option.map_eq_some_iff.mp hstate
  obtain ⟨hno, hshown⟩ := of_decide_eq_true hfacts
  have hnone : NoneRefused L.shared.logger.attempts := by
    intro call hcall exc hexc
    rw [hno call hcall] at hexc
    cases hexc
  obtain ⟨⟨readings, hread, hall⟩, _⟩ := rawdata_reads_back freshInterpreter someHost somePaths _ _
    _ _ _ _ _ _ _ L hrun hnone hfile ⟨List.forall_mem_nil _, rfl⟩ rfl
  exact ⟨L, hrun, readings, hread, (map_bytes hall).trans hshown⟩

end SlimHub
