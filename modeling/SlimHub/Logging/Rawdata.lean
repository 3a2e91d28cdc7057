import SlimHub.Logging.Delivery
import SlimHub.Logging.Layout

/-! What the rawdata files hold.

        time,GridEye,Direction, … ,SOUND,background, …      the header line, when the file is new
        2025-01-01 08:00:00,1,0, … ,1,0.5, …                one row for each event
        …

    Every write reads off the file whether it needs the header, so the files may be visited in any
    order: what is preserved by each write is that a file is empty, or the header and rows. -/

namespace SlimHub.Logging
open Text Nus Files

/-! ### Rows -/

/-- A character that the `csv` module would quote a value for. -/
def needsQuotes (c : CodePoint) : Bool :=
  c.val = 0x2C ∨ c.val = 0x22 ∨ c.val = 0x0D ∨ c.val = 0x0A

/-- A row of a rawdata file: a value for each column, none of which needs quotes, and not the
    header. -/
structure IsRow (row : List Str) : Prop where
  width : row.length = csvFields.length
  plain : ∀ value ∈ row, ∀ c ∈ value, needsQuotes c = false
  ne_header : row ≠ csvFields

/-- The characters of a value: a digit, `-`, a point, a colon, a space. -/
def isValueChar (c : CodePoint) : Bool :=
  isDigit c ∨ c.val = 0x2D ∨ c.val = 0x2E ∨ c.val = 0x3A ∨ c.val = 0x20

theorem needsQuotes_of_isValueChar {c : CodePoint} (h : isValueChar c = true) :
    needsQuotes c = false := by
  refine decide_eq_false ?_
  rcases of_decide_eq_true h with hdigit | hval
  · have hval := of_decide_eq_true hdigit
    omega
  · omega

theorem isValueChar_padded {width n : ℕ} {c : CodePoint} (h : c ∈ padded width n) :
    isValueChar c = true :=
  decide_eq_true (.inl (isDigit_of_mem_padded h))

theorem isValueChar_natText {n : ℕ} {c : CodePoint} (h : c ∈ natText n) : isValueChar c = true :=
  decide_eq_true (.inl (isDigit_of_mem_natText h))

theorem isValueChar_separator {d c : CodePoint} (h : c ∈ [d]) (hd : isValueChar d = true) :
    isValueChar c = true :=
  List.mem_singleton.mp h ▸ hd

theorem isValueChar_timeText {now : DateTime} {c : CodePoint} (h : c ∈ now.timeText) :
    isValueChar c = true := by
  simp only [DateTime.timeText, DateTime.dateText, List.mem_append] at h
  rcases h with ((((((((((h | h) | h) | h) | h) | h) | h) | h) | h) | h) | h)
  all_goals first
    | exact isValueChar_padded h
    | exact isValueChar_separator h (by decide)

theorem isValueChar_intText {n : ℤ} {c : CodePoint} (h : c ∈ intText n) : isValueChar c = true := by
  unfold intText at h
  split at h
  · rcases List.mem_cons.mp h with rfl | h
    · decide
    · exact isValueChar_natText h
  · exact isValueChar_natText h

theorem isValueChar_sign {P : Prop} [Decidable P] {c : CodePoint}
    (h : c ∈ if P then str "-" else []) : isValueChar c = true := by
  split at h
  · exact isValueChar_separator h (by decide)
  · cases h

theorem isValueChar_fixed2 {q : ℚ} {c : CodePoint} (h : c ∈ fixed2 q) : isValueChar c = true := by
  simp only [fixed2, List.mem_append] at h
  rcases h with ((h | h) | h) | h
  · exact isValueChar_sign h
  · exact isValueChar_natText h
  · exact isValueChar_separator h (by decide)
  · exact isValueChar_padded h

theorem isValueChar_soundText {value : ℤ} {c : CodePoint} (h : c ∈ soundText value) :
    isValueChar c = true := by
  simp only [soundText, List.mem_append] at h
  rcases h with ((h | h) | h) | h
  · exact isValueChar_sign h
  · exact isValueChar_natText h
  · exact isValueChar_separator h (by decide)
  · split at h
    · exact isValueChar_separator h (by decide)
    · exact isValueChar_padded ((List.rdropWhile_prefix _ _).subset h)

/-- The row of an event. -/
theorem isRow_of_rowFor {host : Host} {event : RawDataEvent} {row : List Str}
    (h : rowFor host event = .ok row) : IsRow row := by
  unfold rowFor at h
  cases hnow : host.fromtimestamp event.timestamp with
  | error exc => rw [hnow] at h; cases h
  | ok now =>
    rw [hnow] at h
    obtain rfl := Except.ok.inj h
    refine ⟨?_, fun value hvalue c hc => needsQuotes_of_isValueChar ?_, fun heq => ?_⟩
    · have hclasses : soundClasslist.length = 12 := rfl
      have hfields : csvFields.length = 22 := rfl
      simp only [List.length_append, List.length_map, List.length_take, List.length_replicate,
        List.length_cons, List.length_nil, hclasses, hfields]
      omega
    · revert c hc
      revert value
      simp only [List.forall_mem_append, List.forall_mem_cons, List.forall_mem_map]
      refine ⟨⟨fun _ => isValueChar_timeText, fun _ => isValueChar_intText,
        fun _ => isValueChar_intText, fun _ => isValueChar_intText, fun _ => isValueChar_fixed2,
        fun _ => isValueChar_intText, fun _ => isValueChar_intText, fun _ => isValueChar_intText,
        fun _ => isValueChar_intText, fun _ => isValueChar_intText, by simp⟩,
        ⟨fun _ _ _ => isValueChar_soundText, fun _ _ _ => isValueChar_soundText⟩⟩
    · -- no letter stands in a time
      have htime : now.timeText = str "time" := (List.cons.inj heq).1
      have hletter : chr 't' ∈ now.timeText := by
        rw [htime]
        decide
      exact absurd (isValueChar_timeText hletter) (by decide)

/-! ### Texts -/

/-- The text of a rawdata file with these rows. -/
def csvText : List (List Str) → Str
  | [] => []
  | rows => csvLine csvFields ++ (rows.map csvLine).flatten

theorem csvText_append (rows : List (List Str)) (row : List Str) :
    csvText (rows ++ [row]) =
      csvText rows ++ ((if rows = [] then csvLine csvFields else []) ++ csvLine row) := by
  cases rows with
  | nil =>
    simp only [List.nil_append, csvText, if_true, List.map_cons, List.map_nil, List.flatten_cons,
      List.flatten_nil, List.append_nil]
  | cons r rows =>
    simp only [List.cons_append, csvText, if_neg (List.cons_ne_nil _ _), List.nil_append,
      List.map_cons, List.map_append, List.map_nil, List.flatten_cons, List.flatten_append,
      List.flatten_nil, List.append_nil, List.append_assoc]

theorem csvText_eq_nil {rows : List (List Str)} : csvText rows = [] ↔ rows = [] := by
  constructor
  · intro h
    cases rows with
    | nil => rfl
    | cons r rows => simp [csvText, csvLine] at h
  · rintro rfl
    rfl

/-- The values that a reader of the file gets: lines end with CR LF, values are between commas. -/
def readCsv (text : Str) : List (List Str) :=
  (text.splitOn 0x0A).dropLast.map fun line => line.dropLast.splitOn (chr ',')

theorem readCsv_line {row : List Str} (h : row ≠ [])
    (hplain : ∀ value ∈ row, ∀ c ∈ value, needsQuotes c = false) (text : Str) :
    readCsv (csvLine row ++ text) = row :: readCsv text := by
  have hcomma : ∀ value ∈ row, chr ',' ∉ value := fun value hvalue hc =>
    absurd (hplain value hvalue _ hc) (by decide)
  have hline : (0x0A : CodePoint) ∉ (str ",").intercalate row ++ [0x0D] := by
    intro hmem
    rcases List.mem_append.mp hmem with hmem | hmem
    · rcases mem_of_mem_intercalate hmem with hsep | ⟨value, hvalue, hc⟩
      · exact absurd (List.mem_singleton.mp hsep) (by decide)
      · exact absurd (hplain value hvalue _ hc) (by decide)
    · exact absurd (List.mem_singleton.mp hmem) (by decide)
  have hsplit : (csvLine row ++ text).splitOn 0x0A =
      ((str ",").intercalate row ++ [0x0D]) :: text.splitOn 0x0A := by
    have hcsv : csvLine row ++ text =
        ((str ",").intercalate row ++ [0x0D]) ++ 0x0A :: text := by simp [csvLine]
    rw [hcsv, List.splitOn_append_cons_self_of_not_mem hline]
  have hvalues : ((str ",").intercalate row).splitOn (chr ',') = row :=
    List.splitOn_intercalate (chr ',') hcomma h
  rw [readCsv, hsplit, List.dropLast_cons_of_ne_nil (List.splitOn_ne_nil _ _), List.map_cons,
    List.dropLast_concat, hvalues, readCsv]

/-- Reading the text gives the header and the rows. -/
theorem readCsv_csvText {rows : List (List Str)} (hne : rows ≠ []) (h : ∀ row ∈ rows, IsRow row) :
    readCsv (csvText rows) = csvFields :: rows := by
  have hall : csvFields.all (·.all (!needsQuotes ·)) = true := by decide
  have hheader : ∀ value ∈ csvFields, ∀ c ∈ value, needsQuotes c = false := by
    intro value hvalue c hc
    simpa using List.all_eq_true.mp (List.all_eq_true.mp hall value hvalue) c hc
  have hrows : readCsv (rows.map csvLine).flatten = rows := by
    clear hne
    induction rows with
    | nil => rfl
    | cons row rows ih =>
      have hrow := h row List.mem_cons_self
      have hnil : row ≠ [] := by
        rintro rfl
        exact absurd hrow.width (by decide)
      rw [List.map_cons, List.flatten_cons, readCsv_line hnil hrow.plain,
        ih fun r hr => h r (List.mem_cons_of_mem _ hr)]
  cases rows with
  | nil => exact absurd rfl hne
  | cons row rows =>
    rw [csvText, readCsv_line (by decide) hheader, hrows]
    exact List.cons_ne_nil _ _

/-! ### Files -/

/-- A file that is empty or absent, if there are no rows, or the header line and these rows. -/
structure HoldsRows (fs : FS) (file : Files.Path) (rows : List (List Str)) : Prop where
  isRow : ∀ row ∈ rows, IsRow row
  text : utf8Encode (csvText rows) = some (fs.content file)

theorem HoldsRows.congr {fs fs' : FS} {file : Files.Path} {rows : List (List Str)}
    (h : HoldsRows fs file rows) (hcontent : fs'.content file = fs.content file) :
    HoldsRows fs' file rows :=
  ⟨h.isRow, hcontent ▸ h.text⟩

/-- No bytes, no rows. -/
theorem HoldsRows.content_eq_nil {fs : FS} {file : Files.Path} {rows : List (List Str)}
    (h : HoldsRows fs file rows) : fs.content file = [] ↔ rows = [] := by
  constructor
  · intro hnil
    have hdecode := utf8Decode_utf8Encode h.text
    rw [hnil] at hdecode
    exact csvText_eq_nil.mp (Option.some.inj hdecode).symm
  · rintro rfl
    exact (Option.some.inj h.text).symm

/-- A row goes below what the file holds. -/
theorem HoldsRows.gain {host : Host} {event : RawDataEvent} {fs fs' : FS} {file : Files.Path}
    {rows : List (List Str)} {bytes : Bytes} (h : HoldsRows fs file rows)
    (hgain : RowGain host event (fs.content file) bytes)
    (hfile : fs'.file? file = some (fs.content file ++ bytes)) :
    ∃ row, rowFor host event = .ok row ∧ HoldsRows fs' file (rows ++ [row]) := by
  obtain ⟨row, hrow, hbytes⟩ := hgain
  refine ⟨row, hrow, ?_, ?_⟩
  · intro r hr
    rcases List.mem_append.mp hr with hr | hr
    · exact h.isRow r hr
    · rw [List.mem_singleton.mp hr]
      exact isRow_of_rowFor hrow
  · simp only [h.content_eq_nil] at hbytes
    have hcontent : fs'.content file = fs.content file ++ bytes := by
      rw [FS.content, hfile]
      rfl
    rw [csvText_append, utf8Encode_append, h.text, hbytes, hcontent]
    rfl

/-! ### Calls -/

/-- Calls of `write_event` and `write_alert` one after another, each with what it raised. -/
def perform (w : Writer) : List LogEvent → FS → List (LogEvent × Option PyError) × FS
  | [], disk => ([], disk)
  | event :: events, disk =>
    let r := w.write event disk
    let rest := perform w events r.2
    ((event, r.1) :: rest.1, rest.2)

/-- The events that were written to a rawdata file. -/
def eventsAt (host : Host) (paths : AppPaths) (file : Files.Path) :
    List (LogEvent × Option PyError) → List RawDataEvent
  | [] => []
  | (.rawData event, none) :: calls =>
    if fileOf host paths event = some file then event :: eventsAt host paths file calls
    else eventsAt host paths file calls
  | _ :: calls => eventsAt host paths file calls

section
variable {host : Host} {paths : AppPaths} {file : Files.Path}

/-- An alert leaves a rawdata file as it was. -/
theorem write_alert_file? {event : RawDataEvent} (hfile : fileOf host paths event = some file)
    (alert : AlertEvent) (fs : FS) :
    ((diskWriter host paths).write (.alert alert) fs).2.file? file = fs.file? file := by
  refine (write_alert host paths alert fs).elsewhere fun halert => ?_
  exact alertFileOf_ne_fileOf hfile halert rfl

/-- A rawdata event leaves an alert file as it was. -/
theorem write_rawData_file? {alert : AlertEvent} (hfile : alertFileOf host paths alert = some file)
    (event : RawDataEvent) (fs : FS) :
    ((diskWriter host paths).write (.rawData event) fs).2.file? file = fs.file? file := by
  refine (write_rawData host paths event fs).elsewhere fun hevent => ?_
  exact alertFileOf_ne_fileOf hevent hfile rfl

/-- A call that raised no `OSError` leaves a rawdata file with its rows, and with one more if the
    call wrote an event to it. -/
theorem holdsRows_write {call : LogEvent} {fs : FS} {rows : List (List Str)}
    {event₀ : RawDataEvent} (hfile : fileOf host paths event₀ = some file)
    (hno : ∀ exc, ((diskWriter host paths).write call fs).1 = some exc → exc.cls ≠ .osError)
    (h : HoldsRows fs file rows) :
    ∃ more, List.Forall₂ (fun event row => rowFor host event = .ok row)
        (eventsAt host paths file [(call, ((diskWriter host paths).write call fs).1)]) more ∧
      HoldsRows ((diskWriter host paths).write call fs).2 file (rows ++ more) := by
  have hkeep : ∀ {fs' : FS}, fs'.content file = fs.content file → HoldsRows fs' file (rows ++ []) :=
    fun hcontent => (List.append_nil rows).symm ▸ h.congr hcontent
  cases call with
  | alert alert =>
    refine ⟨[], .nil, hkeep ?_⟩
    rw [FS.content, write_alert_file? hfile, FS.content]
  | rawData event =>
    have hwrite := write_rawData host paths event fs
    revert hno hwrite
    generalize (diskWriter host paths).write (.rawData event) fs = written
    intro hno hwrite
    by_cases hevent : fileOf host paths event = some file
    · rw [hevent] at hwrite
      rcases written with ⟨_ | exc, fs'⟩
      · obtain ⟨bytes, hgain, hafter⟩ := hwrite.gained () rfl
        obtain ⟨row, hrow, hholds⟩ := h.gain hgain hafter
        refine ⟨[row], ?_, hholds⟩
        rw [eventsAt, if_pos hevent]
        exact .cons hrow .nil
      · exact ⟨[], .nil, hkeep (hwrite.spared exc rfl (hno exc rfl))⟩
    · have hnone : eventsAt host paths file [(.rawData event, written.1)] = [] := by
        cases hraised : written.1 with
        | none => rw [eventsAt, if_neg hevent, eventsAt]
        | some exc => rw [eventsAt, eventsAt]; rintro _ ⟨⟩
      refine ⟨[], hnone ▸ .nil, hkeep ?_⟩
      rw [FS.content, hwrite.elsewhere hevent, FS.content]

theorem eventsAt_cons (call : LogEvent × Option PyError)
    (calls : List (LogEvent × Option PyError)) :
    eventsAt host paths file (call :: calls) =
      eventsAt host paths file [call] ++ eventsAt host paths file calls := by
  obtain ⟨_ | _, _ | _⟩ := call <;> simp only [eventsAt, List.nil_append]
  split <;> rfl

theorem holdsRows_perform {calls : List LogEvent} {fs : FS} {rows : List (List Str)}
    {event₀ : RawDataEvent} (hfile : fileOf host paths event₀ = some file)
    (hno : ∀ call ∈ (perform (diskWriter host paths) calls fs).1, ∀ exc, call.2 = some exc →
      exc.cls ≠ .osError)
    (h : HoldsRows fs file rows) :
    ∃ more, List.Forall₂ (fun event row => rowFor host event = .ok row)
        (eventsAt host paths file (perform (diskWriter host paths) calls fs).1) more ∧
      HoldsRows (perform (diskWriter host paths) calls fs).2 file (rows ++ more) := by
  induction calls generalizing fs rows with
  | nil => exact ⟨[], .nil, (List.append_nil rows).symm ▸ h⟩
  | cons call calls ih =>
    simp only [perform, List.forall_mem_cons] at hno ⊢
    obtain ⟨first, hfirst, hheld⟩ := holdsRows_write hfile hno.1 h
    obtain ⟨more, hmore, hholds⟩ := ih hno.2 hheld
    refine ⟨first ++ more, ?_, List.append_assoc rows first more ▸ hholds⟩
    rw [eventsAt_cons]
    exact List.rel_append hfirst hmore

/-- CORRECT: rawdata files are one header plus the events. After any calls of which none raised an
    `OSError`, a rawdata file that was absent, empty or the logger's own holds the rows it held and
    one more for each event that was written to it, in order, below one header line if there is a
    row at all; every row has a value for each column. No alert changes a rawdata file, and no
    rawdata event changes an alert file. -/
theorem rawdata_files (host : Host) (paths : AppPaths) (calls : List LogEvent) (fs : FS)
    (hno : ∀ call ∈ (perform (diskWriter host paths) calls fs).1, ∀ exc, call.2 = some exc →
      exc.cls ≠ .osError) :
    (∀ event file rows, fileOf host paths event = some file → HoldsRows fs file rows →
      ∃ more, List.Forall₂ (fun event row => rowFor host event = .ok row)
          (eventsAt host paths file (perform (diskWriter host paths) calls fs).1) more ∧
        HoldsRows (perform (diskWriter host paths) calls fs).2 file (rows ++ more) ∧
        (rows ++ more ≠ [] → ∃ text,
          utf8Decode ((perform (diskWriter host paths) calls fs).2.content file) = some text ∧
            readCsv text = csvFields :: (rows ++ more) ∧ csvFields ∉ rows ++ more)) ∧
      (∀ event file alert fs, fileOf host paths event = some file →
        ((diskWriter host paths).write (.alert alert) fs).2.file? file = fs.file? file) ∧
      ∀ alert file event fs, alertFileOf host paths alert = some file →
        ((diskWriter host paths).write (.rawData event) fs).2.file? file = fs.file? file := by
  refine ⟨fun event file rows hfile hrows => ?_, fun event file alert fs hfile =>
    write_alert_file? hfile alert fs, fun alert file event fs hfile =>
    write_rawData_file? hfile event fs⟩
  obtain ⟨more, hmore, hholds⟩ := holdsRows_perform hfile hno hrows
  refine ⟨more, hmore, hholds, fun hne => ⟨_, utf8Decode_utf8Encode hholds.text,
    readCsv_csvText hne hholds.isRow, fun hmem => (hholds.isRow _ hmem).ne_header rfl⟩⟩

end

/-- An event of a device in a room. -/
def eventIn (location : String) (humidity : ℤ) : RawDataEvent :=
  { timestamp := 0, mac := str "aabbccddeeff", location := str location, payload := [],
    packet := ⟨1, 0, 1, 43 / 2, humidity, 3, 500, 2, 1, 1, [-128, 0, 127], false⟩ }

/-- The files of two rooms in turn, with alerts between them. -/
def twoRooms : List LogEvent :=
  [.rawData (eventIn "kitchen" 40), alertOf "ready", .rawData (eventIn "" 41),
    .rawData (eventIn "kitchen" 42), alertOf "door"]

/-- No call raises, and the kitchen's new file gets its two rows. -/
theorem rawdata_files_twoRooms :
    ∃ rows, rows.length = 2 ∧
      HoldsRows (perform (diskWriter someHost somePaths) twoRooms FS.empty).2
        [str "srv", str "data", str "kitchen", str "DEAN_NODE_V2", str "AA:BB:CC:DD:EE:FF",
          str "inference", str "rawdata", str "1970-01-01.txt"] rows := by
  have hall : (perform (diskWriter someHost somePaths) twoRooms FS.empty).1.all (·.2 = none) = true := by
    decide +kernel
  have hno : ∀ call ∈ (perform (diskWriter someHost somePaths) twoRooms FS.empty).1,
      ∀ exc, call.2 = some exc → exc.cls ≠ .osError := by
    intro call hcall exc hexc
    have hnone := of_decide_eq_true (List.all_eq_true.mp hall call hcall)
    rw [hnone] at hexc
    cases hexc
  have hfile : fileOf someHost somePaths (eventIn "kitchen" 40) =
      some [str "srv", str "data", str "kitchen", str "DEAN_NODE_V2", str "AA:BB:CC:DD:EE:FF",
        str "inference", str "rawdata", str "1970-01-01.txt"] := by
    decide +kernel
  obtain ⟨rows, hrows, hholds, _⟩ :=
    (rawdata_files someHost somePaths twoRooms FS.empty hno).1 _ _ [] hfile ⟨nofun, rfl⟩
  refine ⟨rows, ?_, hholds⟩
  rw [← hrows.length_eq]
  decide +kernel

end SlimHub.Logging
