import SlimHub.Lib.Paths
import SlimHub.Logging.Worker
import SlimHub.Protocol.Mac

/-! Where the files of a device lie, and what a write changes.

        data / location / type  /  MAC / inference / rawdata | debugstr / day.txt
        └─── deviceFolder ───┘     └──────────── one name each ───────────────┘

    The location and the type are joined as they are: each may be several names, lead up, or start
    at the root. Whatever they are, a write changes the file of its event and no other. -/

namespace SlimHub.Logging
open Text Nus Files

/-! ### Names -/

theorem isName_of_not_mem {s : Str} (hslash : slash ∉ s) (hlen : 3 ≤ s.length) : IsName s where
  ne_nil := by
    rintro rfl
    exact absurd hlen (by decide)
  no_slash := hslash
  ne_dot := by
    rintro rfl
    exact absurd hlen (by decide)
  ne_dotdot := by
    rintro rfl
    exact absurd hlen (by decide)

theorem slash_not_mem_padded (width n : ℕ) : slash ∉ padded width n := by
  intro h
  exact absurd (isDigit_of_mem_padded h) (by decide)

/-- The name of a day's file. -/
theorem isName_day (now : DateTime) : IsName (now.dateText ++ str ".txt") := by
  have hdash : slash ∉ str "-" := by decide
  have htxt : slash ∉ str ".txt" := by decide
  refine isName_of_not_mem ?_ ?_
  · simp only [DateTime.dateText, List.mem_append, not_or]
    exact ⟨⟨⟨⟨⟨slash_not_mem_padded 4 _, hdash⟩, slash_not_mem_padded 2 _⟩, hdash⟩,
      slash_not_mem_padded 2 _⟩, htxt⟩
  · have hlen : (str ".txt").length = 4 := rfl
    rw [List.length_append, hlen]
    omega

theorem isName_mac {a mac : Str} (h : normalizeMac a = .ok mac) : IsName mac := by
  refine isName_of_not_mem (fun hslash => ?_) (by rw [length_of_normalizeMac h]; decide)
  rcases mem_of_normalizeMac h hslash with hcolon | hhex
  · exact absurd hcolon (by decide)
  · exact absurd hhex (by decide)

theorem isName_inference : IsName (str "inference") :=
  isName_of_not_mem (by decide) (by decide)

theorem isName_rawdata : IsName (str "rawdata") :=
  isName_of_not_mem (by decide) (by decide)

theorem isName_debugstr : IsName (str "debugstr") :=
  isName_of_not_mem (by decide) (by decide)

/-! ### Paths -/

section
variable (host : Host) (paths : AppPaths)

/-- The folder that a location and a type lead to from the data directory. -/
def deviceFolder (location deviceType : Str) : Files.Path :=
  join (join paths.dataDir (orDefault location defaultLocation))
    (orDefault deviceType defaultDeviceType)

/-- The file that a rawdata event goes to. -/
def fileOf (event : RawDataEvent) : Option Files.Path :=
  (pathFor host paths event).toOption.map resolve

/-- The file that an alert goes to. -/
def alertFileOf (event : AlertEvent) : Option Files.Path :=
  (alertPathFor host paths event).toOption.map resolve

variable {host paths}

/-- A path is the device's folder and below it four names. -/
theorem pathIn_ok {folder mac location deviceType : Str} {timestamp : ℚ} {path : Files.Path}
    (hfolder : IsName folder)
    (h : pathIn host paths folder timestamp mac location deviceType = .ok path) :
    ∃ mac' now, normalizeMac mac = .ok mac' ∧ host.fromtimestamp timestamp = .ok now ∧
      path = deviceFolder paths location deviceType ++
        [mac', str "inference", folder, now.dateText ++ str ".txt"] ∧
      ∀ s ∈ [mac', str "inference", folder, now.dateText ++ str ".txt"], IsName s := by
  unfold pathIn at h
  cases hnow : host.fromtimestamp timestamp with
  | error exc => rw [hnow] at h; cases h
  | ok now =>
    cases hmac : normalizeMac mac with
    | error exc => rw [hnow, hmac] at h; cases h
    | ok mac' =>
      rw [hnow, hmac] at h
      obtain rfl := Except.ok.inj h
      have hnames : ∀ s ∈ [mac', str "inference", folder, now.dateText ++ str ".txt"],
          IsName s := by
        simp only [List.forall_mem_cons, List.not_mem_nil, false_implies, implies_true, and_true]
        exact ⟨isName_mac hmac, isName_inference, hfolder, isName_day now⟩
      refine ⟨mac', now, rfl, rfl, ?_, hnames⟩
      rw [List.foldl_cons, List.foldl_cons, deviceFolder]
      exact foldl_join hnames _

theorem resolve_pathIn {folder mac location deviceType : Str} {timestamp : ℚ} {path : Files.Path}
    (hfolder : IsName folder)
    (h : pathIn host paths folder timestamp mac location deviceType = .ok path) :
    ∃ mac' now, normalizeMac mac = .ok mac' ∧ host.fromtimestamp timestamp = .ok now ∧
      resolve path = resolve (deviceFolder paths location deviceType) ++
        [mac', str "inference", folder, now.dateText ++ str ".txt"] := by
  obtain ⟨mac', now, hmac, hnow, rfl, hnames⟩ := pathIn_ok hfolder h
  exact ⟨mac', now, hmac, hnow, resolve_append_names hnames _⟩

/-- The folder of a path is the one above where the path leads. -/
theorem resolve_parent_pathIn {folder mac location deviceType : Str} {timestamp : ℚ}
    {path : Files.Path} (hfolder : IsName folder)
    (h : pathIn host paths folder timestamp mac location deviceType = .ok path) :
    resolve (Files.parent path) = (resolve path).dropLast := by
  obtain ⟨mac', now, _, _, rfl, hnames⟩ := pathIn_ok hfolder h
  have hparent : ∀ s ∈ [mac', str "inference", folder], IsName s := fun s hs =>
    hnames s (List.mem_append_left [_] hs)
  rw [resolve_append_names hnames, Files.parent,
    List.dropLast_append_of_ne_nil (List.cons_ne_nil _ _),
    List.dropLast_append_of_ne_nil (List.cons_ne_nil _ _)]
  exact resolve_append_names hparent _

theorem fileOf_eq_some {event : RawDataEvent} {file : Files.Path} :
    fileOf host paths event = some file ↔
      ∃ path, pathFor host paths event = .ok path ∧ resolve path = file := by
  rw [fileOf]
  cases pathFor host paths event with
  | error exc => simp [Except.toOption]
  | ok path => simp [Except.toOption]

theorem alertFileOf_eq_some {event : AlertEvent} {file : Files.Path} :
    alertFileOf host paths event = some file ↔
      ∃ path, alertPathFor host paths event = .ok path ∧ resolve path = file := by
  rw [alertFileOf]
  cases alertPathFor host paths event with
  | error exc => simp [Except.toOption]
  | ok path => simp [Except.toOption]

theorem fileOf_spec {event : RawDataEvent} {file : Files.Path}
    (h : fileOf host paths event = some file) :
    ∃ mac now, normalizeMac event.mac = .ok mac ∧ host.fromtimestamp event.timestamp = .ok now ∧
      file = resolve (deviceFolder paths event.location event.deviceType) ++
        [mac, str "inference", str "rawdata", now.dateText ++ str ".txt"] := by
  obtain ⟨path, hpath, rfl⟩ := fileOf_eq_some.mp h
  exact resolve_pathIn isName_rawdata hpath

theorem alertFileOf_spec {event : AlertEvent} {file : Files.Path}
    (h : alertFileOf host paths event = some file) :
    ∃ mac now, normalizeMac event.mac = .ok mac ∧ host.fromtimestamp event.timestamp = .ok now ∧
      file = resolve (deviceFolder paths event.location event.deviceType) ++
        [mac, str "inference", str "debugstr", now.dateText ++ str ".txt"] := by
  obtain ⟨path, hpath, rfl⟩ := alertFileOf_eq_some.mp h
  exact resolve_pathIn isName_debugstr hpath

def LogEvent.location : LogEvent → Str
  | .rawData event => event.location
  | .alert event => event.location

def LogEvent.deviceType : LogEvent → Str
  | .rawData event => event.deviceType
  | .alert event => event.deviceType

/-- The file that an event goes to. -/
def logFileOf (host : Host) (paths : AppPaths) : LogEvent → Option Files.Path
  | .rawData event => fileOf host paths event
  | .alert event => alertFileOf host paths event

/-- No file holds both rows and alerts, whatever the locations and types are. -/
theorem alertFileOf_ne_fileOf {event : RawDataEvent} {alert : AlertEvent} {file file' : Files.Path}
    (h : fileOf host paths event = some file) (h' : alertFileOf host paths alert = some file') :
    file ≠ file' := by
  obtain ⟨mac, now, _, _, rfl⟩ := fileOf_spec h
  obtain ⟨mac', now', _, _, rfl⟩ := alertFileOf_spec h'
  intro heq
  have htail := List.append_inj_right' heq rfl
  simp only [List.cons.injEq] at htail
  exact absurd htail.2.2.1 (by decide)

end

/-! ### What a write changes -/

/-- The outcome of an operation that raised this, or nothing. -/
def outcome : Option PyError → Except PyError Unit
  | none => .ok ()
  | some exc => .error exc

theorem after_attempt {op : Disk Unit} {fs : FS} {post : Except PyError Unit → FS → Prop}
    (h : After op fs post) : post (outcome (attempt op fs).1) (attempt op fs).2 := by
  have hrun : op.run fs = (outcome (Logging.attempt op fs).1, (Logging.attempt op fs).2) := by
    rw [Logging.attempt]
    rcases op.run fs with ⟨_ | _, _⟩ <;> rfl
  unfold After at h
  rw [hrun] at h
  exact h

/-- A write to the file `target`: no other file changes, the file gains bytes of the kind that
    `gain` allows after what it held, and an exception that is no `OSError` leaves it as it was,
    or new and empty. -/
structure Appends (target : Files.Path) (gain : Bytes → Bytes → Prop) (fs : FS)
    (result : Except PyError Unit) (fs' : FS) : Prop where
  elsewhere : ∀ other, other ≠ target → fs'.file? other = fs.file? other
  gained : ∀ u, result = .ok u → ∃ bytes, gain (fs.content target) bytes ∧
    fs'.file? target = some (fs.content target ++ bytes)
  spared : ∀ exc, result = .error exc → exc.cls ≠ .osError → fs'.content target = fs.content target

theorem Appends.mono {target : Files.Path} {gain gain' : Bytes → Bytes → Prop} {fs fs' : FS}
    {result : Except PyError Unit} (h : Appends target gain fs result fs')
    (hgain : ∀ bytes, gain (fs.content target) bytes → gain' (fs.content target) bytes) :
    Appends target gain' fs result fs' where
  elsewhere := h.elsewhere
  gained u hu := by
    obtain ⟨bytes, hbytes, hfile⟩ := h.gained u hu
    exact ⟨bytes, hgain bytes hbytes, hfile⟩
  spared := h.spared

/-- Something raised before the bytes were written: the file may be new, but it is empty then. -/
structure Pristine (target : Files.Path) (fs fs' : FS) : Prop where
  elsewhere : ∀ other, other ≠ target → fs'.file? other = fs.file? other
  content : fs'.content target = fs.content target

theorem Pristine.of_file? {target : Files.Path} {fs fs' : FS} (h : fs'.file? = fs.file?) :
    Pristine target fs fs' where
  elsewhere other _ := congrFun h other
  content := by rw [FS.content, FS.content, h]

theorem Pristine.raised {target : Files.Path} {gain : Bytes → Bytes → Prop} {fs fs' : FS}
    (h : Pristine target fs fs') (exc : PyError) : Appends target gain fs (.error exc) fs' where
  elsewhere := h.elsewhere
  gained _ hu := by cases hu
  spared _ _ _ := h.content

section
variable {host : Host} {paths : AppPaths}

theorem after_onDisk {α : Type} {op : Op α} {fs : FS} {post : Except PyError α → FS → Prop} :
    After (onDisk op) fs post ↔ After op fs fun r => post (r.mapError fileError) := Iff.rfl

theorem after_encode (text : Str) (fs : FS) :
    After (encode text) fs fun r fs' => fs' = fs ∧ ∀ bytes, r = .ok bytes →
      utf8Encode text = some bytes := by
  unfold encode
  cases utf8Encode text with
  | none => exact ⟨rfl, fun _ h => (by cases h)⟩
  | some bytes => exact ⟨rfl, fun _ h => congrArg some (Except.ok.inj h)⟩

/-- A value that was made beforehand, or what making it raised. -/
theorem after_made {α : Type} (made : Except PyError α) (fs : FS) :
    After (ExceptT.mk (return made) : Disk α) fs fun r fs' => fs' = fs ∧ r = made :=
  ⟨rfl, rfl⟩

theorem after_open (path : Files.Path) (fs : FS) :
    After (onDisk (openAppend host.refuses path)) fs fun r fs' =>
      Pristine (resolve path) fs fs' ∧ (r = .ok () → fs.node? (resolve path) ≠ some .dir) := by
  refine after_onDisk.mpr ((after_openAppend host.refuses path fs).mono fun r fs' h => ?_)
  cases r with
  | error e => exact ⟨.of_file? h.2, fun hr => (by cases hr)⟩
  | ok u => exact ⟨⟨h.1, by rw [FS.content, h.2.2]; rfl⟩, fun _ => h.2.1⟩

theorem after_makeDirs (path : Files.Path) (fs : FS) :
    After (onDisk (mkdirs host.refuses path)) fs fun _ fs' => fs'.file? = fs.file? :=
  after_mkdirs host.refuses path fs

theorem after_look (path : Files.Path) (fs : FS) :
    After (onDisk (stat host.refuses path)) fs fun r fs' => fs'.nodes = fs.nodes ∧
      ∀ node, r = .ok node → node = fs.node? (resolve path) := by
  refine after_onDisk.mpr ((after_stat host.refuses path fs).mono fun r fs' h => ⟨h.1, ?_⟩)
  cases r with
  | error e => exact fun _ hr => (by cases hr)
  | ok node => exact fun node' hr => h.2 node' (congrArg Except.ok (Except.ok.inj hr))

/-- A file is opened, a text is made, and its bytes are appended. -/
theorem after_openAndAppend {α : Type} (path : Files.Path) (made : Except PyError α)
    (text : α → Str) (fs : FS) :
    After (do
        onDisk (openAppend host.refuses path)
        let x ← ExceptT.mk (return made)
        onDisk (append host.refuses path (← encode (text x)))) fs
      (Appends (resolve path)
        (fun _ bytes => fs.node? (resolve path) ≠ some .dir ∧
          ∃ x, made = .ok x ∧ utf8Encode (text x) = some bytes) fs) := by
  refine (after_open path fs).bind (fun _ fs₁ h => ?_) (fun exc _ h => h.1.raised exc)
  obtain ⟨hopen, hnode⟩ := h
  refine (after_made made fs₁).bind (fun x _ hmade => ?_) (fun exc _ hmade => ?_)
  · obtain ⟨rfl, rfl⟩ := hmade
    refine (after_encode (text x) _).bind (fun bytes _ hencode => ?_) (fun exc _ hencode => ?_)
    · obtain ⟨rfl, hbytes⟩ := hencode
      refine after_onDisk.mpr ((after_append host.refuses path bytes _).mono fun r fs' happend => ?_)
      refine ⟨fun other hne => (happend.1 other hne).trans (hopen.elsewhere other hne), ?_, ?_⟩
      · intro u hu
        cases r with
        | error e => cases hu
        | ok u =>
          refine ⟨bytes, ⟨hnode rfl, x, rfl, hbytes bytes rfl⟩, ?_⟩
          rw [happend.2, hopen.content]
      · intro exc hexc hcls
        cases r with
        | error e =>
          obtain rfl := happend.2
          obtain rfl := Except.error.inj hexc
          exact absurd rfl hcls
        | ok u => cases hexc
    · exact hencode.1 ▸ hopen.raised exc
  · exact hmade.1 ▸ hopen.raised exc

theorem Appends.of_file? {target : Files.Path} {gain : Bytes → Bytes → Prop} {fs₀ fs fs' : FS}
    {result : Except PyError Unit} (h : Appends target gain fs result fs')
    (hfs : fs.file? = fs₀.file?) : Appends target gain fs₀ result fs' := by
  have hcontent : fs.content = fs₀.content := by
    funext other
    rw [FS.content, FS.content, hfs]
  exact ⟨fun other hne => hfs ▸ h.elsewhere other hne, hcontent ▸ h.gained, hcontent ▸ h.spared⟩

/-- What a rawdata event adds to its file: the row, and the header line if the file was empty. -/
def RowGain (host : Host) (event : RawDataEvent) (old bytes : Bytes) : Prop :=
  ∃ row, rowFor host event = .ok row ∧
    utf8Encode ((if old = [] then csvLine csvFields else []) ++ csvLine row) = some bytes

/-- What an alert adds to its file. -/
def LineGain (host : Host) (event : AlertEvent) (bytes : Bytes) : Prop :=
  ∃ line, alertLineFor host event = .ok line ∧ utf8Encode (line ++ [0x0A]) = some bytes

theorem after_writeAlert (event : AlertEvent) (fs : FS) :
    After (writeAlert host paths event) fs fun r fs' =>
      match alertPathFor host paths event with
      | .error exc => r = .error exc ∧ fs' = fs
      | .ok path => Appends (resolve path) (fun _ => LineGain host event) fs r fs' := by
  unfold writeAlert
  refine (after_made _ fs).bind (fun path _ hpath => ?_) (fun exc _ hpath => ?_)
  · obtain ⟨rfl, hpath⟩ := hpath
    rw [← hpath]
    refine (after_makeDirs (Files.parent path) _).bind
      (fun _ fs₁ hdirs => ?_) (fun exc _ hdirs => (Pristine.of_file? hdirs).raised exc)
    exact (after_openAndAppend path (alertLineFor host event) (· ++ [0x0A]) fs₁).mono
      fun _ _ h => (h.mono fun _ hgain => hgain.2).of_file? hdirs
  · rw [← hpath.2]
    exact ⟨rfl, hpath.1⟩

/-- The row goes to the file, below the header line if one is needed. -/
theorem after_writeRow {path : Files.Path} (event : RawDataEvent) (needsHeader : Bool) {fs : FS}
    (hneeds : fs.node? (resolve path) ≠ some .dir →
      (fs.content (resolve path) = [] ↔ needsHeader = true)) :
    After (do
        onDisk (openAppend host.refuses path)
        let header := if needsHeader then csvLine csvFields else []
        let row ← ExceptT.mk (return rowFor host event)
        onDisk (append host.refuses path (← encode (header ++ csvLine row)))) fs
      (Appends (resolve path) (RowGain host event) fs) := by
  refine (after_openAndAppend path (rowFor host event)
    (fun row => (if needsHeader then csvLine csvFields else []) ++ csvLine row) fs).mono
    fun r fs' h => h.mono fun bytes hgain => ?_
  obtain ⟨hnode, row, hrow, hbytes⟩ := hgain
  refine ⟨row, hrow, ?_⟩
  simpa only [hneeds hnode] using hbytes

theorem content_eq_nil {fs : FS} {path : Files.Path} (h : fs.node? path ≠ some .dir) :
    fs.content path = [] ↔ fs.node? path = none ∨ fs.node? path = some (.file []) := by
  rw [FS.content, FS.file?]
  cases hat : fs.node? path with
  | none => simp
  | some node =>
    cases node with
    | dir => exact absurd hat h
    | file content => simp

/-- Whether a header is needed is read off the file as it is then. -/
theorem after_writeEvent (event : RawDataEvent) (fs : FS) :
    After (writeEvent host paths event) fs fun r fs' =>
      match pathFor host paths event with
      | .error exc => r = .error exc ∧ fs' = fs
      | .ok path => Appends (resolve path) (RowGain host event) fs r fs' := by
  unfold writeEvent
  refine (after_made _ fs).bind (fun path _ hpath => ?_) (fun exc _ hpath => ?_)
  · obtain ⟨rfl, hpath⟩ := hpath
    rw [← hpath]
    refine (after_makeDirs (Files.parent path) _).bind
      (fun _ fs₁ hdirs => ?_) (fun exc _ hdirs => (Pristine.of_file? hdirs).raised exc)
    refine (after_look path fs₁).bind (fun node fs₂ hlook => ?_)
      (fun exc _ hlook => (Pristine.of_file? ((file?_congr hlook.1).trans hdirs)).raised exc)
    have hfiles : fs₂.file? = _ := (file?_congr hlook.1).trans hdirs
    have hnode : fs₂.node? (resolve path) = node := by
      rw [hlook.2 node rfl, node?_congr hlook.1]
    simp only [pure_bind]
    split
    · rename_i hnone
      refine (after_writeRow event true fun hdir => ?_).mono fun _ _ h => h.of_file? hfiles
      rw [content_eq_nil hdir, hnode, Option.isNone_iff_eq_none.mp hnone]
      simp
    · rename_i hsome
      refine (after_look path fs₂).bind (fun node' fs₃ hlook' => ?_)
        (fun exc _ hlook' => (Pristine.of_file? ((file?_congr hlook'.1).trans hfiles)).raised exc)
      have hnode' : fs₃.node? (resolve path) = node := by
        rw [← hnode, node?_congr hlook'.1]
      obtain rfl : node' = node := (hlook'.2 node' rfl).trans hnode
      refine (after_writeRow event _ fun hdir => ?_).mono fun _ _ h =>
        h.of_file? ((file?_congr hlook'.1).trans hfiles)
      rw [content_eq_nil hdir, hnode', beq_iff_eq]
      exact or_iff_right fun hnone => hsome (Option.isNone_iff_eq_none.mpr hnone)
  · rw [← hpath.2]
    exact ⟨rfl, hpath.1⟩

theorem keepsDirs_encode (text : Str) : KeepsDirs (encode text) :=
  .of_nodes fun fs => (after_encode text fs).mono fun _ _ h => congrArg FS.nodes h.1

theorem keepsDirs_made {α : Type} (made : Except PyError α) :
    KeepsDirs (ExceptT.mk (return made) : Disk α) :=
  .of_nodes fun _ => rfl

theorem keepsDirs_onDisk {α : Type} {op : Op α} (h : KeepsDirs op) : KeepsDirs (onDisk op) :=
  fun fs => h fs

theorem keepsDirs_writeRow (path : Files.Path) (event : RawDataEvent) (needsHeader : Bool) :
    KeepsDirs (do
      onDisk (openAppend host.refuses path)
      let header := if needsHeader then csvLine csvFields else []
      let row ← ExceptT.mk (return rowFor host event)
      onDisk (append host.refuses path (← encode (header ++ csvLine row))) : Disk Unit) := by
  refine (keepsDirs_onDisk (keepsDirs_openAppend host.refuses path)).bind fun _ => ?_
  refine (keepsDirs_made (rowFor host event)).bind fun row => ?_
  exact (keepsDirs_encode _).bind fun bytes => keepsDirs_onDisk (keepsDirs_append _ path bytes)

theorem after_makeDirs_dirs (path : Files.Path) (fs : FS) :
    After (onDisk (mkdirs host.refuses path)) fs fun r fs' =>
      r = .ok () → ∀ p, p <+: resolve path → fs'.node? p = some .dir := by
  refine after_onDisk.mpr ((after_mkdirs_dirs host.refuses path fs).mono fun r fs' h hr => h ?_)
  cases r with
  | error e => cases hr
  | ok u => rfl

/-- A rawdata event that was written lies in a folder, and so do all folders above it. -/
theorem after_writeEvent_dirs (event : RawDataEvent) (fs : FS) :
    After (writeEvent host paths event) fs fun r fs' => r = .ok () →
      ∀ path, pathFor host paths event = .ok path →
        ∀ p, p <+: (resolve path).dropLast → fs'.node? p = some .dir := by
  unfold writeEvent
  refine (after_made _ fs).bind (fun path _ hpath => ?_) (fun _ _ _ hr => (by cases hr))
  obtain ⟨rfl, hpath⟩ := hpath
  refine (after_makeDirs_dirs (Files.parent path) _).bind (fun _ fs₁ hdirs => ?_)
    (fun _ _ _ hr => (by cases hr))
  have hlook : KeepsDirs (onDisk (stat host.refuses path)) :=
    keepsDirs_onDisk (keepsDirs_stat host.refuses path)
  refine ((hlook.bind fun node => ?_) fs₁).mono
    fun r fs' hkeeps _ path' hpath' p hp => hkeeps p (hdirs rfl p ?_)
  · simp only [pure_bind]
    split
    · exact keepsDirs_writeRow path event true
    · exact hlook.bind fun node => keepsDirs_writeRow path event _
  · obtain rfl := Except.ok.inj (hpath.trans hpath')
    rw [resolve_parent_pathIn isName_rawdata hpath']
    exact hp

/-- A write of an event: without a path it raises and changes nothing. -/
def WritesTo (file : Option Files.Path) (gain : Bytes → Bytes → Prop) (fs : FS)
    (raised : Option PyError) (fs' : FS) : Prop :=
  match file with
  | none => raised ≠ none ∧ fs' = fs
  | some file => Appends file gain fs (outcome raised) fs'

theorem WritesTo.of_path {path : Except PyError Files.Path} {gain : Bytes → Bytes → Prop}
    {fs fs' : FS} {raised : Option PyError}
    (h : match path with
      | .error exc => outcome raised = .error exc ∧ fs' = fs
      | .ok path => Appends (resolve path) gain fs (outcome raised) fs') :
    WritesTo (path.toOption.map resolve) gain fs raised fs' := by
  cases path with
  | error exc =>
    refine ⟨?_, h.2⟩
    rintro rfl
    cases h.1
  | ok path => exact h

/-- Any other file is as it was. -/
theorem WritesTo.elsewhere {file : Option Files.Path} {gain : Bytes → Bytes → Prop} {fs fs' : FS}
    {raised : Option PyError} (h : WritesTo file gain fs raised fs') {other : Files.Path}
    (hne : file ≠ some other) : fs'.file? other = fs.file? other := by
  cases file with
  | none => rw [h.2]
  | some file => exact Appends.elsewhere h other fun heq => hne (congrArg some heq.symm)

variable (host paths)

theorem write_rawData (event : RawDataEvent) (fs : FS) :
    WritesTo (fileOf host paths event) (RowGain host event) fs
      ((diskWriter host paths).write (.rawData event) fs).1
      ((diskWriter host paths).write (.rawData event) fs).2 :=
  .of_path (after_attempt (after_writeEvent event fs))

theorem write_alert (event : AlertEvent) (fs : FS) :
    WritesTo (alertFileOf host paths event) (fun _ => LineGain host event) fs
      ((diskWriter host paths).write (.alert event) fs).1
      ((diskWriter host paths).write (.alert event) fs).2 :=
  .of_path (after_attempt (after_writeAlert event fs))

/-- Writing an event changes no other file than its own. -/
theorem write_elsewhere {call : LogEvent} {other : Files.Path} (fs : FS)
    (h : logFileOf host paths call ≠ some other) :
    ((diskWriter host paths).write call fs).2.file? other = fs.file? other := by
  cases call with
  | rawData event => exact (write_rawData host paths event fs).elsewhere h
  | alert event => exact (write_alert host paths event fs).elsewhere h

theorem ne_nil_of_utf8Encode {text : Str} {bytes : Bytes} (h : utf8Encode text = some bytes)
    (hne : text ≠ []) : bytes ≠ [] := by
  rintro rfl
  exact hne (Option.some.inj (utf8Decode_utf8Encode h)).symm

theorem Appends.changed {target : Files.Path} {gain : Bytes → Bytes → Prop} {fs fs' : FS}
    (h : Appends target gain fs (.ok ()) fs') (hgain : ∀ old bytes, gain old bytes → bytes ≠ []) :
    fs'.file? target ≠ fs.file? target := by
  obtain ⟨bytes, hbytes, hfile⟩ := h.gained () rfl
  intro heq
  have hold : fs.content target = fs.content target ++ bytes := by
    conv_lhs => rw [FS.content, ← heq, hfile]
    rfl
  exact hgain _ _ hbytes (List.append_right_eq_self.mp hold.symm)

/-- A write that returns has changed its file. -/
theorem write_changed {call : LogEvent} {fs : FS}
    (h : ((diskWriter host paths).write call fs).1 = none) :
    ∃ file, logFileOf host paths call = some file ∧
      ((diskWriter host paths).write call fs).2.file? file ≠ fs.file? file := by
  cases call with
  | rawData event =>
    have hwrite := write_rawData host paths event fs
    rw [h] at hwrite
    rw [logFileOf]
    cases hfile : fileOf host paths event with
    | none => exact absurd rfl (hfile ▸ hwrite).1
    | some file =>
      rw [hfile] at hwrite
      refine ⟨file, rfl, Appends.changed hwrite fun old bytes hgain => ?_⟩
      obtain ⟨row, _, hbytes⟩ := hgain
      exact ne_nil_of_utf8Encode hbytes (by simp [csvLine])
  | alert event =>
    have hwrite := write_alert host paths event fs
    rw [h] at hwrite
    rw [logFileOf]
    cases hfile : alertFileOf host paths event with
    | none => exact absurd rfl (hfile ▸ hwrite).1
    | some file =>
      rw [hfile] at hwrite
      refine ⟨file, rfl, Appends.changed hwrite fun old bytes hgain => ?_⟩
      obtain ⟨line, _, hbytes⟩ := hgain
      exact ne_nil_of_utf8Encode hbytes (by simp)

end

end SlimHub.Logging
