import SlimHub.Lib.Glob
import SlimHub.Logging.Confinement

/-! What `raw.tail` finds.

        written:   data / location / type / MAC / inference / rawdata / day.txt
        found:     data / *        / *    / MAC / inference / rawdata / *.txt

    The logger joins the location and the type as they are, the search goes down one level for each
    of them. A location with a slash in it is enough for them to part. -/

namespace SlimHub
open Text Nus Files Logging

/-- `_raw_files`. The folders are read without a refusal. -/
def rawFiles (paths : AppPaths) (fs : FS) (address : Option Str) :
    Except PyError (List Files.Path) :=
  match address with
  | none => .ok (glob fs (resolve paths.dataDir)
      [.any, .any, .any, .name (str "inference"), .name (str "rawdata"), .suffix (str ".txt")])
  | some address => do
    let mac ← normalizeMac address
    return glob fs (resolve paths.dataDir)
      [.any, .any, .name mac, .name (str "inference"), .name (str "rawdata"),
        .suffix (str ".txt")]

/-- Text mode reads `\r\n` and `\r` as `\n`. -/
def universalNewlines : Str → Str
  | [] => []
  | c :: s =>
    if c.val = 0x0D then
      match s with
      | [] => [0x0A]
      | d :: s => if d.val = 0x0A then 0x0A :: universalNewlines s
        else 0x0A :: universalNewlines (d :: s)
    else c :: universalNewlines s

/-- `f.readlines()`: the lines with their line feeds; the last one may have none. -/
def readlines : Str → List Str
  | [] => []
  | c :: s =>
    if c.val = 0x0A then [c] :: readlines s
    else
      match readlines s with
      | [] => [[c]]
      | line :: lines => (c :: line) :: lines

/-- `xs[start:]`. -/
def sliceFrom {α : Type} (start : ℤ) (xs : List α) : List α :=
  xs.drop (if start < 0 then xs.length + start else start).toNat

/-- `_tail_raw`; `mtime` is what `stat` says of a file. A folder that looks like a file's name is not
    opened. -/
def tailRaw (paths : AppPaths) (mtime : Files.Path → ℚ) (fs : FS) (address : Option Str)
    (lines : ℤ) : Except PyError (List Str) := do
  let files ← rawFiles paths fs address
  match (files.mergeSort fun a b => mtime a ≤ mtime b).getLast? with
  | none => return []
  | some selected =>
    match fs.file? selected with
    | none => throw ⟨.osError, []⟩
    | some content =>
      match utf8Decode content with
      | none => throw ⟨.unicodeDecodeError, []⟩
      | some text =>
        return (sliceFrom (-lines) (readlines (universalNewlines text))).map
          (List.rdropWhile (·.val = 0x0A))

/-- A search finds a file. -/
def Finds (paths : AppPaths) (fs : FS) (address : Option Str) (file : Files.Path) : Prop :=
  ∃ files, rawFiles paths fs address = .ok files ∧ file ∈ files

/-- A location and a type lead down two levels from the data directory. -/
def TwoLevels (paths : AppPaths) (location deviceType : Str) : Prop :=
  ∃ a b, resolve (deviceFolder paths location deviceType) = resolve paths.dataDir ++ [a, b]

variable {host : Host} {paths : AppPaths}

/-- A file that lies six levels down, below folders, under the MAC and the fixed names. -/
theorem finds_of_names {fs : FS} {address : Option Str} {a b mac day : Str}
    (haddress : ∀ x ∈ address, normalizeMac x = .ok mac) (hday : str ".txt" <:+ day)
    (hthere : fs.node? (resolve paths.dataDir ++
      [a, b, mac, str "inference", str "rawdata", day]) ≠ none)
    (hdirs : ∀ between, resolve paths.dataDir <+: between →
      between <+: resolve paths.dataDir ++ [a, b, mac, str "inference", str "rawdata", day] →
      between ≠ resolve paths.dataDir ++ [a, b, mac, str "inference", str "rawdata", day] →
        fs.node? between = some .dir) :
    Finds paths fs address
      (resolve paths.dataDir ++ [a, b, mac, str "inference", str "rawdata", day]) := by
  have hsuffix : (Pattern.suffix (str ".txt")).accepts day = true :=
    List.isSuffixOf_iff_suffix.mpr hday
  cases address with
  | none =>
    refine ⟨_, rfl, mem_glob ?_ hthere hdirs⟩
    exact .cons rfl (.cons rfl (.cons rfl (.cons rfl (.cons rfl (.cons hsuffix .nil)))))
  | some x =>
    have hmac := haddress x rfl
    refine ⟨_, by rw [rawFiles, hmac]; rfl, mem_glob ?_ hthere hdirs⟩
    have hname : (Pattern.name mac).accepts mac = true := decide_eq_true rfl
    exact .cons rfl (.cons rfl (.cons hname (.cons rfl (.cons rfl (.cons hsuffix .nil)))))

/-- What is found lies six levels down. -/
theorem length_of_finds {fs : FS} {address : Option Str} {file : Files.Path}
    (h : Finds paths fs address file) : ∃ names, names.length = 6 ∧
      file = resolve paths.dataDir ++ names := by
  obtain ⟨files, hfiles, hmem⟩ := h
  cases address with
  | none =>
    obtain rfl := Except.ok.inj hfiles
    obtain ⟨names, hfile, hnames⟩ := of_mem_glob hmem
    exact ⟨names, hnames.length_eq.symm, hfile⟩
  | some x =>
    rw [rawFiles] at hfiles
    cases hmac : normalizeMac x with
    | error exc => rw [hmac] at hfiles; cases hfiles
    | ok mac =>
      rw [hmac] at hfiles
      obtain rfl := Except.ok.inj hfiles
      obtain ⟨names, hfile, hnames⟩ := of_mem_glob hmem
      exact ⟨names, hnames.length_eq.symm, hfile⟩

/-- A write that returns leaves its file below folders. -/
theorem written_dirs {event : RawDataEvent} {fs : FS} {file : Files.Path}
    (h : ((diskWriter host paths).write (.rawData event) fs).1 = none)
    (hfile : fileOf host paths event = some file) :
    ((diskWriter host paths).write (.rawData event) fs).2.node? file ≠ none ∧
      ∀ p, p <+: file → p ≠ file →
        ((diskWriter host paths).write (.rawData event) fs).2.node? p = some .dir := by
  have hwrite := write_rawData host paths event fs
  have hdirs := after_attempt (@after_writeEvent_dirs host paths event fs)
  change outcome ((diskWriter host paths).write (.rawData event) fs).1 = .ok () → _ at hdirs
  rw [h, hfile] at hwrite
  obtain ⟨bytes, _, hthere⟩ := Appends.gained hwrite () rfl
  obtain ⟨path, hpath, rfl⟩ := fileOf_eq_some.mp hfile
  refine ⟨fun hnone => ?_, fun p hp hne => hdirs (by rw [h]; rfl) path hpath p ?_⟩
  · rw [FS.file?, hnone] at hthere
    cases hthere
  · rcases List.eq_nil_or_concat (resolve path) with hnil | ⟨init, last, heq⟩
    · rw [hnil] at hp hne
      exact absurd (List.prefix_nil.mp hp) hne
    · rw [heq, List.concat_eq_append] at hp hne ⊢
      rw [List.dropLast_concat]
      exact (List.prefix_concat_iff.mp hp).resolve_left hne

/-- CORRECT: exactly when `raw.tail` finds what the logger writes. The file of an event that was
    written is found by each spelling of its MAC, and without one, iff the location and the type
    lead down two levels; they do in every installation iff neither is absolute and the two, walked
    from `data` without leaving its parent, come to two names below it. -/
theorem raw_tail_finds (event : RawDataEvent) :
    (∀ (host : Host) (paths : AppPaths) (fs : FS) (file : Files.Path),
      ((diskWriter host paths).write (.rawData event) fs).1 = none →
      fileOf host paths event = some file →
      ∀ address : Option Str, (∀ x ∈ address, normalizeMac x = normalizeMac event.mac) →
        (Finds paths ((diskWriter host paths).write (.rawData event) fs).2 address file ↔
          TwoLevels paths event.location event.deviceType)) ∧
    ((∀ paths, TwoLevels paths event.location event.deviceType) ↔
      Relative event.location event.deviceType ∧ ∃ a b,
        descend [str "data"] (folderParts event.location event.deviceType) =
          some [str "data", a, b]) := by
  refine ⟨fun host paths fs file hok hfile address haddress => ?_, ?_⟩
  · obtain ⟨mac, now, hmac, _, rfl⟩ := fileOf_spec hfile
    constructor
    · intro hfound
      obtain ⟨names, hlen, heq⟩ := length_of_finds hfound
      obtain ⟨a, b, below, hbelow, rfl⟩ : ∃ a b below, below.length = 4 ∧ names = [a, b] ++ below := by
        match names, hlen with
        | a :: b :: below, hlen => exact ⟨a, b, below, Nat.succ.inj (Nat.succ.inj hlen), rfl⟩
      rw [← List.append_assoc] at heq
      exact ⟨a, b, (List.append_inj' heq hbelow.symm).1⟩
    · rintro ⟨a, b, htwo⟩
      obtain ⟨hthere, hdirs⟩ := written_dirs hok hfile
      rw [htwo, List.append_assoc] at hthere hdirs ⊢
      exact finds_of_names (fun x hx => (haddress x hx).trans hmac) (List.suffix_append _ _)
        hthere fun between _ => hdirs between
  · have hleads := @leads_iff event.location event.deviceType fun below => ∃ a b, below = [a, b]
    have htwo : ∀ {α : Type} (f : Files.Path → α) (x : α),
        (∃ below, x = f below ∧ ∃ a b, below = [a, b]) ↔ ∃ a b, x = f [a, b] := by
      intro α f x
      constructor
      · rintro ⟨_, hx, a, b, rfl⟩
        exact ⟨a, b, hx⟩
      · rintro ⟨a, b, hx⟩
        exact ⟨_, hx, a, b, rfl⟩
    simp only [htwo] at hleads
    exact hleads

/-- `config.set` takes the location `ground floor/kitchen`. The device's next event is written, and
    `raw.tail` finds no file at all. -/
theorem slash_hides_file :
    let interp := freshInterpreter
    let address := str "AA:BB:CC:DD:EE:FF"
    let set := DeviceConfigStore.setField interp ⟨Dict.empty⟩ address (str "location")
      (str "ground floor/kitchen")
    set.2.isOk = true ∧
      ∃ config, (set.1.load interp address).map (DeviceRecord.config interp) = .ok config ∧
        ∃ file, fileOf someHost somePaths (eventAt config.location config.type) = some file ∧
          let written := (diskWriter someHost somePaths).write
            (.rawData (eventAt config.location config.type)) FS.empty
          written.1 = none ∧ ¬Finds somePaths written.2 (some address) file ∧
            ¬Finds somePaths written.2 none file := by
  intro interp address set
  refine ⟨by decide +kernel, { address, location := str "ground floor/kitchen" },
    by decide +kernel, _, rfl, ?_⟩
  intro written
  have hmac : rawFiles somePaths written.2 (some address) = .ok [] := by decide +kernel
  have hany : rawFiles somePaths written.2 none = .ok [] := by decide +kernel
  refine ⟨by decide +kernel, ?_, ?_⟩
  · rintro ⟨files, hfiles, hmem⟩
    obtain rfl := Except.ok.inj (hmac.symm.trans hfiles)
    cases hmem
  · rintro ⟨files, hfiles, hmem⟩
    obtain rfl := Except.ok.inj (hany.symm.trans hfiles)
    cases hmem

end SlimHub
