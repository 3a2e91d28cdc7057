import SlimHub.Hub
import SlimHub.Logging.Delivery
import SlimHub.Logging.Layout

/-! Which files the logger can reach.

        config.set ──▶ config file ──▶ event ──▶ data / location / type / …

    Nothing on this way looks at what the location and the type are. A location may climb out of
    the data directory or start at the root, and then files are made and extended there. -/

namespace SlimHub.Logging
open Text Nus Files

/-! ### Where a location and a type lead -/

/-- Neither text starts at the root. -/
def Relative (location deviceType : Str) : Prop := ¬IsAbsolute location ∧ ¬IsAbsolute deviceType

/-- The parts of a location and a type. -/
def folderParts (location deviceType : Str) : Files.Path :=
  parts (orDefault location defaultLocation) ++ parts (orDefault deviceType defaultDeviceType)

section
variable {location deviceType : Str}

theorem isAbsolute_orDefault {x default : Str} (h : ¬IsAbsolute default) :
    IsAbsolute (orDefault x default) ↔ IsAbsolute x := by
  unfold orDefault
  split
  · rename_i hx
    rw [hx]
    exact ⟨fun habs => absurd habs h, fun habs => (by cases habs)⟩
  · rfl

theorem dataDir_eq (paths : AppPaths) : paths.dataDir = paths.baseDir ++ [str "data"] :=
  IsName.join (isName_of_not_mem (by decide) (by decide)) _

theorem resolve_dataDir (paths : AppPaths) :
    resolve paths.dataDir = resolve paths.baseDir ++ [str "data"] := by
  rw [dataDir_eq]
  refine resolve_append_names (fun s hs => ?_) _
  rw [List.mem_singleton.mp hs]
  exact isName_of_not_mem (by decide) (by decide)

theorem resolve_deviceFolder (h : Relative location deviceType) (paths : AppPaths) :
    resolve (deviceFolder paths location deviceType) =
      (folderParts location deviceType).foldl walk (resolve paths.dataDir) := by
  have hlocation : ¬IsAbsolute (orDefault location defaultLocation) :=
    (isAbsolute_orDefault (by decide)).not.mpr h.1
  have htype : ¬IsAbsolute (orDefault deviceType defaultDeviceType) :=
    (isAbsolute_orDefault (by decide)).not.mpr h.2
  rw [deviceFolder, join_of_relative hlocation, join_of_relative htype, List.append_assoc,
    resolve_append, folderParts]

/-- A text that starts at the root leads to the same place from every data directory. -/
theorem deviceFolder_absolute (h : ¬Relative location deviceType) :
    ∃ folder, ∀ paths, deviceFolder paths location deviceType = folder := by
  by_cases htype : IsAbsolute deviceType
  · exact ⟨_, fun paths => join_of_absolute ((isAbsolute_orDefault (by decide)).mpr htype) _⟩
  · have hlocation : IsAbsolute (orDefault location defaultLocation) := by
      by_contra hrel
      exact h ⟨(isAbsolute_orDefault (by decide)).not.mp hrel, htype⟩
    exact ⟨_, fun paths => by rw [deviceFolder, join_of_absolute hlocation]⟩

theorem relative_of_confined (h : ∀ paths : AppPaths,
    resolve paths.dataDir <+: resolve (deviceFolder paths location deviceType)) :
    Relative location deviceType := by
  by_contra habs
  obtain ⟨folder, hfolder⟩ := deviceFolder_absolute habs
  -- a data directory that lies too deep
  have hle := (h ⟨List.replicate (resolve folder).length (str "x")⟩).length_le
  have hbase : ∀ s ∈ List.replicate (resolve folder).length (str "x"), IsName s := by
    intro s hs
    rw [List.eq_of_mem_replicate hs]
    exact ⟨by decide, by decide, by decide, by decide⟩
  have hroot := resolve_append_names hbase []
  rw [List.nil_append] at hroot
  rw [hfolder, resolve_dataDir, hroot, List.length_append, List.length_append,
    List.length_replicate, List.length_singleton] at hle
  omega

theorem descend_ne_none (hrel : Relative location deviceType) (h : ∀ paths : AppPaths,
    resolve paths.dataDir <+: resolve (deviceFolder paths location deviceType)) :
    descend [str "data"] (folderParts location deviceType) ≠ none := by
  intro hdescend
  -- a base whose name is not among the parts
  let base := otherName (folderParts location deviceType)
  have hne : base ∉ [str "data"] := by
    intro hmem
    have hd : chr 'd' ∈ base := by
      rw [List.mem_singleton.mp hmem]
      exact List.mem_cons_self
    exact absurd (List.eq_of_mem_replicate hd) (by decide)
  have hname : IsName base := isName_otherName _
  have hroot : resolve [base] = [base] :=
    resolve_append_names (fun s hs => List.mem_singleton.mp hs ▸ hname) []
  have hpre := h ⟨[base]⟩
  rw [resolve_deviceFolder hrel, resolve_dataDir, hroot] at hpre
  exact not_mem_of_descend hdescend hne (otherName_not_mem _)
    (hpre.subset (List.mem_append_left _ (List.mem_singleton_self _)))

/-- What a location and a type lead to below every data directory is read off the two texts: they
    are relative, and walked from `data` they come back to it without leaving its parent. -/
theorem leads_iff (R : Files.Path → Prop) :
    (∀ paths : AppPaths, ∃ below, resolve (deviceFolder paths location deviceType) =
        resolve paths.dataDir ++ below ∧ R below) ↔
      Relative location deviceType ∧ ∃ below,
        descend [str "data"] (folderParts location deviceType) = some (str "data" :: below) ∧
          R below := by
  constructor
  · intro h
    have hpre : ∀ paths : AppPaths,
        resolve paths.dataDir <+: resolve (deviceFolder paths location deviceType) := fun paths => by
      obtain ⟨below, heq, _⟩ := h paths
      exact ⟨below, heq.symm⟩
    have hrel := relative_of_confined hpre
    obtain ⟨there, hdescend⟩ := Option.ne_none_iff_exists'.mp (descend_ne_none hrel hpre)
    obtain ⟨below, heq, hR⟩ := h ⟨[]⟩
    rw [resolve_deviceFolder hrel, resolve_dataDir, foldl_walk_of_descend hdescend] at heq
    exact ⟨hrel, below, hdescend.trans (congrArg some heq), hR⟩
  · rintro ⟨hrel, below, hdescend, hR⟩ paths
    refine ⟨below, ?_, hR⟩
    rw [resolve_deviceFolder hrel, resolve_dataDir, foldl_walk_of_descend hdescend,
      List.append_assoc]
    rfl

end

/-! ### What the logger reaches -/

/-- The folder of a location and a type is the data directory or lies below it. -/
def Confined (paths : AppPaths) (location deviceType : Str) : Prop :=
  resolve paths.dataDir <+: resolve (deviceFolder paths location deviceType)

section
variable {host : Host} {paths : AppPaths}

theorem ne_data_of_length {s : Str} (h : s.length ≠ 4) : str "data" ≠ s := by
  rintro rfl
  exact h rfl

/-- None of the four names below the folder is `data`. -/
theorem data_not_mem {folder mac a : Str} {now : DateTime} (hmac : normalizeMac a = .ok mac)
    (hfolder : str "data" ≠ folder) :
    str "data" ∉ [mac, str "inference", folder, now.dateText ++ str ".txt"] := by
  have hday : str "data" ≠ now.dateText ++ str ".txt" := by
    intro heq
    have hpoint : chr '.' ∈ str "data" := heq ▸ List.mem_append_right _ List.mem_cons_self
    exact absurd hpoint (by decide)
  simp only [List.mem_cons, List.not_mem_nil, or_false, not_or]
  exact ⟨ne_data_of_length (by rw [length_of_normalizeMac hmac]; decide), by decide, hfolder, hday⟩

/-- The four names below the folder neither leave the data directory nor lead back into it. -/
theorem logFileOf_below_iff {call : LogEvent} {file : Files.Path}
    (h : logFileOf host paths call = some file) :
    Below (resolve paths.dataDir) file ↔ Confined paths call.location call.deviceType := by
  rw [Confined, resolve_dataDir]
  cases call with
  | rawData event =>
    obtain ⟨mac, now, hmac, _, rfl⟩ := fileOf_spec h
    have hdata : str "data" ≠ str "rawdata" := by decide
    exact below_append_iff (List.cons_ne_nil _ _) (data_not_mem hmac hdata)
  | alert event =>
    obtain ⟨mac, now, hmac, _, rfl⟩ := alertFileOf_spec h
    have hdata : str "data" ≠ str "debugstr" := by decide
    exact below_append_iff (List.cons_ne_nil _ _) (data_not_mem hmac hdata)

end

/-- Every file of an event with this location and type lies below the data directory. -/
def AllBelow (location deviceType : Str) : Prop :=
  ∀ (host : Host) (paths : AppPaths) (call : LogEvent) (file : Files.Path),
    call.location = location → call.deviceType = deviceType →
      logFileOf host paths call = some file → Below (resolve paths.dataDir) file

/-- An event of a device that stands there and is of that type. -/
def eventAt (location deviceType : Str) : RawDataEvent :=
  { timestamp := 0, mac := str "AA:BB:CC:DD:EE:FF", location, deviceType, payload := [],
    packet := ⟨1, 1, 0, 0, 0, 0, 0, 0, 0, 0, [], false⟩ }

theorem allBelow_iff {location deviceType : Str} :
    AllBelow location deviceType ↔ ∀ paths, Confined paths location deviceType := by
  constructor
  · intro h paths
    obtain ⟨file, hfile⟩ : ∃ file,
        logFileOf someHost paths (.rawData (eventAt location deviceType)) = some file := ⟨_, rfl⟩
    exact (logFileOf_below_iff hfile).mp (h someHost paths _ file rfl rfl hfile)
  · rintro h host paths call file rfl rfl hfile
    exact (logFileOf_below_iff hfile).mpr (h paths)

/-- CORRECT: exactly when log files stay inside the data directory. For a location and a type they
    do in every installation iff neither is absolute and the two, walked from `data`, come back to
    it without leaving its parent. In one installation the file of an event does iff the folder
    that its location and type lead to is there, and a write that returns has changed files
    elsewhere iff it is not. -/
theorem log_files_confined (location deviceType : Str) :
    (AllBelow location deviceType ↔
      Relative location deviceType ∧ ∃ below,
        descend [str "data"] (folderParts location deviceType) = some (str "data" :: below)) ∧
    ∀ (host : Host) (paths : AppPaths) (call : LogEvent),
      (∀ file, logFileOf host paths call = some file →
        (Below (resolve paths.dataDir) file ↔ Confined paths call.location call.deviceType)) ∧
      (Confined paths call.location call.deviceType → ∀ fs other,
        ¬Below (resolve paths.dataDir) other →
          ((diskWriter host paths).write call fs).2.file? other = fs.file? other) ∧
      ∀ fs, ((diskWriter host paths).write call fs).1 = none →
        (∀ other, ¬Below (resolve paths.dataDir) other →
          ((diskWriter host paths).write call fs).2.file? other = fs.file? other) →
        Confined paths call.location call.deviceType := by
  refine ⟨?_, fun host paths call => ⟨fun file hfile => logFileOf_below_iff hfile,
    fun hconfined fs other hother => ?_, fun fs hok hsame => ?_⟩⟩
  · have hleads := @leads_iff location deviceType fun _ => True
    simp only [and_true] at hleads
    rw [allBelow_iff, ← hleads]
    exact forall_congr' fun paths => exists_congr fun below => eq_comm
  · refine write_elsewhere host paths fs fun hfile => hother ?_
    exact (logFileOf_below_iff hfile).mpr hconfined
  · obtain ⟨file, hfile, hchanged⟩ := write_changed host paths hok
    by_contra hnot
    exact hchanged (hsame file fun hbelow => hnot ((logFileOf_below_iff hfile).mp hbelow))

/-- `config.set` takes the location `../../etc`; the daemon's next event of the device makes a file
    under `/etc`. -/
theorem config_set_leads_outside :
    let interp := freshInterpreter
    let address := str "AA:BB:CC:DD:EE:FF"
    let set := DeviceConfigStore.setField interp ⟨Dict.empty⟩ address (str "location")
      (str "../../etc")
    let file := [str "etc", str "DEAN_NODE_V2", address, str "inference", str "rawdata",
      str "1970-01-01.txt"]
    set.2.isOk = true ∧
      ∃ config, (set.1.load interp address).map (DeviceRecord.config interp) = .ok config ∧
        logFileOf someHost somePaths (.rawData (eventAt config.location config.type)) = some file ∧
        ((diskWriter someHost somePaths).write
          (.rawData (eventAt config.location config.type)) FS.empty).2.file? file ≠ none ∧
        ¬Below (resolve somePaths.dataDir) file ∧ ¬AllBelow config.location config.type := by
  intro interp address set file
  have hfile : logFileOf someHost somePaths
      (.rawData (eventAt (str "../../etc") (str "DEAN_NODE_V2"))) = some file := by decide +kernel
  have hbelow : ¬Below (resolve somePaths.dataDir) file := by decide +kernel
  refine ⟨by decide +kernel, { address, location := str "../../etc" }, by decide +kernel, hfile,
    by decide +kernel, hbelow, fun hall => ?_⟩
  exact hbelow (hall someHost somePaths _ file rfl rfl hfile)

end SlimHub.Logging
