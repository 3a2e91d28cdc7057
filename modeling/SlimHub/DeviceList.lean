import SlimHub.Hub

/-! The device list, and the config that is in force.

    Handling a frame uses the config of the frame's MAC. The list shows a session under its key,
    and puts every config that resolves to the key there, in the order of the file names; a node
    has two of them, one under its BLE address and one under the MAC of its frames. The last one
    stays, whichever it is. -/

namespace SlimHub
open Text Nus Json Ble DeviceConfigStore

variable (interp : Interpreter)

def fileName (stem : Str) : Str := stem ++ str ".json"

theorem fileName_inj {a b : Str} (h : fileName a = fileName b) : a = b :=
  List.append_cancel_right h

/-! ### All configs -/

theorem mapM_of_forall {α β : Type} {f : α → Except PyError β} {g : α → β} :
    ∀ {l : List α}, (∀ a ∈ l, f a = .ok (g a)) → l.mapM f = .ok (l.map g)
  | [], _ => rfl
  | a :: l, h => by
    rw [List.mapM_cons, h a List.mem_cons_self,
      mapM_of_forall fun b hb => h b (List.mem_cons_of_mem a hb)]
    rfl

/-- A loop that ends well has a result for each element, in order. -/
theorem forall₂_of_mapM {α β : Type} {f : α → Except PyError β} :
    ∀ {l : List α} {results : List β}, l.mapM f = .ok results →
      List.Forall₂ (fun a b => f a = .ok b) l results
  | [], results, h => by
    obtain rfl := Except.ok.inj h
    exact .nil
  | a :: l, results, h => by
    rw [List.mapM_cons] at h
    cases hfirst : f a with
    | error exc => simp [hfirst, bind, Except.bind] at h
    | ok b =>
      cases hrest : l.mapM f with
      | error exc => simp [hfirst, hrest, bind, Except.bind] at h
      | ok bs =>
        simp only [hfirst, hrest, bind, Except.bind, pure, Except.pure, Except.ok.injEq] at h
        subst h
        exact .cons hfirst (forall₂_of_mapM hrest)

theorem ok_of_mapM {α β : Type} {f : α → Except PyError β} {l : List α} {results : List β}
    (h : l.mapM f = .ok results) : ∀ a ∈ l, ∃ b, f a = .ok b := by
  have hall := forall₂_of_mapM h
  clear h
  induction hall with
  | nil => exact List.forall_mem_nil _
  | cons hfirst _ ih => exact List.forall_mem_cons.mpr ⟨⟨_, hfirst⟩, ih⟩

theorem mem_of_mapM {α β : Type} {f : α → Except PyError β} {l : List α} {results : List β}
    (h : l.mapM f = .ok results) : ∀ b ∈ results, ∃ a ∈ l, f a = .ok b := by
  have hall := forall₂_of_mapM h
  clear h
  induction hall with
  | nil => exact List.forall_mem_nil _
  | cons hfirst _ ih =>
    refine List.forall_mem_cons.mpr ⟨⟨_, List.mem_cons_self, hfirst⟩, fun b hb => ?_⟩
    obtain ⟨a, ha, hok⟩ := ih b hb
    exact ⟨a, List.mem_cons_of_mem _ ha, hok⟩

namespace DeviceConfigStore

variable {interp} {store : DeviceConfigStore}

/-- What `list_all` gives has been over `__post_init__`. -/
theorem filled_of_listAll {records : List DeviceRecord} (h : store.listAll interp = .ok records) :
    ∀ record ∈ records, record.Filled interp := by
  intro record hrecord
  obtain ⟨file, _, hread⟩ := mem_of_mapM h record hrecord
  exact (readRecord_ok interp hread).2

theorem mem_sortedFiles {path : Str} {content : Bytes} :
    (path, content) ∈ store.sortedFiles ↔ store.files.get? path = some content := by
  rw [sortedFiles, List.mem_mergeSort, Dict.get?_eq_some]

/-- The files are in the order of their names, each name once. -/
theorem sortedFiles_pairwise :
    store.sortedFiles.Pairwise fun a b => fileName a.1 < fileName b.1 := by
  have hle : store.sortedFiles.Pairwise fun a b => fileName a.1 ≤ fileName b.1 := by
    have hsorted := List.pairwise_mergeSort
      (fun (a b c : Str × Bytes) (hab : decide (fileName a.1 ≤ fileName b.1) = true)
        (hbc : decide (fileName b.1 ≤ fileName c.1) = true) =>
          decide_eq_true ((of_decide_eq_true hab).trans (of_decide_eq_true hbc)))
      (fun (a b : Str × Bytes) => by simpa using le_total (fileName a.1) (fileName b.1))
      store.files.entries
    exact hsorted.imp fun h => of_decide_eq_true h
  have hne : store.sortedFiles.Pairwise fun a b => a.1 ≠ b.1 := by
    have hperm := (List.mergeSort_perm store.files.entries
      fun a b => a.1 ++ str ".json" ≤ b.1 ++ str ".json").map Prod.fst
    exact List.pairwise_map.mp (hperm.nodup_iff.mpr store.files.nodup)
  exact (hle.and hne).imp fun h => lt_of_le_of_ne h.1 fun heq => h.2 (fileName_inj heq)

/-- Every config file is readable. -/
def AllReadable (interp : Interpreter) (store : DeviceConfigStore) : Prop :=
  ∀ path content, store.files.get? path = some content → Readable interp content

/-- `list_all` gives every file's config, in the order of the file names, if all are readable. -/
theorem listAll_of_readable (h : Own interp store) (hread : AllReadable interp store) :
    ∃ records, store.listAll interp = .ok records ∧
      records.Pairwise (fun a b => fileName a.address < fileName b.address) ∧
      (∀ record ∈ records, normalizeMac record.address = .ok record.address ∧
        store.load interp record.address = .ok record ∧
        store.files.get? record.address ≠ none) ∧
      ∀ path content, store.files.get? path = some content →
        ∃ record ∈ records, record.address = path := by
  have hfile : ∀ file : Str × Bytes, ∃ record : DeviceRecord, file ∈ store.sortedFiles →
      readRecord interp file.1 file.2 = .ok record ∧ record.address = file.1 ∧
        normalizeMac file.1 = .ok file.1 ∧ store.load interp file.1 = .ok record ∧
          store.files.get? file.1 ≠ none := by
    rintro ⟨path, content⟩
    by_cases hmem : (path, content) ∈ store.sortedFiles
    · have hget := mem_sortedFiles.mp hmem
      obtain ⟨config, rfl, hholds⟩ := h.whole hget (hread path content hget)
      have hnorm := h.path hget
      have hsome : store.files.get? config.address ≠ none := by
        rw [hget]
        exact Option.some_ne_none content
      refine ⟨config.record, fun _ => ⟨?_, rfl, hnorm, load_of_holds interp hholds hnorm, hsome⟩⟩
      cases hholds with
      | whole file filled encodable =>
        obtain rfl := Option.some.inj (file.symm.trans hget)
        exact DeviceConfig.readRecord_content interp filled encodable _
      | absent file _ _ =>
        rw [hget] at file
        cases file
    · exact ⟨⟨[], .null, .null, .null⟩, fun hin => absurd hin hmem⟩
  choose record hrecord using hfile
  refine ⟨store.sortedFiles.map record, ?_, ?_, ?_, ?_⟩
  · exact mapM_of_forall fun file hmem => (hrecord file hmem).1
  · rw [List.pairwise_map]
    refine sortedFiles_pairwise.imp_of_mem ?_
    rintro a b ha hb hlt
    rwa [(hrecord a ha).2.1, (hrecord b hb).2.1]
  · intro r hr
    obtain ⟨file, hmem, rfl⟩ := List.mem_map.mp hr
    obtain ⟨_, haddress, hnorm, hload⟩ := hrecord file hmem
    rw [haddress]
    exact ⟨hnorm, hload⟩
  · intro path content hget
    have hmem := mem_sortedFiles.mpr hget
    exact ⟨_, List.mem_map_of_mem hmem, (hrecord _ hmem).2.1⟩

/-- A file that is not readable is the end of `list_all`. -/
theorem readable_of_listAll {records : List DeviceRecord} (h : store.listAll interp = .ok records) :
    AllReadable interp store := by
  intro path content hget
  obtain ⟨record, hrecord⟩ := ok_of_mapM h (path, content) (mem_sortedFiles.mpr hget)
  exact (readRecord_ok interp hrecord).1

end DeviceConfigStore

/-! ### Rows -/

/-- `showConfig` on a normalised address. -/
def shown (registry : DeviceRegistry) (statuses : Dict Str DeviceRow) (config : DeviceRecord) :
    Dict Str DeviceRow :=
  let key := canonical registry config.address
  let status := (statuses.get? key).getD
    { address := key
      name := []
      connected := false
      lastSeen := 0
      lastError := none
      queuedCommands := 0
      type := some (.str defaultDeviceType) }
  statuses.set key { status with
    packetAddress := some config.address
    configuredName := some config.name
    type := some config.type
    location := some config.location }

variable {registry : DeviceRegistry} {statuses : Dict Str DeviceRow} {configs : List DeviceRecord}
  {key : Str}

theorem foldlM_showConfig : ∀ {configs : List DeviceRecord} {statuses : Dict Str DeviceRow},
    (∀ config ∈ configs, normalizeMac config.address = .ok config.address) →
    configs.foldlM (Hub.showConfig registry) statuses = .ok (configs.foldl (shown registry) statuses)
  | [], _, _ => rfl
  | config :: configs, statuses, h => by
    have hshow : Hub.showConfig registry statuses config = .ok (shown registry statuses config) := by
      rw [Hub.showConfig, DeviceRegistry.resolveAddress, h config List.mem_cons_self]
      rfl
    rw [List.foldlM_cons, hshow, List.foldl_cons]
    exact foldlM_showConfig fun c hc => h c (List.mem_cons_of_mem _ hc)

/-- Every row stands under its address. -/
def Addressed (statuses : Dict Str DeviceRow) : Prop :=
  ∀ key row, statuses.get? key = some row → row.address = key

theorem Addressed.shown (h : Addressed statuses) (config : DeviceRecord) :
    Addressed (shown registry statuses config) := by
  intro key row hrow
  simp only [SlimHub.shown, Dict.get?_set] at hrow
  split at hrow
  · rename_i hkey
    obtain rfl := Option.some.inj hrow
    rw [hkey]
    cases hget : statuses.get? (canonical registry config.address) with
    | none => rfl
    | some row =>
      exact h _ row hget
  · exact h key row hrow

theorem Addressed.foldl (h : Addressed statuses) (configs : List DeviceRecord) :
    Addressed (configs.foldl (SlimHub.shown registry) statuses) := by
  induction configs using List.reverseRecOn with
  | nil => exact h
  | append_singleton configs config ih =>
    rw [List.foldl_append]
    exact ih.shown config

/-- A row with a config in it. -/
def withConfig (row : DeviceRow) (config : DeviceRecord) : DeviceRow :=
  { row with
    packetAddress := some config.address
    configuredName := some config.name
    type := some config.type
    location := some config.location }

/-- The row of an address without a session, before its config is put in. -/
def freshRow (key : Str) : DeviceRow where
  address := key
  name := []
  connected := false
  lastSeen := 0
  lastError := none
  queuedCommands := 0
  type := some (.str defaultDeviceType)

/-- A row holds the last of the configs that resolve to its address. -/
theorem get?_foldl_shown (registry : DeviceRegistry) (statuses : Dict Str DeviceRow) (key : Str)
    (configs : List DeviceRecord) : (configs.foldl (shown registry) statuses).get? key =
      match (configs.filter fun config => canonical registry config.address = key).getLast? with
      | none => statuses.get? key
      | some config => some (withConfig ((statuses.get? key).getD (freshRow key)) config) := by
  induction configs using List.reverseRecOn with
  | nil => rfl
  | append_singleton configs config ih =>
    rw [List.foldl_append, List.foldl_cons, List.foldl_nil, List.filter_append]
    by_cases hkey : canonical registry config.address = key
    · simp only [hkey, List.filter_cons, decide_true, if_true, List.filter_nil,
        List.getLast?_concat]
      simp only [shown, hkey, Dict.get?_set_self, ih]
      -- an earlier config in the row is replaced
      cases (configs.filter fun config => canonical registry config.address = key).getLast? <;> rfl
    · simp only [hkey, List.filter_cons, decide_false, Bool.false_eq_true, if_false,
        List.filter_nil, List.append_nil]
      rw [← ih]
      exact Dict.get?_set_of_ne _ (Ne.symm hkey) _

/-- The last config that resolves to a row's address is the one that the row shows. -/
theorem foldl_shown (registry : DeviceRegistry) (statuses : Dict Str DeviceRow) (key : Str)
    (configs : List DeviceRecord) :
    match (configs.filter fun config => canonical registry config.address = key).getLast? with
    | none => (configs.foldl (shown registry) statuses).get? key = statuses.get? key
    | some config => ∃ row, (configs.foldl (shown registry) statuses).get? key = some row ∧
        row.location = some config.location ∧ row.type = some config.type := by
  rw [get?_foldl_shown]
  cases (configs.filter fun config => canonical registry config.address = key).getLast? with
  | none => rfl
  | some config => exact ⟨_, rfl, rfl, rfl⟩

/-- The rows of the sessions, each under its address. -/
def sessionRows (rows : List DeviceRow) : Dict Str DeviceRow :=
  rows.foldl (fun statuses row => statuses.set row.address row) Dict.empty

/-- The last session under an address has its row. -/
theorem get?_sessionRows (rows : List DeviceRow) (key : Str) :
    (sessionRows rows).get? key = (rows.filter (·.address = key)).getLast? := by
  induction rows using List.reverseRecOn with
  | nil => rfl
  | append_singleton rows row ih =>
    rw [sessionRows, List.foldl_append, List.foldl_cons, List.foldl_nil, Dict.get?_set,
      List.filter_append]
    by_cases hkey : key = row.address
    · simp [hkey]
    · simp only [if_neg hkey, List.filter_cons, Ne.symm hkey, decide_false, Bool.false_eq_true,
        if_false, List.filter_nil, List.append_nil]
      exact ih

theorem sessionRows_spec (rows : List DeviceRow) : Addressed (sessionRows rows) ∧
    (∀ {key row}, (sessionRows rows).get? key = some row → row ∈ rows) ∧
      ∀ row ∈ rows, (sessionRows rows).get? row.address ≠ none := by
  induction rows using List.reverseRecOn with
  | nil =>
    refine ⟨?_, ?_, fun row hrow => absurd hrow List.not_mem_nil⟩
    · rintro key row ⟨⟩
    · rintro key row ⟨⟩
  | append_singleton rows row ih =>
    obtain ⟨haddressed, hmem, hget⟩ := ih
    have hstep : ∀ key, (sessionRows (rows ++ [row])).get? key =
        if key = row.address then some row else (sessionRows rows).get? key := by
      intro key
      rw [sessionRows, List.foldl_append]
      exact Dict.get?_set _ _ _ _
    refine ⟨?_, ?_, ?_⟩
    · intro key row' hrow
      rw [hstep] at hrow
      split at hrow
      · rename_i hkey
        rw [hkey, Option.some.inj hrow]
      · exact haddressed key row' hrow
    · intro key row' hrow
      rw [hstep] at hrow
      split at hrow
      · exact List.mem_append_right _ (List.mem_singleton.mpr (Option.some.inj hrow).symm)
      · exact List.mem_append_left _ (hmem hrow)
    · intro row' hrow
      rw [hstep]
      split
      · exact Option.some_ne_none row
      · rename_i hne
        rcases List.mem_append.mp hrow with hold | hnew
        · exact hget row' hold
        · exact absurd (congrArg DeviceRow.address (List.mem_singleton.mp hnew)) hne

namespace Hub

variable {interp} {h : Hub} (links : Links) {i : SessionRef} {k m : Str} {s : DeviceSession}

theorem listStatus_location {row : DeviceRow} (hrow : row ∈ h.listStatus links) :
    row.location = none := by
  obtain ⟨entry, _, hsession⟩ := List.mem_filterMap.mp hrow
  obtain ⟨session, _, rfl⟩ := Option.map_eq_some_iff.mp hsession
  rfl

/-- Every session in the registry has a row under its address. -/
theorem sessionRows_listStatus (hk : h.registry.sessions.get? k = some i)
    (hs : h.session i = some s) : ∃ row, (sessionRows (h.listStatus links)).get? s.address =
      some row ∧ row.location = none := by
  obtain ⟨_, hmem, hget⟩ := sessionRows_spec (h.listStatus links)
  have hrow : statusRow h.registry links (k, i) s ∈ h.listStatus links :=
    List.mem_filterMap.mpr ⟨(k, i), Dict.get?_eq_some.mp hk, Option.map_eq_some_iff.mpr ⟨s, hs, rfl⟩⟩
  obtain ⟨row', hrow'⟩ := Option.ne_none_iff_exists'.mp (hget _ hrow)
  exact ⟨row', hrow', listStatus_location links (hmem hrow')⟩

/-- The rows once every config has been shown. -/
theorem devicesPayload_ok {records : List DeviceRecord}
    (hall : h.configStore.listAll interp = .ok records)
    (hnorm : ∀ record ∈ records, normalizeMac record.address = .ok record.address) :
    h.devicesPayload interp links = .ok ((records.foldl (shown h.registry)
      (sessionRows (h.listStatus links))).entries.map Prod.snd) := by
  rw [devicesPayload, hall]
  simp only [bind, Except.bind]
  rw [← sessionRows, foldlM_showConfig hnorm]
  rfl

theorem mem_rows {statuses : Dict Str DeviceRow} (haddressed : Addressed statuses)
    {row : DeviceRow} : row ∈ statuses.entries.map Prod.snd ↔
      statuses.get? row.address = some row := by
  rw [Dict.get?_eq_some]
  constructor
  · intro hrow
    obtain ⟨⟨key, row'⟩, hmem, rfl⟩ := List.mem_map.mp hrow
    have hkey := haddressed key row' (Dict.get?_eq_some.mpr hmem)
    simp only [hkey]
    exact hmem
  · intro hmem
    exact List.mem_map.mpr ⟨_, hmem, rfl⟩

end Hub

/-! ### The last config -/

section

variable {interp} {h : Hub} {records : List DeviceRecord} {k m : Str} {i : SessionRef}

/-- An address known only as an alias is what no address resolves to. -/
theorem canonical_ne_aliasOnly {c : BleCentral} (h : Tables c) {a : Str}
    (ha : AliasOnly c.registry a) (b : Str) : canonical c.registry b ≠ a := by
  obtain ⟨hnone, hal⟩ := ha
  unfold canonical
  rintro hcanon
  split at hcanon
  · rename_i hb
    exact hb (hcanon ▸ hnone)
  · cases hb : c.registry.aliases.get? b with
    | none =>
      rw [hb, Option.getD_none] at hcanon
      exact hal (hcanon ▸ hb)
    | some l =>
      rw [hb, Option.getD_some] at hcanon
      exact h.alias_key hb (hcanon ▸ hnone)

/-- In a list in the order of the file names, the last of some records is the greatest. -/
theorem getLast?_pairwise {l : List DeviceRecord} {last record : DeviceRecord}
    (hsorted : l.Pairwise fun a b => fileName a.address < fileName b.address)
    (hlast : l.getLast? = some last) (hrecord : record ∈ l) :
    record = last ∨ fileName record.address < fileName last.address := by
  obtain ⟨init, rfl⟩ := List.getLast?_eq_some_iff.mp hlast
  rcases List.mem_append.mp hrecord with hinit | hsame
  · exact .inr ((List.pairwise_append.mp hsorted).2.2 record hinit last (List.mem_singleton_self _))
  · exact .inl (List.mem_singleton.mp hsame)

/-- The last of all configs that resolve to the key: the alias's, if it resolves to the key and its
    file comes later, else the key's own. -/
theorem last_config {r : DeviceRegistry} (hk : r.sessions.get? k ≠ none)
    (hm : r.aliases.get? m = some k) (honly : ∀ a, r.aliases.get? a = some k → a = m)
    (hsorted : records.Pairwise fun a b => fileName a.address < fileName b.address)
    (hkfile : ∃ record ∈ records, record.address = k)
    (hmfile : ∃ record ∈ records, record.address = m) :
    ∃ last ∈ records,
      (records.filter fun config => canonical r config.address = k).getLast? = some last ∧
        last.address =
          if r.sessions.get? m = none ∧ fileName k < fileName m then m else k := by
  obtain ⟨rk, hrk, hrkk⟩ := hkfile
  obtain ⟨rm, hrm, hrmm⟩ := hmfile
  have hmem : ∀ record, record ∈ records.filter (fun config => canonical r config.address = k) ↔
      record ∈ records ∧ (record.address = k ∨ record.address = m ∧ r.sessions.get? m = none) := by
    intro record
    rw [List.mem_filter, decide_eq_true_eq, canonical_eq_key hk hm honly]
  have hsorted' := hsorted.filter fun config => canonical r config.address = k
  have hkmem := (hmem rk).mpr ⟨hrk, .inl hrkk⟩
  cases hlast : (records.filter fun config => canonical r config.address = k).getLast? with
  | none =>
    rw [List.getLast?_eq_none_iff] at hlast
    rw [hlast] at hkmem
    cases hkmem
  | some last =>
    obtain ⟨hin, haddress⟩ := (hmem last).mp (List.mem_of_getLast? hlast)
    refine ⟨last, hin, rfl, ?_⟩
    split
    · -- the alias's record is there, so nothing before it is last
      rename_i hcond
      rcases getLast?_pairwise hsorted' hlast ((hmem rm).mpr ⟨hrm, .inr ⟨hrmm, hcond.1⟩⟩) with
        heq | hlt
      · exact heq ▸ hrmm
      · rcases haddress with heq | ⟨heq, _⟩
        · rw [hrmm, heq] at hlt
          exact absurd hlt hcond.2.not_gt
        · exact heq
    · rename_i hcond
      rcases haddress with heq | ⟨heq, hnone⟩
      · exact heq
      · rcases getLast?_pairwise hsorted' hlast hkmem with hsame | hlt
        · rw [← hsame, hrkk]
        · rw [hrkk, heq] at hlt
          exact absurd ⟨hnone, hlt⟩ hcond

end

/-! ### What a row shows -/

/-- The session's row shows the location and the type of the config that is loaded for `m`. -/
def Hub.ShowsConfig (h : Hub) (links : Links) (s : DeviceSession) (m : Str) : Prop :=
  ∃ rows record, h.devicesPayload interp links = .ok rows ∧
    h.configStore.load interp m = .ok record ∧
      ∃ row ∈ rows, row.address = s.address ∧
        row.location = some record.location ∧ row.type = some record.type

/-- Two addresses have configs with the same location and type. -/
def DeviceConfigStore.Agree (store : DeviceConfigStore) (a b : Str) : Prop :=
  ∃ ra rb, store.load interp a = .ok ra ∧ store.load interp b = .ok rb ∧
    ra.location = rb.location ∧ ra.type = rb.type

/-- What a session's row shows, in terms of the rows once every config has been shown. -/
theorem showsConfig_iff_get? {links : Links} {h : Hub} {s : DeviceSession} {m : Str}
    {statuses : Dict Str DeviceRow} (haddressed : Addressed statuses)
    (hpayload : h.devicesPayload interp links = .ok (statuses.entries.map Prod.snd)) :
    h.ShowsConfig interp links s m ↔ ∃ row record, statuses.get? s.address = some row ∧
      h.configStore.load interp m = .ok record ∧
        row.location = some record.location ∧ row.type = some record.type := by
  constructor
  · rintro ⟨rows, record, hrows, hload, row, hrow, haddress, hshow⟩
    obtain rfl := Except.ok.inj (hpayload.symm.trans hrows)
    rw [Hub.mem_rows haddressed, haddress] at hrow
    exact ⟨row, record, hrow, hload, hshow⟩
  · rintro ⟨row, record, hget, hload, hshow⟩
    have haddress := haddressed _ row hget
    exact ⟨_, record, hpayload, hload, row, (Hub.mem_rows haddressed).mpr (haddress ▸ hget), haddress,
      hshow⟩

theorem Hub.Sound.showsConfig_iff {h : Hub} (hsound : h.Sound interp) (links : Links) {k m : Str}
    {i : SessionRef} {s : DeviceSession} (hk : h.registry.sessions.get? k = some i)
    (hs : h.session i = some s) (hm : h.registry.aliases.get? m = some k)
    (honly : ∀ a, h.registry.aliases.get? a = some k → a = m) :
    h.ShowsConfig interp links s m ↔ AllReadable interp h.configStore ∧ s.address = k ∧
      (h.registry.sessions.get? m = none ∧ fileName k < fileName m ∨
        h.configStore.Agree interp k m) := by
  by_cases hread : AllReadable interp h.configStore
  · obtain ⟨records, hall, hsorted, hrecord, hfiles⟩ := listAll_of_readable hsound.own hread
    have hpayload := Hub.devicesPayload_ok links hall fun record hr => (hrecord record hr).1
    have haddressed : Addressed (records.foldl (shown h.registry)
        (sessionRows (h.listStatus links))) :=
      (sessionRows_spec (h.listStatus links)).1.foldl records
    have hrow := foldl_shown h.registry (sessionRows (h.listStatus links)) s.address records
    rw [showsConfig_iff_get? interp haddressed hpayload]
    by_cases haddress : s.address = k
    · have hkne : h.registry.sessions.get? k ≠ none := by rw [hk]; exact Option.some_ne_none i
      have hmne : h.registry.aliases.get? m ≠ none := by rw [hm]; exact Option.some_ne_none k
      obtain ⟨_, hkfile⟩ := Option.ne_none_iff_exists'.mp (hsound.keyFile hkne)
      obtain ⟨_, hmfile⟩ := Option.ne_none_iff_exists'.mp (hsound.aliasFile hmne)
      obtain ⟨last, hin, hlast, hlastAddress⟩ := last_config hkne hm honly hsorted
        (hfiles k _ hkfile) (hfiles m _ hmfile)
      rw [haddress, hlast] at hrow
      obtain ⟨row, hget, hlocation, htype⟩ := hrow
      have hload := (hrecord last hin).2.1
      rw [haddress, hget]
      by_cases hcond : h.registry.sessions.get? m = none ∧ fileName k < fileName m
      · rw [hlastAddress, if_pos hcond] at hload
        exact iff_of_true ⟨row, last, rfl, hload, hlocation, htype⟩ ⟨hread, rfl, .inl hcond⟩
      · rw [hlastAddress, if_neg hcond] at hload
        constructor
        · rintro ⟨row', record, hsame, hm', hlocation', htype'⟩
          obtain rfl := Option.some.inj hsame
          exact ⟨hread, rfl, .inr ⟨last, record, hload, hm',
            Option.some.inj (hlocation.symm.trans hlocation'),
            Option.some.inj (htype.symm.trans htype')⟩⟩
        · rintro ⟨_, _, hor⟩
          obtain ⟨rk, rm, hk', hm', hlocation', htype'⟩ := hor.resolve_left hcond
          obtain rfl := Except.ok.inj (hload.symm.trans hk')
          exact ⟨row, rm, rfl, hm', hlocation' ▸ hlocation, htype' ▸ htype⟩
    · -- the session was retargeted to an alias, which is no config's row
      refine iff_of_false ?_ fun hr => haddress hr.2.1
      obtain ⟨k', hk', hname, _⟩ := hsound.daemon.tables.stored hs
      obtain rfl := hsound.daemon.tables.key_eq hk' hk
      have hal := hname.resolve_left haddress
      have hnone : records.filter (fun config =>
          canonical h.registry config.address = s.address) = [] := by
        refine List.filter_eq_nil_iff.mpr fun config _ => ?_
        exact fun heq => canonical_ne_aliasOnly hsound.daemon.tables hal config.address
          (of_decide_eq_true heq)
      rw [hnone, List.getLast?_nil] at hrow
      obtain ⟨row, hget, hlocation⟩ := Hub.sessionRows_listStatus links hk hs
      rintro ⟨row', record, hget', _, hlocation', _⟩
      rw [hrow, hget] at hget'
      obtain rfl := Option.some.inj hget'
      rw [hlocation] at hlocation'
      cases hlocation'
  · refine iff_of_false ?_ fun hr => hread hr.1
    rintro ⟨rows, record, hpayload, _⟩
    rw [Hub.devicesPayload] at hpayload
    cases hall : h.configStore.listAll interp with
    | error exc => simp [hall, bind, Except.bind] at hpayload
    | ok records => exact hread (readable_of_listAll hall)

/-- CORRECT: in every reachable state, the row of a session whose frames carry another MAC shows the
    MAC's config exactly when every config file is readable, the session has its own address, and
    the MAC's config comes after that of the address, or says the same. -/
theorem row_shows_config_iff (links : Links) {store : DeviceConfigStore} (hstore : Own interp store)
    {as : List Hub.Action} {h : Hub}
    (hrun : Machine.run (Hub.step interp) as (Hub.start store) = some h)
    {k m : Str} {i : SessionRef} {s : DeviceSession} (hk : h.registry.sessions.get? k = some i)
    (hs : h.session i = some s) (hm : h.registry.aliases.get? m = some k) (_hne : m ≠ k)
    (honly : ∀ a, h.registry.aliases.get? a = some k → a = m) :
    h.ShowsConfig interp links s m ↔ AllReadable interp h.configStore ∧ s.address = k ∧
      (h.registry.sessions.get? m = none ∧ fileName k < fileName m ∨
        h.configStore.Agree interp k m) :=
  (Hub.Sound.run hstore hrun).showsConfig_iff interp links hk hs hm honly

/-- A scan finds a node, a frame of it makes its MAC AA:BB:CC:DD:EE:FF an alias, and the operator
    puts that MAC in the kitchen. -/
def placedNode (address : Str) : List Hub.Action :=
  [.scan (.device address (some defaultDeviceName)) 0, .notify 0 enterFrame, .handle 0 (.ok ()),
    .configSet (str "AA:BB:CC:DD:EE:FF") (str "location") (str "kitchen")]

/-- A node whose address comes first: its row shows the kitchen. -/
theorem first_address_shows_config : ∃ h s,
    Machine.run (Hub.step freshInterpreter) (placedNode (str "11:22:33:44:55:66"))
      (Hub.start ⟨Dict.empty⟩) = some h ∧ h.session 0 = some s ∧
        h.ShowsConfig freshInterpreter (fun _ => (true, none)) s (str "AA:BB:CC:DD:EE:FF") := by
  have hstate : (Machine.run (Hub.step freshInterpreter) (placedNode (str "11:22:33:44:55:66"))
      (Hub.start ⟨Dict.empty⟩)).map (fun h => decide (
        h.registry.sessions.get? (str "11:22:33:44:55:66") = some 0 ∧
        h.registry.sessions.get? (str "AA:BB:CC:DD:EE:FF") = none ∧
        h.registry.aliases.entries = [(str "AA:BB:CC:DD:EE:FF", str "11:22:33:44:55:66")] ∧
        (h.session 0).map (·.address) = some (str "11:22:33:44:55:66") ∧
        h.configStore.files.entries.all (fun file => (readMembers freshInterpreter file.2).isOk) =
          true)) = some true := by decide +kernel
  obtain ⟨h, hrun, hfacts⟩ := Option.map_eq_some_iff.mp hstate
  obtain ⟨hkey, hnone, haliases, hsession, hlist⟩ := of_decide_eq_true hfacts
  obtain ⟨s, hs, haddress⟩ := Option.map_eq_some_iff.mp hsession
  obtain ⟨hm, honly⟩ := aliases_singleton haliases
  have hread : AllReadable freshInterpreter h.configStore := by
    intro path content hget
    have hok := List.all_eq_true.mp hlist _ (Dict.get?_eq_some.mp hget)
    cases hread : readMembers freshInterpreter content with
    | ok data => exact ⟨data, hread⟩
    | error exc => simp only [hread] at hok; cases hok
  exact ⟨h, s, hrun, hs, (row_shows_config_iff freshInterpreter _ (Own.empty _) hrun hkey hs hm
    (by decide) honly).mpr ⟨hread, haddress, .inl ⟨hnone, by decide⟩⟩⟩

/-- A node whose address comes last: its row shows the location of the config that the scan made. -/
theorem last_address_hides_config : ∃ h s,
    Machine.run (Hub.step freshInterpreter) (placedNode (str "BB:22:33:44:55:66"))
      (Hub.start ⟨Dict.empty⟩) = some h ∧
        h.registry.sessions.get? (str "BB:22:33:44:55:66") = some 0 ∧ h.session 0 = some s ∧
        h.registry.aliases.get? (str "AA:BB:CC:DD:EE:FF") = some (str "BB:22:33:44:55:66") ∧
        (∀ a, h.registry.aliases.get? a = some (str "BB:22:33:44:55:66") →
          a = str "AA:BB:CC:DD:EE:FF") ∧
        ¬ h.ShowsConfig freshInterpreter (fun _ => (true, none)) s (str "AA:BB:CC:DD:EE:FF") := by
  have hstate : (Machine.run (Hub.step freshInterpreter) (placedNode (str "BB:22:33:44:55:66"))
      (Hub.start ⟨Dict.empty⟩)).map (fun h => decide (
        h.registry.sessions.get? (str "BB:22:33:44:55:66") = some 0 ∧
        h.registry.aliases.entries = [(str "AA:BB:CC:DD:EE:FF", str "BB:22:33:44:55:66")] ∧
        (h.session 0).isSome = true ∧
        ((h.configStore.load freshInterpreter (str "BB:22:33:44:55:66")).toOption.map
          fun r => fieldText freshInterpreter r.location) = some (str "undefined") ∧
        ((h.configStore.load freshInterpreter (str "AA:BB:CC:DD:EE:FF")).toOption.map
          fun r => fieldText freshInterpreter r.location) = some (str "kitchen"))) = some true := by
    decide +kernel
  obtain ⟨h, hrun, hfacts⟩ := Option.map_eq_some_iff.mp hstate
  obtain ⟨hkey, haliases, hsession, hundefined, hkitchen⟩ := of_decide_eq_true hfacts
  obtain ⟨s, hs⟩ := Option.isSome_iff_exists.mp hsession
  obtain ⟨hm, honly⟩ := aliases_singleton haliases
  refine ⟨h, s, hrun, hkey, hs, hm, honly, ?_⟩
  rw [(Hub.Sound.run (Own.empty _) hrun).showsConfig_iff _ _ hkey hs hm honly]
  rintro ⟨_, _, ⟨_, horder⟩ | ⟨rk, rm, hk, hm', hlocation, _⟩⟩
  · exact absurd horder (by decide)
  · rw [hk] at hundefined
    rw [hm'] at hkitchen
    simp only [Except.toOption, Option.map_some, Option.some.injEq, hlocation]
      at hundefined hkitchen
    exact absurd (hundefined.symm.trans hkitchen) (by decide)

end SlimHub
