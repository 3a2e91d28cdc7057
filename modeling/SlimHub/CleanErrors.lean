import SlimHub.Requests

/-! What a request raises can always be written down.

        f"… {text!r} …" ──▶ repr escapes surrogates         f"… {address} …" ──▶ in normal form

    Every exception on the way from a client's line to its answer is `Clean`: the texts that are put
    into its message as they are hold no surrogate. -/

namespace SlimHub
open Text Nus Json Ble Unitspace Asyncio LineReader Logging

variable {rt : Runtime}

/-! ### Texts without surrogates -/

theorem noSurrogate_str (s : String) : noSurrogate (str s) = true := by
  refine List.all_eq_true.mpr fun c hc => ?_
  obtain ⟨d, _, rfl⟩ := List.mem_map.mp hc
  have hval : (chr d).val = d.val.toNat := rfl
  have hvalid : d.val.toNat < 0xD800 ∨ 0xDFFF < d.val.toNat ∧ d.val.toNat < 0x110000 := d.valid
  simp only [isSurrogate, hval, Bool.not_eq_true', decide_eq_false_iff_not]
  omega

theorem noSurrogate_hexText (b : Bytes) : noSurrogate (hexText b) = true := by
  have hdigit : hexdigits.all (fun c =>
      !isSurrogate (if 65 ≤ c.val ∧ c.val ≤ 70 then c + 32 else c)) = true := by decide
  have hspace : noSurrogate (str " ") = true := by decide
  refine List.all_eq_true.mpr fun c hc => ?_
  rcases mem_of_mem_intercalate hc with hmem | ⟨p, hp, hmem⟩
  · exact List.all_eq_true.mp hspace c hmem
  · obtain ⟨x, _, rfl⟩ := List.mem_map.mp hp
    obtain ⟨d, hd, rfl⟩ := List.mem_map.mp hmem
    have hx := x.toNat_lt
    have hhex : d ∈ hexdigits := by
      simp only [hexByte, List.mem_cons, List.not_mem_nil, or_false] at hd
      rcases hd with rfl | rfl
      · exact digit_mem _ (by omega)
      · exact digit_mem _ (by omega)
    exact List.all_eq_true.mp hdigit d hhex

/-- A message can be encoded just when its parts are clean. -/
theorem noSurrogate_messageText (parts : List Part) :
    noSurrogate (messageText rt parts) = true ↔ ∀ part ∈ parts, part.Clean := by
  have hpart : ∀ part : Part, noSurrogate (partText rt part) = true ↔ part.Clean := by
    intro part
    cases part with
    | lit s => simp [partText, Part.Clean, noSurrogate_str]
    | str s => rfl
    | repr s => simp [partText, Part.Clean, rt.strRepr_clean]
    | int n => simp [partText, Part.Clean, noSurrogate_intText]
    | hex b => simp [partText, Part.Clean, noSurrogate_hexText]
  induction parts with
  | nil => simp [messageText]
  | cons part parts ih =>
    rw [List.forall_mem_cons, messageText, List.flatMap_cons, noSurrogate_append, Bool.and_eq_true]
    exact and_congr (hpart part) ih

theorem noSurrogate_errorText {exc : PyError} (h : exc.Clean) :
    noSurrogate (errorText rt exc) = true := by
  unfold errorText
  split
  · exact rt.libraryText_clean exc.cls
  · exact (noSurrogate_messageText exc.message).mpr h

theorem noSurrogate_of_normalizeMac {mac address : Str} (h : normalizeMac mac = .ok address) :
    noSurrogate address = true := by
  obtain ⟨_, rfl⟩ := normalizeMac_ok_iff.mp h
  exact noSurrogate_macText _

/-! ### What is raised -/

/-- What is raised is clean. -/
def Tidy {α : Type} (result : Except PyError α) : Prop := ∀ exc, result = .error exc → exc.Clean

section
variable {α β : Type}

theorem tidy_ok (a : α) : Tidy (.ok a : Except PyError α) := by
  intro exc h
  cases h

theorem tidy_error {exc : PyError} (h : exc.Clean) : Tidy (.error exc : Except PyError α) := by
  intro exc' h'
  exact Except.error.inj h' ▸ h

theorem Tidy.bind {result : Except PyError α} (h : Tidy result) {f : α → Except PyError β}
    (hf : ∀ a, Tidy (f a)) : Tidy (result >>= f) := by
  cases result with
  | error exc => exact tidy_error (h exc rfl)
  | ok a => exact hf a

theorem Tidy.map {result : Except PyError α} (h : Tidy result) (f : α → β) :
    Tidy (result.map f) := by
  cases result with
  | error exc => exact tidy_error (h exc rfl)
  | ok a => exact tidy_ok (f a)

theorem clean_silent (cls : ExnClass) : PyError.Clean ⟨cls, []⟩ := by
  intro part hpart
  cases hpart

theorem clean_lit {cls : ExnClass} {parts : List Part}
    (h : ∀ part ∈ parts, ∀ s, part = .str s → noSurrogate s = true) :
    PyError.Clean ⟨cls, parts⟩ := by
  intro part hpart
  cases part with
  | str s => exact h _ hpart s rfl
  | _ => trivial

end

theorem tidy_normalizeMac (mac : Str) : Tidy (normalizeMac mac) := by
  unfold normalizeMac
  split
  · exact tidy_error (clean_lit (by simp))
  · exact tidy_ok _

theorem tidy_compactItems : ∀ items : List Value, Tidy (compactItems items)
  | [] => tidy_ok _
  | .str s :: items => (tidy_compactItems items).bind fun _ => tidy_ok _
  | .null :: _ | .bool _ :: _ | .int _ :: _ | .float _ :: _ | .arr _ :: _ | .obj _ :: _ =>
    tidy_error (clean_lit (by simp))

theorem tidy_normalizeItems (value : Value) (items : List Value) :
    Tidy (normalizeItems rt.toInterpreter value items) := by
  unfold normalizeItems
  cases hitems : compactItems items with
  | error exc => exact tidy_error (tidy_compactItems items exc hitems)
  | ok compacted =>
    simp only
    cases normalizeMac compacted with
    | error exc =>
      refine tidy_error (clean_lit ?_)
      simp [rt.valueRepr_clean]
    | ok mac => exact tidy_ok mac

theorem tidy_normalizeMacValue (value : Value) :
    Tidy (normalizeMacValue rt.toInterpreter value) := by
  cases value with
  | str mac => exact tidy_normalizeMac mac
  | arr items => exact tidy_normalizeItems _ items
  | obj members => exact tidy_normalizeItems _ _
  | null => exact tidy_error (clean_lit (by simp))
  | bool b => exact tidy_error (clean_lit (by simp))
  | int n => exact tidy_error (clean_lit (by simp))
  | float s => exact tidy_error (clean_lit (by simp))

theorem tidy_readMembers (interp : Interpreter) (content : Bytes) :
    Tidy (readMembers interp content) := by
  unfold readMembers
  cases utf8Decode content with
  | none => exact tidy_error (clean_silent _)
  | some text =>
    simp only
    split
    · exact tidy_ok _
    · exact tidy_error (clean_lit (by simp))
    all_goals exact tidy_error (clean_silent _)

theorem tidy_new (address type name location : Value) :
    Tidy (DeviceRecord.new rt.toInterpreter address type name location) :=
  (tidy_normalizeMacValue address).bind fun _ => tidy_ok _

theorem tidy_readRecord (stem : Str) (content : Bytes) :
    Tidy (DeviceConfigStore.readRecord rt.toInterpreter stem content) :=
  (tidy_readMembers _ content).bind fun _ => tidy_new _ _ _ _

theorem tidy_load (store : DeviceConfigStore) (address : Str) :
    Tidy (store.load rt.toInterpreter address) := by
  refine (tidy_normalizeMac address).bind fun normalized => ?_
  refine (tidy_normalizeMac normalized).bind fun path => ?_
  cases store.files.get? path with
  | none => exact tidy_new _ _ _ _
  | some content => exact tidy_readRecord _ content

theorem tidy_listAll (store : DeviceConfigStore) : Tidy (store.listAll rt.toInterpreter) := by
  unfold DeviceConfigStore.listAll
  induction store.sortedFiles with
  | nil => exact tidy_ok _
  | cons file files ih =>
    rw [List.mapM_cons]
    exact (tidy_readRecord _ _).bind fun _ => ih.bind fun _ => tidy_ok _

/-- An exception of a write. -/
theorem clean_writeMembers {interp : Interpreter} {members : List (Str × Value)} {exc : PyError}
    (h : (writeMembers interp members).2 = some exc) : exc.Clean := by
  unfold writeMembers at h
  split at h
  · obtain rfl := Option.some.inj h
    exact clean_silent _
  · obtain ⟨fault, _, rfl⟩ := Option.map_eq_some_iff.mp h
    cases fault with
    | encoder fault => exact clean_silent _
    | encoding text => exact clean_lit (by simp)

theorem tidy_written {α : Type} {interp : Interpreter} {members : List (Str × Value)} (a : α) :
    Tidy (match (writeMembers interp members).2 with
      | none => .ok a
      | some exc => .error exc) := by
  cases h : (writeMembers interp members).2 with
  | none => exact tidy_ok a
  | some exc => exact tidy_error (clean_writeMembers h)

theorem tidy_save (store : DeviceConfigStore) (record : DeviceRecord) :
    Tidy (store.save rt.toInterpreter record).2 := by
  unfold DeviceConfigStore.save
  simp only
  cases h : normalizeMac record.address with
  | error exc => exact tidy_error (tidy_normalizeMac _ exc h)
  | ok address =>
    simp only
    cases hpath : normalizeMac address with
    | error exc => exact tidy_error (tidy_normalizeMac _ exc hpath)
    | ok path => exact tidy_written _

theorem tidy_setField (store : DeviceConfigStore) (address field value : Str) :
    Tidy (store.setField rt.toInterpreter address field value).2 := by
  unfold DeviceConfigStore.setField
  split
  · exact tidy_error (clean_lit (by simp))
  · cases h : store.load rt.toInterpreter address with
    | error exc => exact tidy_error (tidy_load store address exc h)
    | ok record => exact tidy_save store _

theorem tidy_ensure (store : DeviceConfigStore) (address deviceType name : Str) :
    Tidy (store.ensure rt.toInterpreter address deviceType name).2 := by
  unfold DeviceConfigStore.ensure
  cases hpath : normalizeMac address with
  | error exc => exact tidy_error (tidy_normalizeMac address exc hpath)
  | ok path =>
    simp only
    cases h : store.load rt.toInterpreter address with
    | error exc => exact tidy_error (tidy_load store address exc h)
    | ok record => exact tidy_save store _

theorem tidy_hubSave (config : HubConfig) : Tidy (HubConfigStore.save rt.toInterpreter config).2 :=
  tidy_written config

theorem tidy_loadOrCreate (store : HubConfigStore) :
    Tidy (store.loadOrCreate rt.toInterpreter).2 := by
  unfold HubConfigStore.loadOrCreate
  cases store.file with
  | none => exact tidy_hubSave _
  | some content => exact (tidy_readMembers _ content).map _

theorem tidy_hubSetField (store : HubConfigStore) (field value : Str) :
    Tidy (store.setField rt.toInterpreter field value).2 := by
  have hload := @tidy_loadOrCreate rt store
  unfold HubConfigStore.setField
  split
  · exact tidy_error (clean_lit (by simp))
  · revert hload
    rcases store.loadOrCreate rt.toInterpreter with ⟨store', exc | config⟩
    · exact fun hload => tidy_error (hload exc rfl)
    · exact fun _ => tidy_hubSave _

theorem tidy_apply (store : DeviceConfigStore) (change : ConfigWrite) :
    Tidy (change.apply rt.toInterpreter store).2 := by
  cases change with
  | configSet address field value => exact tidy_setField store address field value
  | scanned target =>
    rw [ConfigWrite.apply]
    cases h : normalizeMac target.addressText with
    | error exc => exact tidy_error (tidy_normalizeMac _ exc h)
    | ok address => exact tidy_ensure store _ _ _
  | connected address sessionName =>
    rw [ConfigWrite.apply]
    cases h : normalizeMac address with
    | error exc => exact tidy_error (tidy_normalizeMac _ exc h)
    | ok normalized => exact tidy_ensure store _ _ _
  | framed mac =>
    rw [ConfigWrite.apply, DeviceConfigStore.loadAndSave]
    cases h : store.load rt.toInterpreter mac with
    | error exc => exact tidy_error (tidy_load store mac exc h)
    | ok record => exact tidy_save store record

/-! ### What is asked -/

theorem tidy_decodeLine (line : Bytes) : Tidy (decodeLine rt line) := by
  unfold decodeLine
  cases utf8Decode line with
  | none => exact tidy_error (clean_silent _)
  | some text =>
    simp only
    split
    · exact tidy_ok _
    all_goals exact tidy_error (clean_silent _)

theorem tidy_intOf (value : Value) : Tidy (intOf rt value) := by
  have hgiven : ∀ value, Tidy ((rt.toInt value).mapError fun cls => (⟨cls, []⟩ : PyError)) := by
    intro value
    cases rt.toInt value with
    | error cls => exact tidy_error (clean_silent cls)
    | ok n => exact tidy_ok n
  cases value with
  | bool b => exact tidy_ok _
  | int n => exact tidy_ok n
  | float s => exact hgiven (.float s)
  | str s => exact hgiven (.str s)
  | null => exact tidy_error (clean_lit (by simp))
  | arr items => exact tidy_error (clean_lit (by simp))
  | obj members => exact tidy_error (clean_lit (by simp))

theorem tidy_argument (args : List (Str × Value)) (key : String) : Tidy (argument args key) := by
  unfold argument
  cases Dict.find (str key) args with
  | none => exact tidy_error (clean_lit (by simp))
  | some value => exact tidy_ok value

/-- An answer of `raw.tail`: a clean exception, or lines without surrogates. -/
structure TailAnswer (answer : Except PyError (List Str)) : Prop where
  tidy : Tidy answer
  lines : ∀ lines, answer = .ok lines → ∀ line ∈ lines, noSurrogate line = true

theorem mem_universalNewlines : ∀ {s : Str} {c : CodePoint}, c ∈ universalNewlines s →
    c ∈ s ∨ c.val = 0x0A := by
  intro s c hc
  fun_induction universalNewlines s with
  | case1 => cases hc
  | case2 => exact .inr (by rw [List.mem_singleton.mp hc]; rfl)
  | case3 b hb d s hd ih =>
    rcases List.mem_cons.mp hc with rfl | hc
    · exact .inr rfl
    · exact (ih hc).imp_left fun h => List.mem_cons_of_mem b (List.mem_cons_of_mem d h)
  | case4 b hb d s hd ih =>
    rcases List.mem_cons.mp hc with rfl | hc
    · exact .inr rfl
    · exact (ih hc).imp_left fun h => List.mem_cons_of_mem b h
  | case5 b s hb ih =>
    rcases List.mem_cons.mp hc with rfl | hc
    · exact .inl List.mem_cons_self
    · exact (ih hc).imp_left fun h => List.mem_cons_of_mem b h

theorem flatten_readlines (s : Str) : (readlines s).flatten = s := by
  fun_induction readlines s with
  | case1 => rfl
  | case2 c s hc ih => rw [List.flatten_cons, ih]; rfl
  | case3 c s hc hnil ih =>
    rw [hnil] at ih
    rw [← ih]
    rfl
  | case4 c s hc line lines hcons ih =>
    rw [hcons] at ih
    rw [← ih]
    rfl

/-- What `_tail_raw` returns was decoded. -/
theorem tailAnswer_tailRaw (paths : AppPaths) (mtime : Files.Path → ℚ) (fs : Files.FS)
    (address : Option Str) (lines : ℤ) : TailAnswer (tailRaw paths mtime fs address lines) := by
  have hfiles : Tidy (rawFiles paths fs address) := by
    cases address with
    | none => exact tidy_ok _
    | some address => exact (tidy_normalizeMac address).bind fun _ => tidy_ok _
  constructor
  · refine hfiles.bind fun files => ?_
    split
    · exact tidy_ok _
    · split
      · exact tidy_error (clean_silent _)
      · split
        · exact tidy_error (clean_silent _)
        · exact tidy_ok _
  · intro found hfound line hline
    rw [tailRaw] at hfound
    cases hraw : rawFiles paths fs address with
    | error exc => rw [hraw] at hfound; cases hfound
    | ok files =>
      rw [hraw] at hfound
      simp only [bind, Except.bind] at hfound
      split at hfound
      · obtain rfl := Except.ok.inj hfound
        cases hline
      · split at hfound
        · cases hfound
        · split at hfound
          · cases hfound
          · rename_i text htext
            obtain rfl := Except.ok.inj hfound
            obtain ⟨whole, hwhole, rfl⟩ := List.mem_map.mp hline
            refine List.all_eq_true.mpr fun c hc => ?_
            have hc : c ∈ universalNewlines text := by
              rw [← flatten_readlines (universalNewlines text)]
              exact List.mem_flatten.mpr ⟨whole, List.mem_of_mem_drop hwhole,
                (List.rdropWhile_prefix _ _).subset hc⟩
            rcases mem_universalNewlines hc with hmem | hval
            · rw [isSurrogate_of_utf8Decode htext c hmem]
              rfl
            · rw [isSurrogate_of_lt (by omega)]
              rfl

/-- A request, or what was raised on the way to it, answers as `raw.tail` does if it touches nothing
    shared. -/
def Asks (result : Except PyError Request) : Prop :=
  ∀ answer, (match result with
    | .ok request => request
    | .error exc => .other (.error exc)) = .other answer → TailAnswer answer

theorem asks_error {exc : PyError} (h : exc.Clean) : Asks (.error exc) := by
  rintro answer ⟨⟩
  exact ⟨tidy_error h, fun _ hok => nomatch hok⟩

theorem Asks.bind {α : Type} {result : Except PyError α} (h : Tidy result)
    {f : α → Except PyError Request} (hf : ∀ a, Asks (f a)) : Asks (result >>= f) := by
  cases result with
  | error exc => exact asks_error (h exc rfl)
  | ok a => exact hf a

theorem asks_ite {p : Prop} [Decidable p] {yes no : Except PyError Request} (hyes : Asks yes)
    (hno : Asks no) : Asks (if p then yes else no) := by
  split
  · exact hyes
  · exact hno

theorem tidy_argsOf (request : List (Str × Value)) : Tidy (argsOf rt request) := by
  unfold argsOf
  split
  · exact tidy_ok _
  · split
    · exact tidy_error (clean_lit (by simp))
    · exact tidy_ok _

theorem asks_unknownCommand (command : Value) : Asks (unknownCommand rt command) := by
  refine asks_error (clean_lit ?_)
  simp [rt.valueRepr_clean]

section
variable {tail : Option Str → ℤ → Except PyError (List Str)}
  (htail : ∀ address lines, TailAnswer (tail address lines))

include htail

theorem asks_readCommand (args : List (Str × Value)) (command : Str) :
    Asks (readCommand rt tail args command) := by
  have htext : ∀ key, Tidy ((argument args key).map (textOf rt)) := fun key =>
    (tidy_argument args key).map _
  have hplain : ∀ {request : Request}, (∀ answer, request ≠ .other answer) →
      Asks (.ok request) := fun hne answer h => absurd h (hne answer)
  refine asks_ite (hplain (by simp)) ?_ -- stop
  refine asks_ite (hplain (by simp)) ?_ -- devices
  refine asks_ite (Asks.bind (htext _) fun _ => hplain (by simp)) ?_ -- connect
  refine asks_ite (hplain (by simp)) ?_ -- command.send
  refine asks_ite (Asks.bind (htext _) fun _ => Asks.bind (htext _) fun _ =>
    Asks.bind (htext _) fun _ => hplain (by simp)) ?_ -- config.set
  refine asks_ite (hplain (by simp)) ?_ -- config.apply
  refine asks_ite (Asks.bind (htext _) fun _ => Asks.bind (htext _) fun _ =>
    hplain (by simp)) ?_ -- hub.config.set
  refine asks_ite (hplain (by simp)) ?_ -- service
  refine asks_ite (hplain (by simp)) ?_ -- reset
  refine asks_ite (hplain (by simp)) ?_ -- model
  refine asks_ite (hplain (by simp)) ?_ -- feature
  refine asks_ite (hplain (by simp)) ?_ -- file
  refine asks_ite (hplain (by simp)) ?_ -- unitspace.status
  refine asks_ite (Asks.bind (tidy_intOf _) fun lines => ?_) (asks_unknownCommand _) -- raw.tail
  rintro answer ⟨⟩
  exact htail _ lines

theorem asks_readRequest (value : Value) : Asks (readRequest rt tail value) := by
  cases value with
  | obj request =>
    refine Asks.bind (tidy_argsOf request) fun args => ?_
    split
    · exact asks_readCommand htail args _
    · exact asks_unknownCommand _
  | null => exact asks_error (clean_lit (by simp))
  | bool b => exact asks_error (clean_lit (by simp))
  | int n => exact asks_error (clean_lit (by simp))
  | float s => exact asks_error (clean_lit (by simp))
  | str s => exact asks_error (clean_lit (by simp))
  | arr items => exact asks_error (clean_lit (by simp))

end

/-- A line that asks for something else than shared data is answered cleanly. -/
theorem requestOf_other {paths : AppPaths} {mtime : Files.Path → ℚ} {self : Station}
    {line : Except Overrun Bytes} {answer : Except PyError (List Str)}
    (h : requestOf rt paths mtime self line = .other answer) : TailAnswer answer := by
  have hoverrun : Tidy (line.mapError overrunError) := by
    cases line with
    | ok line => exact tidy_ok line
    | error overrun =>
      cases overrun with
      | found => exact tidy_error (clean_lit (by simp))
      | notFound => exact tidy_error (clean_lit (by simp))
  have hasks : Asks (do
      let value ← decodeLine rt (← line.mapError overrunError)
      readRequest rt (tailRaw paths mtime self.logger.disk) value) :=
    Asks.bind hoverrun fun line => Asks.bind (tidy_decodeLine line) fun value =>
      asks_readRequest (tailAnswer_tailRaw paths mtime self.logger.disk) value
  exact hasks answer h

end SlimHub
