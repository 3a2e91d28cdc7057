import SlimHub.CleanErrors
import SlimHub.DeviceList

/-! Answers that can be written down.

    An exception's message quotes what it names with `repr`, so an error can always be written down.
    Data holds texts of the client, of devices and of files: a reply has no surrogate and does not
    nest too deeply just when what it shows has none and does not. -/

namespace SlimHub
open Text Nus Json Ble Unitspace Asyncio LineReader Logging

variable {rt : Runtime}

/-! ### Lines that are written -/

/-- An answer that can be written down. -/
def Delivers (rt : Runtime) (answer : Except PyError Reply) : Prop :=
  Writes rt.replyDepth (response rt answer)

theorem writes_envelope {ok : Bool} {data error : Value} :
    Writes rt.replyDepth (envelope ok data error) ↔
      Writes (rt.innerDepth + 3) data ∧ Writes (rt.innerDepth + 3) error := by
  have hkeys : noSurrogate (str "ok") = true ∧ noSurrogate (str "data") = true ∧
      noSurrogate (str "error") = true := by decide
  obtain ⟨hok, hdata, herror⟩ := hkeys
  rw [Runtime.replyDepth, envelope, writes_obj]
  simp [hok, hdata, herror]

theorem delivers_ok {reply : Reply} :
    Delivers rt (.ok reply) ↔ Writes (rt.innerDepth + 3) (dataOf rt reply) := by
  rw [Delivers, response, writes_envelope]
  exact and_iff_left writes_null

theorem writes_lines {depth : ℕ} {lines : List Str} :
    Writes (depth + 2) (dataOf rt (.lines lines)) ↔ ∀ line ∈ lines, noSurrogate line = true := by
  have hkey : noSurrogate (str "lines") = true := by decide
  simp [dataOf, hkey]

/-- Errors can always be written. -/
theorem delivers_error {exc : PyError} (h : exc.Clean) : Delivers rt (.error exc) := by
  rw [Delivers, response, writes_envelope, writes_str]
  exact ⟨writes_null, noSurrogate_errorText h⟩

/-- A value that can be written is one line of UTF-8. -/
theorem encodeLine_writes {value : Value} (h : Writes rt.replyDepth value) :
    ∃ line, utf8Encode (text rt.floatRepr value) = some line ∧
      encodeLine rt value = .ok (line ++ [lineFeed]) ∧ lineFeed ∉ line := by
  have hclean := (noSurrogate_text rt.floatRepr_clean value).trans h.2
  obtain ⟨line, hline⟩ := Option.ne_none_iff_exists'.mp (utf8Encode_ne_none.mpr hclean)
  have hfeed : utf8Encode [0x0A] = some [lineFeed] := by decide
  refine ⟨line, hline, ?_, ?_⟩
  · rw [encodeLine, dumps, if_neg (Nat.not_lt.mpr h.1)]
    simp only [utf8Encode_append, hline, hfeed, Option.bind_some, Option.map_some]
  · intro hmem
    obtain ⟨c, hc, hval⟩ := newline_of_mem_utf8Encode hline hmem
    have hnone := List.all_eq_true.mp (noNewline_text rt.floatRepr_line value) c hc
    exact of_decide_eq_true hnone hval

theorem encodeLine_ok {value : Value} (h : Writes rt.replyDepth value) :
    ∃ line, encodeLine rt value = .ok (line ++ [lineFeed]) ∧ lineFeed ∉ line ∧
      utf8Decode line = some (text rt.floatRepr value) := by
  obtain ⟨line, hline, hok, hfeed⟩ := encodeLine_writes h
  exact ⟨line, hok, hfeed, utf8Decode_utf8Encode hline⟩

theorem encodeLine_error {value : Value} (h : ¬Writes rt.replyDepth value) :
    ∃ exc, encodeLine rt value = .error exc := by
  rw [encodeLine, dumps]
  split_ifs with hdeep
  · exact ⟨_, rfl⟩
  · have hnone : utf8Encode (text rt.floatRepr value) = none := by
      by_contra hsome
      rw [← ne_eq, utf8Encode_ne_none, noSurrogate_text rt.floatRepr_clean] at hsome
      exact h ⟨Nat.not_lt.mp hdeep, hsome⟩
    refine ⟨⟨.unicodeEncodeError, []⟩, ?_⟩
    simp only [utf8Encode_append, hnone, Option.bind_none]

/-! ### Statuses and rows -/

/-- The texts of a status. -/
def StatusClean (status : SessionStatus) : Prop :=
  noSurrogate status.address = true ∧ noSurrogate status.name = true ∧
    status.lastError.all noSurrogate = true

theorem writes_optional {depth : ℕ} (s : Option Str) :
    Writes depth (optional s) ↔ s.all noSurrogate = true := by
  cases s with
  | none => simp [optional]
  | some s => simp [optional]

theorem writes_status {depth : ℕ} (status : SessionStatus) :
    Writes (depth + 1) (statusValue rt status) ↔ StatusClean status := by
  rw [statusValue, writes_obj]
  simp [noSurrogate_str, writes_optional, StatusClean]

/-- The texts that a row takes from a session. -/
def RowClean (row : DeviceRow) : Prop :=
  noSurrogate row.address = true ∧ noSurrogate row.name = true ∧
    row.lastError.all noSurrogate = true ∧ ∀ other ∈ row.aliases.getD [], noSurrogate other = true

/-- The values that a row takes from a config. -/
def ConfigWrites (rt : Runtime) (config : DeviceRecord) : Prop :=
  Writes (rt.innerDepth + 1) config.type ∧ Writes (rt.innerDepth + 1) config.name ∧
    Writes (rt.innerDepth + 1) config.location

theorem writes_field {depth : ℕ} (key : String) (value : Option Value) :
    (∀ m ∈ field key value, noSurrogate m.1 = true ∧ Writes depth m.2) ↔
      ∀ v ∈ value, Writes depth v := by
  cases value with
  | none => simp [field]
  | some v => simp [field, noSurrogate_str]

theorem writes_row (row : DeviceRow) : Writes (rt.innerDepth + 2) (rowValue rt row) ↔
    RowClean row ∧ (∀ v ∈ row.type, Writes (rt.innerDepth + 1) v) ∧
      (∀ a ∈ row.packetAddress, noSurrogate a = true) ∧
      (∀ v ∈ row.configuredName, Writes (rt.innerDepth + 1) v) ∧
      ∀ v ∈ row.location, Writes (rt.innerDepth + 1) v := by
  have hwaiting : (∀ v ∈ row.waitingForAdvertisement.map Value.bool,
      Writes (rt.innerDepth + 1) v) ↔ True := by
    refine iff_true_intro fun v hv => ?_
    obtain ⟨b, _, rfl⟩ := Option.map_eq_some_iff.mp hv
    exact writes_bool b
  have haddress : (∀ v ∈ row.packetAddress.map Value.str, Writes (rt.innerDepth + 1) v) ↔
      ∀ a ∈ row.packetAddress, noSurrogate a = true := by
    cases row.packetAddress <;> simp
  rw [rowValue, writes_obj]
  cases haliases : row.aliases with
  | none =>
    simp only [if_true, List.forall_mem_append, List.forall_mem_cons, writes_field, hwaiting,
      haddress, noSurrogate_str, writes_str, writes_bool, writes_float, writes_int,
      writes_optional, RowClean, haliases]
    simp
    tauto
  | some aliases =>
    simp only [reduceCtorEq, if_false, List.forall_mem_append, List.forall_mem_cons, writes_field,
      hwaiting, haddress, noSurrogate_str, writes_str, writes_bool, writes_float, writes_int,
      writes_optional, RowClean, haliases]
    simp
    tauto

theorem writes_withConfig (row : DeviceRow) {config : DeviceRecord}
    (hconfig : noSurrogate config.address = true) :
    Writes (rt.innerDepth + 2) (rowValue rt (withConfig row config)) ↔
      RowClean row ∧ ConfigWrites rt config := by
  rw [writes_row]
  simp only [withConfig, RowClean, Option.mem_def, Option.some.injEq, forall_eq', hconfig,
    ConfigWrites]
  tauto

end SlimHub
