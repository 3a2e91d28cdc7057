import SlimHub.Lib.Json

/-! JSON files, as `json.dump(value, f, indent=4, ensure_ascii=False)` writes them.

    The encoder hands its text to `f.write` in chunks. The file encodes each chunk on its own, so
    that a chunk with a surrogate, or a container that nests too deeply, raises after what comes
    before it has been written. -/

namespace Json
open Text

/-- A line feed and the indentation of a level. -/
def newline (level : ℕ) : Str := 0x0A :: List.replicate (4 * level) (chr ' ')

/-- What stands between two items or members. -/
def separator (level : ℕ) : Str := chr ',' :: newline level

/-- The text of a value that is no container. -/
def scalarText (floatRepr : Str → Str) : Value → Option Str
  | .null => some (str "null")
  | .bool true => some (str "true")
  | .bool false => some (str "false")
  | .int n => some (intText n)
  | .float s => some (floatRepr s)
  | .str s => some (stringText s)
  | .arr _ => none
  | .obj _ => none

/-- What the encoder yields: a text, or the `RecursionError` of a container below the limit. -/
abbrev Chunk := Except Fault Str

section
variable (floatRepr : Str → Str)

mutual

/-- `_iterencode_list` and `_iterencode_dict`, at an indentation level and with what is left of the
    nesting limit. -/
def chunks : ℕ → ℕ → Value → List Chunk
  | 0, _, .arr _ => [.error .depth]
  | 0, _, .obj _ => [.error .depth]
  | _ + 1, _, .arr [] => [.ok (str "[]")]
  | depth + 1, level, .arr (item :: items) =>
    itemChunks depth (level + 1) (chr '[' :: newline (level + 1)) (item :: items) ++
      [.ok (newline level), .ok [chr ']']]
  | _ + 1, _, .obj [] => [.ok (str "\x7b\x7d")]
  | depth + 1, level, .obj (member :: members) =>
    .ok [chr '\x7b'] ::
      memberChunks depth (level + 1) (newline (level + 1)) (member :: members) ++
        [.ok (newline level), .ok [chr '\x7d']]
  | _, _, value => [.ok ((scalarText floatRepr value).getD [])]

/-- The items of an array, the first one after `buf`. -/
def itemChunks : ℕ → ℕ → Str → List Value → List Chunk
  | _, _, _, [] => []
  | depth, level, buf, item :: items =>
    (match scalarText floatRepr item with
      | some text => [.ok (buf ++ text)]
      | none => .ok buf :: chunks depth level item) ++
        itemChunks depth level (separator level) items

/-- The members of an object, the first one after `lead`. -/
def memberChunks : ℕ → ℕ → Str → List (Str × Value) → List Chunk
  | _, _, _, [] => []
  | depth, level, lead, (key, value) :: members =>
    .ok lead :: .ok (stringText key) :: .ok (str ": ") :: chunks depth level value ++
      memberChunks depth level (separator level) members

end

end

/-- Why writing a file fails: the encoder gave up, or a text cannot be encoded. -/
inductive WriteFault where
  | encoder (fault : Fault)
  | encoding (text : Str)
  deriving DecidableEq

/-- What a new file holds after `f.write` of every chunk, and what was raised. -/
def writeChunks : List Chunk → Bytes × Option WriteFault
  | [] => ([], none)
  | .error fault :: _ => ([], some (.encoder fault))
  | .ok text :: rest =>
    match utf8Encode text with
    | none => ([], some (.encoding text))
    | some bytes => (bytes ++ (writeChunks rest).1, (writeChunks rest).2)

/-- `json.dump(value, f, indent=4, ensure_ascii=False)`, then `f.write("\n")`. -/
def dumpLine (floatRepr : Str → Str) (maxDepth : ℕ) (value : Value) : Bytes × Option WriteFault :=
  writeChunks (chunks floatRepr maxDepth 0 value ++ [.ok [0x0A]])

/-- The text of chunks; what is raised has none. -/
def texts (cs : List Chunk) : Str := cs.flatMap fun c => c.toOption.getD []

@[simp] theorem texts_nil : texts [] = [] := rfl

@[simp] theorem texts_cons_ok (text : Str) (cs : List Chunk) :
    texts (.ok text :: cs) = text ++ texts cs := rfl

@[simp] theorem texts_append (cs ds : List Chunk) : texts (cs ++ ds) = texts cs ++ texts ds :=
  List.flatMap_append

/-- The file holds the chunks up to one that raises, or all of them. -/
theorem writeChunks_spec : ∀ cs : List Chunk, ∃ pre suf, cs = pre ++ suf ∧
    utf8Encode (texts pre) = some (writeChunks cs).1 ∧
      ((writeChunks cs).2 = none ↔ suf = []) ∧ ∀ c ∈ pre, ∃ text, c = .ok text
  | [] => ⟨[], [], rfl, rfl, by simp [writeChunks], by simp⟩
  | .error fault :: cs => ⟨[], .error fault :: cs, rfl, rfl, by simp [writeChunks], by simp⟩
  | .ok text :: cs => by
    cases htext : utf8Encode text with
    | none => exact ⟨[], .ok text :: cs, rfl, by simp [writeChunks, htext], by simp [writeChunks, htext],
        by simp⟩
    | some bytes =>
      obtain ⟨pre, suf, rfl, hbytes, hnone, hok⟩ := writeChunks_spec cs
      refine ⟨.ok text :: pre, suf, rfl, ?_, ?_, ?_⟩
      · simp [writeChunks, htext, utf8Encode_append, hbytes]
      · simpa [writeChunks, htext] using hnone
      · rintro c hc
        rcases List.mem_cons.mp hc with rfl | hc
        · exact ⟨text, rfl⟩
        · exact hok c hc

/-- Nothing is raised just when no chunk is an error and no text holds a surrogate. -/
theorem writeChunks_ok_iff : ∀ cs : List Chunk, (writeChunks cs).2 = none ↔
    ∀ c ∈ cs, ∃ text, c = .ok text ∧ utf8Encode text ≠ none
  | [] => by simp [writeChunks]
  | .error fault :: cs => by simp [writeChunks]
  | .ok text :: cs => by
    have ih := writeChunks_ok_iff cs
    cases htext : utf8Encode text with
    | none => simp [writeChunks, htext]
    | some bytes => simp [writeChunks, htext, ih]

/-- Once something was raised, nothing more is written. -/
theorem writeChunks_append {cs : List Chunk} (h : (writeChunks cs).2 ≠ none) (ds : List Chunk) :
    writeChunks (cs ++ ds) = writeChunks cs := by
  induction cs with
  | nil => exact absurd rfl h
  | cons c cs ih =>
    cases c with
    | error fault => rfl
    | ok text =>
      cases htext : utf8Encode text with
      | none => simp [writeChunks, htext]
      | some bytes =>
        have hrest : (writeChunks cs).2 ≠ none := by simpa [writeChunks, htext] using h
        simp [writeChunks, htext, ih hrest]

/-! ### Reading back -/

/-- How the reader sees an escaped character. -/
def piece (c : CodePoint) : Piece :=
  if c.val < 0x20 ∧ c.val ≠ 0x0A ∧ c.val ≠ 0x0D ∧ c.val ≠ 0x09 ∧ c.val ≠ 0x0C ∧ c.val ≠ 0x08 then
    .unit c.val
  else .char c

theorem joinPieces_piece : ∀ s : Str, joinPieces (s.map piece) = s
  | [] => rfl
  | c :: s => by
    have ih := joinPieces_piece s
    have hunit : (Fin.ofNat 0x110000 c.val : CodePoint) = c := Fin.ext (Nat.mod_eq_of_lt c.isLt)
    rw [List.map_cons, piece]
    split
    · rename_i hc
      have hhigh : isHigh c.val = false := by
        simp only [isHigh, decide_eq_false_iff_not]
        omega
      cases hs : s.map piece with
      | nil =>
        rw [hs] at ih
        rw [joinPieces, hunit]
        · exact congrArg (c :: ·) ih
        · simp
      | cons p ps =>
        rw [hs] at ih
        cases p with
        | char d =>
          rw [joinPieces, hunit]
          · exact congrArg (c :: ·) ih
          · simp
        | unit d =>
          rw [joinPieces, hhigh]
          simpa [hunit] using ih
    · rw [joinPieces, ih]

theorem scanPieces_quote (s : Str) : scanPieces (quote :: s) = .ok ([], s) := by
  rw [scanPieces.eq_def]
  simp

theorem scanPieces_plain {c : CodePoint} (hquote : c ≠ quote) (hslash : c ≠ backslash)
    (hlow : ¬ c.val < 0x20) (s : Str) :
    scanPieces (c :: s) = (scanPieces s).map fun r => (.char c :: r.1, r.2) := by
  rw [scanPieces.eq_def]
  simp [hquote, hslash, hlow]

theorem scanPieces_short {e c : CodePoint} (he : e ≠ chr 'u') (hc : escapes.lookup e = some c)
    (s : Str) :
    scanPieces (backslash :: e :: s) = (scanPieces s).map fun r => (.char c :: r.1, r.2) := by
  have hquote : backslash ≠ quote := by decide
  have hlow : ¬ backslash.val < 0x20 := by decide
  rw [scanPieces.eq_def]
  simp [hquote, hlow, he, hc]

theorem scanPieces_unit {h₁ h₂ h₃ h₄ : CodePoint} (hhex : [h₁, h₂, h₃, h₄].all isHexDigit = true)
    (s : Str) : scanPieces (backslash :: chr 'u' :: h₁ :: h₂ :: h₃ :: h₄ :: s) =
      (scanPieces s).map fun r => (.unit (hexNat [h₁, h₂, h₃, h₄]) :: r.1, r.2) := by
  have hquote : backslash ≠ quote := by decide
  have hlow : ¬ backslash.val < 0x20 := by decide
  rw [scanPieces.eq_def]
  simp only [hquote, hlow, hhex, if_true, if_false]

/-- The two digits of a control character, as `'\\u{0:04x}'` writes them. -/
theorem controlDigits : ∀ n < 0x20,
    let low : CodePoint := if n % 16 < 10 then digit (n % 16) else Fin.ofNat _ (87 + n % 16)
    [chr '0', chr '0', digit (n / 16), low].all isHexDigit = true ∧
      hexNat [chr '0', chr '0', digit (n / 16), low] = n := by
  decide

theorem scanPieces_escapeChar (c : CodePoint) (s : Str) :
    scanPieces (escapeChar c ++ s) = (scanPieces s).map fun r => (piece c :: r.1, r.2) := by
  have hchar : ∀ {n : ℕ}, c.val = n → n < 0x110000 → c = Fin.ofNat _ n := fun hn hlt =>
    Fin.ext (hn.trans (Nat.mod_eq_of_lt hlt).symm)
  unfold escapeChar
  split
  · rename_i hc
    rw [hc]
    exact scanPieces_short (by decide) (by decide) s
  split
  · rename_i hc
    rw [hc]
    exact scanPieces_short (by decide) (by decide) s
  split
  · rename_i hc
    rw [hchar hc (by decide)]
    exact scanPieces_short (by decide) (by decide) s
  split
  · rename_i hc
    rw [hchar hc (by decide)]
    exact scanPieces_short (by decide) (by decide) s
  split
  · rename_i hc
    rw [hchar hc (by decide)]
    exact scanPieces_short (by decide) (by decide) s
  split
  · rename_i hc
    rw [hchar hc (by decide)]
    exact scanPieces_short (by decide) (by decide) s
  split
  · rename_i hc
    rw [hchar hc (by decide)]
    exact scanPieces_short (by decide) (by decide) s
  split
  · rename_i hlow
    obtain ⟨hhex, hnat⟩ := controlDigits c.val hlow
    have hpiece : piece c = .unit c.val := if_pos ⟨hlow, ‹_›, ‹_›, ‹_›, ‹_›, ‹_›⟩
    rw [hpiece]
    conv_rhs => rw [← hnat]
    exact scanPieces_unit hhex s
  · rename_i hlow
    have hpiece : piece c = .char c := if_neg fun h => hlow h.1
    rw [hpiece]
    exact scanPieces_plain ‹_› ‹_› hlow s

/-- A written string is read back. -/
theorem scanPieces_stringText (s rest : Str) :
    scanPieces (s.flatMap escapeChar ++ quote :: rest) = .ok (s.map piece, rest) := by
  induction s with
  | nil => exact scanPieces_quote rest
  | cons c s ih =>
    rw [List.flatMap_cons, List.append_assoc, scanPieces_escapeChar, ih]
    rfl

theorem scanValue_stringText (fuel depth : ℕ) (s rest : Str) :
    scanValue (fuel + 1) depth (stringText s ++ rest) = .ok (.str s, rest) := by
  rw [stringText, List.append_assoc, List.cons_append, scanValue.eq_def]
  simp only [if_true, List.singleton_append, scanPieces_stringText, Except.map, joinPieces_piece]

theorem skip_blanks {blanks : Str} (hblanks : ∀ c ∈ blanks, isBlank c = true) {c : CodePoint}
    (hc : isBlank c = false) (s : Str) : skip (blanks ++ c :: s) = c :: s := by
  rw [skip, List.dropWhile_append_of_pos hblanks, List.dropWhile_cons_of_neg (by simp [hc])]

theorem blank_newline (level : ℕ) : ∀ c ∈ newline level, isBlank c = true := by
  intro c hc
  rcases List.mem_cons.mp hc with rfl | hc
  · decide
  · obtain rfl := List.eq_of_mem_replicate hc
    decide

/-- Members whose values are strings. -/
def strings (members : List (Str × Str)) : List (Str × Value) := members.map fun m => (m.1, .str m.2)

section
variable (floatRepr : Str → Str) (limit level : ℕ)

theorem chunks_scalar {value : Value} {text : Str} (h : scalarText floatRepr value = some text) :
    chunks floatRepr limit level value = [.ok text] := by
  cases value with
  | arr items => cases h
  | obj members => cases h
  | bool b => cases limit <;> cases b <;> cases h <;> rfl
  | _ => cases limit <;> cases h <;> rfl

theorem texts_memberChunks_lead (lead : Str) (m : Str × Value) (ms : List (Str × Value)) :
    texts (memberChunks floatRepr limit level lead (m :: ms)) =
      lead ++ texts (memberChunks floatRepr limit level [] (m :: ms)) := by
  simp [memberChunks]

theorem texts_itemChunks_lead (buf : Str) (item : Value) (items : List Value) :
    texts (itemChunks floatRepr limit level buf (item :: items)) =
      buf ++ (texts (chunks floatRepr limit level item) ++
        texts (itemChunks floatRepr limit level (separator level) items)) := by
  cases h : scalarText floatRepr item with
  | none => simp [itemChunks, h]
  | some text => simp [itemChunks, h, chunks_scalar floatRepr limit level h]

theorem texts_memberChunks_strings (k v : Str) (ms : List (Str × Str)) :
    texts (memberChunks floatRepr limit level [] (strings ((k, v) :: ms))) =
      stringText k ++ chr ':' :: chr ' ' :: stringText v ++
        texts (memberChunks floatRepr limit level (separator level) (strings ms)) := by
  have hcolon : str ": " = [chr ':', chr ' '] := rfl
  have hvalue : chunks floatRepr limit level (.str v) = [.ok (stringText v)] :=
    chunks_scalar floatRepr limit level rfl
  simp [strings, memberChunks, hvalue, hcolon]

/-- One member with a string value, up to the comma or brace after it. -/
theorem scanMembers_member (fuel depth : ℕ) (acc : List (Str × Value)) (k v tail : Str) :
    scanMembers (fuel + 2) depth acc
        (stringText k ++ chr ':' :: chr ' ' :: stringText v ++ tail) =
      match skip tail with
      | [] => .error .notJson
      | c :: s =>
        if c = chr '\x7d' then .ok (.obj (Dict.put k (.str v) acc), s)
        else if c = chr ',' then scanMembers (fuel + 1) depth (Dict.put k (.str v) acc) (skip s)
        else .error .notJson := by
  have hcolon : ∀ s, skip (chr ':' :: s) = chr ':' :: s :=
    @skip_blanks [] (by simp) _ (by decide)
  have hspace : ∀ c ∈ [chr ' '], isBlank c = true := fun c hc => by
    rw [List.mem_singleton.mp hc]
    decide
  have hblank : ∀ s, skip (chr ' ' :: quote :: s) = quote :: s := skip_blanks hspace (by decide)
  rw [scanMembers]
  simp only [stringText, List.cons_append, List.append_assoc, expect, if_true, List.nil_append,
    scanPieces_stringText, hcolon, hblank, joinPieces_piece]
  have hvalue := scanValue_stringText fuel depth v tail
  simp only [stringText, List.cons_append, List.append_assoc, List.nil_append] at hvalue
  cases htail : skip tail with
  | nil => simp only [hvalue, htail]
  | cons c s => simp only [hvalue, htail]

theorem put_of_not_mem {k : Str} {v : Value} : ∀ {acc : List (Str × Value)},
    k ∉ acc.map Prod.fst → Dict.put k v acc = acc ++ [(k, v)]
  | [], _ => rfl
  | (j, w) :: acc, h => by
    rw [List.map_cons, List.mem_cons, not_or] at h
    rw [Dict.put, if_neg (Ne.symm h.1), put_of_not_mem h.2, List.cons_append]

/-- Members with different keys and string values are read back. -/
theorem scanMembers_strings (depth : ℕ) (rest : Str) : ∀ (ms : List (Str × Str)) (k v : Str)
    (fuel : ℕ) (acc : List (Str × Value)), ms.length + 1 < fuel →
    (acc.map Prod.fst ++ k :: ms.map Prod.fst).Nodup →
    scanMembers fuel depth acc
        (texts (memberChunks floatRepr limit level [] (strings ((k, v) :: ms))) ++
          (newline 0 ++ chr '\x7d' :: rest)) =
      .ok (.obj (acc ++ strings ((k, v) :: ms)), rest)
  | _, _, _, 0, _, hfuel, _ => absurd hfuel (Nat.not_lt_zero _)
  | _, _, _, 1, _, hfuel, _ => by omega
  | ms, k, v, fuel + 2, acc, hfuel, hnodup => by
    have hk : k ∉ acc.map Prod.fst := by
      intro hk
      exact (List.nodup_append.mp hnodup).2.2 k hk k List.mem_cons_self rfl
    rw [texts_memberChunks_strings, List.append_assoc, scanMembers_member, put_of_not_mem hk]
    cases ms with
    | nil =>
      have hend : skip (newline 0 ++ chr '\x7d' :: rest) = chr '\x7d' :: rest :=
        skip_blanks (blank_newline 0) (by decide) rest
      simp [strings, memberChunks, hend]
    | cons m ms =>
      obtain ⟨k', v'⟩ := m
      have hcomma : ∀ s, skip (chr ',' :: s) = chr ',' :: s :=
        @skip_blanks [] (by simp) _ (by decide)
      have hnext : chr ',' ≠ chr '\x7d' := by decide
      have hnodup' : ((acc ++ [(k, Value.str v)]).map Prod.fst ++ k' :: ms.map Prod.fst).Nodup := by
        simpa using hnodup
      have ih := scanMembers_strings depth rest ms k' v' (fuel + 1) (acc ++ [(k, .str v)])
        (by simp only [List.length_cons] at hfuel; omega) hnodup'
      have hskip : skip (newline level ++ (texts (memberChunks floatRepr limit level []
            (strings ((k', v') :: ms))) ++ (newline 0 ++ chr '\x7d' :: rest))) =
          texts (memberChunks floatRepr limit level [] (strings ((k', v') :: ms))) ++
            (newline 0 ++ chr '\x7d' :: rest) := by
        rw [texts_memberChunks_strings, stringText]
        exact skip_blanks (blank_newline level) (by decide) _
      have hlead : texts (memberChunks floatRepr limit level (separator level)
            (strings ((k', v') :: ms))) = chr ',' :: (newline level ++
          texts (memberChunks floatRepr limit level [] (strings ((k', v') :: ms)))) :=
        texts_memberChunks_lead floatRepr limit level (separator level) _ _
      rw [hlead, List.cons_append, hcomma]
      simp only [if_neg hnext, if_true, List.append_assoc]
      rw [hskip, ih]
      simp [strings]

theorem length_le_memberChunks : ∀ (lead : Str) (members : List (Str × Value)),
    members.length ≤ (texts (memberChunks floatRepr limit level lead members)).length
  | _, [] => Nat.zero_le _
  | lead, (k, v) :: members => by
    have ih := length_le_memberChunks (separator level) members
    simp only [memberChunks, List.cons_append, texts_cons_ok, texts_append, List.length_append,
      stringText, List.length_cons]
    omega

/-- The text of an object that has some members. -/
theorem texts_obj (members : List (Str × Value)) (hne : members ≠ []) :
    texts (chunks floatRepr (limit + 1) level (.obj members)) =
      chr '\x7b' :: (newline (level + 1) ++
        (texts (memberChunks floatRepr limit (level + 1) [] members) ++
          (newline level ++ [chr '\x7d']))) := by
  cases members with
  | nil => exact absurd rfl hne
  | cons m ms =>
    rw [chunks, List.cons_append, texts_cons_ok, texts_append, texts_memberChunks_lead,
      List.append_assoc]
    simp

/-- A file with an object of strings is read back as it was written. -/
theorem loads_dumpLine {members : List (Str × Str)} (hne : members ≠ [])
    (hnodup : (members.map Prod.fst).Nodup) (maxDepth : ℕ) :
    loads (maxDepth + 1) (texts (chunks floatRepr (limit + 1) 0 (.obj (strings members))) ++
      [0x0A]) = .ok (.obj (strings members)) := by
  obtain ⟨⟨k, v⟩, ms, rfl⟩ := List.exists_cons_of_ne_nil hne
  have hscan := scanMembers_strings floatRepr limit 1 maxDepth [0x0A] ms k v
  have hlen := length_le_memberChunks floatRepr limit 1 [] (strings ((k, v) :: ms))
  have hquote := texts_memberChunks_strings floatRepr limit 1 k v ms
  rw [texts_obj floatRepr limit 0 _ (by simp [strings])]
  generalize texts (memberChunks floatRepr limit 1 [] (strings ((k, v) :: ms))) = body at *
  have hskip : skip (newline 1 ++ (body ++ (newline 0 ++ [chr '\x7d', 0x0A]))) =
      body ++ (newline 0 ++ [chr '\x7d', 0x0A]) := by
    rw [hquote, stringText]
    exact skip_blanks (blank_newline 1) (by decide) _
  have hbrace : ∀ s, skip (chr '\x7b' :: s) = chr '\x7b' :: s :=
    @skip_blanks [] (by simp) _ (by decide)
  have hexpect : expect (chr '\x7d') (body ++ (newline 0 ++ [chr '\x7d', 0x0A])) =
      .error .notJson := by
    have hquoteNe : quote ≠ chr '\x7d' := by decide
    rw [hquote, stringText]
    simp only [List.cons_append, expect, if_neg hquoteNe]
  have hvalue : ∀ fuel, ms.length + 1 < fuel → scanValue (fuel + 1) (maxDepth + 1)
      (chr '\x7b' :: (newline 1 ++ (body ++ (newline 0 ++ [chr '\x7d', 0x0A])))) =
        .ok (.obj (strings ((k, v) :: ms)), [0x0A]) := by
    intro fuel hfuel
    have hbraceNe : chr '\x7b' ≠ quote := by decide
    rw [scanValue.eq_def]
    simp only [hskip, hexpect, if_neg hbraceNe, if_true]
    exact hscan fuel [] hfuel (by simpa using hnodup)
  have htext : chr '\x7b' :: (newline (0 + 1) ++ (body ++ (newline 0 ++ [chr '\x7d']))) ++ [0x0A] =
      chr '\x7b' :: (newline 1 ++ (body ++ (newline 0 ++ [chr '\x7d', 0x0A]))) := by
    simp
  have hbom : (chr '\x7b' : CodePoint) ≠ 0xFEFF := by decide
  have hend : skip [0x0A] = [] := by decide
  rw [htext, loads, hbrace, hvalue, if_neg (by simpa using hbom)]
  · simp only [hend, if_true]
  · simp only [strings, List.length_map, List.length_cons, List.length_append] at hlen ⊢
    omega

end

/-! ### What can be written -/

/-- No lone surrogate. -/
def noSurrogate (s : Str) : Bool := s.all fun c => !isSurrogate c

mutual

/-- No string of a value holds a surrogate. -/
def clean : Value → Bool
  | .str s => noSurrogate s
  | .arr items => itemsClean items
  | .obj members => membersClean members
  | _ => true

def itemsClean : List Value → Bool
  | [] => true
  | item :: items => clean item && itemsClean items

def membersClean : List (Str × Value) → Bool
  | [] => true
  | (key, value) :: members => noSurrogate key && clean value && membersClean members

end

theorem utf8Encode_ne_none {s : Str} : utf8Encode s ≠ none ↔ noSurrogate s = true := by
  rw [Ne, utf8Encode_eq_none]
  simp [noSurrogate]

@[simp] theorem noSurrogate_append (s t : Str) :
    noSurrogate (s ++ t) = (noSurrogate s && noSurrogate t) :=
  List.all_append

@[simp] theorem noSurrogate_cons (c : CodePoint) (s : Str) :
    noSurrogate (c :: s) = (!isSurrogate c && noSurrogate s) := rfl

@[simp] theorem noSurrogate_nil : noSurrogate [] = true := rfl

theorem noSurrogate_of_lt {s : Str} (h : ∀ c ∈ s, c.val < 0xD800) : noSurrogate s = true := by
  refine List.all_eq_true.mpr fun c hc => ?_
  have hlt := h c hc
  simp only [isSurrogate, Bool.not_eq_true', decide_eq_false_iff_not]
  omega

theorem isSurrogate_of_lt {c : CodePoint} (h : c.val < 0xD800) : isSurrogate c = false := by
  simp only [isSurrogate, decide_eq_false_iff_not]
  omega

theorem noSurrogate_hexDigits {s : Str} (h : s.all isHexDigit = true) : noSurrogate s = true := by
  have hall : hexdigits.all (fun c => !isSurrogate c) = true := by decide
  refine List.all_eq_true.mpr fun c hc => ?_
  exact List.all_eq_true.mp hall c (isHexDigit_iff.mp (List.all_eq_true.mp h c hc))

theorem noSurrogate_escapeChar (c : CodePoint) : noSurrogate (escapeChar c) = !isSurrogate c := by
  have hslash : isSurrogate backslash = false := by decide
  have hshort : ∀ d : CodePoint, c.val < 0xD800 → isSurrogate d = false →
      noSurrogate [backslash, d] = !isSurrogate c := by
    intro d hc hd
    simp [hslash, hd, isSurrogate_of_lt hc]
  unfold escapeChar
  split
  · rename_i hc
    exact hshort _ (by rw [hc]; decide) (by decide)
  split
  · rename_i hc
    exact hshort _ (by rw [hc]; decide) (by decide)
  split
  · exact hshort _ (by omega) (by decide)
  split
  · exact hshort _ (by omega) (by decide)
  split
  · exact hshort _ (by omega) (by decide)
  split
  · exact hshort _ (by omega) (by decide)
  split
  · exact hshort _ (by omega) (by decide)
  split
  · rename_i hlow
    obtain ⟨hhex, _⟩ := controlDigits c.val hlow
    have hu : isSurrogate (chr 'u') = false := by decide
    rw [noSurrogate_cons, noSurrogate_cons, hslash, hu, noSurrogate_hexDigits hhex,
      isSurrogate_of_lt (by omega)]
    rfl
  · simp

theorem noSurrogate_stringText (s : Str) : noSurrogate (stringText s) = noSurrogate s := by
  have hquote : isSurrogate quote = false := by decide
  have hescaped : noSurrogate (s.flatMap escapeChar) = noSurrogate s := by
    induction s with
    | nil => rfl
    | cons c s ih => rw [List.flatMap_cons, noSurrogate_append, noSurrogate_escapeChar, ih]; rfl
  simp [stringText, hquote, hescaped]

/-- A chunk that is written. -/
def Writable (c : Chunk) : Prop := ∃ text, c = .ok text ∧ utf8Encode text ≠ none

theorem writable_ok {text : Str} : Writable (.ok text) ↔ noSurrogate text = true := by
  simp [Writable, utf8Encode_ne_none]

theorem noSurrogate_newline (level : ℕ) : noSurrogate (newline level) = true := by
  refine noSurrogate_of_lt fun c hc => ?_
  have hblank := blank_newline level c hc
  simp only [isBlank, decide_eq_true_eq] at hblank
  omega

theorem noSurrogate_separator (level : ℕ) : noSurrogate (separator level) = true := by
  have hcomma : isSurrogate (chr ',') = false := by decide
  simp [separator, hcomma, noSurrogate_newline]

theorem noSurrogate_natText (n : ℕ) : noSurrogate (natText n) = true := by
  refine noSurrogate_of_lt fun c hc => ?_
  have hdigit := of_decide_eq_true (isDigit_of_mem_natText hc)
  omega

theorem noSurrogate_intText (n : ℤ) : noSurrogate (intText n) = true := by
  have hminus : isSurrogate (chr '-') = false := by decide
  unfold intText
  split <;> simp [noSurrogate_natText, hminus]

section
variable {floatRepr : Str → Str} (hfloat : ∀ s, noSurrogate (floatRepr s) = true)

include hfloat

theorem noSurrogate_scalarText {value : Value} {text : Str}
    (h : scalarText floatRepr value = some text) :
    noSurrogate text = clean value ∧ nesting value = 0 := by
  have hnull : noSurrogate (str "null") = true := by decide
  have htrue : noSurrogate (str "true") = true := by decide
  have hfalse : noSurrogate (str "false") = true := by decide
  cases value with
  | arr items => cases h
  | obj members => cases h
  | bool b => cases b <;> cases h <;> simp [clean, nesting, htrue, hfalse]
  | null => cases h; simp [clean, nesting, hnull]
  | int n => cases h; simp [clean, nesting, noSurrogate_intText]
  | float s => cases h; simp [clean, nesting, hfloat]
  | str s => cases h; simp [clean, nesting, noSurrogate_stringText]

theorem writable_scalar {value : Value} {text : Str} (h : scalarText floatRepr value = some text)
    (limit level : ℕ) : (∀ c ∈ chunks floatRepr limit level value, Writable c) ↔
      nesting value ≤ limit ∧ clean value = true := by
  obtain ⟨hclean, hnest⟩ := noSurrogate_scalarText hfloat h
  rw [chunks_scalar floatRepr limit level h, hnest, ← hclean]
  simp [writable_ok]

set_option linter.unusedSectionVars false in
mutual

/-- A value is written whole just when it nests within the limit and is clean. -/
theorem writable_chunks : ∀ (limit level : ℕ) (value : Value),
    (∀ c ∈ chunks floatRepr limit level value, Writable c) ↔
      nesting value ≤ limit ∧ clean value = true
  | 0, _, .arr _ => by simp [chunks, Writable, nesting]
  | 0, _, .obj _ => by simp [chunks, Writable, nesting]
  | _ + 1, _, .arr [] => by
    have hempty : noSurrogate (str "[]") = true := by decide
    simp [chunks, writable_ok, hempty, nesting, itemsNesting, clean, itemsClean]
  | limit + 1, level, .arr (item :: items) => by
    have hbracket : isSurrogate (chr '[') = false := by decide
    have hclose : isSurrogate (chr ']') = false := by decide
    have hitems := writable_itemChunks limit (level + 1) (item :: items)
      (chr '[' :: newline (level + 1)) (by simp [hbracket, noSurrogate_newline])
    rw [chunks, List.forall_mem_append, hitems]
    simp [writable_ok, noSurrogate_newline, hclose, nesting, clean, Nat.add_comm 1]
  | _ + 1, _, .obj [] => by
    have hempty : noSurrogate (str "\x7b\x7d") = true := by decide
    simp [chunks, writable_ok, hempty, nesting, membersNesting, clean, membersClean]
  | limit + 1, level, .obj (member :: members) => by
    have hbrace : isSurrogate (chr '\x7b') = false := by decide
    have hclose : isSurrogate (chr '\x7d') = false := by decide
    have hmembers := writable_memberChunks limit (level + 1) (member :: members)
      (newline (level + 1)) (noSurrogate_newline (level + 1))
    rw [chunks, List.forall_mem_append, List.forall_mem_cons, hmembers]
    simp [writable_ok, noSurrogate_newline, hbrace, hclose, nesting, clean, Nat.add_comm 1]
  | limit, level, .null => writable_scalar hfloat rfl limit level
  | limit, level, .bool true => writable_scalar hfloat rfl limit level
  | limit, level, .bool false => writable_scalar hfloat rfl limit level
  | limit, level, .int _ => writable_scalar hfloat rfl limit level
  | limit, level, .float _ => writable_scalar hfloat rfl limit level
  | limit, level, .str _ => writable_scalar hfloat rfl limit level

theorem writable_itemChunks : ∀ (limit level : ℕ) (items : List Value) (buf : Str),
    noSurrogate buf = true →
    ((∀ c ∈ itemChunks floatRepr limit level buf items, Writable c) ↔
      itemsNesting items ≤ limit ∧ itemsClean items = true)
  | _, _, [], _, _ => by simp [itemChunks, itemsNesting, itemsClean]
  | limit, level, item :: items, buf, hbuf => by
    have hitem := writable_chunks limit level item
    have hitems := writable_itemChunks limit level items (separator level)
      (noSurrogate_separator level)
    have hmax : itemsNesting (item :: items) ≤ limit ∧ itemsClean (item :: items) = true ↔
        (nesting item ≤ limit ∧ clean item = true) ∧
          itemsNesting items ≤ limit ∧ itemsClean items = true := by
      simp only [itemsNesting, itemsClean, Nat.max_le, Bool.and_eq_true]
      tauto
    rw [hmax, ← hitem, ← hitems, itemChunks, List.forall_mem_append]
    cases htext : scalarText floatRepr item with
    | none => simp [writable_ok, hbuf]
    | some text =>
      simp [chunks_scalar floatRepr limit level htext, writable_ok, hbuf]

theorem writable_memberChunks : ∀ (limit level : ℕ) (members : List (Str × Value)) (lead : Str),
    noSurrogate lead = true →
    ((∀ c ∈ memberChunks floatRepr limit level lead members, Writable c) ↔
      membersNesting members ≤ limit ∧ membersClean members = true)
  | _, _, [], _, _ => by simp [memberChunks, membersNesting, membersClean]
  | limit, level, (key, value) :: members, lead, hlead => by
    have hvalue := writable_chunks limit level value
    have hmembers := writable_memberChunks limit level members (separator level)
      (noSurrogate_separator level)
    have hmax : membersNesting ((key, value) :: members) ≤ limit ∧
        membersClean ((key, value) :: members) = true ↔
        noSurrogate key = true ∧ (nesting value ≤ limit ∧ clean value = true) ∧
          membersNesting members ≤ limit ∧ membersClean members = true := by
      simp only [membersNesting, membersClean, Nat.max_le, Bool.and_eq_true]
      tauto
    have hcolon : noSurrogate (str ": ") = true := by decide
    rw [hmax, ← hvalue, ← hmembers, memberChunks]
    simp [writable_ok, hlead, hcolon, noSurrogate_stringText, or_imp, forall_and]

end

/-- `json.dump` of a value raises nothing just when the value can be written whole. -/
theorem dumpLine_ok_iff (limit : ℕ) (value : Value) :
    (dumpLine floatRepr limit value).2 = none ↔ nesting value ≤ limit ∧ clean value = true := by
  have hend : Writable (.ok [0x0A]) := writable_ok.mpr (by decide)
  rw [dumpLine, writeChunks_ok_iff, ← writable_chunks hfloat limit 0 value, List.forall_mem_append]
  exact ⟨fun h => h.1, fun h => ⟨h, fun c hc => List.mem_singleton.mp hc ▸ hend⟩⟩

omit hfloat in
theorem strings_clean : ∀ {members : List (Str × Str)},
    (∀ m ∈ members, noSurrogate m.1 = true ∧ noSurrogate m.2 = true) →
    membersClean (strings members) = true ∧ membersNesting (strings members) = 0
  | [], _ => ⟨rfl, rfl⟩
  | m :: members, h => by
    obtain ⟨hkey, hvalue⟩ := h m List.mem_cons_self
    obtain ⟨hclean, hnest⟩ := strings_clean fun m hm => h m (List.mem_cons_of_mem _ hm)
    have hcons : strings (m :: members) = (m.1, .str m.2) :: strings members := rfl
    rw [hcons, membersClean, membersNesting, hclean, hnest, clean, hkey, hvalue]
    exact ⟨rfl, rfl⟩

/-- An object of clean strings is written whole, and read back. -/
theorem dumpLine_strings {members : List (Str × Str)} (hne : members ≠ [])
    (hnodup : (members.map Prod.fst).Nodup)
    (hclean : ∀ m ∈ members, noSurrogate m.1 = true ∧ noSurrogate m.2 = true) (limit : ℕ) :
    (dumpLine floatRepr (limit + 1) (.obj (strings members))).2 = none ∧
      ∃ text, utf8Decode (dumpLine floatRepr (limit + 1) (.obj (strings members))).1 = some text ∧
        ∀ maxDepth, loads (maxDepth + 1) text = .ok (.obj (strings members)) := by
  obtain ⟨hmembers, hnest⟩ := strings_clean hclean
  have hok : (dumpLine floatRepr (limit + 1) (.obj (strings members))).2 = none :=
    (dumpLine_ok_iff hfloat _ _).mpr ⟨by rw [nesting, hnest]; omega, by rw [clean, hmembers]⟩
  refine ⟨hok, texts (chunks floatRepr (limit + 1) 0 (.obj (strings members))) ++ [0x0A], ?_, ?_⟩
  · obtain ⟨pre, suf, hsplit, hbytes, hnone, _⟩ := writeChunks_spec
      (chunks floatRepr (limit + 1) 0 (.obj (strings members)) ++ [.ok [0x0A]])
    rw [hnone.mp hok, List.append_nil] at hsplit
    rw [← hsplit] at hbytes
    simpa [dumpLine] using utf8Decode_utf8Encode hbytes
  · exact fun maxDepth => loads_dumpLine floatRepr limit hne hnodup maxDepth

end

end Json
