import SlimHub.Lib.Compact

/-! JSON files, read, written and read again.

        text ──loads──▶ value ──dumpLine──▶ indented text ──loads──▶ settled value

    What the reader gives has no key twice, no integer that is too long, and nests within the
    reader's limit (`loads_sound`). Such a value comes back from the file that it is written to, with
    its floats as they are written (`loads_dumpLine_sound`). -/

namespace Json
open Text

mutual

/-- A value with its floats as they are written. -/
def settled (floatRepr : Str → Str) : Value → Value
  | .null => .null
  | .bool b => .bool b
  | .int n => .int n
  | .float s => .float (floatRepr s)
  | .str s => .str s
  | .arr items => .arr (itemsSettled floatRepr items)
  | .obj members => .obj (membersSettled floatRepr members)

def itemsSettled (floatRepr : Str → Str) : List Value → List Value
  | [] => []
  | item :: items => settled floatRepr item :: itemsSettled floatRepr items

def membersSettled (floatRepr : Str → Str) : List (Str × Value) → List (Str × Value)
  | [] => []
  | (key, value) :: members => (key, settled floatRepr value) :: membersSettled floatRepr members

end

mutual

/-- What the reader gives: integers that it takes, and every key of an object once. -/
def Sound : Value → Prop
  | .int n => (natText n.natAbs).length ≤ maxIntDigits
  | .arr items => ItemsSound items
  | .obj members => (members.map Prod.fst).Nodup ∧ MembersSound members
  | _ => True

def ItemsSound : List Value → Prop
  | [] => True
  | item :: items => Sound item ∧ ItemsSound items

def MembersSound : List (Str × Value) → Prop
  | [] => True
  | (_, value) :: members => Sound value ∧ MembersSound members

end

theorem itemsSound_concat : ∀ {items : List Value} {item : Value}, ItemsSound items → Sound item →
    ItemsSound (items ++ [item])
  | [], _, _, hitem => ⟨hitem, trivial⟩
  | _ :: _, _, hitems, hitem => ⟨hitems.1, itemsSound_concat hitems.2 hitem⟩

theorem itemsNesting_concat : ∀ (items : List Value) (item : Value),
    itemsNesting (items ++ [item]) = max (itemsNesting items) (nesting item)
  | [], item => by simp [itemsNesting]
  | first :: items, item => by
    rw [List.cons_append, itemsNesting, itemsNesting, itemsNesting_concat items item, Nat.max_assoc]

theorem membersSound_put {key : Str} {value : Value} (hvalue : Sound value) :
    ∀ {members : List (Str × Value)}, MembersSound members →
      MembersSound (Dict.put key value members)
  | [], _ => ⟨hvalue, trivial⟩
  | (j, w) :: members, h => by
    rw [Dict.put]
    split
    · exact ⟨hvalue, h.2⟩
    · exact ⟨h.1, membersSound_put hvalue h.2⟩

theorem membersNesting_put {depth : ℕ} {key : Str} {value : Value} (hvalue : nesting value ≤ depth) :
    ∀ {members : List (Str × Value)}, membersNesting members ≤ depth →
      membersNesting (Dict.put key value members) ≤ depth
  | [], _ => by simp [Dict.put, membersNesting, hvalue]
  | (j, w) :: members, h => by
    rw [membersNesting, Nat.max_le] at h
    rw [Dict.put]
    split
    · exact Nat.max_le.mpr ⟨hvalue, h.2⟩
    · exact Nat.max_le.mpr ⟨h.1, membersNesting_put hvalue h.2⟩

/-! ### What is read is sound -/

theorem decNat_lt : ∀ {s : Str}, (∀ c ∈ s, isDigit c = true) → decNat s < 10 ^ s.length := by
  intro s hs
  induction s using List.reverseRecOn with
  | nil => simp [decNat]
  | append_singleton s c ih =>
    have hc := of_decide_eq_true (hs c (by simp))
    have hnibble : nibble c < 10 := by
      have hall : ∀ n < 10, ∀ c : CodePoint, c.val = 48 + n → nibble c = n := by
        intro n hn c hval
        obtain rfl : c = Fin.ofNat _ (48 + n) := Fin.ext (by simp [hval]; omega)
        revert n
        decide
      have hval := hall (c.val - 48) (by omega) c (by omega)
      omega
    have hlt := ih fun d hd => hs d (by simp [hd])
    have hfold : decNat (s ++ [c]) = decNat s * 10 + nibble c := by simp [decNat]
    rw [hfold, List.length_append, List.length_singleton, pow_succ]
    omega

theorem length_natText_le : ∀ {k n : ℕ}, n < 10 ^ k → 0 < k → (natText n).length ≤ k
  | k + 1, n, h, _ => by
    rcases Nat.lt_or_ge n 10 with hlt | hge
    · rw [natText_of_lt hlt, List.length_singleton]
      omega
    · rw [natText_of_le hge, List.length_append, List.length_singleton]
      rcases Nat.eq_zero_or_pos k with rfl | hk
      · omega
      · have hdiv : n / 10 < 10 ^ k := by
          rw [pow_succ] at h
          omega
        have hrest := length_natText_le hdiv hk
        omega

theorem scanWhole_digits {s t digits : Str} {negative : Bool}
    (h : scanWhole s = some (negative, digits, t)) :
    digits ≠ [] ∧ ∀ c ∈ digits, isDigit c = true := by
  simp only [scanWhole] at h
  split at h
  · cases h
  · split at h
    · have hzero : isDigit (chr '0') = true := by decide
      rename_i hc
      cases h
      exact ⟨by simp, fun d hd => by rw [List.mem_singleton.mp hd, hc, hzero]⟩
    · split at h
      · rename_i hc
        cases h
        refine ⟨by simp, fun d hd => ?_⟩
        rcases List.mem_cons.mp hd with rfl | hd
        · exact hc
        · exact List.mem_takeWhile_imp hd
      · cases h

theorem scanNumber_sound {s t : Str} {v : Value} (h : scanNumber s = .ok (v, t)) :
    Sound v ∧ nesting v = 0 := by
  unfold scanNumber at h
  cases hw : scanWhole s with
  | none => rw [hw] at h; cases h
  | some r =>
    obtain ⟨negative, digits, u⟩ := r
    obtain ⟨hne, hdigits⟩ := scanWhole_digits hw
    rw [hw] at h
    simp only at h
    split at h
    · split at h
      · cases h
      · rename_i hshort
        cases h
        refine ⟨?_, rfl⟩
        have habs : (if negative = true then -(decNat digits : ℤ) else decNat digits).natAbs =
            decNat digits := by
          split <;> simp
        rw [Sound, habs]
        exact (length_natText_le (decNat_lt hdigits) (List.length_pos_iff.mpr hne)).trans
          (Nat.not_lt.mp hshort)
    · cases h
      exact ⟨trivial, rfl⟩

theorem scanConstant_sound {s t : Str} {v : Value} (h : scanConstant s = some (v, t)) :
    Sound v ∧ nesting v = 0 := by
  obtain ⟨c, hc, hr⟩ := Option.map_eq_some_iff.mp h
  obtain ⟨rfl, _⟩ := Prod.mk.inj hr
  have hmem := List.mem_of_find?_eq_some hc
  simp only [constants, List.mem_cons, List.not_mem_nil, or_false] at hmem
  rcases hmem with rfl | rfl | rfl | rfl | rfl | rfl
  all_goals exact ⟨trivial, rfl⟩

mutual

theorem scanValue_sound : ∀ {fuel depth : ℕ} {s t : Str} {v : Value},
    scanValue fuel depth s = .ok (v, t) → Sound v ∧ nesting v ≤ depth
  | 0, _, _, _, _, h => by cases h
  | _ + 1, _, [], _, _, h => by cases h
  | fuel + 1, depth, c :: s, t, v, h => by
    rw [scanValue.eq_def] at h
    simp only at h
    split at h
    · obtain ⟨⟨ps, r⟩, hr, heq⟩ := of_map_ok h
      obtain ⟨rfl, _⟩ := Prod.mk.inj heq
      exact ⟨trivial, Nat.zero_le _⟩
    · split at h
      · cases depth with
        | zero => cases h
        | succ depth =>
          simp only at h
          split at h
          · cases h
            exact ⟨⟨List.nodup_nil, trivial⟩, by simp [nesting, membersNesting]⟩
          · exact @scanMembers_sound fuel depth [] _ _ _ List.nodup_nil trivial (Nat.zero_le _) h
      · split at h
        · cases depth with
          | zero => cases h
          | succ depth =>
            simp only at h
            split at h
            · cases h
              exact ⟨trivial, by simp [nesting, itemsNesting]⟩
            · exact @scanItems_sound fuel depth [] _ _ _ trivial (Nat.zero_le _) h
        · cases hconst : scanConstant (c :: s) with
          | some r =>
            rw [hconst] at h
            cases h
            obtain ⟨hsound, hflat⟩ := scanConstant_sound hconst
            exact ⟨hsound, hflat ▸ Nat.zero_le _⟩
          | none =>
            rw [hconst] at h
            obtain ⟨hsound, hflat⟩ := scanNumber_sound h
            exact ⟨hsound, hflat ▸ Nat.zero_le _⟩

theorem scanItems_sound : ∀ {fuel depth : ℕ} {items : List Value} {s t : Str} {v : Value},
    ItemsSound items → itemsNesting items ≤ depth → scanItems fuel depth items s = .ok (v, t) →
    Sound v ∧ nesting v ≤ depth + 1
  | 0, _, _, _, _, _, _, _, h => by cases h
  | fuel + 1, depth, items, s, t, v, hitems, hdepth, h => by
    rw [scanItems] at h
    cases hv : scanValue fuel depth s with
    | error e => rw [hv] at h; cases h
    | ok r =>
      obtain ⟨item, u⟩ := r
      obtain ⟨hsound, hnest⟩ := scanValue_sound hv
      have hall := itemsSound_concat hitems hsound
      have hmax : itemsNesting (items ++ [item]) ≤ depth := by
        rw [itemsNesting_concat]
        exact Nat.max_le.mpr ⟨hdepth, hnest⟩
      simp only [hv] at h
      cases hu : skip u with
      | nil => rw [hu] at h; cases h
      | cons c w =>
        simp only [hu] at h
        split at h
        · cases h
          exact ⟨hall, by rw [nesting]; omega⟩
        · split at h
          · exact scanItems_sound hall hmax h
          · cases h

theorem scanMembers_sound : ∀ {fuel depth : ℕ} {members : List (Str × Value)} {s t : Str}
    {v : Value}, (members.map Prod.fst).Nodup → MembersSound members →
    membersNesting members ≤ depth → scanMembers fuel depth members s = .ok (v, t) →
    Sound v ∧ nesting v ≤ depth + 1
  | 0, _, _, _, _, _, _, _, _, h => by cases h
  | fuel + 1, depth, members, s, t, v, hkeys, hmembers, hdepth, h => by
    rw [scanMembers] at h
    cases he : expect quote s with
    | error e => rw [he] at h; cases h
    | ok s₁ =>
      simp only [he] at h
      cases hp : scanPieces s₁ with
      | error e => rw [hp] at h; cases h
      | ok r =>
        obtain ⟨key, s₂⟩ := r
        simp only [hp] at h
        cases he' : expect (chr ':') (skip s₂) with
        | error e => rw [he'] at h; cases h
        | ok s₃ =>
          simp only [he'] at h
          cases hv : scanValue fuel depth (skip s₃) with
          | error e => rw [hv] at h; cases h
          | ok r =>
            obtain ⟨value, s₄⟩ := r
            obtain ⟨hsound, hnest⟩ := scanValue_sound hv
            have hkeys' := Dict.nodup_put (k := joinPieces key) (v := value) hkeys
            have hall := @membersSound_put (joinPieces key) value hsound _ hmembers
            have hmax := @membersNesting_put _ (joinPieces key) value hnest _ hdepth
            simp only [hv] at h
            cases hu : skip s₄ with
            | nil => rw [hu] at h; cases h
            | cons c w =>
              simp only [hu] at h
              split at h
              · cases h
                exact ⟨⟨hkeys', hall⟩, by rw [nesting]; omega⟩
              · split at h
                · exact scanMembers_sound hkeys' hall hmax h
                · cases h

end

theorem loads_sound {maxDepth : ℕ} {s : Str} {value : Value} (h : loads maxDepth s = .ok value) :
    Sound value ∧ nesting value ≤ maxDepth := by
  unfold loads at h
  split at h
  · cases h
  · cases hv : scanValue (2 * s.length + 1) maxDepth (skip s) with
    | error e => rw [hv] at h; cases h
    | ok r =>
      simp only [hv] at h
      split at h
      · cases h
        exact scanValue_sound hv
      · cases h

/-! ### What is written is read back -/

/-- What `float.__repr__` gives is read as the float with that text, which has that text. -/
structure FloatsReread (floatRepr : Str → Str) : Prop where
  reads : ∀ (s rest : Str) (fuel depth : ℕ), Ends rest →
    scanValue (fuel + 1) depth (floatRepr s ++ rest) = .ok (.float (floatRepr s), rest)
  again : ∀ s, floatRepr (floatRepr s) = floatRepr s

section
variable {floatRepr : Str → Str} (hfloat : FloatsReread floatRepr)

theorem texts_itemChunks_cons (limit level : ℕ) (item : Value) (items : List Value) :
    texts (itemChunks floatRepr limit level [] (item :: items)) =
      texts (chunks floatRepr limit level item) ++
        texts (itemChunks floatRepr limit level (separator level) items) :=
  texts_itemChunks_lead floatRepr limit level [] item items

theorem texts_itemChunks_separator (limit level : ℕ) (item : Value) (items : List Value) :
    texts (itemChunks floatRepr limit level (separator level) (item :: items)) =
      chr ',' :: (newline level ++ texts (itemChunks floatRepr limit level [] (item :: items))) := by
  rw [texts_itemChunks_lead, texts_itemChunks_cons, separator, List.cons_append]

theorem texts_memberChunks_cons (limit level : ℕ) (key : Str) (value : Value)
    (members : List (Str × Value)) :
    texts (memberChunks floatRepr limit level [] ((key, value) :: members)) =
      stringText key ++ (str ": " ++ (texts (chunks floatRepr limit level value) ++
        texts (memberChunks floatRepr limit level (separator level) members))) := by
  simp [memberChunks]

theorem texts_memberChunks_separator (limit level : ℕ) (m : Str × Value)
    (members : List (Str × Value)) :
    texts (memberChunks floatRepr limit level (separator level) (m :: members)) =
      chr ',' :: (newline level ++
        texts (memberChunks floatRepr limit level [] (m :: members))) := by
  rw [texts_memberChunks_lead, separator, List.cons_append]

theorem texts_arr (limit level : ℕ) (items : List Value) (hne : items ≠ []) :
    texts (chunks floatRepr (limit + 1) level (.arr items)) =
      chr '[' :: (newline (level + 1) ++
        (texts (itemChunks floatRepr limit (level + 1) [] items) ++
          (newline level ++ [chr ']']))) := by
  cases items with
  | nil => exact absurd rfl hne
  | cons item items =>
    rw [chunks, texts_append, texts_itemChunks_lead, texts_itemChunks_cons]
    simp

theorem ends_newline (level : ℕ) (s : Str) : Ends (newline level ++ s) := .cons _ (by decide)

include hfloat

set_option linter.unusedSectionVars false in
mutual

/-- The reader takes the chunks of a value for the value. -/
theorem scanValue_chunks : ∀ {value : Value}, Sound value → ∀ {limit level fuel depth : ℕ}
    {rest : Str}, Ends rest → nesting value ≤ limit → nesting value ≤ depth →
    2 * (texts (chunks floatRepr limit level value) ++ rest).length < fuel →
    scanValue fuel depth (texts (chunks floatRepr limit level value) ++ rest) =
      .ok (settled floatRepr value, rest)
  | _, _, _, _, 0, _, _, _, _, _, hfuel => absurd hfuel (Nat.not_lt_zero _)
  | .null, _, limit, level, fuel + 1, depth, rest, _, _, _, _ => by
    rw [chunks_scalar floatRepr limit level rfl, texts_cons_ok, texts_nil, List.append_nil]
    exact (scanValue_other (by decide) fuel depth _).trans rfl
  | .bool true, _, limit, level, fuel + 1, depth, rest, _, _, _, _ => by
    rw [chunks_scalar floatRepr limit level rfl, texts_cons_ok, texts_nil, List.append_nil]
    exact (scanValue_other (by decide) fuel depth _).trans rfl
  | .bool false, _, limit, level, fuel + 1, depth, rest, _, _, _, _ => by
    rw [chunks_scalar floatRepr limit level rfl, texts_cons_ok, texts_nil, List.append_nil]
    exact (scanValue_other (by decide) fuel depth _).trans rfl
  | .int n, hsound, limit, level, fuel + 1, depth, rest, hends, _, _, _ => by
    rw [chunks_scalar floatRepr limit level rfl, texts_cons_ok, texts_nil, List.append_nil]
    exact scanValue_int hsound hends fuel depth
  | .float s, _, limit, level, fuel + 1, depth, rest, hends, _, _, _ => by
    rw [chunks_scalar floatRepr limit level rfl, texts_cons_ok, texts_nil, List.append_nil]
    exact hfloat.reads s rest fuel depth hends
  | .str s, _, limit, level, fuel + 1, depth, rest, _, _, _, _ => by
    rw [chunks_scalar floatRepr limit level rfl, texts_cons_ok, texts_nil, List.append_nil]
    exact scanValue_stringText fuel depth s rest
  | .arr _, _, 0, _, _ + 1, _, _, _, hlimit, _, _ => absurd hlimit (by simp [nesting])
  | .arr _, _, _ + 1, _, _ + 1, 0, _, _, _, hdepth, _ => absurd hdepth (by simp [nesting])
  | .arr [], _, limit + 1, level, fuel + 1, depth + 1, rest, _, _, _, _ => by
    have hbracket : chr '[' ≠ quote ∧ chr '[' ≠ chr '\x7b' := by decide
    have hskip : skip (chr ']' :: rest) = chr ']' :: rest := skip_of_head (by decide) rest
    have htext : texts (chunks floatRepr (limit + 1) level (.arr [])) ++ rest =
        chr '[' :: chr ']' :: rest := rfl
    rw [htext, scanValue.eq_def]
    simp [hbracket, hskip, expect, settled, itemsSettled]
  | .arr (item :: items), hsound, limit + 1, level, fuel + 1, depth + 1, rest, _, hlimit, hdepth,
      hfuel => by
    rw [texts_arr limit level _ (List.cons_ne_nil _ _)] at hfuel ⊢
    simp only [nesting] at hlimit hdepth
    simp only [List.cons_append, List.append_assoc, List.nil_append] at hfuel ⊢
    refine scanValue_arr (blank_newline (level + 1)) ?_
    refine (@scanItems_chunks (item :: items) (List.cons_ne_nil _ _) hsound limit (level + 1) level
      fuel depth [] rest (by omega) (by omega) ?_).trans rfl
    simp only [List.length_cons, List.length_append] at hfuel ⊢
    omega
  | .obj _, _, 0, _, _ + 1, _, _, _, hlimit, _, _ => absurd hlimit (by simp [nesting])
  | .obj _, _, _ + 1, _, _ + 1, 0, _, _, _, hdepth, _ => absurd hdepth (by simp [nesting])
  | .obj [], _, limit + 1, level, fuel + 1, depth + 1, rest, _, _, _, _ => by
    have hbrace : chr '\x7b' ≠ quote := by decide
    have hskip : skip (chr '\x7d' :: rest) = chr '\x7d' :: rest := skip_of_head (by decide) rest
    have htext : texts (chunks floatRepr (limit + 1) level (.obj [])) ++ rest =
        chr '\x7b' :: chr '\x7d' :: rest := rfl
    rw [htext, scanValue.eq_def]
    simp [hbrace, hskip, expect, settled, membersSettled]
  | .obj (member :: members), hsound, limit + 1, level, fuel + 1, depth + 1, rest, _, hlimit,
      hdepth, hfuel => by
    rw [texts_obj floatRepr limit level _ (List.cons_ne_nil _ _)] at hfuel ⊢
    simp only [nesting] at hlimit hdepth
    simp only [List.cons_append, List.append_assoc, List.nil_append] at hfuel ⊢
    refine scanValue_obj (blank_newline (level + 1)) ?_
    refine (@scanMembers_chunks (member :: members) (List.cons_ne_nil _ _) hsound.2 limit
      (level + 1) level fuel depth [] rest hsound.1 (by omega) (by omega) ?_).trans rfl
    simp only [List.length_cons, List.length_append] at hfuel ⊢
    omega

theorem scanItems_chunks : ∀ {items : List Value}, items ≠ [] → ItemsSound items →
    ∀ {limit level outer fuel depth : ℕ} {acc : List Value} {rest : Str},
    itemsNesting items ≤ limit → itemsNesting items ≤ depth →
    2 * (texts (itemChunks floatRepr limit level [] items) ++
      (newline outer ++ chr ']' :: rest)).length + 1 < fuel →
    scanItems fuel depth acc (texts (itemChunks floatRepr limit level [] items) ++
        (newline outer ++ chr ']' :: rest)) =
      .ok (.arr (acc ++ itemsSettled floatRepr items), rest)
  | [], hne, _, _, _, _, _, _, _, _, _, _, _ => absurd rfl hne
  | _ :: _, _, _, _, _, _, 0, _, _, _, _, _, hfuel => absurd hfuel (Nat.not_lt_zero _)
  | [item], _, hsound, limit, level, outer, fuel + 1, depth, acc, rest, hlimit, hdepth, hfuel => by
    simp only [itemsNesting] at hlimit hdepth
    have hitem := @scanValue_chunks item hsound.1 limit level fuel depth
      (newline outer ++ chr ']' :: rest) (ends_newline outer _) (by omega) (by omega)
      (by
        rw [texts_itemChunks_cons, itemChunks, texts_nil, List.append_nil] at hfuel
        omega)
    rw [texts_itemChunks_cons, itemChunks, texts_nil, List.append_nil]
    exact scanItems_last (blank_newline outer) hitem
  | item :: next :: items, _, hsound, limit, level, outer, fuel + 1, depth, acc, rest, hlimit,
      hdepth, hfuel => by
    rw [itemsNesting] at hlimit hdepth
    rw [texts_itemChunks_cons, texts_itemChunks_separator] at hfuel ⊢
    simp only [List.append_assoc, List.cons_append, List.length_append, List.length_cons] at hfuel ⊢
    refine scanItems_next (blank_newline level) (@scanValue_chunks item hsound.1 limit level fuel
      depth _ (ends_comma _) (by omega) (by omega) ?_) ?_
    · simp only [List.length_append, List.length_cons]
      omega
    · rw [@scanItems_chunks (next :: items) (List.cons_ne_nil _ _) hsound.2 limit level outer fuel
        depth _ rest (by omega) (by omega)
        (by simp only [List.length_append, List.length_cons]; omega)]
      rw [List.append_assoc]
      rfl

theorem scanMembers_chunks : ∀ {members : List (Str × Value)}, members ≠ [] →
    MembersSound members → ∀ {limit level outer fuel depth : ℕ} {acc : List (Str × Value)}
    {rest : Str}, ((acc ++ members).map Prod.fst).Nodup →
    membersNesting members ≤ limit → membersNesting members ≤ depth →
    2 * (texts (memberChunks floatRepr limit level [] members) ++
      (newline outer ++ chr '\x7d' :: rest)).length + 1 < fuel →
    scanMembers fuel depth acc (texts (memberChunks floatRepr limit level [] members) ++
        (newline outer ++ chr '\x7d' :: rest)) =
      .ok (.obj (acc ++ membersSettled floatRepr members), rest)
  | [], hne, _, _, _, _, _, _, _, _, _, _, _, _ => absurd rfl hne
  | _ :: _, _, _, _, _, _, 0, _, _, _, _, _, _, hfuel => absurd hfuel (Nat.not_lt_zero _)
  | [(key, value)], _, hsound, limit, level, outer, fuel + 1, depth, acc, rest, hkeys, hlimit,
      hdepth, hfuel => by
    simp only [membersNesting] at hlimit hdepth
    rw [texts_memberChunks_cons, memberChunks, texts_nil, List.append_nil] at hfuel ⊢
    simp only [List.append_assoc] at hfuel ⊢
    refine scanMembers_last (blank_newline outer) (key_not_mem hkeys) (@scanValue_chunks value
      hsound.1 limit level fuel depth _ (ends_newline outer _) (by omega) (by omega) ?_)
    simp only [List.length_append, List.length_cons] at hfuel ⊢
    omega
  | (key, value) :: next :: members, _, hsound, limit, level, outer, fuel + 1, depth, acc, rest,
      hkeys, hlimit, hdepth, hfuel => by
    rw [membersNesting] at hlimit hdepth
    rw [texts_memberChunks_cons, texts_memberChunks_separator] at hfuel ⊢
    simp only [List.append_assoc, List.cons_append, List.length_append, List.length_cons] at hfuel ⊢
    refine scanMembers_next (blank_newline level) (key_not_mem hkeys) (@scanValue_chunks value
      hsound.1 limit level fuel depth _ (ends_comma _) (by omega) (by omega) ?_) ?_
    · simp only [List.length_append, List.length_cons]
      omega
    · have hkeys' : (((acc ++ [(key, settled floatRepr value)]) ++ (next :: members)).map
          Prod.fst).Nodup := by
        simpa using hkeys
      rw [@scanMembers_chunks (next :: members) (List.cons_ne_nil _ _) hsound.2 limit level outer
        fuel depth _ rest hkeys' (by omega) (by omega)
        (by simp only [List.length_append, List.length_cons]; omega)]
      rw [List.append_assoc]
      rfl

end

/-- A sound value that is written whole is read back. -/
theorem loads_dumpLine_sound (hclean : ∀ s, noSurrogate (floatRepr s) = true) {value : Value}
    (hsound : Sound value) {limit maxDepth : ℕ} (hok : (dumpLine floatRepr limit value).2 = none)
    (hdepth : nesting value ≤ maxDepth) :
    ∃ text, utf8Decode (dumpLine floatRepr limit value).1 = some text ∧
      loads maxDepth text = .ok (settled floatRepr value) := by
  have hlimit := ((dumpLine_ok_iff hclean limit value).mp hok).1
  have hscan := @scanValue_chunks floatRepr hfloat value hsound limit 0
    (2 * (texts (chunks floatRepr limit 0 value) ++ [0x0A]).length + 1) maxDepth [0x0A]
    (.cons [] (by decide)) hlimit hdepth (by omega)
  refine ⟨texts (chunks floatRepr limit 0 value) ++ [0x0A], ?_, ?_⟩
  · obtain ⟨pre, suf, hsplit, hbytes, hnone, _⟩ := writeChunks_spec
      (chunks floatRepr limit 0 value ++ [.ok [0x0A]])
    rw [hnone.mp hok, List.append_nil] at hsplit
    rw [← hsplit] at hbytes
    simpa [dumpLine] using utf8Decode_utf8Encode hbytes
  · exact loads_of_scanValue hscan (by decide)

end

end Json
