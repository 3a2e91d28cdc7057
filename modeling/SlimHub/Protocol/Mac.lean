import SlimHub.Protocol.Nus

/-! MAC text as a name for six bytes.

    `normalizeMac`, `macToBytes` and the rendering in `parseFrame` are three separate code paths.
    All of them factor through the bytes that the hexadecimal digits of a string spell: the
    normalised text is the rendering of these bytes, and rendering is injective on six bytes. -/

namespace SlimHub.Nus
open Text

/-- The bytes that pairs of hexadecimal digits spell. -/
def hexBytes (digits : Str) : Bytes := (pairs digits).map fun part => UInt8.ofNat (hexNat part)

/-! ### Pairs -/

theorem length_pairs : ∀ s : Str, (pairs s).length = (s.length + 1) / 2
  | [] => rfl
  | [_] => by simp [pairs]
  | _ :: _ :: rest => by
    rw [pairs, List.length_cons, length_pairs rest, List.length_cons, List.length_cons]
    omega

theorem mem_pairs : ∀ {s : Str} {p : Str}, s.length % 2 = 0 → p ∈ pairs s →
    ∃ c d, p = [c, d] ∧ c ∈ s ∧ d ∈ s
  | [], _, _, hp => by simp [pairs] at hp
  | [_], _, hs, _ => by simp at hs
  | c :: d :: rest, p, hs, hp => by
    rcases List.mem_cons.mp hp with rfl | hp
    · exact ⟨c, d, rfl, by simp, by simp⟩
    · have hrest : rest.length % 2 = 0 := by
        simp only [List.length_cons] at hs; omega
      obtain ⟨a, b, rfl, ha, hb⟩ := mem_pairs hrest hp
      exact ⟨a, b, rfl, by simp [ha], by simp [hb]⟩

theorem pairs_flatten : ∀ {ps : List Str}, (∀ p ∈ ps, p.length = 2) → pairs ps.flatten = ps
  | [], _ => rfl
  | p :: ps, h => by
    obtain ⟨c, d, rfl⟩ := List.length_eq_two.mp (h p (List.mem_cons_self ..))
    rw [List.flatten_cons, List.cons_append, List.cons_append, List.nil_append, pairs,
      pairs_flatten fun q hq => h q (List.mem_cons_of_mem _ hq)]

/-! ### Digits -/

theorem mem_compact {m : Str} {c : CodePoint} (h : c ∈ compact m) : c ∈ hexdigits := by
  simpa using (List.mem_filter.mp h).2

theorem colon_not_mem_hexByte (b : UInt8) : colon ∉ hexByte b := by
  intro h
  have hb := b.toNat_lt
  have hcolon : colon ∉ hexdigits := by decide
  simp only [hexByte, List.mem_cons, List.not_mem_nil, or_false] at h
  rcases h with h | h <;> exact hcolon (h ▸ digit_mem _ (by omega))

theorem compact_hexByte (b : UInt8) : compact (hexByte b) = hexByte b := by
  have hb := b.toNat_lt
  have h1 := digit_mem (b.toNat / 16) (by omega)
  have h2 := digit_mem (b.toNat % 16) (by omega)
  simp [compact, hexByte, h1, h2]

/-- Separators are no digits: only the parts count. -/
theorem compact_intercalate : ∀ parts : List Str,
    compact ([colon].intercalate parts) = (parts.map compact).flatten
  | [] => rfl
  | [p] => by simp
  | p :: q :: parts => by
    have ih := compact_intercalate (q :: parts)
    have hcolon : compact [colon] = [] := by decide
    rw [List.intercalate_cons_cons, List.map_cons, List.flatten_cons, ← ih]
    simp only [compact, List.filter_append] at hcolon ⊢
    rw [hcolon, List.append_nil]

theorem compact_macText (b : Bytes) : compact (macText b) = (b.map hexByte).flatten := by
  rw [macText, compact_intercalate, List.map_map]
  congr 1
  exact List.map_congr_left fun x _ => compact_hexByte x

/-- Upper-casing the pairs renders the bytes they spell. -/
theorem map_upper_pairs {s : Str} (hlen : s.length % 2 = 0) (hs : ∀ c ∈ s, c ∈ hexdigits) :
    (pairs s).map (·.map upper) = (hexBytes s).map hexByte := by
  rw [hexBytes, List.map_map]
  refine List.map_congr_left fun p hp => ?_
  obtain ⟨c, d, rfl, hc, hd⟩ := mem_pairs hlen hp
  rw [Function.comp_apply, hexByte_hexNat (hs c hc) (hs d hd)]
  rfl

theorem hexBytes_flatten (b : Bytes) : hexBytes (b.map hexByte).flatten = b := by
  have hlen : ∀ p ∈ b.map hexByte, p.length = 2 := by
    intro p hp
    obtain ⟨x, _, rfl⟩ := List.mem_map.mp hp
    rfl
  rw [hexBytes, pairs_flatten hlen, List.map_map]
  conv_rhs => rw [← List.map_id b]
  refine List.map_congr_left fun x _ => ?_
  rw [Function.comp_apply, hexNat_hexByte, UInt8.ofNat_toNat, id_eq]

theorem length_hexBytes {s : Str} (h : s.length = 12) : (hexBytes s).length = 6 := by
  rw [hexBytes, List.length_map, length_pairs, h]

theorem splitOn_macText {b : Bytes} (hb : b ≠ []) : (macText b).splitOn colon = b.map hexByte := by
  refine List.splitOn_intercalate colon ?_ (by simpa using hb)
  intro p hp
  obtain ⟨x, _, rfl⟩ := List.mem_map.mp hp
  exact colon_not_mem_hexByte x

/-! ### The three code paths -/

theorem normalizeMac_eq {m : Str} (h : (compact m).length = 12) :
    normalizeMac m = .ok (macText (hexBytes (compact m))) := by
  have hpairs := map_upper_pairs (s := compact m) (by rw [h]) (fun c => mem_compact)
  rw [normalizeMac, if_neg (by simp [h]), hpairs, macText]

theorem normalizeMac_error {m : Str} (h : (compact m).length ≠ 12) :
    normalizeMac m = .error ⟨.valueError, [.lit "invalid MAC address: ", .repr m]⟩ :=
  if_pos (by simpa using h)

/-- `normalizeMac` accepts exactly the strings with twelve hexadecimal digits. -/
theorem normalizeMac_ok_iff {m t : Str} :
    normalizeMac m = .ok t ↔ (compact m).length = 12 ∧ t = macText (hexBytes (compact m)) := by
  by_cases h : (compact m).length = 12
  · rw [normalizeMac_eq h]
    simp only [Except.ok.injEq, h, true_and]
    exact eq_comm
  · rw [normalizeMac_error h]
    simp [h]

theorem macToBytes_ok_iff {m : Str} {b : Bytes} :
    macToBytes m = .ok b ↔ (compact m).length = 12 ∧ b = hexBytes (compact m) := by
  by_cases h : (compact m).length = 12
  · have hne : hexBytes (compact m) ≠ [] := by
      intro hnil
      have := length_hexBytes h
      simp [hnil] at this
    have hsplit : ((macText (hexBytes (compact m))).splitOn colon).map
        (fun part => UInt8.ofNat (hexNat part)) = hexBytes (compact m) := by
      rw [splitOn_macText hne, List.map_map]
      conv_rhs => rw [← List.map_id (hexBytes (compact m))]
      refine List.map_congr_left fun x _ => ?_
      rw [Function.comp_apply, hexNat_hexByte, UInt8.ofNat_toNat, id_eq]
    have hok : macToBytes m = .ok (hexBytes (compact m)) := by
      rw [macToBytes, normalizeMac_eq h]
      exact congrArg Except.ok hsplit
    rw [hok]
    simp only [Except.ok.injEq, h, true_and]
    exact eq_comm
  · rw [macToBytes, normalizeMac_error h]
    simp [h, bind, Except.bind]

theorem macToBytes_length {m : Str} {b : Bytes} (h : macToBytes m = .ok b) : b.length = 6 := by
  obtain ⟨hlen, rfl⟩ := macToBytes_ok_iff.mp h
  exact length_hexBytes hlen

/-- The normalised text renders the bytes. -/
theorem normalizeMac_of_macToBytes {m : Str} {b : Bytes} (h : macToBytes m = .ok b) :
    normalizeMac m = .ok (macText b) := by
  obtain ⟨hlen, rfl⟩ := macToBytes_ok_iff.mp h
  exact normalizeMac_eq hlen

theorem length_compact_macText {b : Bytes} (h : b.length = 6) :
    (compact (macText b)).length = 12 := by
  obtain ⟨b0, b1, b2, b3, b4, b5, rfl⟩ : ∃ b0 b1 b2 b3 b4 b5, b = [b0, b1, b2, b3, b4, b5] := by
    match b, h with
    | [b0, b1, b2, b3, b4, b5], _ => exact ⟨b0, b1, b2, b3, b4, b5, rfl⟩
  rw [compact_macText]
  rfl

/-- Reading back a rendered address. -/
theorem macToBytes_macText {b : Bytes} (h : b.length = 6) : macToBytes (macText b) = .ok b := by
  refine macToBytes_ok_iff.mpr ⟨length_compact_macText h, ?_⟩
  rw [compact_macText, hexBytes_flatten]

/-- A rendered address is in normal form. -/
theorem normalizeMac_macText {b : Bytes} (h : b.length = 6) :
    normalizeMac (macText b) = .ok (macText b) :=
  normalizeMac_of_macToBytes (macToBytes_macText h)

/-- Normalising is idempotent. -/
theorem normalizeMac_idem {m t : Str} (h : normalizeMac m = .ok t) : normalizeMac t = .ok t := by
  obtain ⟨hlen, rfl⟩ := normalizeMac_ok_iff.mp h
  exact normalizeMac_macText (length_hexBytes hlen)

/-- A MAC in normal form has 17 characters. -/
theorem length_of_normalizeMac {a m : Str} (h : normalizeMac a = .ok m) : m.length = 17 := by
  obtain ⟨hlen, rfl⟩ := normalizeMac_ok_iff.mp h
  obtain ⟨b₀, b₁, b₂, b₃, b₄, b₅, hbytes⟩ : ∃ b₀ b₁ b₂ b₃ b₄ b₅,
      hexBytes (compact a) = [b₀, b₁, b₂, b₃, b₄, b₅] := by
    have hsix := length_hexBytes hlen
    generalize hexBytes (compact a) = bytes at hsix
    match bytes, hsix with
    | [b₀, b₁, b₂, b₃, b₄, b₅], _ => exact ⟨b₀, b₁, b₂, b₃, b₄, b₅, rfl⟩
  rw [hbytes]
  rfl

theorem mem_macText {bytes : Bytes} {c : CodePoint} (h : c ∈ macText bytes) :
    c = colon ∨ c ∈ hexdigits := by
  rcases mem_of_mem_intercalate h with hcolon | ⟨p, hp, hc⟩
  · exact .inl (List.mem_singleton.mp hcolon)
  · obtain ⟨b, _, rfl⟩ := List.mem_map.mp hp
    rw [← compact_hexByte] at hc
    exact .inr (mem_compact hc)

/-- The characters of a MAC in normal form. -/
theorem mem_of_normalizeMac {a m : Str} (h : normalizeMac a = .ok m) {c : CodePoint} (hc : c ∈ m) :
    c = colon ∨ c ∈ hexdigits := by
  obtain ⟨_, rfl⟩ := normalizeMac_ok_iff.mp h
  exact mem_macText hc

end SlimHub.Nus
