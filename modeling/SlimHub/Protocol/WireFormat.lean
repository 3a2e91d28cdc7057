import SlimHub.Protocol.Mac

/-! `parseFrame` accepts exactly the inbound wire format.

    Encoder and decoder are separate code paths: the type is padded with NULs on one side and
    stripped of them on the other, the length is written on one side and compared with the whole
    frame on the other. Both meet at `frameBytes`, the layout of a frame from its parts. Every
    byte string that is not such a layout with an inbound type is a `PacketParseError`. -/

namespace SlimHub.Nus
open Text

/-- The layout of a frame, from its raw parts. -/
def frameBytes (macBytes typeBytes payload : Bytes) : Bytes :=
  macBytes ++ typeBytes ++ toLittle packetLenLen payload.length ++ payload ++ endFlag

/-- Parts of the sizes that a frame has. -/
structure Sized (macBytes typeBytes payload : Bytes) : Prop where
  mac : macBytes.length = 6
  type : typeBytes.length = 8
  payload : payload.length ≤ 0xFFFF

/-- An inbound type with a payload it admits. -/
def Inbound (packetType : Str) (payload : Bytes) : Prop :=
  (packetType = str "RAWDATA" ∧ payload.length = rawdataPayloadLen) ∨
    (packetType = str "ALERT" ∧ payload.length ≤ 0xFFFF)

/-- What `parseFrame` does once the layout is checked. -/
def parseBody (macBytes rawPacketType payload : Bytes) : Except PyError ParsedFrame :=
  match asciiDecode (rstripNul rawPacketType) with
  | none =>
    .error ⟨.packetParseError, [.lit "packet type is not valid ASCII: ", .hex rawPacketType]⟩
  | some packetType =>
    if packetType = str "RAWDATA" then
      (parseRawdata payload).map fun packet =>
        ⟨macText macBytes, macBytes, packetType, payload.length, payload, .rawData packet⟩
    else if packetType = str "ALERT" then
      .ok ⟨macText macBytes, macBytes, packetType, payload.length, payload,
        .alert (parseAlert payload)⟩
    else .error ⟨.packetParseError, [.lit "unknown packet type: ", .repr packetType]⟩

/-! ### The layout -/

variable {mb tb p d : Bytes}

theorem length_frameBytes (h : Sized mb tb p) : (frameBytes mb tb p).length = 18 + p.length := by
  simp only [frameBytes, List.length_append, length_toLittle, packetLenLen_eq, length_endFlag,
    h.mac, h.type]
  omega

/-- The length field of a buffer that starts with a frame's first sixteen bytes. -/
theorem packetLengthAt_header {n : ℕ} (hm : mb.length = 6) (ht : tb.length = 8) (hn : n ≤ 0xFFFF)
    (rest : Bytes) : packetLengthAt (mb ++ tb ++ toLittle packetLenLen n ++ rest) = n := by
  have hdrop : (mb ++ tb ++ toLittle packetLenLen n ++ rest).drop (macLen + packetTypeLen) =
      toLittle packetLenLen n ++ rest := by
    rw [List.append_assoc, List.drop_left' (by simp [hm, ht])]
  have htake : (toLittle packetLenLen n ++ rest).take packetLenLen = toLittle packetLenLen n :=
    List.take_left' (length_toLittle _ _)
  rw [packetLengthAt, hdrop, htake]
  exact fromLittle_toLittle _ _ (by simp; omega)

theorem packetLengthAt_frameBytes (h : Sized mb tb p) :
    packetLengthAt (frameBytes mb tb p) = p.length := by
  rw [frameBytes, List.append_assoc (mb ++ tb ++ _)]
  exact packetLengthAt_header h.mac h.type h.payload _

theorem drop_endFlag_frameBytes (h : Sized mb tb p) :
    (frameBytes mb tb p).drop ((frameBytes mb tb p).length - endFlagLen) = endFlag := by
  rw [length_frameBytes h, frameBytes]
  refine List.drop_left' ?_
  simp only [List.length_append, length_toLittle, packetLenLen_eq, endFlagLen_eq, h.mac, h.type]
  omega

theorem drop_header_frameBytes (h : Sized mb tb p) :
    (frameBytes mb tb p).drop headerLen = p ++ endFlag := by
  rw [frameBytes, List.append_assoc (mb ++ tb ++ _)]
  exact List.drop_left' (by simp [h.mac, h.type])

theorem take_mac_frameBytes (h : Sized mb tb p) : (frameBytes mb tb p).take macLen = mb := by
  simp only [frameBytes, List.append_assoc]
  exact List.take_left' (by simp [h.mac])

theorem take_type_frameBytes (h : Sized mb tb p) :
    ((frameBytes mb tb p).drop macLen).take packetTypeLen = tb := by
  simp only [frameBytes, List.append_assoc]
  rw [List.drop_left' (by simp [h.mac]), List.take_left' (by simp [h.type])]

/-- A byte string whose length field and end flag check out has the layout. -/
theorem frameBytes_of_checks (hlen : 18 ≤ d.length) (hexp : d.length = 18 + packetLengthAt d)
    (hend : d.drop (d.length - 2) = endFlag) :
    ∃ mb tb p, Sized mb tb p ∧ d = frameBytes mb tb p := by
  have hfield : ((d.drop 14).take 2).length = 2 := by
    rw [List.length_take, List.length_drop]; omega
  have hlt : packetLengthAt d < 65536 := by
    have := fromLittle_lt ((d.drop 14).take 2)
    rw [hfield] at this
    exact this
  have hpay : ((d.drop 16).take (packetLengthAt d)).length = packetLengthAt d := by
    rw [List.length_take, List.length_drop]; omega
  refine ⟨d.take 6, (d.drop 6).take 8, (d.drop 16).take (packetLengthAt d),
    ⟨by rw [List.length_take]; omega, by rw [List.length_take, List.length_drop]; omega,
      by omega⟩, ?_⟩
  have hsplit : d = d.take 6 ++ ((d.drop 6).take 8 ++ ((d.drop 14).take 2 ++
      ((d.drop 16).take (packetLengthAt d) ++ d.drop (16 + packetLengthAt d)))) := by
    rw [← List.drop_drop (i := packetLengthAt d), List.take_append_drop,
      show d.drop 16 = (d.drop 14).drop 2 by rw [List.drop_drop], List.take_append_drop,
      show d.drop 14 = (d.drop 6).drop 8 by rw [List.drop_drop], List.take_append_drop,
      List.take_append_drop]
  have htail : d.drop (16 + packetLengthAt d) = endFlag := by
    rw [← hend]; congr 1; omega
  have hle : (d.drop 14).take 2 = toLittle 2 (packetLengthAt d) := by
    have := toLittle_fromLittle ((d.drop 14).take 2)
    rw [hfield] at this
    exact this.symm
  rw [frameBytes, hpay]
  conv_lhs => rw [hsplit, htail, hle]
  simp only [packetLenLen_eq, List.append_assoc]

/-! ### The decoder on a layout -/

theorem parseFrame_frameBytes (h : Sized mb tb p) :
    parseFrame (frameBytes mb tb p) = parseBody mb tb p := by
  have hlen := length_frameBytes h
  have hfield := packetLengthAt_frameBytes h
  have hpay : ((frameBytes mb tb p).drop headerLen).take p.length = p := by
    rw [drop_header_frameBytes h, List.take_left' rfl]
  rw [parseFrame, if_neg (by simp [hlen])]
  simp only [hfield]
  rw [if_neg (by simp [hlen]; omega), if_neg (not_not.mpr (drop_endFlag_frameBytes h)),
    take_type_frameBytes h, take_mac_frameBytes h, hpay]
  rfl

/-- Whatever is not a layout fails one of the three checks. -/
theorem parseFrame_cases (d : Bytes) :
    (∃ mb tb p, Sized mb tb p ∧ d = frameBytes mb tb p) ∨
      ∃ e, parseFrame d = .error e ∧ e.cls = .packetParseError := by
  by_cases h1 : d.length < headerLen + endFlagLen
  · exact Or.inr ⟨_, by rw [parseFrame, if_pos h1], rfl⟩
  · by_cases h2 : d.length ≠ headerLen + packetLengthAt d + endFlagLen
    · exact Or.inr ⟨_, by rw [parseFrame, if_neg h1]; exact if_pos h2, rfl⟩
    · by_cases h3 : d.drop (d.length - endFlagLen) ≠ endFlag
      · exact Or.inr ⟨_, by rw [parseFrame, if_neg h1]; exact (if_neg h2).trans (if_pos h3), rfl⟩
      · left
        simp only [headerLen_eq, endFlagLen_eq, not_not] at h1 h2 h3
        exact frameBytes_of_checks (by omega) (by omega) h3

/-! ### Payloads -/

theorem calcsize_rawdataFormat : Struct.calcsize rawdataFormat = rawdataPayloadLen := by decide

theorem parseRawdata_ok (h : p.length = rawdataPayloadLen) :
    ∃ packet, parseRawdata p = .ok packet := by
  have hsize : p.length = Struct.calcsize rawdataFormat := h.trans calcsize_rawdataFormat.symm
  rw [parseRawdata, if_neg (not_not.mpr h), Struct.unpack_of_length hsize]
  exact ⟨_, rfl⟩

theorem parseRawdata_error (h : p.length ≠ rawdataPayloadLen) :
    ∃ e, parseRawdata p = .error e ∧ e.cls = .packetParseError :=
  ⟨_, if_pos h, rfl⟩

/-! ### Types -/

theorem rstripNul_append_zeros (raw : Bytes) :
    rstripNul raw ++ List.replicate (raw.length - (rstripNul raw).length) 0 = raw := by
  have hsplit : rstripNul raw ++ raw.rtakeWhile (· == 0) = raw :=
    List.rdropWhile_append_rtakeWhile
  have hzeros : raw.rtakeWhile (· == 0) = List.replicate (raw.rtakeWhile (· == 0)).length 0 :=
    List.eq_replicate_of_mem fun b hb => by simpa using List.mem_rtakeWhile_imp hb
  have hlen : raw.length - (rstripNul raw).length = (raw.rtakeWhile (· == 0)).length := by
    have := congrArg List.length hsplit
    rw [List.length_append] at this
    omega
  rw [hlen, ← hzeros, hsplit]

/-- Padding undoes stripping. -/
theorem packetTypeBytes_of_decode {t : Str} (htb : tb.length = 8)
    (h : asciiDecode (rstripNul tb) = some t) : packetTypeBytes t = .ok tb := by
  have hpre : (rstripNul tb).length ≤ tb.length := (List.rdropWhile_prefix _ _).length_le
  have hpad := rstripNul_append_zeros tb
  rw [htb] at hpad
  have hfits : ¬(rstripNul tb).length > packetTypeLen := by rw [packetTypeLen_eq]; omega
  rw [packetTypeBytes, asciiEncode_asciiDecode h]
  exact (if_neg hfits).trans (congrArg Except.ok hpad)

theorem packetTypeBytes_rawdata :
    packetTypeBytes (str "RAWDATA") = .ok [0x52, 0x41, 0x57, 0x44, 0x41, 0x54, 0x41, 0] := by
  decide

theorem packetTypeBytes_alert :
    packetTypeBytes (str "ALERT") = .ok [0x41, 0x4C, 0x45, 0x52, 0x54, 0, 0, 0] := by
  decide

/-- Stripping undoes padding on the inbound types. -/
theorem decode_of_packetTypeBytes {t : Str} (ht : t = str "RAWDATA" ∨ t = str "ALERT")
    (h : packetTypeBytes t = .ok tb) : tb.length = 8 ∧ asciiDecode (rstripNul tb) = some t := by
  rcases ht with rfl | rfl
  · rw [packetTypeBytes_rawdata] at h
    obtain rfl := Except.ok.inj h
    decide
  · rw [packetTypeBytes_alert] at h
    obtain rfl := Except.ok.inj h
    decide

/-! ### Encoder and decoder -/

theorem buildFrame_ok_iff {m t : Str} :
    buildFrame m t p = .ok d ↔ p.length ≤ 0xFFFF ∧ ∃ mb tb, macToBytes m = .ok mb ∧
      packetTypeBytes t = .ok tb ∧ d = frameBytes mb tb p := by
  unfold buildFrame
  by_cases hp : p.length > 0xFFFF
  · simp [hp, bind, Except.bind, throw, throwThe, MonadExceptOf.throw]
  · have hle : p.length ≤ 0xFFFF := by omega
    simp only [if_neg hp, hle, true_and, bind, Except.bind, pure, Except.pure]
    cases hm : macToBytes m with
    | error e => simp
    | ok mb =>
      cases ht : packetTypeBytes t with
      | error e => simp
      | ok tb =>
        simp only [Except.ok.injEq]
        constructor
        · intro h
          exact ⟨mb, tb, rfl, rfl, h.symm⟩
        · rintro ⟨mb', tb', rfl, rfl, h⟩
          exact h.symm

theorem packetTypeBytes_length {t : Str} (h : packetTypeBytes t = .ok tb) : tb.length = 8 := by
  unfold packetTypeBytes at h
  cases hraw : asciiEncode t with
  | none => rw [hraw] at h; cases h
  | some raw =>
    rw [hraw] at h
    by_cases hlong : raw.length > packetTypeLen
    · simp only [if_pos hlong] at h; cases h
    · simp only [if_neg hlong] at h
      obtain rfl := Except.ok.inj h
      rw [packetTypeLen_eq] at hlong
      rw [List.length_append, List.length_replicate, packetTypeLen_eq]
      omega

/-- Whatever the encoder writes has the layout. -/
theorem buildFrame_layout {m t : Str} (h : buildFrame m t p = .ok d) :
    ∃ mb tb, Sized mb tb p ∧ d = frameBytes mb tb p := by
  obtain ⟨hp, mb, tb, hm, ht, rfl⟩ := buildFrame_ok_iff.mp h
  exact ⟨mb, tb, ⟨macToBytes_length hm, packetTypeBytes_length ht, hp⟩, rfl⟩

/-- The decoder on what the encoder wrote. -/
theorem parseFrame_buildFrame {m t : Str} (hin : Inbound t p) (h : buildFrame m t p = .ok d) :
    ∃ f, parseFrame d = .ok f ∧ normalizeMac m = .ok f.mac ∧ f.macBytes = d.take 6 ∧
      f.packetType = t ∧ f.packetLength = p.length ∧ f.payload = p := by
  obtain ⟨hp, mb, tb, hm, ht, rfl⟩ := buildFrame_ok_iff.mp h
  have htype : t = str "RAWDATA" ∨ t = str "ALERT" := hin.imp And.left And.left
  obtain ⟨htb, hdec⟩ := decode_of_packetTypeBytes htype ht
  have hs : Sized mb tb p := ⟨macToBytes_length hm, htb, hp⟩
  have hmac := normalizeMac_of_macToBytes hm
  have htake : (frameBytes mb tb p).take 6 = mb := take_mac_frameBytes hs
  rw [parseFrame_frameBytes hs, parseBody, hdec, htake]
  rcases hin with ⟨rfl, hlen⟩ | ⟨rfl, _⟩
  · obtain ⟨packet, hpacket⟩ := parseRawdata_ok hlen
    refine ⟨⟨macText mb, mb, str "RAWDATA", p.length, p, .rawData packet⟩, ?_, hmac, rfl, rfl, rfl,
      rfl⟩
    simp [hpacket, Except.map]
  · refine ⟨⟨macText mb, mb, str "ALERT", p.length, p, .alert (parseAlert p)⟩, ?_, hmac, rfl, rfl,
      rfl, rfl⟩
    have hne : str "ALERT" ≠ str "RAWDATA" := by decide
    simp [hne]

/-- The body either raises `PacketParseError` or returns a frame with an inbound type. -/
theorem parseBody_cases (hs : Sized mb tb p) :
    (∃ f, parseBody mb tb p = .ok f ∧ f.mac = macText mb ∧ f.payload = p ∧
        Inbound f.packetType p ∧ packetTypeBytes f.packetType = .ok tb) ∨
      ∃ e, parseBody mb tb p = .error e ∧ e.cls = .packetParseError := by
  unfold parseBody
  cases hdec : asciiDecode (rstripNul tb) with
  | none => exact Or.inr ⟨_, rfl, rfl⟩
  | some t =>
    have htype := packetTypeBytes_of_decode hs.type hdec
    by_cases hraw : t = str "RAWDATA"
    · by_cases hlen : p.length = rawdataPayloadLen
      · obtain ⟨packet, hpacket⟩ := parseRawdata_ok hlen
        refine Or.inl ⟨⟨macText mb, mb, t, p.length, p, .rawData packet⟩, ?_, rfl, rfl,
          Or.inl ⟨hraw, hlen⟩, htype⟩
        simp [hraw, hpacket, Except.map]
      · obtain ⟨e, he, hcls⟩ := parseRawdata_error hlen
        refine Or.inr ⟨e, ?_, hcls⟩
        simp [hraw, he, Except.map]
    · by_cases halert : t = str "ALERT"
      · refine Or.inl ⟨⟨macText mb, mb, t, p.length, p, .alert (parseAlert p)⟩, ?_, rfl, rfl,
          Or.inr ⟨halert, hs.payload⟩, htype⟩
        simp only [if_neg hraw, if_pos halert]
      · exact Or.inr ⟨_, by simp only [if_neg hraw, if_neg halert]; rfl, rfl⟩

/-- The encoder on what the decoder returned. -/
theorem buildFrame_parseFrame {f : ParsedFrame} (h : parseFrame d = .ok f) :
    Inbound f.packetType f.payload ∧ buildFrame f.mac f.packetType f.payload = .ok d := by
  rcases parseFrame_cases d with ⟨mb, tb, p, hs, rfl⟩ | ⟨e, he, _⟩
  · rw [parseFrame_frameBytes hs] at h
    rcases parseBody_cases hs with ⟨g, hg, hmac, hpay, hin, htype⟩ | ⟨e, he, _⟩
    · obtain rfl := Except.ok.inj (hg.symm.trans h)
      rw [hpay, hmac]
      exact ⟨hin, buildFrame_ok_iff.mpr
        ⟨hs.payload, mb, tb, macToBytes_macText hs.mac, htype, rfl⟩⟩
    · rw [he] at h; cases h
  · rw [he] at h; cases h

/-- The MAC of a parsed frame is normalised. -/
theorem normalizeMac_parseFrame {f : ParsedFrame} (h : parseFrame d = .ok f) :
    normalizeMac f.mac = .ok f.mac := by
  rcases parseFrame_cases d with ⟨mb, tb, p, hs, rfl⟩ | ⟨e, he, _⟩
  · rw [parseFrame_frameBytes hs] at h
    rcases parseBody_cases hs with ⟨g, hg, hmac, _⟩ | ⟨e, he, _⟩
    · obtain rfl := Except.ok.inj (hg.symm.trans h)
      rw [hmac]
      exact normalizeMac_macText hs.mac
    · rw [he] at h; cases h
  · rw [he] at h; cases h

theorem parseFrame_error {e : PyError} (h : parseFrame d = .error e) :
    e.cls = .packetParseError := by
  rcases parseFrame_cases d with ⟨mb, tb, p, hs, rfl⟩ | ⟨e', he, hcls⟩
  · rw [parseFrame_frameBytes hs] at h
    rcases parseBody_cases hs with ⟨g, hg, _⟩ | ⟨e', he, hcls⟩
    · rw [hg] at h; cases h
    · rw [he] at h; cases h; exact hcls
  · rw [he] at h; cases h; exact hcls

/-- CORRECT: `parseFrame` accepts exactly the inbound frames that `buildFrame` can write, returns
    their parts, is undone by `buildFrame`, and fails with `PacketParseError` on all else. -/
theorem parseFrame_accepts_wire_format (d : Bytes) :
    ((∃ f, parseFrame d = .ok f) ↔
        ∃ m t p, (compact m).length = 12 ∧ Inbound t p ∧ buildFrame m t p = .ok d) ∧
      (∀ m t p, Inbound t p → buildFrame m t p = .ok d →
        ∃ f, parseFrame d = .ok f ∧ normalizeMac m = .ok f.mac ∧ f.macBytes = d.take 6 ∧
          f.packetType = t ∧ f.packetLength = p.length ∧ f.payload = p) ∧
      (∀ f, parseFrame d = .ok f → buildFrame f.mac f.packetType f.payload = .ok d) ∧
      ((¬∃ f, parseFrame d = .ok f) → ∃ e, parseFrame d = .error e ∧ e.cls = .packetParseError) := by
  refine ⟨⟨?_, ?_⟩, ?_, ?_, ?_⟩
  · rintro ⟨f, hf⟩
    obtain ⟨hin, hbuild⟩ := buildFrame_parseFrame hf
    obtain ⟨_, mb, _, hm, _⟩ := buildFrame_ok_iff.mp hbuild
    exact ⟨f.mac, f.packetType, f.payload, (macToBytes_ok_iff.mp hm).1, hin, hbuild⟩
  · rintro ⟨m, t, p, _, hin, hbuild⟩
    obtain ⟨f, hf, _⟩ := parseFrame_buildFrame hin hbuild
    exact ⟨f, hf⟩
  · intro m t p hin hbuild
    exact parseFrame_buildFrame hin hbuild
  · intro f hf
    exact (buildFrame_parseFrame hf).2
  · intro hnone
    cases hf : parseFrame d with
    | ok f => exact absurd ⟨f, hf⟩ hnone
    | error e => exact ⟨e, rfl, parseFrame_error hf⟩

/-! ### MAC text -/

/-- The text of a frame renders the six bytes in front. -/
theorem mac_parseFrame {f : ParsedFrame} {rest : Bytes} (hmb : mb.length = 6)
    (h : parseFrame (mb ++ rest) = .ok f) : f.mac = macText mb := by
  rcases parseFrame_cases (mb ++ rest) with ⟨mb', tb, p, hs, hd⟩ | ⟨e, he, _⟩
  · have hfront : mb = mb' := by
      have htake := take_mac_frameBytes hs
      rw [← hd, List.take_left' (by simp [hmb])] at htake
      exact htake
    rw [hd, parseFrame_frameBytes hs] at h
    rcases parseBody_cases hs with ⟨g, hg, hmac, _⟩ | ⟨e, he, _⟩
    · obtain rfl := Except.ok.inj (hg.symm.trans h)
      rw [hmac, hfront]
    · rw [he] at h; cases h
  · rw [he] at h; cases h

/-- Any six bytes are in front of a frame. -/
theorem exists_parseFrame (hmb : mb.length = 6) :
    ∃ rest f, parseFrame (mb ++ rest) = .ok f := by
  have hin : Inbound (str "ALERT") [] := .inr ⟨rfl, by simp⟩
  have hbuild : buildFrame (macText mb) (str "ALERT") [] = .ok (frameBytes mb _ []) :=
    buildFrame_ok_iff.mpr
      ⟨by simp, mb, _, macToBytes_macText hmb, packetTypeBytes_alert, rfl⟩
  obtain ⟨f, hf, _⟩ := parseFrame_buildFrame hin hbuild
  rw [frameBytes, List.append_assoc, List.append_assoc, List.append_assoc] at hf
  exact ⟨_, f, hf⟩

/-- Both texts name the same bytes just when they are the same once normalised. -/
theorem normalizeMac_eq_iff {s u t v : Str} {b c : Bytes} (ht : normalizeMac s = .ok t)
    (hv : normalizeMac u = .ok v) (hb : macToBytes s = .ok b) (hc : macToBytes u = .ok c) :
    t = v ↔ b = c := by
  obtain rfl := Except.ok.inj (ht.symm.trans (normalizeMac_of_macToBytes hb))
  obtain rfl := Except.ok.inj (hv.symm.trans (normalizeMac_of_macToBytes hc))
  constructor
  · intro htext
    have hbytes := macToBytes_macText (macToBytes_length hb)
    rw [htext, macToBytes_macText (macToBytes_length hc)] at hbytes
    exact (Except.ok.inj hbytes).symm
  · intro hbytes
    rw [hbytes]

/-- CORRECT: a normalised MAC text is a faithful name for six bytes. Normalising is idempotent, the
    text of a frame is the normalised text of its bytes and leads back to them, and two accepted
    texts agree once normalised just when they spell the same bytes. -/
theorem mac_text_faithful :
    (∀ s t, normalizeMac s = .ok t → normalizeMac t = .ok t ∧
      ∃ b, macToBytes s = .ok b ∧ b.length = 6 ∧
        ∀ rest f, parseFrame (b ++ rest) = .ok f → f.mac = t) ∧
      (∀ b : Bytes, b.length = 6 → (∃ rest f, parseFrame (b ++ rest) = .ok f) ∧
        ∀ rest f, parseFrame (b ++ rest) = .ok f →
          normalizeMac f.mac = .ok f.mac ∧ macToBytes f.mac = .ok b) ∧
      ∀ s u t v, normalizeMac s = .ok t → normalizeMac u = .ok v →
        ∃ b c, macToBytes s = .ok b ∧ macToBytes u = .ok c ∧ (t = v ↔ b = c) := by
  have hbytes : ∀ {s t}, normalizeMac s = .ok t → ∃ b, macToBytes s = .ok b ∧ t = macText b := by
    intro s t h
    obtain ⟨hlen, rfl⟩ := normalizeMac_ok_iff.mp h
    exact ⟨_, macToBytes_ok_iff.mpr ⟨hlen, rfl⟩, rfl⟩
  refine ⟨?_, ?_, ?_⟩
  · intro s t h
    obtain ⟨b, hb, rfl⟩ := hbytes h
    have hlen := macToBytes_length hb
    exact ⟨normalizeMac_idem h, b, hb, hlen, fun rest f hf => mac_parseFrame hlen hf⟩
  · intro b hlen
    refine ⟨exists_parseFrame hlen, fun rest f hf => ?_⟩
    rw [mac_parseFrame hlen hf]
    exact ⟨normalizeMac_macText hlen, macToBytes_macText hlen⟩
  · intro s u t v ht hv
    obtain ⟨b, hb, _⟩ := hbytes ht
    obtain ⟨c, hc, _⟩ := hbytes hv
    exact ⟨b, c, hb, hc, normalizeMac_eq_iff ht hv hb hc⟩

/-- Of one device: a text with dashes, and the text that its frames show. -/
theorem mac_text_faithful_dashes :
    ∃ b c, macToBytes (str "aa-bb-cc-dd-ee-ff") = .ok b ∧
      macToBytes (str "AA:BB:CC:DD:EE:FF") = .ok c ∧
      (str "AA:BB:CC:DD:EE:FF" = str "AA:BB:CC:DD:EE:FF" ↔ b = c) :=
  mac_text_faithful.2.2 _ _ _ _ (by decide +kernel) (by decide +kernel)

end SlimHub.Nus
