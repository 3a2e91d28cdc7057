import SlimHub.Protocol.WireFormat

/-! RAWDATA payloads and their fields.

        B  B  H        H     H         H    H     H     H         B      16 b
        │  │  flagEnv  temp  humidity  iaq  eco2  bvoc  accuracy  sound  one a class
        flagHumanPresence, detected

    The packed layout has no spare bit: every payload of 33 bytes is the encoding of one packet
    in range, and a packet in range has one payload. -/

namespace SlimHub.Nus
open Text

/-- The entries of the tuple that a packet comes from. -/
def rawdataFields (packet : RawDataPacket) : List ℤ :=
  [packet.flagHumanPresence, packet.detected, packet.flagEnv, (packet.temperatureC * 100).floor,
    packet.humidity, packet.iaq, packet.eco2, packet.bvoc, packet.accuracy, packet.flagSound] ++
    packet.sound

/-- The packed layout of a packet. -/
def encodeRawdata (packet : RawDataPacket) : Option Bytes :=
  Struct.pack rawdataFormat (rawdataFields packet)

/-- The packets whose fields fit the layout. -/
structure RawDataPacket.InRange (packet : RawDataPacket) : Prop where
  flagHumanPresence : 0 ≤ packet.flagHumanPresence ∧ packet.flagHumanPresence < 256
  detected : 0 ≤ packet.detected ∧ packet.detected < 256
  flagEnv : 0 ≤ packet.flagEnv ∧ packet.flagEnv < 65536
  temperatureC : ∃ raw : ℤ, packet.temperatureC = raw / 100 ∧ 0 ≤ raw ∧ raw < 65536
  humidity : 0 ≤ packet.humidity ∧ packet.humidity < 65536
  iaq : 0 ≤ packet.iaq ∧ packet.iaq < 65536
  eco2 : 0 ≤ packet.eco2 ∧ packet.eco2 < 65536
  bvoc : 0 ≤ packet.bvoc ∧ packet.bvoc < 65536
  accuracy : 0 ≤ packet.accuracy ∧ packet.accuracy < 65536
  flagSound : 0 ≤ packet.flagSound ∧ packet.flagSound < 256
  sound : packet.sound.length = 16 ∧ ∀ value ∈ packet.sound, -128 ≤ value ∧ value < 128

/-- The event that a human was detected, as a payload. -/
def pirPayload : Bytes := [1, 1] ++ List.replicate 31 0

section
variable {payload : Bytes} {packet : RawDataPacket}

theorem length_of_parseRawdata (h : parseRawdata payload = .ok packet) :
    payload.length = rawdataPayloadLen := by
  by_contra hlen
  obtain ⟨e, he, _⟩ := parseRawdata_error hlen
  rw [he] at h
  cases h

/-- What `parseRawdata` makes of the unpacked values. -/
theorem parseRawdata_of_unpack {v₀ v₁ v₂ v₃ v₄ v₅ v₆ v₇ v₈ v₉ : ℤ} {sound : List ℤ}
    (hlen : payload.length = rawdataPayloadLen) (h : Struct.unpack rawdataFormat payload =
      some (v₀ :: v₁ :: v₂ :: v₃ :: v₄ :: v₅ :: v₆ :: v₇ :: v₈ :: v₉ :: sound)) :
    parseRawdata payload = .ok
      { flagHumanPresence := v₀, detected := v₁, flagEnv := v₂, temperatureC := v₃ / 100
        humidity := v₄, iaq := v₅, eco2 := v₆, bvoc := v₇, accuracy := v₈, flagSound := v₉
        sound := sound
        isPirHumanDetectionEvent := v₀ = 1 ∧ v₁ = 1 ∧ (decide (v₂ = 0 ∧ v₃ = 0 ∧ v₄ = 0 ∧ v₅ = 0 ∧
          v₆ = 0 ∧ v₇ = 0 ∧ v₈ = 0 ∧ v₉ = 0 ∧ ∀ value ∈ sound, value = 0)) = true } := by
  rw [parseRawdata, if_neg (not_not.mpr hlen), h]
  rfl

/-- Nothing of the payload is lost on the way to the packet. -/
theorem unpack_of_parseRawdata (h : parseRawdata payload = .ok packet) :
    Struct.unpack rawdataFormat payload = some (rawdataFields packet) ∧
      (packet.isPirHumanDetectionEvent = true ↔
        rawdataFields packet = 1 :: 1 :: List.replicate 24 0) := by
  have hlen := length_of_parseRawdata h
  have hcount := Struct.length_readAll rawdataFormat payload
  have hunpack := Struct.unpack_of_length (hlen.trans calcsize_rawdataFormat.symm)
  generalize Struct.readAll rawdataFormat payload = unpacked at hunpack hcount
  obtain ⟨v₀, v₁, v₂, v₃, v₄, v₅, v₆, v₇, v₈, v₉, sound, rfl⟩ : ∃ v₀ v₁ v₂ v₃ v₄ v₅ v₆ v₇ v₈ v₉ sound,
      unpacked = v₀ :: v₁ :: v₂ :: v₃ :: v₄ :: v₅ :: v₆ :: v₇ :: v₈ :: v₉ :: sound := by
    match unpacked, hcount with
    | v₀ :: v₁ :: v₂ :: v₃ :: v₄ :: v₅ :: v₆ :: v₇ :: v₈ :: v₉ :: sound, _ =>
      exact ⟨v₀, v₁, v₂, v₃, v₄, v₅, v₆, v₇, v₈, v₉, sound, rfl⟩
  have hsound : sound.length = 16 := by simpa [rawdataFormat] using hcount
  rw [parseRawdata_of_unpack hlen hunpack] at h
  obtain rfl := Except.ok.inj h
  constructor
  · rw [hunpack]
    simp [rawdataFields]
  · have hzeros : sound = List.replicate 16 0 ↔ ∀ value ∈ sound, value = 0 := by
      rw [List.eq_replicate_iff]
      exact and_iff_right hsound
    have hcut : (List.replicate 24 0 : List ℤ) = [0, 0, 0, 0, 0, 0, 0, 0] ++ List.replicate 16 0 :=
      rfl
    rw [hcut]
    generalize List.replicate 16 (0 : ℤ) = zeros at hzeros ⊢
    simp [rawdataFields, hzeros]

theorem RawDataPacket.InRange.fits (h : packet.InRange) :
    List.Forall₂ Struct.Code.Fits rawdataFormat (rawdataFields packet) := by
  obtain ⟨raw, hraw, hraw₀, hraw₁⟩ := h.temperatureC
  have hfloor : (packet.temperatureC * 100).floor = raw := by simp [hraw]
  obtain ⟨hcount, hsound⟩ := h.sound
  have hrest : List.Forall₂ Struct.Code.Fits (List.replicate 16 .b) packet.sound := by
    rw [List.forall₂_iff_get]
    refine ⟨by simp [hcount], fun i _ hi => ?_⟩
    rw [List.get_eq_getElem, List.getElem_replicate]
    exact hsound _ (List.getElem_mem hi)
  rw [rawdataFields, hfloor]
  exact .cons h.flagHumanPresence (.cons h.detected (.cons h.flagEnv (.cons ⟨hraw₀, hraw₁⟩
    (.cons h.humidity (.cons h.iaq (.cons h.eco2 (.cons h.bvoc (.cons h.accuracy
      (.cons h.flagSound hrest)))))))))

/-- What a packet in range is encoded as is decoded to the packet. -/
theorem parseRawdata_of_encode (h : packet.InRange) (hencode : encodeRawdata packet = some payload) :
    ∃ flag, parseRawdata payload = .ok { packet with isPirHumanDetectionEvent := flag } := by
  obtain ⟨raw, hraw, _⟩ := h.temperatureC
  have hunpack := Struct.pack_eq_some_iff.mp hencode
  have hlen : payload.length = rawdataPayloadLen := by
    rw [← calcsize_rawdataFormat]
    by_contra hlen
    rw [Struct.unpack, if_neg hlen] at hunpack
    cases hunpack
  have hback : (((packet.temperatureC * 100).floor : ℤ) / 100 : ℚ) = packet.temperatureC := by
    simp [hraw]
  have hparse := parseRawdata_of_unpack hlen hunpack
  rw [hback] at hparse
  exact ⟨_, hparse⟩

/-- The flag is set on one payload only. -/
theorem isPirHumanDetectionEvent_iff (h : parseRawdata payload = .ok packet) :
    packet.isPirHumanDetectionEvent = true ↔ payload = pirPayload := by
  obtain ⟨hunpack, hflag⟩ := unpack_of_parseRawdata h
  have hpir : Struct.pack rawdataFormat (1 :: 1 :: List.replicate 24 0) = some pirPayload := by
    decide
  rw [hflag]
  constructor
  · intro hfields
    have hpayload := Struct.pack_eq_some_iff.mpr hunpack
    rw [hfields, hpir] at hpayload
    exact (Option.some.inj hpayload).symm
  · rintro rfl
    rw [Struct.pack_eq_some_iff.mp hpir] at hunpack
    exact (Option.some.inj hunpack).symm

/-- Decoding a RAWDATA payload loses nothing. -/
theorem encodeRawdata_of_parse (h : parseRawdata payload = .ok packet) :
    encodeRawdata packet = some payload :=
  Struct.pack_eq_some_iff.mpr (unpack_of_parseRawdata h).1

end

/-- CORRECT: a RAWDATA payload is decoded just when it has 33 bytes, and then without loss: encoding
    the packet gives the payload back, decoding what a packet in range is encoded as gives its
    fields back, and the event flag stands for exactly one payload. -/
theorem rawdata_lossless :
    (∀ payload, (∃ packet, parseRawdata payload = .ok packet) ↔ payload.length = 33) ∧
      (∀ payload packet, parseRawdata payload = .ok packet →
        encodeRawdata packet = some payload ∧
          (packet.isPirHumanDetectionEvent = true ↔ payload = pirPayload)) ∧
      ∀ packet : RawDataPacket, packet.InRange → ∃ payload, encodeRawdata packet = some payload ∧
        ∃ flag, parseRawdata payload = .ok { packet with isPirHumanDetectionEvent := flag } := by
  refine ⟨fun payload => ⟨?_, parseRawdata_ok⟩, fun payload packet h => ?_, fun packet h => ?_⟩
  · rintro ⟨packet, h⟩
    exact length_of_parseRawdata h
  · exact ⟨encodeRawdata_of_parse h, isPirHumanDetectionEvent_iff h⟩
  · obtain ⟨payload, hpayload⟩ := Struct.pack_of_fits h.fits
    exact ⟨payload, hpayload, parseRawdata_of_encode h hpayload⟩

/-- The human detection event. -/
theorem rawdata_lossless_pir : ∃ packet, parseRawdata pirPayload = .ok packet ∧
    packet.isPirHumanDetectionEvent = true := by
  obtain ⟨packet, h⟩ := (rawdata_lossless.1 pirPayload).mpr (by decide)
  exact ⟨packet, h, (rawdata_lossless.2.1 pirPayload packet h).2.mpr rfl⟩

end SlimHub.Nus
