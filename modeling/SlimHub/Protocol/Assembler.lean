import SlimHub.Lib.Cutting
import SlimHub.Protocol.WireFormat

/-! The frame assembler and the notify handlers that feed it.

    BLE notifications deliver the byte stream in arbitrary chunks. `push` appends a chunk to the
    buffer and cuts complete frames off its front: it drops one byte where the declared length is
    above the limit, waits where the frame is not complete, and emits the frame otherwise. The
    handlers parse each emitted frame, report the ones `parseFrame` rejects, and pass the others
    on. The loop is an instance of greedy cutting (`assembler`), whose laws give that blocks are
    isolated from each other, that chunk boundaries do not matter, and when a disturbed stream is
    read in step again. -/

namespace SlimHub.Nus
open Text Cutting

structure FrameAssembler where
  buffer : Bytes
  maxFrameLen : ℤ

/-- `FrameAssembler(max_frame_len)`. -/
def FrameAssembler.new (maxFrameLen : ℤ := Nus.maxFrameLen) : FrameAssembler := ⟨[], maxFrameLen⟩

/-- The frame length declared at the front of a buffer. -/
def frameLenAt (buffer : Bytes) : ℕ := headerLen + packetLengthAt buffer + endFlagLen

/-- The `while` loop of `push`; every round shortens the buffer, so its length bounds the rounds. -/
def pushLoop (maxFrameLen : ℤ) : ℕ → Bytes → List Bytes → Bytes × List Bytes
  | 0, buffer, frames => (buffer, frames)
  | fuel + 1, buffer, frames =>
    if buffer.length ≥ headerLen + endFlagLen then
      let frameLen := frameLenAt buffer
      if frameLen > maxFrameLen then pushLoop maxFrameLen fuel (buffer.drop 1) frames
      else if buffer.length < frameLen then (buffer, frames)
      else pushLoop maxFrameLen fuel (buffer.drop frameLen) (frames ++ [buffer.take frameLen])
    else (buffer, frames)

def FrameAssembler.push (self : FrameAssembler) (chunk : Bytes) : FrameAssembler × List Bytes :=
  let buffer := self.buffer ++ chunk
  let r := pushLoop self.maxFrameLen buffer.length buffer []
  ({ self with buffer := r.1 }, r.2)

def FrameAssembler.clear (self : FrameAssembler) : FrameAssembler := { self with buffer := [] }

/-- Push chunks one after another; the frames of all pushes together. -/
def FrameAssembler.pushAll : FrameAssembler → List Bytes → FrameAssembler × List Bytes
  | self, [] => (self, [])
  | self, chunk :: chunks =>
    let r := self.push chunk
    let rest := r.1.pushAll chunks
    (rest.1, r.2 ++ rest.2)

/-! ### Notify handlers -/

/-- What a handler does with the frames of one notification: `onFrame` calls in the daemon, a log
    line in the compatibility reader, an error report for a frame that does not parse. -/
inductive NotifyEffect where
  | onFrame (address : Str) (frame : ParsedFrame)
  | logParsed (frame : ParsedFrame)
  | parseError (exc : PyError) (frameBytes : Bytes)
  deriving DecidableEq

/-- `for frame_bytes in ...: try: parse_frame ... except PacketParseError: ...; continue`. Any other
    exception leaves the handler and is the second component. -/
def handleFrames (accept : ParsedFrame → NotifyEffect) :
    List Bytes → List NotifyEffect × Option PyError
  | [] => ([], none)
  | frameBytes :: rest =>
    match parseFrame frameBytes with
    | .ok frame =>
      let r := handleFrames accept rest
      (accept frame :: r.1, r.2)
    | .error exc =>
      if exc.cls = .packetParseError then
        let r := handleFrames accept rest
        (.parseError exc frameBytes :: r.1, r.2)
      else ([], some exc)

/-- `DeviceSession._build_notify_handler`, called while the session has the given address. -/
def handleNotify (address : Str) (assembler : FrameAssembler) (data : Bytes) :
    FrameAssembler × List NotifyEffect × Option PyError :=
  let r := assembler.push data
  (r.1, handleFrames (.onFrame address) r.2)

/-- `build_notify_handler` of the compatibility reader. -/
def handleNotifyReader (assembler : FrameAssembler) (data : Bytes) :
    FrameAssembler × List NotifyEffect × Option PyError :=
  let r := assembler.push data
  (r.1, handleFrames .logParsed r.2)

/-- Notifications one after another, each with the session address at its time. -/
def notifyAll : FrameAssembler → List (Str × Bytes) → List NotifyEffect × List PyError
  | _, [] => ([], [])
  | assembler, (address, data) :: calls =>
    let r := handleNotify address assembler data
    let rest := notifyAll r.1 calls
    (r.2.1 ++ rest.1, r.2.2.toList ++ rest.2)

def notifyAllReader : FrameAssembler → List Bytes → List NotifyEffect × List PyError
  | _, [] => ([], [])
  | assembler, data :: calls =>
    let r := handleNotifyReader assembler data
    let rest := notifyAllReader r.1 calls
    (r.2.1 ++ rest.1, r.2.2.toList ++ rest.2)

/-- The frames passed to `on_frame`, in call order. -/
def onFrameCalls (effects : List NotifyEffect) : List ParsedFrame :=
  effects.filterMap fun
    | .onFrame _ frame => some frame
    | _ => none

/-- The frames the reader logs, in order. -/
def loggedFrames (effects : List NotifyEffect) : List ParsedFrame :=
  effects.filterMap fun
    | .logParsed frame => some frame
    | _ => none

/-- The frames among byte strings that `parseFrame` accepts, in order. -/
def accepted (frames : List Bytes) : List ParsedFrame :=
  frames.filterMap fun frameBytes => (parseFrame frameBytes).toOption

/-! ### The loop as a cutter -/

/-- One round of the loop as a decision on the buffer. -/
def decideFrame (maxFrameLen : ℤ) (buffer : Bytes) : Option (ℕ × Bool) :=
  if buffer.length ≥ headerLen + endFlagLen then
    if frameLenAt buffer > maxFrameLen then some (1, false)
    else if buffer.length < frameLenAt buffer then none
    else some (frameLenAt buffer, true)
  else none

variable {maxLen : ℤ}

/-- The length field is read from the first sixteen bytes only. -/
theorem frameLenAt_append {b : Bytes} (h : 18 ≤ b.length) (c : Bytes) :
    frameLenAt (b ++ c) = frameLenAt b := by
  have hdrop : (b ++ c).drop 14 = b.drop 14 ++ c := List.drop_append_of_le_length (by omega)
  have htake : (b.drop 14 ++ c).take 2 = (b.drop 14).take 2 :=
    List.take_append_of_le_length (by rw [List.length_drop]; omega)
  simp only [frameLenAt, packetLengthAt, macLen_eq, packetTypeLen_eq, packetLenLen_eq, hdrop, htake]

theorem frameLenAt_eq (b : Bytes) : frameLenAt b = 18 + packetLengthAt b := by
  simp only [frameLenAt, headerLen_eq, endFlagLen_eq]
  omega

/-- What a decision says about the buffer. -/
theorem decideFrame_cases {b : Bytes} {n : ℕ} {k : Bool} (h : decideFrame maxLen b = some (n, k)) :
    18 ≤ b.length ∧ ((n = 1 ∧ k = false ∧ (frameLenAt b : ℤ) > maxLen) ∨
      (n = frameLenAt b ∧ k = true ∧ (frameLenAt b : ℤ) ≤ maxLen ∧ frameLenAt b ≤ b.length)) := by
  unfold decideFrame at h
  split at h
  · next hlen =>
    simp only [headerLen_eq, endFlagLen_eq] at hlen
    refine ⟨hlen, ?_⟩
    split at h
    · next hbig =>
      cases h
      exact Or.inl ⟨rfl, rfl, hbig⟩
    · next hbig =>
      split at h
      · cases h
      · next hfull =>
        cases h
        exact Or.inr ⟨rfl, rfl, not_lt.mp hbig, not_lt.mp hfull⟩
  · cases h

theorem decideFrame_drop {b : Bytes} (hlen : 18 ≤ b.length) (hbig : (frameLenAt b : ℤ) > maxLen) :
    decideFrame maxLen b = some (1, false) := by
  rw [decideFrame, if_pos (by simpa using hlen), if_pos hbig]

theorem decideFrame_emit {b : Bytes} (hfit : (frameLenAt b : ℤ) ≤ maxLen)
    (hfull : frameLenAt b ≤ b.length) : decideFrame maxLen b = some (frameLenAt b, true) := by
  have hge := frameLenAt_eq b
  rw [decideFrame, if_pos (by simp; omega), if_neg (not_lt.mpr hfit), if_neg (not_lt.mpr hfull)]

/-- The assembler's decision is not revised when more bytes are present. -/
def assembler (maxLen : ℤ) : Cutter UInt8 where
  cut := decideFrame maxLen
  cut_pos := by
    intro b n k h
    rcases (decideFrame_cases h).2 with ⟨rfl, _⟩ | ⟨rfl, _⟩
    · exact Nat.one_pos
    · rw [frameLenAt_eq]; omega
  cut_le := by
    intro b n k h
    obtain ⟨hlen, ⟨rfl, _⟩ | ⟨rfl, _, _, hfull⟩⟩ := decideFrame_cases h
    · omega
    · exact hfull
  cut_append := by
    rintro b ⟨n, k⟩ c h
    obtain ⟨hlen, ⟨rfl, rfl, hbig⟩ | ⟨rfl, rfl, hfit, hfull⟩⟩ := decideFrame_cases h
    · refine decideFrame_drop (by rw [List.length_append]; omega) ?_
      rw [frameLenAt_append hlen]; exact hbig
    · rw [← frameLenAt_append hlen c] at hfit ⊢
      refine decideFrame_emit hfit ?_
      rw [frameLenAt_append hlen, List.length_append]; omega

/-- The loop is the greedy scan: its buffer is the rest, its frames are the kept pieces. -/
theorem pushLoop_eq (maxLen : ℤ) : ∀ (fuel : ℕ) (b : Bytes) (frames : List Bytes),
    pushLoop maxLen fuel b frames = (((assembler maxLen).runFrom fuel b).2,
      frames ++ Cutter.kept ((assembler maxLen).runFrom fuel b).1)
  | 0, b, frames => by simp [pushLoop, Cutter.runFrom]
  | fuel + 1, b, frames => by
    simp only [pushLoop, Cutter.runFrom]
    by_cases hlen : b.length ≥ headerLen + endFlagLen
    · by_cases hbig : (frameLenAt b : ℤ) > maxLen
      · have hcut : (assembler maxLen).cut b = some (1, false) :=
          decideFrame_drop (by simpa using hlen) hbig
        rw [if_pos hlen, if_pos hbig, pushLoop_eq maxLen fuel, hcut]
        simp only [Cutter.kept_cons_false]
      · by_cases hfull : b.length < frameLenAt b
        · have hcut : (assembler maxLen).cut b = none := by
            show decideFrame maxLen b = none
            rw [decideFrame, if_pos hlen, if_neg hbig, if_pos hfull]
          rw [if_pos hlen, if_neg hbig, if_pos hfull, hcut]
          simp
        · have hcut : (assembler maxLen).cut b = some (frameLenAt b, true) :=
            decideFrame_emit (not_lt.mp hbig) (not_lt.mp hfull)
          rw [if_pos hlen, if_neg hbig, if_neg hfull, pushLoop_eq maxLen fuel, hcut]
          simp only [Cutter.kept_cons_true, List.append_assoc, List.singleton_append]
    · have hcut : (assembler maxLen).cut b = none := by
        show decideFrame maxLen b = none
        rw [decideFrame, if_neg hlen]
      rw [if_neg hlen, hcut]
      simp

namespace FrameAssembler

variable (self : FrameAssembler)

/-- The pieces that one push of `chunk` cuts off the buffer, dropped bytes included. -/
def cuts (chunk : Bytes) : List (Bytes × Bool) :=
  (assembler self.maxFrameLen).pieces (self.buffer ++ chunk)

theorem push_eq (chunk : Bytes) :
    self.push chunk = ({ self with buffer := (assembler self.maxFrameLen).rest (self.buffer ++ chunk) },
      Cutter.kept (self.cuts chunk)) := by
  simp only [push, pushLoop_eq, List.nil_append]
  rfl

/-- Pushing chunks is feeding the cutter. -/
theorem pushAll_eq : ∀ (self : FrameAssembler) (chunks : List Bytes),
    self.pushAll chunks =
      ({ self with buffer := ((assembler self.maxFrameLen).feed self.buffer chunks).2 },
        Cutter.kept ((assembler self.maxFrameLen).feed self.buffer chunks).1)
  | self, [] => rfl
  | self, chunk :: chunks => by
    rw [pushAll, push_eq, pushAll_eq]
    simp only [Cutter.feed, Cutter.kept_append, cuts]

/-- A settled assembler has nothing left to cut: fresh, or after a push. -/
def Settled : Prop := decideFrame self.maxFrameLen self.buffer = none

theorem settled_new (maxLen : ℤ) : (FrameAssembler.new maxLen).Settled :=
  (assembler maxLen).cut_nil

theorem settled_push (chunk : Bytes) : (self.push chunk).1.Settled := by
  rw [push_eq]
  exact (assembler self.maxFrameLen).cut_rest _

theorem pushAll_of_settled (h : self.Settled) (chunks : List Bytes) :
    self.pushAll chunks = self.push chunks.flatten := by
  rw [pushAll_eq, (assembler self.maxFrameLen).feed_eq_of_cut _ _ h, push_eq]
  rfl

theorem pushAll_cons (chunk : Bytes) (chunks : List Bytes) :
    self.pushAll (chunk :: chunks) = self.push (chunk :: chunks).flatten := by
  rw [pushAll_eq, (assembler self.maxFrameLen).feed_eq, push_eq]
  rfl

/-- A buffer with nothing left to cut is short. -/
theorem length_of_settled (h : self.Settled) : (self.buffer.length : ℤ) < max 18 self.maxFrameLen := by
  unfold Settled decideFrame at h
  split at h
  · split at h
    · cases h
    · rename_i hfit
      split at h
      · rename_i hshort
        have hlen : (self.buffer.length : ℤ) < frameLenAt self.buffer := by exact_mod_cast hshort
        exact lt_max_of_lt_right (hlen.trans_le (not_lt.mp hfit))
      · cases h
  · rename_i hlen
    simp only [headerLen_eq, endFlagLen_eq] at hlen
    exact lt_max_of_lt_left (by exact_mod_cast not_le.mp hlen)

/-- More rounds than the buffer has bytes make no difference: the loop of `push` ends by itself. -/
theorem push_eq_pushLoop (chunk : Bytes) {fuel : ℕ} (h : (self.buffer ++ chunk).length ≤ fuel) :
    pushLoop self.maxFrameLen fuel (self.buffer ++ chunk) [] =
      ((self.push chunk).1.buffer, (self.push chunk).2) := by
  simp only [push, pushLoop_eq]
  rw [Cutter.runFrom_fuel (assembler self.maxFrameLen) fuel _ _ h le_rfl]

/-- CORRECT: every byte is accounted for. Each push ends. After any chunks, the first buffer and the
    chunks are, in order, the emitted frames, single dropped bytes, and the buffer. A frame has its
    declared length, within the limit; a byte is dropped where, with the chunks so far, at least 18
    bytes were there and the declared length was above the limit; and after a push the buffer is
    shorter than the limit or than 18 bytes. -/
theorem bytes_accounted (chunks : List Bytes) :
    (∀ chunk fuel, (self.buffer ++ chunk).length ≤ fuel →
      pushLoop self.maxFrameLen fuel (self.buffer ++ chunk) [] =
        ((self.push chunk).1.buffer, (self.push chunk).2)) ∧
      (chunks ≠ [] → ((self.pushAll chunks).1.buffer.length : ℤ) < max 18 self.maxFrameLen) ∧
      ∃ pieces : List (Bytes × Bool),
        (pieces.map Prod.fst).flatten ++ (self.pushAll chunks).1.buffer =
          self.buffer ++ chunks.flatten ∧
        (self.pushAll chunks).2 = (pieces.filter Prod.snd).map Prod.fst ∧
        (∀ frame, (frame, true) ∈ pieces → frame.length = 18 + packetLengthAt frame ∧
          (frame.length : ℤ) ≤ self.maxFrameLen) ∧
        ∀ pre dropped post, pieces = pre ++ (dropped, false) :: post → dropped.length = 1 ∧
          ∃ i < chunks.length, ∃ present,
            present = (self.buffer ++ (chunks.take (i + 1)).flatten).drop
              (pre.map Prod.fst).flatten.length ∧
            dropped <+: present ∧ 18 ≤ present.length ∧
            ((18 + packetLengthAt present : ℕ) : ℤ) > self.maxFrameLen := by
  refine ⟨fun chunk fuel => self.push_eq_pushLoop chunk, fun hne => ?_,
    ((assembler self.maxFrameLen).feed self.buffer chunks).1, ?_, ?_, fun frame hframe => ?_,
    fun pre dropped post hdropped => ?_⟩
  · obtain ⟨chunk, chunks, rfl⟩ := List.exists_cons_of_ne_nil hne
    rw [pushAll_cons]
    exact length_of_settled _ (self.settled_push _)
  · rw [pushAll_eq]
    exact (assembler self.maxFrameLen).feed_flatten self.buffer chunks
  · rw [pushAll_eq]
    rfl
  · obtain ⟨pre, post, hpieces⟩ := List.append_of_mem hframe
    obtain ⟨i, _, hcut, hprefix⟩ := (assembler self.maxFrameLen).cut_of_feed hpieces
    obtain ⟨hlen, ⟨_, hfalse, _⟩ | ⟨hframeLen, _, hfit, _⟩⟩ := decideFrame_cases hcut
    · cases hfalse
    · -- the length field of the frame is the one that was read from the buffer
      have hge : 18 ≤ frame.length := by
        rw [hframeLen, frameLenAt_eq]
        exact Nat.le_add_right 18 _
      obtain ⟨rest, hrest⟩ := hprefix
      rw [← hrest, frameLenAt_append hge] at hframeLen hfit
      rw [← frameLenAt_eq]
      exact ⟨hframeLen, hframeLen ▸ hfit⟩
  · obtain ⟨i, hi, hcut, hprefix⟩ := (assembler self.maxFrameLen).cut_of_feed hdropped
    obtain ⟨hlen, ⟨hone, _, hbig⟩ | ⟨_, hfalse, _⟩⟩ := decideFrame_cases hcut
    · rw [frameLenAt_eq] at hbig
      exact ⟨hone, i, hi, _, rfl, hprefix, hlen, hbig⟩
    · cases hfalse

end FrameAssembler

end SlimHub.Nus
