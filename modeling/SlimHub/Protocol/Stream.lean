import SlimHub.Protocol.Assembler

/-! Streams of frames through the assembler and the notify handlers.

    Three questions about a byte stream that arrives in chunks: are blocks isolated from each
    other whatever their content (`block_isolation`), do chunk boundaries matter
    (`chunking_invariance`), and what does a disturbance cost (`resync_past_look_alikes`). The last
    has a limit: the assembler trusts any length field up to its maximum, so payload bytes that
    read as one keep it out of step for as long as they repeat (`humid_frames_never_resync`). -/

namespace SlimHub.Nus
open Text Cutting

/-! ### Blocks -/

/-- A byte string as long as its own length field says, and not above the limit. -/
structure IsBlock (maxLen : ℤ) (b : Bytes) : Prop where
  long : 18 ≤ b.length
  length : b.length = 16 + packetLengthAt b + 2
  fits : (b.length : ℤ) ≤ maxLen

variable {maxLen : ℤ}

theorem IsBlock.cut {b : Bytes} (h : IsBlock maxLen b) : (assembler maxLen).IsBlock b := by
  have heq : frameLenAt b = b.length := by
    have := h.length
    rw [frameLenAt_eq]; omega
  have hcut : decideFrame maxLen b = some (frameLenAt b, true) :=
    decideFrame_emit (heq ▸ h.fits) heq.le
  rw [heq] at hcut
  exact hcut

theorem isBlock_buildFrame {m t : Str} {p d : Bytes} (h : buildFrame m t p = .ok d)
    (hfit : 18 + (p.length : ℤ) ≤ maxLen) : IsBlock maxLen d := by
  obtain ⟨mb, tb, hs, rfl⟩ := buildFrame_layout h
  have hlen := length_frameBytes hs
  exact ⟨by omega, by rw [packetLengthAt_frameBytes hs]; omega, by rw [hlen]; push_cast; omega⟩

/-- One push of a run of blocks. -/
theorem push_blocks {blocks : List Bytes} (hb : ∀ b ∈ blocks, IsBlock maxLen b) :
    (FrameAssembler.new maxLen).push blocks.flatten = (FrameAssembler.new maxLen, blocks) := by
  have hcut : ∀ b ∈ blocks, (assembler maxLen).IsBlock b := fun b h => (hb b h).cut
  have hnil := (assembler maxLen).cut_nil
  have hpieces := (assembler maxLen).pieces_blocks blocks [] hcut
  have hrest := (assembler maxLen).rest_blocks blocks [] hcut
  rw [(assembler maxLen).pieces_of_none hnil, List.append_nil, List.append_nil] at hpieces
  rw [(assembler maxLen).rest_of_none hnil, List.append_nil] at hrest
  rw [FrameAssembler.push_eq, FrameAssembler.cuts]
  simp only [FrameAssembler.new, List.nil_append, hpieces, hrest, Cutter.kept_map_true]

/-! ### Handlers -/

/-- The one thing a handler does with a frame. -/
def report (accept : ParsedFrame → NotifyEffect) (frameBytes : Bytes) : NotifyEffect :=
  match parseFrame frameBytes with
  | .ok frame => accept frame
  | .error exc => .parseError exc frameBytes

/-- No exception leaves a handler: `parseFrame` raises only what it catches. -/
theorem handleFrames_eq (accept : ParsedFrame → NotifyEffect) : ∀ frames : List Bytes,
    handleFrames accept frames = (frames.map (report accept), none)
  | [] => rfl
  | b :: frames => by
    rw [handleFrames, handleFrames_eq accept frames, List.map_cons, report]
    cases hf : parseFrame b with
    | ok frame => rfl
    | error exc => exact if_pos (parseFrame_error hf)

theorem onFrameCalls_report (address : Str) (frames : List Bytes) :
    onFrameCalls (frames.map (report (.onFrame address))) = accepted frames := by
  rw [onFrameCalls, accepted, List.filterMap_map]
  refine List.filterMap_congr fun b _ => ?_
  rw [Function.comp_apply, report]
  cases parseFrame b <;> rfl

theorem loggedFrames_report (frames : List Bytes) :
    loggedFrames (frames.map (report .logParsed)) = accepted frames := by
  rw [loggedFrames, accepted, List.filterMap_map]
  refine List.filterMap_congr fun b _ => ?_
  rw [Function.comp_apply, report]
  cases parseFrame b <;> rfl

/-- Over a run of notifications, `on_frame` gets the accepted frames of all pushes together. -/
theorem notifyAll_eq : ∀ (self : FrameAssembler) (calls : List (Str × Bytes)),
    onFrameCalls (notifyAll self calls).1 = accepted (self.pushAll (calls.map Prod.snd)).2 ∧
      (notifyAll self calls).2 = []
  | _, [] => ⟨rfl, rfl⟩
  | self, (address, data) :: calls => by
    obtain ⟨hcalls, herr⟩ := notifyAll_eq (self.push data).1 calls
    simp only [notifyAll, handleNotify, handleFrames_eq, List.map_cons, FrameAssembler.pushAll]
    refine ⟨?_, by simpa using herr⟩
    have hrep := onFrameCalls_report address (self.push data).2
    rw [onFrameCalls, List.filterMap_append, accepted, List.filterMap_append]
    exact congrArg₂ (· ++ ·) hrep hcalls

theorem notifyAllReader_eq : ∀ (self : FrameAssembler) (chunks : List Bytes),
    loggedFrames (notifyAllReader self chunks).1 = accepted (self.pushAll chunks).2 ∧
      (notifyAllReader self chunks).2 = []
  | _, [] => ⟨rfl, rfl⟩
  | self, data :: chunks => by
    obtain ⟨hcalls, herr⟩ := notifyAllReader_eq (self.push data).1 chunks
    simp only [notifyAllReader, handleNotifyReader, handleFrames_eq, FrameAssembler.pushAll]
    refine ⟨?_, by simpa using herr⟩
    have hrep := loggedFrames_report (self.push data).2
    rw [loggedFrames, List.filterMap_append, accepted, List.filterMap_append]
    exact congrArg₂ (· ++ ·) hrep hcalls

/-- CORRECT: blocks are isolated. However their concatenation is cut into chunks, a fresh assembler
    returns exactly the blocks and ends with an empty buffer, both handlers pass on exactly the
    frames among them that parse, and raise nothing. Whatever `buildFrame` writes within the limit
    is a block. -/
theorem block_isolation (blocks : List Bytes) (hb : ∀ b ∈ blocks, IsBlock maxLen b) :
    (∀ chunks : List Bytes, chunks.flatten = blocks.flatten →
      (FrameAssembler.new maxLen).pushAll chunks = (FrameAssembler.new maxLen, blocks)) ∧
    (∀ calls : List (Str × Bytes), (calls.map Prod.snd).flatten = blocks.flatten →
      onFrameCalls (notifyAll (.new maxLen) calls).1 = accepted blocks ∧
        (notifyAll (.new maxLen) calls).2 = []) ∧
    (∀ chunks : List Bytes, chunks.flatten = blocks.flatten →
      loggedFrames (notifyAllReader (.new maxLen) chunks).1 = accepted blocks ∧
        (notifyAllReader (.new maxLen) chunks).2 = []) ∧
    (∀ m t p d, buildFrame m t p = .ok d → 18 + (p.length : ℤ) ≤ maxLen → IsBlock maxLen d) := by
  have hpush : ∀ chunks : List Bytes, chunks.flatten = blocks.flatten →
      (FrameAssembler.new maxLen).pushAll chunks = (FrameAssembler.new maxLen, blocks) := by
    intro chunks hc
    rw [FrameAssembler.pushAll_of_settled _ (FrameAssembler.settled_new maxLen), hc]
    exact push_blocks hb
  refine ⟨hpush, ?_, ?_, fun m t p d => isBlock_buildFrame⟩
  · intro calls hc
    obtain ⟨hcalls, herr⟩ := notifyAll_eq (.new maxLen) calls
    rw [hcalls, hpush _ hc]
    exact ⟨rfl, herr⟩
  · intro chunks hc
    obtain ⟨hcalls, herr⟩ := notifyAllReader_eq (.new maxLen) chunks
    rw [hcalls, hpush _ hc]
    exact ⟨rfl, herr⟩

/-- A block with a wrong end flag, between two frames that parse, in chunks that cut its header. -/
theorem block_isolation_rejected_between :
    let frame : Bytes := [1, 2, 3, 4, 5, 6, 0x41, 0x4C, 0x45, 0x52, 0x54, 0, 0, 0, 2, 0,
      0x0d, 0x0a, 0x0d, 0x0a]
    let bad : Bytes := [9, 9, 9, 9, 9, 9, 0x41, 0x4C, 0x45, 0x52, 0x54, 0, 0, 0, 0, 0, 1, 2]
    (FrameAssembler.new 4096).pushAll [frame ++ bad.take 15, [], bad.drop 15 ++ frame] =
        (FrameAssembler.new 4096, [frame, bad, frame]) ∧
      (accepted [frame, bad, frame]).length = 2 := by
  intro frame bad
  refine ⟨(block_isolation [frame, bad, frame] ?_).1 _ (by decide), by decide⟩
  intro b hb
  simp only [List.mem_cons, List.not_mem_nil, or_false] at hb
  rcases hb with rfl | rfl | rfl <;> exact ⟨by decide, by decide, by decide⟩

/-! ### Chunks -/

/-- CORRECT: the emitted frames and the final buffer do not depend on how a byte string is cut into
    chunks, whatever the buffer at the start; a cut has at least one chunk, unless the assembler is
    settled, as it is when fresh and after every push. -/
theorem chunking_invariance (self : FrameAssembler) (w : Bytes) :
    (∀ cs ds : List Bytes, cs ≠ [] → ds ≠ [] → cs.flatten = w → ds.flatten = w →
      self.pushAll cs = self.pushAll ds ∧ self.pushAll cs = self.push w) ∧
    (self.Settled → ∀ cs ds : List Bytes, cs.flatten = w → ds.flatten = w →
      self.pushAll cs = self.pushAll ds ∧ self.pushAll cs = self.push w) ∧
    (FrameAssembler.new self.maxFrameLen).Settled ∧ ∀ chunk, (self.push chunk).1.Settled := by
  have hcut : ∀ cs : List Bytes, cs ≠ [] → cs.flatten = w → self.pushAll cs = self.push w := by
    intro cs hne hw
    cases cs with
    | nil => exact absurd rfl hne
    | cons c cs => rw [self.pushAll_cons, hw]
  refine ⟨?_, ?_, FrameAssembler.settled_new _, self.settled_push⟩
  · intro cs ds hc hd hcw hdw
    exact ⟨(hcut cs hc hcw).trans (hcut ds hd hdw).symm, hcut cs hc hcw⟩
  · intro hs cs ds hcw hdw
    have hc := self.pushAll_of_settled hs cs
    have hd := self.pushAll_of_settled hs ds
    rw [hcw] at hc
    rw [hdw] at hd
    exact ⟨hc.trans hd.symm, hc⟩

/-! ### Resynchronisation -/

/-- A frame that `buildFrame` wrote, within the limit. -/
def Built (maxLen : ℤ) (frame : Bytes) : Prop :=
  (∃ m t p, buildFrame m t p = .ok frame) ∧ (frame.length : ℤ) ≤ maxLen

/-- Where frame `i` starts in the stream `g ++ frames.flatten`. -/
def offset (g : Bytes) (frames : List Bytes) (i : ℕ) : ℕ :=
  g.length + ((frames.take i).flatten).length

theorem Built.isBlock {f : Bytes} (h : Built maxLen f) : IsBlock maxLen f := by
  obtain ⟨⟨m, t, p, hbuild⟩, hfit⟩ := h
  refine isBlock_buildFrame hbuild ?_
  obtain ⟨mb, tb, hs, rfl⟩ := buildFrame_layout hbuild
  rw [length_frameBytes hs] at hfit
  push_cast at hfit
  exact hfit

theorem offset_mono (g : Bytes) (frames : List Bytes) : Monotone (offset g frames) := by
  refine monotone_nat_of_le_succ fun n => ?_
  rw [offset, offset, List.take_add_one, List.flatten_append, List.length_append]
  omega

theorem offset_succ (g : Bytes) {frames : List Bytes} {j : ℕ} (h : j < frames.length) :
    offset g frames (j + 1) = offset g frames j + frames[j].length := by
  rw [offset, offset, List.take_add_one, List.getElem?_eq_getElem h, List.flatten_append,
    List.length_append]
  simp [Nat.add_assoc]

theorem offset_replicate {g f : Bytes} {n i : ℕ} (h : i ≤ n) :
    offset g (List.replicate n f) i = g.length + i * f.length := by
  rw [offset, List.take_replicate, min_eq_left h, List.length_flatten, List.map_replicate,
    List.sum_replicate, smul_eq_mul]

theorem drop_offset (g : Bytes) (frames : List Bytes) (i : ℕ) :
    (g ++ frames.flatten).drop (offset g frames i) = (frames.drop i).flatten := by
  have hsplit : g ++ frames.flatten =
      (g ++ (frames.take i).flatten) ++ (frames.drop i).flatten := by
    rw [List.append_assoc, ← List.flatten_append, List.take_append_drop]
  rw [hsplit]
  exact List.drop_left' (by rw [List.length_append, offset])

theorem drop_flatten_eq {frames : List Bytes} {j : ℕ} (h : j < frames.length) :
    (frames.drop j).flatten = frames[j] ++ (frames.drop (j + 1)).flatten := by
  rw [List.drop_eq_getElem_cons h, List.flatten_cons]

/-- If the assembler looks for a header at a frame's first byte, that frame and all later ones are
    the last frames it emits. -/
theorem emits_of_lands {g : Bytes} {frames : List Bytes} (hf : ∀ f ∈ frames, IsBlock maxLen f)
    {i : ℕ} (h : (assembler maxLen).Lands (g ++ frames.flatten) (offset g frames i)) :
    frames.drop i <:+ ((FrameAssembler.new maxLen).push (g ++ frames.flatten)).2 := by
  obtain ⟨ps, hps, _⟩ := h.pieces
  have hblocks : ∀ f ∈ frames.drop i, (assembler maxLen).IsBlock f :=
    fun f hmem => (hf f (List.mem_of_mem_drop hmem)).cut
  have hnil := (assembler maxLen).cut_nil
  have hpieces := (assembler maxLen).pieces_blocks (frames.drop i) [] hblocks
  rw [(assembler maxLen).pieces_of_none hnil, List.append_nil, List.append_nil] at hpieces
  rw [drop_offset, hpieces] at hps
  rw [FrameAssembler.push_eq, FrameAssembler.cuts]
  simp only [FrameAssembler.new, List.nil_append, hps, Cutter.kept_append, Cutter.kept_map_true]
  exact List.suffix_append _ _

/-- Before a frame that starts at least `maxLen` bytes after `g`, no piece is cut across the frame's
    first byte unless one starts inside a listed frame, less than `maxLen` bytes before it. -/
theorem lands_offset {g : Bytes} {frames : List Bytes} (hf : ∀ f ∈ frames, IsBlock maxLen f)
    {i : ℕ} (hi : i < frames.length) (hfar : (g.length : ℤ) + maxLen ≤ offset g frames i)
    (hno : ∀ q, g.length ≤ q → q < offset g frames i → (offset g frames i : ℤ) < q + maxLen →
      (∀ j, q ≠ offset g frames j) →
      (assembler maxLen).Lands (g ++ frames.flatten) q →
      (frameLenAt ((g ++ frames.flatten).drop q) : ℤ) > maxLen) :
    (assembler maxLen).Lands (g ++ frames.flatten) (offset g frames i) := by
  set s := g ++ frames.flatten with hs
  have hend : 18 ≤ (s.drop (offset g frames i)).length := by
    rw [drop_offset, drop_flatten_eq hi, List.length_append]
    have := (hf _ (List.getElem_mem hi)).long
    omega
  rw [List.length_drop] at hend
  refine (assembler maxLen).lands_iff.mpr fun p hp hland => ?_
  have hlen : 18 ≤ (s.drop p).length := by rw [List.length_drop]; omega
  by_cases hbig : (frameLenAt (s.drop p) : ℤ) > maxLen
  · exact ⟨1, false, decideFrame_drop hlen hbig, hp⟩
  · have hfit := not_lt.mp hbig
    by_cases hg : (p : ℤ) + maxLen ≤ offset g frames i
    · -- a piece that starts in `g`, or that early, ends before the frame starts
      refine ⟨_, true, decideFrame_emit hfit ?_, ?_⟩
      · rw [List.length_drop]; omega
      · omega
    · by_cases hal : ∃ j, p = offset g frames j
      · -- a piece that starts where a listed frame does is that frame
        obtain ⟨j, rfl⟩ := hal
        have hji : j < i := by
          by_contra hij
          exact absurd (offset_mono g frames (not_lt.mp hij)) (by omega)
        have hj : j < frames.length := by omega
        have hcut := (assembler maxLen).cut_append (frames.drop (j + 1)).flatten
          (hf _ (List.getElem_mem hj)).cut
        rw [← drop_flatten_eq hj, ← drop_offset g, ← hs] at hcut
        refine ⟨_, true, hcut, ?_⟩
        rw [← offset_succ g hj]
        exact offset_mono g frames hji
      · exact absurd (hno p (by omega) hp (by omega) (fun j hj => hal ⟨j, hj⟩) hland) hbig

/-- CORRECT: past a disturbance `g`, a frame that starts at least `maxLen` bytes after its end is
    emitted, and all later frames with it, unless in the last `maxLen` bytes before it the assembler
    looks for a header inside an earlier frame and finds a possible length there. -/
theorem resync_past_look_alikes (g : Bytes) (frames : List Bytes)
    (hf : ∀ f ∈ frames, Built maxLen f) (i : ℕ) (hi : i < frames.length)
    (hfar : (g.length : ℤ) + maxLen ≤ offset g frames i)
    (hno : ∀ q, g.length ≤ q → q < offset g frames i → (offset g frames i : ℤ) < q + maxLen →
      (∀ j, q ≠ offset g frames j) →
      (assembler maxLen).Lands (g ++ frames.flatten) q →
      (frameLenAt ((g ++ frames.flatten).drop q) : ℤ) > maxLen) :
    frames.drop i <:+ ((FrameAssembler.new maxLen).push (g ++ frames.flatten)).2 := by
  have hblocks : ∀ f ∈ frames, IsBlock maxLen f := fun f h => (hf f h).isBlock
  exact emits_of_lands hblocks (lands_offset hblocks hi hfar hno)

/-- One stray byte before frames in which no misplaced length field is possible. -/
theorem resync_after_stray_byte :
    let frame : Bytes := [0xFF, 0xFF, 0xFF, 0xFF, 0xFF, 0xFF, 0x41, 0x42, 0x43, 0x44, 0x45, 0x46,
      0x47, 0x48, 5, 0, 0x68, 0x65, 0x6C, 0x6C, 0x6F, 0x0d, 0x0a]
    [frame, frame] <:+ ((FrameAssembler.new 23).push ([7] ++ [frame, frame, frame].flatten)).2 := by
  intro frame
  have hbuilt : Built 23 frame :=
    ⟨⟨str "FFFFFFFFFFFF", str "ABCDEFGH", [0x68, 0x65, 0x6C, 0x6C, 0x6F], by decide⟩, by decide⟩
  have hno : ∀ q < 24, 1 ≤ q → q = 1 ∨
      (frameLenAt (([7] ++ [frame, frame, frame].flatten).drop q) : ℤ) > 23 := by decide
  refine resync_past_look_alikes [7] [frame, frame, frame] ?_ 1 (by decide)
    (by decide) ?_
  · intro f hf
    simp only [List.mem_cons, List.not_mem_nil, or_false, or_self] at hf
    rw [hf]; exact hbuilt
  · intro q hq hlt _ hstart _
    exact (hno q hlt hq).resolve_left (hstart 0)

/-- A RAWDATA frame that reports a humidity of 33: its bytes 22 and 23 read as the length of a
    frame of the same size. -/
def humidFrame : Bytes :=
  [0xAA, 0xBB, 0xCC, 0xDD, 0xEE, 0xFF, 0x52, 0x41, 0x57, 0x44, 0x41, 0x54, 0x41, 0, 33, 0,
    1, 1, 1, 0, 0x2E, 0x09, 33, 0, 100, 0, 0xC2, 1, 7, 0, 3, 0, 0,
    0, 0, 0, 0, 0, 0, 0, 0, 0, 0, 0, 0, 0, 0, 0, 0, 0x0d, 0x0a]

/-- The same frames read eight bytes late. -/
theorem rotate_replicate (h t : Bytes) : ∀ n,
    t ++ (List.replicate n (h ++ t)).flatten = (List.replicate n (t ++ h)).flatten ++ t
  | 0 => by simp
  | n + 1 => by
    rw [List.replicate_succ, List.flatten_cons, List.replicate_succ, List.flatten_cons]
    simp only [List.append_assoc]
    rw [rotate_replicate h t n]

theorem humidFrame_built : Built 4096 humidFrame :=
  ⟨⟨str "AA:BB:CC:DD:EE:FF", str "RAWDATA", (humidFrame.drop 16).take 33, by decide⟩, by decide⟩

/-- With the first eight bytes of a stream of such frames lost, the assembler stays out of step. -/
theorem push_humid_tail (n : ℕ) :
    ((FrameAssembler.new 4096).push
      (humidFrame.drop 8 ++ (List.replicate n humidFrame).flatten)).2 =
      List.replicate n (humidFrame.drop 8 ++ humidFrame.take 8) := by
  have hblock : (assembler 4096).IsBlock (humidFrame.drop 8 ++ humidFrame.take 8) := by
    refine IsBlock.cut ⟨?_, ?_, ?_⟩ <;> decide
  have hwait : (assembler 4096).cut (humidFrame.drop 8) = none := by decide
  have hrot := rotate_replicate (humidFrame.take 8) (humidFrame.drop 8) n
  rw [List.take_append_drop] at hrot
  have hpieces := (assembler 4096).pieces_blocks
    (List.replicate n (humidFrame.drop 8 ++ humidFrame.take 8)) (humidFrame.drop 8)
    (fun x hx => by rw [List.eq_of_mem_replicate hx]; exact hblock)
  rw [(assembler 4096).pieces_of_none hwait, List.append_nil] at hpieces
  rw [FrameAssembler.push_eq, FrameAssembler.cuts]
  simp only [FrameAssembler.new, List.nil_append, hrot, hpieces, Cutter.kept_map_true]

/-- A hundred frames after a lost head, none of them is emitted, although all but the first eighty
    start more than 4096 bytes after the disturbance. -/
theorem humid_frames_never_resync :
    ¬∀ (g : Bytes) (frames : List Bytes), (∀ f ∈ frames, Built 4096 f) →
      ∀ (i : ℕ) (hi : i < frames.length), (g.length : ℤ) + 4096 ≤ offset g frames i →
        frames[i] ∈ ((FrameAssembler.new 4096).push (g ++ frames.flatten)).2 := by
  intro h
  have hmem := h (humidFrame.drop 8) (List.replicate 100 humidFrame)
    (fun f hf => by rw [List.eq_of_mem_replicate hf]; exact humidFrame_built) 90 (by simp)
    (by rw [offset_replicate (by decide)]; decide)
  rw [push_humid_tail, List.getElem_replicate] at hmem
  exact absurd (List.eq_of_mem_replicate hmem) (by decide)

end SlimHub.Nus
