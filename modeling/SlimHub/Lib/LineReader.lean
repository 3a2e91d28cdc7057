import SlimHub.Lib.Text

/-! Reading a line from a stream with a limit, as `asyncio.StreamReader.readline` does.

        chunk, chunk, … (end) ──readline──▶ line │ what came before the end │ overrun

    The chunks are the network's. A line is returned iff no more than the limit stands before its
    line feed, whatever the chunks are (`readline_line`, `readline_overrun`). -/

namespace LineReader
open Text

/-- `LimitOverrunError`: the line feed comes too late, or has not come yet. -/
inductive Overrun where
  | found
  | notFound
  deriving DecidableEq

def lineFeed : UInt8 := 0x0A

/-- The default limit of a stream, 64 KiB. -/
def defaultLimit : ℕ := 2 ^ 16

/-- One look at the buffer: a line, an overrun, or nothing yet. -/
def look (limit : ℕ) (buffer : Bytes) : Option (Except Overrun Bytes) :=
  if lineFeed ∈ buffer then
    let isep := (buffer.takeWhile (· ≠ lineFeed)).length
    some (if isep > limit then .error .found else .ok (buffer.take (isep + 1)))
  else if buffer.length > limit then some (.error .notFound)
  else none

/-- `readline` with what is in the buffer, what arrives while it waits, and whether the stream ends
    after that; none if it goes on waiting. -/
def readline (limit : ℕ) (eof : Bool) : Bytes → List Bytes → Option (Except Overrun Bytes)
  | buffer, [] => (look limit buffer).or (if eof then some (.ok buffer) else none)
  | buffer, chunk :: arriving => (look limit buffer).or (readline limit eof (buffer ++ chunk) arriving)

variable {limit : ℕ} {eof : Bool} {line rest : Bytes}

/-- Where the first line feed of a stream is. -/
theorem takeWhile_line (hline : lineFeed ∉ line) (more : Bytes) :
    (line ++ lineFeed :: more).takeWhile (· ≠ lineFeed) = line := by
  have hall : ∀ b ∈ line, decide (b ≠ lineFeed) = true := by
    intro b hb
    exact decide_eq_true fun heq => hline (heq ▸ hb)
  rw [List.takeWhile_append_of_pos hall, List.takeWhile_cons_of_neg (by simp), List.append_nil]

/-- What is buffered of a stream is a part of its first line, or all of it and more. -/
theorem buffered {buffer later : Bytes} (h : buffer ++ later = line ++ lineFeed :: rest)
    (hline : lineFeed ∉ line) :
    (lineFeed ∉ buffer ∧ buffer.length ≤ line.length) ∨
      ∃ more, buffer = line ++ lineFeed :: more := by
  rcases List.append_eq_append_iff.mp h with ⟨t, hline', hlater⟩ | ⟨t, hbuffer, hrest⟩
  · left
    rw [hline', List.length_append]
    exact ⟨fun hmem => hline (hline' ▸ List.mem_append_left t hmem), Nat.le_add_right _ _⟩
  · cases t with
    | nil =>
      rw [List.append_nil] at hbuffer
      exact .inl ⟨hbuffer ▸ hline, hbuffer ▸ le_rfl⟩
    | cons b t =>
      obtain ⟨rfl, _⟩ := List.cons.inj hrest
      exact .inr ⟨t, hbuffer⟩

theorem look_line (hline : lineFeed ∉ line) (more : Bytes) :
    look limit (line ++ lineFeed :: more) =
      some (if line.length > limit then .error .found else .ok (line ++ [lineFeed])) := by
  have hmem : lineFeed ∈ line ++ lineFeed :: more :=
    List.mem_append_right line List.mem_cons_self
  have htake : (line ++ lineFeed :: more).take (line.length + 1) = line ++ [lineFeed] := by
    rw [List.take_length_add_append]
    rfl
  simp only [look, if_pos hmem, takeWhile_line hline, htake]

theorem look_part {buffer : Bytes} (hnone : lineFeed ∉ buffer) (hlimit : buffer.length ≤ limit) :
    look limit buffer = none := by
  rw [look, if_neg hnone, if_neg (Nat.not_lt.mpr hlimit)]

/-- The first line of a stream, with its line feed, if it is within the limit; however the stream
    arrives. -/
theorem readline_line {buffer : Bytes} {arriving : List Bytes}
    (h : buffer ++ arriving.flatten = line ++ lineFeed :: rest) (hline : lineFeed ∉ line)
    (hlimit : line.length ≤ limit) :
    readline limit eof buffer arriving = some (.ok (line ++ [lineFeed])) := by
  have hwhole : ∀ more, look limit (line ++ lineFeed :: more) =
      some (.ok (line ++ [lineFeed])) := by
    intro more
    rw [look_line hline, if_neg (Nat.not_lt.mpr hlimit)]
  induction arriving generalizing buffer with
  | nil =>
    rcases buffered h hline with ⟨hnone, _⟩ | ⟨more, rfl⟩
    · rw [List.flatten_nil, List.append_nil] at h
      exact absurd (h ▸ List.mem_append_right line List.mem_cons_self) hnone
    · rw [readline, hwhole, Option.some_or]
  | cons chunk arriving ih =>
    rcases buffered h hline with ⟨hnone, hle⟩ | ⟨more, rfl⟩
    · rw [readline, look_part hnone (hle.trans hlimit), Option.none_or]
      exact ih (by rw [List.append_assoc]; exact h)
    · rw [readline, hwhole, Option.some_or]

/-- A line that is longer is not returned. -/
theorem readline_overrun {buffer : Bytes} {arriving : List Bytes}
    (h : buffer ++ arriving.flatten = line ++ lineFeed :: rest) (hline : lineFeed ∉ line)
    (hlimit : limit < line.length) :
    ∃ overrun, readline limit eof buffer arriving = some (.error overrun) := by
  have hwhole : ∀ more, look limit (line ++ lineFeed :: more) = some (.error .found) := by
    intro more
    rw [look_line hline, if_pos hlimit]
  induction arriving generalizing buffer with
  | nil =>
    rcases buffered h hline with ⟨hnone, _⟩ | ⟨more, rfl⟩
    · rw [List.flatten_nil, List.append_nil] at h
      exact absurd (h ▸ List.mem_append_right line List.mem_cons_self) hnone
    · exact ⟨.found, by rw [readline, hwhole, Option.some_or]⟩
  | cons chunk arriving ih =>
    rcases buffered h hline with ⟨hnone, hle⟩ | ⟨more, rfl⟩
    · by_cases hlong : buffer.length ≤ limit
      · rw [readline, look_part hnone hlong, Option.none_or]
        exact ih (by rw [List.append_assoc]; exact h)
      · refine ⟨.notFound, ?_⟩
        rw [readline, look, if_neg hnone, if_pos (Nat.not_le.mp hlong), Option.some_or]
    · exact ⟨.found, by rw [readline, hwhole, Option.some_or]⟩

end LineReader
