import SlimHub.OneReply

/-! `raw.tail` and the last lines of the newest file.

        sorted by mtime ──▶ the last file ──▶ its lines ──▶ lines[-n:]

    A slice from `-n` on is the last `n` lines as long as `n` is positive; `-0` is the front. -/

namespace SlimHub
open Text Nus Json Files Asyncio Logging

/-- The lines of a text, without the line feeds that end them. -/
def textLines (text : Str) : List Str :=
  let parts := text.splitOn 0x0A
  if parts.getLast? = some [] then parts.dropLast else parts

/-- The lines of the matched file that was modified last. -/
def Newest (mtime : Files.Path → ℚ) (fs : FS) (files : List Files.Path) (lines : List Str) : Prop :=
  ∃ file ∈ files, (∀ other ∈ files, mtime other ≤ mtime file) ∧
    ∃ content text, fs.file? file = some content ∧ utf8Decode content = some text ∧
      lines = textLines (universalNewlines text)

/-- The request for `n` lines, of one device or of any. -/
def tailRequest (address : Option Str) (n : ℕ) : Value := .obj [
  (str "command", .str (str "raw.tail")),
  (str "args", .obj [(str "address", optional address), (str "lines", .int n)])]

/-- What the daemon answers to a request. -/
def answerTo (rt : Runtime) (paths : AppPaths) (mtime : Files.Path → ℚ) (self : Station)
    (request : Value) : Except PyError Reply := do
  let request ← readRequest rt (tailRaw paths mtime self.logger.disk) request
  ((Daemon.dispatch rt.toInterpreter request).exec self).result

/-- The last `n` lines of the newest file, or none where there is no file. -/
def TrueTail (mtime : Files.Path → ℚ) (fs : FS) (files : List Files.Path) (n : ℕ)
    (answer : Except PyError Reply) : Prop :=
  (files = [] → answer = .ok (.lines [])) ∧
    ∀ lines, Newest mtime fs files lines → answer = .ok (.lines (lines.rtake n))

/-! ### Lines -/

/-- The parts between line feeds, of which there is at least one. -/
theorem splitOn_feed (s : Str) : ∃ part parts, s.splitOn (0x0A : CodePoint) = part :: parts :=
  List.exists_cons_of_ne_nil (List.splitOnP_ne_nil (· == (0x0A : CodePoint)) s)

theorem textLines_cons_feed (s : Str) : textLines (0x0A :: s) = [] :: textLines s := by
  have hsplit : (0x0A :: s).splitOn (0x0A : CodePoint) = [] :: s.splitOn 0x0A := by
    simp [List.splitOn, List.splitOnP_cons_eq_if_modifyHead]
  obtain ⟨part, parts, hparts⟩ := splitOn_feed s
  simp only [textLines, hsplit, hparts, List.getLast?_cons_cons, List.dropLast_cons_cons]
  split_ifs <;> rfl

/-- A character goes to the front of the first line. -/
theorem textLines_cons {c : CodePoint} (hc : c ≠ 0x0A) (s : Str) : textLines (c :: s) =
    match textLines s with
    | [] => [[c]]
    | line :: lines => (c :: line) :: lines := by
  have hsplit : (c :: s).splitOn (0x0A : CodePoint) =
      (s.splitOn 0x0A).modifyHead (c :: ·) := by
    simp [List.splitOn, List.splitOnP_cons_eq_if_modifyHead, hc]
  obtain ⟨part, parts, hparts⟩ := splitOn_feed s
  rw [hparts, List.modifyHead_cons] at hsplit
  simp only [textLines, hsplit, hparts]
  cases parts with
  | nil => by_cases hpart : part = [] <;> simp [hpart]
  | cons next parts =>
    simp only [List.getLast?_cons_cons, List.dropLast_cons_cons]
    split_ifs <;> rfl

theorem rdropWhile_cons_of_neg {α : Type} {p : α → Bool} {a : α} (ha : ¬p a) (as : List α) :
    (a :: as).rdropWhile p = a :: as.rdropWhile p := by
  induction as using List.reverseRecOn with
  | nil => simp [List.rdropWhile_singleton, ha]
  | append_singleton as b ih =>
    rw [← List.cons_append, List.rdropWhile_concat, List.rdropWhile_concat, ih]
    split_ifs <;> rfl

/-- Reading lines and stripping their line feeds. -/
theorem map_strip_readlines (s : Str) :
    (readlines s).map (List.rdropWhile (·.val = 0x0A)) = textLines s := by
  fun_induction readlines s with
  | case1 => rfl
  | case2 c s hc ih =>
    obtain rfl : c = 0x0A := Fin.ext hc
    rw [List.map_cons, ih, textLines_cons_feed]
    rfl
  | case3 c s hc hnil ih =>
    have hc' : c ≠ 0x0A := fun h => hc (congrArg Fin.val h)
    rw [textLines_cons hc', ← ih, hnil]
    simp [hc]
  | case4 c s hc line lines hcons ih =>
    have hc' : c ≠ 0x0A := fun h => hc (congrArg Fin.val h)
    rw [textLines_cons hc', ← ih, hcons, List.map_cons, rdropWhile_cons_of_neg (by simpa using hc)]
    rfl

theorem textLines_append {row : Str} (h : ∀ c ∈ row, c ≠ 0x0A) (rest : Str) :
    textLines (row ++ 0x0A :: rest) = row :: textLines rest := by
  induction row with
  | nil => exact textLines_cons_feed rest
  | cons c row ih =>
    rw [List.forall_mem_cons] at h
    rw [List.cons_append, textLines_cons h.1, ih h.2]

theorem universalNewlines_append {row : Str} (h : ∀ c ∈ row, c ≠ 0x0D) (rest : Str) :
    universalNewlines (row ++ str "\r\n" ++ rest) = row ++ 0x0A :: universalNewlines rest := by
  induction row with
  | nil =>
    have hend : str "\r\n" = [0x0D, 0x0A] := by decide
    rw [hend]
    rfl
  | cons c row ih =>
    rw [List.forall_mem_cons] at h
    have hc : c.val ≠ 0x0D := fun hval => h.1 (Fin.ext hval)
    rw [List.cons_append, List.cons_append, universalNewlines.eq_def]
    simp only [if_neg hc, ih h.2, List.cons_append]

/-- Rows that were written with their line ends are the lines that are read. -/
theorem textLines_rows {rows : List Str} (h : ∀ row ∈ rows, ∀ c ∈ row, c ≠ 0x0A ∧ c ≠ 0x0D) :
    textLines (universalNewlines (rows.flatMap (· ++ str "\r\n"))) = rows := by
  induction rows with
  | nil => rfl
  | cons row rows ih =>
    rw [List.forall_mem_cons] at h
    rw [List.flatMap_cons, universalNewlines_append fun c hc => (h.1 c hc).2,
      textLines_append fun c hc => (h.1 c hc).1, ih h.2]

theorem sliceFrom_neg {α : Type} {n : ℕ} (hn : n ≠ 0) (xs : List α) :
    sliceFrom (-(n : ℤ)) xs = xs.rtake n := by
  rw [sliceFrom, List.rtake, if_pos (by omega)]
  congr 1
  omega

theorem sliceFrom_zero {α : Type} (xs : List α) : sliceFrom (-((0 : ℕ) : ℤ)) xs = xs := by
  simp [sliceFrom]

/-! ### The newest file -/

variable {mtime : Files.Path → ℚ} {files : List Files.Path}

theorem mergeSort_getLast?_eq_none :
    (files.mergeSort fun a b => mtime a ≤ mtime b).getLast? = none ↔ files = [] := by
  rw [List.getLast?_eq_none_iff, ← List.length_eq_zero_iff, List.length_mergeSort,
    List.length_eq_zero_iff]

/-- What the sort puts last was modified last. -/
theorem le_of_mergeSort_getLast? {file : Files.Path}
    (h : (files.mergeSort fun a b => mtime a ≤ mtime b).getLast? = some file) :
    file ∈ files ∧ ∀ other ∈ files, mtime other ≤ mtime file := by
  have hsorted : (files.mergeSort fun a b => mtime a ≤ mtime b).Pairwise
      fun a b => decide (mtime a ≤ mtime b) = true := by
    refine List.pairwise_mergeSort ?_ ?_ files
    · intro a b c hab hbc
      simp only [decide_eq_true_eq] at hab hbc ⊢
      exact hab.trans hbc
    · intro a b
      simpa using le_total (mtime a) (mtime b)
  refine ⟨List.mem_mergeSort.mp (List.mem_of_getLast? h), fun other hother => ?_⟩
  obtain ⟨before, hbefore⟩ := List.getLast?_eq_some_iff.mp h
  have hmem : other ∈ before ++ [file] := hbefore ▸ List.mem_mergeSort.mpr hother
  rw [hbefore] at hsorted
  rcases List.mem_append.mp hmem with hmem | hmem
  · exact of_decide_eq_true ((List.pairwise_append.mp hsorted).2.2 other hmem file (by simp))
  · rw [List.mem_singleton.mp hmem]

theorem Newest.unique {fs : FS} {lines lines' : List Str}
    (hdistinct : ∀ a ∈ files, ∀ b ∈ files, mtime a = mtime b → a = b)
    (h : Newest mtime fs files lines) (h' : Newest mtime fs files lines') : lines = lines' := by
  obtain ⟨file, hfile, hmax, content, text, hcontent, htext, rfl⟩ := h
  obtain ⟨file', hfile', hmax', content', text', hcontent', htext', rfl⟩ := h'
  obtain rfl := hdistinct file hfile file' hfile'
    (le_antisymm (hmax' file hfile) (hmax file' hfile'))
  obtain rfl := Option.some.inj (hcontent.symm.trans hcontent')
  obtain rfl := Option.some.inj (htext.symm.trans htext')
  rfl

/-- `_tail_raw` slices the lines of the newest file. -/
theorem tailRaw_of_newest {paths : AppPaths} {fs : FS} {address : Option Str} {lines : List Str}
    (n : ℤ) (hfiles : rawFiles paths fs address = .ok files)
    (hdistinct : ∀ a ∈ files, ∀ b ∈ files, mtime a = mtime b → a = b)
    (h : Newest mtime fs files lines) :
    tailRaw paths mtime fs address n = .ok (sliceFrom (-n) lines) := by
  obtain ⟨file, hfile, hmax, content, text, hcontent, htext, rfl⟩ := h
  have hselected : (files.mergeSort fun a b => mtime a ≤ mtime b).getLast? = some file := by
    cases hlast : (files.mergeSort fun a b => mtime a ≤ mtime b).getLast? with
    | none => rw [mergeSort_getLast?_eq_none.mp hlast] at hfile; cases hfile
    | some selected =>
      obtain ⟨hmem, hmax'⟩ := le_of_mergeSort_getLast? hlast
      rw [hdistinct selected hmem file hfile (le_antisymm (hmax selected hmem) (hmax' file hfile))]
  have hslice : ∀ xs : List Str, (sliceFrom (-n) xs).map (List.rdropWhile (·.val = 0x0A)) =
      sliceFrom (-n) (xs.map (List.rdropWhile (·.val = 0x0A))) := by
    intro xs
    rw [sliceFrom, sliceFrom, List.map_drop, List.length_map]
  simp only [tailRaw, hfiles, hselected, bind, Except.bind, hcontent, htext, pure, Except.pure,
    hslice, map_strip_readlines]

theorem tailRaw_of_nil {paths : AppPaths} {fs : FS} {address : Option Str} (n : ℤ)
    (hfiles : rawFiles paths fs address = .ok []) : tailRaw paths mtime fs address n = .ok [] := by
  simp [tailRaw, hfiles, bind, Except.bind, pure, Except.pure]

/-- The answer to a tail request is what `_tail_raw` makes of its arguments. -/
theorem answerTo_tailRequest {rt : Runtime} {paths : AppPaths} (self : Station)
    (address : Option Str) (n : ℕ) : answerTo rt paths mtime self (tailRequest address n) =
      (tailRaw paths mtime self.logger.disk (address.filter (· ≠ [])) n).map Reply.lines := by
  have haddress : (if truthy rt.toInterpreter (optional address) then
      some (textOf rt (optional address)) else none) = address.filter (· ≠ []) := by
    cases address with
    | none => rfl
    | some address =>
      rw [Option.filter_some]
      rfl
  have hread : ∀ tail, readRequest rt tail (tailRequest address n) =
      .ok (.other (tail (address.filter (· ≠ [])) n)) := by
    intro tail
    rw [← haddress]
    rfl
  rw [answerTo, hread]
  change ((Daemon.dispatch rt.toInterpreter (.other _)).exec self).result = _
  rw [Daemon.dispatch, Piece.exec_bind, Piece.exec_lift]
  cases tailRaw paths mtime self.logger.disk (address.filter (· ≠ [])) n <;> rfl

/-- CORRECT: `raw.tail` returns the last `n` lines of the newest matched file exactly when `n` is
    not zero or that file has no lines, and none where no file matches. -/
theorem raw_tail_true_iff (rt : Runtime) (paths : AppPaths) (mtime : Files.Path → ℚ)
    (self : Station) (address : Option Str) (n : ℕ) (files : List Files.Path)
    (hfiles : rawFiles paths self.logger.disk (address.filter (· ≠ [])) = .ok files)
    (hdistinct : ∀ a ∈ files, ∀ b ∈ files, mtime a = mtime b → a = b) :
    TrueTail mtime self.logger.disk files n (answerTo rt paths mtime self (tailRequest address n)) ↔
      n ≠ 0 ∨ ∀ lines, Newest mtime self.logger.disk files lines → lines = [] := by
  have hanswer : ∀ lines, Newest mtime self.logger.disk files lines →
      answerTo rt paths mtime self (tailRequest address n) =
        .ok (.lines (sliceFrom (-(n : ℤ)) lines)) := by
    intro lines hlines
    rw [answerTo_tailRequest, tailRaw_of_newest n hfiles hdistinct hlines]
    rfl
  have hnone : files = [] → answerTo rt paths mtime self (tailRequest address n) =
      .ok (.lines []) := by
    rintro rfl
    rw [answerTo_tailRequest, tailRaw_of_nil n hfiles]
    rfl
  constructor
  · rintro ⟨_, htail⟩
    by_cases hn : n = 0
    · subst hn
      refine .inr fun lines hlines => ?_
      have hall := (hanswer lines hlines).symm.trans (htail lines hlines)
      rw [sliceFrom_zero, List.rtake_zero] at hall
      exact Reply.lines.inj (Except.ok.inj hall)
    · exact .inl hn
  · intro hcond
    refine ⟨hnone, fun lines hlines => ?_⟩
    rw [hanswer lines hlines]
    rcases hcond with hn | hempty
    · rw [sliceFrom_neg hn]
    · obtain rfl := hempty lines hlines
      simp [sliceFrom]

/-- A fresh station, whose logger wrote one event. -/
def loggedStation : Station :=
  { freshStation with logger.disk := ((diskWriter someHost somePaths).write
      (.rawData (eventAt defaultLocation defaultDeviceType)) FS.empty).2 }

/-- The file of that event. -/
def loggedFile : Files.Path :=
  ((rawFiles somePaths loggedStation.logger.disk none).toOption.getD []).headD []

theorem rawFiles_loggedStation :
    rawFiles somePaths loggedStation.logger.disk none = .ok [loggedFile] := by
  decide +kernel

/-- The last line of the one file. -/
theorem raw_tail_true_last_line :
    TrueTail (fun _ => 0) loggedStation.logger.disk [loggedFile] 1
      (answerTo freshRuntime somePaths (fun _ => 0) loggedStation (tailRequest none 1)) :=
  (raw_tail_true_iff freshRuntime somePaths (fun _ => 0) loggedStation none 1 [loggedFile]
    rawFiles_loggedStation (by simp)).mpr (.inl (by simp))

/-- No lines are asked for, and header and row are returned. -/
theorem zero_lines_are_all :
    ¬TrueTail (fun _ => 0) loggedStation.logger.disk [loggedFile] 0
      (answerTo freshRuntime somePaths (fun _ => 0) loggedStation (tailRequest none 0)) := by
  rintro ⟨_, htail⟩
  rw [answerTo_tailRequest] at htail
  have hthere : ((loggedStation.logger.disk.file? loggedFile).bind utf8Decode).isSome = true := by
    decide +kernel
  have hlines : ((tailRaw somePaths (fun _ => 0) loggedStation.logger.disk none 0).toOption.getD
      []).length = 2 := by
    decide +kernel
  obtain ⟨text, htext⟩ := Option.isSome_iff_exists.mp hthere
  obtain ⟨content, hcontent, htext⟩ := Option.bind_eq_some_iff.mp htext
  have hanswer := htail _ ⟨loggedFile, by simp, by simp, content, text, hcontent, htext, rfl⟩
  rw [List.rtake_zero] at hanswer
  cases hraw : tailRaw somePaths (fun _ => 0) loggedStation.logger.disk none 0 with
  | error exc => rw [hraw] at hlines; cases hlines
  | ok lines =>
    change (tailRaw somePaths (fun _ => 0) loggedStation.logger.disk none 0).map Reply.lines =
      .ok (.lines []) at hanswer
    rw [hraw] at hlines hanswer
    obtain rfl := Reply.lines.inj (Except.ok.inj hanswer)
    cases hlines

end SlimHub
