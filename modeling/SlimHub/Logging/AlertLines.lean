import SlimHub.Lib.Compact
import SlimHub.Logging.Rawdata

/-! The lines of alert files.

        {"door": 1}        ──▶ {"door": 1, "timestamp": "2024-05-01 12:00:00"}
        door open\n        ──▶ 2024-05-01 12:00:00,door open
        door\nwindow       ──▶ 2024-05-01 12:00:00,door        two lines, and the second one
                               window                          is the device's alone

    Writing an object escapes its line feeds, and stripping takes those at the end of a text; the
    ones inside a text that is no object get into the file. -/

namespace SlimHub.Logging
open Text Nus Json Files

variable (host : Host) (paths : AppPaths)

/-- A line of an alert: a JSON object with the hub's time, or text below that time. -/
def Stamped (event : AlertEvent) (line : Str) : Prop :=
  ∃ now, host.fromtimestamp event.timestamp = .ok now ∧
    ((∃ members, Dict.find (str "timestamp") members = some (.str now.timeText) ∧
        line = text host.floatRepr (.obj members)) ∨
      now.timeText ++ str "," <+: line)

/-- The part of a message that gets into the file as it is, by the branch that it takes. -/
def plainPart (event : AlertEvent) : Str :=
  match loads host.loadsDepth event.packet.message with
  | .ok (.obj _) => []
  | .ok _ => event.packet.message.rdropWhile isSpace
  | .error .notJson => event.packet.message.rdropWhile (· = 0x0A)
  | .error _ => []

/-- That part has no line feed. -/
def OneLine (event : AlertEvent) : Prop := (0x0A : CodePoint) ∉ plainPart host event

instance (event : AlertEvent) : Decidable (OneLine host event) :=
  inferInstanceAs (Decidable (_ ∉ _))

/-- The alerts of a file. -/
def alertsAt (file : Files.Path) (events : List AlertEvent) : List AlertEvent :=
  events.filter fun event => alertFileOf host paths event = some file

/-- Each alert file gained one line for each of its alerts, in order, and nothing else. -/
def LineEach (events : List AlertEvent) (fs fs' : FS) : Prop :=
  ∀ file, ∃ lines bytes,
    List.Forall₂ (fun event line => Stamped host event line ∧ (0x0A : CodePoint) ∉ line)
      (alertsAt host paths file events) lines ∧
    utf8Encode (lines.flatMap (· ++ [0x0A])) = some bytes ∧
    fs'.content file = fs.content file ++ bytes

/-! ### One line -/

variable {host paths} {event : AlertEvent} {line : Str}

theorem feed_not_mem_timeText (now : DateTime) : (0x0A : CodePoint) ∉ now.timeText := by
  intro hmem
  exact absurd (isValueChar_timeText hmem) (by decide)

theorem feed_not_mem_below (now : DateTime) (s : Str) :
    (0x0A : CodePoint) ∉ now.timeText ++ str "," ++ s ↔ (0x0A : CodePoint) ∉ s := by
  have hcomma : (0x0A : CodePoint) ∉ str "," := by decide
  rw [List.mem_append, List.mem_append, not_or, not_or]
  exact and_iff_right ⟨feed_not_mem_timeText now, hcomma⟩

/-- Every line is stamped at its front; it is one line just when the message allows it. -/
theorem line_of_alert (hfloat : ∀ s, noNewline (host.floatRepr s) = true)
    (h : alertLineFor host event = .ok line) :
    Stamped host event line ∧ ((0x0A : CodePoint) ∉ line ↔ OneLine host event) := by
  rw [alertLineFor] at h
  cases hnow : host.fromtimestamp event.timestamp with
  | error exc => rw [hnow] at h; cases h
  | ok now =>
    rw [hnow] at h
    simp only [bind, Except.bind, pure, Except.pure] at h
    cases hloads : loads host.loadsDepth event.packet.message with
    | error fault =>
      rw [hloads] at h
      cases fault with
      | notJson =>
        obtain rfl := Except.ok.inj h
        refine ⟨⟨now, hnow, .inr (List.prefix_append _ _)⟩, ?_⟩
        rw [feed_not_mem_below, OneLine, plainPart, hloads]
      | depth => cases h
      | digits => cases h
      | fuel => cases h
    | ok value =>
      rw [hloads] at h
      have hplain : Except.ok (now.timeText ++ str "," ++ event.packet.message.rdropWhile isSpace) =
          (.ok line : Except PyError Str) → (∀ members, value ≠ .obj members) →
          Stamped host event line ∧ ((0x0A : CodePoint) ∉ line ↔ OneLine host event) := by
        intro hline hvalue
        obtain rfl := Except.ok.inj hline
        refine ⟨⟨now, hnow, .inr (List.prefix_append _ _)⟩, ?_⟩
        rw [feed_not_mem_below, OneLine, plainPart, hloads]
        cases value with
        | obj members => exact absurd rfl (hvalue members)
        | _ => rfl
      cases value with
      | obj members =>
        simp only [dumps] at h
        split_ifs at h with hdeep
        · cases h
        · obtain rfl := Except.ok.inj h
          refine ⟨⟨now, hnow, .inl ⟨_, ?_, rfl⟩⟩, ?_⟩
          · rw [Dict.find_put, if_pos rfl]
          · rw [OneLine, plainPart, hloads]
            refine iff_of_true (fun hmem => ?_) (List.not_mem_nil)
            have hnone := List.all_eq_true.mp (noNewline_text hfloat _) _ hmem
            exact absurd hnone (by decide)
      | _ => exact hplain h (by simp)

/-! ### Many lines -/

/-- A text of lines has one line feed for each just when none has one inside. -/
theorem count_lines_eq_iff (lines : List Str) :
    (lines.flatMap (· ++ [0x0A])).count (0x0A : CodePoint) = lines.length ↔
      ∀ line ∈ lines, (0x0A : CodePoint) ∉ line := by
  have hcount : (lines.flatMap (· ++ [0x0A])).count (0x0A : CodePoint) =
      lines.length + (lines.map (List.count 0x0A)).sum := by
    induction lines with
    | nil => rfl
    | cons line lines ih =>
      rw [List.flatMap_cons, List.count_append, ih, List.count_append, List.map_cons,
        List.sum_cons, List.length_cons]
      simp
      omega
  rw [hcount, Nat.add_eq_left, List.sum_eq_zero_iff, List.forall_mem_map]
  simp only [List.count_eq_zero]

/-- Every left member of a relation between lists has its right one. -/
theorem exists_of_forall₂ {α β : Type} {R : α → β → Prop} {as : List α} {bs : List β}
    (h : List.Forall₂ R as bs) : ∀ a ∈ as, ∃ b ∈ bs, R a b := by
  induction h with
  | nil => simp
  | cons hab _ ih =>
    rw [List.forall_mem_cons]
    refine ⟨⟨_, List.mem_cons_self .., hab⟩, fun a ha => ?_⟩
    obtain ⟨b, hb, hab⟩ := ih a ha
    exact ⟨b, List.mem_cons_of_mem _ hb, hab⟩

theorem feed_not_mem_of_stamped {events : List AlertEvent} {lines : List Str}
    (h : List.Forall₂ (fun event line => Stamped host event line ∧ (0x0A : CodePoint) ∉ line)
      events lines) : ∀ line ∈ lines, (0x0A : CodePoint) ∉ line := by
  intro line hline
  obtain ⟨_, _, _, hnone⟩ := exists_of_forall₂ h.flip line hline
  exact hnone

/-! ### Calls -/

/-- A write that returned has put its line at the end of the alert's file. -/
theorem content_write_alert {fs : FS} (file : Files.Path)
    (hok : ((diskWriter host paths).write (.alert event) fs).1 = none) :
    ∃ lines bytes, List.Forall₂ (fun event line => alertLineFor host event = .ok line)
        (alertsAt host paths file [event]) lines ∧
      utf8Encode (lines.flatMap (· ++ [0x0A])) = some bytes ∧
      ((diskWriter host paths).write (.alert event) fs).2.content file =
        fs.content file ++ bytes := by
  have hwrite := write_alert host paths event fs
  rw [hok] at hwrite
  by_cases hfile : alertFileOf host paths event = some file
  · rw [hfile] at hwrite
    obtain ⟨bytes, ⟨line, hline, hbytes⟩, hthere⟩ := Appends.gained hwrite () rfl
    refine ⟨[line], bytes, ?_, ?_, ?_⟩
    · rw [alertsAt, List.filter_cons_of_pos (by simpa using hfile)]
      exact .cons hline .nil
    · rw [List.flatMap_singleton, hbytes]
    · rw [FS.content, hthere]
      rfl
  · refine ⟨[], [], ?_, rfl, ?_⟩
    · rw [alertsAt, List.filter_cons_of_neg (by simpa using hfile)]
      exact .nil
    · rw [List.append_nil, FS.content, hwrite.elsewhere hfile, FS.content]

theorem alertsAt_cons (file : Files.Path) (events : List AlertEvent) :
    alertsAt host paths file (event :: events) =
      alertsAt host paths file [event] ++ alertsAt host paths file events :=
  List.filter_append [event] events

/-- What a run adds to a file: the lines of its alerts. -/
theorem content_perform {events : List AlertEvent} {fs : FS} (file : Files.Path)
    (hok : ∀ call ∈ (perform (diskWriter host paths) (events.map .alert) fs).1, call.2 = none) :
    ∃ lines bytes, List.Forall₂ (fun event line => alertLineFor host event = .ok line)
        (alertsAt host paths file events) lines ∧
      utf8Encode (lines.flatMap (· ++ [0x0A])) = some bytes ∧
      (perform (diskWriter host paths) (events.map .alert) fs).2.content file =
        fs.content file ++ bytes := by
  induction events generalizing fs with
  | nil => exact ⟨[], [], .nil, rfl, (List.append_nil _).symm⟩
  | cons event events ih =>
    simp only [List.map_cons, perform, List.forall_mem_cons] at hok ⊢
    obtain ⟨first, bytes, hfirst, hbytes, hcontent⟩ := content_write_alert file hok.1
    obtain ⟨more, bytes', hmore, hbytes', hcontent'⟩ := ih hok.2
    refine ⟨first ++ more, bytes ++ bytes', ?_, ?_, ?_⟩
    · rw [alertsAt_cons]
      exact List.rel_append hfirst hmore
    · rw [List.flatMap_append, utf8Encode_append, hbytes, hbytes']
      rfl
    · rw [hcontent', hcontent, List.append_assoc]

/-- A write that returned had a file and a line. -/
theorem exists_file_of_perform {events : List AlertEvent} {fs : FS}
    (hok : ∀ call ∈ (perform (diskWriter host paths) (events.map .alert) fs).1, call.2 = none) :
    ∀ event ∈ events, ∃ file, alertFileOf host paths event = some file := by
  induction events generalizing fs with
  | nil => simp
  | cons event events ih =>
    simp only [List.map_cons, perform, List.forall_mem_cons] at hok ⊢
    refine ⟨?_, ih hok.2⟩
    have hwrite := write_alert host paths event fs
    rw [hok.1] at hwrite
    cases hfile : alertFileOf host paths event with
    | none => exact absurd rfl (hfile ▸ hwrite).1
    | some file => exact ⟨file, rfl⟩

/-- CORRECT: along alerts that are all written, each alert file gains one line for each of its
    alerts, below the hub's time or as an object that holds it, exactly when no message has a line
    feed inside that its branch leaves as it is. Lines end at U+000A and are those of what the file
    gains: where it ended in the middle of a line, the first of them completes that one. -/
theorem one_line_each_iff (host : Host) (paths : AppPaths) (events : List AlertEvent) (fs : FS)
    (hfloat : ∀ s, noNewline (host.floatRepr s) = true)
    (hok : ∀ call ∈ (perform (diskWriter host paths) (events.map .alert) fs).1, call.2 = none) :
    LineEach host paths events fs
        (perform (diskWriter host paths) (events.map .alert) fs).2 ↔
      ∀ event ∈ events, OneLine host event := by
  constructor
  · intro heach event hevent
    obtain ⟨file, hfile⟩ := exists_file_of_perform hok event hevent
    obtain ⟨lines, bytes, hlines, hbytes, hcontent⟩ := heach file
    obtain ⟨actual, bytes', hactual, hbytes', hcontent'⟩ := content_perform file hok
    obtain rfl := List.append_cancel_left (hcontent.symm.trans hcontent')
    have htext := Option.some.inj ((utf8Decode_utf8Encode hbytes).symm.trans
      (utf8Decode_utf8Encode hbytes'))
    have hcount := (count_lines_eq_iff lines).mpr (feed_not_mem_of_stamped hlines)
    rw [htext, ← hlines.length_eq, hactual.length_eq] at hcount
    have hnone := (count_lines_eq_iff actual).mp hcount
    have hat : event ∈ alertsAt host paths file events :=
      List.mem_filter.mpr ⟨hevent, decide_eq_true hfile⟩
    obtain ⟨line, hline, hmade⟩ := exists_of_forall₂ hactual event hat
    exact (line_of_alert hfloat hmade).2.mp (hnone line hline)
  · intro hone file
    obtain ⟨lines, bytes, hlines, hbytes, hcontent⟩ := content_perform file hok
    refine ⟨lines, bytes, ?_, hbytes, hcontent⟩
    have hmem : ∀ event ∈ alertsAt host paths file events, OneLine host event :=
      fun event hevent => hone event (List.mem_filter.mp hevent).1
    refine ((List.forall₂_and_left _ _).mpr ⟨hmem, hlines⟩).imp fun event line h => ?_
    obtain ⟨hstamped, hline⟩ := line_of_alert hfloat h.2
    exact ⟨hstamped, hline.mpr h.1⟩

/-- A machine whose floats are all zero. -/
def zeroHost : Host := { someHost with floatRepr := fun _ => str "0.0" }

/-- Alerts of one device, in one second. -/
def alerts (messages : List String) : List AlertEvent :=
  messages.map fun message =>
    { timestamp := 0, mac := str "AA:BB:CC:DD:EE:FF", location := [], payload := [],
      packet := ⟨str message⟩ }

theorem floatRepr_zeroHost (s : Str) : noNewline (zeroHost.floatRepr s) = true :=
  show noNewline (str "0.0") = true by decide

/-- An object with a line feed in a text, and plain text with line feeds at its end. -/
theorem one_line_each_escaped :
    let events := alerts ["\x7b\"door\": \"a\\nb\"\x7d", "door\n\n"]
    LineEach zeroHost somePaths events FS.empty
      (perform (diskWriter zeroHost somePaths) (events.map .alert) FS.empty).2 := by
  intro events
  have hok : (perform (diskWriter zeroHost somePaths) (events.map .alert) FS.empty).1.all
      (·.2 = none) = true := by
    decide +kernel
  exact (one_line_each_iff zeroHost somePaths events FS.empty floatRepr_zeroHost fun call hcall =>
    of_decide_eq_true (List.all_eq_true.mp hok call hcall)).mpr (by decide +kernel)

/-- A device sends two lines in one alert. The write succeeds, and the second line has no time. -/
theorem inner_feed_makes_a_line :
    let events := alerts ["door\nwindow"]
    let ran := perform (diskWriter zeroHost somePaths) (events.map .alert) FS.empty
    (∀ call ∈ ran.1, call.2 = none) ∧ ¬LineEach zeroHost somePaths events FS.empty ran.2 := by
  intro events ran
  have hok : ran.1.all (·.2 = none) = true := by decide +kernel
  refine ⟨fun call hcall => of_decide_eq_true (List.all_eq_true.mp hok call hcall),
    fun heach => ?_⟩
  obtain ⟨lines, bytes, hlines, hbytes, hcontent⟩ := heach
    ((events.head?.bind (alertFileOf zeroHost somePaths)).getD [])
  have hcount := (count_lines_eq_iff lines).mpr (feed_not_mem_of_stamped hlines)
  have hone : (alertsAt zeroHost somePaths
      ((events.head?.bind (alertFileOf zeroHost somePaths)).getD []) events).length = 1 := by
    decide +kernel
  have hold : FS.empty.content ((events.head?.bind (alertFileOf zeroHost somePaths)).getD []) =
      [] := by
    decide +kernel
  have htwo : (utf8Decode (ran.2.content ((events.head?.bind
      (alertFileOf zeroHost somePaths)).getD []))).map (List.count (0x0A : CodePoint)) =
      some 2 := by
    decide +kernel
  rw [hcontent, hold, List.nil_append, utf8Decode_utf8Encode hbytes, Option.map_some, hcount,
    ← hlines.length_eq, hone] at htwo
  cases htwo

end SlimHub.Logging
