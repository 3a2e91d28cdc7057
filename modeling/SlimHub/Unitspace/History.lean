import SlimHub.Unitspace.Estimator

/-! The estimator as a function of what happened.

    The estimator keeps a status and branches on it. What it says at an event depends on that event
    and the latest relevant event before it, whatever else happened, and on no time: both branches
    of the noise threshold do the same.

        … irrelevant … │ relevant │ … irrelevant … │ event
                             └─────── answer ────────┘ -/

namespace SlimHub.Unitspace
open Text Nus

/-- A presence event with an enter or exit signal. -/
def Relevant (event : RawDataEvent) : Prop :=
  event.packet.flagHumanPresence = 1 ∧ event.packet.detected ∈ [1, 10, 20]

instance (event : RawDataEvent) : Decidable (Relevant event) := inferInstanceAs (Decidable (_ ∧ _))

/-- A presence event without a valid MAC, which no parsed frame has. -/
def Raises (event : RawDataEvent) : Prop :=
  event.packet.flagHumanPresence = 1 ∧ (normalizeMac event.mac).toOption = none

instance (event : RawDataEvent) : Decidable (Raises event) := inferInstanceAs (Decidable (_ ∧ _))

/-- The latest relevant event that was handled. -/
def latestRelevant (events : List RawDataEvent) : Option RawDataEvent :=
  (events.filter fun event => Relevant event ∧ ¬ Raises event).getLast?

/-- What is to be said at an event, given the latest relevant event before it. -/
def answer (earlier : Option RawDataEvent) (event : RawDataEvent) : List CommandEvent :=
  if ¬ Relevant event then [] else
    match normalizeMac event.mac with
    | .error _ => []
    | .ok address =>
      let location := orDefault event.location defaultLocation
      if event.packet.detected = 20 then [⟨address, str "strong_exit", location⟩] else
        match earlier with
        | none => [⟨address, str "strong_enter", location⟩]
        | some previous =>
          match normalizeMac previous.mac with
          | .error _ => []
          | .ok previousAddress =>
            if address = previousAddress then [] else
              [⟨address, str "strong_enter", location⟩, ⟨previousAddress, str "strong_exit",
                orDefault previous.location defaultLocation⟩]

/-- What is to be remembered of the latest relevant event. -/
def remembered : Option RawDataEvent → UnitspaceStatus
  | none => {}
  | some event =>
    { lastAddress := (normalizeMac event.mac).toOption
      lastLocation := some (orDefault event.location defaultLocation)
      lastTimestamp := event.timestamp }

/-- The events with the commands emitted at each. -/
def answers (self : UnitspaceStatus) : List RawDataEvent → List (RawDataEvent × List CommandEvent)
  | [] => []
  | event :: events => (event, (self.next event).2) :: answers (self.next event).1 events

/-- An event without its time. -/
def untimed (event : RawDataEvent) : RawDataEvent := { event with timestamp := 0 }

/-! ### Signals and relevant events -/

variable {event : RawDataEvent}

theorem detected_of_irrelevant (h : ¬ Relevant event)
    (hflag : event.packet.flagHumanPresence = 1) :
    event.packet.detected ∉ enterSignals ∧ event.packet.detected ≠ exitSignal := by
  simpa [Relevant, hflag, enterSignals, exitSignal, and_assoc] using h

theorem signal?_of_irrelevant (h : ¬ Relevant event) : signal? event = none := by
  unfold signal?
  split
  · rename_i hflag
    obtain ⟨henter, hexit⟩ := detected_of_irrelevant h hflag
    cases normalizeMac event.mac with
    | error exc => rfl
    | ok address => simp only [if_neg henter, if_neg hexit]
  · rfl

theorem signal?_of_raises (h : Raises event) : signal? event = none := by
  obtain ⟨hflag, hmac⟩ := h
  unfold signal?
  rw [if_pos hflag]
  cases hnormal : normalizeMac event.mac with
  | error exc => rfl
  | ok address => rw [hnormal] at hmac; cases hmac

/-- The signal of a relevant event that is handled. -/
theorem signal?_of_relevant (h : Relevant event) (hraises : ¬ Raises event) : ∃ address,
    normalizeMac event.mac = .ok address ∧ signal? event = some
      ⟨address, if event.packet.detected = 20 then .exit else .enter,
        orDefault event.location defaultLocation, event.timestamp⟩ := by
  obtain ⟨hflag, hdetected⟩ := h
  cases hmac : normalizeMac event.mac with
  | error exc => exact absurd ⟨hflag, by rw [hmac]; rfl⟩ hraises
  | ok address =>
    refine ⟨address, rfl, ?_⟩
    simp only [signal?, hflag, hmac, if_true, enterSignals, exitSignal]
    rcases (by simpa using hdetected : event.packet.detected = 1 ∨ event.packet.detected = 10 ∨
      event.packet.detected = 20) with h | h | h <;> simp [h]

theorem signal?_isSome (event : RawDataEvent) :
    (signal? event).isSome = decide (Relevant event ∧ ¬ Raises event) := by
  by_cases hrelevant : Relevant event
  · by_cases hraises : Raises event
    · rw [signal?_of_raises hraises]
      simp [hraises]
    · obtain ⟨address, _, hsignal⟩ := signal?_of_relevant hrelevant hraises
      rw [hsignal]
      simp [hrelevant, hraises]
  · rw [signal?_of_irrelevant hrelevant]
    simp [hrelevant]

/-- The most recent signal is that of the latest relevant event. -/
theorem head?_past (events : List RawDataEvent) :
    (past events).head? = (latestRelevant events).bind signal? := by
  induction events using List.reverseRecOn with
  | nil => rfl
  | append_singleton events event ih =>
    rw [past_concat, latestRelevant, List.filter_append, List.getLast?_append]
    have hsome := signal?_isSome event
    cases hsignal : signal? event with
    | none =>
      rw [hsignal] at hsome
      rw [List.filter_singleton, ← hsome]
      exact ih
    | some s =>
      rw [hsignal] at hsome
      rw [List.filter_singleton, ← hsome]
      exact hsignal.symm

theorem latestRelevant_spec {events : List RawDataEvent} {previous : RawDataEvent}
    (h : latestRelevant events = some previous) : Relevant previous ∧ ¬ Raises previous := by
  have hmem := List.mem_of_getLast? h
  simpa using (List.mem_filter.mp hmem).2

theorem statusAfter_eq (events : List RawDataEvent) :
    statusAfter events = remembered (latestRelevant events) := by
  rw [(handle_refines events).1, head?_past]
  cases hlatest : latestRelevant events with
  | none => rfl
  | some previous =>
    obtain ⟨hrelevant, hraises⟩ := latestRelevant_spec hlatest
    obtain ⟨address, hmac, hsignal⟩ := signal?_of_relevant hrelevant hraises
    rw [Option.bind_some, hsignal, remembered, hmac]
    rfl

/-! ### What is said at one event -/

theorem next_eq_answer (events : List RawDataEvent) (event : RawDataEvent) :
    ((statusAfter events).next event).2 = answer (latestRelevant events) event := by
  have hloc : ∀ s, (past events).head? = some s → s.location ≠ [] :=
    fun s hs => past_location_ne_nil (List.mem_of_mem_head? hs)
  rw [(handle_refines events).1, next_statusOf _ hloc, answer, head?_past]
  by_cases hrelevant : Relevant event
  · rw [if_neg (not_not_intro hrelevant)]
    by_cases hraises : Raises event
    · rw [signal?_of_raises hraises]
      cases hmac : normalizeMac event.mac with
      | error exc => rfl
      | ok address =>
        refine absurd hraises.2 ?_
        rw [hmac]
        exact Option.some_ne_none address
    · obtain ⟨address, hmac, hsignal⟩ := signal?_of_relevant hrelevant hraises
      rw [hsignal, hmac]
      dsimp only
      split
      · cases (latestRelevant events).bind signal? <;> rfl
      · cases hlatest : latestRelevant events with
        | none => rfl
        | some previous =>
          obtain ⟨hrelevant', hraises'⟩ := latestRelevant_spec hlatest
          obtain ⟨previousAddress, hmac', hsignal'⟩ := signal?_of_relevant hrelevant' hraises'
          simp only [Option.bind_some, hsignal', hmac']
          rfl
  · rw [signal?_of_irrelevant hrelevant, if_pos hrelevant]

/-- An event that does not raise is answered. -/
theorem handle_eq_next (self : UnitspaceStatus) (h : ¬ Raises event) :
    self.handle event = .ok (self.next event) := by
  unfold UnitspaceStatus.next
  cases hhandle : self.handle event with
  | ok r => rfl
  | error exc =>
    refine absurd ?_ h
    unfold UnitspaceStatus.handle at hhandle
    split at hhandle
    · cases hhandle
    · rename_i hflag
      cases hmac : normalizeMac event.mac with
      | error exc => exact ⟨not_not.mp hflag, by rw [hmac]; rfl⟩
      | ok address =>
        rw [hmac] at hhandle
        dsimp only at hhandle
        split_ifs at hhandle

theorem handle_of_raises (self : UnitspaceStatus) (h : Raises event) :
    ∃ exc, normalizeMac event.mac = .error exc ∧ self.handle event = .error exc := by
  obtain ⟨hflag, hmac⟩ := h
  cases hnormal : normalizeMac event.mac with
  | ok address => rw [hnormal] at hmac; cases hmac
  | error exc =>
    refine ⟨exc, rfl, ?_⟩
    rw [UnitspaceStatus.handle, if_neg (not_not_intro hflag), hnormal]

/-! ### Two runs -/

theorem next_of_irrelevant (self : UnitspaceStatus) (h : ¬ Relevant event) :
    self.next event = (self, []) := by
  unfold UnitspaceStatus.next UnitspaceStatus.handle
  by_cases hflag : event.packet.flagHumanPresence = 1
  · rw [if_neg (not_not_intro hflag)]
    cases normalizeMac event.mac with
    | error exc => rfl
    | ok address =>
      obtain ⟨henter, hexit⟩ := detected_of_irrelevant h hflag
      simp only [if_neg henter, if_neg hexit]
  · rw [if_pos hflag]

/-- Irrelevant events make no difference to what is said at the relevant ones. -/
theorem answers_filter (self : UnitspaceStatus) (events : List RawDataEvent) :
    (answers self events).filter (fun entry => Relevant entry.1) =
      answers self (events.filter fun event => Relevant event) := by
  induction events generalizing self with
  | nil => rfl
  | cons event events ih =>
    by_cases hrelevant : Relevant event
    · simp only [answers, List.filter_cons, hrelevant, decide_true, if_true, ih]
    · simp only [answers, List.filter_cons, hrelevant, decide_false, Bool.false_eq_true, if_false, ih,
        next_of_irrelevant self hrelevant]

/-- Two statuses that differ in their time only. -/
structure SameButTime (s t : UnitspaceStatus) : Prop where
  address : s.lastAddress = t.lastAddress
  location : s.lastLocation = t.lastLocation

/-- Both branches of the noise threshold do the same. -/
theorem handleEnter_untimed {s t : UnitspaceStatus} (h : SameButTime s t) (address location : Str)
    (timestamp timestamp' : ℚ) :
    SameButTime (s.handleEnter address location timestamp).1
        (t.handleEnter address location timestamp').1 ∧
      (s.handleEnter address location timestamp).2 =
        (t.handleEnter address location timestamp').2 := by
  unfold UnitspaceStatus.handleEnter
  rw [h.address, h.location]
  cases t.lastAddress with
  | none => exact ⟨⟨rfl, rfl⟩, rfl⟩
  | some previousAddress =>
    simp only [ite_self]
    split
    · exact ⟨⟨rfl, rfl⟩, rfl⟩
    · exact ⟨⟨rfl, rfl⟩, rfl⟩

theorem next_untimed {s t : UnitspaceStatus} (h : SameButTime s t) {event' : RawDataEvent}
    (hevent : untimed event = untimed event') :
    SameButTime (s.next event).1 (t.next event').1 ∧ (s.next event).2 = (t.next event').2 := by
  obtain ⟨timestamp, mac, location, packet, payload, deviceType⟩ := event
  obtain ⟨timestamp', mac', location', packet', payload', deviceType'⟩ := event'
  simp only [untimed, RawDataEvent.mk.injEq, true_and] at hevent
  obtain ⟨rfl, rfl, rfl, rfl, rfl⟩ := hevent
  simp only [UnitspaceStatus.next, UnitspaceStatus.handle]
  by_cases hflag : packet.flagHumanPresence = 1
  · simp only [if_neg (not_not_intro hflag)]
    cases normalizeMac mac with
    | error exc => exact ⟨h, rfl⟩
    | ok address =>
      by_cases henter : packet.detected ∈ enterSignals
      · simp only [if_pos henter]
        exact handleEnter_untimed h address _ timestamp timestamp'
      · by_cases hexit : packet.detected = exitSignal
        · simp only [if_neg henter, if_pos hexit]
          exact ⟨⟨rfl, rfl⟩, trivial⟩
        · simp only [if_neg henter, if_neg hexit]
          exact ⟨h, trivial⟩
  · simp only [if_pos hflag]
    exact ⟨h, trivial⟩

theorem answers_untimed {s t : UnitspaceStatus} (h : SameButTime s t)
    {events events' : List RawDataEvent} (hevents : events.map untimed = events'.map untimed) :
    (answers s events).map Prod.snd = (answers t events').map Prod.snd := by
  induction events generalizing s t events' with
  | nil =>
    cases events' with
    | nil => rfl
    | cons event' events' => cases congrArg List.length hevents
  | cons event events ih =>
    cases events' with
    | nil => cases congrArg List.length hevents
    | cons event' events' =>
      obtain ⟨hevent, hrest⟩ := List.cons.inj hevents
      obtain ⟨hnext, hcommands⟩ := next_untimed h hevent
      simp only [answers, List.map_cons, hcommands, ih hnext hrest]

/-- CORRECT: the estimator is its history specification. An event is answered as the event and the
    latest relevant event before it say, and that event is what is remembered; an event raises
    exactly if it is a presence event without a valid MAC, and then it changes nothing. So
    irrelevant events anywhere make no difference to what is said at the relevant ones, and no
    change of times makes any difference. -/
theorem estimator_is_history :
    (∀ events event, ¬ Raises event → ∃ status, (statusAfter events).handle event =
        .ok (status, answer (latestRelevant events) event) ∧
      status = remembered (latestRelevant (events ++ [event]))) ∧
      (∀ events event, Raises event → (∃ exc, (statusAfter events).handle event = .error exc) ∧
        latestRelevant (events ++ [event]) = latestRelevant events) ∧
      (∀ events, statusAfter events = remembered (latestRelevant events)) ∧
      (∀ events events' : List RawDataEvent,
        events.filter (fun event => Relevant event) = events'.filter (fun event => Relevant event) →
          (answers {} events).filter (fun entry => Relevant entry.1) =
            (answers {} events').filter (fun entry => Relevant entry.1)) ∧
      ∀ events events' : List RawDataEvent, events.map untimed = events'.map untimed →
        (answers {} events).map Prod.snd = (answers {} events').map Prod.snd := by
  refine ⟨fun events event hraises => ?_, fun events event hraises => ⟨?_, ?_⟩, statusAfter_eq,
    fun events events' h => ?_, fun events events' => answers_untimed ⟨rfl, rfl⟩⟩
  · refine ⟨((statusAfter events).next event).1, ?_, ?_⟩
    · rw [handle_eq_next _ hraises, ← next_eq_answer]
    · rw [← statusAfter_eq, statusAfter, statusAfter, handleAll_concat]
  · obtain ⟨exc, _, hhandle⟩ := handle_of_raises (statusAfter events) hraises
    exact ⟨exc, hhandle⟩
  · rw [latestRelevant, List.filter_append, List.filter_singleton]
    simp [hraises, latestRelevant]
  · rw [answers_filter, answers_filter, h]

end SlimHub.Unitspace
