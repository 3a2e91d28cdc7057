import SlimHub.Events
import SlimHub.Protocol.Mac

/-! The unitspace estimator: which node a person is at.

    The estimator remembers one address, the one of the last presence signal, and answers each
    event with commands. Over it stands the history view: an event either is a signal (enter or
    exit, at a normalised address) or does nothing, and the commands are a function of the signal
    and the one before it (`respond`). `handle_refines` says that the code computes this function;
    everything later is proved about `respond` on histories.

        flag ≠ 1 ──▶ []
        enter  ──▶ nothing remembered: enter   same address: []   other address: enter, exit it
        exit   ──▶ exit
        (every signal becomes the remembered one) -/

namespace SlimHub.Unitspace
open Text Nus

def enterSignals : List ℤ := [1, 10]
def exitSignal : ℤ := 20
def noiseThresholdSeconds : ℚ := 5

def strongEnter : Str := str "strong_enter"
def strongExit : Str := str "strong_exit"

structure UnitspaceStatus where
  lastAddress : Option Str := none
  lastLocation : Option Str := none
  lastTimestamp : ℚ := 0
  deriving DecidableEq

namespace UnitspaceStatus

def remember (_self : UnitspaceStatus) (address location : Str) (timestamp : ℚ) : UnitspaceStatus :=
  ⟨some address, some location, timestamp⟩

def handleEnter (self : UnitspaceStatus) (address location : Str) (timestamp : ℚ) :
    UnitspaceStatus × List CommandEvent :=
  match self.lastAddress with
  | none => (self.remember address location timestamp, [⟨address, strongEnter, location⟩])
  | some previousAddress =>
    if address = previousAddress then
      if timestamp - self.lastTimestamp < noiseThresholdSeconds then
        (self.remember address location timestamp, [])
      else (self.remember address location timestamp, [])
    else
      let previousLocation := orDefault (self.lastLocation.getD []) defaultLocation
      (self.remember address location timestamp,
        [⟨address, strongEnter, location⟩, ⟨previousAddress, strongExit, previousLocation⟩])

def handle (self : UnitspaceStatus) (event : RawDataEvent) :
    Except PyError (UnitspaceStatus × List CommandEvent) :=
  if event.packet.flagHumanPresence ≠ 1 then .ok (self, [])
  else
    match normalizeMac event.mac with
    | .error exc => .error exc
    | .ok address =>
      let location := orDefault event.location defaultLocation
      let signal := event.packet.detected
      if signal ∈ enterSignals then .ok (self.handleEnter address location event.timestamp)
      else if signal = exitSignal then
        .ok (self.remember address location event.timestamp, [⟨address, strongExit, location⟩])
      else .ok (self, [])

/-- The estimator after one event, with the commands it returned. `normalizeMac` raises before
    anything is remembered, so an event that raises leaves the status as it was. -/
def next (self : UnitspaceStatus) (event : RawDataEvent) : UnitspaceStatus × List CommandEvent :=
  match self.handle event with
  | .ok r => r
  | .error _ => (self, [])

/-- A sequence of events, most recent last; all commands together. -/
def handleAll (self : UnitspaceStatus) : List RawDataEvent → UnitspaceStatus × List CommandEvent
  | [] => (self, [])
  | event :: events =>
    let r := self.next event
    let rest := handleAll r.1 events
    (rest.1, r.2 ++ rest.2)

end UnitspaceStatus

/-- The status of a fresh estimator after a sequence of events. -/
def statusAfter (events : List RawDataEvent) : UnitspaceStatus :=
  (UnitspaceStatus.handleAll {} events).1

/-- All commands that a fresh estimator emits over a sequence of events. -/
def commands (events : List RawDataEvent) : List CommandEvent :=
  (UnitspaceStatus.handleAll {} events).2

/-- The most recent command for an address. -/
def lastCommand (a : Str) (cs : List CommandEvent) : Option Str :=
  ((cs.filter (·.address = a)).getLast?).map (·.command)

/-- A node is entered when the most recent command for it is `strong_enter`. -/
def Entered (cs : List CommandEvent) (a : Str) : Prop := lastCommand a cs = some strongEnter

instance (cs : List CommandEvent) (a : Str) : Decidable (Entered cs a) :=
  inferInstanceAs (Decidable (_ = _))

theorem lastCommand_append (a : Str) (cs ds : List CommandEvent) :
    lastCommand a (cs ++ ds) = (lastCommand a ds).or (lastCommand a cs) := by
  rw [lastCommand, List.filter_append, List.getLast?_append, lastCommand, lastCommand]
  cases (ds.filter (·.address = a)).getLast? <;> rfl

/-! ### Signals -/

inductive Kind where | enter | exit
  deriving DecidableEq

/-- A presence signal: the address and location as the estimator sees them. -/
structure Signal where
  address : Str
  kind : Kind
  location : Str
  timestamp : ℚ
  deriving DecidableEq

/-- The signal that an event is, if any. -/
def signal? (event : RawDataEvent) : Option Signal :=
  if event.packet.flagHumanPresence = 1 then
    match normalizeMac event.mac with
    | .error _ => none
    | .ok address =>
      let location := orDefault event.location defaultLocation
      if event.packet.detected ∈ enterSignals then
        some ⟨address, .enter, location, event.timestamp⟩
      else if event.packet.detected = exitSignal then
        some ⟨address, .exit, location, event.timestamp⟩
      else none
  else none

/-- The signals of a sequence of events, most recent first. -/
def past (events : List RawDataEvent) : List Signal := (events.filterMap signal?).reverse

/-- The commands that answer a signal, given the signal before it. -/
def respond : Option Signal → Signal → List CommandEvent
  | _, ⟨a, .exit, loc, _⟩ => [⟨a, strongExit, loc⟩]
  | none, ⟨a, .enter, loc, _⟩ => [⟨a, strongEnter, loc⟩]
  | some p, ⟨a, .enter, loc, _⟩ =>
    if a = p.address then [] else [⟨a, strongEnter, loc⟩, ⟨p.address, strongExit, p.location⟩]

/-- All commands along a history, most recent signal first. -/
def said : List Signal → List CommandEvent
  | [] => []
  | s :: p => said p ++ respond p.head? s

/-- The status that remembers the most recent signal. -/
def statusOf : Option Signal → UnitspaceStatus
  | none => {}
  | some s => ⟨some s.address, some s.location, s.timestamp⟩

theorem orDefault_ne_nil {x default : Str} (h : default ≠ []) : orDefault x default ≠ [] := by
  unfold orDefault
  by_cases hx : x = []
  · rw [if_pos hx]; exact h
  · rw [if_neg hx]; exact hx

theorem orDefault_of_ne_nil {x : Str} (h : x ≠ []) (default : Str) : orDefault x default = x :=
  if_neg h

/-- A signal's location is never empty. -/
theorem signal_location_ne_nil {event : RawDataEvent} {s : Signal} (h : signal? event = some s) :
    s.location ≠ [] := by
  have hdef : defaultLocation ≠ [] := by decide
  unfold signal? at h
  split at h
  · split at h
    · cases h
    · split at h
      · cases h; exact orDefault_ne_nil hdef
      · split at h
        · cases h; exact orDefault_ne_nil hdef
        · cases h
  · cases h

/-- One event against the status that the most recent signal left: an event that is no signal
    changes nothing, a signal is answered by `respond` and remembered. -/
theorem next_statusOf (p : Option Signal) (hp : ∀ s, p = some s → s.location ≠ [])
    (event : RawDataEvent) :
    (statusOf p).next event =
      match signal? event with
      | none => (statusOf p, [])
      | some s => (statusOf (some s), respond p s) := by
  unfold UnitspaceStatus.next UnitspaceStatus.handle signal?
  by_cases hflag : event.packet.flagHumanPresence = 1
  · rw [if_neg (not_not.mpr hflag), if_pos hflag]
    cases hmac : normalizeMac event.mac with
    | error exc => rfl
    | ok address =>
      by_cases henter : event.packet.detected ∈ enterSignals
      · simp only [if_pos henter]
        cases p with
        | none => rfl
        | some s =>
          have hloc := orDefault_of_ne_nil (hp s rfl) defaultLocation
          by_cases hsame : address = s.address
          · simp [statusOf, UnitspaceStatus.handleEnter, UnitspaceStatus.remember, respond, hsame]
          · simp [statusOf, UnitspaceStatus.handleEnter, UnitspaceStatus.remember, respond, hsame,
              hloc]
      · by_cases hexit : event.packet.detected = exitSignal
        · simp only [if_neg henter, if_pos hexit]
          rfl
        · simp only [if_neg henter, if_neg hexit]
  · rw [if_pos hflag, if_neg hflag]

theorem past_concat (events : List RawDataEvent) (event : RawDataEvent) :
    past (events ++ [event]) = (signal? event).toList ++ past events := by
  rw [past, past, List.filterMap_append, List.reverse_append]
  cases h : signal? event <;> simp [h]

theorem past_location_ne_nil {events : List RawDataEvent} {s : Signal} (h : s ∈ past events) :
    s.location ≠ [] := by
  rw [past, List.mem_reverse, List.mem_filterMap] at h
  obtain ⟨event, _, hs⟩ := h
  exact signal_location_ne_nil hs

theorem handleAll_concat (self : UnitspaceStatus) (events : List RawDataEvent)
    (event : RawDataEvent) :
    self.handleAll (events ++ [event]) = (((self.handleAll events).1.next event).1,
      (self.handleAll events).2 ++ ((self.handleAll events).1.next event).2) := by
  induction events generalizing self with
  | nil => simp [UnitspaceStatus.handleAll]
  | cons e events ih => simp only [List.cons_append, UnitspaceStatus.handleAll, ih, List.append_assoc]

/-- REFINEMENT: the estimator remembers the most recent signal and says what the history says. -/
theorem handle_refines (events : List RawDataEvent) :
    statusAfter events = statusOf (past events).head? ∧ commands events = said (past events) := by
  induction events using List.reverseRecOn with
  | nil => exact ⟨rfl, rfl⟩
  | append_singleton events event ih =>
    obtain ⟨hstatus, hcommands⟩ := ih
    have hloc : ∀ s, (past events).head? = some s → s.location ≠ [] :=
      fun s hs => past_location_ne_nil (List.mem_of_mem_head? hs)
    have hnext := next_statusOf (past events).head? hloc event
    rw [statusAfter] at hstatus
    rw [commands] at hcommands
    rw [statusAfter, commands, handleAll_concat, hstatus, hcommands, hnext, past_concat]
    cases signal? event with
    | none => simp
    | some s => exact ⟨rfl, rfl⟩

end SlimHub.Unitspace
