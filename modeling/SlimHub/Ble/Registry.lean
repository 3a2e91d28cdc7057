import SlimHub.Ble.Session
import SlimHub.Lib.Dict
import SlimHub.Protocol.Mac

/-! The session registry.

        get a ──▶ the session under key a, else the session under the key that a is an alias of

    Sessions are stored under their address at the time of `add`; the registry holds a reference to
    the session object, here its number. Every operation takes the registry's lock and gives it
    back without waiting in between, so each is one step. -/

namespace SlimHub.Ble
open Text Nus

/-- A reference to a session object. -/
abbrev SessionRef := ℕ

structure DeviceRegistry where
  sessions : Dict Str SessionRef
  aliases : Dict Str Str
  deriving DecidableEq

namespace DeviceRegistry

def empty : DeviceRegistry := ⟨Dict.empty, Dict.empty⟩

def add (self : DeviceRegistry) (ref : SessionRef) (session : DeviceSession) :
    Except PyError DeviceRegistry := do
  let key ← normalizeMac session.address
  return { self with sessions := self.sessions.set key ref }

/-- The session under a normalised address. -/
def find (self : DeviceRegistry) (normalized : Str) : Option SessionRef :=
  match self.sessions.get? normalized with
  | some session => some session
  | none =>
    match self.aliases.get? normalized with
    | none => none
    | some canonical => self.sessions.get? canonical

def get (self : DeviceRegistry) (address : Str) : Except PyError (Option SessionRef) := do
  let normalized ← normalizeMac address
  return self.find normalized

def registerAlias (self : DeviceRegistry) (aliasAddress canonicalAddress : Str) :
    Except PyError DeviceRegistry := do
  let normalizedAlias ← normalizeMac aliasAddress
  let normalizedCanonical ← normalizeMac canonicalAddress
  return if self.sessions.get? normalizedCanonical ≠ none then
      { self with aliases := self.aliases.set normalizedAlias normalizedCanonical }
    else self

def resolveAddress (self : DeviceRegistry) (address : Str) : Except PyError Str := do
  let normalized ← normalizeMac address
  return if self.sessions.get? normalized ≠ none then normalized
    else (self.aliases.get? normalized).getD normalized

/-! ### On normalised addresses -/

variable {self : DeviceRegistry} {a c k : Str} {i : SessionRef}

theorem add_ok {session : DeviceSession} (h : normalizeMac session.address = .ok k) :
    self.add i session = .ok { self with sessions := self.sessions.set k i } := by
  rw [add, h]; rfl

theorem get_ok {address : Str} (h : normalizeMac address = .ok a) :
    self.get address = .ok (self.find a) := by
  rw [get, h]; rfl

/-- A key is looked up directly. -/
theorem find_of_key (h : self.sessions.get? a = some i) : self.find a = some i := by
  rw [find, h]

theorem find_of_not_key (h : self.sessions.get? a = none) :
    self.find a = (self.aliases.get? a).bind self.sessions.get? := by
  rw [find, h]
  cases self.aliases.get? a <;> rfl

/-- An alias of a key is recorded, an alias of anything else is dropped. -/
theorem registerAlias_ok {aliasAddress source : Str} (ha : normalizeMac aliasAddress = .ok a)
    (hc : normalizeMac source = .ok c) :
    self.registerAlias aliasAddress source = .ok
      (if self.sessions.get? c ≠ none then { self with aliases := self.aliases.set a c }
        else self) := by
  rw [registerAlias, ha, hc]; rfl

end DeviceRegistry

end SlimHub.Ble
