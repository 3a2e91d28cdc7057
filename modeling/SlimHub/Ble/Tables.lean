import SlimHub.Ble.Central

/-! The session tables in every reachable state.

    Keys and session objects correspond one to one, and aliases point at keys. A session's address
    is its key until the central finds the session under an alias and retargets it; from then on
    the address is that alias, and it never becomes a key (`Names`). `Extends` is what all
    operations do to the tables: keys keep their sessions, aliases stay aliases, and an address
    known only as an alias stays so. -/

namespace SlimHub.Ble
open Text Nus

/-- `a` is known as an alias and is no key. -/
def AliasOnly (r : DeviceRegistry) (a : Str) : Prop :=
  r.sessions.get? a = none ∧ r.aliases.get? a ≠ none

instance (r : DeviceRegistry) (a : Str) : Decidable (AliasOnly r a) :=
  inferInstanceAs (Decidable (_ ∧ _))

/-- An address of the session under key `k`: the key, or an address known only as an alias. -/
def Names (r : DeviceRegistry) (k a : Str) : Prop := a = k ∨ AliasOnly r a

/-- What the operations do to the tables. -/
structure Extends (r r' : DeviceRegistry) : Prop where
  keys : ∀ {k i}, r.sessions.get? k = some i → r'.sessions.get? k = some i
  aliasOnly : ∀ {a}, AliasOnly r a → AliasOnly r' a

theorem Extends.refl (r : DeviceRegistry) : Extends r r := ⟨id, id⟩

theorem Extends.names {r r' : DeviceRegistry} {k a : Str} (h : Extends r r') (hn : Names r k a) :
    Names r' k a := hn.imp id h.aliasOnly

/-- The tables of a central fit together. -/
structure Tables (c : BleCentral) : Prop where
  ref_lt : ∀ {k i}, c.registry.sessions.get? k = some i → i < c.sessions.length
  key_eq : ∀ {k j i}, c.registry.sessions.get? k = some i →
    c.registry.sessions.get? j = some i → k = j
  alias_key : ∀ {a k}, c.registry.aliases.get? a = some k → c.registry.sessions.get? k ≠ none
  stored : ∀ {i s}, c.sessions[i]? = some s → ∃ k, c.registry.sessions.get? k = some i ∧
    Names c.registry k s.address ∧ normalizeMac s.address = .ok s.address

theorem Tables.empty : Tables BleCentral.empty where
  ref_lt h := by simp [BleCentral.empty, DeviceRegistry.empty] at h
  key_eq h := by simp [BleCentral.empty, DeviceRegistry.empty] at h
  alias_key h := by simp [BleCentral.empty, DeviceRegistry.empty] at h
  stored h := by simp [BleCentral.empty] at h

variable {c : BleCentral} {r : DeviceRegistry} {a k : Str} {i : SessionRef}

/-! ### Lookup -/

/-- An address that resolves to nothing is neither a key nor an alias. -/
theorem Tables.find_eq_none (h : Tables c) :
    c.registry.find a = none ↔
      c.registry.sessions.get? a = none ∧ c.registry.aliases.get? a = none := by
  cases hk : c.registry.sessions.get? a with
  | some i => simp [DeviceRegistry.find_of_key hk]
  | none =>
    rw [DeviceRegistry.find_of_not_key hk]
    cases ha : c.registry.aliases.get? a with
    | none => simp
    | some k => simpa using h.alias_key ha

/-- Which address finds the session under key `k`: the key itself, and its aliases that are no
    keys. -/
theorem Tables.find_eq_some (h : Tables c) (hk : c.registry.sessions.get? k = some i) :
    c.registry.find a = some i ↔
      if c.registry.sessions.get? a = none then c.registry.aliases.get? a = some k else a = k := by
  cases ha : c.registry.sessions.get? a with
  | some j =>
    rw [DeviceRegistry.find_of_key ha, if_neg (Option.some_ne_none j)]
    constructor
    · rintro hj
      exact h.key_eq (ha.trans hj) hk
    · rintro rfl
      exact ha.symm.trans hk
  | none =>
    rw [DeviceRegistry.find_of_not_key ha, if_pos rfl]
    cases hal : c.registry.aliases.get? a with
    | none => simp
    | some l =>
      simp only [Option.bind_some, Option.some.injEq]
      constructor
      · rintro hl
        exact h.key_eq hl hk
      · rintro rfl
        exact hk

/-! ### Operations -/

/-- A new alias, or an alias that is moved. -/
theorem extends_set_alias (r : DeviceRegistry) (a k : Str) :
    Extends r { r with aliases := r.aliases.set a k } where
  keys h := h
  aliasOnly := by
    rintro b ⟨hb, hal⟩
    refine ⟨hb, ?_⟩
    simp only [Dict.get?_set]
    split
    · exact Option.some_ne_none k
    · exact hal

/-- A new key, for an address that is neither key nor alias. -/
theorem extends_set_session (hk : r.sessions.get? a = none) (hal : r.aliases.get? a = none)
    (i : SessionRef) : Extends r { r with sessions := r.sessions.set a i } where
  keys := by
    intro k j hj
    have hne : k ≠ a := by rintro rfl; rw [hk] at hj; cases hj
    simpa only [Dict.get?_set_of_ne _ hne] using hj
  aliasOnly := by
    rintro b ⟨hb, hbal⟩
    have hne : b ≠ a := by rintro rfl; exact hbal hal
    exact ⟨by simpa only [Dict.get?_set_of_ne _ hne] using hb, hbal⟩

/-- Changing the fields of one session keeps the tables, if its new address is one of its names. -/
theorem Tables.modify {f : DeviceSession → DeviceSession} (h : Tables c) (i : SessionRef)
    (hf : ∀ {k s}, c.registry.sessions.get? k = some i → c.sessions[i]? = some s →
      Names c.registry k s.address → normalizeMac s.address = .ok s.address →
        Names c.registry k (f s).address ∧ normalizeMac (f s).address = .ok (f s).address) :
    Tables { c with sessions := c.sessions.modify i f } where
  ref_lt hk := by simpa using h.ref_lt hk
  key_eq hk hj := h.key_eq hk hj
  alias_key ha := h.alias_key ha
  stored := by
    intro j s hs
    simp only [List.getElem?_modify] at hs
    obtain ⟨s₀, hs₀, rfl⟩ := Option.map_eq_some_iff.mp hs
    obtain ⟨k, hk, hname, hnorm⟩ := h.stored hs₀
    rcases eq_or_ne i j with rfl | hij
    · simp only [if_true]
      exact ⟨k, hk, hf hk hs₀ hname hnorm⟩
    · simp only [if_neg hij]
      exact ⟨k, hk, hname, hnorm⟩

/-- Recording an alias of a key keeps the tables. -/
theorem Tables.set_alias (h : Tables c) (hk : c.registry.sessions.get? k ≠ none) (a : Str) :
    Tables { c with
      registry := { c.registry with aliases := c.registry.aliases.set a k } } where
  ref_lt hi := h.ref_lt hi
  key_eq hi hj := h.key_eq hi hj
  alias_key := by
    intro b l hl
    simp only [Dict.get?_set] at hl
    split at hl
    · obtain rfl := Option.some.inj hl
      exact hk
    · exact h.alias_key hl
  stored := by
    intro i s hs
    obtain ⟨l, hl, hname, hnorm⟩ := h.stored hs
    exact ⟨l, hl, (extends_set_alias _ a k).names hname, hnorm⟩

/-- Storing a new session under its address keeps the tables. -/
theorem Tables.add {session : DeviceSession} (h : Tables c)
    (hk : c.registry.sessions.get? a = none) (hal : c.registry.aliases.get? a = none)
    (haddr : session.address = a) (hnorm : normalizeMac a = .ok a) :
    Tables ⟨c.sessions ++ [session],
      { c.registry with sessions := c.registry.sessions.set a c.sessions.length }⟩ where
  ref_lt := by
    intro k i hi
    simp only [Dict.get?_set] at hi
    rw [List.length_append, List.length_singleton]
    split at hi
    · obtain rfl := Option.some.inj hi
      exact Nat.lt_succ_self _
    · exact (h.ref_lt hi).trans (Nat.lt_succ_self _)
  key_eq := by
    intro k j i hi hj
    have hold : ∀ {l}, c.registry.sessions.get? l ≠ some c.sessions.length :=
      fun hl => absurd (h.ref_lt hl) (lt_irrefl _)
    simp only [Dict.get?_set] at hi hj
    split at hi <;> split at hj
    · rename_i hka hja
      exact hka.trans hja.symm
    · obtain rfl := Option.some.inj hi
      exact absurd hj hold
    · obtain rfl := Option.some.inj hj
      exact absurd hi hold
    · exact h.key_eq hi hj
  alias_key := by
    intro b l hl
    simp only [Dict.get?_set]
    split
    · exact Option.some_ne_none _
    · exact h.alias_key hl
  stored := by
    intro i s hs
    have hext := extends_set_session hk hal c.sessions.length
    rcases lt_or_ge i c.sessions.length with hi | hi
    · rw [List.getElem?_append_left hi] at hs
      obtain ⟨k, hk', hname, hs'⟩ := h.stored hs
      exact ⟨k, hext.keys hk', hext.names hname, hs'⟩
    · rw [List.getElem?_append_right hi, List.getElem?_singleton] at hs
      split at hs
      · rename_i hz
        have hi' : i = c.sessions.length := le_antisymm (Nat.sub_eq_zero_iff_le.mp hz) hi
        obtain rfl := Option.some.inj hs
        subst hi'
        exact ⟨a, Dict.get?_set_self .., Or.inl haddr, haddr ▸ hnorm⟩
      · cases hs

/-! ### The central -/

/-- Nothing but the queues of some sessions differs. -/
structure QueuesOnly (c c' : BleCentral) : Prop where
  registry : c'.registry = c.registry
  addresses : c'.sessions.map (·.address) = c.sessions.map (·.address)

theorem QueuesOnly.refl (c : BleCentral) : QueuesOnly c c := ⟨rfl, rfl⟩

theorem QueuesOnly.trans {c c' c'' : BleCentral} (h : QueuesOnly c c') (h' : QueuesOnly c' c'') :
    QueuesOnly c c'' :=
  ⟨h'.registry.trans h.registry, h'.addresses.trans h.addresses⟩

theorem QueuesOnly.getElem? {c c' : BleCentral} (h : QueuesOnly c c') {s : DeviceSession}
    (hs : c'.sessions[i]? = some s) : ∃ s₀, c.sessions[i]? = some s₀ ∧ s₀.address = s.address := by
  have haddr := congrArg (·[i]?) h.addresses
  simp only [List.getElem?_map, hs, Option.map_some] at haddr
  exact Option.map_eq_some_iff.mp haddr.symm

theorem QueuesOnly.tables {c c' : BleCentral} (hq : QueuesOnly c c') (h : Tables c) :
    Tables c' where
  ref_lt hk := by
    have hlen := congrArg List.length hq.addresses
    rw [List.length_map, List.length_map] at hlen
    rw [hq.registry] at hk
    rw [hlen]
    exact h.ref_lt hk
  key_eq hk hj := by
    rw [hq.registry] at hk hj
    exact h.key_eq hk hj
  alias_key ha := by
    rw [hq.registry] at ha ⊢
    exact h.alias_key ha
  stored hs := by
    obtain ⟨s₀, hs₀, haddr⟩ := hq.getElem? hs
    rw [hq.registry, ← haddr]
    exact h.stored hs₀

/-- A command goes to the session that the registry finds under its address, to the end of its
    queue. -/
theorem sendCommand_spec {c' : BleCentral} {command : CommandEvent} {dest : Option SessionRef}
    (h : c.sendCommand command = .ok (c', dest)) :
    QueuesOnly c c' ∧ c.registry.get command.address = .ok dest ∧
      ∀ {i s}, c.sessions[i]? = some s → ∃ s', c'.sessions[i]? = some s' ∧
        s'.commandQueue = s.commandQueue ++ if dest = some i then [command] else [] := by
  cases hnorm : normalizeMac command.address with
  | error exc =>
    rw [BleCentral.sendCommand, DeviceRegistry.get, hnorm] at h
    cases h
  | ok a =>
    rw [BleCentral.sendCommand_ok hnorm] at h
    rw [DeviceRegistry.get_ok hnorm]
    cases hfind : c.registry.find a with
    | none =>
      rw [hfind] at h
      cases h
      exact ⟨QueuesOnly.refl c, rfl, fun {i s} hs => ⟨s, hs, (List.append_nil _).symm⟩⟩
    | some j =>
      rw [hfind] at h
      cases h
      refine ⟨⟨rfl, List.ext_getElem? fun i => ?_⟩, rfl, ?_⟩
      · simp only [List.getElem?_map, List.getElem?_modify]
        cases c.sessions[i]? with
        | none => rfl
        | some s => simp only [Option.map_eq_map, Option.map_some]; split <;> rfl
      · intro i s hs
        simp only [List.getElem?_modify, hs, Option.map_eq_map, Option.map_some]
        rcases eq_or_ne j i with rfl | hji
        · exact ⟨s.sendCommand command, by simp, by simp [DeviceSession.sendCommand]⟩
        · exact ⟨s, by simp [hji], by simp [hji]⟩

/-- `ensure_target` on a bad address does nothing, on an unknown address adds a session, and on a
    known one retargets the session it finds. -/
theorem Tables.ensureTarget (h : Tables c) (target : Target) (now : ℚ) :
    Tables (c.ensureTarget target now).1 ∧
      Extends c.registry (c.ensureTarget target now).1.registry := by
  cases hnorm : normalizeMac target.addressText with
  | error exc =>
    rw [BleCentral.ensureTarget_invalid hnorm]
    exact ⟨h, Extends.refl _⟩
  | ok a =>
    have hidem := normalizeMac_idem hnorm
    cases hfind : c.registry.find a with
    | none =>
      obtain ⟨hk, hal⟩ := h.find_eq_none.mp hfind
      rw [BleCentral.ensureTarget_new hnorm hfind]
      exact ⟨h.add hk hal (DeviceSession.start_address _) hidem, extends_set_session hk hal _⟩
    | some i =>
      rw [BleCentral.ensureTarget_found hnorm hfind]
      refine ⟨h.modify i ?_, Extends.refl _⟩
      intro k s hk _ _ _
      obtain ⟨_, haddr, _⟩ := DeviceSession.updateTarget_ok s now hnorm
      rw [haddr]
      refine ⟨?_, hidem⟩
      -- found under its key, or under an alias that is no key
      have hwhere := (h.find_eq_some hk).mp hfind
      split at hwhere
      · rename_i hnone
        exact Or.inr ⟨hnone, by rw [hwhere]; exact Option.some_ne_none k⟩
      · exact Or.inl hwhere

/-- On a valid address `ensure_target` returns a session that is there. -/
theorem Tables.ensureTarget_ok (h : Tables c) {target : Target} (now : ℚ)
    (hnorm : normalizeMac target.addressText = .ok a) :
    ∃ ref s, (c.ensureTarget target now).2 = .ok ref ∧
      (c.ensureTarget target now).1.sessions[ref]? = some s := by
  have hidem := normalizeMac_idem hnorm
  cases hfind : c.registry.find a with
  | none =>
    have hnew : DeviceSession.new target = .ok { target, address := a, name := target.nameOr [] } :=
      DeviceSession.new_ok_iff.mpr ⟨a, hnorm, rfl⟩
    have hadd : c.registry.add c.sessions.length
        { target, address := a, name := target.nameOr [] } = .ok _ := DeviceRegistry.add_ok hidem
    refine ⟨c.sessions.length, DeviceSession.start
      { target, address := a, name := target.nameOr [] }, ?_, ?_⟩
    · simp only [BleCentral.ensureTarget, hnorm, DeviceRegistry.get_ok hidem, hfind, hnew, hadd]
    · rw [BleCentral.ensureTarget_new hnorm hfind]
      exact List.getElem?_concat_length
  | some ref =>
    have hlt : ref < c.sessions.length := by
      cases hk : c.registry.sessions.get? a with
      | some i =>
        rw [DeviceRegistry.find_of_key hk, Option.some.injEq] at hfind
        exact hfind ▸ h.ref_lt hk
      | none =>
        rw [DeviceRegistry.find_of_not_key hk] at hfind
        obtain ⟨k, _, hi⟩ := Option.bind_eq_some_iff.mp hfind
        exact h.ref_lt hi
    refine ⟨ref, (c.sessions[ref].updateTarget target now).1, ?_, ?_⟩
    · simp only [BleCentral.ensureTarget, hnorm, DeviceRegistry.get_ok hidem, hfind]
    · rw [BleCentral.ensureTarget_found hnorm hfind, List.getElem?_modify,
        List.getElem?_eq_getElem hlt]
      simp

theorem Tables.ensureAddress (h : Tables c) (address : Str) (now : ℚ) :
    Tables (c.ensureAddress address now).1 ∧
      Extends c.registry (c.ensureAddress address now).1.registry := by
  cases hnorm : normalizeMac address with
  | error exc =>
    rw [BleCentral.ensureAddress, hnorm]
    exact ⟨h, Extends.refl _⟩
  | ok a =>
    rw [BleCentral.ensureAddress_eq hnorm]
    exact h.ensureTarget (.text a) now

end SlimHub.Ble
