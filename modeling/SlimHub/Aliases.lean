import SlimHub.Hub
import SlimHub.Lib.Machine

/-! What the alias table says, and to whom.

        get:              key ──▶ session          resolve_address:  key ──▶ itself
                  alias ──▶ key ──▶ session                          alias ──▶ key
                                                                     other ──▶ itself
        list_status:      key ◀── its aliases

    The operations read the two tables each by its own rules. They agree since an alias is recorded
    only of a key, and keys stay. -/

namespace SlimHub
open Text Nus Ble

/-- A call on the registry, or what happens to session objects in between: one is made, or changes
    in any way. -/
inductive RegistryCall where
  | make (session : DeviceSession)
  | change (ref : SessionRef) (f : DeviceSession → DeviceSession)
  | add (ref : SessionRef)
  | registerAlias (aliasAddress canonicalAddress : Str)

/-- A call that raises leaves the registry as it is. -/
def registryStep : RegistryCall → BleCentral → Option BleCentral
  | .make session, self => some { self with sessions := self.sessions ++ [session] }
  | .change ref f, self => some { self with sessions := self.sessions.modify ref f }
  | .add ref, self => self.sessions[ref]?.map fun session =>
    match self.registry.add ref session with
    | .error _ => self
    | .ok registry => { self with registry }
  | .registerAlias aliasAddress canonicalAddress, self =>
    match self.registry.registerAlias aliasAddress canonicalAddress with
    | .error _ => some self
    | .ok registry => some { self with registry }

/-- Keys are normalised and stand for session objects, and aliases point at keys. -/
structure Linked (c : BleCentral) : Prop where
  ref_lt : ∀ {k i}, c.registry.sessions.get? k = some i → i < c.sessions.length
  key_normal : ∀ {k}, c.registry.sessions.get? k ≠ none → normalizeMac k = .ok k
  alias_key : ∀ {a k}, c.registry.aliases.get? a = some k → c.registry.sessions.get? k ≠ none

namespace Linked

theorem empty : Linked BleCentral.empty where
  ref_lt h := nomatch h
  key_normal h := absurd rfl h
  alias_key h := nomatch h

variable {c : BleCentral}

/-- The table of objects changes, but none goes. -/
theorem objects (h : Linked c) {sessions : List DeviceSession}
    (hlen : c.sessions.length ≤ sessions.length) : Linked { c with sessions } where
  ref_lt hk := (h.ref_lt hk).trans_le hlen
  key_normal := h.key_normal
  alias_key := h.alias_key

theorem add (h : Linked c) {ref : SessionRef} (href : ref < c.sessions.length) {k : Str}
    (hk : normalizeMac k = .ok k) :
    Linked { c with registry.sessions := c.registry.sessions.set k ref } where
  ref_lt := by
    intro j i hj
    simp only [Dict.get?_set] at hj
    split at hj
    · exact Option.some.inj hj ▸ href
    · exact h.ref_lt hj
  key_normal := by
    intro j hj
    simp only [Dict.get?_set] at hj
    split at hj
    · rename_i hjk
      exact hjk ▸ hk
    · exact h.key_normal hj
  alias_key := by
    intro a j hj
    simp only [Dict.get?_set]
    split
    · exact Option.some_ne_none ref
    · exact h.alias_key hj

theorem set_alias (h : Linked c) {k : Str} (hk : c.registry.sessions.get? k ≠ none) (a : Str) :
    Linked { c with registry.aliases := c.registry.aliases.set a k } where
  ref_lt := h.ref_lt
  key_normal := h.key_normal
  alias_key := by
    intro b j hj
    simp only [Dict.get?_set] at hj
    split at hj
    · exact Option.some.inj hj ▸ hk
    · exact h.alias_key hj

theorem step (c : BleCentral) (call : RegistryCall) (d : BleCentral) (h : Linked c)
    (hstep : registryStep call c = some d) : Linked d := by
  cases call with
  | make session =>
    rw [← Option.some.inj hstep]
    exact h.objects (by simp)
  | change ref f =>
    rw [← Option.some.inj hstep]
    exact h.objects (by simp)
  | add ref =>
    obtain ⟨session, hsession, rfl⟩ := Option.map_eq_some_iff.mp hstep
    obtain ⟨href, _⟩ := List.getElem?_eq_some_iff.mp hsession
    cases hk : normalizeMac session.address with
    | error exc =>
      rw [DeviceRegistry.add, hk]
      exact h
    | ok k =>
      rw [DeviceRegistry.add_ok hk]
      exact h.add href (normalizeMac_idem hk)
  | registerAlias aliasAddress canonicalAddress =>
    cases ha : normalizeMac aliasAddress with
    | error exc =>
      rw [registryStep, DeviceRegistry.registerAlias, ha] at hstep
      exact Option.some.inj hstep ▸ h
    | ok a =>
      cases hk : normalizeMac canonicalAddress with
      | error exc =>
        rw [registryStep, DeviceRegistry.registerAlias, ha, hk] at hstep
        exact Option.some.inj hstep ▸ h
      | ok k =>
        rw [registryStep, DeviceRegistry.registerAlias_ok ha hk] at hstep
        rw [← Option.some.inj hstep]
        split
        · rename_i hkey
          exact h.set_alias hkey a
        · exact h

end Linked

/-! ### Looking up -/

variable {r : DeviceRegistry} {a k : Str}

theorem resolveAddress_ok {address : Str} (h : normalizeMac address = .ok a) :
    r.resolveAddress address = .ok (canonical r a) := by
  rw [DeviceRegistry.resolveAddress, h]
  rfl

/-- What an address finds is the session under the address that it resolves to. -/
theorem find_eq_get?_canonical (r : DeviceRegistry) (a : Str) :
    r.find a = r.sessions.get? (canonical r a) := by
  unfold canonical
  cases hkey : r.sessions.get? a with
  | some i => simp only [DeviceRegistry.find_of_key hkey, ne_eq, reduceCtorEq, not_false_eq_true,
      if_true, hkey]
  | none =>
    rw [DeviceRegistry.find_of_not_key hkey, if_neg (not_not_intro rfl)]
    cases r.aliases.get? a with
    | none => exact hkey.symm
    | some k => rfl

theorem get_eq_map_resolveAddress (r : DeviceRegistry) (address : Str) :
    r.get address = (r.resolveAddress address).map r.sessions.get? := by
  cases ha : normalizeMac address with
  | error exc => rw [DeviceRegistry.get, DeviceRegistry.resolveAddress, ha]; rfl
  | ok a => rw [DeviceRegistry.get_ok ha, resolveAddress_ok ha, find_eq_get?_canonical]; rfl

/-- An address resolves to a key or to itself. -/
theorem Linked.canonical_idem {c : BleCentral} (h : Linked c) (a : Str) :
    canonical c.registry (canonical c.registry a) = canonical c.registry a := by
  by_cases ha : c.registry.sessions.get? a = none
  · cases hal : c.registry.aliases.get? a with
    | none =>
      have hself : canonical c.registry a = a := by
        rw [canonical, if_neg (not_not_intro ha), hal]
        rfl
      rw [hself, hself]
    | some k =>
      have hk : canonical c.registry a = k := by
        rw [canonical, if_neg (not_not_intro ha), hal]
        rfl
      rw [hk, canonical, if_pos (h.alias_key hal)]
  · have hself : canonical c.registry a = a := if_pos ha
    rw [hself, hself]

theorem Linked.normal_canonical {c : BleCentral} (h : Linked c) (ha : normalizeMac a = .ok a) :
    normalizeMac (canonical c.registry a) = .ok (canonical c.registry a) := by
  unfold canonical
  split
  · exact ha
  · cases hal : c.registry.aliases.get? a with
    | none => exact ha
    | some k => exact h.key_normal (h.alias_key hal)

/-! ### Listing -/

theorem mem_aliasesOf : a ∈ Hub.aliasesOf r k ↔ r.aliases.get? a = some k := by
  rw [Hub.aliasesOf, List.mem_mergeSort, Dict.get?_eq_some]
  simp

theorem nodup_aliasesOf (r : DeviceRegistry) (k : Str) : (Hub.aliasesOf r k).Nodup := by
  rw [Hub.aliasesOf, (List.mergeSort_perm _ _).nodup_iff]
  exact (List.filter_sublist.map Prod.fst).nodup r.aliases.nodup

/-- One row for each session, in order. -/
theorem Linked.listStatus_rows (hub : Hub) (h : Linked hub.daemon.central) (links : Links) :
    List.Forall₂ (fun entry row => ∃ session, hub.daemon.central.sessions[entry.2]? = some session ∧
      row = Hub.statusRow hub.registry links entry session)
      hub.registry.sessions.entries (hub.listStatus links) := by
  have hrefs : ∀ entry ∈ hub.registry.sessions.entries,
      ∃ session, hub.daemon.central.sessions[entry.2]? = some session := fun entry hentry =>
    ⟨_, List.getElem?_eq_getElem (h.ref_lt (Dict.get?_eq_some.mpr hentry))⟩
  rw [Hub.listStatus]
  generalize hub.registry.sessions.entries = entries at hrefs
  induction entries with
  | nil => exact .nil
  | cons entry entries ih =>
    obtain ⟨session, hsession⟩ := hrefs entry List.mem_cons_self
    have hrow : (hub.session entry.2).map (Hub.statusRow hub.registry links entry) =
        some (Hub.statusRow hub.registry links entry session) := by
      rw [Hub.session, hsession]
      rfl
    simp only [List.filterMap_cons, hrow]
    exact .cons ⟨session, hsession, rfl⟩
      (ih fun entry hentry => hrefs entry (List.mem_cons_of_mem _ hentry))

/-- The aliases of all rows are those of the keys, one key after the other. -/
theorem flatMap_aliases {c : BleCentral} {links : Links} {entries : List (Str × SessionRef)}
    {rows : List DeviceRow} (h : List.Forall₂ (fun entry row => ∃ session,
      c.sessions[entry.2]? = some session ∧ row = Hub.statusRow r links entry session) entries rows) :
    (rows.flatMap fun row => row.aliases.getD []) =
      (entries.map Prod.fst).flatMap (Hub.aliasesOf r) := by
  induction h with
  | nil => rfl
  | cons hrow _ ih =>
    obtain ⟨session, _, rfl⟩ := hrow
    rw [List.map_cons, List.flatMap_cons, List.flatMap_cons, ih]
    rfl

/-- Keys have their own aliases, so none is listed under two keys. -/
theorem Linked.count_aliases {c : BleCentral} (h : Linked c) (a : Str) :
    ((c.registry.sessions.entries.map Prod.fst).flatMap (Hub.aliasesOf c.registry)).count a =
      if c.registry.aliases.get? a = none then 0 else 1 := by
  have hnodup : ((c.registry.sessions.entries.map Prod.fst).flatMap
      (Hub.aliasesOf c.registry)).Nodup := by
    refine List.nodup_flatMap.mpr ⟨fun k _ => nodup_aliasesOf c.registry k, ?_⟩
    refine c.registry.sessions.nodup.imp fun {k j} hkj b hk hj => hkj ?_
    rw [mem_aliasesOf] at hk hj
    exact Option.some.inj (hk.symm.trans hj)
  rw [hnodup.count]
  cases hal : c.registry.aliases.get? a with
  | none =>
    refine if_neg fun hmem => ?_
    obtain ⟨k, _, hk⟩ := List.mem_flatMap.mp hmem
    rw [mem_aliasesOf, hal] at hk
    cases hk
  | some k =>
    rw [if_neg (Option.some_ne_none k)]
    refine if_pos (List.mem_flatMap.mpr ⟨k, ?_, mem_aliasesOf.mpr hal⟩)
    obtain ⟨i, hi⟩ := Option.ne_none_iff_exists'.mp (h.alias_key hal)
    exact List.mem_map.mpr ⟨_, Dict.get?_eq_some.mp hi, rfl⟩

/-- CORRECT: aliases are consistent in every registry that calls of `add` and `register_alias` lead
    to. Aliases point at keys; an address finds the session that is stored under the address it
    resolves to, and nothing exactly if that is no key; resolving twice is resolving once; and the
    status list has a row for every session, in order, with the aliases that point at its key, so
    every alias is in exactly one row. -/
theorem aliases_consistent (calls : List RegistryCall) (c : BleCentral)
    (hrun : Machine.run registryStep calls BleCentral.empty = some c) :
    (∀ a k, c.registry.aliases.get? a = some k → c.registry.sessions.get? k ≠ none) ∧
      (∀ address, c.registry.get address =
        (c.registry.resolveAddress address).map c.registry.sessions.get?) ∧
      (∀ address, c.registry.get address = .ok none ↔
        ∃ k, c.registry.resolveAddress address = .ok k ∧ c.registry.sessions.get? k = none) ∧
      (∀ address k, c.registry.resolveAddress address = .ok k →
        c.registry.resolveAddress k = .ok k) ∧
      ∀ (hub : Hub) (links : Links), hub.daemon.central = c →
        List.Forall₂ (fun entry row =>
          (∃ session, c.sessions[entry.2]? = some session ∧
            row = Hub.statusRow c.registry links entry session) ∧
          ∀ a, (row.aliases.getD []).count a =
            if c.registry.aliases.get? a = some entry.1 then 1 else 0)
          c.registry.sessions.entries (hub.listStatus links) ∧
        ∀ a, ((hub.listStatus links).flatMap fun row => row.aliases.getD []).count a =
          if c.registry.aliases.get? a = none then 0 else 1 := by
  have h : Linked c := Machine.run_invariant Linked.step Linked.empty hrun
  refine ⟨fun a k => h.alias_key, get_eq_map_resolveAddress c.registry, fun address => ?_,
    fun address k hk => ?_, fun hub links hhub => ?_⟩
  · rw [get_eq_map_resolveAddress]
    cases c.registry.resolveAddress address with
    | error exc => simp [Except.map]
    | ok k => simp [Except.map]
  · cases ha : normalizeMac address with
    | error exc =>
      rw [DeviceRegistry.resolveAddress, ha] at hk
      cases hk
    | ok a =>
      rw [resolveAddress_ok ha, Except.ok.injEq] at hk
      subst hk
      rw [resolveAddress_ok (h.normal_canonical (normalizeMac_idem ha)), h.canonical_idem]
  · subst hhub
    have hrows := h.listStatus_rows hub links
    constructor
    · refine hrows.imp fun entry row hrow => ⟨hrow, ?_⟩
      obtain ⟨session, _, rfl⟩ := hrow
      intro a
      rw [Hub.statusRow, Option.getD_some, (nodup_aliasesOf _ _).count]
      simp only [mem_aliasesOf, Hub.registry]
    · intro a
      rw [flatMap_aliases hrows]
      exact h.count_aliases a

/-- A node reports under two MACs, one of which gets a session of its own later. -/
def twoAliases : List RegistryCall :=
  [.make { target := .text [], address := str "11:22:33:44:55:66", name := [] }, .add 0,
    .registerAlias (str "AA:BB:CC:DD:EE:01") (str "112233445566"),
    .registerAlias (str "AA:BB:CC:DD:EE:02") (str "112233445566"),
    .make { target := .text [], address := str "AA:BB:CC:DD:EE:01", name := [] }, .add 1]

/-- The second MAC still finds the node's session. -/
theorem twoAliases_consistent : ∃ c, Machine.run registryStep twoAliases BleCentral.empty = some c ∧
    c.registry.get (str "aabbccddee02") = .ok (some 0) ∧
    c.registry.get (str "aabbccddee01") = .ok (some 1) ∧
    c.registry.get (str "aabbccddee02") =
      (c.registry.resolveAddress (str "aabbccddee02")).map c.registry.sessions.get? := by
  have hstate : (Machine.run registryStep twoAliases BleCentral.empty).map (fun c =>
      decide (c.registry.get (str "aabbccddee02") = .ok (some 0) ∧
        c.registry.get (str "aabbccddee01") = .ok (some 1))) = some true := by decide +kernel
  obtain ⟨c, hrun, hfacts⟩ := Option.map_eq_some_iff.mp hstate
  obtain ⟨hsecond, hfirst⟩ := of_decide_eq_true hfacts
  exact ⟨c, hrun, hsecond, hfirst, (aliases_consistent twoAliases c hrun).2.1 _⟩

end SlimHub
