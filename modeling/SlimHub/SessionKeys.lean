import SlimHub.Routing

/-! Whose session is whose.

    A session should stay the session of the address it was made for: its key is its address, and
    whatever is ensured has a session of its own. `ensure_target` finds sessions under aliases too
    and retargets them, so this holds along a run exactly as long as no address that is known only
    as an alias is ensured. -/

namespace SlimHub
open Text Nus Ble Machine

/-- Every session's address is the key it is stored under. -/
def Keyed (c : BleCentral) : Prop :=
  ∀ {k i s}, c.registry.sessions.get? k = some i → c.sessions[i]? = some s →
    normalizeMac s.address = .ok k

/-- Sessions stay under their keys and at their addresses. -/
structure Stays (c c' : BleCentral) : Prop where
  keys : ∀ {k i}, c.registry.sessions.get? k = some i → c'.registry.sessions.get? k = some i
  address : ∀ {i : SessionRef} {s s' : DeviceSession}, c.sessions[i]? = some s → c'.sessions[i]? = some s' →
    s'.address = s.address

variable {c c' : BleCentral} {a : Str}

theorem Stays.of_queuesOnly (h : QueuesOnly c c') : Stays c c' where
  keys hk := by rw [h.registry]; exact hk
  address hs hs' := by
    obtain ⟨s₀, hs₀, haddr⟩ := h.getElem? hs'
    obtain rfl := Option.some.inj (hs.symm.trans hs₀)
    exact haddr.symm

theorem Keyed.of_queuesOnly (h : QueuesOnly c c') (hkey : Keyed c) : Keyed c' := by
  intro k i s hk hs
  obtain ⟨s₀, hs₀, haddr⟩ := h.getElem? hs
  rw [h.registry] at hk
  rw [← haddr]
  exact hkey hk hs₀

/-! ### The central -/

/-- A new session, stored under its address. -/
theorem keyed_add (session : DeviceSession) (h : Tables c) (hkey : Keyed c)
    (hk : c.registry.sessions.get? a = none) (hal : c.registry.aliases.get? a = none)
    (hnorm : normalizeMac session.address = .ok a) :
    let c' : BleCentral := ⟨c.sessions ++ [session],
      { c.registry with sessions := c.registry.sessions.set a c.sessions.length }⟩
    Keyed c' ∧ Stays c c' := by
  intro c'
  refine ⟨?_, ⟨(extends_set_session hk hal _).keys, ?_⟩⟩
  · intro k i s hki hs
    simp only [c', Dict.get?_set] at hki hs
    split at hki
    · rename_i hka
      obtain rfl := Option.some.inj hki
      rw [List.getElem?_concat_length, Option.some.injEq] at hs
      rw [← hs, hka]
      exact hnorm
    · rw [List.getElem?_append_left (h.ref_lt hki)] at hs
      exact hkey hki hs
  · intro i s s' hs hs'
    obtain ⟨hi, _⟩ := List.getElem?_eq_some_iff.mp hs
    rw [List.getElem?_append_left hi] at hs'
    obtain rfl := Option.some.inj (hs.symm.trans hs')
    rfl

/-- A change to one session that leaves it its address. -/
theorem keyed_modify {f : DeviceSession → DeviceSession} {j : SessionRef} (hkey : Keyed c)
    (hf : ∀ {s}, c.sessions[j]? = some s → (f s).address = s.address) :
    Keyed { c with sessions := c.sessions.modify j f } ∧
      Stays c { c with sessions := c.sessions.modify j f } := by
  refine ⟨?_, ⟨fun hk => hk, ?_⟩⟩
  · intro k i s hki hs
    simp only [List.getElem?_modify] at hs
    obtain ⟨s₀, hs₀, rfl⟩ := Option.map_eq_some_iff.mp hs
    rcases eq_or_ne j i with rfl | hji
    · rw [if_pos rfl, hf hs₀]
      exact hkey hki hs₀
    · rw [if_neg hji]
      exact hkey hki hs₀
  · intro i s s' hs hs'
    simp only [List.getElem?_modify, hs, Option.map_eq_map, Option.map_some,
      Option.some.injEq] at hs'
    subst hs'
    rcases eq_or_ne j i with rfl | hji
    · rw [if_pos rfl, hf hs]
    · rw [if_neg hji]

/-- Ensuring an address that is not known only as an alias: it has a session of its own then, and
    no session is retargeted. -/
theorem ensureTarget_keyed (target : Target) (now : ℚ) (h : Tables c) (hkey : Keyed c)
    (hnorm : normalizeMac target.addressText = .ok a) (hno : ¬AliasOnly c.registry a) :
    Keyed (c.ensureTarget target now).1 ∧ Stays c (c.ensureTarget target now).1 ∧
      (c.ensureTarget target now).1.registry.sessions.get? a ≠ none := by
  cases hfind : c.registry.find a with
  | none =>
    obtain ⟨hk, hal⟩ := h.find_eq_none.mp hfind
    rw [BleCentral.ensureTarget_new hnorm hfind]
    obtain ⟨hkey', hstays⟩ := keyed_add
      (DeviceSession.start { target, address := a, name := target.nameOr [] }) h hkey hk hal
      (by rw [DeviceSession.start_address]; exact normalizeMac_idem hnorm)
    exact ⟨hkey', hstays, by simp⟩
  | some j =>
    have hown : c.registry.sessions.get? a = some j := by
      cases hka : c.registry.sessions.get? a with
      | some l => rw [← hfind, DeviceRegistry.find_of_key hka]
      | none =>
        have hal : c.registry.aliases.get? a = none := by
          by_contra hal
          exact hno ⟨hka, hal⟩
        rw [h.find_eq_none.mpr ⟨hka, hal⟩] at hfind
        cases hfind
    -- the session found is the one under `a` itself, and gets the address it has
    have hsame : ∀ {s}, c.sessions[j]? = some s →
        (s.updateTarget target now).1.address = s.address := by
      intro s hs
      obtain ⟨k, _, _, hs'⟩ := h.stored hs
      rw [(DeviceSession.updateTarget_ok s now hnorm).2.1]
      exact Except.ok.inj ((hkey hown hs).symm.trans hs')
    rw [BleCentral.ensureTarget_found hnorm hfind]
    obtain ⟨hkey', hstays⟩ := keyed_modify hkey hsame
    exact ⟨hkey', hstays, by rw [hown]; exact Option.some_ne_none j⟩

/-- Ensuring an address known only as an alias retargets the session it is an alias of. -/
theorem not_keyed_ensureTarget (target : Target) (now : ℚ) (h : Tables c)
    (hnorm : normalizeMac target.addressText = .ok a) (hal : AliasOnly c.registry a) :
    ¬Keyed (c.ensureTarget target now).1 := by
  obtain ⟨hnone, hsome⟩ := hal
  obtain ⟨k, hk⟩ := Option.ne_none_iff_exists'.mp hsome
  obtain ⟨i, hi⟩ := Option.ne_none_iff_exists'.mp (h.alias_key hk)
  have hfind : c.registry.find a = some i := by rw [DeviceRegistry.find_of_not_key hnone, hk]; exact hi
  rw [BleCentral.ensureTarget_found hnorm hfind]
  intro hkey
  obtain ⟨s, hs⟩ : ∃ s, c.sessions[i]? = some s := ⟨_, List.getElem?_eq_getElem (h.ref_lt hi)⟩
  have hbad := hkey (k := k) (i := i) hi (by simp only [List.getElem?_modify, hs]; rfl)
  simp only [if_true, (DeviceSession.updateTarget_ok _ now hnorm).2.1] at hbad
  obtain rfl := Except.ok.inj ((normalizeMac_idem hnorm).symm.trans hbad)
  rw [hi] at hnone
  cases hnone

/-! ### Runs -/

/-- The address that an action ensures. -/
def ensured : SlimHubDaemon.Action → Option Str
  | .ensureTarget target _ => (normalizeMac target.addressText).toOption
  | .ensureAddress address _ => (normalizeMac address).toOption
  | _ => none

/-- After a step every session's key is its address, the address that was ensured has a session of
    its own, and no session was moved or retargeted. -/
structure Kept (d : SlimHubDaemon) (act : SlimHubDaemon.Action) (d' : SlimHubDaemon) : Prop where
  keyed : Keyed d'.central
  own : ∀ {a}, ensured act = some a → d'.central.registry.sessions.get? a ≠ none
  stays : Stays d.central d'.central

/-- The action ensures no address that is known only as an alias. -/
def SparesAliases (d : SlimHubDaemon) (act : SlimHubDaemon.Action) : Prop :=
  ∀ a, ensured act = some a → ¬AliasOnly d.central.registry a

/-- Ensuring a valid address is `ensure_target` on a target of that address. -/
theorem step_of_ensured {d d' : SlimHubDaemon} {act : SlimHubDaemon.Action}
    (ha : ensured act = some a) (hstep : SlimHubDaemon.step act d = some d') :
    ∃ target now, normalizeMac target.addressText = .ok a ∧
      d'.central = (d.central.ensureTarget target now).1 := by
  cases act with
  | ensureTarget target now =>
    obtain rfl := Option.some.inj hstep
    cases hnorm : normalizeMac target.addressText with
    | error exc => rw [ensured, hnorm] at ha; cases ha
    | ok b =>
      rw [ensured, hnorm] at ha
      obtain rfl := Option.some.inj ha
      exact ⟨target, now, hnorm, rfl⟩
  | ensureAddress address now =>
    obtain rfl := Option.some.inj hstep
    cases hnorm : normalizeMac address with
    | error exc => rw [ensured, hnorm] at ha; cases ha
    | ok b =>
      rw [ensured, hnorm] at ha
      obtain rfl := Option.some.inj ha
      exact ⟨.text b, now, normalizeMac_idem hnorm,
        congrArg Prod.fst (BleCentral.ensureAddress_eq hnorm)⟩
  | notify session data => cases ha
  | handle config now logged => cases ha

/-- Any other step may record an alias and fill command queues. -/
theorem step_of_not_ensured {d d' : SlimHubDaemon} {act : SlimHubDaemon.Action} (h : Sound d)
    (ha : ensured act = none) (hstep : SlimHubDaemon.step act d = some d') :
    ∃ registry, registry.sessions = d.central.registry.sessions ∧
      QueuesOnly { d.central with registry } d'.central := by
  cases act with
  | ensureTarget target now =>
    obtain rfl := Option.some.inj hstep
    cases hnorm : normalizeMac target.addressText with
    | ok b => rw [ensured, hnorm] at ha; cases ha
    | error exc =>
      simp only [BleCentral.ensureTarget_invalid hnorm]
      exact ⟨_, rfl, QueuesOnly.refl _⟩
  | ensureAddress address now =>
    obtain rfl := Option.some.inj hstep
    cases hnorm : normalizeMac address with
    | ok b => rw [ensured, hnorm] at ha; cases ha
    | error exc =>
      simp only [BleCentral.ensureAddress, hnorm]
      exact ⟨_, rfl, QueuesOnly.refl _⟩
  | notify session data =>
    obtain ⟨s, _, rfl | ⟨frame, _, rfl⟩⟩ := SlimHubDaemon.step_notify hstep <;>
      exact ⟨_, rfl, QueuesOnly.refl _⟩
  | handle config now logged =>
    obtain ⟨task, rest, htasks, rfl⟩ := SlimHubDaemon.step_handle hstep
    obtain ⟨hmac, hsource, _⟩ := h.task task (htasks ▸ List.mem_cons_self)
    obtain ⟨_, hq, _⟩ := handleFrame_spec { d with frameTasks := rest } config now logged hmac
      hsource
    exact ⟨_, aliased_sessions _ _ _, hq⟩

/-- One step from a state in which keys are addresses. -/
theorem kept_step {d d' : SlimHubDaemon} {act : SlimHubDaemon.Action} (h : Sound d)
    (hkey : Keyed d.central) (hspare : SparesAliases d act)
    (hstep : SlimHubDaemon.step act d = some d') : Kept d act d' := by
  cases ha : ensured act with
  | some a =>
    obtain ⟨target, now, hnorm, hcentral⟩ := step_of_ensured ha hstep
    obtain ⟨hkey', hstays, hown⟩ :=
      ensureTarget_keyed target now h.tables hkey hnorm (hspare a ha)
    rw [← hcentral] at hkey' hstays hown
    refine ⟨hkey', fun hb => ?_, hstays⟩
    obtain rfl := Option.some.inj (ha.symm.trans hb)
    exact hown
  | none =>
    obtain ⟨registry, hkeys, hq⟩ := step_of_not_ensured h ha hstep
    have hkey' : Keyed { d.central with registry } := by
      intro k i s hk hs
      rw [hkeys] at hk
      exact hkey hk hs
    have hstays := Stays.of_queuesOnly hq
    refine ⟨hkey'.of_queuesOnly hq, fun hb => (by cases ha.symm.trans hb), fun hk => ?_,
      hstays.address⟩
    exact hstays.keys (by rw [hkeys]; exact hk)

/-- A step that leaves every session at its key ensured no address known only as an alias. -/
theorem sparesAliases_of_keyed {d d' : SlimHubDaemon} {act : SlimHubDaemon.Action} (h : Sound d)
    (hstep : SlimHubDaemon.step act d = some d') (hkey : Keyed d'.central) :
    SparesAliases d act := by
  rintro a ha hal
  obtain ⟨target, now, hnorm, hcentral⟩ := step_of_ensured ha hstep
  rw [hcentral] at hkey
  exact not_keyed_ensureTarget target now h.tables hnorm hal hkey

theorem Keyed.empty : Keyed SlimHubDaemon.empty.central := by
  intro k i s hk
  simp [SlimHubDaemon.empty, BleCentral.empty, DeviceRegistry.empty] at hk

/-- CORRECT: along a run, keys stay the addresses of their sessions and whatever is ensured has a
    session of its own exactly when no address known only as an alias is ensured. -/
theorem session_keys_kept_iff (as : List SlimHubDaemon.Action) :
    Along SlimHubDaemon.step Kept SlimHubDaemon.empty as ↔
      Along SlimHubDaemon.step (fun d act _ => SparesAliases d act) SlimHubDaemon.empty as := by
  constructor
  · exact along_of_step (fun _ _ _ (h : Sound _) hkept hstep =>
      ⟨h.step hstep, sparesAliases_of_keyed h hstep hkept.keyed⟩) Sound.empty
  · refine along_of_step (fun d act d' (h : Sound d ∧ Keyed d.central) hspare hstep => ?_)
      ⟨Sound.empty, Keyed.empty⟩
    have hkept := kept_step h.1 h.2 hspare hstep
    exact ⟨⟨h.1.step hstep, hkept.keyed⟩, hkept⟩

/-- A scan finds a node under its BLE address, and a frame of it makes its MAC an alias. -/
def discoveredNode : List SlimHubDaemon.Action :=
  [.ensureTarget (.device (str "11:22:33:44:55:66") (some defaultDeviceName)) 0,
    .notify 0 enterFrame, .handle (.ok { address := str "AA:BB:CC:DD:EE:FF" }) 0 (.ok ())]

/-- A connect request for the MAC then retargets the node's session to it. -/
theorem connect_by_alias_retargets :
    ¬Along SlimHubDaemon.step Kept SlimHubDaemon.empty
      (discoveredNode ++ [.ensureAddress (str "AA:BB:CC:DD:EE:FF") 0]) := by
  intro h
  obtain ⟨d, hd⟩ : ∃ d, run SlimHubDaemon.step discoveredNode SlimHubDaemon.empty = some d :=
    Option.isSome_iff_exists.mp (by decide)
  have hfacts : (run SlimHubDaemon.step discoveredNode SlimHubDaemon.empty).map
      (fun d => decide (AliasOnly d.central.registry (str "AA:BB:CC:DD:EE:FF"))) = some true := by
    decide
  rw [hd, Option.map_some, Option.some.injEq, decide_eq_true_eq] at hfacts
  have hkept := (h.of_append hd _ rfl).1
  have hspare : SparesAliases d (.ensureAddress (str "AA:BB:CC:DD:EE:FF") 0) :=
    sparesAliases_of_keyed (Sound.run hd) rfl hkept.keyed
  exact hspare _ (by decide) hfacts

end SlimHub
