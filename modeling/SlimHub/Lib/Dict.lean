import Mathlib

/-! Insertion-ordered dictionaries.

    The entries stand in the order in which their keys were first set; setting a key that is there
    replaces its value in place. That no key occurs twice is a field, so the first entry found
    under a key is the only one. -/

/-- A dictionary with keys in `κ`, in insertion order. -/
structure Dict (κ β : Type*) where
  entries : List (κ × β)
  nodup : (entries.map Prod.fst).Nodup
  deriving DecidableEq

namespace Dict

variable {κ β : Type*}

def keys (d : Dict κ β) : List κ := d.entries.map Prod.fst

def empty : Dict κ β := ⟨[], List.nodup_nil⟩

variable [DecidableEq κ]

/-- The value under a key, scanning from the front. -/
def find (k : κ) : List (κ × β) → Option β
  | [] => none
  | (j, v) :: es => if j = k then some v else find k es

def get? (d : Dict κ β) (k : κ) : Option β := find k d.entries

/-- Replace the value under a key, or append a new entry. -/
def put (k : κ) (v : β) : List (κ × β) → List (κ × β)
  | [] => [(k, v)]
  | (j, w) :: es => if j = k then (j, v) :: es else (j, w) :: put k v es

theorem map_fst_put (k : κ) (v : β) : ∀ es : List (κ × β), (put k v es).map Prod.fst =
    if k ∈ es.map Prod.fst then es.map Prod.fst else es.map Prod.fst ++ [k]
  | [] => by simp [put]
  | (j, w) :: es => by
    rcases eq_or_ne j k with h | h
    · simp [put, h]
    · simp only [put, if_neg h, List.map_cons, map_fst_put k v es, List.mem_cons, h.symm, false_or]
      split <;> rfl

theorem nodup_put {k : κ} {v : β} {es : List (κ × β)} (h : (es.map Prod.fst).Nodup) :
    ((put k v es).map Prod.fst).Nodup := by
  rw [map_fst_put]
  split
  · exact h
  · rename_i hk
    exact List.nodup_append.mpr ⟨h, List.nodup_singleton k, fun a ha b hb => by
      rintro rfl
      exact hk (List.mem_singleton.mp hb ▸ ha)⟩

/-- `d[k] = v`. -/
def set (d : Dict κ β) (k : κ) (v : β) : Dict κ β := ⟨put k v d.entries, nodup_put d.nodup⟩

theorem find_put (k j : κ) (v : β) : ∀ es : List (κ × β),
    find j (put k v es) = if j = k then some v else find j es
  | [] => by
    rcases eq_or_ne j k with h | h
    · simp [put, find, h]
    · simp [put, find, h, h.symm]
  | (i, w) :: es => by
    rcases eq_or_ne i k with hik | hik
    · rcases eq_or_ne j k with h | h
      · simp [put, find, hik, h]
      · simp [put, find, hik, h, h.symm]
    · simp only [put, if_neg hik, find, find_put k j v es]
      rcases eq_or_ne j k with h | h
      · simp [h, hik]
      · simp [h]

/-- Reading after writing. -/
theorem get?_set (d : Dict κ β) (k j : κ) (v : β) :
    (d.set k v).get? j = if j = k then some v else d.get? j :=
  find_put k j v d.entries

@[simp] theorem get?_set_self (d : Dict κ β) (k : κ) (v : β) : (d.set k v).get? k = some v := by
  rw [get?_set, if_pos rfl]

theorem get?_set_of_ne (d : Dict κ β) {k j : κ} (h : j ≠ k) (v : β) :
    (d.set k v).get? j = d.get? j := by
  rw [get?_set, if_neg h]

theorem find_eq_some {k : κ} {v : β} : ∀ {es : List (κ × β)}, (es.map Prod.fst).Nodup →
    (find k es = some v ↔ (k, v) ∈ es)
  | [], _ => by simp [find]
  | (j, w) :: es, h => by
    obtain ⟨hj, hes⟩ := List.nodup_cons.mp h
    rcases eq_or_ne j k with rfl | hjk
    · have hno : (j, v) ∉ es := fun hmem => hj (List.mem_map.mpr ⟨(j, v), hmem, rfl⟩)
      simp [find, hno, eq_comm]
    · simp [find, hjk, hjk.symm, find_eq_some hes]

theorem get?_eq_some {d : Dict κ β} {k : κ} {v : β} : d.get? k = some v ↔ (k, v) ∈ d.entries :=
  find_eq_some d.nodup

theorem mem_keys {d : Dict κ β} {k : κ} : k ∈ d.keys ↔ d.get? k ≠ none := by
  rw [keys, List.mem_map, Option.ne_none_iff_exists']
  constructor
  · rintro ⟨entry, hentry, rfl⟩
    exact ⟨entry.2, get?_eq_some.mpr hentry⟩
  · rintro ⟨v, hv⟩
    exact ⟨(k, v), get?_eq_some.mp hv, rfl⟩

theorem put_of_find_eq_none {k : κ} (v : β) : ∀ {es : List (κ × β)}, find k es = none →
    put k v es = es ++ [(k, v)]
  | [], _ => rfl
  | (j, w) :: es, h => by
    rcases eq_or_ne j k with hj | hj
    · simp [find, hj] at h
    · rw [find, if_neg hj] at h
      rw [put, if_neg hj, put_of_find_eq_none v h]
      rfl

/-- A new key goes to the end. -/
theorem entries_set {d : Dict κ β} {k : κ} (h : d.get? k = none) (v : β) :
    (d.set k v).entries = d.entries ++ [(k, v)] :=
  put_of_find_eq_none v h

theorem put_eq_self {k : κ} {v : β} : ∀ {es : List (κ × β)}, put k v es = es ↔ find k es = some v
  | [] => by simp [put, find]
  | (j, w) :: es => by
    have ih : put k v es = es ↔ find k es = some v := put_eq_self
    rcases eq_or_ne j k with h | h
    · simp [put, find, h, eq_comm]
    · simp [put, find, h, ih]

/-- Writing what is there already. -/
theorem set_eq_self {d : Dict κ β} {k : κ} {v : β} : d.set k v = d ↔ d.get? k = some v := by
  rw [get?, ← put_eq_self, set]
  exact ⟨fun h => congrArg entries h, fun h => by cases d; simpa using h⟩

@[simp] theorem get?_empty (k : κ) : (empty : Dict κ β).get? k = none := rfl

end Dict
