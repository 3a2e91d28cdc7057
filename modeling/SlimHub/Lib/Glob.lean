import SlimHub.Lib.Files

/-! Finding files by a pattern for each level.

        glob dir [p₁, p₂, …]      dir / n₁ / n₂ / …   where p₁ accepts n₁, p₂ accepts n₂, …

    A pattern looks at one name, so a search goes exactly as deep as it has patterns, and every
    level but the last must be a folder. -/

namespace Files
open Text

/-- `*`, a name, or `*` with a suffix. -/
inductive Pattern where
  | any
  | name (s : Str)
  | suffix (s : Str)
  deriving DecidableEq

def Pattern.accepts : Pattern → Str → Bool
  | .any, _ => true
  | .name s, t => t = s
  | .suffix s, t => s.isSuffixOf t

/-- The names in a folder. -/
def children (fs : FS) (dir : Path) : List Str :=
  fs.nodes.keys.filterMap fun path => if path.dropLast = dir then path.getLast? else none

/-- `dir.glob("p₁/p₂/…")`. -/
def glob (fs : FS) : Path → List Pattern → List Path
  | dir, [] => [dir]
  | dir, p :: ps =>
    if fs.node? dir = some .dir then
      ((children fs dir).filter p.accepts).flatMap fun name => glob fs (dir ++ [name]) ps
    else []

theorem mem_children {fs : FS} {dir : Path} {name : Str} :
    name ∈ children fs dir ↔ fs.node? (dir ++ [name]) ≠ none := by
  have hne : dir ++ [name] ≠ [] := by simp
  have hkeys : dir ++ [name] ∈ fs.nodes.keys ↔ fs.nodes.get? (dir ++ [name]) ≠ none := by
    rw [Dict.keys, List.mem_map, Option.ne_none_iff_exists']
    constructor
    · rintro ⟨⟨path, node⟩, hmem, rfl⟩
      exact ⟨node, Dict.get?_eq_some.mpr hmem⟩
    · rintro ⟨node, hnode⟩
      exact ⟨(_, node), Dict.get?_eq_some.mp hnode, rfl⟩
  rw [FS.node?, if_neg hne, ← hkeys, children, List.mem_filterMap]
  constructor
  · rintro ⟨path, hmem, hname⟩
    split at hname
    · rename_i hdir
      rw [← hdir, List.dropLast_append_getLast? name hname]
      exact hmem
    · cases hname
  · intro hmem
    exact ⟨_, hmem, by simp⟩

/-- What a search finds lies as deep as it has patterns. -/
theorem of_mem_glob {fs : FS} {dir path : Path} {ps : List Pattern} (h : path ∈ glob fs dir ps) :
    ∃ names, path = dir ++ names ∧ List.Forall₂ (fun p name => p.accepts name = true) ps names := by
  induction ps generalizing dir with
  | nil => exact ⟨[], by rw [List.mem_singleton.mp h, List.append_nil], .nil⟩
  | cons p ps ih =>
    rw [glob] at h
    split at h
    · obtain ⟨name, hname, hpath⟩ := List.mem_flatMap.mp h
      obtain ⟨names, rfl, hnames⟩ := ih hpath
      exact ⟨name :: names, List.append_assoc _ _ _, .cons (List.mem_filter.mp hname).2 hnames⟩
    · cases h

/-- What lies that deep, below folders, is found. -/
theorem mem_glob {fs : FS} {dir names : Path} {ps : List Pattern}
    (h : List.Forall₂ (fun p name => p.accepts name = true) ps names)
    (hthere : fs.node? (dir ++ names) ≠ none)
    (hdirs : ∀ between, dir <+: between → between <+: dir ++ names → between ≠ dir ++ names →
      fs.node? between = some .dir) : dir ++ names ∈ glob fs dir ps := by
  induction h generalizing dir with
  | nil => exact List.mem_singleton.mpr (List.append_nil dir)
  | @cons p name ps names hp _ ih =>
    have hassoc : dir ++ name :: names = dir ++ [name] ++ names := List.append_cons dir name names
    have hnext : fs.node? (dir ++ [name]) ≠ none := by
      by_cases hnames : names = []
      · rwa [hnames] at hthere
      · rw [hdirs (dir ++ [name]) (List.prefix_append _ _) ⟨names, hassoc.symm⟩ fun heq => ?_]
        · exact Option.some_ne_none _
        · exact hnames (List.append_right_eq_self.mp (hassoc ▸ heq).symm)
    rw [glob, if_pos (hdirs dir List.prefix_rfl (List.prefix_append _ _) (by simp))]
    refine List.mem_flatMap.mpr ⟨name, List.mem_filter.mpr ⟨mem_children.mpr hnext, hp⟩, ?_⟩
    rw [hassoc] at hthere hdirs ⊢
    exact ih hthere fun between hbelow => hdirs between ((List.prefix_append _ _).trans hbelow)

end Files
