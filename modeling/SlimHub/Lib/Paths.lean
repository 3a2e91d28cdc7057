import SlimHub.Lib.Files

/-! Where paths lead.

        base / data / <text> / <text>      names go down, `..` goes up, a leading `/` starts anew

    A text that is joined to a path may hold any number of parts. `descend` walks relative parts
    below a base that is not known: it fails where the walk climbs out of the base, and there the
    base decides where the path leads. -/

namespace Files
open Text

/-! ### Names -/

/-- A text that names one file in a folder. -/
structure IsName (s : Str) : Prop where
  ne_nil : s ≠ []
  no_slash : slash ∉ s
  ne_dot : s ≠ str "."
  ne_dotdot : s ≠ str ".."

theorem IsName.parts {s : Str} (h : IsName s) : parts s = [s] := by
  rw [Files.parts, List.splitOn_eq_singleton h.no_slash, List.filter_cons_of_pos]
  · rfl
  · exact decide_eq_true ⟨h.ne_nil, h.ne_dot⟩

theorem IsName.join {s : Str} (h : IsName s) (base : Path) : join base s = base ++ [s] := by
  have hhead : s.head? ≠ some slash := fun heq => h.no_slash (List.mem_of_mem_head? heq)
  rw [Files.join, if_neg hhead, h.parts]

/-- Names that are joined follow each other. -/
theorem foldl_join {names : List Str} (h : ∀ s ∈ names, IsName s) (base : Path) :
    names.foldl join base = base ++ names := by
  induction names generalizing base with
  | nil => exact (List.append_nil base).symm
  | cons s names ih =>
    rw [List.foldl_cons, (h s List.mem_cons_self).join,
      ih fun t ht => h t (List.mem_cons_of_mem _ ht), List.append_assoc]
    rfl

/-- Names lead down. -/
theorem resolve_append_names {names : List Str} (h : ∀ s ∈ names, IsName s) (base : Path) :
    resolve (base ++ names) = resolve base ++ names := by
  induction names generalizing base with
  | nil => rw [List.append_nil, List.append_nil]
  | cons s names ih =>
    have hwalk : resolve (base ++ [s]) = resolve base ++ [s] := by
      rw [resolve, List.foldl_append]
      exact if_neg (h s List.mem_cons_self).ne_dotdot
    rw [List.append_cons base s names, ih fun t ht => h t (List.mem_cons_of_mem _ ht), hwalk,
      List.append_assoc]
    rfl

/-! ### Joining -/

/-- A text that a join starts from the root with. -/
def IsAbsolute (s : Str) : Prop := s.head? = some slash

instance : DecidablePred IsAbsolute := fun s => inferInstanceAs (Decidable (s.head? = some slash))

theorem join_of_absolute {s : Str} (h : IsAbsolute s) (base : Path) : join base s = parts s :=
  if_pos h

theorem join_of_relative {s : Str} (h : ¬IsAbsolute s) (base : Path) :
    join base s = base ++ parts s :=
  if_neg h

/-- A file strictly below a folder. -/
def Below (dir file : Path) : Prop := dir <+: file ∧ dir ≠ file

instance (dir file : Path) : Decidable (Below dir file) := inferInstanceAs (Decidable (_ ∧ _))

/-- Names other than the folder's own do not lead into it. -/
theorem below_append_iff {dir folder names : Path} {name : Str} (hnil : names ≠ [])
    (hname : name ∉ names) : Below (dir ++ [name]) (folder ++ names) ↔ dir ++ [name] <+: folder := by
  constructor
  · rintro ⟨⟨rest, hrest⟩, _⟩
    rcases List.append_eq_append_iff.mp hrest with ⟨more, hmore, _⟩ | ⟨more, hmore, hnames⟩
    · exact ⟨more, hmore.symm⟩
    · rcases List.eq_nil_or_concat more with rfl | ⟨init, last, rfl⟩
      · rw [List.append_nil] at hmore
        exact ⟨[], by rw [hmore, List.append_nil]⟩
      · rw [List.concat_eq_append, ← List.append_assoc] at hmore
        have hlast : name = last := (List.cons.inj (List.append_inj' hmore rfl).2).1
        exact absurd (by rw [hnames, hlast]; simp) hname
  · rintro ⟨rest, rfl⟩
    refine ⟨⟨rest ++ names, (List.append_assoc _ _ _).symm⟩, fun heq => hnil ?_⟩
    have hrest : rest ++ names = [] := List.append_right_eq_self.mp (List.append_assoc _ _ _ ▸ heq.symm)
    exact (List.append_eq_nil_iff.mp hrest).2

/-! ### Walks -/

theorem resolve_append (base rest : Path) : resolve (base ++ rest) = rest.foldl walk (resolve base) :=
  List.foldl_append

/-- A walk meets no names but those it starts from and those it is told. -/
theorem mem_foldl_walk {part : Str} {start rest : Path} (h : part ∈ rest.foldl walk start) :
    part ∈ start ∨ part ∈ rest := by
  induction rest generalizing start with
  | nil => exact .inl h
  | cons p rest ih =>
    rcases ih h with hstart | hrest
    · unfold walk at hstart
      split at hstart
      · exact .inl (List.mem_of_mem_dropLast hstart)
      · rcases List.mem_append.mp hstart with hstart | hp
        · exact .inl hstart
        · exact .inr (List.mem_singleton.mp hp ▸ List.mem_cons_self)
    · exact .inr (List.mem_cons_of_mem _ hrest)

/-- Relative parts walked below a base, from the place `here` below it; none where the walk climbs
    out of the base. -/
def descend (here : Path) : Path → Option Path
  | [] => some here
  | part :: rest =>
    if part = str ".." then if here = [] then none else descend here.dropLast rest
    else descend (here ++ [part]) rest

/-- A walk that stays below the base leads to the same place below every base. -/
theorem foldl_walk_of_descend {here rest there : Path} (h : descend here rest = some there)
    (base : Path) : rest.foldl walk (base ++ here) = base ++ there := by
  induction rest generalizing here with
  | nil => rw [Option.some.inj h, List.foldl_nil]
  | cons part rest ih =>
    rw [descend] at h
    rw [List.foldl_cons, walk]
    split at h
    · rename_i hup
      split at h
      · cases h
      · rename_i hne
        rw [if_pos hup, List.dropLast_append_of_ne_nil hne, ih h]
    · rename_i hdown
      rw [if_neg hdown, List.append_assoc, ih h]

/-- One that climbs out of a base does not find its name again, unless it is told the name. -/
theorem not_mem_of_descend {here rest : Path} {base : Str} (h : descend here rest = none)
    (hhere : base ∉ here) (hrest : base ∉ rest) : base ∉ rest.foldl walk ([base] ++ here) := by
  induction rest generalizing here with
  | nil => cases h
  | cons part rest ih =>
    obtain ⟨hpart, hrest⟩ := not_or.mp (List.mem_cons.not.mp hrest)
    rw [descend] at h
    rw [List.foldl_cons, walk]
    split at h
    · rename_i hup
      rw [if_pos hup]
      split at h
      · rename_i hnil
        intro hmem
        rcases mem_foldl_walk hmem with hmem | hmem
        · rw [hnil] at hmem
          cases hmem
        · exact hrest hmem
      · rename_i hne
        rw [List.dropLast_append_of_ne_nil hne]
        exact ih h (fun hmem => hhere (List.mem_of_mem_dropLast hmem)) hrest
    · rename_i hdown
      rw [if_neg hdown, List.append_assoc]
      refine ih h (fun hmem => ?_) hrest
      rcases List.mem_append.mp hmem with hmem | hmem
      · exact hhere hmem
      · exact hpart (List.mem_singleton.mp hmem)

/-- A name that is not among the parts. -/
def otherName (rest : Path) : Str := List.replicate (rest.flatten.length + 3) (chr 'x')

theorem isName_otherName (rest : Path) : IsName (otherName rest) where
  ne_nil := List.cons_ne_nil _ _
  no_slash h := absurd (List.eq_of_mem_replicate h) (by decide)
  ne_dot h := by
    have hlen := congrArg List.length h
    rw [otherName, List.length_replicate] at hlen
    cases hlen
  ne_dotdot h := by
    have hlen := congrArg List.length h
    rw [otherName, List.length_replicate] at hlen
    cases hlen

theorem otherName_not_mem (rest : Path) : otherName rest ∉ rest := by
  intro h
  have hle := (List.sublist_flatten_of_mem h).length_le
  rw [otherName, List.length_replicate] at hle
  omega

end Files
