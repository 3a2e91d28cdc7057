import SlimHub.Lib.Dict
import SlimHub.Lib.Text

/-! A file system as a program sees it.

    A path is the list of the parts of an absolute path, `.` and empty parts dropped and `..` kept;
    the tree is keyed by resolved paths. There are no symbolic links. Every system call may be
    refused: `refuses n` says whether the n-th call fails, and for a write how many bytes reach the
    file before. -/

namespace Files
open Text

abbrev Path := List Str

def slash : CodePoint := 0x2F

/-- The parts of a path text. -/
def parts (s : Str) : Path := (s.splitOn slash).filter fun p => p ≠ [] ∧ p ≠ str "."

/-- `base / segment`: an absolute segment replaces the base. -/
def join (base : Path) (segment : Str) : Path :=
  if segment.head? = some slash then parts segment else base ++ parts segment

/-- `path.parent`. -/
def parent (path : Path) : Path := path.dropLast

/-- One part walked from a resolved path. -/
def walk (start : Path) (part : Str) : Path :=
  if part = str ".." then start.dropLast else start ++ [part]

/-- Where a path leads. -/
def resolve (path : Path) : Path := path.foldl walk []

inductive Node where
  | dir
  | file (content : Bytes)
  deriving DecidableEq

/-- Why an operation fails: a NUL in the path (`ValueError`), a path that the file system encoding
    refuses (`UnicodeEncodeError`), or the operating system (`OSError`). -/
inductive Fault where
  | nul
  | encoding
  | os
  deriving DecidableEq

structure FS where
  nodes : Dict Path Node
  /-- The number of system calls made so far. -/
  calls : ℕ
  deriving DecidableEq

namespace FS

def empty : FS := ⟨Dict.empty, 0⟩

/-- What a resolved path holds. -/
def node? (fs : FS) (path : Path) : Option Node :=
  if path = [] then some .dir else fs.nodes.get? path

/-- What the file at a resolved path holds, if there is one. -/
def file? (fs : FS) (path : Path) : Option Bytes :=
  match fs.node? path with
  | some (.file content) => some content
  | _ => none

/-- The same, where a file that is not there counts as an empty one. -/
def content (fs : FS) (path : Path) : Bytes := (fs.file? path).getD []

end FS

/-- An operation on the file system. One that fails keeps what it did so far. -/
abbrev Op := ExceptT Fault (StateM FS)

/-- `os.fsencode` with `surrogateescape`, then the check for NUL. -/
def checkPath (path : Path) : Op Unit := do
  let bad (c : CodePoint) : Bool :=
    0xD800 ≤ c.val ∧ c.val ≤ 0xDFFF ∧ ¬(0xDC80 ≤ c.val ∧ c.val ≤ 0xDCFF)
  if path.any (·.any bad) then throw .encoding
  if path.any (·.any (·.val = 0)) then throw .nul

section
variable (refuses : ℕ → Option ℕ)

/-- One system call: counted, and refused or not. -/
def refusal : Op (Option ℕ) := do
  let n := (← get).calls
  modify fun fs => { fs with calls := n + 1 }
  return refuses n

def systemCall : Op Unit := do
  if (← refusal refuses).isSome then throw .os

def setNode (path : Path) (node : Node) : Op Unit :=
  modify fun fs => { fs with nodes := fs.nodes.set path node }

/-- `os.mkdir` on a resolved path whose parent is there; a directory that exists is fine. -/
def mkdirOne (path : Path) : Op Unit := do
  match (← get).node? path with
  | some .dir => return
  | some (.file _) => throw .os
  | none =>
    systemCall refuses
    setNode path .dir

/-- The directories along a path, made in turn. -/
def mkdirAlong (start : Path) : Path → Op Unit
  | [] => return
  | part :: rest => do
    mkdirOne refuses (walk start part)
    mkdirAlong (walk start part) rest

/-- `path.mkdir(parents=True, exist_ok=True)`. -/
def mkdirs (path : Path) : Op Unit := do
  checkPath path
  mkdirAlong refuses [] path

/-- `path.stat()`: what is there, if anything. -/
def stat (path : Path) : Op (Option Node) := do
  checkPath path
  systemCall refuses
  return (← get).node? (resolve path)

/-- `path.open("a")`: the file is there afterwards. -/
def openAppend (path : Path) : Op Unit := do
  checkPath path
  systemCall refuses
  match (← get).node? (resolve path) with
  | some .dir => throw .os
  | some (.file _) => return
  | none =>
    if (← get).node? (resolve path).dropLast = some .dir then setNode (resolve path) (.file [])
    else throw .os

/-- The bytes go to the end of an open file when it is closed. -/
def append (path : Path) (bytes : Bytes) : Op Unit := do
  match (← get).node? (resolve path) with
  | some (.file content) =>
    match ← refusal refuses with
    | none => setNode (resolve path) (.file (content ++ bytes))
    | some written =>
      setNode (resolve path) (.file (content ++ bytes.take written))
      throw .os
  | _ => throw .os

end

/-! ### What an operation leaves -/

section
variable {ε δ α β : Type}

/-- What holds of the outcome of an operation and of the files after it. -/
def After (op : ExceptT ε (StateM FS) α) (fs : FS) (post : Except ε α → FS → Prop) : Prop :=
  post (op.run fs).1 (op.run fs).2

variable {op op' : ExceptT ε (StateM FS) α} {fs : FS}

theorem run_bind (op : ExceptT ε (StateM FS) α) (f : α → ExceptT ε (StateM FS) β) (fs : FS) :
    (op >>= f).run fs = match op.run fs with
      | (.ok a, fs') => (f a).run fs'
      | (.error e, fs') => (.error e, fs') := by
  simp only [bind, ExceptT.bind, ExceptT.mk, StateT.bind, ExceptT.run]
  rcases (op fs) with ⟨_ | _, _⟩ <;> rfl

theorem after_bind {f : α → ExceptT ε (StateM FS) β} {post : Except ε β → FS → Prop} :
    After (op >>= f) fs post ↔ After op fs fun r fs' => match r with
      | .ok a => After (f a) fs' post
      | .error e => post (.error e) fs' := by
  unfold After
  rw [run_bind]
  rcases op.run fs with ⟨_ | _, _⟩ <;> rfl

theorem after_pure {a : α} {post : Except ε α → FS → Prop} :
    After (pure a) fs post ↔ post (.ok a) fs := Iff.rfl

theorem after_throw {e : ε} {post : Except ε α → FS → Prop} :
    After (throw e) fs post ↔ post (.error e) fs := Iff.rfl

/-- Reading the state goes on with it. -/
theorem after_get {f : FS → ExceptT ε (StateM FS) β} {post : Except ε β → FS → Prop} :
    After (get >>= f) fs post ↔ After (f fs) fs post := by
  rw [after_bind]
  rfl

theorem after_modify {f : FS → FS} {post : Except ε PUnit → FS → Prop} :
    After (modify f : ExceptT ε (StateM FS) PUnit) fs post ↔ post (.ok ⟨⟩) (f fs) := Iff.rfl

theorem after_ite {c : Prop} [Decidable c] {post : Except ε α → FS → Prop} :
    After (if c then op else op') fs post ↔
      (c → After op fs post) ∧ (¬c → After op' fs post) := by
  split <;> simp_all

/-- The rule for a sequence: what holds after the first operation is what the next one starts
    from. -/
theorem After.bind {f : α → ExceptT ε (StateM FS) β} {mid : Except ε α → FS → Prop}
    {post : Except ε β → FS → Prop} (h : After op fs mid)
    (hok : ∀ a fs', mid (.ok a) fs' → After (f a) fs' post)
    (herror : ∀ e fs', mid (.error e) fs' → post (.error e) fs') : After (op >>= f) fs post := by
  rw [after_bind]
  unfold After at h ⊢
  rcases hop : op.run fs with ⟨e | a, fs'⟩
  · rw [hop] at h
    exact herror e fs' h
  · rw [hop] at h
    exact hok a fs' h

theorem After.mono {mid post : Except ε α → FS → Prop} (h : After op fs mid)
    (hpost : ∀ r fs', mid r fs' → post r fs') : After op fs post :=
  hpost _ _ h

end

/-! ### The operations -/

section
variable (refuses : ℕ → Option ℕ)

theorem node?_congr {fs fs' : FS} (h : fs'.nodes = fs.nodes) : fs'.node? = fs.node? := by
  funext path
  rw [FS.node?, FS.node?, h]

theorem file?_congr {fs fs' : FS} (h : fs'.nodes = fs.nodes) : fs'.file? = fs.file? := by
  funext path
  rw [FS.file?, FS.file?, node?_congr h]

theorem ne_root {fs : FS} {path : Path} (h : fs.node? path ≠ some .dir) : path ≠ [] := by
  rintro rfl
  exact h rfl

/-- A node that is set anew. -/
theorem node?_set {fs : FS} {path : Path} (node : Node) (h : path ≠ []) (other : Path) :
    FS.node? { fs with nodes := fs.nodes.set path node } other =
      if other = path then some node else fs.node? other := by
  by_cases hroot : other = []
  · rw [FS.node?, if_pos hroot, if_neg (fun heq => h (heq.symm.trans hroot)), FS.node?,
      if_pos hroot]
  · rw [FS.node?, if_neg hroot, FS.node?, if_neg hroot, Dict.get?_set]

theorem file?_set_dir {fs : FS} {path : Path} (h : fs.node? path = none) :
    FS.file? { fs with nodes := fs.nodes.set path .dir } = fs.file? := by
  funext other
  have hroot : path ≠ [] := @ne_root fs _ (by rw [h]; simp)
  rw [FS.file?, node?_set .dir hroot, FS.file?]
  by_cases hother : other = path
  · rw [if_pos hother, hother, h]
  · rw [if_neg hother]

theorem file?_set_file {fs : FS} {path : Path} (bytes : Bytes) (h : path ≠ []) (other : Path) :
    FS.file? { fs with nodes := fs.nodes.set path (.file bytes) } other =
      if other = path then some bytes else fs.file? other := by
  rw [FS.file?, node?_set _ h, FS.file?]
  by_cases hother : other = path
  · rw [if_pos hother, if_pos hother]
  · rw [if_neg hother, if_neg hother]

theorem after_checkPath (path : Path) (fs : FS) :
    After (checkPath path) fs fun r fs' => fs' = fs ∧ r ≠ .error .os := by
  unfold checkPath
  simp only [after_ite, after_bind, after_throw, after_pure]
  simp

theorem after_refusal (fs : FS) :
    After (refusal refuses) fs fun r fs' => fs'.nodes = fs.nodes ∧ r = .ok (refuses fs.calls) :=
  ⟨rfl, rfl⟩

theorem after_systemCall (fs : FS) :
    After (systemCall refuses) fs fun r fs' => fs'.nodes = fs.nodes ∧
      ∀ e, r = .error e → e = .os := by
  refine (after_refusal refuses fs).bind (fun _ _ h => ?_) (fun _ _ h => (by cases h.2))
  rw [after_ite, after_throw, after_pure]
  exact ⟨fun _ => ⟨h.1, fun _ he => (Except.error.inj he).symm⟩,
    fun _ => ⟨h.1, fun _ he => (by cases he)⟩⟩

/-- Only directories are made. -/
theorem after_mkdirAlong (start path : Path) (fs : FS) :
    After (mkdirAlong refuses start path) fs fun _ fs' => fs'.file? = fs.file? := by
  induction path generalizing start fs with
  | nil => rfl
  | cons part rest ih =>
    have hone : After (mkdirOne refuses (walk start part)) fs fun _ fs' => fs'.file? = fs.file? := by
      rw [mkdirOne, after_get]
      cases hnode : fs.node? (walk start part) with
      | none =>
        refine (after_systemCall refuses fs).bind (fun _ fs₁ h => ?_)
          (fun e fs₁ h => file?_congr h.1)
        rw [setNode, after_modify, file?_set_dir, file?_congr h.1]
        rw [node?_congr h.1]
        exact hnode
      | some node => cases node <;> exact rfl
    refine hone.bind (fun _ fs₁ h => ?_) (fun _ _ h => h)
    exact (ih (walk start part) fs₁).mono fun _ _ h' => h'.trans h

theorem after_mkdirs (path : Path) (fs : FS) :
    After (mkdirs refuses path) fs fun _ fs' => fs'.file? = fs.file? := by
  refine (after_checkPath path fs).bind (fun _ fs₁ h => ?_) (fun _ _ h => congrArg _ h.1)
  exact h.1 ▸ after_mkdirAlong refuses [] path fs₁

theorem after_stat (path : Path) (fs : FS) :
    After (stat refuses path) fs fun r fs' => fs'.nodes = fs.nodes ∧
      ∀ node, r = .ok node → node = fs.node? (resolve path) := by
  refine (after_checkPath path fs).bind (fun _ fs₁ h₁ => ?_)
    (fun e _ h₁ => ⟨congrArg _ h₁.1, fun _ h => (by cases h)⟩)
  obtain ⟨rfl, _⟩ := h₁
  refine (after_systemCall refuses fs₁).bind (fun _ fs₂ h₂ => ?_)
    (fun e _ h₂ => ⟨h₂.1, fun _ h => (by cases h)⟩)
  refine ⟨h₂.1, fun node h => ?_⟩
  obtain rfl := Except.ok.inj h
  rw [node?_congr h₂.1]

/-- The file is there afterwards, empty if it is new; no other changes. -/
theorem after_openAppend (path : Path) (fs : FS) :
    After (openAppend refuses path) fs fun r fs' =>
      (∀ other, other ≠ resolve path → fs'.file? other = fs.file? other) ∧ match r with
        | .ok _ => fs.node? (resolve path) ≠ some .dir ∧
            fs'.file? (resolve path) = some (fs.content (resolve path))
        | .error _ => fs'.file? = fs.file? := by
  have hsame : ∀ {fs' : FS}, fs'.nodes = fs.nodes → ∀ e : Fault,
      (∀ other, other ≠ resolve path → fs'.file? other = fs.file? other) ∧
        fs'.file? = fs.file? := fun h e => ⟨fun _ _ => congrFun (file?_congr h) _, file?_congr h⟩
  refine (after_checkPath path fs).bind (fun _ fs₁ h₁ => ?_)
    (fun e _ h₁ => hsame (congrArg _ h₁.1) e)
  obtain ⟨rfl, _⟩ := h₁
  refine (after_systemCall refuses fs₁).bind (fun _ fs₂ h₂ => ?_) (fun e _ h₂ => hsame h₂.1 e)
  have hnode : fs₂.node? = fs₁.node? := node?_congr h₂.1
  rw [after_get, hnode]
  cases hat : fs₁.node? (resolve path) with
  | none =>
    simp only [after_get, after_ite, setNode, after_modify, after_throw, hnode]
    refine ⟨fun _ => ?_, fun _ => hsame h₂.1 .os⟩
    have hroot : resolve path ≠ [] := @ne_root fs₁ _ (by rw [hat]; simp)
    have hfile := @file?_set_file fs₂ _ [] hroot
    refine ⟨fun other hne => ?_, (by simp), ?_⟩
    · rw [hfile, if_neg hne, file?_congr h₂.1]
    · rw [hfile, if_pos rfl, FS.content, FS.file?, hat]
      rfl
  | some node =>
    cases node with
    | dir => exact hsame h₂.1 .os
    | file content =>
      rw [after_pure]
      refine ⟨fun other _ => congrFun (file?_congr h₂.1) other, (by simp), ?_⟩
      simp only [FS.content, FS.file?, hnode, hat, Option.getD_some]

/-- The bytes go behind what the file holds; no other file changes. -/
theorem after_append (path : Path) (bytes : Bytes) (fs : FS) :
    After (append refuses path bytes) fs fun r fs' =>
      (∀ other, other ≠ resolve path → fs'.file? other = fs.file? other) ∧ match r with
        | .ok _ => fs'.file? (resolve path) = some (fs.content (resolve path) ++ bytes)
        | .error e => e = .os := by
  rw [append, after_get]
  cases hat : fs.node? (resolve path) with
  | none => exact ⟨fun _ _ => rfl, rfl⟩
  | some node =>
    cases node with
    | dir => exact ⟨fun _ _ => rfl, rfl⟩
    | file content =>
      have hcontent : fs.content (resolve path) = content := by
        rw [FS.content, FS.file?, hat]
        rfl
      have hroot : resolve path ≠ [] := @ne_root fs _ (by rw [hat]; simp)
      refine (after_refusal refuses fs).bind (fun _ fs₁ h => ?_) (fun _ _ h => (by cases h.2))
      obtain ⟨hnodes, hr⟩ := h
      obtain rfl := Except.ok.inj hr
      have hfile := fun more => @file?_set_file fs₁ _ (content ++ more) hroot
      cases hrefuses : refuses fs.calls with
      | none =>
        rw [setNode, after_modify]
        refine ⟨fun other hne => ?_, ?_⟩
        · rw [hfile, if_neg hne, file?_congr hnodes]
        · rw [hfile, if_pos rfl, hcontent]
      | some written =>
        simp only [setNode, after_bind, after_modify, after_throw]
        refine ⟨fun other hne => ?_, trivial⟩
        rw [hfile, if_neg hne, file?_congr hnodes]

end

/-! ### Folders -/

section
variable {ε α β : Type}

/-- The folders that are there stay. -/
def KeepsDirs (op : ExceptT ε (StateM FS) α) : Prop :=
  ∀ fs, After op fs fun _ fs' => ∀ path, fs.node? path = some .dir → fs'.node? path = some .dir

theorem KeepsDirs.pure (a : α) : KeepsDirs (Pure.pure a : ExceptT ε (StateM FS) α) :=
  fun _ _ h => h

theorem KeepsDirs.throw (e : ε) : KeepsDirs (MonadExcept.throw e : ExceptT ε (StateM FS) α) :=
  fun _ _ h => h

theorem KeepsDirs.bind {op : ExceptT ε (StateM FS) α} {f : α → ExceptT ε (StateM FS) β}
    (hop : KeepsDirs op) (hf : ∀ a, KeepsDirs (f a)) : KeepsDirs (op >>= f) := fun fs =>
  (hop fs).bind (fun a fs₁ h => (hf a fs₁).mono fun _ _ h' path hpath => h' path (h path hpath))
    (fun _ _ h => h)

theorem KeepsDirs.of_nodes {op : ExceptT ε (StateM FS) α}
    (h : ∀ fs, After op fs fun _ fs' => fs'.nodes = fs.nodes) : KeepsDirs op := fun fs =>
  (h fs).mono fun _ _ hnodes path hpath => by rwa [node?_congr hnodes]

/-- A node that is set where no folder is. -/
theorem keepsDirs_set {fs : FS} {path : Path} (node : Node) (h : fs.node? path ≠ some .dir) :
    ∀ other, fs.node? other = some .dir →
      FS.node? { fs with nodes := fs.nodes.set path node } other = some .dir := by
  intro other hother
  have hne : other ≠ path := by
    rintro rfl
    exact h hother
  rw [node?_set node (ne_root h), if_neg hne, hother]

end

section
variable (refuses : ℕ → Option ℕ)

theorem keepsDirs_checkPath (path : Path) : KeepsDirs (checkPath path) :=
  .of_nodes fun fs => (after_checkPath path fs).mono fun _ _ h => congrArg FS.nodes h.1

theorem keepsDirs_systemCall : KeepsDirs (systemCall refuses) :=
  .of_nodes fun fs => (after_systemCall refuses fs).mono fun _ _ h => h.1

theorem keepsDirs_stat (path : Path) : KeepsDirs (stat refuses path) :=
  .of_nodes fun fs => (after_stat refuses path fs).mono fun _ _ h => h.1

theorem keepsDirs_openAppend (path : Path) : KeepsDirs (openAppend refuses path) := by
  refine (keepsDirs_checkPath path).bind fun _ => (keepsDirs_systemCall refuses).bind fun _ fs => ?_
  rw [after_get]
  cases hat : fs.node? (resolve path) with
  | none =>
    rw [after_get, after_ite, setNode, after_modify]
    refine ⟨fun _ => keepsDirs_set _ ?_, fun _ => KeepsDirs.throw _ fs⟩
    rw [hat]
    exact Option.some_ne_none _ ∘ Eq.symm
  | some node =>
    cases node with
    | dir => exact KeepsDirs.throw _ fs
    | file content => exact KeepsDirs.pure _ fs

theorem keepsDirs_append (path : Path) (bytes : Bytes) : KeepsDirs (append refuses path bytes) := by
  intro fs
  rw [append, after_get]
  cases hat : fs.node? (resolve path) with
  | none => exact KeepsDirs.throw _ fs
  | some node =>
    cases node with
    | dir => exact KeepsDirs.throw _ fs
    | file content =>
      refine (after_refusal refuses fs).bind (fun refused fs₁ h => ?_) (fun _ _ h => (by cases h.2))
      have hsame : fs₁.node? = fs.node? := node?_congr h.1
      have hset := fun content => @keepsDirs_set fs₁ (resolve path) (.file content)
        (by rw [hsame, hat]; simp)
      rw [hsame] at hset
      cases refused with
      | none => exact hset _
      | some written => exact hset _

/-- A folder is made, or was there. -/
theorem after_mkdirOne (path : Path) (fs : FS) :
    After (mkdirOne refuses path) fs fun r fs' =>
      (∀ other, fs.node? other = some .dir → fs'.node? other = some .dir) ∧
        (r = .ok () → fs'.node? path = some .dir) := by
  rw [mkdirOne, after_get]
  cases hat : fs.node? path with
  | none =>
    refine (after_systemCall refuses fs).bind (fun _ fs₁ h => ?_) (fun _ _ h => ⟨?_, ?_⟩)
    · have hsame : fs₁.node? = fs.node? := node?_congr h.1
      have hnone : fs₁.node? path ≠ some .dir := by
        rw [hsame, hat]
        exact Option.some_ne_none _ ∘ Eq.symm
      refine ⟨fun other hother => keepsDirs_set _ hnone other (hsame ▸ hother), fun _ => ?_⟩
      exact (node?_set .dir (ne_root hnone) path).trans (if_pos rfl)
    · intro other hother
      rwa [node?_congr h.1]
    · intro hr
      cases hr
  | some node =>
    cases node with
    | dir => exact ⟨fun _ h => h, fun _ => hat⟩
    | file content => exact ⟨fun _ h => h, fun hr => (by cases hr)⟩

/-- Every place that a walk comes through is a folder afterwards. -/
theorem after_mkdirAlong_dirs (start path : Path) (fs : FS) :
    After (mkdirAlong refuses start path) fs fun r fs' =>
      (∀ other, fs.node? other = some .dir → fs'.node? other = some .dir) ∧
        (r = .ok () → (∀ p, p <+: start → fs.node? p = some .dir) →
          ∀ p, p <+: path.foldl walk start → fs'.node? p = some .dir) := by
  induction path generalizing start fs with
  | nil => exact ⟨fun _ h => h, fun _ h => h⟩
  | cons part rest ih =>
    refine (after_mkdirOne refuses (walk start part) fs).bind (fun _ fs₁ h₁ => ?_)
      (fun _ _ h₁ => ⟨h₁.1, fun hr => (by cases hr)⟩)
    refine (ih (walk start part) fs₁).mono fun r fs₂ h₂ =>
      ⟨fun other hother => h₂.1 other (h₁.1 other hother), fun hr hstart => h₂.2 hr fun p hp => ?_⟩
    have hcases : p <+: start ∨ p = walk start part := by
      unfold walk at hp ⊢
      split at hp
      · exact .inl (hp.trans (List.dropLast_prefix start))
      · rename_i hdown
        rw [if_neg hdown]
        exact (List.prefix_concat_iff.mp hp).symm
    rcases hcases with hp | rfl
    · exact h₁.1 p (hstart p hp)
    · exact h₁.2 rfl

theorem after_mkdirs_dirs (path : Path) (fs : FS) :
    After (mkdirs refuses path) fs fun r fs' =>
      r = .ok () → ∀ p, p <+: resolve path → fs'.node? p = some .dir := by
  refine (after_checkPath path fs).bind (fun _ fs₁ h => ?_) (fun _ _ _ hr => (by cases hr))
  refine (after_mkdirAlong_dirs refuses [] path fs₁).mono fun r fs₂ h' hr => h'.2 hr fun p hp => ?_
  rw [List.prefix_nil.mp hp]
  rfl

end

end Files
