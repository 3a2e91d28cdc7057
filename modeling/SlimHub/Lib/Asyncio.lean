import SlimHub.Lib.Machine

/-! Cooperative tasks that share data and one lock.

    A task runs until an await has to wait: then the next scheduled task runs. Scheduled tasks stand
    in a queue; a new task and a task whose wait is over go to its end. Taking the lock waits only
    if another task holds it.

        start ──▶ piece ──▶ wait ──▶ piece ──▶ … ──▶ end          (a piece has no wait but the lock)

    Where every piece gives the lock back before it ends (`Coro.Free`), nobody ever finds the lock
    held, and the loop takes the steps of one in which a piece is one step and there is no lock
    (`run_toLoop`). A `Piece` is a piece together with the proof of this. -/

namespace Asyncio

/-- A coroutine up to where it waits for something other than the lock: it reads and changes the
    shared data in `σ`, takes and gives back the lock, creates tasks in `ι`, and returns or raises
    an exception in `ε`. -/
inductive Coro (σ ι ε α : Type) where
  | done (result : Except ε α)
  | act (update : σ → σ) (next : σ → Coro σ ι ε α)
  | acquire (next : Coro σ ι ε α)
  | release (next : Coro σ ι ε α)
  | spawn (task : ι) (next : Coro σ ι ε α)

variable {σ ι ε κ ω α β : Type}

/-- What a piece did that ran to its end. -/
structure Ran (σ ι ε α : Type) where
  shared : σ
  created : List ι
  result : Except ε α

namespace Coro

def bind : Coro σ ι ε α → (α → Coro σ ι ε β) → Coro σ ι ε β
  | .done (.ok a), f => f a
  | .done (.error e), _ => .done (.error e)
  | .act update next, f => .act update fun s => (next s).bind f
  | .acquire next, f => .acquire (next.bind f)
  | .release next, f => .release (next.bind f)
  | .spawn task next, f => .spawn task (next.bind f)

/-- `try: ... except Exception as exc: ...`. -/
def attempt : Coro σ ι ε α → Coro σ ι ε (Except ε α)
  | .done result => .done (.ok result)
  | .act update next => .act update fun s => (next s).attempt
  | .acquire next => .acquire next.attempt
  | .release next => .release next.attempt
  | .spawn task next => .spawn task next.attempt

/-- `async with lock:` around one action on the shared data, which may raise. -/
def locked (f : σ → Except ε α × σ) : Coro σ ι ε α :=
  .acquire (.act (fun s => (f s).2) fun s => .release (.done (f s).1))

/-- A coroutine run in one piece, whoever has the lock. -/
def exec : Coro σ ι ε α → σ → Ran σ ι ε α
  | .done result, s => ⟨s, [], result⟩
  | .act update next, s => (next s).exec (update s)
  | .acquire next, s => next.exec s
  | .release next, s => next.exec s
  | .spawn task next, s =>
    let ran := next.exec s
    { ran with created := task :: ran.created }

/-- Starting with the lock held or not, the coroutine takes it only when it does not have it, gives
    it back only when it does, and ends without it. -/
def Free (held : Bool) : Coro σ ι ε α → Prop
  | .done _ => held = false
  | .act _ next => ∀ s, (next s).Free held
  | .acquire next => held = false ∧ next.Free true
  | .release next => held = true ∧ next.Free false
  | .spawn _ next => next.Free held

theorem Free.bind {c : Coro σ ι ε α} {f : α → Coro σ ι ε β} {held : Bool} (h : c.Free held)
    (hf : ∀ a, (f a).Free false) : (c.bind f).Free held := by
  induction c generalizing held with
  | done result =>
    obtain rfl : held = false := h
    cases result with
    | ok a => exact hf a
    | error e => rfl
  | act update next ih => exact fun s => ih s (h s)
  | acquire next ih => exact ⟨h.1, ih h.2⟩
  | release next ih => exact ⟨h.1, ih h.2⟩
  | spawn task next ih => exact ih h

theorem Free.attempt {c : Coro σ ι ε α} {held : Bool} (h : c.Free held) : c.attempt.Free held := by
  induction c generalizing held with
  | done result => exact h
  | act update next ih => exact fun s => ih s (h s)
  | acquire next ih => exact ⟨h.1, ih h.2⟩
  | release next ih => exact ⟨h.1, ih h.2⟩
  | spawn task next ih => exact ih h

theorem free_locked (f : σ → Except ε α × σ) : (locked f : Coro σ ι ε α).Free false :=
  ⟨rfl, fun _ => ⟨rfl, rfl⟩⟩

theorem exec_attempt (c : Coro σ ι ε α) (s : σ) : c.attempt.exec s =
    ⟨(c.exec s).shared, (c.exec s).created, .ok (c.exec s).result⟩ := by
  induction c generalizing s with
  | done result => rfl
  | act update next ih => exact ih s (update s)
  | acquire next ih => exact ih s
  | release next ih => exact ih s
  | spawn task next ih => simp only [attempt, exec, ih]

end Coro

/-- A piece that keeps to the lock's rules. -/
structure Piece (σ ι ε α : Type) where
  code : Coro σ ι ε α
  free : code.Free false

namespace Piece

instance instMonadPiece : Monad (Piece σ ι ε) where
  pure a := ⟨.done (.ok a), rfl⟩
  bind c f := ⟨c.code.bind fun a => (f a).code, c.free.bind fun a => (f a).free⟩

/-- Return or raise. -/
def lift (result : Except ε α) : Piece σ ι ε α := ⟨.done result, rfl⟩

/-- The shared data. -/
def get : Piece σ ι ε σ := ⟨.act id fun s => .done (.ok s), fun _ => rfl⟩

/-- One action on the shared data, which may raise. -/
def act (f : σ → Except ε α × σ) : Piece σ ι ε α :=
  ⟨.act (fun s => (f s).2) fun s => .done (f s).1, fun _ => rfl⟩

def modify (f : σ → σ) : Piece σ ι ε Unit := act fun s => (.ok (), f s)

/-- `async with lock:` around such an action. -/
def locked (f : σ → Except ε α × σ) : Piece σ ι ε α := ⟨Coro.locked f, Coro.free_locked f⟩

/-- `create_task`. -/
def create (task : ι) : Piece σ ι ε Unit := ⟨.spawn task (.done (.ok ())), rfl⟩

/-- `try: ... except Exception as exc: ...`. -/
def attempt (c : Piece σ ι ε α) : Piece σ ι ε (Except ε α) := ⟨c.code.attempt, c.free.attempt⟩

/-! ### In one piece -/

def exec (c : Piece σ ι ε α) (s : σ) : Ran σ ι ε α := c.code.exec s

/-- What comes after a piece that ran. -/
def andThen (ran : Ran σ ι ε α) (f : α → Piece σ ι ε β) : Ran σ ι ε β :=
  match ran.result with
  | .error e => ⟨ran.shared, ran.created, .error e⟩
  | .ok a =>
    let rest := (f a).exec ran.shared
    { rest with created := ran.created ++ rest.created }

theorem exec_bind (c : Piece σ ι ε α) (f : α → Piece σ ι ε β) (s : σ) :
    (c >>= f).exec s = andThen (c.exec s) f := by
  obtain ⟨code, free⟩ := c
  change (code.bind fun a => (f a).code).exec s = andThen (code.exec s) f
  clear free
  induction code generalizing s with
  | done result =>
    cases result with
    | ok a => rfl
    | error e => rfl
  | act update next ih => exact ih s (update s)
  | acquire next ih => exact ih s
  | release next ih => exact ih s
  | spawn task next ih =>
    simp only [Coro.bind, Coro.exec, ih, andThen]
    cases (next.exec s).result <;> rfl

@[simp] theorem andThen_ok (s : σ) (a : α) (f : α → Piece σ ι ε β) :
    andThen ⟨s, [], .ok a⟩ f = (f a).exec s := rfl

@[simp] theorem andThen_error (s : σ) (created : List ι) (e : ε) (f : α → Piece σ ι ε β) :
    andThen ⟨s, created, .error e⟩ f = ⟨s, created, .error e⟩ := rfl

@[simp] theorem exec_pure (a : α) (s : σ) : (pure a : Piece σ ι ε α).exec s = ⟨s, [], .ok a⟩ := rfl

@[simp] theorem exec_lift (result : Except ε α) (s : σ) :
    (lift result : Piece σ ι ε α).exec s = ⟨s, [], result⟩ := rfl

@[simp] theorem exec_get (s : σ) : (get : Piece σ ι ε σ).exec s = ⟨s, [], .ok s⟩ := rfl

@[simp] theorem exec_act (f : σ → Except ε α × σ) (s : σ) :
    (act f : Piece σ ι ε α).exec s = ⟨(f s).2, [], (f s).1⟩ := rfl

@[simp] theorem exec_modify (f : σ → σ) (s : σ) :
    (modify f : Piece σ ι ε Unit).exec s = ⟨f s, [], .ok ()⟩ := rfl

@[simp] theorem exec_locked (f : σ → Except ε α × σ) (s : σ) :
    (locked f : Piece σ ι ε α).exec s = ⟨(f s).2, [], (f s).1⟩ := rfl

@[simp] theorem exec_create (task : ι) (s : σ) :
    (create task : Piece σ ι ε Unit).exec s = ⟨s, [task], .ok ()⟩ := rfl

@[simp] theorem exec_attempt (c : Piece σ ι ε α) (s : σ) : c.attempt.exec s =
    ⟨(c.exec s).shared, (c.exec s).created, .ok (c.exec s).result⟩ :=
  Coro.exec_attempt c.code s

theorem exec_forM_cons (f : α → Piece σ ι ε PUnit) (a : α) (as : List α) (s : σ) :
    ((a :: as).forM f).exec s = andThen ((f a).exec s) fun _ => as.forM f :=
  exec_bind (f a) _ s

theorem exec_forM_create (point : α → ι) (as : List α) (s : σ) :
    (as.forM fun a => (create (point a) : Piece σ ι ε Unit)).exec s = ⟨s, as.map point, .ok ()⟩ := by
  induction as with
  | nil => rfl
  | cons a as ih =>
    rw [exec_forM_cons, exec_create, andThen, ih]
    rfl

/-- What holds of the result and of the shared data once a piece has run. -/
def After (c : Piece σ ι ε α) (s : σ) (Q : Except ε α → σ → Prop) : Prop :=
  Q (c.exec s).result (c.exec s).shared

section
variable (s : σ) {Q : Except ε α → σ → Prop} {Q' : Except ε β → σ → Prop}

@[simp] theorem after_bind (c : Piece σ ι ε α) (f : α → Piece σ ι ε β) :
    (c >>= f).After s Q' ↔ c.After s fun result t =>
      match result with
      | .ok a => (f a).After t Q'
      | .error e => Q' (.error e) t := by
  rw [After, exec_bind, andThen, After]
  cases (c.exec s).result <;> rfl

@[simp] theorem after_pure (a : α) : (pure a : Piece σ ι ε α).After s Q ↔ Q (.ok a) s := Iff.rfl

@[simp] theorem after_lift (result : Except ε α) :
    (lift result : Piece σ ι ε α).After s Q ↔ Q result s := Iff.rfl

@[simp] theorem after_get {Q : Except ε σ → σ → Prop} :
    (get : Piece σ ι ε σ).After s Q ↔ Q (.ok s) s := Iff.rfl

@[simp] theorem after_act (f : σ → Except ε α × σ) :
    (act f : Piece σ ι ε α).After s Q ↔ Q (f s).1 (f s).2 := Iff.rfl

@[simp] theorem after_modify (f : σ → σ) {Q : Except ε Unit → σ → Prop} :
    (modify f : Piece σ ι ε Unit).After s Q ↔ Q (.ok ()) (f s) := Iff.rfl

@[simp] theorem after_locked (f : σ → Except ε α × σ) :
    (locked f : Piece σ ι ε α).After s Q ↔ Q (f s).1 (f s).2 := Iff.rfl

@[simp] theorem after_attempt (c : Piece σ ι ε α) {Q : Except ε (Except ε α) → σ → Prop} :
    c.attempt.After s Q ↔ c.After s fun result t => Q (.ok result) t := by
  rw [After, exec_attempt]
  rfl

end

theorem shared_bind {R : σ → σ → Prop} [IsTrans σ R] {c : Piece σ ι ε α} {f : α → Piece σ ι ε β}
    {s : σ} (h : R s (c.exec s).shared) (hf : ∀ a t, R t ((f a).exec t).shared) :
    R s ((c >>= f).exec s).shared := by
  rw [exec_bind, andThen]
  cases (c.exec s).result with
  | error e => exact h
  | ok a => exact Trans.trans h (hf a _)

/-! ### What a piece guarantees -/

/-- The piece changes the shared data as `R` allows, creates tasks in `P`, and returns a value in
    `Q` if it returns. -/
structure Guarantees (R : σ → σ → Prop) (P : ι → Prop) (Q : α → Prop) (c : Piece σ ι ε α) :
    Prop where
  shared : ∀ s, R s (c.exec s).shared
  created : ∀ s, ∀ task ∈ (c.exec s).created, P task
  result : ∀ s a, (c.exec s).result = .ok a → Q a

section
variable {R : σ → σ → Prop} {P : ι → Prop} {Q : α → Prop}

theorem Guarantees.of_exec {c : Piece σ ι ε α} (h : ∀ s, R s (c.exec s).shared)
    (hcreated : ∀ s, (c.exec s).created = []) : c.Guarantees R P fun _ => True where
  shared := h
  created := by
    intro s task htask
    rw [hcreated] at htask
    cases htask
  result _ _ _ := trivial

theorem guarantees_act {f : σ → Except ε α × σ} (h : ∀ s, R s (f s).2) :
    (act f : Piece σ ι ε α).Guarantees R P fun _ => True :=
  .of_exec h fun _ => rfl

theorem guarantees_modify {f : σ → σ} (h : ∀ s, R s (f s)) :
    (modify f : Piece σ ι ε Unit).Guarantees R P fun _ => True :=
  .of_exec h fun _ => rfl

theorem guarantees_locked {f : σ → Except ε α × σ} (h : ∀ s, R s (f s).2) :
    (locked f : Piece σ ι ε α).Guarantees R P fun _ => True :=
  .of_exec h fun _ => rfl

theorem Guarantees.attempt {c : Piece σ ι ε α} (h : c.Guarantees R P fun _ => True) :
    c.attempt.Guarantees R P fun _ => True where
  shared s := by rw [exec_attempt]; exact h.shared s
  created s := by rw [exec_attempt]; exact h.created s
  result _ _ _ := trivial

theorem Guarantees.imp {R' : σ → σ → Prop} {P' : ι → Prop} {Q' : α → Prop} {c : Piece σ ι ε α}
    (h : c.Guarantees R P Q) (hR : ∀ s t, R s t → R' s t) (hP : ∀ task, P task → P' task)
    (hQ : ∀ a, Q a → Q' a) : c.Guarantees R' P' Q' where
  shared s := hR s _ (h.shared s)
  created s task htask := hP task (h.created s task htask)
  result s a ha := hQ a (h.result s a ha)

theorem Guarantees.mono {R' : σ → σ → Prop} {c : Piece σ ι ε α} (h : c.Guarantees R P Q)
    (hR : ∀ s t, R s t → R' s t) : c.Guarantees R' P Q :=
  h.imp hR (fun _ => id) fun _ => id

/-- What the first part returns is in `Q` where the second part takes it. -/
theorem Guarantees.bind_of [IsTrans σ R] {Q' : β → Prop} {c : Piece σ ι ε α} {f : α → Piece σ ι ε β}
    (h : c.Guarantees R P Q) (hf : ∀ a, Q a → (f a).Guarantees R P Q') :
    (c >>= f).Guarantees R P Q' where
  shared s := by
    rw [exec_bind, andThen]
    cases hresult : (c.exec s).result with
    | error e => exact h.shared s
    | ok a => exact Trans.trans (h.shared s) ((hf a (h.result s a hresult)).shared _)
  created s task htask := by
    rw [exec_bind, andThen] at htask
    cases hresult : (c.exec s).result with
    | error e =>
      rw [hresult] at htask
      exact h.created s task htask
    | ok a =>
      rw [hresult] at htask
      rcases List.mem_append.mp htask with htask | htask
      · exact h.created s task htask
      · exact (hf a (h.result s a hresult)).created _ task htask
  result s b hb := by
    rw [exec_bind, andThen] at hb
    cases hresult : (c.exec s).result with
    | error e => rw [hresult] at hb; cases hb
    | ok a =>
      rw [hresult] at hb
      exact (hf a (h.result s a hresult)).result _ b hb

theorem Guarantees.bind [IsTrans σ R] {Q' : β → Prop} {c : Piece σ ι ε α} {f : α → Piece σ ι ε β}
    (h : c.Guarantees R P fun _ => True) (hf : ∀ a, (f a).Guarantees R P Q') :
    (c >>= f).Guarantees R P Q' :=
  h.bind_of fun a _ => hf a

variable [Std.Refl R]

theorem guarantees_pure {a : α} (h : Q a) : (pure a : Piece σ ι ε α).Guarantees R P Q where
  shared s := Std.Refl.refl s
  created _ _ htask := nomatch htask
  result _ _ hresult := Except.ok.inj hresult ▸ h

theorem guarantees_return (a : α) : (pure a : Piece σ ι ε α).Guarantees R P fun _ => True :=
  guarantees_pure trivial

theorem guarantees_lift (result : Except ε α) :
    (lift result : Piece σ ι ε α).Guarantees R P fun _ => True :=
  .of_exec (fun s => Std.Refl.refl s) fun _ => rfl

theorem guarantees_raise (e : ε) : (lift (.error e) : Piece σ ι ε α).Guarantees R P Q where
  shared s := Std.Refl.refl s
  created _ _ htask := nomatch htask
  result _ _ hresult := nomatch hresult

theorem guarantees_get : (get : Piece σ ι ε σ).Guarantees R P fun _ => True :=
  .of_exec (fun s => Std.Refl.refl s) fun _ => rfl

theorem guarantees_create {task : ι} (h : P task) :
    (create task : Piece σ ι ε Unit).Guarantees R P fun _ => True where
  shared s := Std.Refl.refl s
  created _ _ htask := List.mem_singleton.mp htask ▸ h
  result _ _ _ := trivial

variable [IsTrans σ R]

theorem guarantees_forM {f : α → Piece σ ι ε PUnit} (h : ∀ a, (f a).Guarantees R P fun _ => True)
    (as : List α) : (as.forM f).Guarantees R P fun _ => True := by
  induction as with
  | nil => exact guarantees_pure trivial
  | cons a as ih => exact (h a).bind fun _ => ih

theorem guarantees_foldlM {f : β → α → Piece σ ι ε β}
    (h : ∀ b a, (f b a).Guarantees R P fun _ => True) (as : List α) (b : β) :
    (as.foldlM f b).Guarantees R P fun _ => True := by
  induction as generalizing b with
  | nil => exact guarantees_pure trivial
  | cons a as ih => exact (h b a).bind ih

end

end Piece

/-! ### The loop -/

/-- Where a task goes on after a piece of it: nowhere, or at another point once what it waits for
    has answered; some answers are not for this wait. -/
inductive Rest (ι κ : Type) where
  | finish
  | wait (next : κ → Option ι)

/-- Wherever the task goes on is in `P`. -/
def Rest.Leads (P : ι → Prop) : Rest ι κ → Prop
  | .finish => True
  | .wait next => ∀ answer point, next answer = some point → P point

theorem Rest.Leads.imp {P P' : ι → Prop} {rest : Rest ι κ} (h : rest.Leads P)
    (hP : ∀ point, P point → P' point) : rest.Leads P' := by
  cases rest with
  | finish => trivial
  | wait next => exact fun answer point hnext => hP point (h answer point hnext)

/-- A scheduled task: at a point where it starts or goes on, or with the lock handed to it. -/
inductive Scheduled (σ ι ε κ : Type) where
  | start (point : ι)
  | woken (code : Coro σ ι ε (Rest ι κ))

/-- The shared data, the lock and the tasks: those that wait for the lock, the scheduled ones, and
    those that wait for something else. -/
structure Loop (σ ι ε κ : Type) where
  shared : σ
  locked : Bool := false
  waiters : List (Coro σ ι ε (Rest ι κ)) := []
  ready : List (Scheduled σ ι ε κ) := []
  paused : List (κ → Option ι) := []

/-- The wait at the end of a piece; a task that raised is over. -/
def waits : Except ε (Rest ι κ) → List (κ → Option ι)
  | .ok (.wait next) => [next]
  | _ => []

/-- A task runs until it waits or ends. A lock that is given back goes to the task that has waited
    for it longest. -/
def Loop.run : Coro σ ι ε (Rest ι κ) → Loop σ ι ε κ → Loop σ ι ε κ
  | .done result, self => { self with paused := self.paused ++ waits result }
  | .act update next, self => Loop.run (next self.shared) { self with shared := update self.shared }
  | .acquire next, self =>
    if self.locked then { self with waiters := self.waiters ++ [next] }
    else Loop.run next { self with locked := true }
  | .release next, self =>
    match self.waiters with
    | [] => Loop.run next { self with locked := false }
    | code :: waiters =>
      Loop.run next { self with waiters, ready := self.ready ++ [.woken code] }
  | .spawn task next, self => Loop.run next { self with ready := self.ready ++ [.start task] }

/-- What can happen: the next scheduled task runs, a wait is answered, or a callback is called. -/
inductive Event (κ ω : Type) where
  | tick
  | resume (i : ℕ) (answer : κ)
  | call (callback : ω)

variable (body : ι → Piece σ ι ε (Rest ι κ)) (callback : ω → σ → σ × List ι)

namespace Loop

def step : Event κ ω → Loop σ ι ε κ → Option (Loop σ ι ε κ)
  | .tick, self =>
    match self.ready with
    | [] => none
    | .start point :: ready => some (run (body point).code { self with ready })
    | .woken code :: ready => some (run code { self with ready })
  | .resume i answer, self => (self.paused[i]?.bind (· answer)).map fun point =>
    { self with
      paused := self.paused.eraseIdx i
      ready := self.ready ++ [.start point] }
  | .call w, self =>
    let called := callback w self.shared
    some { self with
      shared := called.1
      ready := self.ready ++ called.2.map .start }

end Loop

/-- A loop without a lock, in which a piece is one step. -/
structure Atomic (σ ι κ : Type) where
  shared : σ
  ready : List ι := []
  paused : List (κ → Option ι) := []

namespace Atomic

def step : Event κ ω → Atomic σ ι κ → Option (Atomic σ ι κ)
  | .tick, self =>
    match self.ready with
    | [] => none
    | point :: ready =>
      let ran := (body point).exec self.shared
      some {
        shared := ran.shared
        ready := ready ++ ran.created
        paused := self.paused ++ waits ran.result }
  | .resume i answer, self => (self.paused[i]?.bind (· answer)).map fun point =>
    { self with
      paused := self.paused.eraseIdx i
      ready := self.ready ++ [point] }
  | .call w, self =>
    let called := callback w self.shared
    some { self with
      shared := called.1
      ready := self.ready ++ called.2 }

/-- The loop with a free lock for which nobody waits. -/
def toLoop (self : Atomic σ ι κ) : Loop σ ι ε κ :=
  { shared := self.shared, ready := self.ready.map .start, paused := self.paused }

end Atomic

/-! ### Nobody waits for the lock -/

variable {body callback}

/-- A coroutine that keeps to the lock's rules runs in one piece where nobody waits for the lock. -/
theorem Loop.run_of_free {c : Coro σ ι ε (Rest ι κ)} {locked : Bool} (h : c.Free locked)
    (shared : σ) (ready : List (Scheduled σ ι ε κ)) (paused : List (κ → Option ι)) :
    run c { shared, locked, ready, paused } =
      { shared := (c.exec shared).shared
        ready := ready ++ (c.exec shared).created.map .start
        paused := paused ++ waits (c.exec shared).result } := by
  induction c generalizing shared locked ready with
  | done result =>
    obtain rfl : locked = false := h
    simp [run, Coro.exec]
  | act update next ih => exact ih shared (h shared) (update shared) ready
  | acquire next ih =>
    obtain ⟨rfl, hnext⟩ := h
    exact ih hnext shared ready
  | release next ih =>
    obtain ⟨rfl, hnext⟩ := h
    exact ih hnext shared ready
  | spawn task next ih =>
    have hspawn := ih h shared (ready ++ [.start task])
    simpa [run, Coro.exec] using hspawn

/-- The loop takes the steps of the one without a lock. -/
theorem step_toLoop (event : Event κ ω) (A : Atomic σ ι κ) :
    A.toLoop.step body callback event = (A.step body callback event).map Atomic.toLoop := by
  obtain ⟨shared, ready, paused⟩ := A
  cases event with
  | tick =>
    cases ready with
    | nil => rfl
    | cons point ready =>
      simp only [Loop.step, Atomic.step, Atomic.toLoop, List.map_cons, Option.map_some,
        Loop.run_of_free (body point).free, List.map_append, Piece.exec]
  | resume i answer =>
    simp only [Loop.step, Atomic.step, Atomic.toLoop, Option.map_map]
    cases paused[i]?.bind (· answer) <;> simp [Atomic.toLoop]
  | call w => simp [Loop.step, Atomic.step, Atomic.toLoop]

theorem run_toLoop (events : List (Event κ ω)) (A : Atomic σ ι κ) :
    Machine.run (Loop.step body callback) events A.toLoop =
      (Machine.run (Atomic.step body callback) events A).map Atomic.toLoop := by
  induction events generalizing A with
  | nil => rfl
  | cons event events ih =>
    simp only [Machine.run, step_toLoop]
    cases A.step body callback event with
    | none => rfl
    | some B => exact ih B

/-- A run of the loop is one of the loop without a lock. -/
theorem Loop.run_exists {events : List (Event κ ω)} {A : Atomic σ ι κ} {L : Loop σ ι ε κ}
    (hrun : Machine.run (Loop.step body callback) events A.toLoop = some L) :
    ∃ B, Machine.run (Atomic.step body callback) events A = some B ∧ L = B.toLoop := by
  rw [run_toLoop] at hrun
  obtain ⟨B, hB, rfl⟩ := Option.map_eq_some_iff.mp hrun
  exact ⟨B, hB, rfl⟩

/-- What every piece and every callback keeps of the shared data, every run keeps. -/
theorem Loop.run_shared {Inv : σ → Prop} (hbody : ∀ point s, Inv s → Inv ((body point).exec s).shared)
    (hcall : ∀ w s, Inv s → Inv (callback w s).1) {events : List (Event κ ω)} {A : Atomic σ ι κ}
    {L : Loop σ ι ε κ} (hA : Inv A.shared)
    (hrun : Machine.run (Loop.step body callback) events A.toLoop = some L) : Inv L.shared := by
  obtain ⟨B, hB, rfl⟩ := Loop.run_exists hrun
  have hinv (A : Atomic σ ι κ) (event : Event κ ω) (C : Atomic σ ι κ) (h : Inv A.shared)
      (hstep : A.step body callback event = some C) : Inv C.shared := by
    cases event with
    | tick =>
      cases hready : A.ready with
      | nil => simp [Atomic.step, hready] at hstep
      | cons point ready =>
        simp only [Atomic.step, hready, Option.some.injEq] at hstep
        rw [← hstep]
        exact hbody point A.shared h
    | resume i answer =>
      obtain ⟨point, _, rfl⟩ := Option.map_eq_some_iff.mp hstep
      exact h
    | call w =>
      rw [← Option.some.inj hstep]
      exact hcall w A.shared h
  exact Machine.run_invariant hinv hA hB

/-! ### One main task -/

/-- Some answer lets a waiting task go on in `P`. -/
def MayLead (P : ι → Prop) (next : κ → Option ι) : Prop :=
  ∃ answer point, next answer = some point ∧ P point

namespace Atomic

open Classical in
/-- How many tasks are at a point in `P` or may go on at one. -/
noncomputable def count (P : ι → Prop) (self : Atomic σ ι κ) : ℕ :=
  self.ready.countP (fun point => P point) + self.paused.countP (fun next => MayLead P next)

/-- At most one task is a main task; `Inv` holds of the shared data, and `At` of wherever a task is
    or may go on. -/
structure Led (main : ι → Prop) (Inv : σ → Prop) (At : σ → ι → Prop) (A : Atomic σ ι κ) : Prop where
  shared : Inv A.shared
  one : A.count main ≤ 1
  ready : ∀ point ∈ A.ready, At A.shared point
  paused : ∀ next ∈ A.paused, ∀ answer point, next answer = some point → At A.shared point

/-- What a piece does that keeps this: it leaves the tasks beside it where they may be, and only the
    main task goes on as one. -/
structure Settles (main : ι → Prop) (Inv : σ → Prop) (At : σ → ι → Prop) (s : σ) (point : ι)
    (ran : Ran σ ι ε (Rest ι κ)) : Prop where
  shared : Inv ran.shared
  created : ∀ p ∈ ran.created, ¬ main p ∧ At ran.shared p
  leads : ∀ rest, ran.result = .ok rest → rest.Leads fun p => (main p → main point) ∧ At ran.shared p
  kept : ∀ p, ¬ (main p ∧ main point) → At s p → At ran.shared p

variable {main : ι → Prop} {Inv : σ → Prop} {At : σ → ι → Prop} {A : Atomic σ ι κ}

open Classical in
theorem Led.tick {point : ι} {ready : List ι} (h : A.Led main Inv At)
    (hready : A.ready = point :: ready) {ran : Ran σ ι ε (Rest ι κ)}
    (hran : Settles main Inv At A.shared point ran) :
    Led (κ := κ) main Inv At ⟨ran.shared, ready ++ ran.created, A.paused ++ waits ran.result⟩ := by
  have hone := h.one
  simp only [count, hready, List.countP_cons, decide_eq_true_eq] at hone
  -- beside the main task there is no other
  have hready' (p : ι) (hp : p ∈ ready) : ¬ (main p ∧ main point) := by
    rintro ⟨hmain, hpoint⟩
    have hpos : 0 < ready.countP fun p => main p :=
      List.countP_pos_iff.mpr ⟨p, hp, decide_eq_true hmain⟩
    simp only [hpoint, if_true] at hone
    omega
  have hpaused (next : κ → Option ι) (hnext : next ∈ A.paused) (answer : κ) (p : ι)
      (hp : next answer = some p) : ¬ (main p ∧ main point) := by
    rintro ⟨hmain, hpoint⟩
    have hpos : 0 < A.paused.countP fun next => MayLead main next :=
      List.countP_pos_iff.mpr ⟨next, hnext, decide_eq_true ⟨answer, p, hp, hmain⟩⟩
    simp only [hpoint, if_true] at hone
    omega
  have hcreated : ran.created.countP (fun p => main p) = 0 :=
    List.countP_eq_zero.mpr fun p hp => by simpa using (hran.created p hp).1
  have hleads (next : κ → Option ι) (hnext : next ∈ waits ran.result) (answer : κ) (p : ι)
      (hp : next answer = some p) : (main p → main point) ∧ At ran.shared p := by
    cases hresult : ran.result with
    | error e =>
      rw [hresult] at hnext
      cases hnext
    | ok rest =>
      rw [hresult] at hnext
      cases rest with
      | finish => cases hnext
      | wait next' =>
        rw [List.mem_singleton.mp hnext] at hp
        exact hran.leads _ hresult answer p hp
  have hwaits : (waits ran.result).countP (fun next => MayLead main next) ≤
      if main point then 1 else 0 := by
    split
    · refine List.countP_le_length.trans ?_
      cases ran.result with
      | error e => exact Nat.zero_le 1
      | ok rest => cases rest <;> simp [waits]
    · rename_i hpoint
      refine (List.countP_eq_zero.mpr fun next hnext => ?_).le
      simp only [decide_eq_true_eq]
      rintro ⟨answer, p, hp, hmain⟩
      exact hpoint ((hleads next hnext answer p hp).1 hmain)
  refine ⟨hran.shared, ?_, fun p hp => ?_, fun next hnext answer p hp => ?_⟩
  · simp only [count, List.countP_append, hcreated]
    omega
  · rcases List.mem_append.mp hp with hp | hp
    · exact hran.kept p (hready' p hp) (h.ready p (hready ▸ List.mem_cons_of_mem point hp))
    · exact (hran.created p hp).2
  · rcases List.mem_append.mp hnext with hnext | hnext
    · exact hran.kept p (hpaused next hnext answer p hp) (h.paused next hnext answer p hp)
    · exact (hleads next hnext answer p hp).2

open Classical in
theorem Led.resume {i : ℕ} {answer : κ} {point : ι} (h : A.Led main Inv At)
    (hpoint : A.paused[i]?.bind (· answer) = some point) :
    { A with paused := A.paused.eraseIdx i, ready := A.ready ++ [point] }.Led main Inv At := by
  obtain ⟨next, hnext, hanswer⟩ := Option.bind_eq_some_iff.mp hpoint
  obtain ⟨hi, hget⟩ := List.getElem?_eq_some_iff.mp hnext
  refine ⟨h.shared, ?_, fun p hp => ?_, fun next' hnext' answer' p hp => ?_⟩
  · have hone := h.one
    have hperm := (List.getElem_cons_eraseIdx_perm hi).countP_eq fun next => MayLead main next
    simp only [hget, List.countP_cons, decide_eq_true_eq] at hperm
    have hmay : main point → MayLead main next := fun hmain => ⟨answer, point, hanswer, hmain⟩
    simp only [count, List.countP_append, List.countP_singleton, decide_eq_true_eq] at hone ⊢
    by_cases hmain : main point
    · rw [if_pos (hmay hmain)] at hperm
      rw [if_pos hmain]
      omega
    · rw [if_neg hmain]
      omega
  · rcases List.mem_append.mp hp with hp | hp
    · exact h.ready p hp
    · rw [List.mem_singleton.mp hp]
      exact h.paused next (List.mem_of_getElem? hnext) answer point hanswer
  · exact h.paused next' (List.mem_of_mem_eraseIdx hnext') answer' p hp

open Classical in
theorem Led.call {t : σ} {created : List ι} (h : A.Led main Inv At) (hshared : Inv t)
    (hcreated : ∀ p ∈ created, ¬ main p ∧ At t p) (hkept : ∀ p, At A.shared p → At t p) :
    { A with shared := t, ready := A.ready ++ created }.Led main Inv At := by
  have hcount : created.countP (fun p => main p) = 0 :=
    List.countP_eq_zero.mpr fun p hp => by simpa using (hcreated p hp).1
  refine ⟨hshared, ?_, fun p hp => ?_, fun next hnext answer p hp => ?_⟩
  · have hone := h.one
    simp only [count, List.countP_append, hcount] at hone ⊢
    omega
  · rcases List.mem_append.mp hp with hp | hp
    · exact hkept p (h.ready p hp)
    · exact (hcreated p hp).2
  · exact hkept p (h.paused next hnext answer p hp)

/-- A step keeps at most one main task if the piece that it runs, or the callback, does its part. -/
theorem Led.step {event : Event κ ω} {B : Atomic σ ι κ} (h : A.Led main Inv At)
    (hbody : event = .tick → ∀ point, A.ready.head? = some point → At A.shared point →
      Settles main Inv At A.shared point ((body point).exec A.shared))
    (hcall : ∀ w, event = .call w → Inv (callback w A.shared).1 ∧
      (∀ p ∈ (callback w A.shared).2, ¬ main p ∧ At (callback w A.shared).1 p) ∧
      ∀ p, At A.shared p → At (callback w A.shared).1 p)
    (hstep : A.step body callback event = some B) : B.Led main Inv At := by
  cases event with
  | tick =>
    cases hready : A.ready with
    | nil => simp [Atomic.step, hready] at hstep
    | cons point ready =>
      simp only [Atomic.step, hready, Option.some.injEq] at hstep
      rw [← hstep]
      refine h.tick hready (hbody rfl point (by rw [hready]; rfl) ?_)
      exact h.ready point (hready ▸ List.mem_cons_self)
  | resume i answer =>
    obtain ⟨point, hpoint, rfl⟩ := Option.map_eq_some_iff.mp hstep
    exact h.resume hpoint
  | call w =>
    obtain ⟨hshared, hcreated, hkept⟩ := hcall w rfl
    rw [← Option.some.inj hstep]
    exact h.call hshared hcreated hkept

end Atomic

end Asyncio
