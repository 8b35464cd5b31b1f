import Mathlib.Logic.Basic

/-! # Asynchronous functions that may throw

    A program here is the body of an asynchronous function over a state `σ`: it changes the
    state, throws, and awaits operations that settle with an outcome `ε`, while others
    change the state.  Calling the function runs the body up to its first `await`; what is
    left is a promise, and an exception that no `try` catches rejects it, at once or later.

    * `start_bind`, `start_tryCatch` — a call, by the shape of the body;
    * `Machine.Follows` — a function that goes on, `await` by `await`, as a state machine
      says;
    * `Safe.tryCatch` — a `try` around anything is safe if its `catch` is;
    * `Safe.not_rejects` — the promise of a safe function is never rejected. -/

namespace AsyncFunction

variable {σ ε α β κ : Type}

/-! ## Programs -/

/-- The body of an asynchronous function with results `α`. -/
inductive Prog (σ ε α : Type) : Type where
  | ret (a : α) : Prog σ ε α
  | raise : Prog σ ε α
  /-- The state is read and changed. -/
  | act (f : σ → σ) (k : σ → Prog σ ε α) : Prog σ ε α
  | await (k : ε → Prog σ ε α) : Prog σ ε α

namespace Prog

/-- One program after the other. -/
def bind : Prog σ ε α → (α → Prog σ ε β) → Prog σ ε β
  | ret a, g => g a
  | raise, _ => raise
  | act f k, g => act f (fun s => bind (k s) g)
  | await k, g => await (fun o => bind (k o) g)

instance : Monad (Prog σ ε) where
  pure := ret
  bind := bind

/-- `try … catch`, where the `catch` does not look at the exception. -/
def tryCatch : Prog σ ε α → Prog σ ε α → Prog σ ε α
  | ret a, _ => ret a
  | raise, handler => handler
  | act f k, handler => act f (fun s => tryCatch (k s) handler)
  | await k, handler => await (fun o => tryCatch (k o) handler)

def get : Prog σ ε σ := act id ret

def modify (f : σ → σ) : Prog σ ε Unit := act f (fun _ => ret ())

/-- An expression that throws where it has no value. -/
def orThrow : Option α → Prog σ ε α
  | some a => ret a
  | none => raise

/-- An operation that throws if the environment wants it to. -/
def fallible (fails : Bool) : Prog σ ε Unit := if fails then raise else ret ()

/-- The operation has been invoked; an outcome without a value is a rejection. -/
def settled (value : ε → Option α) : Prog σ ε α := await (fun o => orThrow (value o))

end Prog

/-! ## Calls -/

/-- What has become of a call: the promise is fulfilled, rejected or pending. -/
inductive Status (σ ε α : Type) : Type where
  | returned (a : α)
  | thrown
  | suspended (k : ε → Prog σ ε α)

/-- A body runs up to its next `await`. -/
def start : Prog σ ε α → σ → σ × Status σ ε α
  | .ret a, s => (s, .returned a)
  | .raise, s => (s, .thrown)
  | .act f k, s => start (k s) (f s)
  | .await k, s => (s, .suspended k)

/-- The promise is rejected, now or after operations have settled with some outcomes, in
    whatever states they find. -/
inductive Rejects : Status σ ε α → Prop where
  | now : Rejects .thrown
  | later {k : ε → Prog σ ε α} {o : ε} {s : σ} :
      Rejects (start (k o) s).2 → Rejects (.suspended k)

section Start

variable (s : σ)

@[simp] theorem start_get : start (.get : Prog σ ε σ) s = (s, .returned s) := rfl

@[simp] theorem start_modify (f : σ → σ) :
    start (.modify f : Prog σ ε Unit) s = (f s, .returned ()) := rfl

@[simp] theorem start_orThrow (a : Option α) :
    start (.orThrow a : Prog σ ε α) s
      = (s, match a with
        | some a => .returned a
        | none => .thrown) := by
  cases a <;> rfl

@[simp] theorem start_fallible (fails : Bool) :
    start (.fallible fails : Prog σ ε Unit) s
      = (s, if fails then .thrown else .returned ()) := by
  cases fails <;> rfl

/-- A sequence stops where its first part does. -/
@[simp] theorem start_bind (p : Prog σ ε α) (g : α → Prog σ ε β) :
    start (p >>= g) s =
      match start p s with
      | (s', .returned a) => start (g a) s'
      | (s', .thrown) => (s', .thrown)
      | (s', .suspended k) => (s', .suspended (fun o => k o >>= g)) := by
  induction p generalizing s with
  | ret a => rfl
  | raise => rfl
  | act f k ih => exact ih s (f s)
  | await k ih => rfl

/-- A `try` goes on in its `catch` where its body throws. -/
@[simp] theorem start_tryCatch (p handler : Prog σ ε α) :
    start (p.tryCatch handler) s =
      match start p s with
      | (s', .returned a) => (s', .returned a)
      | (s', .thrown) => start handler s'
      | (s', .suspended k) => (s', .suspended (fun o => (k o).tryCatch handler)) := by
  induction p generalizing s with
  | ret a => rfl
  | raise => rfl
  | act f k ih => exact ih s (f s)
  | await k ih => rfl

end Start

/-! ## Functions as machines -/

/-- What follows an `await` inside a `try`. -/
def awaited (value : ε → Option β) (g : β → Prog σ ε α) (handler : Prog σ ε α) (o : ε) :
    Prog σ ε α :=
  (Prog.orThrow (value o) >>= g).tryCatch handler

/-- A state machine with suspended calls `κ`, which await operations: the value such an
    operation is fulfilled with, what it leaves when it settles, and what it is to invoke
    the operation of a call between two states. -/
structure Machine (σ ε β κ : Type) where
  value : ε → Option β
  settle : κ → ε → σ → σ
  Invokes : κ → σ → σ → Prop

namespace Machine

/-- What is left of a call goes on as the machine says, to its end. -/
inductive Follows (M : Machine σ ε β κ) : κ → (ε → Prog σ ε α) → Prop where
  | last {call : κ} {k : ε → Prog σ ε α}
      (hdone : ∀ o s, ∃ a, start (k o) s = (M.settle call o s, .returned a)) :
      Follows M call k
  | more {call : κ} {k : ε → Prog σ ε α} (call' : β → κ) (k' : β → ε → Prog σ ε α)
      (hrejected : ∀ o, M.value o = none → ∀ s, ∃ a,
        start (k o) s = (M.settle call o s, .returned a))
      (hfulfilled : ∀ o b, M.value o = some b → ∀ s,
        start (k o) s = (M.settle call o s, .suspended (k' b)) ∧
          M.Invokes (call' b) s (M.settle call o s))
      (hfollows : ∀ b, Follows M (call' b) (k' b)) : Follows M call k

/-- A call of the function leaves the state `t`, and what is left of it, if it is
    suspended, is such a call of the machine. -/
def Starts (M : Machine σ ε β κ) (such : κ → Prop) (p : Prog σ ε α) (s t : σ) : Prop :=
  (∃ a, start p s = (t, .returned a)) ∨
    ∃ call k, such call ∧ start p s = (t, .suspended k) ∧ M.Follows call k

theorem Starts.state {M : Machine σ ε β κ} {such : κ → Prop} {p : Prog σ ε α} {s t : σ}
    (h : M.Starts such p s t) : (start p s).1 = t := by
  rcases h with ⟨a, h⟩ | ⟨call, k, -, h, -⟩
  · rw [h]
  · rw [h]

end Machine

/-! ## Functions that never reject -/

/-- No way through the body ends in an exception. -/
inductive Safe : Prog σ ε α → Prop where
  | ret (a : α) : Safe (.ret a)
  | act {f : σ → σ} {k : σ → Prog σ ε α} : (∀ s, Safe (k s)) → Safe (.act f k)
  | await {k : ε → Prog σ ε α} : (∀ o, Safe (k o)) → Safe (.await k)

theorem Safe.modify (f : σ → σ) : Safe (.modify f : Prog σ ε Unit) :=
  .act (fun _ => .ret ())

theorem Safe.get : Safe (.get : Prog σ ε σ) := .act (fun s => .ret s)

theorem Safe.bind {p : Prog σ ε α} {g : α → Prog σ ε β} (hp : Safe p)
    (hg : ∀ a, Safe (g a)) : Safe (p >>= g) := by
  induction hp with
  | ret a => exact hg a
  | act _ ih => exact .act ih
  | await _ ih => exact .await ih

/-- **A SAFE `catch`** makes the whole `try` safe, whatever its body does. -/
theorem Safe.tryCatch {handler : Prog σ ε α} (h : Safe handler) (p : Prog σ ε α) :
    Safe (p.tryCatch handler) := by
  induction p with
  | ret a => exact .ret a
  | raise => exact h
  | act f k ih => exact .act ih
  | await k ih => exact .await ih

/-- What is left of a safe function is safe. -/
theorem Safe.start {p : Prog σ ε α} (h : Safe p) (s : σ) :
    (∃ a, (start p s).2 = .returned a) ∨
      ∃ k, (start p s).2 = .suspended k ∧ ∀ o, Safe (k o) := by
  induction h generalizing s with
  | ret a => exact Or.inl ⟨a, rfl⟩
  | @act f k _ ih => exact ih s (f s)
  | @await k hk _ => exact Or.inr ⟨k, rfl, hk⟩

/-- **NO REJECTION**: the promise of a safe function is never rejected. -/
theorem Safe.not_rejects {p : Prog σ ε α} (h : Safe p) (s : σ) :
    ¬ Rejects (AsyncFunction.start p s).2 := by
  intro hrej
  generalize hst : (AsyncFunction.start p s).2 = st at hrej
  induction hrej generalizing p s with
  | now =>
      rcases h.start s with ⟨a, ha⟩ | ⟨k, hk, -⟩
      · rw [ha] at hst
        cases hst
      · rw [hk] at hst
        cases hst
  | @later k o s' _ ih =>
      rcases h.start s with ⟨a, ha⟩ | ⟨k', hk', hsafe⟩
      · rw [ha] at hst
        cases hst
      · rw [hk'] at hst
        cases hst
        exact ih (hsafe o) s' rfl

/-! ## Handlers -/

/-- What a handler did that is no asynchronous function itself: the state it left, whether
    an exception left it, and the promise of the function it called without awaiting it. -/
structure Fired (τ σ ε : Type) where
  state : τ
  threw : Bool
  promise : Option (Status σ ε Unit)

/-- An exception left the handler, or the promise nobody awaits is rejected some time. -/
def Fired.Escapes {τ : Type} (r : Fired τ σ ε) : Prop :=
  r.threw = true ∨ ∃ st, r.promise = some st ∧ Rejects st

/-- The handler calls the function and goes on. -/
def fire (p : Prog σ ε Unit) (after : σ → σ) (s : σ) : Fired σ σ ε :=
  ⟨after (start p s).1, false, some (start p s).2⟩

/-- A handler that called no asynchronous function. -/
theorem Fired.escapes_of_sync {τ : Type} (t : τ) (threw : Bool) :
    (⟨t, threw, none⟩ : Fired τ σ ε).Escapes ↔ threw = true := by
  constructor
  · rintro (h | ⟨st, hst, -⟩)
    · exact h
    · cases hst
  · exact fun h => Or.inl h

theorem Fired.quiet_not_escapes {τ : Type} (t : τ) :
    ¬ (⟨t, false, none⟩ : Fired τ σ ε).Escapes := by
  rw [Fired.escapes_of_sync]
  exact Bool.false_ne_true

/-- The state of a handler is part of a larger one. -/
def Fired.within {τ τ' : Type} (f : τ → τ') (r : Fired τ σ ε) : Fired τ' σ ε :=
  ⟨f r.state, r.threw, r.promise⟩

theorem Fired.within_escapes {τ τ' : Type} (f : τ → τ') (r : Fired τ σ ε) :
    (r.within f).Escapes ↔ r.Escapes := Iff.rfl

theorem Safe.not_escapes {p : Prog σ ε Unit} (h : Safe p) (after : σ → σ) (s : σ) :
    ¬ (fire p after s).Escapes := by
  rintro (hthrew | ⟨st, hst, hrej⟩)
  · cases hthrew
  · cases hst
    exact h.not_rejects s hrej

end AsyncFunction
