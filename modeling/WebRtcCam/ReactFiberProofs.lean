import Mathlib.Tactic.Simps.Basic

/-! # A component with one effect

    The part of React that components and hooks with one effect need, over arbitrary
    variables `V`, updates `U`, props `P` and dependencies `D`.  Setters queue updates;
    a render applies the whole queue in order and commits the result together with the
    props it was called with; the effect is due after the commit if its dependencies
    changed, and runs before the next render.

    * `next_set`, `next_commit` — the variables the next render will have;
    * `get_foldl` — a variable has the value written last, or the one it had. -/

namespace ReactFiber

variable {V U P D : Type}

/-- What React keeps of a component: the committed variables and props, the queued
    updates, and whether the effect has still to run for this commit. -/
structure Fiber (V U P : Type) where
  vars : V
  props : P
  queue : List U
  due : Bool
  deriving DecidableEq, Repr

/-- The first commit: the effect is due. -/
@[simps] def Fiber.first (vars : V) (props : P) : Fiber V U P := ⟨vars, props, [], true⟩

/-- Setters are called, in this order. -/
@[simps] def Fiber.set (us : List U) (f : Fiber V U P) : Fiber V U P :=
  { f with queue := f.queue ++ us }

/-- The effect has run. -/
@[simps] def Fiber.flushed (f : Fiber V U P) : Fiber V U P := { f with due := false }

section Render

variable (apply : V → U → V)

/-- The variables the next render will have. -/
def Fiber.next (f : Fiber V U P) : V := f.queue.foldl apply f.vars

/-- A render with new props, and its commit. -/
@[simps] def Fiber.commit [DecidableEq D] (deps : P → V → D) (props : P)
    (f : Fiber V U P) : Fiber V U P where
  vars := f.next apply
  props := props
  queue := []
  due := deps f.props f.vars ≠ deps props (f.next apply)

@[simp] theorem Fiber.next_first (vars : V) (props : P) :
    (Fiber.first vars props : Fiber V U P).next apply = vars := rfl

@[simp] theorem Fiber.next_set (us : List U) (f : Fiber V U P) :
    (f.set us).next apply = us.foldl apply (f.next apply) := by
  show (f.queue ++ us).foldl apply f.vars = _
  rw [List.foldl_append]
  rfl

@[simp] theorem Fiber.next_flushed (f : Fiber V U P) :
    f.flushed.next apply = f.next apply := rfl

@[simp] theorem Fiber.next_commit [DecidableEq D] (deps : P → V → D) (props : P)
    (f : Fiber V U P) : (f.commit apply deps props).next apply = f.next apply := rfl

end Render

/-- A variable has the value an update wrote last, or no update wrote it and it has
    the value it had. -/
theorem get_foldl {α : Type} {apply : V → U → V} {get : V → α} {writes : U → Option α}
    (hget : ∀ v u, get (apply v u) = (writes u).getD (get v)) :
    ∀ (l : List U) (v : V),
      (get (l.foldl apply v) = get v ∧ ∀ u ∈ l, writes u = none) ∨
        ∃ u ∈ l, writes u = some (get (l.foldl apply v)) := by
  intro l
  induction l with
  | nil => intro v; exact Or.inl ⟨rfl, fun _ hu => (nomatch hu)⟩
  | cons u l ih =>
      intro v
      rw [List.foldl_cons]
      rcases ih (apply v u) with ⟨heq, hnone⟩ | ⟨w, hw, heq⟩
      · cases hu : writes u with
        | none =>
            refine Or.inl ⟨?_, fun w hw => ?_⟩
            · rw [heq, hget, hu]
              rfl
            · rcases List.mem_cons.mp hw with rfl | hw
              · exact hu
              · exact hnone w hw
        | some a =>
            refine Or.inr ⟨u, List.mem_cons_self .., ?_⟩
            rw [heq, hget, hu]
            rfl
      · exact Or.inr ⟨w, List.mem_cons_of_mem _ hw, heq⟩

end ReactFiber
