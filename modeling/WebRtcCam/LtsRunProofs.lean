import Mathlib.Data.List.Infix

/-! # Runs of executable transition systems

    A transition system here is a partial step FUNCTION: `step s e` is `none`
    when event `e` cannot happen in `s`.  Every nondeterminism (scheduling,
    network, environment) sits in the choice of events, so a concrete run is
    evaluated by `exec`, and a property of all runs is a property of
    `ReachVia`.

    * `ReachVia M C` — states reached by runs all of whose steps meet `C`;
    * `Reachable M` — the same with no condition on the steps;
    * `ReachVia.invariant` — the induction rule every safety result goes
      through;
    * `ReachVia.of_exec`, `Reachable.of_exec` — evaluated runs are runs;
    * `LaterVia`, `Later` — one state reached from another, for claims about two
      moments of one run;
    * `ReachVia.project` — a component of a composed system runs its own
      system;
    * `exec_refines` — one system runs as another does, through an abstraction
      function;
    * `logged` — a system that keeps a log of its steps, for claims about what
      happened on the way;
    * `purge_run` — a run with the events left out that nobody sees;
    * `own_length`, `comes_to_rest` — runs of a system's own steps, which lower a
      potential: how long they are, and that one of them ends where no such step is
      possible. -/

namespace LtsRun

variable {σ ε τ η : Type}

/-- An executable transition system. -/
structure Lts (σ ε : Type) where
  init : σ → Prop
  step : σ → ε → Option σ

/-- The states reached by runs all of whose steps meet `C`. -/
inductive ReachVia (M : Lts σ ε) (C : σ → ε → Prop) : σ → Prop where
  | init {s : σ} : M.init s → ReachVia M C s
  | step {s s' : σ} {e : ε} :
      ReachVia M C s → C s e → M.step s e = some s' → ReachVia M C s'

/-- The states reached by any run. -/
def Reachable (M : Lts σ ε) : σ → Prop :=
  ReachVia M (fun _ _ => True)

/-- The states reached from `s` by further steps that all meet `C`. -/
inductive LaterVia (M : Lts σ ε) (C : σ → ε → Prop) (s : σ) : σ → Prop where
  | refl : LaterVia M C s s
  | step {u v : σ} {e : ε} :
      LaterVia M C s u → C u e → M.step u e = some v → LaterVia M C s v

/-- The states reached from `s` by any further run. -/
def Later (M : Lts σ ε) : σ → σ → Prop :=
  LaterVia M (fun _ _ => True)

/-- Run a list of events, checking the condition `C` before each step. -/
def execVia (M : Lts σ ε) (C : σ → ε → Bool) : σ → List ε → Option σ
  | s, [] => some s
  | s, e :: es =>
      if C s e then
        match M.step s e with
        | some s' => execVia M C s' es
        | none => none
      else none

/-- Run a list of events. -/
def exec (M : Lts σ ε) : σ → List ε → Option σ :=
  execVia M (fun _ _ => true)

/-- **THE INVARIANT RULE**: what holds initially and is preserved by every
    step that meets the condition holds in every state reached.  The step
    case may use that its source state is itself reached. -/
theorem ReachVia.invariant {M : Lts σ ε} {C : σ → ε → Prop} {I : σ → Prop}
    (h0 : ∀ s, M.init s → I s)
    (hstep : ∀ s e s', ReachVia M C s → I s → C s e →
      M.step s e = some s' → I s')
    {s : σ} (h : ReachVia M C s) : I s := by
  induction h with
  | init hi => exact h0 _ hi
  | step hr hc hs ih => exact hstep _ _ _ hr ih hc hs

/-- A run under a stronger condition is a run under a weaker one. -/
theorem ReachVia.mono {M : Lts σ ε} {C D : σ → ε → Prop}
    (hCD : ∀ s e, C s e → D s e) {s : σ} (h : ReachVia M C s) :
    ReachVia M D s := by
  induction h with
  | init hi => exact .init hi
  | step _ hc hs ih => exact .step ih (hCD _ _ hc) hs

/-- Every conditioned run is a run. -/
theorem ReachVia.reachable {M : Lts σ ε} {C : σ → ε → Prop} {s : σ}
    (h : ReachVia M C s) : Reachable M s :=
  h.mono (fun _ _ _ => trivial)

/-- A run of at least one event takes its first step and runs on. -/
theorem execVia_cons {M : Lts σ ε} {c : σ → ε → Bool} {s t : σ} {e : ε} {es : List ε}
    (h : execVia M c s (e :: es) = some t) :
    ∃ u, c s e = true ∧ M.step s e = some u ∧ execVia M c u es = some t := by
  simp only [execVia] at h
  split at h
  · next hc =>
      split at h
      · next u hu => exact ⟨u, hc, hu, h⟩
      · exact nomatch h
  · exact nomatch h

theorem execVia_step {M : Lts σ ε} {c : σ → ε → Bool} {s u t : σ} {e : ε} {es : List ε}
    (hc : c s e = true) (hu : M.step s e = some u) (h : execVia M c u es = some t) :
    execVia M c s (e :: es) = some t := by
  simp only [execVia, hc, hu, if_true]
  exact h

theorem exec_cons {M : Lts σ ε} {s t : σ} {e : ε} {es : List ε}
    (h : exec M s (e :: es) = some t) :
    ∃ u, M.step s e = some u ∧ exec M u es = some t := by
  obtain ⟨u, -, hu, hrest⟩ := execVia_cons h
  exact ⟨u, hu, hrest⟩

theorem exec_step {M : Lts σ ε} {s u t : σ} {e : ε} {es : List ε}
    (hu : M.step s e = some u) (h : exec M u es = some t) : exec M s (e :: es) = some t :=
  execVia_step rfl hu h

/-- Evaluated runs are runs, from any state already reached. -/
theorem ReachVia.of_execVia {M : Lts σ ε} {C : σ → ε → Prop}
    {c : σ → ε → Bool} (hc : ∀ s e, c s e = true → C s e) (es : List ε) :
    ∀ {s s' : σ}, ReachVia M C s → execVia M c s es = some s' → ReachVia M C s' := by
  induction es with
  | nil =>
      intro s s' hr he
      have hs : s = s' := Option.some.inj he
      rw [← hs]
      exact hr
  | cons e es ih =>
      intro s s' hr he
      obtain ⟨u, hce, hu, hrest⟩ := execVia_cons he
      exact ih (.step hr (hc s e hce) hu) hrest

/-- An evaluated run from an initial state reaches its last state. -/
theorem ReachVia.of_exec {M : Lts σ ε} {C : σ → ε → Prop}
    {c : σ → ε → Bool} (hc : ∀ s e, c s e = true → C s e)
    {s s' : σ} (h0 : M.init s) {es : List ε}
    (he : execVia M c s es = some s') : ReachVia M C s' :=
  ReachVia.of_execVia hc es (.init h0) he

theorem Reachable.of_exec {M : Lts σ ε} {s s' : σ} (h0 : M.init s)
    {es : List ε} (he : exec M s es = some s') : Reachable M s' :=
  ReachVia.of_exec (fun _ _ _ => trivial) h0 he

/-- A run that meets a condition is the same run without it. -/
theorem exec_of_execVia {M : Lts σ ε} {c : σ → ε → Bool} (es : List ε) :
    ∀ {s s' : σ}, execVia M c s es = some s' → exec M s es = some s' := by
  induction es with
  | nil => exact fun h => h
  | cons e es ih =>
      intro s s' he
      obtain ⟨u, -, hu, hrest⟩ := execVia_cons he
      exact exec_step hu (ih hrest)

/-- The state a list of events leads to; `s` itself if one of them cannot happen. -/
def after (M : Lts σ ε) (s : σ) (es : List ε) : σ := (exec M s es).getD s

theorem after_eq {M : Lts σ ε} {s t : σ} {es : List ε} (h : exec M s es = some t) :
    after M s es = t := by
  rw [after, h]
  rfl

theorem ReachVia.of_after {M : Lts σ ε} {C : σ → ε → Prop}
    {c : σ → ε → Bool} (hc : ∀ s e, c s e = true → C s e)
    {s : σ} (h0 : M.init s) {es : List ε}
    (h : (execVia M c s es).isSome = true) : ReachVia M C (after M s es) := by
  obtain ⟨t, ht⟩ := Option.isSome_iff_exists.mp h
  rw [after_eq (exec_of_execVia es ht)]
  exact ReachVia.of_exec hc h0 ht

/-- A run that is evaluated once, together with what is to be seen in its last state. -/
theorem ReachVia.of_check {M : Lts σ ε} {C : σ → ε → Prop}
    {c : σ → ε → Bool} (hc : ∀ s e, c s e = true → C s e)
    {s : σ} (h0 : M.init s) {es : List ε} {p : σ → Bool}
    (h : (execVia M c s es).any p = true) :
    ∃ t, exec M s es = some t ∧ ReachVia M C t ∧ p t = true := by
  obtain ⟨t, ht, hp⟩ := (Option.any_eq_true _ _).mp h
  exact ⟨t, exec_of_execVia es ht, ReachVia.of_exec hc h0 ht, hp⟩

/-- A state later than a reached one is reached. -/
theorem LaterVia.reachable {M : Lts σ ε} {C : σ → ε → Prop} {s t : σ}
    (h : LaterVia M C s t) (hs : Reachable M s) : Reachable M t := by
  induction h with
  | refl => exact hs
  | step _ _ hstep ih => exact .step ih trivial hstep

/-- What every step that meets the condition preserves, a later state still
    has. -/
theorem LaterVia.preserves {M : Lts σ ε} {C : σ → ε → Prop} {I : σ → Prop}
    {s t : σ} (hstep : ∀ u e v, I u → C u e → M.step u e = some v → I v)
    (h : LaterVia M C s t) (hs : I s) : I t := by
  induction h with
  | refl => exact hs
  | step _ hc hst ih => exact hstep _ _ _ ih hc hst

/-- **PROJECTION**: if every step of a composed system leaves a component
    alone or is a step of that component's own system, then the component of
    a reached state is reached in its own system.  Whether the component's step
    meets its own condition may depend on the whole state being reached. -/
theorem ReachVia.project {M : Lts σ ε} {N : Lts τ η} {C : σ → ε → Prop}
    {D : τ → η → Prop} (f : σ → τ)
    (h0 : ∀ s, M.init s → N.init (f s))
    (hstep : ∀ s e s', ReachVia M C s → C s e → M.step s e = some s' →
      f s' = f s ∨ ∃ d, D (f s) d ∧ N.step (f s) d = some (f s'))
    {s : σ} (h : ReachVia M C s) : ReachVia N D (f s) := by
  induction h with
  | init hi => exact .init (h0 _ hi)
  | step hr hc hs ih =>
      rcases hstep _ _ _ hr hc hs with heq | ⟨d, hd, hds⟩
      · rw [heq]
        exact ih
      · exact .step ih hd hds

/-- **REFINEMENT**: if every step, from a state that meets the invariant, is a step of
    the other system or none at all, then so is every run. -/
theorem exec_refines {M : Lts σ ε} {N : Lts τ η} {I : σ → Prop} (f : σ → τ)
    (g : ε → Option η)
    (hstep : ∀ s e s', I s → M.step s e = some s' → I s' ∧
      (∀ d, g e = some d → N.step (f s) d = some (f s')) ∧ (g e = none → f s' = f s)) :
    ∀ (es : List ε) {s s' : σ}, I s → exec M s es = some s' →
      I s' ∧ exec N (f s) (es.filterMap g) = some (f s') := by
  intro es
  induction es with
  | nil =>
      intro s s' hi he
      cases he
      exact ⟨hi, rfl⟩
  | cons e es ih =>
      intro s s' hi he
      obtain ⟨u, hu, hrun⟩ := exec_cons he
      obtain ⟨hiu, hsome, hnone⟩ := hstep s e u hi hu
      obtain ⟨his, hrest⟩ := ih hiu hrun
      refine ⟨his, ?_⟩
      cases hg : g e with
      | none =>
          rw [List.filterMap_cons_none hg, ← hnone hg]
          exact hrest
      | some d =>
          rw [List.filterMap_cons_some hg]
          exact exec_step (hsome d hg) hrest

/-! ## Systems with a log -/

/-- The system with a log beside it: `note s e` is written down when `e` happens in
    `s`.  The log has no influence on the run. -/
def logged {ν : Type} (M : Lts σ ε) (note : σ → ε → List ν) : Lts (σ × List ν) ε where
  init := fun p => M.init p.1 ∧ p.2 = []
  step := fun p e => (M.step p.1 e).map (fun s' => (s', p.2 ++ note p.1 e))

theorem logged_init {ν : Type} {M : Lts σ ε} {note : σ → ε → List ν} {s : σ}
    (h : M.init s) : (logged M note).init (s, []) := ⟨h, rfl⟩

theorem logged_step {ν : Type} {M : Lts σ ε} {note : σ → ε → List ν}
    {p p' : σ × List ν} {e : ε} (h : (logged M note).step p e = some p') :
    M.step p.1 e = some p'.1 ∧ p'.2 = p.2 ++ note p.1 e := by
  obtain ⟨s', hs, rfl⟩ := Option.map_eq_some_iff.mp h
  exact ⟨hs, rfl⟩

/-- A run with a log is a run. -/
theorem ReachVia.unlogged {ν : Type} {M : Lts σ ε} {note : σ → ε → List ν}
    {C : σ → ε → Prop} {p : σ × List ν}
    (h : ReachVia (logged M note) (fun p e => C p.1 e) p) : ReachVia M C p.1 := by
  refine ReachVia.project (M := logged M note) (N := M) Prod.fst ?_ ?_ h
  · intro p h0
    exact h0.1
  · intro p e p' _ hc hs
    exact Or.inr ⟨e, hc, (logged_step hs).1⟩

/-- What a run with a log does is what it does without. -/
theorem exec_unlogged {ν : Type} {M : Lts σ ε} {note : σ → ε → List ν} :
    ∀ (es : List ε) {p p' : σ × List ν}, exec (logged M note) p es = some p' →
      exec M p.1 es = some p'.1 := by
  intro es
  induction es with
  | nil =>
      intro p p' h
      rw [Option.some.inj h]
      rfl
  | cons e es ih =>
      intro p p' h
      obtain ⟨q, hq, hrest⟩ := exec_cons h
      exact exec_step (logged_step hq).1 (ih hrest)

/-! ## Runs with events left out

    Some of the events of a transition system are HIDDEN.  If a relation between two
    states survives a hidden event on the left alone, and a visible event on both sides,
    then a run on the left can be followed on the right with the hidden events left out. -/

section Purge

variable {M : Lts σ ε} {c : σ → ε → Bool} {hidden : ε → Bool} {R : σ → σ → Prop}

/-- The events that are left. -/
def purge (hidden : ε → Bool) (es : List ε) : List ε := es.filter (fun e => !hidden e)

theorem purge_hidden {e : ε} {es : List ε} (h : hidden e = true) :
    purge hidden (e :: es) = purge hidden es := by
  rw [purge, List.filter_cons_of_neg (by rw [h]; exact Bool.false_ne_true)]
  rfl

theorem purge_visible {e : ε} {es : List ε} (h : hidden e = false) :
    purge hidden (e :: es) = e :: purge hidden es := by
  rw [purge, List.filter_cons_of_pos (by rw [h]; rfl)]
  rfl

/-- Hidden events change nothing that `R` can see. -/
def Unseen (M : Lts σ ε) (c : σ → ε → Bool) (hidden : ε → Bool) (R : σ → σ → Prop) : Prop :=
  ∀ s t e s', R s t → c s e = true → hidden e = true → M.step s e = some s' → R s' t

/-- Visible events happen on both sides. -/
def Followed (M : Lts σ ε) (c : σ → ε → Bool) (hidden : ε → Bool) (R : σ → σ → Prop) : Prop :=
  ∀ s t e s', R s t → c s e = true → hidden e = false → M.step s e = some s' →
    ∃ t', M.step t e = some t' ∧ R s' t'

/-- **THE PURGED RUN** is a run, and ends in a related state. -/
theorem purge_run (hun : Unseen M c hidden R) (hfol : Followed M c hidden R) (es : List ε) :
    ∀ {s t s' : σ}, R s t → execVia M c s es = some s' →
      ∃ t', exec M t (purge hidden es) = some t' ∧ R s' t' := by
  induction es with
  | nil =>
      intro s t s' hR h
      cases h
      exact ⟨t, rfl, hR⟩
  | cons e es ih =>
      intro s t s' hR h
      obtain ⟨u, hc, hu, hrest⟩ := execVia_cons h
      cases he : hidden e with
      | true =>
          rw [purge_hidden he]
          exact ih (hun s t e u hR hc he hu) hrest
      | false =>
          obtain ⟨v, hv, hR'⟩ := hfol s t e u hR hc he hu
          obtain ⟨t', ht', hR''⟩ := ih hR' hrest
          refine ⟨t', ?_, hR''⟩
          rw [purge_visible he]
          exact exec_step hv ht'

end Purge

/-! ## Runs that come to rest

    Some of the steps of a transition system are its OWN: nobody outside has to do
    anything for them. -/

section Rest

variable {M : Lts σ ε} {c : σ → ε → Bool} {w : σ → Nat} {I : σ → Prop}

/-- No step of its own is possible. -/
def Stuck (M : Lts σ ε) (c : σ → ε → Bool) (s : σ) : Prop :=
  ∀ e, c s e = true → M.step s e = none

/-- Every own step, from where `I` holds, lowers the potential. -/
def Lowers (M : Lts σ ε) (I : σ → Prop) (c : σ → ε → Bool) (w : σ → Nat) : Prop :=
  ∀ s e t, I s → c s e = true → M.step s e = some t → w t < w s

/-- Own steps keep `I`. -/
def Keeping (M : Lts σ ε) (I : σ → Prop) (c : σ → ε → Bool) : Prop :=
  ∀ s e t, I s → c s e = true → M.step s e = some t → I t

/-- **ALONG A RUN**: what own steps keep is kept by their runs. -/
theorem run_keeps (hI : Keeping M I c) (es : List ε) :
    ∀ {s t : σ}, I s → execVia M c s es = some t → I t := by
  induction es with
  | nil =>
      intro s t hs h
      cases h
      exact hs
  | cons e es ih =>
      intro s t hs h
      obtain ⟨u, hc, hu, hrest⟩ := execVia_cons h
      exact ih (hI s e u hs hc hu) hrest

/-- **THE LENGTH** of a run is paid for out of the potential. -/
theorem own_length (hI : Keeping M I c) (hw : Lowers M I c w) (es : List ε) :
    ∀ {s t : σ}, I s → execVia M c s es = some t → es.length + w t ≤ w s := by
  induction es with
  | nil =>
      intro s t hs h
      cases h
      exact Nat.le_of_eq (Nat.zero_add _)
  | cons e es ih =>
      intro s t hs h
      obtain ⟨u, hc, hu, hrest⟩ := execVia_cons h
      have hlt := hw s e u hs hc hu
      have hle := ih (hI s e u hs hc hu) hrest
      rw [List.length_cons]
      omega

/-- **AN END IS REACHED**: some run of own steps ends where none is possible. -/
theorem comes_to_rest (hI : Keeping M I c) (hw : Lowers M I c w) (k : Nat) :
    ∀ {s : σ}, w s ≤ k → I s → ∃ es t, execVia M c s es = some t ∧ Stuck M c t := by
  induction k with
  | zero =>
      intro s hk hs
      refine ⟨[], s, rfl, fun e hc => ?_⟩
      by_contra hne
      obtain ⟨u, hu⟩ := Option.ne_none_iff_exists'.mp hne
      have hlt := hw s e u hs hc hu
      omega
  | succ k ih =>
      intro s hk hs
      by_cases hst : Stuck M c s
      · exact ⟨[], s, rfl, hst⟩
      · -- one more step can be taken, and the potential is lower after it
        simp only [Stuck, not_forall] at hst
        obtain ⟨e, hc, hne⟩ := hst
        obtain ⟨u, hu⟩ := Option.ne_none_iff_exists'.mp hne
        have hlt := hw s e u hs hc hu
        obtain ⟨es, t, hrun, ht⟩ := ih (by omega) (hI s e u hs hc hu)
        exact ⟨e :: es, t, execVia_step hc hu hrun, ht⟩

end Rest

end LtsRun
