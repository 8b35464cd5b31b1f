import WebRtcCam.LtsRunProofs
import WebRtcCam.ReactFiberProofs

/-! # The hook `useMediaStream`

    `webrtc/src/hooks/useMediaStream.ts`.  Every run of the effect asks for a stream of
    its own.  Its cleanup stops the stream it CAPTURED, the one committed when the
    effect was created, and not the one it acquired: that one is stopped by the cleanup
    of the run after it, if there is one.

    A stream is stopped when `getTracks().forEach(track => track.stop())` is called on
    it; the hook never stops a single track, and `getUserMedia` never returns a stream
    twice.

    * `granted_step`, `flush_step` — what the invariant needs of a grant and of a
      cleanup;
    * `camera_owned` — if a stream is acquired only when all others are stopped, a
      cleanup does not hit the stream in use, and the unmount finds it captured, the
      hook owns at most one stream and leaves none. -/

namespace UseMediaStream

open LtsRun ReactFiber

/-! ## The hook -/

/-- The `useState` variables. -/
structure Vars where
  stream : Option Nat
  isReady : Bool
  error : Option String
  retryCount : Nat
  deriving DecidableEq, Repr

def Vars.initial : Vars := ⟨none, false, none, 0⟩

inductive Update where
  | setStream (stream : Nat)
  | setIsReady (b : Bool)
  | setError (error : Option String)
  | incRetryCount
  deriving DecidableEq, Repr

def Vars.apply (v : Vars) : Update → Vars
  | .setStream stream => { v with stream := some stream }
  | .setIsReady b => { v with isReady := b }
  | .setError error => { v with error := error }
  | .incRetryCount => { v with retryCount := v.retryCount + 1 }

/-- The dependencies of the effect; `constraints` is known by its identity. -/
def deps (constraints : Nat) (v : Vars) : Nat × Nat := (constraints, v.retryCount)

/-- One run of the effect: the stream its render had committed, and whether its
    request is outstanding. -/
structure Run where
  stream : Option Nat
  pending : Bool
  deriving DecidableEq, Repr

/-- The hook.  `isMounted` is true in the current run and false in the past ones, whose
    cleanup has run. -/
structure Hook where
  mounted : Bool
  fiber : Fiber Vars Update Nat
  current : Option Run
  past : List Run
  /-- The streams `getUserMedia` has returned are numbered. -/
  acquired : Nat
  stopped : List Nat
  deriving DecidableEq, Repr

/-- The first render has been committed. -/
def Hook.initial (constraints : Nat) : Hook where
  mounted := true
  fiber := .first .initial constraints
  current := none
  past := []
  acquired := 0
  stopped := []

/-- The cleanup of the current run: `isMounted = false`, and the captured stream is
    stopped. -/
@[simps] def cleanup (s : Hook) : Hook :=
  { s with
    current := none
    past := s.past ++ s.current.toList
    stopped := s.stopped ++ (s.current.bind Run.stream).toList }

/-- What the `catch` sets, whether the run is still the current one or not. -/
def failed (error : String) : List Update := [.setError (some error), .setIsReady false]

inductive Event where
  | render (constraints : Nat)
  | flushEffects
  | grant
  | deny (error : String)
  | lateGrant (i : Nat)
  | lateDeny (i : Nat) (error : String)
  | retry
  | unmount
  deriving DecidableEq, Repr

/-- One step of the hook.  Before a component is unmounted its effects are run. -/
def step (s : Hook) : Event → Option Hook
  | .render constraints =>
      if s.mounted && !s.fiber.due then
        some { s with fiber := s.fiber.commit Vars.apply deps constraints }
      else none
  | .flushEffects =>
      if s.mounted && s.fiber.due then
        some { cleanup s with
          fiber := s.fiber.flushed
          current := some ⟨s.fiber.vars.stream, true⟩ }
      else none
  | .grant =>
      match s.current with
      | some ⟨stream, true⟩ =>
          some { s with
            fiber := s.fiber.set [.setStream s.acquired, .setError none, .setIsReady true]
            current := some ⟨stream, false⟩
            acquired := s.acquired + 1 }
      | _ => none
  | .deny error =>
      match s.current with
      | some ⟨stream, true⟩ =>
          some { s with
            fiber := s.fiber.set (failed error)
            current := some ⟨stream, false⟩ }
      | _ => none
  | .lateGrant i =>
      -- the component has moved on: the new stream is stopped at once
      match s.past[i]? with
      | some ⟨stream, true⟩ =>
          some { s with
            past := s.past.set i ⟨stream, false⟩
            acquired := s.acquired + 1
            stopped := s.stopped ++ [s.acquired] }
      | _ => none
  | .lateDeny i error =>
      match s.past[i]? with
      | some ⟨stream, true⟩ =>
          some { s with
            fiber := s.fiber.set (failed error)
            past := s.past.set i ⟨stream, false⟩ }
      | _ => none
  | .retry =>
      if s.mounted then some { s with fiber := s.fiber.set [.incRetryCount] } else none
  | .unmount =>
      if s.mounted && !s.fiber.due then some { cleanup s with mounted := false } else none

/-- The hook as a transition system. -/
def hook : Lts Hook Event where
  init := fun s => ∃ constraints, s = .initial constraints
  step := step

/-! ## Inversion -/

/-- The steps of the hook, as a relation. -/
inductive Step (s : Hook) : Event → Hook → Prop where
  | render {constraints : Nat} : s.mounted = true → s.fiber.due = false →
      Step s (.render constraints)
        { s with fiber := s.fiber.commit Vars.apply deps constraints }
  | flushEffects : s.mounted = true → s.fiber.due = true →
      Step s .flushEffects { cleanup s with
        fiber := s.fiber.flushed
        current := some ⟨s.fiber.vars.stream, true⟩ }
  | grant {stream : Option Nat} : s.current = some ⟨stream, true⟩ →
      Step s .grant { s with
        fiber := s.fiber.set [.setStream s.acquired, .setError none, .setIsReady true]
        current := some ⟨stream, false⟩
        acquired := s.acquired + 1 }
  | deny {stream : Option Nat} {error : String} : s.current = some ⟨stream, true⟩ →
      Step s (.deny error) { s with
        fiber := s.fiber.set (failed error)
        current := some ⟨stream, false⟩ }
  | lateGrant {i : Nat} {stream : Option Nat} : s.past[i]? = some ⟨stream, true⟩ →
      Step s (.lateGrant i) { s with
        past := s.past.set i ⟨stream, false⟩
        acquired := s.acquired + 1
        stopped := s.stopped ++ [s.acquired] }
  | lateDeny {i : Nat} {stream : Option Nat} {error : String} :
      s.past[i]? = some ⟨stream, true⟩ →
      Step s (.lateDeny i error) { s with
        fiber := s.fiber.set (failed error)
        past := s.past.set i ⟨stream, false⟩ }
  | retry : s.mounted = true →
      Step s .retry { s with fiber := s.fiber.set [.incRetryCount] }
  | unmount : s.mounted = true → s.fiber.due = false →
      Step s .unmount { cleanup s with mounted := false }

theorem step_cases {s s' : Hook} {e : Event} (h : step s e = some s') : Step s e s' := by
  cases e with
  | render constraints =>
      simp only [step] at h
      split at h
      · next hc =>
          cases h
          obtain ⟨hm, hd⟩ := Bool.and_eq_true_iff.mp hc
          exact .render hm (by simpa using hd)
      · exact nomatch h
  | flushEffects =>
      simp only [step] at h
      split at h
      · next hc =>
          cases h
          obtain ⟨hm, hd⟩ := Bool.and_eq_true_iff.mp hc
          exact .flushEffects hm hd
      · exact nomatch h
  | grant =>
      simp only [step] at h
      split at h
      · next stream hcur => cases h; exact .grant hcur
      · exact nomatch h
  | deny error =>
      simp only [step] at h
      split at h
      · next stream hcur => cases h; exact .deny hcur
      · exact nomatch h
  | lateGrant i =>
      simp only [step] at h
      split at h
      · next stream hrun => cases h; exact .lateGrant hrun
      · exact nomatch h
  | lateDeny i error =>
      simp only [step] at h
      split at h
      · next stream hrun => cases h; exact .lateDeny hrun
      · exact nomatch h
  | retry =>
      simp only [step] at h
      split at h
      · next hm => cases h; exact .retry hm
      · exact nomatch h
  | unmount =>
      simp only [step] at h
      split at h
      · next hc =>
          cases h
          obtain ⟨hm, hd⟩ := Bool.and_eq_true_iff.mp hc
          exact .unmount hm (by simpa using hd)
      · exact nomatch h

/-! ## What it is to own the camera -/

/-- While `isReady`, the stream of the hook runs and all others are stopped. -/
def Owned (s : Hook) : Prop :=
  s.mounted = true → s.fiber.vars.isReady = true →
    ∃ stream, s.fiber.vars.stream = some stream ∧ stream ∉ s.stopped ∧
      ∀ j < s.acquired, j ≠ stream → j ∈ s.stopped

/-- After the unmount, when all requests are settled, every stream is stopped. -/
def Released (s : Hook) : Prop :=
  s.mounted = false → (∀ r ∈ s.past, r.pending = false) → ∀ j < s.acquired, j ∈ s.stopped

/-- The current run is granted a stream only when all others are stopped; the cleanup
    before another run finds its captured stream stopped already, or not in use; and
    the cleanup at the unmount finds the last stream captured. -/
def careful (s : Hook) : Event → Bool
  | .grant => (List.range s.acquired).all (fun j => j ∈ s.stopped)
  | .flushEffects =>
      (s.current.bind Run.stream).all (fun j => j ∈ s.stopped || !s.fiber.vars.isReady)
  | .unmount =>
      (List.range s.acquired).all (fun j => j ∈ s.stopped || s.current.bind Run.stream = some j)
  | _ => true

def Careful (s : Hook) (e : Event) : Prop := careful s e = true

/-! ## The invariant -/

/-- The variables of the next render. -/
def Hook.next (s : Hook) : Vars := s.fiber.next Vars.apply

/-- The stream the current run has captured. -/
def Hook.captured (s : Hook) : Option Nat := s.current.bind Run.stream

/-- The stream an update writes. -/
def writesStream : Update → Option (Option Nat)
  | .setStream stream => some (some stream)
  | _ => none

/-- The flag an update writes. -/
def writesReady : Update → Option Bool
  | .setIsReady b => some b
  | _ => none

/-- Streams are numbered in the order they are acquired, so a queued one is neither
    committed nor captured. -/
structure Numbered (s : Hook) : Prop where
  vars : ∀ j, s.fiber.vars.stream = some j → j < s.acquired
  captured : ∀ j, s.captured = some j → j < s.acquired
  stopped : ∀ j ∈ s.stopped, j < s.acquired
  queued : ∀ j, .setStream j ∈ s.fiber.queue →
    j < s.acquired ∧ s.fiber.vars.stream ≠ some j ∧ s.captured ≠ some j
  ready : .setIsReady true ∈ s.fiber.queue → ∃ j, .setStream j ∈ s.fiber.queue

/-- A mounted hook has at most one stream that is not stopped, the one of its next
    render, which is not stopped as long as that render is ready; and an unmounted one
    has none. -/
structure Holds (s : Hook) : Prop extends Numbered s where
  single : s.mounted = true → ∀ j < s.acquired, j ∉ s.stopped → s.next.stream = some j
  alive : s.mounted = true → s.next.isReady = true →
    ∃ j, s.next.stream = some j ∧ j ∉ s.stopped
  owned : Owned s
  released : s.mounted = false → s.current = none ∧ ∀ j < s.acquired, j ∈ s.stopped

/-- The stream of the next render is queued or committed. -/
theorem next_stream (s : Hook) :
    (s.next.stream = s.fiber.vars.stream ∧ ∀ j, .setStream j ∉ s.fiber.queue) ∨
      ∃ j, .setStream j ∈ s.fiber.queue ∧ s.next.stream = some j := by
  have hget : ∀ (v : Vars) (u : Update),
      (v.apply u).stream = (writesStream u).getD v.stream := by
    intro v u
    cases u <;> rfl
  rcases get_foldl hget s.fiber.queue s.fiber.vars with ⟨heq, hnone⟩ | ⟨u, hu, heq⟩
  · exact Or.inl ⟨heq, fun j hj => (nomatch hnone _ hj)⟩
  · cases u with
    | setStream j => exact Or.inr ⟨j, hu, (Option.some.inj heq).symm⟩
    | _ => exact nomatch heq

/-- A flag that will be up and is not was raised by a grant. -/
theorem next_ready {s : Hook} (hn : s.next.isReady = true)
    (hv : s.fiber.vars.isReady = false) : .setIsReady true ∈ s.fiber.queue := by
  have hget : ∀ (v : Vars) (u : Update),
      (v.apply u).isReady = (writesReady u).getD v.isReady := by
    intro v u
    cases u <;> rfl
  rcases get_foldl hget s.fiber.queue s.fiber.vars with ⟨heq, -⟩ | ⟨u, hu, heq⟩
  · rw [hv] at heq
    exact nomatch heq.symm.trans hn
  · cases u with
    | setIsReady b =>
        have hb : b = true := (Option.some.inj heq).trans hn
        rw [← hb]
        exact hu
    | _ => exact nomatch heq

/-- The next render is not what a run has captured, unless it is committed. -/
theorem next_not_captured {s : Hook} (hi : Numbered s) {j : Nat}
    (hn : s.next.isReady = true) (hv : s.fiber.vars.isReady = false)
    (hj : s.next.stream = some j) : s.captured ≠ some j := by
  obtain ⟨k, hk⟩ := hi.ready (next_ready hn hv)
  rcases next_stream s with ⟨-, hnone⟩ | ⟨k', hk', heq⟩
  · exact absurd hk (hnone k)
  · rw [hj] at heq
    cases heq
    exact (hi.queued j hk').2.2

/-! ## Every step keeps it -/

theorem holds_initial (constraints : Nat) : Holds (.initial constraints) :=
  ⟨⟨fun _ h => (nomatch h), fun _ h => (nomatch h), fun _ h => (nomatch h),
    fun _ h => (nomatch h), fun h => (nomatch h)⟩, fun _ _ h => absurd h (Nat.not_lt_zero _),
    fun _ h => (nomatch h), fun _ h => (nomatch h), fun h => (nomatch h)⟩

/-- Setters are called that set neither a stream nor the flag to true. -/
theorem Holds.set {s : Hook} {us : List Update} (hi : Holds s)
    (hstream : ∀ v : Vars, (us.foldl Vars.apply v).stream = v.stream)
    (hready : ∀ v : Vars, (us.foldl Vars.apply v).isReady = true → v.isReady = true)
    (hno : ∀ j, .setStream j ∉ us) (hup : .setIsReady true ∉ us) :
    Holds { s with fiber := s.fiber.set us } := by
  have hnext : Hook.next { s with fiber := s.fiber.set us } = us.foldl Vars.apply s.next :=
    Fiber.next_set Vars.apply us s.fiber
  refine ⟨⟨hi.vars, hi.captured, hi.stopped, fun j hj => ?_, fun h => ?_⟩, fun hm j hj hs => ?_,
    fun hm hr => ?_, hi.owned, hi.released⟩
  · rcases List.mem_append.mp hj with hj | hj
    · exact hi.queued j hj
    · exact absurd hj (hno j)
  · rcases List.mem_append.mp h with h | h
    · obtain ⟨j, hj⟩ := hi.ready h
      exact ⟨j, List.mem_append_left _ hj⟩
    · exact absurd h hup
  · rw [hnext, hstream]
    exact hi.single hm j hj hs
  · rw [hnext] at hr ⊢
    rw [hstream]
    exact hi.alive hm (hready _ hr)

/-- The request of the current run is settled. -/
theorem Holds.settle {s : Hook} {stream : Option Nat} (hi : Holds s)
    (hcur : s.current = some ⟨stream, true⟩) :
    Holds { s with current := some ⟨stream, false⟩ } := by
  have hcap : s.captured = stream := by rw [Hook.captured, hcur]; rfl
  refine ⟨⟨hi.vars, fun j hj => hi.captured j (hcap.trans hj), hi.stopped, fun j hj => ?_,
    hi.ready⟩, hi.single, hi.alive, hi.owned, fun hm => ?_⟩
  · obtain ⟨h₁, h₂, h₃⟩ := hi.queued j hj
    exact ⟨h₁, h₂, fun h => h₃ (hcap.trans h)⟩
  · have hn := (hi.released hm).1
    rw [hcur] at hn
    exact nomatch hn

theorem holds_failed {s : Hook} {error : String} (hi : Holds s) :
    Holds { s with fiber := s.fiber.set (failed error) } := by
  refine hi.set (fun v => rfl) (fun v h => (nomatch h)) (fun j hj => ?_) (fun h => ?_)
  · simp [failed] at hj
  · simp [failed] at h

/-- **A GRANT**: all other streams are stopped, so the flag is not up, and the new
    stream is the only one that runs. -/
theorem granted_step {s : Hook} {stream : Option Nat} (hi : Holds s)
    (hcur : s.current = some ⟨stream, true⟩) (hk : Careful s .grant) :
    Holds { s with
      fiber := s.fiber.set [.setStream s.acquired, .setError none, .setIsReady true]
      current := some ⟨stream, false⟩
      acquired := s.acquired + 1 } := by
  have hall : ∀ j < s.acquired, j ∈ s.stopped := by
    intro j hj
    simpa using List.all_eq_true.mp hk j (List.mem_range.mpr hj)
  have hnext : (s.fiber.set [.setStream s.acquired, .setError none, .setIsReady true]).next
      Vars.apply = { s.next with stream := some s.acquired, error := none, isReady := true } :=
    Fiber.next_set Vars.apply _ s.fiber
  have hcap : s.captured = stream := by rw [Hook.captured, hcur]; rfl
  have hnew : s.acquired ∉ s.stopped := fun h => Nat.lt_irrefl _ (hi.stopped _ h)
  refine ⟨⟨fun j hj => Nat.lt_succ_of_lt (hi.vars j hj),
    fun j hj => Nat.lt_succ_of_lt (hi.captured j (hcap.trans hj)),
    fun j hj => Nat.lt_succ_of_lt (hi.stopped j hj), fun j hj => ?_, fun _ => ?_⟩,
    fun _ j hj hs => ?_, fun _ _ => ⟨s.acquired, by rw [Hook.next, hnext], hnew⟩,
    fun hm hr => ?_, fun hm => ?_⟩
  · rcases List.mem_append.mp hj with hj | hj
    · obtain ⟨h₁, h₂, h₃⟩ := hi.queued j hj
      exact ⟨Nat.lt_succ_of_lt h₁, h₂, fun h => h₃ (hcap.trans h)⟩
    · have hje : j = s.acquired := by simpa using hj
      subst hje
      refine ⟨Nat.lt_succ_self _, fun h => Nat.lt_irrefl _ (hi.vars _ h), fun h => ?_⟩
      exact Nat.lt_irrefl _ (hi.captured _ (hcap.trans h))
  · exact ⟨s.acquired, List.mem_append_right _ (List.mem_cons_self ..)⟩
  · rw [Hook.next, hnext]
    rcases Nat.lt_succ_iff_lt_or_eq.mp hj with hj | rfl
    · exact absurd (hall j hj) hs
    · rfl
  · obtain ⟨j, hj, hs, -⟩ := hi.owned hm hr
    exact absurd (hall j (hi.vars j hj)) hs
  · have hn := (hi.released hm).1
    rw [hcur] at hn
    exact nomatch hn

/-- **A CLEANUP BEFORE ANOTHER RUN** stops nothing that is in use. -/
theorem flush_step {s : Hook} (hi : Holds s) (hk : Careful s .flushEffects)
    (hm : s.mounted = true) :
    Holds { cleanup s with
      fiber := s.fiber.flushed
      current := some ⟨s.fiber.vars.stream, true⟩ } := by
  -- what is stopped now was captured, and either was stopped before or is not in use
  have hstop : ∀ j ∈ s.captured.toList, s.captured = some j ∧
      (j ∈ s.stopped ∨ s.fiber.vars.isReady = false) := by
    intro j hj
    have hcap : s.captured = some j := Option.mem_toList.mp hj
    refine ⟨hcap, ?_⟩
    have hc : (s.captured.all (fun j => j ∈ s.stopped || !s.fiber.vars.isReady)) = true := hk
    rw [hcap] at hc
    simpa using hc
  have hkeep : ∀ j, j ∉ s.stopped → s.captured ≠ some j →
      j ∉ s.stopped ++ s.captured.toList := by
    intro j hj hne hmem
    rcases List.mem_append.mp hmem with hmem | hmem
    · exact hj hmem
    · exact hne (hstop j hmem).1
  refine ⟨⟨hi.vars, hi.vars, fun j hj => ?_, fun j hj => ?_, hi.ready⟩,
    fun _ j hj hs => hi.single hm j hj (fun h => hs (List.mem_append_left _ h)),
    fun _ hr => ?_, fun _ hr => ?_, fun h => ?_⟩
  · rcases List.mem_append.mp hj with hj | hj
    · exact hi.stopped j hj
    · exact hi.captured j (hstop j hj).1
  · obtain ⟨h₁, h₂, -⟩ := hi.queued j hj
    exact ⟨h₁, h₂, h₂⟩
  · obtain ⟨j, hj, hs⟩ := hi.alive hm hr
    refine ⟨j, hj, hkeep j hs (fun hcap => ?_)⟩
    rcases (hstop j (Option.mem_toList.mpr hcap)).2 with h | h
    · exact hs h
    · exact next_not_captured hi.toNumbered hr h hj hcap
  · obtain ⟨j, hj, hs, hothers⟩ := hi.owned hm hr
    refine ⟨j, hj, hkeep j hs (fun hcap => ?_),
      fun k hk hne => List.mem_append_left _ (hothers k hk hne)⟩
    rcases (hstop j (Option.mem_toList.mpr hcap)).2 with h | h
    · exact hs h
    · exact nomatch h.symm.trans hr
  · exact nomatch hm.symm.trans h

/-- A late grant is stopped at once. -/
theorem lateGrant_step {s : Hook} {past : List Run} (hi : Holds s) :
    Holds { s with
      past := past
      acquired := s.acquired + 1
      stopped := s.stopped ++ [s.acquired] } := by
  have hold : ∀ j < s.acquired + 1, j ∉ s.stopped ++ [s.acquired] →
      j < s.acquired ∧ j ∉ s.stopped := by
    intro j hj hs
    refine ⟨?_, fun h => hs (List.mem_append_left _ h)⟩
    rcases Nat.lt_succ_iff_lt_or_eq.mp hj with hj | rfl
    · exact hj
    · exact absurd (List.mem_append_right _ (List.mem_singleton.mpr rfl)) hs
  have hkeep : ∀ j < s.acquired, j ∉ s.stopped → j ∉ s.stopped ++ [s.acquired] := by
    intro j hj hs hmem
    rcases List.mem_append.mp hmem with hmem | hmem
    · exact hs hmem
    · exact absurd (List.mem_singleton.mp hmem) (Nat.ne_of_lt hj)
  refine ⟨⟨fun j hj => Nat.lt_succ_of_lt (hi.vars j hj),
    fun j hj => Nat.lt_succ_of_lt (hi.captured j hj), fun j hj => ?_, fun j hj => ?_, hi.ready⟩,
    fun hm j hj hs => hi.single hm j (hold j hj hs).1 (hold j hj hs).2, fun hm hr => ?_,
    fun hm hr => ?_, fun hm => ⟨(hi.released hm).1, fun j hj => ?_⟩⟩
  · rcases List.mem_append.mp hj with hj | hj
    · exact Nat.lt_succ_of_lt (hi.stopped j hj)
    · rw [List.mem_singleton.mp hj]
      exact Nat.lt_succ_self _
  · obtain ⟨h₁, h₂⟩ := hi.queued j hj
    exact ⟨Nat.lt_succ_of_lt h₁, h₂⟩
  · obtain ⟨j, hj, hs⟩ := hi.alive hm hr
    refine ⟨j, hj, hkeep j ?_ hs⟩
    rcases next_stream s with ⟨heq, -⟩ | ⟨k, hk, heq⟩
    · exact hi.vars j (heq.symm.trans hj)
    · have hjk : k = j := Option.some.inj (heq.symm.trans hj)
      rw [← hjk]
      exact (hi.queued k hk).1
  · obtain ⟨j, hj, hs, hothers⟩ := hi.owned hm hr
    refine ⟨j, hj, hkeep j (hi.vars j hj) hs, fun k hk hne => ?_⟩
    by_contra hnot
    obtain ⟨h₁, h₂⟩ := hold k hk hnot
    exact h₂ (hothers k h₁ hne)
  · by_contra hnot
    obtain ⟨h₁, h₂⟩ := hold j hj hnot
    exact h₂ ((hi.released hm).2 j h₁)

/-- A render commits what was the next one. -/
theorem render_step {s : Hook} {constraints : Nat} (hi : Holds s) :
    Holds { s with fiber := s.fiber.commit Vars.apply deps constraints } := by
  have hnext : ∀ j, s.next.stream = some j → j < s.acquired := by
    intro j hj
    rcases next_stream s with ⟨heq, -⟩ | ⟨k, hk, heq⟩
    · exact hi.vars j (heq.symm.trans hj)
    · have hjk : k = j := Option.some.inj (heq.symm.trans hj)
      rw [← hjk]
      exact (hi.queued k hk).1
  refine ⟨⟨hnext, hi.captured, hi.stopped, fun _ h => (nomatch h), fun h => (nomatch h)⟩,
    hi.single, hi.alive, fun hm hr => ?_, hi.released⟩
  obtain ⟨j, hj, hs⟩ := hi.alive hm hr
  refine ⟨j, hj, hs, fun k hk hne => ?_⟩
  by_contra hnot
  exact hne (Option.some.inj ((hi.single hm k hk hnot).symm.trans hj))

theorem holds_step {s s' : Hook} {e : Event} (hi : Holds s) (hk : Careful s e)
    (h : Step s e s') : Holds s' := by
  cases h with
  | render => exact render_step hi
  | flushEffects hm => exact flush_step hi hk hm
  | grant hcur => exact granted_step hi hcur hk
  | deny hcur => exact holds_failed (hi.settle hcur)
  | lateGrant => exact lateGrant_step hi
  | @lateDeny i stream _ _ =>
      have hpast : Holds { s with past := s.past.set i ⟨stream, false⟩ } :=
        ⟨⟨hi.vars, hi.captured, hi.stopped, hi.queued, hi.ready⟩, hi.single, hi.alive,
          hi.owned, hi.released⟩
      exact holds_failed hpast
  | retry =>
      refine hi.set (fun v => rfl) (fun v h => h) (fun j hj => ?_) (fun h => ?_)
      · exact nomatch List.mem_singleton.mp hj
      · exact nomatch List.mem_singleton.mp h
  | unmount hm =>
      -- what was not stopped yet is what the last cleanup stops
      have hall : ∀ j < s.acquired, j ∈ s.stopped ++ s.captured.toList := by
        intro j hj
        have hc := List.all_eq_true.mp hk j (List.mem_range.mpr hj)
        rcases Bool.or_eq_true_iff.mp hc with hc | hc
        · exact List.mem_append_left _ (of_decide_eq_true hc)
        · exact List.mem_append_right _ (Option.mem_toList.mpr (of_decide_eq_true hc))
      refine ⟨⟨hi.vars, fun _ h => (nomatch h), fun j hj => ?_, fun j hj => ?_, hi.ready⟩,
        fun h => (nomatch h), fun h => (nomatch h), fun h => (nomatch h),
        fun _ => ⟨rfl, hall⟩⟩
      · rcases List.mem_append.mp hj with hj | hj
        · exact hi.stopped j hj
        · exact hi.captured j (Option.mem_toList.mp hj)
      · obtain ⟨h₁, h₂, -⟩ := hi.queued j hj
        exact ⟨h₁, h₂, fun h => (nomatch h)⟩

/-- **THE HOOK OWNS THE CAMERA**, in every run in which the current request is granted
    only when all earlier streams are stopped, a cleanup before another run does not
    hit the stream in use, and the unmount finds the last stream captured: while ready
    it has one running stream, its own, and once it is unmounted it has none. -/
theorem camera_owned {s : Hook} (h : ReachVia hook Careful s) : Owned s ∧ Released s := by
  have hi : Holds s := by
    refine ReachVia.invariant (fun s hs => ?_) (fun s e s' _ hi hk hst => ?_) h
    · obtain ⟨constraints, rfl⟩ := hs
      exact holds_initial constraints
    · exact holds_step hi hk (step_cases hst)
  exact ⟨hi.owned, fun hm _ => (hi.released hm).2⟩

/-! ## Two runs -/

/-- The state a list of events leads a fresh hook to. -/
def stateAfter (es : List Event) : Hook := LtsRun.after hook (.initial 0) es

theorem initial_init : hook.init (.initial 0) := ⟨0, rfl⟩

/-- The hook is mounted, granted a stream and unmounted. -/
def plainRun : List Event := [.flushEffects, .grant, .render 0, .unmount]

/-- Nothing is pending, and the stream runs on. -/
theorem camera_left_on :
    ∃ s : Hook, Reachable hook s ∧ s.mounted = false ∧ (∀ r ∈ s.past, r.pending = false) ∧
      s.acquired = 1 ∧ s.stopped = [] :=
  ⟨stateAfter plainRun,
    ReachVia.of_after (c := fun _ _ => true) (fun _ _ _ => trivial) initial_init (by decide),
    by decide, by decide, by decide, by decide⟩

/-- The hook is asked for another stream while it has one, and unmounted before it gets
    it. -/
def retriedRun : List Event :=
  [.flushEffects, .grant, .render 0, .retry, .render 0, .flushEffects, .unmount,
    .lateGrant 1]

theorem camera_owned_sample :
    (stateAfter retriedRun).acquired = 2 ∧
    (Owned (stateAfter retriedRun) ∧ Released (stateAfter retriedRun)) ∧
    Owned (stateAfter (retriedRun.take 6)) :=
  ⟨by decide,
    camera_owned (ReachVia.of_after (fun _ _ hc => hc) initial_init (by decide)),
    (camera_owned (ReachVia.of_after (fun _ _ hc => hc) initial_init (by decide))).1⟩

end UseMediaStream
