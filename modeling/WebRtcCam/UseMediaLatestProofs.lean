import WebRtcCam.UseMediaStreamProofs

/-! # The latest request of `useMediaStream`

    A `retry` or a change of `constraints` starts another `getUserMedia` request while the
    ones before it may still be outstanding, and they settle in any order.  What the hook
    should publish is decided by the requests that settle while they are the latest: this
    is the `Ideal` hook, which does not know of any other outcome.

    The two exits of the effect differ.  The `try` asks whether the run has been cleaned
    up before it sets anything; the `catch` does not ask.

    * `follows_step` — one step of the hook is one of the ideal hook, unless a superseded
      request is rejected;
    * `late_denial_shown` — and if it is, the next render shows its error;
    * `latest_request_wins` — whole runs. -/

namespace UseMediaLatest

open LtsRun ReactFiber UseMediaStream

/-! ## The ideal hook -/

/-- How a request settles. -/
inductive Outcome where
  | granted (stream : Nat)
  | denied (error : String)
  deriving DecidableEq, Repr

/-- What the hook returns to its caller, `retry` apart. -/
structure Published where
  stream : Option Nat
  isReady : Bool
  error : Option String
  deriving DecidableEq, Repr

@[simps] def published (v : Vars) : Published := ⟨v.stream, v.isReady, v.error⟩

/-- The outcome of the latest request is published. -/
def Published.settle (p : Published) : Outcome → Published
  | .granted stream => ⟨some stream, true, none⟩
  | .denied error => { p with isReady := false, error := some error }

/-- The flag and the error that say how a request settled. -/
def Outcome.isReady : Outcome → Bool
  | .granted _ => true
  | .denied _ => false

def Outcome.error : Outcome → Option String
  | .granted _ => none
  | .denied error => some error

/-- What counts: the request of run `n` settles while it is the latest, and a render
    commits what is published. -/
inductive Note where
  | outcome (n : Nat) (o : Outcome)
  | commit
  deriving DecidableEq, Repr

/-- The hook as it should be: what the next render shows, and what is shown now. -/
structure Ideal where
  next : Published
  shown : Published
  deriving DecidableEq, Repr

def Ideal.initial : Ideal := ⟨published .initial, published .initial⟩

def Ideal.step (i : Ideal) : Note → Ideal
  | .outcome _ o => { i with next := i.next.settle o }
  | .commit => { i with shown := i.next }

def ideal (l : List Note) : Ideal := l.foldl Ideal.step .initial

theorem ideal_append (l : List Note) (n : Note) : ideal (l ++ [n]) = (ideal l).step n := by
  rw [ideal, List.foldl_append]
  rfl

/-- The outcomes among the notes. -/
def outcomeOf : Note → Option (Nat × Outcome)
  | .outcome n o => some (n, o)
  | .commit => none

def outcomes (l : List Note) : List (Nat × Outcome) := l.filterMap outcomeOf

theorem outcomes_append (l : List Note) (n : Note) :
    outcomes (l ++ [n]) = outcomes l ++ (outcomeOf n).toList := by
  rw [outcomes, List.filterMap_append]
  cases n <;> rfl

/-- The last outcome decides the flag and the error. -/
theorem ideal_latest (l : List Note) {n : Nat} {o : Outcome}
    (h : (outcomes l).getLast? = some (n, o)) :
    (ideal l).next.isReady = o.isReady ∧ (ideal l).next.error = o.error := by
  induction l using List.reverseRecOn with
  | nil => cases h
  | append_singleton l x ih =>
      rw [outcomes_append] at h
      rw [ideal_append]
      cases x with
      | commit => exact ih (by simpa [outcomeOf] using h)
      | outcome n' o' =>
          rw [show (outcomeOf (.outcome n' o')).toList = [(n', o')] from rfl,
            List.getLast?_concat] at h
          cases h
          cases o <;> exact ⟨rfl, rfl⟩

/-! ## The hook beside it -/

/-- Runs are numbered by the cleanups before them. -/
def note (s : Hook) : Event → List Note
  | .grant => [.outcome s.past.length (.granted s.acquired)]
  | .deny error => [.outcome s.past.length (.denied error)]
  | .render _ => [.commit]
  | _ => []

/-- No superseded request is rejected, unless the component has been unmounted. -/
def timely (s : Hook) : Event → Bool
  | .lateDeny _ _ => !s.mounted
  | _ => true

def Timely (s : Hook) (e : Event) : Prop := timely s e = true

/-- The hook shows what the ideal one shows, and the latest request, once settled, has
    given the last outcome. -/
structure Follows (s : Hook) (l : List Note) : Prop where
  shown : published s.fiber.vars = (ideal l).shown
  next : s.mounted = true → published s.next = (ideal l).next
  latest : ∀ stream, s.current = some ⟨stream, false⟩ →
    ∃ o, (outcomes l).getLast? = some (s.past.length, o)
  mounted : s.current.isSome = true → s.mounted = true

/-- Setters are called. -/
theorem published_set (s : Hook) (us : List Update) :
    published (Hook.next { s with fiber := s.fiber.set us })
      = published (us.foldl Vars.apply s.next) :=
  congrArg published (Fiber.next_set Vars.apply us s.fiber)

/-- The latest request settles: the ideal hook takes its outcome. -/
theorem follows_settle {s : Hook} {l : List Note} {stream : Option Nat} {us : List Update}
    {o : Outcome} (hi : Follows s l) (hcur : s.current = some ⟨stream, true⟩)
    (hus : ∀ v, published (us.foldl Vars.apply v) = (published v).settle o) {n : Nat} :
    Follows { s with
        fiber := s.fiber.set us
        current := some ⟨stream, false⟩
        acquired := n } (l ++ [.outcome s.past.length o]) := by
  have hm : s.mounted = true := hi.mounted (by rw [hcur]; rfl)
  refine ⟨?_, fun _ => ?_, fun _ _ => ⟨o, ?_⟩, fun _ => hm⟩
  · rw [ideal_append]
    exact hi.shown
  · rw [ideal_append]
    show published (Hook.next { s with fiber := s.fiber.set us }) = (ideal l).next.settle o
    rw [published_set, hus, hi.next hm]
  · rw [outcomes_append]
    exact List.getLast?_concat

/-- **ONE STEP** of the hook is a step of the ideal hook. -/
theorem follows_step {s s' : Hook} {e : Event} {l : List Note} (hi : Follows s l)
    (hc : Timely s e) (h : Step s e s') : Follows s' (l ++ note s e) := by
  cases h with
  | @render constraints hm _ =>
      show Follows _ (l ++ [.commit])
      refine ⟨?_, fun _ => ?_, fun stream hcur => ?_, hi.mounted⟩
      · rw [ideal_append]
        exact hi.next hm
      · rw [ideal_append]
        exact hi.next hm
      · rw [outcomes_append]
        simpa [outcomeOf] using hi.latest stream hcur
  | flushEffects hm _ =>
      rw [show note s .flushEffects = [] from rfl, List.append_nil]
      exact ⟨hi.shown, fun _ => hi.next hm, fun _ hcur => (by cases hcur), fun _ => hm⟩
  | grant hcur => exact follows_settle hi hcur (fun v => rfl)
  | deny hcur => exact follows_settle hi hcur (fun v => rfl)
  | lateGrant =>
      -- its stream is stopped, and no setter is called
      rw [show note s (.lateGrant _) = [] from rfl, List.append_nil]
      refine ⟨hi.shown, hi.next, fun stream hcur => ?_, hi.mounted⟩
      simpa using hi.latest stream hcur
  | lateDeny =>
      -- the setters are called on an unmounted component: nothing is rendered any more
      have hun : s.mounted = false := by simpa [Timely, timely] using hc
      rw [show note s (.lateDeny _ _) = [] from rfl, List.append_nil]
      refine ⟨hi.shown, fun hm => ?_, fun stream hcur => ?_, hi.mounted⟩
      · rw [hun] at hm
        cases hm
      · simpa using hi.latest stream hcur
  | retry hm =>
      rw [show note s .retry = [] from rfl, List.append_nil]
      refine ⟨hi.shown, fun _ => ?_, hi.latest, hi.mounted⟩
      rw [published_set]
      exact hi.next hm
  | unmount =>
      rw [show note s .unmount = [] from rfl, List.append_nil]
      exact ⟨hi.shown, fun hm => (by cases hm), fun _ hcur => (by cases hcur),
        fun hcur => (by cases hcur)⟩

theorem follows_initial (constraints : Nat) : Follows (.initial constraints) [] :=
  ⟨rfl, fun _ => rfl, fun _ hcur => (by cases hcur), fun hcur => (by cases hcur)⟩

/-- A superseded request that is rejected shows in the next render: the ready stream is
    withdrawn, and its error published. -/
theorem late_denial_shown {s s' : Hook} {i : Nat} {error : String}
    (h : step s (.lateDeny i error) = some s') :
    published s'.next = (published s.next).settle (.denied error) := by
  cases step_cases h with
  | lateDeny =>
      show published (Hook.next { s with fiber := s.fiber.set (failed error) }) = _
      rw [published_set]
      rfl

/-- **THE LATEST REQUEST WINS**, in every run in which no superseded request is rejected
    while the component is mounted: the hook shows at every moment what the ideal hook
    shows, and once the latest request has settled, `isReady` and `error` are what its
    outcome says. -/
theorem latest_request_wins {s : Hook} {l : List Note}
    (h : ReachVia (logged hook note) (fun p e => Timely p.1 e) (s, l)) :
    published s.fiber.vars = (ideal l).shown ∧
    (s.mounted = true → published s.next = (ideal l).next) ∧
    ∀ stream, s.current = some ⟨stream, false⟩ →
      ∃ o, (outcomes l).getLast? = some (s.past.length, o) ∧
        (s.fiber.queue = [] →
          s.fiber.vars.isReady = o.isReady ∧ s.fiber.vars.error = o.error) := by
  have hi : Follows s l := by
    refine ReachVia.invariant (M := logged hook note) (I := fun p => Follows p.1 p.2)
      (fun p hp => ?_) (fun p e p' _ hi hc hst => ?_) h
    · obtain ⟨⟨constraints, hs⟩, hl⟩ := hp
      rw [hs, hl]
      exact follows_initial constraints
    · obtain ⟨hst, hl⟩ := logged_step hst
      rw [hl]
      exact follows_step hi hc (step_cases hst)
  refine ⟨hi.shown, hi.next, fun stream hcur => ?_⟩
  obtain ⟨o, ho⟩ := hi.latest stream hcur
  refine ⟨o, ho, fun hq => ?_⟩
  have hnext : published s.fiber.vars = (ideal l).next := by
    rw [← hi.next (hi.mounted (by rw [hcur]; rfl)), Hook.next, Fiber.next, hq]
    rfl
  have hlast := ideal_latest l ho
  rw [← hnext] at hlast
  exact hlast

/-- A second request is granted, and then the first is rejected. -/
def overtakenRun : List Event :=
  [.flushEffects, .retry, .render 0, .flushEffects, .grant, .render 0]

/-- The hook had a stream and shows the error of a request it gave up. -/
theorem late_denial_wins :
    (exec hook (.initial 0) overtakenRun).map (fun s => published s.fiber.vars)
      = some ⟨some 0, true, none⟩ ∧
    (exec hook (.initial 0) (overtakenRun ++ [.lateDeny 0 "denied", .render 0])).map
      (fun s => published s.fiber.vars) = some ⟨some 0, false, some "denied"⟩ := by
  decide

/-- Three requests; the last one is denied, and the second is granted after that. -/
def lateRun : List Event :=
  [.flushEffects, .retry, .render 0, .flushEffects, .render 1, .flushEffects,
    .deny "in use", .lateGrant 1, .render 1]

theorem latest_request_wins_sample :
    ∃ p, exec (logged hook note) (.initial 0, []) lateRun = some p ∧
      p.1.acquired = 1 ∧ p.1.fiber.vars.isReady = false ∧
      p.1.fiber.vars.error = some "in use" := by
  have hrun : (execVia (logged hook note) (fun p e => timely p.1 e) (.initial 0, []) lateRun).any
      (fun p => decide (p.1.acquired = 1 ∧ p.1.current = some ⟨none, false⟩ ∧
        p.1.fiber.queue = [] ∧ outcomes p.2 = [(2, .denied "in use")])) = true := by
    decide
  obtain ⟨p, hp, hr, hc⟩ := ReachVia.of_check (C := fun p e => Timely p.1 e) (fun _ _ h => h)
    (logged_init initial_init) hrun
  obtain ⟨hacq, hcur, hq, hout⟩ := of_decide_eq_true hc
  obtain ⟨-, -, hlatest⟩ := latest_request_wins hr
  obtain ⟨o, ho, hvars⟩ := hlatest none hcur
  rw [hout] at ho
  have heq : Outcome.denied "in use" = o := congrArg Prod.snd (Option.some.inj ho)
  subst heq
  exact ⟨p, hp, hacq, hvars hq⟩

end UseMediaLatest
