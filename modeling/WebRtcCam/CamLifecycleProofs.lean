import WebRtcCam.CamTracksProofs

/-! # What the mount effect of the page acquires and releases

    The mount effect of `webrtc/src/app/page.tsx` through any number of cycles (React
    may run it, clean it up and run it again).  A run of it requests a stream, opens a
    socket and creates a connection; the cleanup closes the socket it captured and
    whatever the refs hold: `peerConnectionRef.current`, and the tracks of
    `localStreamRef.current`.  The request is not cancelled, and nothing tells
    `initLocalStream` that its effect is gone: a stream granted late is put into the
    ref as any other.

    * `released_iff` — at the end of a run everything is released exactly when between
      any two grants, and after the last, there is a cleanup;
    * `page_lives` — the page of `CamPage` lives through such a cycle. -/

namespace CamLifecycle

open LtsRun

/-- What the runs of the effect have acquired, numbered, and what of it was released. -/
structure Life where
  /-- The effect is set up, with this socket in the closure of its cleanup. -/
  active : Option Nat
  sockets : Nat
  closedSockets : List Nat
  connections : Nat
  closedConnections : List Nat
  streams : Nat
  stopped : List Nat
  peerConnectionRef : Option Nat
  localStreamRef : Option Nat
  requests : Nat
  pending : List Nat
  deriving DecidableEq, Repr

def Life.initial : Life where
  active := none
  sockets := 0
  closedSockets := []
  connections := 0
  closedConnections := []
  streams := 0
  stopped := []
  peerConnectionRef := none
  localStreamRef := none
  requests := 0
  pending := []

/-- The effect is set up or cleaned up, or a request is settled. -/
inductive Event where
  | setup
  | cleanup
  | grant (request : Nat)
  | deny (request : Nat)
  deriving DecidableEq, Repr

def step (s : Life) : Event → Option Life
  | .setup =>
      if s.active = none then
        some { s with
          active := some s.sockets
          sockets := s.sockets + 1
          connections := s.connections + 1
          peerConnectionRef := some s.connections
          requests := s.requests + 1
          pending := s.pending ++ [s.requests] }
      else none
  | .cleanup =>
      match s.active with
      | some ws =>
          some { s with
            active := none
            closedSockets := s.closedSockets ++ [ws]
            closedConnections := s.closedConnections ++ s.peerConnectionRef.toList
            stopped := s.stopped ++ s.localStreamRef.toList }
      | none => none
  | .grant r =>
      if r ∈ s.pending then
        some { s with
          streams := s.streams + 1
          localStreamRef := some s.streams
          pending := s.pending.erase r }
      else none
  | .deny r =>
      if r ∈ s.pending then some { s with pending := s.pending.erase r } else none

/-- The mount effect as a transition system. -/
def life : Lts Life Event where
  init := fun s => s = .initial
  step := step

/-- Everything the effect has acquired is released. -/
structure Released (s : Life) : Prop where
  sockets : ∀ j < s.sockets, j ∈ s.closedSockets
  connections : ∀ j < s.connections, j ∈ s.closedConnections
  streams : ∀ j < s.streams, j ∈ s.stopped

/-- Of the grants and cleanups to come, the first is a cleanup. -/
def cleanedNext : List Event → Bool
  | [] => false
  | .cleanup :: _ => true
  | .grant _ :: _ => false
  | _ :: es => cleanedNext es

/-- Every grant is followed by a cleanup, with no other grant in between. -/
def cleanedUp : List Event → Bool
  | [] => true
  | .grant _ :: es => cleanedNext es && cleanedUp es
  | _ :: es => cleanedUp es

/-! ## Inversion -/

/-- The steps of the effect, as a relation. -/
inductive Step (s : Life) : Event → Life → Prop where
  | setup : s.active = none →
      Step s .setup { s with
        active := some s.sockets
        sockets := s.sockets + 1
        connections := s.connections + 1
        peerConnectionRef := some s.connections
        requests := s.requests + 1
        pending := s.pending ++ [s.requests] }
  | cleanup {ws : Nat} : s.active = some ws →
      Step s .cleanup { s with
        active := none
        closedSockets := s.closedSockets ++ [ws]
        closedConnections := s.closedConnections ++ s.peerConnectionRef.toList
        stopped := s.stopped ++ s.localStreamRef.toList }
  | grant {r : Nat} : r ∈ s.pending →
      Step s (.grant r) { s with
        streams := s.streams + 1
        localStreamRef := some s.streams
        pending := s.pending.erase r }
  | deny {r : Nat} : r ∈ s.pending →
      Step s (.deny r) { s with pending := s.pending.erase r }

theorem step_cases {s s' : Life} {e : Event} (h : step s e = some s') : Step s e s' := by
  cases e with
  | setup =>
      simp only [step] at h
      split at h
      · next ha => cases h; exact .setup ha
      · exact nomatch h
  | cleanup =>
      simp only [step] at h
      split at h
      · next ws ha => cases h; exact .cleanup ha
      · exact nomatch h
  | grant r =>
      simp only [step] at h
      split at h
      · next hr => cases h; exact .grant hr
      · exact nomatch h
  | deny r =>
      simp only [step] at h
      split at h
      · next hr => cases h; exact .deny hr
      · exact nomatch h

/-! ## Sockets and connections -/

/-- A socket or connection that is not closed is the one of the effect that is set
    up; and streams are numbered in the order they are acquired. -/
structure Held (s : Life) : Prop where
  socket : ∀ j < s.sockets, j ∈ s.closedSockets ∨ s.active = some j
  connection : ∀ j < s.connections, j ∈ s.closedConnections ∨
    (s.active.isSome = true ∧ s.peerConnectionRef = some j)
  stopped : ∀ j ∈ s.stopped, j < s.streams
  stream : ∀ j, s.localStreamRef = some j → j < s.streams

theorem held_step {s s' : Life} {e : Event} (hi : Held s) (h : Step s e s') : Held s' := by
  cases h with
  | setup ha =>
      refine ⟨fun j hj => ?_, fun j hj => ?_, hi.stopped, hi.stream⟩
      · rcases Nat.lt_succ_iff_lt_or_eq.mp hj with hj | rfl
        · rcases hi.socket j hj with hc | hc
          · exact Or.inl hc
          · rw [ha] at hc
            exact nomatch hc
        · exact Or.inr rfl
      · rcases Nat.lt_succ_iff_lt_or_eq.mp hj with hj | rfl
        · rcases hi.connection j hj with hc | ⟨hc, -⟩
          · exact Or.inl hc
          · rw [ha] at hc
            exact nomatch hc
        · exact Or.inr ⟨rfl, rfl⟩
  | cleanup ha =>
      refine ⟨fun j hj => Or.inl ?_, fun j hj => Or.inl ?_, fun j hj => ?_, hi.stream⟩
      · rcases hi.socket j hj with hc | hc
        · exact List.mem_append_left _ hc
        · rw [ha] at hc
          cases hc
          exact List.mem_append_right _ (List.mem_singleton.mpr rfl)
      · rcases hi.connection j hj with hc | ⟨-, hc⟩
        · exact List.mem_append_left _ hc
        · exact List.mem_append_right _ (Option.mem_toList.mpr hc)
      · rcases List.mem_append.mp hj with hj | hj
        · exact hi.stopped j hj
        · exact hi.stream j (Option.mem_toList.mp hj)
  | grant =>
      refine ⟨hi.socket, hi.connection, fun j hj => Nat.lt_succ_of_lt (hi.stopped j hj),
        fun j hj => ?_⟩
      cases hj
      exact Nat.lt_succ_self _
  | deny => exact ⟨hi.socket, hi.connection, hi.stopped, hi.stream⟩

theorem held_initial : Held .initial :=
  ⟨fun _ h => absurd h (Nat.not_lt_zero _), fun _ h => absurd h (Nat.not_lt_zero _),
    fun _ h => (nomatch h), fun _ h => (nomatch h)⟩

theorem held_reachable {s : Life} (h : Reachable life s) : Held s := by
  refine ReachVia.invariant (fun s hs => ?_) (fun s e s' _ hi _ hst => ?_) h
  · subst hs
    exact held_initial
  · exact held_step hi (step_cases hst)

/-! ## Streams -/

/-- **STREAMS ALONG A RUN**: a stream of before is stopped, or it is in the ref and
    the run cleans up before it grants another; a stream granted on the way is cleaned
    up.  The induction is on the run, from any state on the way. -/
theorem streams_stopped_iff :
    ∀ (es : List Event) {s t : Life}, Held s → exec life s es = some t →
      ((∀ j < t.streams, j ∈ t.stopped) ↔
        (∀ j < s.streams, j ∈ s.stopped ∨
          (s.localStreamRef = some j ∧ cleanedNext es = true)) ∧ cleanedUp es = true) := by
  intro es
  induction es with
  | nil =>
      intro s t _ h
      have hst : s = t := Option.some.inj h
      subst hst
      constructor
      · exact fun hall => ⟨fun j hj => Or.inl (hall j hj), rfl⟩
      · rintro ⟨hall, -⟩ j hj
        rcases hall j hj with hs | ⟨-, hn⟩
        · exact hs
        · exact nomatch hn
  | cons e es ih =>
      intro s t hi h
      obtain ⟨u, hu, hrun⟩ := exec_cons h
      have hstep := step_cases hu
      have hgoal := ih (held_step hi hstep) hrun
      cases hstep with
      | setup => exact hgoal
      | deny => exact hgoal
      | cleanup =>
          rw [hgoal]
          constructor
          · rintro ⟨hall, hup⟩
            refine ⟨fun j hj => ?_, hup⟩
            rcases hall j hj with hs | ⟨href, -⟩
            · rcases List.mem_append.mp hs with hs | hs
              · exact Or.inl hs
              · exact Or.inr ⟨Option.mem_toList.mp hs, rfl⟩
            · exact Or.inr ⟨href, rfl⟩
          · rintro ⟨hall, hup⟩
            refine ⟨fun j hj => Or.inl ?_, hup⟩
            rcases hall j hj with hs | ⟨href, -⟩
            · exact List.mem_append_left _ hs
            · exact List.mem_append_right _ (Option.mem_toList.mpr href)
      | grant =>
          rw [hgoal]
          constructor
          · rintro ⟨hall, hup⟩
            refine ⟨fun j hj => ?_, Bool.and_eq_true_iff.mpr ⟨?_, hup⟩⟩
            · rcases hall j (Nat.lt_succ_of_lt hj) with hs | ⟨href, -⟩
              · exact Or.inl hs
              · cases href
                exact absurd hj (Nat.lt_irrefl _)
            · -- the stream just granted is not stopped yet
              rcases hall s.streams (Nat.lt_succ_self _) with hs | ⟨-, hn⟩
              · exact absurd (hi.stopped _ hs) (Nat.lt_irrefl _)
              · exact hn
          · rintro ⟨hall, hup⟩
            obtain ⟨hnext, hup⟩ := Bool.and_eq_true_iff.mp hup
            refine ⟨fun j hj => ?_, hup⟩
            rcases Nat.lt_succ_iff_lt_or_eq.mp hj with hj | rfl
            · rcases hall j hj with hs | ⟨-, hn⟩
              · exact Or.inl hs
              · exact nomatch hn
            · exact Or.inr ⟨rfl, hnext⟩

/-- **WHAT THE PAGE RELEASES**, at the end of any run of cycles that ends with the
    effect cleaned up: all sockets and connections; and the streams, hence everything,
    exactly when every grant was followed by a cleanup before the next grant. -/
theorem released_iff {es : List Event} {s : Life} (h : exec life .initial es = some s)
    (hidle : s.active = none) :
    (∀ j < s.sockets, j ∈ s.closedSockets) ∧
      (∀ j < s.connections, j ∈ s.closedConnections) ∧
      (Released s ↔ cleanedUp es = true) := by
  have hi := held_reachable (Reachable.of_exec rfl h)
  have hsockets : ∀ j < s.sockets, j ∈ s.closedSockets := by
    intro j hj
    rcases hi.socket j hj with hc | hc
    · exact hc
    · rw [hidle] at hc
      exact nomatch hc
  have hconnections : ∀ j < s.connections, j ∈ s.closedConnections := by
    intro j hj
    rcases hi.connection j hj with hc | ⟨hc, -⟩
    · exact hc
    · rw [hidle] at hc
      exact nomatch hc
  have hstreams := streams_stopped_iff es held_initial h
  refine ⟨hsockets, hconnections, ?_, fun hup => ⟨hsockets, hconnections, ?_⟩⟩
  · exact fun hr => (hstreams.mp hr.streams).2
  · exact hstreams.mpr ⟨fun j hj => absurd hj (Nat.not_lt_zero _), hup⟩

/-! ## Two runs -/

/-- The effect is cleaned up before its request is granted. -/
def lateRun : List Event := [.setup, .cleanup, .setup, .cleanup, .deny 0, .grant 1]

/-- Everything is settled, and the stream runs on. -/
theorem stream_left_on :
    ∃ es s, exec life .initial es = some s ∧ s.active = none ∧ s.pending = [] ∧
      s.streams = 1 ∧ s.stopped = [] :=
  ⟨lateRun, LtsRun.after life .initial lateRun, by decide, by decide, by decide, by decide,
    by decide⟩

/-- Two cycles; the request of the first is granted in the second. -/
def promptRun : List Event := [.setup, .cleanup, .setup, .deny 1, .grant 0, .cleanup]

theorem released_iff_sample :
    (LtsRun.after life .initial promptRun).streams = 1 ∧ cleanedUp promptRun = true ∧
    Released (LtsRun.after life .initial promptRun) :=
  ⟨by decide, by decide,
    (released_iff
      (show exec life .initial promptRun = some (LtsRun.after life .initial promptRun) by decide)
      (by decide)).2.2.mpr (by decide)⟩

/-! ## The page lives so -/

section Page

open CamPage CamClosure CamPending CamTracks

/-- What a step of the page does to the life of its mount effect. -/
inductive Lives (s t : Page) : Prop where
  | same : t.mounted = s.mounted → t.mountVars.isSome = s.mountVars.isSome →
      t.localStreamRef = s.localStreamRef → t.mediaRequested = s.mediaRequested → Lives s t
  | setup : s.mountVars = none → t.mountVars.isSome = true → t.mounted = true →
      t.localStreamRef = s.localStreamRef → t.mediaRequested = true → Lives s t
  | grant : s.mediaRequested = true → t.mediaRequested = false →
      t.localStreamRef.isSome = true → t.mounted = s.mounted →
      t.mountVars.isSome = s.mountVars.isSome → Lives s t
  | deny : s.mediaRequested = true → t.mediaRequested = false →
      t.localStreamRef = s.localStreamRef → t.mounted = s.mounted →
      t.mountVars.isSome = s.mountVars.isSome → Lives s t
  | cleanup : s.mounted = true → t.mounted = false →
      t.mountVars.isSome = s.mountVars.isSome → t.localStreamRef = s.localStreamRef →
      t.mediaRequested = s.mediaRequested → Lives s t

/-- A flush sets the effect up if it is due, and requests the stream. -/
theorem flush_requests (es : List Effect) :
    ∀ s : Page, (es.foldl runEffect s).mountVars.isSome
        = (s.mountVars.isSome || decide (.mount ∈ es)) ∧
      (es.foldl runEffect s).mediaRequested
        = (s.mediaRequested || decide (.mount ∈ es)) := by
  induction es with
  | nil => exact fun s => ⟨by simp, by simp⟩
  | cons e es ih =>
      intro s
      obtain ⟨hmv, hreq⟩ := ih (runEffect s e)
      rw [List.foldl_cons, hmv, hreq, runEffect_mountVars]
      cases e with
      | syncPeerId => simp [runEffect]
      | mount => simp [runEffect]
      | processPendingSDP =>
          refine ⟨by simp, ?_⟩
          rcases processPendingSDP_cases s with ⟨heq, -⟩ | ⟨m, -, -, heq⟩
          · simp [heq]
          · simp [heq, (handleSDPMessage_stream s.vars m s).2]

theorem step_lives {s s' : Page} {e : CamPage.Event} (hr : Reachable page s)
    (h : CamPage.step s e = some s') : Lives s s' := by
  have hst := CamPage.step_cases h
  have hmt := step_mounted h
  -- a handler between two renders that leaves stream and request alone
  have hsame : SameRender s s' → SameMedia s s' → Lives s s' := fun hrender hmedia =>
    .same hrender.mounted (by rw [hrender.mountVars]) hmedia.stream hmedia.request
  have hhandler : SameRender s s' → (∀ o, e ≠ .userMedia o) → e ≠ .flushEffects →
      Lives s s' := by
    intro hrender hmedia hflush
    cases step_attaches hr h with
    | same hm => exact hsame hrender hm
    | mounts => exact absurd rfl hflush
    | granted => exact absurd rfl (hmedia _)
    | denied => exact absurd rfl (hmedia _)
    | tracks _ _ _ _ _ hstr hreq =>
        exact .same hrender.mounted (by rw [hrender.mountVars]) hstr hreq
    | offered _ _ _ _ hstr hreq =>
        exact .same hrender.mounted (by rw [hrender.mountVars]) hstr hreq
  cases hst with
  | render => exact .same rfl rfl rfl rfl
  | flushEffects =>
      obtain ⟨hmv, hreq⟩ := flush_requests s.effects { s with effects := [] }
      have hstr := flush_stream s.effects { s with effects := [] }
      have hm : (s.effects.foldl runEffect { s with effects := [] }).mounted = s.mounted := by
        rw [mounted_kept h (fun h => (nomatch h)), hmt]
      by_cases hdue : Effect.mount ∈ s.effects
      · refine .setup ?_ (by rw [hmv]; simp [hdue]) (hm.trans hmt) hstr
          (by rw [hreq]; simp [hdue])
        -- the effect is due before there is a connection
        have hpc := (mountRender_reachable hr).first hdue
        by_contra hne
        have hconn := (mountRender_reachable hr).connected (Option.isSome_iff_ne_none.mpr hne)
        rw [hpc] at hconn
        exact nomatch hconn
      · exact .same hm (by rw [hmv]; simp [hdue]) hstr (by rw [hreq]; simp [hdue])
  | message =>
      exact hhandler (onmessage_sameRender _ _ s) (fun _ h => (nomatch h))
        (fun h => (nomatch h))
  | iceCandidate =>
      exact hhandler (onicecandidate_sameRender _ _ s) (fun _ h => (nomatch h))
        (fun h => (nomatch h))
  | iceConnectionState => exact .same rfl rfl rfl rfl
  | mediaGranted => exact .grant (userMedia_requested h) rfl rfl rfl rfl
  | mediaDenied => exact .deny (userMedia_requested h) rfl rfl rfl rfl
  | edit => exact .same rfl rfl rfl rfl
  | press =>
      exact hhandler (createOffer_sameRender _ s) (fun _ h => (nomatch h))
        (fun h => (nomatch h))
  | @rejected pc op call rest =>
      have hrender : SameRender s (setChain rest s) := ⟨rfl, rfl, rfl, rfl, rfl⟩
      exact hhandler (hrender.trans (reject_sameRender _ _)) (fun _ h => (nomatch h))
        (fun h => (nomatch h))
  | fulfilled _ hpc =>
      exact hhandler (settle_sameRender hpc) (fun _ h => (nomatch h)) (fun h => (nomatch h))
  | unmount => exact .cleanup hmt rfl rfl rfl rfl

/-- Before the effect has run nothing is requested, and while the request is
    outstanding there is no stream. -/
structure Asked (s : Page) : Prop where
  before : s.mountVars = none → s.localStreamRef = none ∧ s.mediaRequested = false
  asked : s.mediaRequested = true → s.localStreamRef = none

theorem asked_step {s t : Page} (hi : Asked s) (h : Lives s t) : Asked t := by
  -- nothing happens before the effect has run
  have hbefore : t.mountVars.isSome = s.mountVars.isSome → t.mountVars = none →
      s.mountVars = none := by
    intro hmv hn
    rw [hn] at hmv
    simpa using hmv.symm
  cases h with
  | same _ hmv hstr hreq =>
      refine ⟨fun hn => ?_, fun hq => ?_⟩
      · rw [hstr, hreq]
        exact hi.before (hbefore hmv hn)
      · rw [hstr]
        exact hi.asked (hreq.symm.trans hq)
  | setup hnone hmv _ hstr hreq =>
      refine ⟨fun hn => ?_, fun _ => hstr.trans (hi.before hnone).1⟩
      rw [hn] at hmv
      exact nomatch hmv
  | grant hq hreq _ _ hmv =>
      refine ⟨fun hn => ?_, fun hq' => ?_⟩
      · rw [(hi.before (hbefore hmv hn)).2] at hq
        exact nomatch hq
      · exact nomatch hreq.symm.trans hq'
  | deny _ hreq hstr _ hmv =>
      refine ⟨fun hn => ⟨?_, hreq⟩, fun hq' => ?_⟩
      · rw [hstr]
        exact (hi.before (hbefore hmv hn)).1
      · exact nomatch hreq.symm.trans hq'
  | cleanup _ _ hmv hstr hreq =>
      refine ⟨fun hn => ?_, fun hq => ?_⟩
      · rw [hstr, hreq]
        exact hi.before (hbefore hmv hn)
      · rw [hstr]
        exact hi.asked (hreq.symm.trans hq)

theorem asked_reachable {s : Page} (h : Reachable page s) : Asked s := by
  refine ReachVia.invariant (fun s hs => ?_) (fun s e s' hr hi _ hst => ?_) h
  · subst hs
    exact ⟨fun _ => ⟨rfl, rfl⟩, fun h => (nomatch h)⟩
  · exact asked_step hi (step_lives hr hst)

/-- The life of a page so far: one cycle. -/
def lifeOf (s : Page) : Life :=
  if s.mountVars.isSome then
    { active := if s.mounted then some 0 else none
      sockets := 1
      closedSockets := if s.mounted then [] else [0]
      connections := 1
      closedConnections := if s.mounted then [] else [0]
      streams := if s.localStreamRef.isSome then 1 else 0
      stopped := if s.mounted then [] else (s.localStreamRef.map (fun _ => 0)).toList
      peerConnectionRef := some 0
      localStreamRef := s.localStreamRef.map (fun _ => 0)
      requests := 1
      pending := if s.mediaRequested then [0] else [] }
  else .initial

/-- **THE PAGE LIVES SO**: the mount effect of a page of `CamPage` goes through the
    first cycle of such a life. -/
theorem page_lives {s : Page} (h : Reachable page s) : Reachable life (lifeOf s) := by
  refine ReachVia.project (M := page) (N := life) lifeOf (fun s hs => ?_)
    (fun s e s' hr _ hst => ?_) h
  · subst hs
    rfl
  · have hasked := asked_reachable hr
    have hmt : s.mounted = true := step_mounted hst
    cases step_lives hr hst with
    | same hm hmv hstr hreq =>
        refine Or.inl ?_
        simp only [lifeOf]
        rw [hm, hmv, hstr, hreq]
    | setup hnone hmv hm hstr hreq =>
        refine Or.inr ⟨.setup, trivial, ?_⟩
        have hnostream := (hasked.before hnone).1
        simp only [lifeOf]
        simp only [hnone, hmv, hm, hstr, hreq, hnostream, Option.isSome_none]
        rfl
    | grant hq hreq hsome hm hmv =>
        refine Or.inr ⟨.grant 0, trivial, ?_⟩
        have hmount : s.mountVars.isSome = true := by
          by_contra hn
          rw [(hasked.before (by simpa using hn)).2] at hq
          exact nomatch hq
        obtain ⟨stream, hstream⟩ := Option.isSome_iff_exists.mp hsome
        simp only [lifeOf]
        simp only [hmv, hm, hmount, hmt, hq, hreq, hasked.asked hq, hstream]
        rfl
    | deny hq hreq hstr hm hmv =>
        refine Or.inr ⟨.deny 0, trivial, ?_⟩
        have hmount : s.mountVars.isSome = true := by
          by_contra hn
          rw [(hasked.before (by simpa using hn)).2] at hq
          exact nomatch hq
        simp only [lifeOf]
        simp only [hmv, hm, hmount, hmt, hq, hreq, hstr]
        rfl
    | cleanup _ hm hmv hstr hreq =>
        cases hmount : s.mountVars.isSome with
        | false =>
            refine Or.inl ?_
            simp only [lifeOf]
            rw [hmv, hmount]
            rfl
        | true =>
            refine Or.inr ⟨.cleanup, trivial, ?_⟩
            simp only [lifeOf]
            simp only [hmv, hmount, hm, hmt, hstr, hreq]
            rfl

end Page

end CamLifecycle
