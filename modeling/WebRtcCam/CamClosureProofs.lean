import WebRtcCam.CamPageProofs

/-! # What the long-lived handlers captured

    The mount effect runs once, after the first render, and installs `ws.onmessage`
    and `onicecandidate` for the whole life of the page.  Both reach functions of
    THAT render: its `sendMessage` has no client id, and its
    `handleIceCandidateMessage` has an empty peer id, whatever was committed since.

    * `mountRender_reachable` — the captured variables are the initial ones;
    * `candidates_never_signalled` — so no gathered candidate is ever sent;
    * `peer_binding_kept_iff` — and every candidate message from somebody else
      rebinds the peer, while no session description does. -/

namespace CamClosure

open LtsRun JsonText CamWire RtcSignaling CamPage

/-! ## Effects and the render they belong to -/

@[simp] theorem runEffect_vars (s : Page) (e : Effect) :
    (runEffect s e).vars = s.vars := by
  cases e with
  | syncPeerId => rfl
  | mount => rfl
  | processPendingSDP =>
      simp only [runEffect]
      split
      · split
        · exact (handleSDPMessage_sameRender _ _ s).vars
        · rfl
      · rfl

@[simp] theorem runEffect_mounted (s : Page) (e : Effect) :
    (runEffect s e).mounted = s.mounted := by
  cases e with
  | syncPeerId => rfl
  | mount => rfl
  | processPendingSDP =>
      simp only [runEffect]
      split
      · split
        · exact (handleSDPMessage_sameRender _ _ s).mounted
        · rfl
      · rfl

@[simp] theorem runEffect_effects (s : Page) (e : Effect) :
    (runEffect s e).effects = s.effects := by
  cases e with
  | syncPeerId => rfl
  | mount => rfl
  | processPendingSDP =>
      simp only [runEffect]
      split
      · split
        · exact (handleSDPMessage_sameRender _ _ s).effects
        · rfl
      · rfl

theorem runEffect_mountVars (s : Page) (e : Effect) :
    (runEffect s e).mountVars
      = if e = .mount then some s.vars else s.mountVars := by
  cases e with
  | syncPeerId => rfl
  | mount => rfl
  | processPendingSDP =>
      simp only [runEffect, reduceCtorEq, if_false]
      split
      · split
        · exact (handleSDPMessage_sameRender _ _ s).mountVars
        · rfl
      · rfl

/-- A property that every single effect preserves, a flush preserves. -/
theorem flush_induction {P : Page → Prop}
    (hstep : ∀ s e, P s → P (runEffect s e)) :
    ∀ (es : List Effect) (s : Page), P s → P (es.foldl runEffect s) := by
  intro es
  induction es with
  | nil => intro s hs; exact hs
  | cons e es ih => intro s hs; exact ih _ (hstep s e hs)

theorem flush_vars (es : List Effect) (s : Page) :
    (es.foldl runEffect s).vars = s.vars :=
  flush_induction (P := fun t => t.vars = s.vars)
    (fun t e ht => by rw [runEffect_vars, ht]) es s rfl

theorem flush_effects (es : List Effect) (s : Page) :
    (es.foldl runEffect s).effects = s.effects :=
  flush_induction (P := fun t => t.effects = s.effects)
    (fun t e ht => by rw [runEffect_effects, ht]) es s rfl

/-- Only a render changes the committed variables. -/
theorem step_vars {s s' : Page} {e : Event} (h : Step s e s') :
    s'.vars = s.vars ∨ s'.vars = s.next := by
  cases h.frame with
  | render =>
      cases h with
      | render => exact Or.inr rfl
  | flushEffects =>
      cases h with
      | flushEffects => exact Or.inl (flush_vars _ _)
  | unmount =>
      cases h with
      | unmount => exact Or.inl rfl
  | message hsame => exact Or.inl hsame.vars
  | edit hsame => exact Or.inl hsame.vars
  | handler _ hsame _ => exact Or.inl hsame.vars

/-- A page stays mounted until it is unmounted. -/
theorem mounted_kept {s s' : Page} {e : Event} (h : step s e = some s')
    (he : e ≠ .unmount) : s'.mounted = true := by
  have hm := step_mounted h
  have hst := step_cases h
  cases hst.frame with
  | render =>
      cases hst with
      | render => exact hm
  | flushEffects =>
      cases hst with
      | flushEffects =>
          exact flush_induction (P := fun t => t.mounted = true)
            (fun t e ht => by rw [runEffect_mounted, ht]) s.effects _ hm
  | unmount => exact absurd rfl he
  | message hsame => rw [hsame.mounted, hm]
  | edit hsame => rw [hsame.mounted, hm]
  | handler _ hsame _ => rw [hsame.mounted, hm]

theorem mount_not_changed (v w : Vars) : Effect.mount ∉ changedEffects v w := by
  rw [changedEffects]
  split <;> split <;> simp

theorem runEffect_connected {s : Page} (e : Effect)
    (h : s.peerConnectionRef.isSome = true) :
    (runEffect s e).peerConnectionRef.isSome = true := by
  cases e with
  | syncPeerId => exact h
  | mount => rfl
  | processPendingSDP =>
      simp only [runEffect]
      split
      · split
        · exact (handleSDPMessage_sameRender _ _ s).connected.trans h
        · exact h
      · exact h

/-- The mount effect is due only with the first render and before there is a
    connection, what it captured is that render, and it created the connection. -/
structure MountRender (s : Page) : Prop where
  due : Effect.mount ∈ s.effects → s.vars = .initial
  first : Effect.mount ∈ s.effects → s.peerConnectionRef = none
  captured : ∀ env, s.mountVars = some env → env = .initial
  connected : s.mountVars.isSome = true → s.peerConnectionRef.isSome = true

/-- An effect either keeps what was captured or captures the first render. -/
theorem flush_captured (es : List Effect) :
    ∀ t : Page, (Effect.mount ∈ es → t.vars = .initial) →
      (∀ env, t.mountVars = some env → env = .initial) →
      ∀ env, (es.foldl runEffect t).mountVars = some env → env = .initial := by
  induction es with
  | nil => intro t _ hc; exact hc
  | cons e es ih =>
      intro t hd hc
      refine ih _ (fun hm => ?_) (fun env henv => ?_)
      · rw [runEffect_vars]
        exact hd (List.mem_cons_of_mem _ hm)
      · rw [runEffect_mountVars] at henv
        split at henv
        · next he =>
            cases henv
            exact hd (by rw [he]; exact List.mem_cons_self ..)
        · exact hc env henv

theorem mountRender_flush {s : Page} (hi : MountRender s) :
    MountRender (s.effects.foldl runEffect { s with effects := [] }) := by
  have hnone : Effect.mount ∉ (s.effects.foldl runEffect { s with effects := [] }).effects := by
    rw [flush_effects]
    exact fun hm => (nomatch hm)
  refine ⟨fun hm => absurd hm hnone, fun hm => absurd hm hnone,
    flush_captured s.effects _ hi.due hi.captured, ?_⟩
  refine flush_induction (P := fun t => t.mountVars.isSome = true →
    t.peerConnectionRef.isSome = true) (fun t e ht hm => ?_) _ _ hi.connected
  by_cases he : e = .mount
  · rw [he]
    rfl
  · rw [runEffect_mountVars, if_neg he] at hm
    exact runEffect_connected e (ht hm)

theorem mountRender_step {s s' : Page} {e : Event} (hi : MountRender s)
    (h : Step s e s') : MountRender s' := by
  -- a handler between two renders keeps everything the invariant speaks about
  have hkeep : SameRender s s' → MountRender s' := by
    intro hsame
    refine ⟨fun hm => ?_, fun hm => ?_, fun env henv => ?_, fun hm => ?_⟩
    · rw [hsame.effects] at hm
      rw [hsame.vars]
      exact hi.due hm
    · rw [hsame.effects] at hm
      have hconn := hsame.connected
      rw [hi.first hm] at hconn
      simpa using hconn
    · rw [hsame.mountVars] at henv
      exact hi.captured env henv
    · rw [hsame.mountVars] at hm
      exact hsame.connected.trans (hi.connected hm)
  cases h.frame with
  | message hsame => exact hkeep hsame
  | edit hsame => exact hkeep hsame
  | handler _ hsame _ => exact hkeep hsame
  | render =>
      cases h with
      | render =>
          exact ⟨fun hm => absurd hm (mount_not_changed _ _),
            fun hm => absurd hm (mount_not_changed _ _), hi.captured, hi.connected⟩
  | flushEffects =>
      cases h with
      | flushEffects => exact mountRender_flush hi
  | unmount =>
      cases h with
      | unmount =>
          refine ⟨hi.due, fun hm => ?_, hi.captured, fun hm => ?_⟩
          · rw [hi.first hm]
            rfl
          · have hpc := hi.connected hm
            simpa using hpc

theorem mountRender_reachable {s : Page} (h : Reachable page s) :
    MountRender s := by
  refine ReachVia.invariant (fun s hs => ?_) (fun s e s' _ hi _ hst => ?_) h
  · subst hs
    exact ⟨fun _ => rfl, fun _ => rfl, fun _ he => (nomatch he), fun he => (nomatch he)⟩
  · exact mountRender_step hi (step_cases hst)

/-! ## Gathered candidates -/

/-- The frame a gathered candidate should be signalled with. -/
def candidateFrame (s : Page) (c : Json) : Json :=
  .obj (member "from" s.vars.clientId
    ++ ([("to", s.peerIdRef), ("candidate", c), ("type", .str "candidate")] : Members))

/-- **NO CANDIDATE IS EVER SIGNALLED.**  Whenever the connection gathers a
    candidate, whatever client id, socket and peer are committed by then, the
    handler sends nothing: its `sendMessage` is the first render's and has no
    client id. -/
theorem candidates_never_signalled {s s' : Page} (h : Reachable page s) (c : Json)
    (hfire : step s (.iceCandidate (some c)) = some s') :
    s'.sent = s.sent ∧ s'.sent ≠ s.sent ++ [candidateFrame s c] := by
  have hsent : s'.sent = s.sent := by
    cases step_cases hfire with
    | iceCandidate _ henv =>
        rw [(mountRender_reachable h).captured _ henv]
        simp only [onicecandidate]
        split
        · rfl
        · rfl
  refine ⟨hsent, ?_⟩
  rw [hsent]
  intro heq
  have hlen := congrArg List.length heq
  simp at hlen

/-- The state a list of events leads a fresh page to. -/
def stateAfter (es : List Event) : Page := (exec page .initial es).getD .initial

theorem stateAfter_reachable {es : List Event}
    (h : (exec page .initial es).isSome = true) : Reachable page (stateAfter es) := by
  have hrun : exec page .initial es = some (stateAfter es) := by
    rw [stateAfter, Option.getD_of_ne_none (Option.isSome_iff_ne_none.mp h)]
  exact Reachable.of_exec rfl hrun

/-- The page is mounted, has been welcomed as `a` and has `b` as its peer. -/
def boundRun : List Event :=
  [.flushEffects, .message (some (welcomeJson "a")), .edit "b", .render,
    .flushEffects, .render]

/-- A page with a client id, a socket and a peer gathers a candidate, and the frame
    is not sent. -/
theorem candidate_dropped :
    ∃ s s' : Page, Reachable page s ∧ s.vars.clientId = some (.str "a") ∧
      s.vars.socket.isSome = true ∧ s.peerIdRef = .str "b" ∧
      step s (.iceCandidate (some (.str "c"))) = some s' ∧
      s'.sent ≠ s.sent ++ [candidateFrame s (.str "c")] :=
  ⟨stateAfter boundRun, stateAfter (boundRun ++ [.iceCandidate (some (.str "c"))]),
    stateAfter_reachable (by decide), by decide, by decide, by decide, by decide,
    by decide⟩

theorem candidates_never_signalled_sample :
    (stateAfter boundRun).vars.clientId = some (.str "a") ∧
    (stateAfter (boundRun ++ [.iceCandidate (some (.str "c"))])).sent
      = (stateAfter boundRun).sent :=
  ⟨by decide, (candidates_never_signalled (stateAfter_reachable (by decide)) (.str "c")
    (by decide)).1⟩

/-! ## The peer binding -/

/-- No `setPeerId` is queued. -/
def NoPeerUpdate (s : Page) : Prop := ∀ id, Update.setPeerId id ∉ s.queue

theorem foldl_peerId (l : List Update) (v : Vars)
    (h : ∀ id, Update.setPeerId id ∉ l) : (l.foldl Vars.apply v).peerId = v.peerId := by
  induction l generalizing v with
  | nil => rfl
  | cons u l ih =>
      rw [List.foldl_cons, ih _ (fun id hm => h id (List.mem_cons_of_mem _ hm))]
      cases u with
      | setPeerId id => exact absurd (List.mem_cons_self ..) (h id)
      | _ => rfl

/-- Queued peer ids that are all `p` make the next one `p`. -/
theorem foldl_peerId_eq {p : Json} (l : List Update) (v : Vars) (hv : v.peerId = p)
    (h : ∀ id, Update.setPeerId id ∈ l → id = p) :
    (l.foldl Vars.apply v).peerId = p := by
  induction l generalizing v with
  | nil => exact hv
  | cons u l ih =>
      refine ih _ ?_ (fun id hm => h id (List.mem_cons_of_mem _ hm))
      cases u with
      | setPeerId id => exact h id (List.mem_cons_self ..)
      | _ => exact hv

/-- A message that makes `handleIceCandidateMessage` bind another peer than the
    one committed and current. -/
def Rebinds (s : Page) (data : Option Json) : Prop :=
  ∃ j sender, data = some j ∧ isICECandidateMessage j = true ∧
    j.get "from" = some sender ∧ (sender ≠ s.vars.peerId ∨ sender ≠ s.peerIdRef)

/-- What the fixed handler does with a candidate message: it binds the sender, for
    the peer id it captured is empty. -/
theorem adoptSender_initial (m : Received) (s : Page) :
    adoptSender .initial m s =
      match m.data.get "from" with
      | some sender => bindPeer sender s
      | none => s := by
  rw [adoptSender]
  cases m.data.get "from" with
  | some sender => rfl
  | none => rfl

/-- What a handler may do to the peer id and its ref. -/
theorem handleIceCandidateMessage_peer {m : Received} {s : Page}
    (hpc : s.peerConnectionRef.isSome = true) :
    (handleIceCandidateMessage .initial m s).queue = (adoptSender .initial m s).queue ∧
      (handleIceCandidateMessage .initial m s).peerIdRef
        = (adoptSender .initial m s).peerIdRef := by
  rcases handleIceCandidateMessage_cases .initial m s with ⟨hn, -⟩ | h | ⟨c, -, h⟩
  · rw [hn] at hpc
    exact nomatch hpc
  · rw [h]
    exact ⟨rfl, rfl⟩
  · rw [h]
    exact ⟨rfl, rfl⟩

/-- What an arrival does to the peer id: a candidate message with a sender binds
    that sender, and nothing else touches it. -/
theorem onmessage_peer {s : Page} (hpc : s.peerConnectionRef.isSome = true)
    (data : Option Json) :
    (∃ j sender, data = some j ∧ isICECandidateMessage j = true ∧
      j.get "from" = some sender ∧
      (onmessage .initial data s).queue = s.queue ++ [.setPeerId sender] ∧
      (onmessage .initial data s).peerIdRef = sender) ∨
    ((∀ j, data = some j → isICECandidateMessage j = true → j.get "from" = none) ∧
      (∃ l, (onmessage .initial data s).queue = s.queue ++ l ∧
        ∀ id, Update.setPeerId id ∉ l) ∧
      (onmessage .initial data s).peerIdRef = s.peerIdRef) := by
  have ha := onmessage_cases .initial data s
  generalize onmessage .initial data s = t at ha
  cases ha with
  | uncaught hd =>
      refine Or.inr ⟨fun j hj hc => ?_, ⟨[], (List.append_nil _).symm, by simp⟩, rfl⟩
      subst hj
      rcases hd with hd | hd <;> cases hd
      exact nomatch hc
  | @welcome j hw _ =>
      refine Or.inr ⟨fun i hi hc => ?_, ⟨_, rfl, by simp⟩, rfl⟩
      cases hi
      exact absurd (hasType_inj hw hc) (by decide)
  | @unprintable j hw _ =>
      refine Or.inr ⟨fun i hi hc => ?_, ⟨_, rfl, by simp⟩, rfl⟩
      cases hi
      exact absurd (hasType_inj hw hc) (by decide)
  | @sdp j _ hs =>
      refine Or.inr ⟨fun i hi hc => ?_, ⟨_, rfl, by simp⟩, rfl⟩
      cases hi
      rcases Bool.or_eq_true_iff.mp hs with ho | ha
      · exact absurd (hasType_inj ho hc) (by decide)
      · exact absurd (hasType_inj ha hc) (by decide)
  | @candidate j _ _ hc =>
      obtain ⟨hq, hr⟩ := handleIceCandidateMessage_peer (m := s.arrival j)
        (s := receive j s) hpc
      rw [hq, hr, adoptSender_initial]
      cases hf : (s.arrival j).data.get "from" with
      | some sender => exact Or.inl ⟨j, sender, rfl, hc, hf, rfl, rfl⟩
      | none =>
          refine Or.inr ⟨fun i hi _ => ?_, ⟨[], (List.append_nil _).symm, by simp⟩, rfl⟩
          cases hi
          exact hf
  | @ignored j _ _ hc =>
      refine Or.inr ⟨fun i hi hc' => ?_, ⟨[], (List.append_nil _).symm, by simp⟩, rfl⟩
      cases hi
      rw [hc] at hc'
      exact nomatch hc'

/-- With a peer committed, `handleSDPMessage` adopts nobody. -/
theorem handleSDPMessage_bound {env : Vars} (hb : isPeerIdEmpty env.peerId = false)
    (m : Received) (s : Page) :
    (handleSDPMessage env m s).queue = s.queue ∧
      (handleSDPMessage env m s).peerIdRef = s.peerIdRef := by
  have hkeep : ∀ t : Page, adoptSender env m t = t := by
    intro t
    rcases adoptSender_cases env m t with h | ⟨_, -, he, -⟩
    · exact h
    · rw [hb] at he
      exact nomatch he
  rcases handleSDPMessage_cases env m s with
    ⟨-, h⟩ | ⟨pc, pc', -, -, ⟨h, -⟩ | ⟨sdp, d, -, -, h⟩⟩
  · rw [h]
    exact ⟨rfl, rfl⟩
  · rw [h, hkeep]
    exact ⟨rfl, rfl⟩
  · rw [h, hkeep]
    exact ⟨rfl, rfl⟩

/-- With a peer committed, an effect queues no peer id, and the ref changes only
    when it is synchronised. -/
theorem runEffect_bound {s : Page} (hb : isPeerIdEmpty s.vars.peerId = false)
    (e : Effect) :
    (∀ id, .setPeerId id ∈ (runEffect s e).queue → .setPeerId id ∈ s.queue) ∧
      ((runEffect s e).peerIdRef = s.peerIdRef ∨
        (e = .syncPeerId ∧ (runEffect s e).peerIdRef = s.vars.peerId)) := by
  cases e with
  | syncPeerId => exact ⟨fun id hm => hm, Or.inr ⟨rfl, rfl⟩⟩
  | mount =>
      refine ⟨fun id hm => ?_, Or.inl rfl⟩
      rcases List.mem_append.mp hm with hm | hm
      · exact hm
      · exact absurd (List.mem_singleton.mp hm) (by simp)
  | processPendingSDP =>
      simp only [runEffect]
      split
      · next m _ =>
          obtain ⟨hq, hr⟩ := handleSDPMessage_bound hb m s
          split
          · refine ⟨fun id hm => ?_, Or.inl hr⟩
            rw [enqueue_queue, hq] at hm
            rcases List.mem_append.mp hm with hm | hm
            · exact hm
            · exact absurd (List.mem_singleton.mp hm) (by simp)
          · exact ⟨fun id hm => hm, Or.inl rfl⟩
      · exact ⟨fun id hm => hm, Or.inl rfl⟩

/-- What a state later than `s` still has of the binding of `s`: the peer id, every
    queued one, and the ref, but for a synchronisation that was due in `s`. -/
structure BoundAs (s u : Page) : Prop where
  vars : u.vars.peerId = s.vars.peerId
  queued : ∀ id, .setPeerId id ∈ u.queue → id = s.vars.peerId
  ref : u.peerIdRef = s.peerIdRef ∨
    (.syncPeerId ∈ s.effects ∧ u.peerIdRef = s.vars.peerId)
  due : .syncPeerId ∈ u.effects → .syncPeerId ∈ s.effects

theorem BoundAs.next {s u : Page} (h : BoundAs s u) : u.next.peerId = s.vars.peerId :=
  foldl_peerId_eq u.queue u.vars h.vars h.queued

/-- The steps that leave the binding alone: no edit, and no message that rebinds. -/
def KeepsPeer (u : Page) (e : Event) : Prop :=
  (∀ v, e ≠ .edit v) ∧ ∀ data, e = .message data → ¬ Rebinds u data

theorem flush_boundAs {s : Page} (hb : isPeerIdEmpty s.vars.peerId = false)
    (es : List Effect) :
    ∀ u : Page, BoundAs s u → (.syncPeerId ∈ es → .syncPeerId ∈ s.effects) →
      BoundAs s (es.foldl runEffect u) := by
  induction es with
  | nil => intro u hu _; exact hu
  | cons e es ih =>
      intro u hu hdue
      have hbu : isPeerIdEmpty u.vars.peerId = false := by rw [hu.vars]; exact hb
      obtain ⟨hq, hr⟩ := runEffect_bound hbu e
      refine ih _ ⟨?_, fun id hm => hu.queued id (hq id hm), ?_, ?_⟩
        (fun hm => hdue (List.mem_cons_of_mem _ hm))
      · rw [runEffect_vars]
        exact hu.vars
      · rcases hr with hr | ⟨he, hr⟩
        · rw [hr]
          exact hu.ref
        · rw [hr, hu.vars]
          exact Or.inr ⟨hdue (by rw [he]; exact List.mem_cons_self ..), rfl⟩
      · rw [runEffect_effects]
        exact hu.due

/-- An arrival that does not rebind leaves the binding as it was. -/
theorem boundAs_message {s u : Page} (hpc : u.peerConnectionRef.isSome = true)
    (hu : BoundAs s u) {data : Option Json} (hk : ¬ Rebinds u data) :
    BoundAs s (onmessage .initial data u) := by
  have hsame := onmessage_sameRender .initial data u
  have hvars : (onmessage .initial data u).vars.peerId = s.vars.peerId := by
    rw [hsame.vars]
    exact hu.vars
  have hdue : .syncPeerId ∈ (onmessage .initial data u).effects →
      .syncPeerId ∈ s.effects := by
    rw [hsame.effects]
    exact hu.due
  rcases onmessage_peer hpc data with
    ⟨j, sender, hj, hc, hf, hq, hr⟩ | ⟨-, ⟨l, hq, hl⟩, hr⟩
  · -- the sender is bound, and it is the one that was bound
    have hvar : sender = u.vars.peerId := by
      by_contra hne
      exact hk ⟨j, sender, hj, hc, hf, Or.inl hne⟩
    have href : sender = u.peerIdRef := by
      by_contra hne
      exact hk ⟨j, sender, hj, hc, hf, Or.inr hne⟩
    refine ⟨hvars, fun id hid => ?_, ?_, hdue⟩
    · rw [hq] at hid
      rcases List.mem_append.mp hid with hid | hid
      · exact hu.queued id hid
      · cases List.mem_singleton.mp hid
        rw [hvar, hu.vars]
    · rw [hr, href]
      exact hu.ref
  · refine ⟨hvars, fun id hid => ?_, by rw [hr]; exact hu.ref, hdue⟩
    rw [hq] at hid
    rcases List.mem_append.mp hid with hid | hid
    · exact hu.queued id hid
    · exact absurd hid (hl id)

theorem boundAs_step {s u v : Page} {e : Event} (hm : MountRender u)
    (hb : isPeerIdEmpty s.vars.peerId = false) (hu : BoundAs s u)
    (hk : KeepsPeer u e) (h : Step u e v) : BoundAs s v := by
  cases h.frame with
  | render =>
      cases h with
      | render =>
          refine ⟨hu.next, fun id hid => (nomatch hid), hu.ref, fun hdue => ?_⟩
          -- the next peer id is the committed one, so its effect is not due
          have hsame : u.vars.peerId = u.next.peerId := by rw [hu.next, hu.vars]
          have hnot : Effect.syncPeerId ∉ changedEffects u.vars u.next := by
            simp only [changedEffects, hsame, if_true, List.nil_append]
            split <;> simp
          exact absurd hdue hnot
  | flushEffects =>
      cases h with
      | flushEffects =>
          refine flush_boundAs hb u.effects _ ⟨hu.vars, hu.queued, hu.ref, ?_⟩ hu.due
          exact fun hdue => (nomatch hdue)
  | unmount =>
      cases h with
      | unmount => exact ⟨hu.vars, hu.queued, hu.ref, hu.due⟩
  | @message data _ =>
      cases h with
      | message _ henv =>
          rw [hm.captured _ henv]
          exact boundAs_message (hm.connected (by rw [henv]; rfl)) hu (hk.2 data rfl)
  | @edit w _ => exact absurd rfl (hk.1 w)
  | handler _ hsame hin =>
      obtain ⟨l, hq, hl⟩ := hin.queue
      refine ⟨by rw [hsame.vars]; exact hu.vars, fun id hid => ?_, ?_, ?_⟩
      · rw [hq] at hid
        rcases List.mem_append.mp hid with hid | hid
        · exact hu.queued id hid
        · exact absurd (hl _ hid) (by simp [Update.plain])
      · rw [hin.peerIdRef]
        exact hu.ref
      · rw [hsame.effects]
        exact hu.due

/-- An arrival keeps the binding exactly when it does not rebind. -/
theorem message_keeps_iff {s s' : Page} {data : Option Json} (hm : MountRender s)
    (hq : NoPeerUpdate s) (h : step s (.message data) = some s') :
    s'.next.peerId = s.vars.peerId ∧ s'.peerIdRef = s.peerIdRef ↔ ¬ Rebinds s data := by
  cases step_cases h with
  | message _ henv =>
      have hpc := hm.connected (by rw [henv]; rfl)
      have hvars := (onmessage_sameRender .initial data s).vars
      have hnext : s.next.peerId = s.vars.peerId := foldl_peerId _ _ hq
      rw [hm.captured _ henv]
      rcases onmessage_peer hpc data with
        ⟨j, sender, hj, hc, hf, hqs, hr⟩ | ⟨hno, ⟨l, hql, hl⟩, hr⟩
      · have hbind : (onmessage .initial data s).next.peerId = sender := by
          rw [next_of_append hvars hqs]
          rfl
        rw [hbind, hr]
        constructor
        · rintro ⟨h₁, h₂⟩ ⟨i, sender', hi, -, hf', hne⟩
          rw [hj] at hi
          cases hi
          rw [hf] at hf'
          cases hf'
          rcases hne with hne | hne
          · exact hne h₁
          · exact hne h₂
        · intro hk
          refine ⟨by_contra fun hne => hk ⟨j, sender, hj, hc, hf, Or.inl hne⟩,
            by_contra fun hne => hk ⟨j, sender, hj, hc, hf, Or.inr hne⟩⟩
      · have hkeep : (onmessage .initial data s).next.peerId = s.vars.peerId := by
          rw [next_of_append hvars hql, foldl_peerId _ _ hl, hnext]
        refine ⟨fun _ => ?_, fun _ => ⟨hkeep, hr⟩⟩
        rintro ⟨j, sender, hj, hc, hf, -⟩
        rw [hno j hj hc] at hf
        exact nomatch hf

/-- **THE PEER BINDING**, in any state with a committed peer and no update of it
    queued.  An arrival keeps the peer id and its ref exactly when it is no
    candidate message from somebody else; and in every run of steps that are
    neither edits nor such messages, session descriptions and their effects
    included, the binding stays what it was. -/
theorem peer_binding_kept_iff {s : Page} (h : Reachable page s)
    (hbound : isPeerIdEmpty s.vars.peerId = false) (hq : NoPeerUpdate s) :
    (∀ data s', step s (.message data) = some s' →
      (s'.next.peerId = s.vars.peerId ∧ s'.peerIdRef = s.peerIdRef ↔
        ¬ Rebinds s data)) ∧
    ∀ t, LaterVia page KeepsPeer s t →
      t.vars.peerId = s.vars.peerId ∧ t.next.peerId = s.vars.peerId ∧
      (t.peerIdRef = s.peerIdRef ∨
        (.syncPeerId ∈ s.effects ∧ t.peerIdRef = s.vars.peerId)) := by
  refine ⟨fun data s' hst => message_keeps_iff (mountRender_reachable h) hq hst, ?_⟩
  intro t ht
  have hstart : BoundAs s s :=
    ⟨rfl, fun id hid => absurd hid (hq id), Or.inl rfl, id⟩
  have hinv : Reachable page t ∧ BoundAs s t := by
    refine LaterVia.preserves (I := fun u => Reachable page u ∧ BoundAs s u)
      (fun u e v hu hk hst => ?_) ht ⟨h, hstart⟩
    exact ⟨.step hu.1 trivial hst,
      boundAs_step (mountRender_reachable hu.1) hbound hu.2 hk (step_cases hst)⟩
  exact ⟨hinv.2.vars, hinv.2.next, hinv.2.ref⟩

/-- A candidate message of somebody who is not the peer. -/
def strangerCandidate : Json :=
  .obj [("from", .str "x"), ("to", .str "a"), ("type", .str "candidate")]

/-- A page bound to `b` gets a candidate message from `x` and is bound to `x`. -/
theorem peer_rebound :
    ∃ s s' : Page, Reachable page s ∧ isPeerIdEmpty s.vars.peerId = false ∧
      NoPeerUpdate s ∧ step s (.message (some strangerCandidate)) = some s' ∧
      s'.next.peerId ≠ s.vars.peerId ∧ s'.peerIdRef ≠ s.peerIdRef := by
  refine ⟨stateAfter boundRun,
    stateAfter (boundRun ++ [.message (some strangerCandidate)]),
    stateAfter_reachable (by decide), by decide, ?_, by decide, by decide, by decide⟩
  intro id hid
  have hnil : (stateAfter boundRun).queue = [] := by decide
  rw [hnil] at hid
  exact nomatch hid

theorem peer_binding_kept_iff_sample :
    isPeerIdEmpty (stateAfter boundRun).vars.peerId = false ∧
    (∀ data s', step (stateAfter boundRun) (.message data) = some s' →
      (s'.next.peerId = .str "b" ∧ s'.peerIdRef = .str "b" ↔
        ¬ Rebinds (stateAfter boundRun) data)) := by
  have hnil : (stateAfter boundRun).queue = [] := by decide
  refine ⟨by decide, (peer_binding_kept_iff (stateAfter_reachable (by decide))
    (by decide) (fun id hid => ?_)).1⟩
  rw [hnil] at hid
  exact nomatch hid

end CamClosure
