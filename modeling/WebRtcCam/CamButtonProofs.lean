import WebRtcCam.CamGuardProofs
import WebRtcCam.CamLifecycleProofs

/-! # The connect button

    The button is disabled until the camera is there and a peer id has been typed in, and
    `createOffer` checks both once more, and the connection with them, before it looks at
    the flag.  The button is drawn from state variables, `createOffer` looks at refs: what
    one commit has drawn can be pressed much later, in any state of the refs.

    What getting past the checks does not mean is that the offer has the camera in it: a
    connection that has senders from a remote offer keeps them as they are.

    * `createOfferAlert` — the two checks, by the alert they end in;
    * `withTracks` — what the track step makes of the connection;
    * `stream_behind_ready` — a variable that says "ready" has a stream behind it;
    * `enabled_button_offers` — whoever can press gets past every check. -/

namespace CamButton

open LtsRun JsonText RtcSignaling CamPage CamClosure CamPending
open CamLifecycle (step_lives asked_reachable)

/-- The alert `createOffer` ends in, if it ends in one. -/
def createOfferAlert (env : Vars) (s : Page) : Option String :=
  if s.peerConnectionRef.isNone || isPeerIdEmpty env.peerId then
    some "接続先のClient IDを入力してください"
  else if !isMediaStreamReady env.isLocalStreamReady s.localStreamRef then
    some "カメラの準備ができていません"
  else none

/-! ## The stream behind the variable -/

/-- The step leaves alone what the next render will say of the stream. -/
def SameReady (s t : Page) : Prop :=
  t.next.isLocalStreamReady = s.next.isLocalStreamReady

theorem SameReady.of_queue {s t : Page} (hv : t.vars = s.vars) (hq : t.queue = s.queue) :
    SameReady s t := by
  rw [SameReady, Page.next, Page.next, hv, hq]

theorem adoptSender_ready (env : Vars) (m : Received) (s : Page) :
    SameReady s (adoptSender env m s) := by
  rcases adoptSender_cases env m s with h | ⟨sender, -, -, h⟩
  · rw [h]
    exact rfl
  · have hnext : (bindPeer sender s).next = s.next.apply (.setPeerId sender) :=
      next_of_append (s := s) (t := bindPeer sender s) rfl rfl
    rw [h, SameReady, hnext]
    rfl

theorem handleSDPMessage_ready (env : Vars) (m : Received) (s : Page) :
    SameReady s (handleSDPMessage env m s) := by
  have hadopt : SameReady s (adoptSender env m (noteSDP m s)) :=
    adoptSender_ready env m (noteSDP m s)
  rcases handleSDPMessage_cases env m s with
    ⟨-, h⟩ | ⟨_, _, -, -, ⟨h, -⟩ | ⟨_, _, -, -, h⟩⟩
  · rw [h]
    exact rfl
  · rw [h]
    exact hadopt
  · rw [h]
    exact hadopt

theorem runEffect_ready (s : Page) (e : Effect) : SameReady s (runEffect s e) := by
  cases e with
  | syncPeerId => exact rfl
  | mount =>
      have hnext : (runEffect s .mount).next = s.next.apply (.setSocket ⟨⟩) :=
        next_of_append (s := s) (t := runEffect s .mount) rfl rfl
      rw [SameReady, hnext]
      rfl
  | processPendingSDP =>
      rcases processPendingSDP_cases s with ⟨h, -⟩ | ⟨m, -, -, h⟩
      · rw [h]
        exact rfl
      · rw [h, SameReady, next_enqueue]
        exact handleSDPMessage_ready s.vars m s

theorem onmessage_ready (env : Vars) (data : Option Json) (s : Page) :
    SameReady s (onmessage env data s) := by
  have ha := onmessage_cases env data s
  generalize onmessage env data s = t at ha
  cases ha with
  | uncaught => exact rfl
  | @welcome j _ _ =>
      rw [SameReady, next_enqueue]
      rfl
  | @unprintable j _ _ =>
      show (enqueue (.setClientId (j.get "id")) (receive j s)).next.isLocalStreamReady = _
      rw [next_enqueue]
      rfl
  | sdp =>
      rw [SameReady, next_enqueue]
      rfl
  | @candidate j _ _ _ =>
      have hadopt := adoptSender_ready env (s.arrival j) (receive j s)
      rcases handleIceCandidateMessage_cases env (s.arrival j) (receive j s) with
        ⟨-, h⟩ | h | ⟨_, -, h⟩
      · rw [h]
        exact rfl
      · rw [h]
        exact hadopt
      · rw [h]
        exact hadopt
  | ignored => exact rfl

theorem resume_ready (sdp : String) (call : Call) (s : Page) :
    SameReady s (resume sdp call s) := by
  cases call with
  | offerApplied env d =>
      rw [resume, CamNegotiation.sendMessage_eq]
      exact rfl
  | answerApplied env m d =>
      rw [resume, CamNegotiation.sendMessage_eq]
      exact rfl
  | remoteApplied env m isOffer => cases isOffer <;> exact rfl
  | _ => exact rfl

/-- Only a camera that is granted makes the next render say "ready". -/
theorem ready_step {s s' : Page} {e : Event} (hr : Reachable page s)
    (h : CamPage.step s e = some s') :
    SameReady s s' ∨
      (s'.localStreamRef.isSome = true ∧ s'.next.isLocalStreamReady = true) := by
  cases step_cases h with
  | render => exact Or.inl rfl
  | flushEffects =>
      exact Or.inl (flush_induction (P := fun t => SameReady s t)
        (fun t e ht => (runEffect_ready t e).trans ht) s.effects { s with effects := [] } rfl)
  | message => exact Or.inl (onmessage_ready _ _ s)
  | iceCandidate _ henv =>
      rw [(mountRender_reachable hr).captured _ henv, CamNegotiation.onicecandidate_initial]
      exact Or.inl rfl
  | iceConnectionState =>
      refine Or.inl ?_
      rw [SameReady, next_enqueue]
      rfl
  | mediaGranted =>
      refine Or.inr ⟨rfl, ?_⟩
      rw [next_enqueue]
      rfl
  | mediaDenied => exact Or.inl rfl
  | edit =>
      refine Or.inl ?_
      rw [SameReady, next_enqueue]
      rfl
  | press =>
      refine Or.inl ?_
      rcases createOffer_cases s.vars s with h | ⟨-, h⟩ | ⟨_, _, -, -, -, -, h⟩ <;> rw [h] <;>
        exact rfl
  | @rejected pc op call rest =>
      refine Or.inl (.of_queue (reject_sameRender _ _).vars ?_)
      cases call <;> rfl
  | @fulfilled pc pc' op call rest sdp sections states =>
      refine Or.inl ((resume_ready sdp call _).trans ?_)
      rw [onsignalingstatechange]
      split <;> exact rfl
  | unmount => exact Or.inl rfl

/-- **A STREAM BEHIND IT**: what a render says, or the next one will say, of the stream is
    true of the ref. -/
theorem stream_behind_ready {s : Page} (h : Reachable page s)
    (hready : s.vars.isLocalStreamReady = true ∨ s.next.isLocalStreamReady = true) :
    s.localStreamRef.isSome = true := by
  revert hready
  refine ReachVia.invariant (I := fun s => s.vars.isLocalStreamReady = true ∨
    s.next.isLocalStreamReady = true → s.localStreamRef.isSome = true)
    (fun s h0 hready => ?_) (fun s e s' hr hi _ hst hready => ?_) h
  · subst h0
    rcases hready with h | h <;> cases h
  · -- the stream is not given up
    have hkeep : s.localStreamRef.isSome = true → s'.localStreamRef.isSome = true := by
      intro hsome
      cases step_lives hr hst with
      | same _ _ hstr => rw [hstr]; exact hsome
      | setup _ _ _ hstr => rw [hstr]; exact hsome
      | grant _ _ hnew => exact hnew
      | deny _ _ hstr => rw [hstr]; exact hsome
      | cleanup _ _ _ hstr => rw [hstr]; exact hsome
    rcases ready_step hr hst with hsame | ⟨hnew, -⟩
    · rcases hready with hv | hn
      · rcases step_vars (step_cases hst) with heq | heq
        · exact hkeep (hi (Or.inl (by rw [← heq]; exact hv)))
        · exact hkeep (hi (Or.inr (by rw [← heq]; exact hv)))
      · exact hkeep (hi (Or.inr (hsame.symm.trans hn)))
    · exact hnew

/-- What a render says, the next one will say. -/
theorem ready_next {s : Page} (h : Reachable page s) (hready : s.vars.isLocalStreamReady = true) :
    s.next.isLocalStreamReady = true := by
  revert hready
  refine ReachVia.invariant
    (I := fun s => s.vars.isLocalStreamReady = true → s.next.isLocalStreamReady = true)
    (fun s h0 hready => ?_) (fun s e s' hr hi _ hst hready => ?_) h
  · subst h0
    cases hready
  · rcases ready_step hr hst with hsame | ⟨-, hnew⟩
    · rw [hsame]
      rcases step_vars (step_cases hst) with heq | heq
      · rw [heq] at hready
        exact hi hready
      · rw [heq] at hready
        exact hready
    · exact hnew

/-- Once it is ready it stays so. -/
theorem ready_kept {s s' : Page} {e : Event} (hr : Reachable page s)
    (h : CamPage.step s e = some s') (hready : s.vars.isLocalStreamReady = true) :
    s'.vars.isLocalStreamReady = true := by
  rcases step_vars (step_cases h) with heq | heq
  · rw [heq]
    exact hready
  · rw [heq]
    exact ready_next hr hready

/-! ## The button -/

/-- The connection after the track step: as it was if it has any sender, and otherwise
    with one for each track of the stream. -/
def withTracks (pc : Pc) (stream : Stream) : Pc :=
  if hasTracksAdded pc then pc
  else { pc with senders := stream.tracks.map (fun t => ⟨t.kind, some t⟩) }

/-- On an open connection no `addTrack` throws. -/
theorem withTracks_eq {pc : Pc} (stream : Stream) (hopen : pc.signalingState ≠ .closed) :
    (if hasTracksAdded pc then some pc else addTracksToConnection pc stream)
      = some (withTracks pc stream) := by
  rw [withTracks]
  cases hadded : hasTracksAdded pc with
  | true => rfl
  | false =>
      have hnone : pc.senders = [] := by simpa [hasTracksAdded] using hadded
      exact attach_fresh stream hopen hnone

/-- What a press of the enabled button finds. -/
structure Pressable (s : Page) (pc : Pc) (stream : Stream) : Prop where
  connection : s.peerConnectionRef = some pc
  isOpen : pc.signalingState ≠ .closed
  camera : s.localStreamRef = some stream
  peer : isPeerIdEmpty s.vars.peerId = false
  media : isMediaStreamReady s.vars.isLocalStreamReady (some stream) = true

section Press

variable {s s' : Page} {pc : Pc} {stream : Stream}

theorem Pressable.skips (h : Pressable s pc stream) (hflag : s.isNegotiatingRef = true) :
    createOffer s.vars s = s := by
  simp only [createOffer, h.connection, h.peer, h.camera, h.media, hflag]
  rfl

theorem Pressable.offers (h : Pressable s pc stream) (hflag : s.isNegotiatingRef = false) :
    createOffer s.vars s = invoke .createOffer none (.offerCreated s.vars)
      (setNegotiating true (setPc (withTracks pc stream) s)) := by
  simp only [createOffer, h.connection, h.peer, h.camera, h.media, hflag,
    withTracks_eq stream h.isOpen]
  rfl

theorem pressable (hr : Reachable page s) (h : CamPage.step s .press = some s') :
    s' = createOffer s.vars s ∧ ∃ pc stream, Pressable s pc stream := by
  cases step_cases h with
  | press hm hb =>
      obtain ⟨hready, hpeer⟩ := Bool.and_eq_true_iff.mp hb
      obtain ⟨stream, hstr⟩ := Option.isSome_iff_exists.mp
        (stream_behind_ready hr (Or.inl hready))
      -- the stream was requested by the mount effect, which also made the connection
      have hmount : s.mountVars.isSome = true := by
        by_contra hno
        have hnone := ((asked_reachable hr).before (by simpa using hno)).1
        rw [hstr] at hnone
        cases hnone
      obtain ⟨pc, hpc⟩ := Option.isSome_iff_exists.mp
        ((mountRender_reachable hr).connected hmount)
      have hopen : pc.signalingState ≠ .closed := by
        have hne := isOpen_reachable hr hm
        rw [signaling_some hpc] at hne
        exact fun hc => hne (congrArg some hc)
      have hempty : isPeerIdEmpty s.vars.peerId = false := by
        rw [isPeerIdEmpty, hpeer]
        refine decide_eq_false (fun hno => ?_)
        rw [hno] at hpeer
        cases hpeer
      have hmedia : isMediaStreamReady s.vars.isLocalStreamReady (some stream) = true := by
        rw [hready]
        rfl
      exact ⟨rfl, pc, stream, hpc, hopen, hstr, hempty, hmedia⟩

/-- **WHOEVER CAN PRESS GETS THROUGH.**  In every reachable state of the page, a press of
    the enabled button ends in neither alert.  With the flag up it does nothing; with the
    flag down it gets to `pc.createOffer()`, on the connection with the senders it had or,
    if it had none, with all local tracks: no exception of the track step lowers the flag
    again. -/
theorem enabled_button_offers (hr : Reachable page s)
    (h : CamPage.step s .press = some s') :
    createOfferAlert s.vars s = none ∧
    ((s.isNegotiatingRef = true ∧ s' = s) ∨
      s.isNegotiatingRef = false ∧ ∃ pc stream, s.peerConnectionRef = some pc ∧
        s.localStreamRef = some stream ∧
        s' = invoke .createOffer none (.offerCreated s.vars)
          (setNegotiating true (setPc (withTracks pc stream) s))) := by
  obtain ⟨rfl, pc, stream, hp⟩ := pressable hr h
  refine ⟨?_, ?_⟩
  · rw [createOfferAlert, hp.connection, hp.peer, hp.camera, hp.media]
    rfl
  · cases hflag : s.isNegotiatingRef with
    | true => exact Or.inl ⟨rfl, hp.skips hflag⟩
    | false => exact Or.inr ⟨rfl, pc, stream, hp.connection, hp.camera, hp.offers hflag⟩

end Press

/-- A camera is granted, a peer id typed in, and the button drawn. -/
def readyRun : List Event :=
  [.flushEffects, .userMedia (some CamGuard.camera), .edit "b", .render]

theorem enabled_button_offers_sample :
    ∃ s s' : Page, Reachable page s ∧ CamPage.step s .press = some s' ∧
      createOfferAlert s.vars s = none ∧
      s'.chain = [(.createOffer, .offerCreated s.vars)] := by
  have hrun : (exec page .initial readyRun).any (fun s =>
      (CamPage.step s .press).isSome && !s.isNegotiatingRef && s.chain.isEmpty) = true := by
    decide +kernel
  obtain ⟨s, -, hr, hcheck⟩ := ReachVia.of_check (fun _ _ _ => trivial) rfl hrun
  simp only [Bool.and_eq_true, Bool.not_eq_true', List.isEmpty_iff] at hcheck
  obtain ⟨⟨hsome, hflag⟩, hchain⟩ := hcheck
  obtain ⟨s', hs'⟩ := Option.isSome_iff_exists.mp hsome
  obtain ⟨halert, ⟨hup, -⟩ | ⟨-, _, _, -, -, heq⟩⟩ := enabled_button_offers hr hs'
  · rw [hflag] at hup
    cases hup
  · refine ⟨s, s', hr, hs', halert, ?_⟩
    rw [heq]
    show s.chain ++ _ = _
    rw [hchain]
    rfl

end CamButton
