import WebRtcCam.CamPendingProofs

/-! # What a page step does to the negotiation

    Of a page step, a negotiation sees little: the connection, `isNegotiatingRef`,
    the operations chain with the calls that wait on it, and the frames sent.
    `step_negotiates` says once what a step can do to these, so that results about
    negotiations never look into the handlers again.

    * `Negotiates` — nothing, the mount, a started offer, a message handed over (which
      gets to `setRemoteDescription` or fails at once), a candidate, a settled
      operation, the unmount;
    * `Matches` — every suspended call waits for the operation it invoked. -/

namespace CamNegotiation

open LtsRun JsonText CamWire RtcSignaling CamPage CamClosure CamPending

/-! ## The inversion -/

/-- The connections agree in all but their senders. -/
def SamePc (s t : Page) : Prop :=
  (s.peerConnectionRef = none ∧ t.peerConnectionRef = none) ∨
    ∃ pc pc', s.peerConnectionRef = some pc ∧ t.peerConnectionRef = some pc' ∧
      SameSignaling pc pc'

theorem SamePc.of_eq {s t : Page} (h : t.peerConnectionRef = s.peerConnectionRef) :
    SamePc s t := by
  cases hs : s.peerConnectionRef with
  | none => exact Or.inl ⟨hs, by rw [h, hs]⟩
  | some pc => exact Or.inr ⟨pc, pc, hs, by rw [h, hs], .refl pc⟩

theorem SamePc.signaling {s t : Page} (h : SamePc s t) : t.signaling = s.signaling := by
  rcases h with ⟨hs, ht⟩ | ⟨pc, pc', hs, ht, hsig⟩
  · rw [Page.signaling, Page.signaling, hs, ht]
  · rw [signaling_some hs, signaling_some ht, hsig.state]

theorem SamePc.ne_none {s t : Page} (h : SamePc s t)
    (hs : s.peerConnectionRef.isSome = true) : t.peerConnectionRef ≠ none := by
  rcases h with ⟨hn, -⟩ | ⟨_, _, -, ht, -⟩
  · rw [hn] at hs
    exact nomatch hs
  · rw [ht]
    exact fun h => (nomatch h)

/-- The frame `sendMessage` sends, if it sends one. -/
def frame (env : Vars) (message : Members) : List Json :=
  if truthy env.clientId && env.socket.isSome then
    [.obj (member "from" env.clientId ++ message)]
  else []

/-- What a call invokes and awaits next, once its operation is fulfilled. -/
def followUp (sdp : String) : Call → List (PcOp Json × Call)
  | .offerCreated env =>
      [(.setLocalDescription ⟨.offer, sdp⟩, .offerApplied env ⟨.offer, sdp⟩)]
  | .remoteApplied env m true => [(.createAnswer, .answerCreated env m)]
  | .answerCreated env m =>
      [(.setLocalDescription ⟨.answer, sdp⟩, .answerApplied env m ⟨.answer, sdp⟩)]
  | _ => []

/-- What a call sends, once its operation is fulfilled. -/
def frames : Call → List Json
  | .offerApplied env offer =>
      frame env [("to", env.peerId), ("sdp", descJson offer), ("type", .str "offer")]
  | .answerApplied env m answer =>
      frame env (member "to" (m.data.get "from")
        ++ ([("sdp", descJson answer), ("type", .str "answer")] : Members))
  | _ => []

/-- A call that raises the flag, once its operation is fulfilled. -/
def raises : Call → Bool
  | .remoteApplied _ _ isOffer => isOffer
  | _ => false

/-- Flag, chain and sent frames are what they were. -/
structure SameTalk (s t : Page) : Prop where
  flag : t.isNegotiatingRef = s.isNegotiatingRef
  chain : t.chain = s.chain
  sent : t.sent = s.sent

/-- Everything a step can do to a negotiation. -/
inductive Negotiates (s : Page) : Event → Page → Prop where
  | idle {e : Event} {t : Page} : SamePc s t → SameTalk s t →
      (e = .flushEffects → s.peerConnectionRef.isSome = true → handed s = none) →
      Negotiates s e t
  | mounts {t : Page} : s.vars = .initial → s.peerConnectionRef = none →
      t.peerConnectionRef = some .new → SameTalk s t → Negotiates s .flushEffects t
  | offers {t : Page} : s.mounted = true → s.isNegotiatingRef = false → SamePc s t →
      s.peerConnectionRef.isSome = true →
      t.isNegotiatingRef = true →
      t.chain = s.chain ++ [(.createOffer, .offerCreated s.vars)] → t.sent = s.sent →
      isPeerIdEmpty s.vars.peerId = false → Negotiates s .press t
  | handles {t : Page} {m : Received} {sdp : Json} {d : Desc} :
      s.vars.pendingSDP = some m → truthy s.vars.clientId = true →
      .processPendingSDP ∈ s.effects → sdpOf m = some sdp →
      RTCSessionDescription sdp = some d → SamePc s t →
      s.peerConnectionRef.isSome = true →
      t.isNegotiatingRef = s.isNegotiatingRef →
      t.chain = s.chain ++ [(.setRemoteDescription d,
        .remoteApplied s.vars m (isOfferSdp sdp))] →
      t.sent = s.sent → Negotiates s .flushEffects t
  | fails {t : Page} {m : Received} :
      s.vars.pendingSDP = some m → truthy s.vars.clientId = true →
      .processPendingSDP ∈ s.effects → describes m = false → SamePc s t →
      s.peerConnectionRef.isSome = true →
      t.isNegotiatingRef = false → t.chain = s.chain → t.sent = s.sent →
      Negotiates s .flushEffects t
  | candidate {t : Page} {data : Option Json} {c : Json} :
      t.peerConnectionRef = s.peerConnectionRef → s.peerConnectionRef.isSome = true →
      t.isNegotiatingRef = s.isNegotiatingRef →
      t.chain = s.chain ++ [(.addIceCandidate c, .candidateAdded)] → t.sent = s.sent →
      Negotiates s (.message data) t
  | rejected {t : Page} {pc : Pc} {op : PcOp Json} {call : Call}
      {rest : List (PcOp Json × Call)} : s.mounted = true →
      s.peerConnectionRef = some pc → s.chain = (op, call) :: rest →
      t.peerConnectionRef = some pc →
      t.isNegotiatingRef = (call = .candidateAdded && s.isNegotiatingRef) →
      t.chain = rest → t.sent = s.sent → Negotiates s (.settle .rejected) t
  | fulfilled {t : Page} {pc pc' : Pc} {op : PcOp Json} {call : Call}
      {rest : List (PcOp Json × Call)} {sdp : String} {sections : List Kind}
      {states : List SignalingState} : s.mounted = true →
      s.peerConnectionRef = some pc → s.chain = (op, call) :: rest →
      pc.perform sections op = some (pc', states) →
      t.peerConnectionRef = some pc' →
      t.isNegotiatingRef
        = (raises call || (s.isNegotiatingRef && .stable ∉ states)) →
      t.chain = rest ++ followUp sdp call → t.sent = s.sent ++ frames call →
      Negotiates s (.settle (.fulfilled sdp sections)) t
  | unmount {t : Page} : t.mounted = false →
      (t.peerConnectionRef = none → s.peerConnectionRef = none) → SameTalk s t →
      Negotiates s .unmount t

/-- Adopting a sender is no part of a negotiation. -/
theorem adoptSender_talk (env : Vars) (m : Received) (s : Page) :
    (adoptSender env m s).peerConnectionRef = s.peerConnectionRef ∧
      SameTalk s (adoptSender env m s) := by
  rcases adoptSender_cases env m s with h | ⟨_, -, -, h⟩ <;> rw [h]
  · exact ⟨rfl, rfl, rfl, rfl⟩
  · exact ⟨rfl, rfl, rfl, rfl⟩

theorem SameTalk.refl (s : Page) : SameTalk s s := ⟨rfl, rfl, rfl⟩

theorem SameTalk.trans {s t u : Page} (h₁ : SameTalk s t) (h₂ : SameTalk t u) :
    SameTalk s u :=
  ⟨h₂.flag.trans h₁.flag, h₂.chain.trans h₁.chain, h₂.sent.trans h₁.sent⟩

/-- Effects other than the mount and the hand-over have no part in it. -/
theorem flush_talk (es : List Effect) :
    ∀ s : Page, .processPendingSDP ∉ es →
      SameTalk s (es.foldl runEffect s) ∧
      (.mount ∉ es → (es.foldl runEffect s).peerConnectionRef = s.peerConnectionRef) ∧
      ((.mount ∈ es ∨ s.peerConnectionRef = some .new) →
        (es.foldl runEffect s).peerConnectionRef = some .new) := by
  induction es with
  | nil =>
      intro s _
      refine ⟨.refl s, fun _ => rfl, fun h => ?_⟩
      rcases h with h | h
      · exact nomatch h
      · exact h
  | cons e es ih =>
      intro s hes
      have hrest : .processPendingSDP ∉ es := fun hm => hes (List.mem_cons_of_mem _ hm)
      obtain ⟨htalk, hpc, hnew⟩ := ih (runEffect s e) hrest
      cases e with
      | syncPeerId =>
          refine ⟨SameTalk.trans (t := runEffect s .syncPeerId) ⟨rfl, rfl, rfl⟩ htalk,
            fun hm => hpc (fun h => hm (List.mem_cons_of_mem _ h)), fun h => hnew ?_⟩
          rcases h with h | h
          · exact Or.inl (by simpa using h)
          · exact Or.inr h
      | mount =>
          refine ⟨SameTalk.trans (t := runEffect s .mount) ⟨rfl, rfl, rfl⟩ htalk,
            fun hm => absurd (List.mem_cons_self ..) hm, fun _ => hnew (Or.inr rfl)⟩
      | processPendingSDP => exact absurd (List.mem_cons_self ..) hes

/-- A described message on an open connection does not fail at once. -/
theorem not_describes {m : Received} {s : Page} {pc : Pc}
    (hpc : s.peerConnectionRef = some pc) (hopen : s.signaling ≠ some .closed)
    (hcatch : ∀ sdp, sdpOf m = some sdp → RTCSessionDescription sdp = none ∨
      tracksForOffer (isOfferSdp sdp) s.localStreamRef pc = none) :
    describes m = false := by
  unfold describes
  cases hsdp : sdpOf m with
  | none => rfl
  | some sdp =>
      rw [signaling_some hpc] at hopen
      rcases hcatch sdp hsdp with h | h
      · rw [Option.bind_some, h]
        rfl
      · have htracks := tracksForOffer_isSome (fun hc => hopen (congrArg some hc))
          (isOfferSdp sdp) s.localStreamRef
        rw [h] at htracks
        exact nomatch htracks

/-- What a flush does: it mounts, hands a message over, or has no part in it. -/
theorem flush_negotiates {s : Page} (hm : MountRender s) (ho : EffectOrder s.effects)
    (hopen : s.signaling ≠ some .closed) :
    Negotiates s .flushEffects (s.effects.foldl runEffect { s with effects := [] }) := by
  rcases ho.last with hnot | ⟨es, hes, hnot⟩
  · obtain ⟨htalk, hpc, hnew⟩ := flush_talk s.effects { s with effects := [] } hnot
    have htalk' : SameTalk s _ := ⟨htalk.flag, htalk.chain, htalk.sent⟩
    by_cases hmount : Effect.mount ∈ s.effects
    · exact .mounts (hm.due hmount) (hm.first hmount) (hnew (Or.inl hmount)) htalk'
    · exact .idle (.of_eq (hpc hmount)) htalk' (fun _ _ => handed_none (Or.inl hnot))
  · obtain ⟨htalk, hpc, hnew⟩ := flush_talk es { s with effects := [] } hnot
    have htalk' : SameTalk s (es.foldl runEffect { s with effects := [] }) :=
      ⟨htalk.flag, htalk.chain, htalk.sent⟩
    have hvars := flush_vars es { s with effects := [] }
    have hdue : Effect.processPendingSDP ∈ s.effects := by rw [hes]; simp
    have hmem : Effect.mount ∈ s.effects ↔ Effect.mount ∈ es := by rw [hes]; simp
    rw [hes, List.foldl_append, List.foldl_cons, List.foldl_nil]
    generalize es.foldl runEffect { s with effects := [] } = t at *
    by_cases hmount : Effect.mount ∈ es
    · -- nothing is pending in the first render
      have hinit := hm.due (hmem.mpr hmount)
      have heq : runEffect t .processPendingSDP = t := by
        rcases processPendingSDP_cases t with ⟨heq, -⟩ | ⟨m, hmt, -, -⟩
        · exact heq
        · rw [hvars, hinit] at hmt
          exact nomatch hmt
      rw [heq]
      exact .mounts hinit (hm.first (hmem.mpr hmount)) (hnew (Or.inl hmount)) htalk'
    · have hpct : t.peerConnectionRef = s.peerConnectionRef := hpc hmount
      rcases processPendingSDP_cases t with ⟨heq, hnone⟩ | ⟨m, hmt, hid, heq⟩
      · rw [heq]
        rw [hvars] at hnone
        exact .idle (.of_eq hpct) htalk' (fun _ _ => handed_none (Or.inr hnone))
      · rw [heq]
        rw [hvars] at hmt hid ⊢
        obtain ⟨hadpc, hadtalk⟩ := adoptSender_talk s.vars m (noteSDP m t)
        rcases handleSDPMessage_cases s.vars m t with
          ⟨hn, h⟩ | ⟨pc, pc', hsome, hsig, ⟨h, hcatch⟩ | ⟨sdp, d, hsdp, hd, h⟩⟩
        · rw [h]
          refine .idle (.of_eq hpct) (htalk'.trans ⟨rfl, rfl, rfl⟩) (fun _ hsome => ?_)
          rw [← hpct, hn] at hsome
          exact nomatch hsome
        · have hs : s.peerConnectionRef = some pc := by rw [← hpct]; exact hsome
          have hopent : t.signaling ≠ some .closed := by
            rw [Page.signaling, hpct]
            exact hopen
          rw [h]
          refine .fails hmt hid hdue (not_describes hsome hopent hcatch) ?_
            (by rw [hs]; rfl) rfl (hadtalk.chain.trans htalk'.chain)
            (hadtalk.sent.trans htalk'.sent)
          exact Or.inr ⟨pc, pc', hs, rfl, hsig⟩
        · have hs : s.peerConnectionRef = some pc := by rw [← hpct]; exact hsome
          rw [h]
          refine .handles hmt hid hdue hsdp hd ?_ (by rw [hs]; rfl)
            (hadtalk.flag.trans htalk'.flag) ?_ (hadtalk.sent.trans htalk'.sent)
          · exact Or.inr ⟨pc, pc', hs, rfl, hsig⟩
          · show (adoptSender s.vars m (noteSDP m t)).chain ++ _ = _
            rw [hadtalk.chain]
            exact congrArg (· ++ _) htalk'.chain

/-- What an arrival does: a candidate is added, or it has no part in it. -/
theorem onmessage_negotiates (env : Vars) (data : Option Json) {s : Page}
    (hsome : s.peerConnectionRef.isSome = true) :
    Negotiates s (.message data) (onmessage env data s) := by
  have ha := onmessage_cases env data s
  generalize onmessage env data s = t at ha
  cases ha with
  | uncaught => exact .idle (.of_eq rfl) ⟨rfl, rfl, rfl⟩ (fun h => (nomatch h))
  | welcome => exact .idle (.of_eq rfl) ⟨rfl, rfl, rfl⟩ (fun h => (nomatch h))
  | unprintable => exact .idle (.of_eq rfl) ⟨rfl, rfl, rfl⟩ (fun h => (nomatch h))
  | sdp => exact .idle (.of_eq rfl) ⟨rfl, rfl, rfl⟩ (fun h => (nomatch h))
  | ignored => exact .idle (.of_eq rfl) ⟨rfl, rfl, rfl⟩ (fun h => (nomatch h))
  | @candidate j _ _ _ =>
      obtain ⟨hpc, htalk⟩ := adoptSender_talk env (s.arrival j) (receive j s)
      rcases handleIceCandidateMessage_cases env (s.arrival j) (receive j s) with
        ⟨-, h⟩ | h | ⟨c, -, h⟩
      · rw [h]
        exact .idle (.of_eq rfl) ⟨rfl, rfl, rfl⟩ (fun h => (nomatch h))
      · rw [h]
        exact .idle (.of_eq hpc) ⟨htalk.flag, htalk.chain, htalk.sent⟩ (fun h => (nomatch h))
      · rw [h]
        refine .candidate (c := c) hpc hsome htalk.flag ?_ htalk.sent
        show (adoptSender env (s.arrival j) (receive j s)).chain ++ _ = _
        rw [htalk.chain]
        rfl

theorem sendMessage_eq (env : Vars) (message : Members) (s : Page) :
    sendMessage env message s = { s with sent := s.sent ++ frame env message } := by
  unfold sendMessage frame
  cases ht : truthy env.clientId with
  | false => simp
  | true =>
      cases hs : env.socket with
      | none => simp
      | some ws => simp

/-- What `resume` comes to. -/
theorem resume_talk (sdp : String) (call : Call) (s : Page) :
    (resume sdp call s).isNegotiatingRef = (raises call || s.isNegotiatingRef) ∧
      (resume sdp call s).chain = s.chain ++ followUp sdp call ∧
      (resume sdp call s).sent = s.sent ++ frames call := by
  cases call with
  | offerCreated env => exact ⟨rfl, rfl, (List.append_nil _).symm⟩
  | offerApplied env offer =>
      simp only [resume, sendMessage_eq]
      exact ⟨rfl, (List.append_nil _).symm, rfl⟩
  | remoteApplied env m isOffer =>
      cases isOffer with
      | true => exact ⟨rfl, rfl, (List.append_nil _).symm⟩
      | false => exact ⟨rfl, (List.append_nil _).symm, (List.append_nil _).symm⟩
  | answerCreated env m => exact ⟨rfl, rfl, (List.append_nil _).symm⟩
  | answerApplied env m answer =>
      simp only [resume, sendMessage_eq]
      exact ⟨rfl, (List.append_nil _).symm, rfl⟩
  | candidateAdded => exact ⟨rfl, (List.append_nil _).symm, (List.append_nil _).symm⟩

theorem onsignalingstatechange_talk (states : List SignalingState) (s : Page) :
    (onsignalingstatechange states s).isNegotiatingRef
        = (s.isNegotiatingRef && .stable ∉ states) ∧
      (onsignalingstatechange states s).chain = s.chain ∧
      (onsignalingstatechange states s).sent = s.sent := by
  unfold onsignalingstatechange
  split
  · next h => exact ⟨by simp [h], rfl, rfl⟩
  · next h => exact ⟨by simp [h], rfl, rfl⟩

theorem reject_talk (call : Call) (s : Page) :
    (reject call s).isNegotiatingRef = (call = .candidateAdded && s.isNegotiatingRef) ∧
      (reject call s).chain = s.chain ∧ (reject call s).sent = s.sent := by
  cases call <;> exact ⟨rfl, rfl, rfl⟩

/-- Without a client id nothing is sent. -/
theorem onicecandidate_initial (c : Option Json) (s : Page) :
    onicecandidate .initial c s = s := by
  unfold onicecandidate
  split
  · split
    · rfl
    · rfl
  · rfl

/-- The first call on the chain goes on, its operation being fulfilled. -/
structure Fulfilled (s t : Page) (sdp : String) (sections : List Kind) (pc pc' : Pc)
    (op : PcOp Json) (call : Call) (rest : List (PcOp Json × Call))
    (states : List SignalingState) : Prop where
  mounted : s.mounted = true
  before : s.peerConnectionRef = some pc
  chain : s.chain = (op, call) :: rest
  perform : pc.perform sections op = some (pc', states)
  after : t.peerConnectionRef = some pc'
  flag : t.isNegotiatingRef = (raises call || (s.isNegotiatingRef && .stable ∉ states))
  rest : t.chain = rest ++ followUp sdp call
  sent : t.sent = s.sent ++ frames call

theorem step_fulfilled {s s' : Page} {sdp : String} {sections : List Kind}
    (h : step s (.settle (.fulfilled sdp sections)) = some s') :
    ∃ pc pc' op call rest states,
      Fulfilled s s' sdp sections pc pc' op call rest states := by
  cases step_cases h with
  | @fulfilled pc pc' op call rest _ _ states hmt hpc hchain hperf =>
      obtain ⟨hflag, hch, hsent⟩ := resume_talk sdp call
        (onsignalingstatechange states (setPc pc' (setChain rest s)))
      obtain ⟨hflag', hch', hsent'⟩ := onsignalingstatechange_talk states
        (setPc pc' (setChain rest s))
      refine ⟨pc, pc', op, call, rest, states, hmt, hpc, hchain, hperf, ?_, ?_, ?_, ?_⟩
      · rw [resume_pc, onsignalingstatechange_pc]
        rfl
      · rw [hflag, hflag']
        rfl
      · rw [hch, hch']
        rfl
      · rw [hsent, hsent']
        rfl

/-- **INVERSION**, as to the negotiation. -/
theorem step_negotiates {s s' : Page} {e : Event} (hr : Reachable page s)
    (h : step s e = some s') : Negotiates s e s' := by
  have hm := mountRender_reachable hr
  have hopen := isOpen_reachable hr
  cases step_cases h with
  | render => exact .idle (.of_eq rfl) ⟨rfl, rfl, rfl⟩ (fun h => (nomatch h))
  | flushEffects hmt => exact flush_negotiates hm ((slot_reachable hr).order) (hopen hmt)
  | message _ henv => exact onmessage_negotiates _ _ (hm.connected (by rw [henv]; rfl))
  | iceCandidate _ henv =>
      rw [hm.captured _ henv, onicecandidate_initial]
      exact .idle (.of_eq rfl) (.refl s) (fun h => (nomatch h))
  | iceConnectionState => exact .idle (.of_eq rfl) ⟨rfl, rfl, rfl⟩ (fun h => (nomatch h))
  | mediaGranted => exact .idle (.of_eq rfl) ⟨rfl, rfl, rfl⟩ (fun h => (nomatch h))
  | mediaDenied => exact .idle (.of_eq rfl) ⟨rfl, rfl, rfl⟩ (fun h => (nomatch h))
  | edit => exact .idle (.of_eq rfl) ⟨rfl, rfl, rfl⟩ (fun h => (nomatch h))
  | press hmt =>
      rcases createOffer_cases s.vars s with
        h | ⟨hneg, h⟩ | ⟨pc, pc', hpc, hsig, hneg, hpeer, h⟩
      · rw [h]
        exact .idle (.of_eq rfl) (.refl s) (fun h => (nomatch h))
      · rw [h]
        exact .idle (.of_eq rfl) ⟨hneg.symm, rfl, rfl⟩ (fun h => (nomatch h))
      · rw [h]
        exact .offers hmt hneg (Or.inr ⟨pc, pc', hpc, rfl, hsig⟩) (by rw [hpc]; rfl)
          rfl rfl rfl hpeer
  | @rejected pc op call rest hmt hpc hchain =>
      obtain ⟨hflag, hch, hsent⟩ := reject_talk call (setChain rest s)
      exact .rejected hmt hpc hchain ((reject_pc _ _).trans hpc) hflag hch hsent
  | fulfilled =>
      obtain ⟨pc, pc', op, call, rest, states, hs⟩ := step_fulfilled h
      exact .fulfilled hs.mounted hs.before hs.chain hs.perform hs.after hs.flag hs.rest
        hs.sent
  | unmount => exact .unmount rfl (by simp) ⟨rfl, rfl, rfl⟩

/-! ## Calls and their operations -/

/-- What the page takes for an offer is one. -/
theorem type_of_isOfferSdp {sdp : Json} {d : Desc} (h : isOfferSdp sdp = true)
    (hd : RTCSessionDescription sdp = some d) : d.type = .offer := by
  cases sdp with
  | obj ms =>
      have hty : lookup "type" ms = some (.str "offer") := of_decide_eq_true h
      simp only [RTCSessionDescription, hty, toJsString] at hd
      split at hd
      · next ty text hname _ =>
          cases hname
          cases hd
          rfl
      · exact nomatch hd
  | _ => exact nomatch hd

/-- The operation a suspended call waits for; a description that the connection has
    created is a text. -/
inductive Matches : PcOp Json → Call → Prop where
  | offerCreated {env : Vars} : Matches .createOffer (.offerCreated env)
  | offerApplied {env : Vars} {d : Desc} : d.type = .offer → (∃ t : String, d.sdp = t) →
      Matches (.setLocalDescription d) (.offerApplied env d)
  | remoteApplied {env : Vars} {m : Received} {sdp : Json} {d : Desc} :
      sdpOf m = some sdp → RTCSessionDescription sdp = some d →
      truthy env.clientId = true →
      Matches (.setRemoteDescription d) (.remoteApplied env m (isOfferSdp sdp))
  | answerCreated {env : Vars} {m : Received} : truthy env.clientId = true →
      Matches .createAnswer (.answerCreated env m)
  | answerApplied {env : Vars} {m : Received} {d : Desc} : d.type = .answer →
      (∃ t : String, d.sdp = t) → truthy env.clientId = true →
      Matches (.setLocalDescription d) (.answerApplied env m d)
  | candidateAdded {c : Json} : Matches (.addIceCandidate c) .candidateAdded

/-- What a fulfilled call awaits next is again of this kind. -/
theorem matches_followUp {op : PcOp Json} {call : Call} (h : Matches op call)
    (sdp : String) : ∀ x ∈ followUp sdp call, Matches x.1 x.2 := by
  cases h with
  | offerCreated =>
      intro x hx
      cases List.mem_singleton.mp hx
      exact .offerApplied rfl ⟨sdp, rfl⟩
  | offerApplied => exact fun x hx => (nomatch hx)
  | @remoteApplied env m sdpJson d _ _ hid =>
      intro x hx
      cases hoff : isOfferSdp sdpJson with
      | true =>
          rw [hoff] at hx
          cases List.mem_singleton.mp hx
          exact .answerCreated hid
      | false =>
          rw [hoff] at hx
          exact nomatch hx
  | answerCreated hid =>
      intro x hx
      cases List.mem_singleton.mp hx
      exact .answerApplied rfl ⟨sdp, rfl⟩ hid
  | answerApplied => exact fun x hx => (nomatch hx)
  | candidateAdded => exact fun x hx => (nomatch hx)

/-- Every call on the chain waits for its own operation, and there is no chain
    before there is a connection. -/
structure Matched (s : Page) : Prop where
  calls : ∀ x ∈ s.chain, Matches x.1 x.2
  before : s.peerConnectionRef = none → s.chain = [] ∧ s.isNegotiatingRef = false

theorem matched_step {s s' : Page} {e : Event} (hi : Matched s)
    (h : Negotiates s e s') : Matched s' := by
  -- an appended call that waits for its operation keeps the chain matched
  have happend : ∀ x : PcOp Json × Call, Matches x.1 x.2 →
      ∀ y ∈ s.chain ++ [x], Matches y.1 y.2 := by
    intro x hx y hy
    rcases List.mem_append.mp hy with hy | hy
    · exact hi.calls y hy
    · cases List.mem_singleton.mp hy
      exact hx
  cases h with
  | idle hpc htalk _ =>
      refine ⟨by rw [htalk.chain]; exact hi.calls, fun hn => ?_⟩
      rw [htalk.chain, htalk.flag]
      rcases hpc with ⟨hs, -⟩ | ⟨_, _, -, ht, -⟩
      · exact hi.before hs
      · rw [hn] at ht
        exact nomatch ht
  | mounts _ _ hnew htalk =>
      refine ⟨by rw [htalk.chain]; exact hi.calls, fun hn => ?_⟩
      rw [hnew] at hn
      exact nomatch hn
  | offers _ _ hpc hsome _ hchain =>
      refine ⟨by rw [hchain]; exact happend _ .offerCreated, fun hn => ?_⟩
      exact absurd hn (hpc.ne_none hsome)
  | handles _ hid _ hsdp hd hpc hsome _ hchain =>
      refine ⟨by rw [hchain]; exact happend _ (.remoteApplied hsdp hd hid),
        fun hn => ?_⟩
      exact absurd hn (hpc.ne_none hsome)
  | fails _ _ _ _ hpc hsome _ hchain =>
      refine ⟨by rw [hchain]; exact hi.calls, fun hn => ?_⟩
      exact absurd hn (hpc.ne_none hsome)
  | candidate hpc hsome _ hchain =>
      refine ⟨by rw [hchain]; exact happend _ .candidateAdded, fun hn => ?_⟩
      exact absurd hn ((SamePc.of_eq hpc).ne_none hsome)
  | rejected _ _ hs hpc _ hchain =>
      refine ⟨fun x hx => hi.calls x ?_, fun hn => ?_⟩
      · rw [hchain] at hx
        rw [hs]
        exact List.mem_cons_of_mem _ hx
      · rw [hpc] at hn
        exact nomatch hn
  | fulfilled _ _ hs _ hpc _ hchain =>
      refine ⟨fun x hx => ?_, fun hn => ?_⟩
      · rw [hchain] at hx
        rcases List.mem_append.mp hx with hx | hx
        · exact hi.calls x (by rw [hs]; exact List.mem_cons_of_mem _ hx)
        · exact matches_followUp (hi.calls _ (by rw [hs]; exact List.mem_cons_self ..))
            _ x hx
      · rw [hpc] at hn
        exact nomatch hn
  | unmount _ hpc htalk =>
      refine ⟨by rw [htalk.chain]; exact hi.calls, fun hn => ?_⟩
      rw [htalk.chain, htalk.flag]
      exact hi.before (hpc hn)

theorem matched_reachable {s : Page} (h : Reachable page s) : Matched s := by
  refine ReachVia.invariant (fun s hs => ?_) (fun s e s' hr hi _ hst => ?_) h
  · subst hs
    exact ⟨fun x hx => (nomatch hx), fun _ => ⟨rfl, rfl⟩⟩
  · exact matched_step hi (step_negotiates hr hst)

/-- The operation that was fulfilled is the one the call has waited for. -/
theorem Fulfilled.matches {s t : Page} {sdp : String} {sections : List Kind} {pc pc' : Pc}
    {op : PcOp Json} {call : Call} {rest : List (PcOp Json × Call)}
    {states : List SignalingState} (hr : Reachable page s)
    (h : Fulfilled s t sdp sections pc pc' op call rest states) : Matches op call :=
  (matched_reachable hr).calls (op, call) (by rw [h.chain]; exact List.mem_cons_self ..)

/-! ## What a page step does to the connection -/

/-- Where the connection of a page comes from: it is the old one but for its senders,
    a new one, the old one with an operation performed, or the old one closed. -/
inductive PcStep (s : Page) (pc' : Pc) : Event → Prop where
  | same {e : Event} {pc : Pc} : s.peerConnectionRef = some pc → SameSignaling pc pc' →
      PcStep s pc' e
  | mounted : pc' = .new → PcStep s pc' .flushEffects
  | performed {pc : Pc} {op : PcOp Json} {call : Call} {rest : List (PcOp Json × Call)}
      {sdp : String} {sections : List Kind} {states : List SignalingState} :
      s.peerConnectionRef = some pc → s.chain = (op, call) :: rest →
      pc.perform sections op = some (pc', states) →
      PcStep s pc' (.settle (.fulfilled sdp sections))
  | closed {pc : Pc} : s.peerConnectionRef = some pc → pc' = pc.close →
      PcStep s pc' .unmount

theorem step_pc {s s' : Page} {e : Event} (hr : Reachable page s) (h : step s e = some s')
    {pc' : Pc} (hpc' : s'.peerConnectionRef = some pc') : PcStep s pc' e := by
  have hsame : SamePc s s' → PcStep s pc' e := by
    rintro (⟨-, hn⟩ | ⟨pc, pc₁, hs, ht, hsig⟩)
    · rw [hn] at hpc'
      exact nomatch hpc'
    · cases ht.symm.trans hpc'
      exact .same hs hsig
  cases step_negotiates hr h with
  | idle hpc _ _ => exact hsame hpc
  | mounts _ _ hnew _ => exact .mounted (Option.some.inj (hpc'.symm.trans hnew))
  | offers _ _ hpc => exact hsame hpc
  | handles _ _ _ _ _ hpc => exact hsame hpc
  | fails _ _ _ _ hpc => exact hsame hpc
  | candidate hpc => exact hsame (.of_eq hpc)
  | rejected _ hpc _ hpc₁ => exact hsame (.of_eq (hpc₁.trans hpc.symm))
  | fulfilled _ hpc hchain hperf hpc₁ =>
      cases hpc₁.symm.trans hpc'
      exact .performed hpc hchain hperf
  | unmount =>
      cases step_cases h with
      | unmount =>
          obtain ⟨pc₁, hpc₁, rfl⟩ := Option.map_eq_some_iff.mp hpc'
          exact .closed hpc₁ rfl

/-- What every operation preserves of a connection holds of the connection of a page. -/
theorem pc_reachable {I : Pc → Prop} (hsame : ∀ pc pc', SameSignaling pc pc' → I pc → I pc')
    (hnew : I .new) (hclose : ∀ pc, I pc → I pc.close)
    (hperf : ∀ (op : PcOp Json) sections pc pc' states,
      pc.perform sections op = some (pc', states) → I pc → I pc')
    {s : Page} (h : Reachable page s) : ∀ pc, s.peerConnectionRef = some pc → I pc := by
  refine ReachVia.invariant (I := fun s => ∀ pc, s.peerConnectionRef = some pc → I pc)
    (fun s h0 pc hpc => ?_) (fun s e s' hr hi _ hst pc' hpc' => ?_) h
  · subst h0
    exact nomatch hpc
  · cases step_pc hr hst hpc' with
    | same hpc hsig => exact hsame _ _ hsig (hi _ hpc)
    | mounted heq =>
        rw [heq]
        exact hnew
    | performed hpc _ hop => exact hperf _ _ _ _ _ hop (hi _ hpc)
    | closed hpc heq =>
        rw [heq]
        exact hclose _ (hi _ hpc)

/-- A frame of a negotiation: `from` is the sender's client id, `to` the recipient,
    `sdp` the description, and `type` says which kind it is. -/
structure IsFrame (env : Vars) (dest : Js) (d : Desc) (ty : String) (f : Json) :
    Prop where
  sender : f.get "from" = env.clientId
  recipient : f.get "to" = dest
  sdp : f.get "sdp" = some (descJson d)
  type : f.get "type" = some (.str ty)
  known : truthy env.clientId = true

theorem lookup_member (k k' : String) (v : Js) :
    lookup k (member k' v) = if k' = k then v else none := by
  cases v with
  | none => simp [member]
  | some w => simp [member, lookup]

theorem isFrame_of_mem {env : Vars} {dest : Js} {d : Desc} {ty : String} {f : Json}
    (h : f ∈ frame env
      (member "to" dest ++ ([("sdp", descJson d), ("type", .str ty)] : Members))) :
    IsFrame env dest d ty f := by
  unfold frame at h
  split at h
  · next hc =>
      cases List.mem_singleton.mp h
      refine ⟨?_, ?_, ?_, ?_, (Bool.and_eq_true_iff.mp hc).1⟩ <;>
        simp [lookup_append, lookup_member, lookup]
  · exact nomatch h

/-- The variables a suspended call goes on with. -/
def callEnv : Call → Option Vars
  | .offerCreated env => some env
  | .offerApplied env _ => some env
  | .remoteApplied env _ _ => some env
  | .answerCreated env _ => some env
  | .answerApplied env _ _ => some env
  | .candidateAdded => none

/-- A call goes on with the variables it has. -/
theorem callEnv_followUp {sdp : String} {call : Call} {x : PcOp Json × Call}
    (h : x ∈ followUp sdp call) : callEnv x.2 = callEnv call := by
  cases call with
  | offerCreated env =>
      cases List.mem_singleton.mp h
      rfl
  | remoteApplied env m b =>
      cases b with
      | true =>
          cases List.mem_singleton.mp h
          rfl
      | false => exact nomatch h
  | answerCreated env m =>
      cases List.mem_singleton.mp h
      rfl
  | _ => exact nomatch h

/-- What a call sends: its offer to the peer it was started with, or its answer to
    the sender of the offer. -/
theorem isFrame_of_frames {call : Call} {f : Json} (h : f ∈ frames call) :
    (∃ env d, call = .offerApplied env d ∧
      IsFrame env (some env.peerId) d "offer" f) ∨
    ∃ env m d, call = .answerApplied env m d ∧
      IsFrame env (m.data.get "from") d "answer" f := by
  cases call with
  | offerApplied env d => exact Or.inl ⟨env, d, rfl, isFrame_of_mem h⟩
  | answerApplied env m d => exact Or.inr ⟨env, m, d, rfl, isFrame_of_mem h⟩
  | _ => exact nomatch h

/-- Every frame a page has sent was sent by a call it was in, with that call's
    variables. -/
theorem sent_step {s s' : Page} {e : Event} (h : Negotiates s e s') :
    s'.sent = s.sent ∨ ∃ op call rest, s.chain = (op, call) :: rest ∧
      s'.sent = s.sent ++ frames call := by
  cases h with
  | idle _ htalk _ => exact Or.inl htalk.sent
  | mounts _ _ _ htalk => exact Or.inl htalk.sent
  | offers _ _ _ _ _ _ hsent => exact Or.inl hsent
  | handles _ _ _ _ _ _ _ _ _ hsent => exact Or.inl hsent
  | fails _ _ _ _ _ _ _ _ hsent => exact Or.inl hsent
  | candidate _ _ _ _ hsent => exact Or.inl hsent
  | rejected _ _ _ _ _ _ hsent => exact Or.inl hsent
  | fulfilled _ _ hchain _ _ _ _ hsent => exact Or.inr ⟨_, _, _, hchain, hsent⟩
  | unmount _ _ htalk => exact Or.inl htalk.sent

/-- Every frame sent is an offer or an answer. -/
theorem sent_sdp {s : Page} (h : Reachable page s) :
    ∀ f ∈ s.sent, isSDPMessage f = true := by
  refine ReachVia.invariant (I := fun s => ∀ f ∈ s.sent, isSDPMessage f = true)
    (fun s hs => ?_) (fun s e s' hr hi _ hst => ?_) h
  · subst hs
    exact fun f hf => (nomatch hf)
  · intro f hf
    rcases sent_step (step_negotiates hr hst) with hsent | ⟨op, call, rest, -, hsent⟩
    · rw [hsent] at hf
      exact hi f hf
    · rw [hsent] at hf
      rcases List.mem_append.mp hf with hf | hf
      · exact hi f hf
      · rcases isFrame_of_frames hf with ⟨_, _, -, hframe⟩ | ⟨_, _, _, -, hframe⟩
        · simp [isSDPMessage, hasType, hframe.type]
        · simp [isSDPMessage, hasType, hframe.type]

end CamNegotiation
