import WebRtcCam.CamPendingProofs
import WebRtcCam.WebRTCCallsProofs

/-! # The flag of `useWebRTC` and its connection

    `isNegotiating` is meant to say that the connection in `peerConnectionRef` is not in
    `stable`.  Nothing ties the two together: `createOffer` and `handleOffer` raise the
    flag, the `signalingstatechange` of whatever connection lowers it, and so do their
    `catch` blocks.

    While calls are suspended the two may differ.  The invariant says how: a raised flag
    over a stable connection belongs to a call that is still suspended, and a connection
    that negotiates with the flag down does so for a `handleOffer` that has an offer to
    answer.

    * `mirrors_fulfilled` — one operation is fulfilled;
    * `mirrors_step` — one step of a run that is orderly;
    * `flag_mirrors_connection` — whole runs. -/

namespace WebRTCFlag

open LtsRun ReactFiber CamWire JsonText RtcSignaling WebRTCCalls
open CamPage (RTCSessionDescription)

/-! ## What is claimed of flag and connection -/

/-- `peerConnectionRef.current`. -/
def peerConnection (s : Hook) : Option Pc := s.peerConnectionRef.map (fun cx => cx.2.pc)

/-- The connection in the reference is not in `stable`. -/
def negotiating (s : Hook) : Bool :=
  (peerConnection s).any (fun pc => pc.signalingState ≠ .stable)

/-- A `createOffer` or `handleOffer` is suspended. -/
def Raising (s : Hook) : Prop :=
  ∃ (i : Nat) (x : Connection), s.connections[i]? = some x ∧
    ∃ p ∈ x.chain, p.2.raises = true

/-- The call is on its way from the offer to its answer. -/
def answers : Call → Bool
  | .answerCreated => true
  | .answerApplied _ => true
  | _ => false

theorem raises_of_answers {call : Call} (h : answers call = true) : call.raises = true := by
  cases call with
  | answerCreated => rfl
  | answerApplied answer => rfl
  | _ => cases h

/-- A `handleOffer` that has applied its offer is suspended on the connection in the
    reference. -/
def Answering (s : Hook) : Prop :=
  ∃ c x, s.peerConnectionRef = some (c, x) ∧ ∃ p ∈ x.chain, answers p.2 = true

structure Mirrors (s : Hook) : Prop where
  raised : s.flag = true → negotiating s = true ∨ Raising s
  negotiates : negotiating s = true → s.flag = true ∨ Answering s

/-- The operation may be fulfilled: an offer of `createOffer` is applied in `stable` only
    with the flag up, and a description that reaches `handleAnswer` and is an offer is
    applied only over another one or in `stable` with the flag up. -/
def mayFulfil (flag : Bool) (state : SignalingState) (p : PcOp Json × Call) : Bool :=
  match p with
  | (_, .offerApplied _) => state ≠ .stable || flag
  | (.setRemoteDescription d, .answered) =>
      d.type ≠ .offer || state = .haveRemoteOffer || (state = .stable && flag)
  | _ => true

/-- The effect runs again, and a `catch` lowers the flag, only while the connection is
    stable. -/
def orderly (s : Hook) : Event → Bool
  | .flushEffects => !negotiating s
  | .handleOffer _ message =>
      ((message.get "sdp").bind RTCSessionDescription).isSome || !negotiating s
  | .settle i .rejected =>
      (s.connections[i]?).all (fun x => x.chain.head?.all (fun p =>
        !p.2.raises || !negotiating s))
  | .settle i (.fulfilled _ _) =>
      (s.connections[i]?).all (fun x => x.chain.head?.all
        (mayFulfil s.flag x.pc.signalingState))
  | _ => true

/-! ## The connection in the reference -/

section Reference

variable {s t : Hook} {c : Nat} {x : Connection}

theorem peerConnectionRef_eq (hc : s.current = some c) (hx : s.connections[c]? = some x) :
    s.peerConnectionRef = some (c, x) := by
  rw [Hook.peerConnectionRef, hc, Option.bind_some, hx]
  rfl

theorem negotiating_eq (h : s.peerConnectionRef = some (c, x)) :
    negotiating s = decide (x.pc.signalingState ≠ .stable) := by
  rw [negotiating, peerConnection, h]
  rfl

/-- The connection in the reference is changed. -/
theorem peerConnectionRef_set {y : Connection} (h : s.peerConnectionRef = some (c, x))
    (hc : t.current = s.current) (hx : t.connections = s.connections.set c y) :
    t.peerConnectionRef = some (c, y) := by
  obtain ⟨hcur, hconn⟩ := peerConnectionRef_some h
  obtain ⟨hlt, -⟩ := List.getElem?_eq_some_iff.mp hconn
  refine peerConnectionRef_eq (hc.trans hcur) ?_
  rw [hx]
  exact List.getElem?_set_self hlt

/-- A connection that keeps its signaling state does not change whether the one in the
    reference negotiates. -/
theorem negotiating_set {i : Nat} {y : Connection} (hx : s.connections[i]? = some x)
    (hstate : y.pc.signalingState = x.pc.signalingState) (hc : t.current = s.current)
    (hset : t.connections = s.connections.set i y) : negotiating t = negotiating s := by
  by_cases hi : s.current = some i
  · have href := peerConnectionRef_eq hi hx
    rw [negotiating_eq href, negotiating_eq (peerConnectionRef_set href hc hset), hstate]
  · simp only [negotiating, peerConnection, Hook.peerConnectionRef]
    rw [hc]
    cases hcur : s.current with
    | none => rfl
    | some c =>
        have hne : i ≠ c := fun heq => hi (heq ▸ hcur)
        rw [hset, Option.bind_some, Option.bind_some, List.getElem?_set_ne hne]

/-- A suspended call stays suspended where only one connection changes and keeps it. -/
theorem raising_set {i : Nat} {y : Connection} (hx : s.connections[i]? = some x)
    (hset : t.connections = s.connections.set i y) (h : Raising s)
    (hkeep : (∃ p ∈ x.chain, p.2.raises = true) → ∃ p ∈ y.chain, p.2.raises = true) :
    Raising t := by
  obtain ⟨hlt, -⟩ := List.getElem?_eq_some_iff.mp hx
  obtain ⟨j, z, hz, hp⟩ := h
  by_cases hj : i = j
  · subst hj
    cases hx.symm.trans hz
    exact ⟨i, y, by rw [hset]; exact List.getElem?_set_self hlt, hkeep hp⟩
  · exact ⟨j, z, by rw [hset, List.getElem?_set_ne hj]; exact hz, hp⟩

theorem answering_set {i : Nat} {y : Connection} (hx : s.connections[i]? = some x)
    (hc : t.current = s.current) (hset : t.connections = s.connections.set i y)
    (h : Answering s)
    (hkeep : (∃ p ∈ x.chain, answers p.2 = true) → ∃ p ∈ y.chain, answers p.2 = true) :
    Answering t := by
  obtain ⟨c, z, href, hp⟩ := h
  obtain ⟨hcur, hz⟩ := peerConnectionRef_some href
  by_cases hi : i = c
  · subst hi
    cases hx.symm.trans hz
    exact ⟨i, y, peerConnectionRef_set href hc hset, hkeep hp⟩
  · refine ⟨c, z, peerConnectionRef_eq (hc.trans hcur) ?_, hp⟩
    rw [hset, List.getElem?_set_ne hi]
    exact hz

end Reference

/-! ## What an operation announces -/

section Perform

variable {pc pc' : Pc} {sections : List Kind} {op : PcOp Json} {states : List SignalingState}

/-- What is announced, by what kind of operation. -/
theorem perform_announces (h : pc.perform sections op = some (pc', states)) :
    (pc' = pc ∧ states = []) ∨
      ∃ d, (op = .setLocalDescription d ∨ op = .setRemoteDescription d) ∧
        states = announced d pc.signalingState pc'.signalingState := by
  cases op with
  | createOffer =>
      obtain ⟨hpc, hstates, -⟩ := perform_createOffer h
      exact Or.inl ⟨hpc, hstates⟩
  | createAnswer =>
      obtain ⟨hpc, hstates, -⟩ := perform_createAnswer h
      exact Or.inl ⟨hpc, hstates⟩
  | addIceCandidate c => exact Or.inl (perform_addIceCandidate h)
  | setLocalDescription d =>
      obtain ⟨pc₁, -, heq⟩ := Option.map_eq_some_iff.mp h
      cases heq
      exact Or.inr ⟨d, Or.inl rfl, rfl⟩
  | setRemoteDescription d =>
      obtain ⟨pc₁, -, heq⟩ := Option.map_eq_some_iff.mp h
      cases heq
      exact Or.inr ⟨d, Or.inr rfl, rfl⟩

/-- Without an announcement of `stable` no connection gets there. -/
theorem perform_quiet (h : pc.perform sections op = some (pc', states))
    (hquiet : .stable ∉ states) (hne : pc.signalingState ≠ .stable) :
    pc'.signalingState ≠ .stable := by
  rcases perform_announces h with ⟨rfl, -⟩ | ⟨d, -, hstates⟩
  · exact hne
  · intro hst
    rw [hstates] at hquiet
    exact hquiet (stable_announced hst hne)

/-- An announcement of `stable` by a connection that is not there afterwards is that of a
    remote offer over a local one. -/
theorem perform_loud (h : pc.perform sections op = some (pc', states))
    (hloud : .stable ∈ states) (hne : pc'.signalingState ≠ .stable) :
    ∃ d, op = .setRemoteDescription d ∧ d.type = .offer ∧
      pc.signalingState = .haveLocalOffer := by
  rcases perform_announces h with ⟨-, hstates⟩ | ⟨d, hop, hstates⟩
  · rw [hstates] at hloud
    cases hloud
  · rw [hstates] at hloud
    rcases announced_stable hloud with hst | ⟨hd, hbefore, hafter⟩
    · exact absurd hst hne
    · rcases hop with hop | hop
      · rw [hop] at h
        rw [(perform_localOffer hd h).1] at hafter
        cases hafter
      · exact ⟨d, hop, hd, hbefore⟩

/-- A connection leaves `stable` with an offer. -/
theorem perform_leaves (h : pc.perform sections op = some (pc', states))
    (hst : pc.signalingState = .stable) (hne : pc'.signalingState ≠ .stable) :
    ∃ d, d.type = .offer ∧ (op = .setLocalDescription d ∨ op = .setRemoteDescription d) := by
  cases perform_cases h with
  | unchanged => exact absurd hst hne
  | @localOffer d hd => exact ⟨d, hd, Or.inl rfl⟩
  | @remoteOffer d hd => exact ⟨d, hd, Or.inr rfl⟩
  | localAnswer => exact absurd rfl hne
  | remoteAnswer => exact absurd rfl hne
  | localPranswer _ hs => rw [hst] at hs; rcases hs with hs | hs <;> cases hs
  | remotePranswer _ hs => rw [hst] at hs; rcases hs with hs | hs <;> cases hs
  | localRollback => exact absurd rfl hne
  | remoteRollback => exact absurd rfl hne

end Perform

/-! ## The connection in use is open -/

/-- While the hook is mounted the connection in the reference is open. -/
def InUse (s : Hook) : Prop :=
  s.mounted = true → ∀ c x, s.peerConnectionRef = some (c, x) → x.pc.signalingState ≠ .closed

theorem inUse_set {s s' : Hook} {i : Nat} {x y : Connection} (h : InUse s)
    (hx : s.connections[i]? = some x)
    (hopen : x.pc.signalingState ≠ .closed → y.pc.signalingState ≠ .closed)
    (hm : s'.mounted = s.mounted) (hc : s'.current = s.current)
    (hset : s'.connections = s.connections.set i y) : InUse s' := by
  intro hm' c z hz
  obtain ⟨hcur, hz⟩ := peerConnectionRef_some hz
  have hs := h (hm.symm.trans hm') c
  rw [hset] at hz
  rw [hc] at hcur
  rcases set_cases hz with ⟨rfl, rfl⟩ | ⟨-, hz⟩
  · exact hopen (hs x (peerConnectionRef_eq hcur hx))
  · exact hs z (peerConnectionRef_eq hcur hz)

theorem inUse_step {s s' : Hook} {e : Event} (hst : Step s e s') (h : InUse s) :
    InUse s' := by
  cases hst with
  | render hm hdue => exact h
  | flushEffects hm hdue =>
      intro _ c x hx
      obtain ⟨hcur, hx⟩ := peerConnectionRef_some hx
      cases hcur
      rw [runEffect_connections, ← closeCurrent_length s.current s.connections,
        List.getElem?_concat_length] at hx
      cases hx
      exact fun hclosed => (by cases hclosed)
  | unready he href => exact h
  | @call e c x call entry href hcall =>
      obtain ⟨-, hx⟩ := peerConnectionRef_some href
      have hsound := called_sound hcall
      rcases enter_cases call c x s entry with ⟨heq, -⟩ | ⟨pc, rfl, heq⟩ | ⟨pc, op, rfl, heq⟩
      · rw [heq]
        exact h
      · rw [heq]
        refine inUse_set (y := ⟨pc, x.chain⟩) h hx (fun hopen => ?_) (by simp) (by simp)
          (by simp)
        rw [hsound.state]
        exact hopen
      · rw [heq]
        refine inUse_set (y := ⟨pc, x.chain ++ [(op, call)]⟩) h hx (fun hopen => ?_) (by simp)
          (by simp) (by simp)
        rw [hsound.1.state]
        exact hopen
  | @rejected i pc op call rest hx =>
      exact inUse_set (y := ⟨pc, rest⟩) h hx id (by simp) (by simp) (by simp)
  | @fulfilled i pc op call rest sdp sections pc' states hx hopen hperf =>
      exact inUse_set (y := ⟨pc', rest ++ (call.next sdp).toList⟩) h hx (perform_open hperf)
        (by simp) (by simp) (by simp)
  | iceConnectionState => exact h
  | unmount hm hdue =>
      intro hm'
      cases hm'

theorem inUse_reachable {s : Hook} (h : Reachable hook s) : InUse s := by
  refine ReachVia.invariant (M := hook) (I := InUse) (fun s hs => ?_)
    (fun s e s' _ hi _ hst => inUse_step (step_cases hst) hi) h
  obtain ⟨options, rfl⟩ := hs
  exact fun _ c x hx => (by cases hx)

/-- On an open connection only a message without a session description makes a function
    that raises the flag throw. -/
theorem thrown_cases {s : Hook} {pc pc' : Pc} {e : Event} {call : Call}
    (hopen : pc.signalingState ≠ .closed) (h : called s pc e = some (call, .thrown pc'))
    (hraises : call.raises = true) :
    ∃ k message, e = .handleOffer k message ∧
      (message.get "sdp").bind RTCSessionDescription = none := by
  cases e with
  | createOffer k =>
      exfalso
      obtain ⟨env, -, heq⟩ := Option.map_eq_some_iff.mp h
      have hthrown : createOffer env pc = .thrown pc' := congrArg Prod.snd heq
      rw [createOffer] at hthrown
      split at hthrown
      · cases hthrown
      · next stream hstream =>
          have htracks := CamPending.tracksForOffer_isSome hopen true (some stream)
          rw [CamPage.tracksForOffer] at htracks
          split at hthrown
          · cases hthrown
          · cases hadded : CamPage.hasTracksAdded pc with
            | true =>
                rw [hadded] at hthrown
                cases hthrown
            | false =>
                rw [hadded] at hthrown htracks
                obtain ⟨pc₁, hpc₁⟩ := Option.isSome_iff_exists.mp htracks
                replace hpc₁ : CamPage.addTracksToConnection pc stream = some pc₁ := hpc₁
                simp only [Bool.false_eq_true, if_false, hpc₁] at hthrown
                cases hthrown
  | handleOffer k message =>
      obtain ⟨env, -, heq⟩ := Option.map_eq_some_iff.mp h
      have hthrown : handleOffer env message pc = .thrown pc' := congrArg Prod.snd heq
      obtain ⟨pc₁, hpc₁⟩ := Option.isSome_iff_exists.mp
        (CamPending.tracksForOffer_isSome hopen true env.localStream)
      refine ⟨k, message, rfl, ?_⟩
      rw [handleOffer] at hthrown
      rw [hpc₁] at hthrown
      dsimp only at hthrown
      split at hthrown
      · next hnone => exact hnone
      · cases hthrown
  | handleAnswer message =>
      have hcall : Call.answered = call := congrArg Prod.fst (Option.some.inj h)
      rw [← hcall] at hraises
      cases hraises
  | addIceCandidate candidate =>
      have hcall : Call.candidateAdded = call := congrArg Prod.fst (Option.some.inj h)
      rw [← hcall] at hraises
      cases hraises
  | _ => cases h

/-! ## One step -/

/-- A call that is not done goes on under the same flag. -/
theorem next_raises {call : Call} {sdp : String} {p : PcOp Json × Call}
    (h : call.next sdp = some p) : p.2.raises = true := by
  cases call <;> cases h <;> rfl

/-- What the only call of a raised flag leaves when it is done. -/
theorem raises_fulfilled {pc pc' : Pc} {sections : List Kind} {op : PcOp Json}
    {states : List SignalingState} {call : Call}
    (h : pc.perform sections op = some (pc', states)) (hop : call.awaits op)
    (hraises : call.raises = true) (hquiet : .stable ∉ states) (sdp : String) :
    (call.next sdp).isSome = true ∨ pc'.signalingState ≠ .stable := by
  cases call with
  | offerCreated => exact Or.inl rfl
  | offerApplied offer =>
      obtain ⟨rfl, hoffer⟩ := hop
      refine Or.inr ?_
      rw [(perform_localOffer hoffer h).1]
      exact fun hst => (by cases hst)
  | remoteApplied => exact Or.inl rfl
  | answerCreated => exact Or.inl rfl
  | answerApplied answer =>
      obtain ⟨rfl, hanswer⟩ := hop
      exact absurd (perform_localAnswer hanswer h).2.1 hquiet
  | answered => cases hraises
  | candidateAdded => cases hraises

/-- What an operation that takes the connection out of `stable`, or announces `stable` on
    the way, leaves: the flag it found, or an offer to answer. -/
theorem leaves_fulfilled {pc pc' : Pc} {sections : List Kind} {op : PcOp Json}
    {states : List SignalingState} {call : Call} {flag : Bool}
    (h : pc.perform sections op = some (pc', states)) (hop : call.awaits op)
    (hmay : mayFulfil flag pc.signalingState (op, call) = true)
    (hne : pc'.signalingState ≠ .stable)
    (hleaves : pc.signalingState = .stable ∨ .stable ∈ states) :
    (flag = true ∧ .stable ∉ states) ∨ call = .remoteApplied := by
  by_cases hloud : .stable ∈ states
  · -- an offer over a local offer
    obtain ⟨d, rfl, hd, hstate⟩ := perform_loud h hloud hne
    cases call with
    | remoteApplied => exact Or.inr rfl
    | answered =>
        rw [mayFulfil, hd, hstate] at hmay
        cases hmay
    | offerCreated => cases hop
    | answerCreated => cases hop
    | offerApplied offer => cases hop.1
    | answerApplied answer => cases hop.1
    | candidateAdded => obtain ⟨c, hc⟩ := hop; cases hc
  · have hst : pc.signalingState = .stable := hleaves.resolve_right hloud
    obtain ⟨d, hd, hset⟩ := perform_leaves h hst hne
    cases call with
    | remoteApplied => exact Or.inr rfl
    | offerApplied offer =>
        rw [mayFulfil, hst] at hmay
        exact Or.inl ⟨by simpa using hmay, hloud⟩
    | answered =>
        obtain ⟨d', rfl⟩ := hop
        rcases hset with hset | hset
        · cases hset
        · cases hset
          rw [mayFulfil, hd, hst] at hmay
          exact Or.inl ⟨by simpa using hmay, hloud⟩
    | answerApplied answer =>
        obtain ⟨rfl, hanswer⟩ := hop
        rcases hset with hset | hset
        · cases hset
          rw [hd] at hanswer
          cases hanswer
        · cases hset
    | offerCreated => subst hop; rcases hset with hset | hset <;> cases hset
    | answerCreated => subst hop; rcases hset with hset | hset <;> cases hset
    | candidateAdded =>
        obtain ⟨c, rfl⟩ := hop
        rcases hset with hset | hset <;> cases hset

/-- **A FULFILLED OPERATION** keeps the invariant. -/
theorem mirrors_fulfilled {s : Hook} (hm : s.mounted = true) (ho : Ordered s)
    (hi : Mirrors s) {i : Nat} {pc : Pc} {op : PcOp Json} {call : Call}
    {rest : List (PcOp Json × Call)} {sdp : String} {sections : List Kind} {pc' : Pc}
    {states : List SignalingState}
    (hx : s.connections[i]? = some ⟨pc, (op, call) :: rest⟩)
    (hopen : pc.signalingState ≠ .closed)
    (hperf : pc.perform sections op = some (pc', states))
    (hmay : mayFulfil s.flag pc.signalingState (op, call) = true) :
    Mirrors (onsignalingstatechange states
      (setConnection i ⟨pc', rest ++ (call.next sdp).toList⟩ s)) := by
  have hcur : s.current = some i := by
    by_contra hne
    exact hopen (ho.closed i _ hx hne)
  have hop : call.awaits op := ho.awaits i _ hx (op, call) (List.mem_cons_self ..)
  have href := peerConnectionRef_eq hcur hx
  have hneg : negotiating s = decide (pc.signalingState ≠ .stable) := negotiating_eq href
  have href' := peerConnectionRef_set (y := ⟨pc', rest ++ (call.next sdp).toList⟩)
    (t := onsignalingstatechange states
      (setConnection i ⟨pc', rest ++ (call.next sdp).toList⟩ s)) href (by simp) (by simp)
  have hneg' := negotiating_eq href'
  constructor
  · intro hflag
    rw [flag_announced (by exact hm), flag_setConnection, Bool.and_eq_true,
      decide_eq_true_iff] at hflag
    obtain ⟨hquiet, hflag⟩ := hflag
    rw [hneg', decide_eq_true_iff]
    rcases hi.raised hflag with hn | hr
    · rw [hneg, decide_eq_true_iff] at hn
      exact Or.inl (perform_quiet hperf hquiet hn)
    · by_cases hne : pc'.signalingState = .stable
      · refine Or.inr (raising_set (i := i) hx (y := ⟨pc', rest ++ (call.next sdp).toList⟩)
          (by simp) hr ?_)
        rintro ⟨p, hp, hraises⟩
        rcases List.mem_cons.mp hp with rfl | hp
        · obtain ⟨q, hq⟩ := Option.isSome_iff_exists.mp
            ((raises_fulfilled hperf hop hraises hquiet sdp).resolve_right
              (fun h => h hne))
          refine ⟨q, List.mem_append_right _ ?_, next_raises hq⟩
          rw [hq]
          exact List.mem_singleton_self q
        · exact ⟨p, List.mem_append_left _ hp, hraises⟩
      · exact Or.inl hne
  · intro hn
    rw [hneg', decide_eq_true_iff] at hn
    rw [flag_announced (by exact hm), flag_setConnection, Bool.and_eq_true,
      decide_eq_true_iff]
    by_cases hleaves : pc.signalingState = .stable ∨ .stable ∈ states
    · rcases leaves_fulfilled hperf hop hmay hn hleaves with ⟨hflag, hquiet⟩ | rfl
      · exact Or.inl ⟨hquiet, hflag⟩
      · -- the offer is going to be answered
        refine Or.inr ⟨i, _, href', (.createAnswer, .answerCreated), ?_, rfl⟩
        exact List.mem_append_right _ (List.mem_singleton_self _)
    · obtain ⟨hne, hquiet⟩ := not_or.mp hleaves
      rcases hi.negotiates (by rw [hneg]; exact decide_eq_true hne) with hflag | hanswering
      · exact Or.inl ⟨hquiet, hflag⟩
      · refine Or.inr (answering_set (i := i) hx
          (y := ⟨pc', rest ++ (call.next sdp).toList⟩) (by simp) (by simp) hanswering ?_)
        rintro ⟨p, hp, hanswers⟩
        rcases List.mem_cons.mp hp with rfl | hp
        · cases call with
          | answerCreated =>
              exact ⟨(.setLocalDescription ⟨.answer, sdp⟩, .answerApplied ⟨.answer, sdp⟩),
                List.mem_append_right _ (List.mem_singleton_self _), rfl⟩
          | answerApplied answer =>
              obtain ⟨rfl, hanswer⟩ := hop
              exact absurd (perform_localAnswer hanswer hperf).2.1 hquiet
          | _ => cases hanswers
        · exact ⟨p, List.mem_append_left _ hp, hanswers⟩

/-- A rejected operation, or an exception before the first, that may lower the flag. -/
theorem mirrors_lowered {s s' : Hook} (hi : Mirrors s) {i : Nat} {x y : Connection}
    (call : Call) (hx : s.connections[i]? = some x)
    (hstate : y.pc.signalingState = x.pc.signalingState)
    (hchain : ∀ p ∈ x.chain, p ∈ y.chain ∨ p.2 = call) (hc : s'.current = s.current)
    (hset : s'.connections = s.connections.set i y)
    (hflag : s'.flag = (!call.raises && s.flag))
    (hstable : call.raises = true → negotiating s = false) : Mirrors s' := by
  have hneg : negotiating s' = negotiating s := negotiating_set hx hstate hc hset
  rw [Bool.and_comm] at hflag
  cases hraises : call.raises with
  | true =>
      rw [hraises, Bool.not_true, Bool.and_false] at hflag
      constructor
      · intro hf
        rw [hflag] at hf
        cases hf
      · intro hn
        rw [hneg, hstable hraises] at hn
        cases hn
  | false =>
      rw [hraises, Bool.not_false, Bool.and_true] at hflag
      constructor
      · rw [hflag, hneg]
        intro hf
        refine (hi.raised hf).imp_right (fun hr => raising_set hx hset hr ?_)
        rintro ⟨p, hp, hpr⟩
        rcases hchain p hp with hp | rfl
        · exact ⟨p, hp, hpr⟩
        · rw [hraises] at hpr
          cases hpr
      · rw [hflag, hneg]
        intro hn
        refine (hi.negotiates hn).imp_right (fun ha => answering_set hx hc hset ha ?_)
        rintro ⟨p, hp, hpa⟩
        rcases hchain p hp with hp | rfl
        · exact ⟨p, hp, hpa⟩
        · rw [raises_of_answers hpa] at hraises
          cases hraises

/-- A function awaits its first operation. -/
theorem mirrors_awaits {s : Hook} (hm : s.mounted = true) (hi : Mirrors s) {c : Nat}
    {x : Connection} {pc : Pc} {op : PcOp Json} {call : Call}
    (hx : s.connections[c]? = some x) (hstate : pc.signalingState = x.pc.signalingState) :
    Mirrors (setConnection c ⟨pc, x.chain ++ [(op, call)]⟩ (raise call s)) := by
  have hset : (setConnection c ⟨pc, x.chain ++ [(op, call)]⟩ (raise call s)).connections
      = s.connections.set c ⟨pc, x.chain ++ [(op, call)]⟩ := by simp
  have hcur : (setConnection c ⟨pc, x.chain ++ [(op, call)]⟩ (raise call s)).current
      = s.current := by simp
  have hneg := negotiating_set (y := ⟨pc, x.chain ++ [(op, call)]⟩) hx hstate hcur hset
  have hflag : (setConnection c ⟨pc, x.chain ++ [(op, call)]⟩ (raise call s)).flag
      = (call.raises || s.flag) := by
    rw [flag_setConnection, flag_raise hm]
  constructor
  · rw [hflag, hneg, Bool.or_eq_true]
    rintro (hraises | hf)
    · obtain ⟨hlt, -⟩ := List.getElem?_eq_some_iff.mp hx
      refine Or.inr ⟨c, ⟨pc, x.chain ++ [(op, call)]⟩, ?_, (op, call), ?_, hraises⟩
      · rw [hset]
        exact List.getElem?_set_self hlt
      · exact List.mem_append_right _ (List.mem_singleton_self _)
    · refine (hi.raised hf).imp_right (fun hr => raising_set hx hset hr ?_)
      exact fun ⟨p, hp, hpr⟩ => ⟨p, List.mem_append_left _ hp, hpr⟩
  · rw [hflag, hneg]
    intro hn
    rcases hi.negotiates hn with hf | ha
    · exact Or.inl (by rw [hf, Bool.or_true])
    · refine Or.inr (answering_set hx hcur hset ha ?_)
      exact fun ⟨p, hp, hpa⟩ => ⟨p, List.mem_append_left _ hp, hpa⟩

/-- A new connection is stable. -/
theorem negotiating_runEffect (s : Hook) : negotiating (runEffect s) = false := by
  refine negotiating_eq (c := s.connections.length) (x := ⟨.new, []⟩)
    (peerConnectionRef_eq rfl ?_)
  rw [runEffect_connections, ← closeCurrent_length s.current s.connections,
    List.getElem?_concat_length]

/-- The connection is replaced while it is stable; its calls stay suspended. -/
theorem mirrors_replaced {s : Hook} (hi : Mirrors s) (hstable : negotiating s = false) :
    Mirrors (runEffect s) := by
  constructor
  · intro hflag
    rcases hi.raised hflag with hn | ⟨i, x, hx, p, hp, hraises⟩
    · rw [hstable] at hn
      cases hn
    · obtain ⟨hlt, -⟩ := List.getElem?_eq_some_iff.mp hx
      obtain ⟨y, hy, hchain⟩ := closeCurrent_chain s.current hx
      refine Or.inr ⟨i, y, ?_, p, by rw [hchain]; exact hp, hraises⟩
      rw [runEffect_connections, List.getElem?_append_left]
      · exact hy
      · rw [closeCurrent_length]
        exact hlt
  · intro hn
    rw [negotiating_runEffect s] at hn
    cases hn

/-- One step of a run that is orderly. -/
theorem mirrors_step {s s' : Hook} {e : Event} (hst : Step s e s') (ho : Ordered s)
    (huse : InUse s) (hi : Mirrors s) (hc : orderly s e = true) (hm : s.mounted = true)
    (hm' : s'.mounted = true) : Mirrors s' := by
  cases hst with
  | render _ hdue => exact ⟨hi.raised, hi.negotiates⟩
  | flushEffects _ hdue => exact mirrors_replaced hi (by simpa [orderly] using hc)
  | unready he href => exact hi
  | @call e c x call entry href hcall =>
      obtain ⟨-, hx⟩ := peerConnectionRef_some href
      have hsound := called_sound hcall
      rcases enter_cases call c x s entry with ⟨heq, -⟩ | ⟨pc, rfl, heq⟩ | ⟨pc, op, rfl, heq⟩
      · rw [heq]
        exact hi
      · rw [heq]
        refine mirrors_lowered (y := ⟨pc, x.chain⟩) hi call hx hsound.state
          (fun p hp => Or.inl hp) (by simp) (by simp) ?_ (fun hraises => ?_)
        · rw [flag_caught (by simpa using hm), flag_setConnection, flag_raise hm]
          cases call.raises <;> rfl
        · obtain ⟨k, message, rfl, hnone⟩ := thrown_cases (huse hm c x href) hcall hraises
          simpa [orderly, hnone] using hc
      · rw [heq]
        exact mirrors_awaits hm hi hx hsound.1.state
  | @rejected i pc op call rest hx =>
      refine mirrors_lowered (y := ⟨pc, rest⟩) hi call hx rfl ?_ (by simp) (by simp)
        (flag_caught (by exact hm) call) (fun hraises => ?_)
      · intro p hp
        rcases List.mem_cons.mp hp with rfl | hp
        · exact Or.inr rfl
        · exact Or.inl hp
      · simpa [orderly, hx, hraises] using hc
  | @fulfilled i pc op call rest sdp sections pc' states hx hopen hperf =>
      refine mirrors_fulfilled hm ho hi hx hopen hperf ?_
      simpa [orderly, hx] using hc
  | @iceConnectionState state =>
      have hflag : (update [.setConnectionState state] s).flag = s.flag := by
        rw [Hook.flag, next_update hm]
        rfl
      constructor
      · rw [hflag]
        exact hi.raised
      · rw [hflag]
        exact hi.negotiates
  | unmount _ hdue => cases hm'

theorem mirrors_reachable {s : Hook} (h : ReachVia hook (fun s e => orderly s e = true) s) :
    s.mounted = true → Mirrors s := by
  refine ReachVia.invariant (M := hook) (I := fun s => s.mounted = true → Mirrors s)
    (fun s hs => ?_) (fun s e s' hr hi hc hst hm' => ?_) h
  · obtain ⟨options, rfl⟩ := hs
    exact fun _ => ⟨fun hf => (by cases hf), fun hn => (by cases hn)⟩
  · have hstep := step_cases hst
    have hm := mounted_before hstep hm'
    exact mirrors_step hstep (ordered_reachable hr.reachable) (inUse_reachable hr.reachable)
      (hi hm) hc hm hm'

/-- With nothing suspended the flag is up exactly when the connection negotiates. -/
theorem flag_eq_of_mirrors {s : Hook} (hi : Mirrors s)
    (hidle : ∀ x ∈ s.connections, x.chain = []) : s.flag = negotiating s := by
  have hnone : ∀ (i : Nat) (x : Connection), s.connections[i]? = some x →
      ∀ p, p ∉ x.chain := by
    intro i x hx p hp
    rw [hidle x (List.mem_of_getElem? hx)] at hp
    cases hp
  refine Bool.eq_iff_iff.mpr ⟨fun hf => ?_, fun hn => ?_⟩
  · refine (hi.raised hf).resolve_right ?_
    rintro ⟨i, x, hx, p, hp, -⟩
    exact hnone i x hx p hp
  · refine (hi.negotiates hn).resolve_right ?_
    rintro ⟨c, x, href, p, hp, -⟩
    exact hnone c x (peerConnectionRef_some href).2 p hp

/-! ## One step that is not orderly -/

/-- An operation that may not be fulfilled leaves an offer outstanding under a flag that
    is down. -/
theorem fulfilled_lies {pc pc' : Pc} {sections : List Kind} {op : PcOp Json}
    {states : List SignalingState} {call : Call} {flag : Bool}
    (h : pc.perform sections op = some (pc', states)) (hop : call.awaits op)
    (hmay : mayFulfil flag pc.signalingState (op, call) = false) :
    pc'.signalingState ≠ .stable ∧ (decide (.stable ∉ states) && flag) = false := by
  cases call with
  | offerApplied offer =>
      obtain ⟨rfl, hoffer⟩ := hop
      have hflag : flag = false := by
        rw [mayFulfil] at hmay
        exact (Bool.or_eq_false_iff.mp hmay).2
      refine ⟨?_, by rw [hflag, Bool.and_false]⟩
      rw [(perform_localOffer hoffer h).1]
      exact fun hst => (by cases hst)
  | answered =>
      obtain ⟨d, rfl⟩ := hop
      simp only [mayFulfil, Bool.or_eq_false_iff, decide_eq_false_iff_not, not_not] at hmay
      obtain ⟨⟨hd, hstate⟩, hflag⟩ := hmay
      have hafter := (perform_remoteOffer hd h).1
      refine ⟨by rw [hafter]; exact fun hst => (by cases hst), ?_⟩
      by_cases hst : pc.signalingState = .stable
      · have hdown : flag = false := by simpa [hst] using hflag
        rw [hdown, Bool.and_false]
      · -- the offer goes over a local one, and the rollback announces `stable`
        have hlocal : pc.signalingState = .haveLocalOffer := by
          obtain ⟨pc₁, h₁, -⟩ := Option.map_eq_some_iff.mp h
          simp only [Pc.applyRemote, hd] at h₁
          split at h₁
          · next hs => exact (hs.resolve_left hst).resolve_left hstate
          · cases h₁
        rcases perform_announces h with ⟨heq, -⟩ | ⟨d', hset, hstates⟩
        · rw [heq, hlocal] at hafter
          cases hafter
        · have hdd : d' = d := by
            rcases hset with hset | hset
            · cases hset
            · cases hset
              rfl
          have hloud : .stable ∈ states := by
            rw [hstates, hdd, hlocal, hafter, announced, if_pos ⟨hd, rfl, rfl⟩]
            exact List.mem_cons_self ..
          rw [decide_eq_false (not_not_intro hloud), Bool.false_and]
  | offerCreated => cases hmay
  | remoteApplied => simp [mayFulfil] at hmay
  | answerCreated => cases hmay
  | answerApplied answer => obtain ⟨rfl, -⟩ := hop; cases hmay
  | candidateAdded => obtain ⟨c, rfl⟩ := hop; cases hmay

/-- The only call that is not orderly is one of `handleOffer` that throws at once. -/
theorem disorderly_call {s : Hook} {pc : Pc} {e : Event} {call : Call} {entry : Entry}
    (h : called s pc e = some (call, entry)) (hc : orderly s e = false) :
    ∃ pc', entry = .thrown pc' ∧ call.raises = true ∧ negotiating s = true := by
  cases e with
  | handleOffer k message =>
      obtain ⟨hnone, hneg⟩ := Bool.or_eq_false_iff.mp hc
      have hdesc : (message.get "sdp").bind RTCSessionDescription = none := by
        simpa using hnone
      obtain ⟨env, -, heq⟩ := Option.map_eq_some_iff.mp h
      cases heq
      rw [handleOffer]
      rw [hdesc]
      split
      · exact ⟨pc, rfl, rfl, by simpa using hneg⟩
      · next pc' _ => exact ⟨pc', rfl, rfl, by simpa using hneg⟩
  | createOffer k => cases hc
  | handleAnswer message => cases hc
  | addIceCandidate candidate => cases hc
  | _ => cases h

/-- A step that is not orderly and leaves nothing suspended leaves a flag that is not that
    of the connection. -/
theorem disorderly_lies {s s' : Hook} {e : Event} (hst : Step s e s') (ho : Ordered s)
    (hi : Mirrors s) (hc : orderly s e = false) (hm : s.mounted = true)
    (hm' : s'.mounted = true) (hidle : ∀ x ∈ s'.connections, x.chain = []) :
    s'.flag ≠ negotiating s' := by
  cases hst with
  | render _ hdue => cases hc
  | flushEffects _ hdue =>
      have hneg : negotiating s = true := by simpa [orderly] using hc
      have hnew : negotiating (runEffect s) = false := negotiating_runEffect s
      have hbefore : ∀ x ∈ s.connections, x.chain = [] := by
        intro x hx
        obtain ⟨i, hx⟩ := List.mem_iff_getElem?.mp hx
        obtain ⟨y, hy, hchain⟩ := closeCurrent_chain s.current hx
        rw [← hchain]
        exact hidle y (List.mem_append_left _ (List.mem_of_getElem? hy))
      rw [hnew, show (runEffect s).flag = s.flag from rfl, flag_eq_of_mirrors hi hbefore, hneg]
      exact Bool.noConfusion
  | unready he href =>
      have hneg : negotiating s = false := by
        rw [negotiating, peerConnection, href]
        rfl
      cases e with
      | handleOffer k message =>
          rw [orderly, hneg, Bool.not_false, Bool.or_true] at hc
          cases hc
      | createOffer k => cases hc
      | handleAnswer message => cases hc
      | addIceCandidate candidate => cases hc
      | _ => cases he
  | @call e c x call entry href hcall =>
      obtain ⟨-, hx⟩ := peerConnectionRef_some href
      have hsound := called_sound hcall
      obtain ⟨pc, rfl, hraises, hneg⟩ := disorderly_call hcall hc
      have hsame : negotiating (enter call c x s (.thrown pc)) = negotiating s :=
        negotiating_set (y := ⟨pc, x.chain⟩) hx hsound.state (by simp [enter]) (by simp [enter])
      rw [hsame, hneg, enter, flag_caught (by simpa using hm), hraises]
      exact Bool.noConfusion
  | @rejected i pc op call rest hx =>
      obtain ⟨hraises, hneg⟩ : call.raises = true ∧ negotiating s = true := by
        simpa [orderly, hx] using hc
      have hsame : negotiating (caught call (setConnection i ⟨pc, rest⟩ s)) = negotiating s :=
        negotiating_set (y := ⟨pc, rest⟩) hx rfl (by simp) (by simp)
      rw [hsame, hneg, flag_caught (by exact hm), hraises]
      exact Bool.noConfusion
  | @fulfilled i pc op call rest sdp sections pc' states hx hopen hperf =>
      have hmay : mayFulfil s.flag pc.signalingState (op, call) = false := by
        simpa [orderly, hx] using hc
      have hop : call.awaits op := ho.awaits i _ hx (op, call) (List.mem_cons_self ..)
      obtain ⟨hne, hflag⟩ := fulfilled_lies hperf hop hmay
      have hcur : s.current = some i := by
        by_contra hne
        exact hopen (ho.closed i _ hx hne)
      have hneg := negotiating_eq (peerConnectionRef_set
        (y := ⟨pc', rest ++ (call.next sdp).toList⟩) (t := onsignalingstatechange states
          (setConnection i ⟨pc', rest ++ (call.next sdp).toList⟩ s))
        (peerConnectionRef_eq hcur hx) (by simp) (by simp))
      rw [hneg, flag_announced (by exact hm), flag_setConnection, hflag]
      simpa using hne
  | iceConnectionState => cases hc
  | unmount _ hdue => cases hm'

/-- **THE FLAG MIRRORS THE CONNECTION** in every run whose steps are orderly: with nothing
    suspended and nothing queued it is up exactly when the connection in the reference is
    not in `stable`.  A step that leaves nothing suspended keeps the flag of the next
    render right exactly when it is orderly. -/
theorem flag_mirrors_connection {s : Hook}
    (h : ReachVia hook (fun s e => orderly s e = true) s) (hm : s.mounted = true) :
    ((∀ x ∈ s.connections, x.chain = []) → s.fiber.queue = [] →
      (s.fiber.vars.isNegotiating = true ↔
        ∃ pc, peerConnection s = some pc ∧ pc.signalingState ≠ .stable)) ∧
    ∀ e s', step s e = some s' → s'.mounted = true →
      (∀ x ∈ s'.connections, x.chain = []) →
      (s'.next.isNegotiating = negotiating s' ↔ orderly s e = true) := by
  have hi := mirrors_reachable h hm
  have ho := ordered_reachable h.reachable
  refine ⟨fun hidle hqueue => ?_, fun e s' hst hm' hidle => ⟨fun heq => ?_, fun hc => ?_⟩⟩
  · have hflag : s.flag = s.fiber.vars.isNegotiating := by
      rw [Hook.flag, Hook.next, Fiber.next, hqueue]
      rfl
    rw [← hflag, flag_eq_of_mirrors hi hidle, negotiating, Option.any_eq_true]
    simp only [decide_eq_true_iff]
  · cases hc : orderly s e with
    | true => rfl
    | false => exact absurd heq (disorderly_lies (step_cases hst) ho hi hc hm hm' hidle)
  · exact flag_eq_of_mirrors (mirrors_step (step_cases hst) ho
      (inUse_reachable h.reachable) hi hc hm hm') hidle

/-! ## Runs -/

/-- A caller with a camera that passes another callback in its `n`th render. -/
def optionsOf (n : Nat) : Options := ⟨some CamGuard.camera, ⟨none, some n, none⟩⟩

/-- The state a list of events leads to. -/
def runOf (es : List Event) : Hook := LtsRun.after hook (mount (optionsOf 0)) es

theorem runOf_reachable {c : Hook → Event → Bool} (es : List Event)
    (h : (execVia hook c (mount (optionsOf 0)) es).isSome = true) :
    ReachVia hook (fun s e => c s e = true) (runOf es) :=
  ReachVia.of_after (fun _ _ hc => hc)
    (show hook.init (mount (optionsOf 0)) from ⟨optionsOf 0, rfl⟩) h

/-- An offer is made. -/
def callingRun : List Event :=
  [.flushEffects, .createOffer 0, .settle 0 (.fulfilled "1" []), .settle 0 (.fulfilled "" []),
    .render (optionsOf 0)]

/-- And then the caller passes another callback. -/
def replacedRun : List Event := callingRun ++ [.render (optionsOf 1), .flushEffects]

/-- An offer is applied, and then the answer cannot be created. -/
def unansweredRun : List Event :=
  [.flushEffects,
    .handleOffer 0 (.obj [("sdp", .obj [("type", .str "offer"), ("sdp", .str "1")])]),
    .settle 0 (.fulfilled "" []), .settle 0 .rejected, .render (optionsOf 0)]

/-- Nothing is suspended and nothing queued, and the flag is up over a new connection; or
    it is down while a remote offer waits for its answer. -/
theorem flag_lies :
    (Reachable hook (runOf replacedRun) ∧ (runOf replacedRun).mounted = true ∧
      (∀ x ∈ (runOf replacedRun).connections, x.chain = []) ∧
      (runOf replacedRun).fiber.queue = [] ∧
      (runOf replacedRun).fiber.vars.isNegotiating = true ∧
      peerConnection (runOf replacedRun) = some .new) ∧
    Reachable hook (runOf unansweredRun) ∧ (runOf unansweredRun).mounted = true ∧
      (∀ x ∈ (runOf unansweredRun).connections, x.chain = []) ∧
      (runOf unansweredRun).fiber.queue = [] ∧
      (runOf unansweredRun).fiber.vars.isNegotiating = false ∧
      (peerConnection (runOf unansweredRun)).map Pc.signalingState
        = some .haveRemoteOffer := by
  have hreplaced : Reachable hook (runOf replacedRun) :=
    ReachVia.reachable (runOf_reachable (c := fun _ _ => true) replacedRun (by decide +kernel))
  have hunanswered : Reachable hook (runOf unansweredRun) :=
    ReachVia.reachable (runOf_reachable (c := fun _ _ => true) unansweredRun (by decide +kernel))
  exact ⟨⟨hreplaced, by decide +kernel⟩, hunanswered, by decide +kernel⟩

theorem flag_mirrors_connection_sample :
    (runOf callingRun).fiber.vars.isNegotiating = true ∧
      ∃ pc, peerConnection (runOf callingRun) = some pc ∧ pc.signalingState ≠ .stable := by
  have hflag : (runOf callingRun).fiber.vars.isNegotiating = true := by decide +kernel
  exact ⟨hflag, ((flag_mirrors_connection (runOf_reachable callingRun (by decide +kernel))
    (by decide +kernel)).1 (by decide +kernel) (by decide +kernel)).mp hflag⟩

end WebRTCFlag
