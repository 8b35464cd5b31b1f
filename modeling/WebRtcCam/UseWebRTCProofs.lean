import WebRtcCam.CamGuardProofs
import WebRtcCam.UseSignalingProofs

/-! # The hook `useWebRTC`, beside the page

    `webrtc/src/hooks/useWebRTC.ts` has the negotiation of the page once more, cut into
    `createOffer`, `handleOffer`, `handleAnswer` and `addIceCandidate`, and wired to
    `useSignaling`: an offer is answered to its sender, an answer and a candidate are
    applied.  The page has one handler for offers and answers, with one `catch`; the hook
    has two, and raises the flag earlier.

    Both versions run one task at a time, to its end, and every operation of the
    connection settles as a list of attempts says.  A `Talk` is what they can be compared
    by: the connection with its senders, the flag, the operations invoked and the frames
    sent.

    * `settle_ok`, `settle_error` — an `await` of the page is an `await` of the hook;
    * `paths_agree_iff` — the two versions agree, but for an answer that is rejected while
      the flag is up: the `catch` of `handleAnswer` leaves it up. -/

namespace UseWebRTC

open JsonText CamWire RtcSignaling CamPage CamNegotiation
open UseSignaling (isOfferMessage isAnswerMessage sendOffer sendAnswer)

/-- How an operation of the connection settles: whether it is to be fulfilled, the text
    of a created description, and the media sections of a remote offer that no local
    track was added for.  What the state machine does not allow is rejected anyway. -/
structure Attempt where
  ok : Bool
  sdp : String
  sections : List Kind
  deriving DecidableEq, Repr

/-- An operation settles as the attempt says, if one is awaited: what the machine makes of
    its outcome is `f`, which is `none` for an outcome that is not possible. -/
def Attempt.settles {σ : Type} (a : Attempt) (f : Outcome → Option σ) (s : σ) : σ :=
  ((if a.ok then f (.fulfilled a.sdp a.sections) else none) <|> f .rejected).getD s

section Attempts

variable {σ : Type} {a : Attempt} {f : Outcome → Option σ} {s t : σ}

theorem Attempt.settles_idle (h : ∀ o, f o = none) : a.settles f s = s := by
  rw [settles, h, h]
  split <;> rfl

theorem Attempt.settles_ok (hok : a.ok = true)
    (h : f (.fulfilled a.sdp a.sections) = some t) : a.settles f s = t := by
  rw [settles, if_pos hok, h]
  rfl

theorem Attempt.settles_error (hful : a.ok = true → f (.fulfilled a.sdp a.sections) = none)
    (h : f .rejected = some t) : a.settles f s = t := by
  have hnone : (if a.ok then f (.fulfilled a.sdp a.sections) else none) = none := by
    split
    · next hok => exact hful hok
    · rfl
  rw [settles, hnone, h]
  rfl

end Attempts

/-- What a handler works on, and leaves behind. -/
structure Talk where
  peerConnectionRef : Option Pc
  isNegotiating : Bool
  invoked : List (PcOp Json)
  sent : List Json
  deriving DecidableEq

/-! ## The hook -/

/-- `setIsNegotiating`; the flag a task ends with is the one set last. -/
@[simps] def setIsNegotiating (b : Bool) (t : Talk) : Talk := { t with isNegotiating := b }

/-- `pc.onsignalingstatechange`, once for each announced state. -/
def onsignalingstatechange (states : List SignalingState) (t : Talk) : Talk :=
  if .stable ∈ states then setIsNegotiating false t else t

/-- An operation of the connection is invoked. -/
@[simps] def invokeOp (op : PcOp Json) (t : Talk) : Talk :=
  { t with invoked := t.invoked ++ [op] }

/-- The operation settles; `none` when it is rejected. -/
def attempt (a : Attempt) (op : PcOp Json) (t : Talk) : Option Talk :=
  match t.peerConnectionRef with
  | some pc =>
      if a.ok then
        (pc.perform a.sections op).map (fun r =>
          onsignalingstatechange r.2 { t with peerConnectionRef := some r.1 })
      else none
  | none => none

/-- `await pc.op()`: an exception when it is rejected. -/
def awaitOp (a : Attempt) (op : PcOp Json) (t : Talk) : Except Talk Talk :=
  match attempt a op (invokeOp op t) with
  | some t' => .ok t'
  | none => .error (invokeOp op t)

/-- `if (!hasTracksAdded(pc)) addTracksToConnection(pc, localStream)`. -/
def addTracks (stream : Stream) (pc : Pc) (t : Talk) : Except Talk Talk :=
  if hasTracksAdded pc then .ok t
  else
    match addTracksToConnection pc stream with
    | some pc' => .ok { t with peerConnectionRef := some pc' }
    | none => .error t

/-- A constructor that may throw. -/
def orThrow {α : Type} (t : Talk) : Option α → Except Talk α
  | some a => .ok a
  | none => .error t

/-- `try … catch`, where the `catch` lowers the flag and the result is `null`. -/
def tryNegotiating (r : Except Talk (Talk × Desc)) : Talk × Option Desc :=
  match r with
  | .ok (t, d) => (t, some d)
  | .error t => (setIsNegotiating false t, none)

section Handlers

variable (attempts : Nat → Attempt) (localStream : Option Stream)

/-- `createOffer`. -/
def createOffer (t : Talk) : Talk × Option Desc :=
  match t.peerConnectionRef, localStream with
  | some pc, some stream =>
      if t.isNegotiating then (t, none)
      else
        tryNegotiating (do
          let t ← addTracks stream pc (setIsNegotiating true t)
          let t ← awaitOp (attempts 0) .createOffer t
          let t ← awaitOp (attempts 1) (.setLocalDescription ⟨.offer, (attempts 0).sdp⟩) t
          .ok (t, ⟨.offer, (attempts 0).sdp⟩))
  | _, _ => (t, none)

/-- The tracks `handleOffer` adds if there is a stream. -/
def answerTracks (pc : Pc) (t : Talk) : Except Talk Talk :=
  match localStream with
  | some stream => addTracks stream pc t
  | none => .ok t

/-- `handleOffer`. -/
def handleOffer (message : Json) (t : Talk) : Talk × Option Desc :=
  match t.peerConnectionRef with
  | none => (t, none)
  | some pc =>
      tryNegotiating (do
        let t ← answerTracks localStream pc (setIsNegotiating true t)
        let d ← orThrow t ((message.get "sdp").bind RTCSessionDescription)
        let t ← awaitOp (attempts 0) (.setRemoteDescription d) t
        let t ← awaitOp (attempts 1) .createAnswer t
        let t ← awaitOp (attempts 2) (.setLocalDescription ⟨.answer, (attempts 1).sdp⟩) t
        .ok (t, ⟨.answer, (attempts 1).sdp⟩))

/-- `try … catch`, where the `catch` only logs. -/
def tryLogging (r : Except Talk Talk) : Talk :=
  match r with
  | .ok t => t
  | .error t => t

/-- `handleAnswer`. -/
def handleAnswer (message : Json) (t : Talk) : Talk :=
  match t.peerConnectionRef with
  | none => t
  | some _ =>
      tryLogging (do
        let d ← orThrow t ((message.get "sdp").bind RTCSessionDescription)
        awaitOp (attempts 0) (.setRemoteDescription d) t)

/-- `addIceCandidate`. -/
def addIceCandidate (candidate : Js) (t : Talk) : Talk :=
  match t.peerConnectionRef with
  | none => t
  | some _ =>
      tryLogging (do
        let c ← orThrow t (RTCIceCandidate candidate)
        awaitOp (attempts 0) (.addIceCandidate c) t)

end Handlers

/-! ## Tasks, the hook's way and the page's way -/

/-- What there is to do: a message has arrived, or the user has pressed the button. -/
inductive Task where
  | message (j : Json)
  | press
  deriving DecidableEq

/-- What the two versions are claimed to agree on: an offer or answer that says what it
    carries, a candidate, and the button when it is enabled. -/
def Task.sound (env : Vars) : Task → Bool
  | .message j =>
      isICECandidateMessage j ||
        (isSDPMessage j && decide ((j.get "sdp").bind (Json.get "type") = j.get "type"))
  | .press => buttonEnabled env

@[simps] def send (frames : List Json) (t : Talk) : Talk := { t with sent := t.sent ++ frames }

/-- The variables of `useSignaling`: the page's client id, and a socket if the page has
    one. -/
def signaling (env : Vars) : UseSignaling.Vars :=
  ⟨env.socket.map (fun _ => 0), env.clientId, true⟩

section Runs

variable (env : Vars) (attempts : Nat → Attempt)

/-- The hooks, wired as intended. -/
def hookRun (localStream : Option Stream) (task : Task) (t : Talk) : Talk :=
  match task with
  | .message j =>
      match UseSignaling.onmessage (some j) with
      | .onOffer message =>
          match handleOffer attempts localStream message t with
          | (t', some answer) =>
              send (sendAnswer (signaling env) (message.get "from") (descJson answer)) t'
          | (t', none) => t'
      | .onAnswer message => handleAnswer attempts message t
      | .onIceCandidate message => addIceCandidate attempts (message.get "candidate") t
      | _ => t
  | .press =>
      match createOffer attempts localStream t with
      | (t', some offer) =>
          send (sendOffer (signaling env) (some env.peerId) (descJson offer)) t'
      | (t', none) => t'

/-- The first suspended call of the page goes on, if there is one. -/
def settleNext (a : Attempt) (s : Page) : Page := a.settles (settle s) s

/-- No task awaits more than three operations. -/
def finish (s : Page) : Page :=
  settleNext (attempts 2) (settleNext (attempts 1) (settleNext (attempts 0) s))

/-- The handlers of the page, to their end. -/
def pageRun (task : Task) (s : Page) : Page :=
  match task with
  | .message j =>
      if isICECandidateMessage j then
        finish attempts (handleIceCandidateMessage env (s.arrival j) s)
      else finish attempts (handleSDPMessage env (s.arrival j) s)
  | .press => finish attempts (CamPage.createOffer env s)

end Runs

/-- The operation an observation invoked. -/
def invokedOp : Obs → Option (PcOp Json)
  | .invoked op _ => some op
  | _ => none

/-- The page's side of a talk. -/
@[simps] def viewOf (s : Page) : Talk where
  peerConnectionRef := s.peerConnectionRef
  isNegotiating := s.isNegotiatingRef
  invoked := s.trace.filterMap invokedOp
  sent := s.sent

/-- The description of a message can be built, and is applied. -/
def isApplied (a : Attempt) (pc : Pc) (j : Json) : Bool :=
  match (j.get "sdp").bind RTCSessionDescription with
  | some d => a.ok && (pc.perform a.sections (.setRemoteDescription d : PcOp Json)).isSome
  | none => false

/-- An answer is rejected while the flag is up, or its description cannot be built. -/
def leftRaised (attempts : Nat → Attempt) (task : Task) (s : Page) : Bool :=
  match task with
  | .message j =>
      isAnswerMessage j && s.isNegotiatingRef &&
        s.peerConnectionRef.any (fun pc => !isApplied (attempts 0) pc j)
  | .press => false

/-! ## An `await` of the page is an `await` of the hook -/

@[simp] theorem viewOf_invoke (op : PcOp Json) (m : Option Received) (call : Call)
    (s : Page) : viewOf (invoke op m call s) = invokeOp op (viewOf s) := by
  simp [viewOf, invokeOp, invokedOp]

@[simp] theorem viewOf_setNegotiating (b : Bool) (s : Page) :
    viewOf (setNegotiating b s) = setIsNegotiating b (viewOf s) := rfl

@[simp] theorem viewOf_setPc (pc : Pc) (s : Page) :
    viewOf (setPc pc s) = { viewOf s with peerConnectionRef := some pc } := rfl

@[simp] theorem viewOf_setChain (rest : List (PcOp Json × Call)) (s : Page) :
    viewOf (setChain rest s) = viewOf s := rfl

@[simp] theorem viewOf_noteSDP (m : Received) (s : Page) :
    viewOf (noteSDP m s) = viewOf s := by
  simp [viewOf, invokedOp]

@[simp] theorem viewOf_adoptSender (env : Vars) (m : Received) (s : Page) :
    viewOf (adoptSender env m s) = viewOf s := by
  rcases adoptSender_cases env m s with h | ⟨sender, -, -, h⟩
  · rw [h]
  · rw [h]
    rfl

theorem viewOf_sendMessage (env : Vars) (message : Members) (s : Page) :
    viewOf (sendMessage env message s) = send (frame env message) (viewOf s) := by
  rw [sendMessage_eq]
  rfl

theorem viewOf_announce (states : List SignalingState) (s : Page) :
    viewOf (CamPage.onsignalingstatechange states s)
      = onsignalingstatechange states (viewOf s) := by
  unfold CamPage.onsignalingstatechange onsignalingstatechange
  split
  · rfl
  · rfl

/-- The hook sends what the page sends. -/
theorem signaling_frame (env : Vars) (message : Members) :
    UseSignaling.sendMessage (signaling env) message = frame env message := by
  unfold UseSignaling.sendMessage frame signaling
  cases truthy env.clientId with
  | false => rfl
  | true =>
      cases env.socket with
      | none => rfl
      | some ws => rfl

/-- With nothing suspended, nothing happens. -/
theorem settleNext_idle {s : Page} (h : s.chain = []) (a : Attempt) : settleNext a s = s := by
  refine Attempt.settles_idle (fun o => ?_)
  unfold settle
  rw [h]
  split
  · next heq => exact nomatch heq
  · rfl

theorem settleNext_idle₂ {s : Page} (h : s.chain = []) (a b : Attempt) :
    settleNext b (settleNext a s) = s := by
  rw [settleNext_idle h, settleNext_idle h]

theorem finish_idle {s : Page} (h : s.chain = []) (attempts : Nat → Attempt) :
    finish attempts s = s := by
  rw [finish, settleNext_idle h, settleNext_idle₂ h]

section Settle

variable {s : Page} {a : Attempt} {op : PcOp Json} {call : Call}

/-- The only suspended call goes on. -/
theorem settle_ok {t : Talk} (hchain : s.chain = [(op, call)])
    (h : attempt a op (viewOf s) = some t) :
    ∃ u, u.chain = [] ∧ viewOf u = t ∧ settleNext a s = resume a.sdp call u := by
  unfold attempt at h
  split at h
  · next pc hpc =>
      split at h
      · next hok =>
          obtain ⟨⟨pc', states⟩, hperf, rfl⟩ := Option.map_eq_some_iff.mp h
          refine ⟨CamPage.onsignalingstatechange states (setPc pc' (setChain [] s)), ?_, ?_, ?_⟩
          · rw [(onsignalingstatechange_talk states (setPc pc' (setChain [] s))).2.1]
            rfl
          · rw [viewOf_announce]
            rfl
          · replace hpc : s.peerConnectionRef = some pc := hpc
            refine Attempt.settles_ok hok ?_
            unfold settle
            rw [hpc, hchain]
            dsimp only
            rw [hperf]
      · exact nomatch h
  · exact nomatch h

/-- The only suspended call goes on in its `catch`. -/
theorem settle_error {pc : Pc} (hpc : s.peerConnectionRef = some pc)
    (hchain : s.chain = [(op, call)]) (h : attempt a op (viewOf s) = none) :
    settleNext a s = reject call (setChain [] s) := by
  refine Attempt.settles_error (fun hok => ?_) ?_
  · have hnone : pc.perform a.sections op = none := by
      simp only [attempt, viewOf_peerConnectionRef, hpc, hok, if_true,
        Option.map_eq_none_iff] at h
      exact h
    unfold settle
    rw [hpc, hchain]
    dsimp only
    rw [hnone]
  · unfold settle
    rw [hpc, hchain]

/-- A call of a negotiation that is rejected lowers the flag and ends. -/
theorem settle_caught {pc : Pc} (hpc : s.peerConnectionRef = some pc)
    (hchain : s.chain = [(op, call)]) (hcall : call ≠ .candidateAdded)
    (h : attempt a op (viewOf s) = none) :
    (settleNext a s).chain = [] ∧
      viewOf (settleNext a s) = setIsNegotiating false (viewOf s) := by
  rw [settle_error hpc hchain h]
  cases call with
  | candidateAdded => exact absurd rfl hcall
  | _ => exact ⟨rfl, rfl⟩

theorem attempt_connected {t t' : Talk} (h : attempt a op t = some t') :
    t'.peerConnectionRef.isSome = true := by
  unfold attempt at h
  split at h
  · split at h
    · obtain ⟨r, -, rfl⟩ := Option.map_eq_some_iff.mp h
      unfold onsignalingstatechange
      split
      · rfl
      · rfl
    · exact nomatch h
  · exact nomatch h

theorem awaitOp_ok {t t' : Talk} (h : attempt a op (invokeOp op t) = some t') :
    awaitOp a op t = .ok t' := by
  rw [awaitOp, h]

theorem awaitOp_error {t : Talk} (h : attempt a op (invokeOp op t) = none) :
    awaitOp a op t = .error (invokeOp op t) := by
  rw [awaitOp, h]

end Settle

/-! ## Talks that differ in the flag -/

/-- The talks agree in all but the flag. -/
def SameButFlag (t t' : Talk) : Prop := setIsNegotiating false t = setIsNegotiating false t'

theorem SameButFlag.set (b : Bool) (t : Talk) : SameButFlag t (setIsNegotiating b t) := rfl

theorem SameButFlag.eq {t t' : Talk} (h : SameButFlag t t') (hf : t.isNegotiating = false)
    (hf' : t'.isNegotiating = false) : t = t' := by
  have h₁ : setIsNegotiating false t = t := by rw [setIsNegotiating, ← hf]
  have h₂ : setIsNegotiating false t' = t' := by rw [setIsNegotiating, ← hf']
  rw [← h₁, ← h₂]
  exact h

theorem SameButFlag.invoke {t t' : Talk} (h : SameButFlag t t') (op : PcOp Json) :
    SameButFlag (invokeOp op t) (invokeOp op t') := by
  obtain ⟨pc, b, l, f⟩ := t
  obtain ⟨pc', b', l', f'⟩ := t'
  cases h
  rfl

/-- An operation settles the same way, whatever the flag. -/
theorem SameButFlag.attempt {t t' : Talk} (h : SameButFlag t t') (a : Attempt)
    (op : PcOp Json) :
    (attempt a op t = none ∧ attempt a op t' = none) ∨
      ∃ u u', attempt a op t = some u ∧ attempt a op t' = some u' ∧ SameButFlag u u' := by
  obtain ⟨pc, b, l, f⟩ := t
  obtain ⟨pc', b', l', f'⟩ := t'
  cases h
  unfold UseWebRTC.attempt
  cases pc with
  | none => exact Or.inl ⟨rfl, rfl⟩
  | some pc =>
      cases a.ok with
      | false => exact Or.inl ⟨rfl, rfl⟩
      | true =>
          cases hperf : pc.perform a.sections op with
          | none => exact Or.inl ⟨by simp [hperf], by simp [hperf]⟩
          | some r =>
              refine Or.inr ⟨_, _, by simp only [hperf, if_true]; rfl,
                by simp only [hperf, if_true]; rfl, ?_⟩
              show SameButFlag (onsignalingstatechange r.2 _) (onsignalingstatechange r.2 _)
              unfold onsignalingstatechange
              split
              · rfl
              · rfl

/-- An answer that is set ends the negotiation. -/
theorem attempt_answer {a : Attempt} {t t' : Talk} {d : Desc} (hd : d.type = .answer)
    (h : attempt a (.setLocalDescription d) t = some t') : t'.isNegotiating = false := by
  unfold attempt at h
  split at h
  · split at h
    · obtain ⟨⟨pc', states⟩, hperf, rfl⟩ := Option.map_eq_some_iff.mp h
      obtain ⟨-, hstable, -⟩ := perform_localAnswer hd hperf
      rw [onsignalingstatechange, if_pos hstable]
      rfl
    · exact nomatch h
  · exact nomatch h

/-- A call of the page awaits an operation that the hook is about to invoke. -/
structure Suspended (op : PcOp Json) (call : Call) (s : Page) (t : Talk) : Prop where
  chain : s.chain = [(op, call)]
  connected : s.peerConnectionRef.isSome = true
  same : SameButFlag (viewOf s) (invokeOp op t)

/-- A call of the page goes on beside the hook. -/
structure Resumed (s : Page) (t : Talk) : Prop where
  chain : s.chain = []
  connected : s.peerConnectionRef.isSome = true
  same : SameButFlag (viewOf s) t

theorem Resumed.raise {s : Page} {t : Talk} (h : Resumed s t) :
    Resumed (setNegotiating true s) t where
  chain := h.chain
  connected := h.connected
  same := h.same

theorem Resumed.invoke {s : Page} {t : Talk} (h : Resumed s t) (op : PcOp Json)
    (m : Option Received) (call : Call) : Suspended op call (CamPage.invoke op m call s) t where
  chain := by
    rw [invoke_chain, h.chain]
    rfl
  connected := h.connected
  same := by
    rw [viewOf_invoke]
    exact SameButFlag.invoke h.same op

/-- **ONE AWAIT**: the page and the hook go on side by side, or both end in their
    `catch`. -/
theorem await_agrees {op : PcOp Json} {call : Call} {s : Page} {t : Talk}
    (h : Suspended op call s t) (hcall : call ≠ .candidateAdded) (a : Attempt) :
    (awaitOp a op t = .error (invokeOp op t) ∧ (settleNext a s).chain = [] ∧
        viewOf (settleNext a s) = setIsNegotiating false (invokeOp op t)) ∨
      ∃ u t', settleNext a s = resume a.sdp call u ∧ awaitOp a op t = .ok t' ∧
        Resumed u t' ∧ (viewOf s = invokeOp op t → viewOf u = t') ∧
        (∀ d, op = .setLocalDescription d → d.type = .answer → viewOf u = t') := by
  obtain ⟨pc, hpc⟩ := Option.isSome_iff_exists.mp h.connected
  rcases h.same.attempt a op with ⟨hn, hn'⟩ | ⟨v, t', ho, ho', hsame⟩
  · obtain ⟨hu, hview⟩ := settle_caught hpc h.chain hcall hn
    refine Or.inl ⟨awaitOp_error hn', hu, ?_⟩
    rw [hview]
    exact h.same
  · obtain ⟨u, hu, rfl, heq⟩ := settle_ok h.chain ho
    refine Or.inr ⟨u, t', heq, awaitOp_ok ho', ⟨hu, attempt_connected ho, hsame⟩, ?_, ?_⟩
    · intro hview
      rw [hview, ho'] at ho
      exact (Option.some.inj ho).symm
    · rintro d rfl hd
      exact hsame.eq (attempt_answer hd ho) (attempt_answer hd ho')

/-! ## The four tasks -/

section Tasks

variable {env : Vars} {attempts : Nat → Attempt} {s : Page}

/-- Candidates. -/
theorem candidate_agrees (hchain : s.chain = []) (m : Received) :
    viewOf (finish attempts (handleIceCandidateMessage env m s))
      = addIceCandidate attempts (m.data.get "candidate") (viewOf s) := by
  unfold handleIceCandidateMessage addIceCandidate
  rw [viewOf_peerConnectionRef]
  have hadopt : (adoptSender env m s).chain = [] := by
    rw [(adoptSender_talk env m s).2.chain, hchain]
  cases hpc : s.peerConnectionRef with
  | none =>
      dsimp only
      rw [finish_idle hchain]
  | some pc =>
      dsimp only
      cases hc : RTCIceCandidate (m.data.get "candidate") with
      | none =>
          dsimp only
          rw [finish_idle hadopt, viewOf_adoptSender]
          rfl
      | some c =>
          dsimp only
          have hstart : (invoke (.addIceCandidate c) (some m) .candidateAdded
              (adoptSender env m s)).chain = [(.addIceCandidate c, .candidateAdded)] := by
            rw [invoke_chain, hadopt]
            rfl
          have hview : viewOf (invoke (.addIceCandidate c) (some m) .candidateAdded
              (adoptSender env m s)) = invokeOp (.addIceCandidate c) (viewOf s) := by
            rw [viewOf_invoke, viewOf_adoptSender]
          show _ = tryLogging (awaitOp (attempts 0) (.addIceCandidate c) (viewOf s))
          cases hatt : attempt (attempts 0) (.addIceCandidate c)
            (invokeOp (.addIceCandidate c) (viewOf s)) with
          | some t =>
              obtain ⟨u, hu, hview', heq⟩ := settle_ok hstart (hview ▸ hatt)
              rw [awaitOp_ok hatt, finish, heq]
              show viewOf (settleNext _ (settleNext _ u)) = t
              rw [settleNext_idle₂ hu, hview']
          | none =>
              rw [awaitOp_error hatt, finish, settle_error
                (by rw [invoke_peerConnectionRef, adoptSender_pc, hpc]) hstart (hview ▸ hatt)]
              show viewOf (settleNext _ (settleNext _ (setChain [] _))) = _
              rw [settleNext_idle₂ (setChain_chain _ _), viewOf_setChain, hview]
              rfl

/-- A message that says what it carries. -/
theorem sound_sdp {m : Received} (ty : SdpType)
    (h : (m.data.get "sdp").bind (Json.get "type") = some (.str (sdpName ty))) :
    ∃ sdp, m.data.get "sdp" = some sdp ∧ sdpOf m = some sdp ∧
      isOfferSdp sdp = decide (ty = .offer) := by
  obtain ⟨sdp, hsdp, hty⟩ := Option.bind_eq_some_iff.mp h
  refine ⟨sdp, hsdp, ?_, ?_⟩
  · cases sdp with
    | null => exact nomatch hty
    | _ => rw [sdpOf, hsdp]
  · rw [isOfferSdp, hty]
    cases ty <;> rfl

/-- A description that cannot be built ends in the `catch`. -/
theorem sdp_failed {m : Received} {sdp : Json} {pc pc' : Pc} (hchain : s.chain = [])
    (hpc : s.peerConnectionRef = some pc) (hsdp : sdpOf m = some sdp)
    (htr : tracksForOffer (isOfferSdp sdp) s.localStreamRef pc = some pc')
    (hd : RTCSessionDescription sdp = none) :
    viewOf (finish attempts (handleSDPMessage env m s))
      = setIsNegotiating false { viewOf s with peerConnectionRef := some pc' } := by
  have hpage : handleSDPMessage env m s
      = setNegotiating false (setPc pc' (adoptSender env m (noteSDP m s))) := by
    unfold handleSDPMessage
    rw [hpc, hsdp]
    dsimp only
    unfold applySDP
    rw [adoptSender_stream, show (noteSDP m s).localStreamRef = s.localStreamRef from rfl, htr]
    dsimp only
    rw [hd]
  have hidle : (setNegotiating false (setPc pc' (adoptSender env m (noteSDP m s)))).chain
      = [] := by
    rw [setNegotiating_chain, setPc_chain, (adoptSender_talk env m (noteSDP m s)).2.chain]
    exact hchain
  rw [hpage, finish_idle hidle, viewOf_setNegotiating, viewOf_setPc, viewOf_adoptSender,
    viewOf_noteSDP]

/-- The page gets to `setRemoteDescription`. -/
theorem sdp_started (env : Vars) {m : Received} {sdp : Json} {d : Desc} {pc pc' : Pc}
    (hchain : s.chain = []) (hpc : s.peerConnectionRef = some pc) (hsdp : sdpOf m = some sdp)
    (hd : RTCSessionDescription sdp = some d)
    (htr : tracksForOffer (isOfferSdp sdp) s.localStreamRef pc = some pc') :
    (handleSDPMessage env m s).chain
        = [(.setRemoteDescription d, .remoteApplied env m (isOfferSdp sdp))] ∧
      (handleSDPMessage env m s).peerConnectionRef = some pc' ∧
      viewOf (handleSDPMessage env m s) = invokeOp (.setRemoteDescription d)
        { viewOf s with peerConnectionRef := some pc' } := by
  have hstream : (adoptSender env m (noteSDP m s)).localStreamRef = s.localStreamRef :=
    adoptSender_stream env m (noteSDP m s)
  have hempty : (adoptSender env m (noteSDP m s)).chain = [] := by
    rw [(adoptSender_talk env m (noteSDP m s)).2.chain]
    exact hchain
  unfold handleSDPMessage
  rw [hpc, hsdp]
  dsimp only
  unfold applySDP
  rw [hstream, htr]
  dsimp only
  rw [hd]
  dsimp only
  refine ⟨?_, rfl, ?_⟩
  · rw [invoke_chain, setPc_chain, hempty]
    rfl
  · rw [viewOf_invoke, viewOf_setPc, viewOf_adoptSender, viewOf_noteSDP]

/-- Lowering the flag shows if it was up. -/
theorem lowered_iff (t : Talk) : setIsNegotiating false t = t ↔ t.isNegotiating = false := by
  constructor
  · intro h
    rw [← h]
    rfl
  · intro h
    rw [setIsNegotiating, ← h]

/-- **ANSWERS**: the same, unless the answer is rejected while the flag is up. -/
theorem answer_agrees {m : Received} (hchain : s.chain = [])
    (hty : (m.data.get "sdp").bind (Json.get "type") = some (.str "answer")) :
    viewOf (finish attempts (handleSDPMessage env m s))
        = handleAnswer attempts m.data (viewOf s) ↔
      (s.isNegotiatingRef &&
        s.peerConnectionRef.any (fun pc => !isApplied (attempts 0) pc m.data)) = false := by
  obtain ⟨sdp, hsdp, hof, hoff⟩ := sound_sdp .answer hty
  have hbind : (m.data.get "sdp").bind RTCSessionDescription = RTCSessionDescription sdp := by
    rw [hsdp, Option.bind_some]
  cases hpc : s.peerConnectionRef with
  | none =>
      have hpage : handleSDPMessage env m s = noteSDP m s := by
        rw [handleSDPMessage, hpc]
      have hhook : handleAnswer attempts m.data (viewOf s) = viewOf s := by
        rw [handleAnswer, viewOf_peerConnectionRef, hpc]
      rw [hpage, hhook, finish_idle (s := noteSDP m s) hchain, viewOf_noteSDP]
      simp
  | some pc =>
      have hself : ({ viewOf s with peerConnectionRef := some pc } : Talk) = viewOf s := by
        rw [← hpc]
        rfl
      have htr : tracksForOffer (isOfferSdp sdp) s.localStreamRef pc = some pc := by
        rw [hoff]
        unfold tracksForOffer
        split <;> rfl
      have hhook : handleAnswer attempts m.data (viewOf s)
          = tryLogging (do
            let d ← orThrow (viewOf s) (RTCSessionDescription sdp)
            awaitOp (attempts 0) (.setRemoteDescription d) (viewOf s)) := by
        rw [handleAnswer, viewOf_peerConnectionRef, hpc, hbind]
      rw [hhook, Option.any_some, isApplied, hbind]
      cases hd : RTCSessionDescription sdp with
      | none =>
          rw [sdp_failed hchain hpc hof htr hd, hself]
          refine (lowered_iff (viewOf s)).trans ?_
          simp
      | some d =>
          obtain ⟨hstart, hpc', hview⟩ := sdp_started env hchain hpc hof hd htr
          rw [hself] at hview
          have hatt : (attempt (attempts 0) (.setRemoteDescription d)
                (invokeOp (.setRemoteDescription d) (viewOf s))).isSome =
              ((attempts 0).ok && (pc.perform (attempts 0).sections
                (.setRemoteDescription d : PcOp Json)).isSome) := by
            unfold attempt
            rw [invokeOp_peerConnectionRef, viewOf_peerConnectionRef, hpc]
            cases (attempts 0).ok <;> simp
          show viewOf _ = tryLogging (awaitOp (attempts 0) (.setRemoteDescription d) (viewOf s))
            ↔ (_ && !((attempts 0).ok && _)) = false
          rw [← hatt]
          cases hcase : attempt (attempts 0) (.setRemoteDescription d)
            (invokeOp (.setRemoteDescription d) (viewOf s)) with
          | some t =>
              obtain ⟨u, hu, hview', heq⟩ := settle_ok hstart (hview ▸ hcase)
              have hpage : viewOf (finish attempts (handleSDPMessage env m s)) = t := by
                rw [finish, heq, hoff]
                show viewOf (settleNext _ (settleNext _ u)) = t
                rw [settleNext_idle₂ hu, hview']
              rw [hpage, awaitOp_ok hcase]
              refine ⟨fun _ => ?_, fun _ => rfl⟩
              simp
          | none =>
              have hpage : viewOf (finish attempts (handleSDPMessage env m s))
                  = setIsNegotiating false
                    (invokeOp (.setRemoteDescription d) (viewOf s)) := by
                obtain ⟨hu, hview'⟩ := settle_caught hpc' hstart (fun h => by cases h)
                  (hview ▸ hcase)
                rw [finish, settleNext_idle₂ hu, hview', hview]
              rw [hpage, awaitOp_error hcase]
              refine (lowered_iff (invokeOp (.setRemoteDescription d) (viewOf s))).trans ?_
              simp

/-- The tracks the hook adds for an offer are those the page adds. -/
theorem answerTracks_eq {pc : Pc} {t : Talk} (hpc : t.peerConnectionRef = some pc)
    (localStream : Option Stream) :
    answerTracks localStream pc t =
      match tracksForOffer true localStream pc with
      | some pc' => .ok { t with peerConnectionRef := some pc' }
      | none => .error t := by
  have hself : ({ t with peerConnectionRef := some pc } : Talk) = t := by
    rw [← hpc]
  unfold answerTracks addTracks tracksForOffer
  cases localStream with
  | none =>
      dsimp only
      rw [hself]
  | some stream =>
      dsimp only
      cases hasTracksAdded pc with
      | true =>
          simp only [if_true, Bool.not_true, Bool.and_false, Bool.false_eq_true, if_false]
          rw [hself]
      | false =>
          simp only [Bool.false_eq_true, if_false, Bool.not_false, Bool.and_self, if_true]

/-- The page answers an offer: what is left once the tracks are added. -/
theorem offer_page {m : Received} {sdp : Json} {d : Desc} {pc pc' : Pc}
    (hchain : s.chain = []) (hpc : s.peerConnectionRef = some pc) (hsdp : sdpOf m = some sdp)
    (hd : RTCSessionDescription sdp = some d) (hoff : isOfferSdp sdp = true)
    (htr : tracksForOffer true s.localStreamRef pc = some pc') {t : Talk}
    (ht : SameButFlag { viewOf s with peerConnectionRef := some pc' } t) :
    viewOf (finish attempts (handleSDPMessage env m s)) =
      match tryNegotiating (do
        let t ← awaitOp (attempts 0) (.setRemoteDescription d) t
        let t ← awaitOp (attempts 1) .createAnswer t
        let t ← awaitOp (attempts 2) (.setLocalDescription ⟨.answer, (attempts 1).sdp⟩) t
        .ok (t, ⟨.answer, (attempts 1).sdp⟩)) with
      | (t', some answer) =>
          send (sendAnswer (signaling env) (m.data.get "from") (descJson answer)) t'
      | (t', none) => t' := by
  obtain ⟨hstart, hpc₁, hview⟩ :=
    sdp_started env hchain hpc hsdp hd (by rw [hoff]; exact htr)
  rw [hoff] at hstart
  have hsusp : Suspended (.setRemoteDescription d) (.remoteApplied env m true)
      (handleSDPMessage env m s) t :=
    ⟨hstart, by rw [hpc₁]; rfl, by rw [hview]; exact SameButFlag.invoke ht _⟩
  unfold finish
  rcases await_agrees hsusp (fun h => (nomatch h)) (attempts 0) with
    ⟨hawait, hidle, hend⟩ | ⟨u, t₁, heq, hawait, hres, -, -⟩
  · rw [settleNext_idle₂ hidle, hend, hawait]
    rfl
  rw [heq, hawait]
  -- before `createAnswer` the page raises the flag
  have hsusp₁ := hres.raise.invoke .createAnswer none (.answerCreated env m)
  show viewOf (settleNext _ (settleNext _ (invoke .createAnswer _ _ _)))
    = (match tryNegotiating (awaitOp (attempts 1) .createAnswer t₁ >>= _) with
      | (t', some answer) => _
      | (t', none) => _)
  rcases await_agrees hsusp₁ (fun h => (nomatch h)) (attempts 1) with
    ⟨hawait₁, hidle, hend⟩ | ⟨u₁, t₂, heq₁, hawait₁, hres₁, -, -⟩
  · rw [settleNext_idle hidle, hend, hawait₁]
    rfl
  rw [heq₁, hawait₁]
  have hsusp₂ := hres₁.invoke (.setLocalDescription ⟨.answer, (attempts 1).sdp⟩) none
    (.answerApplied env m ⟨.answer, (attempts 1).sdp⟩)
  show viewOf (settleNext _ (invoke (.setLocalDescription _) _ _ _))
    = (match tryNegotiating (awaitOp (attempts 2) (.setLocalDescription _) t₂ >>= _) with
      | (t', some answer) => _
      | (t', none) => _)
  rcases await_agrees hsusp₂ (fun h => (nomatch h)) (attempts 2) with
    ⟨hawait₂, -, hend⟩ | ⟨u₂, t₃, heq₂, hawait₂, -, -, hflag⟩
  · rw [hend, hawait₂]
    rfl
  -- with the answer set, both flags are down
  rw [heq₂, hawait₂, ← hflag _ rfl rfl]
  show viewOf (sendMessage env _ u₂) = _
  rw [viewOf_sendMessage, ← signaling_frame]
  rfl

/-- Offers. -/
theorem offer_agrees {m : Received} (hchain : s.chain = [])
    (hty : (m.data.get "sdp").bind (Json.get "type") = some (.str "offer")) :
    viewOf (finish attempts (handleSDPMessage env m s)) =
      match handleOffer attempts s.localStreamRef m.data (viewOf s) with
      | (t', some answer) =>
          send (sendAnswer (signaling env) (m.data.get "from") (descJson answer)) t'
      | (t', none) => t' := by
  obtain ⟨sdp, hsdp, hof, hoff⟩ := sound_sdp .offer hty
  replace hoff : isOfferSdp sdp = true := hoff
  have hbind : (m.data.get "sdp").bind RTCSessionDescription = RTCSessionDescription sdp := by
    rw [hsdp, Option.bind_some]
  unfold handleOffer
  rw [viewOf_peerConnectionRef]
  cases hpc : s.peerConnectionRef with
  | none =>
      have hpage : handleSDPMessage env m s = noteSDP m s := by
        rw [handleSDPMessage, hpc]
      rw [hpage, finish_idle (s := noteSDP m s) hchain, viewOf_noteSDP]
  | some pc =>
      dsimp only
      rw [answerTracks_eq hpc, hbind]
      cases htr : tracksForOffer true s.localStreamRef pc with
      | none =>
          have hpage : handleSDPMessage env m s
              = setNegotiating false (adoptSender env m (noteSDP m s)) := by
            rw [handleSDPMessage, hpc, hof]
            dsimp only
            rw [applySDP, adoptSender_stream, hoff]
            show (match tracksForOffer true s.localStreamRef pc with
              | none => _
              | some pc' => _) = _
            rw [htr]
          have hidle : (setNegotiating false (adoptSender env m (noteSDP m s))).chain = [] := by
            rw [setNegotiating_chain, (adoptSender_talk env m (noteSDP m s)).2.chain]
            exact hchain
          rw [hpage, finish_idle hidle, viewOf_setNegotiating, viewOf_adoptSender,
            viewOf_noteSDP]
          rfl
      | some pc' =>
          cases hd : RTCSessionDescription sdp with
          | none =>
              rw [sdp_failed hchain hpc hof (by rw [hoff]; exact htr) hd]
              rfl
          | some d =>
              rw [offer_page hchain hpc hof hd hoff htr (SameButFlag.set true _)]
              rfl

/-- The page makes an offer, from the `try` on. -/
theorem offer_started {pc : Pc} (hchain : s.chain = []) (hpc : s.peerConnectionRef = some pc)
    (stream : Stream) :
    viewOf (finish attempts
        (match (if hasTracksAdded pc then some pc else addTracksToConnection pc stream) with
        | none => setNegotiating false (setNegotiating true s)
        | some pc' =>
            invoke .createOffer none (.offerCreated env) (setNegotiating true (setPc pc' s)))) =
      match tryNegotiating (do
        let t ← addTracks stream pc (setIsNegotiating true (viewOf s))
        let t ← awaitOp (attempts 0) .createOffer t
        let t ← awaitOp (attempts 1) (.setLocalDescription ⟨.offer, (attempts 0).sdp⟩) t
        .ok (t, ⟨.offer, (attempts 0).sdp⟩)) with
      | (t', some offer) =>
          send (sendOffer (signaling env) (some env.peerId) (descJson offer)) t'
      | (t', none) => t' := by
  have htracks : addTracks stream pc (setIsNegotiating true (viewOf s)) =
      match (if hasTracksAdded pc then some pc else addTracksToConnection pc stream) with
      | none => .error (setIsNegotiating true (viewOf s))
      | some pc' => .ok (viewOf (setNegotiating true (setPc pc' s))) := by
    unfold addTracks
    cases hasTracksAdded pc with
    | true =>
        simp only [if_true, viewOf_setNegotiating, viewOf_setPc]
        rw [← hpc]
        rfl
    | false =>
        simp only [Bool.false_eq_true, if_false]
        cases addTracksToConnection pc stream <;> rfl
  rw [htracks]
  cases (if hasTracksAdded pc then some pc else addTracksToConnection pc stream) with
  | none =>
      dsimp only
      rw [finish_idle (s := setNegotiating false (setNegotiating true s)) hchain]
      rfl
  | some pc' =>
      dsimp only
      have hres : Resumed (setNegotiating true (setPc pc' s))
          (viewOf (setNegotiating true (setPc pc' s))) := ⟨hchain, rfl, rfl⟩
      have hsusp := hres.invoke .createOffer none (.offerCreated env)
      unfold finish
      rcases await_agrees hsusp (fun h => (nomatch h)) (attempts 0) with
        ⟨hawait, hidle, hend⟩ | ⟨u, t₁, heq, hawait, hres₁, hview, -⟩
      · rw [settleNext_idle₂ hidle, hend]
        show _ = (match tryNegotiating (awaitOp (attempts 0) .createOffer _ >>= _) with
          | (t', some offer) => _
          | (t', none) => _)
        rw [hawait]
        rfl
      -- from here on the flags agree as well
      obtain rfl : viewOf u = t₁ := hview (viewOf_invoke _ _ _ _)
      have hsusp₁ := hres₁.invoke (.setLocalDescription ⟨.offer, (attempts 0).sdp⟩) none
        (.offerApplied env ⟨.offer, (attempts 0).sdp⟩)
      rw [heq]
      show viewOf (settleNext _ (settleNext _ (invoke (.setLocalDescription _) _ _ _)))
        = (match tryNegotiating (awaitOp (attempts 0) .createOffer _ >>= _) with
          | (t', some offer) => _
          | (t', none) => _)
      rw [hawait]
      show _ = (match tryNegotiating
          (awaitOp (attempts 1) (.setLocalDescription _) (viewOf u) >>= _) with
        | (t', some offer) => _
        | (t', none) => _)
      rcases await_agrees hsusp₁ (fun h => (nomatch h)) (attempts 1) with
        ⟨hawait₁, hidle, hend⟩ | ⟨u₁, t₂, heq₁, hawait₁, hres₂, hview₁, -⟩
      · rw [settleNext_idle hidle, hend, hawait₁]
        rfl
      obtain rfl : viewOf u₁ = t₂ := hview₁ (viewOf_invoke _ _ _ _)
      rw [heq₁, hawait₁]
      show viewOf (settleNext _ (sendMessage env _ u₁)) = _
      have hidle : (sendMessage env [("to", env.peerId),
          ("sdp", descJson ⟨.offer, (attempts 0).sdp⟩), ("type", .str "offer")] u₁).chain = [] := by
        rw [sendMessage_eq]
        exact hres₂.chain
      rw [settleNext_idle hidle, viewOf_sendMessage, ← signaling_frame]
      rfl

/-- The button. -/
theorem press_agrees (hchain : s.chain = []) (henabled : buttonEnabled env = true) :
    viewOf (finish attempts (CamPage.createOffer env s)) =
      match createOffer attempts s.localStreamRef (viewOf s) with
      | (t', some offer) =>
          send (sendOffer (signaling env) (some env.peerId) (descJson offer)) t'
      | (t', none) => t' := by
  obtain ⟨hready, htruthy⟩ : env.isLocalStreamReady = true ∧ truthy (some env.peerId) = true := by
    simpa [buttonEnabled] using henabled
  have hpeer : isPeerIdEmpty env.peerId = false := by
    have hne : env.peerId ≠ .str "" := by
      intro h
      rw [h] at htruthy
      exact nomatch htruthy
    simp [isPeerIdEmpty, htruthy, hne]
  unfold CamPage.createOffer createOffer
  rw [viewOf_peerConnectionRef, viewOf_isNegotiating, hpeer]
  cases hpc : s.peerConnectionRef with
  | none =>
      dsimp only
      rw [finish_idle hchain]
  | some pc =>
      cases s.localStreamRef with
      | none =>
          simp only [Bool.false_eq_true, if_false]
          rw [finish_idle hchain]
      | some stream =>
          simp only [Bool.false_eq_true, if_false, isMediaStreamReady, hready,
            Option.isSome_some, Bool.and_self, Bool.not_true]
          cases hflag : s.isNegotiatingRef with
          | true =>
              simp only [if_true]
              rw [finish_idle hchain]
          | false =>
              simp only [Bool.false_eq_true, if_false]
              exact offer_started hchain hpc stream

end Tasks

/-! ## The two versions -/

/-- The type of a message decides all the guards. -/
theorem hasType_eq {ty : String} {j : Json} (h : hasType ty j = true) (u : String) :
    hasType u j = decide (ty = u) := by
  cases hu : hasType u j with
  | true => exact (decide_eq_true (hasType_inj h hu)).symm
  | false =>
      refine (decide_eq_false ?_).symm
      rintro rfl
      rw [h] at hu
      exact nomatch hu

/-- `ws.onmessage` where the message has a type. -/
theorem onmessage_typed {ty : String} {j : Json} (h : hasType ty j = true) :
    UseSignaling.onmessage (some j) =
      if hasType "welcome" j then .setClientId (j.get "id")
      else if hasType "offer" j then .onOffer j
      else if hasType "answer" j then .onAnswer j
      else if hasType "candidate" j then .onIceCandidate j
      else .ignored := by
  cases j with
  | null => exact nomatch (of_decide_eq_true h : Json.get "type" .null = some (.str ty))
  | _ => rfl

/-- What a sound message is, and which handlers it goes to. -/
theorem sound_cases {env : Vars} {j : Json} (h : Task.sound env (.message j) = true) :
    (isICECandidateMessage j = true ∧ UseSignaling.onmessage (some j) = .onIceCandidate j ∧
        isAnswerMessage j = false) ∨
      (isICECandidateMessage j = false ∧ UseSignaling.onmessage (some j) = .onOffer j ∧
        isAnswerMessage j = false ∧
        (j.get "sdp").bind (Json.get "type") = some (.str "offer")) ∨
      (isICECandidateMessage j = false ∧ UseSignaling.onmessage (some j) = .onAnswer j ∧
        isAnswerMessage j = true ∧
        (j.get "sdp").bind (Json.get "type") = some (.str "answer")) := by
  rcases Bool.or_eq_true_iff.mp h with hc | hs
  · refine Or.inl ⟨hc, ?_, hasType_eq hc "answer"⟩
    rw [onmessage_typed hc, hasType_eq hc, hasType_eq hc, hasType_eq hc, hasType_eq hc]
    rfl
  · obtain ⟨hkind, heq⟩ := Bool.and_eq_true_iff.mp hs
    replace heq := of_decide_eq_true heq
    rcases Bool.or_eq_true_iff.mp hkind with hty | hty
    · refine Or.inr (Or.inl ⟨hasType_eq hty "candidate", ?_, hasType_eq hty "answer", ?_⟩)
      · rw [onmessage_typed hty, hasType_eq hty, hasType_eq hty]
        rfl
      · rw [heq]
        exact of_decide_eq_true hty
    · refine Or.inr (Or.inr ⟨hasType_eq hty "candidate", ?_, hty, ?_⟩)
      · rw [onmessage_typed hty, hasType_eq hty, hasType_eq hty, hasType_eq hty]
        rfl
      · rw [heq]
        exact of_decide_eq_true hty

/-- **THE PAGE AND THE HOOKS**: one task, from the same connection, flag and stream, with
    the same operations failing.  They invoke the same operations, send the same frames
    and leave the same flag and senders, unless an answer is not applied while the flag is
    up. -/
theorem paths_agree_iff {env : Vars} {attempts : Nat → Attempt} {task : Task} {s : Page}
    (hchain : s.chain = []) (hsound : task.sound env = true) :
    viewOf (pageRun env attempts task s)
        = hookRun env attempts s.localStreamRef task (viewOf s) ↔
      leftRaised attempts task s = false := by
  cases task with
  | press =>
      refine ⟨fun _ => rfl, fun _ => ?_⟩
      exact press_agrees hchain hsound
  | message j =>
      unfold pageRun hookRun leftRaised
      dsimp only
      rcases sound_cases hsound with ⟨hc, hon, ha⟩ | ⟨hc, hon, ha, hty⟩ | ⟨hc, hon, ha, hty⟩
      · rw [hc, hon, ha]
        refine ⟨fun _ => rfl, fun _ => ?_⟩
        exact candidate_agrees hchain (s.arrival j)
      · rw [hc, hon, ha]
        refine ⟨fun _ => rfl, fun _ => ?_⟩
        exact offer_agrees (m := s.arrival j) hchain hty
      · rw [hc, hon, ha]
        refine (answer_agrees (m := s.arrival j) hchain hty).trans ?_
        rw [Bool.true_and]
        exact Iff.rfl

/-- A page with a camera, a client id and a peer. -/
def readyVars : Vars :=
  { Vars.initial with
    socket := some ⟨⟩
    clientId := some (.str "a")
    peerId := .str "b"
    isLocalStreamReady := true }

def readyPage : Page :=
  { Page.initial with
    vars := readyVars
    effects := []
    mountVars := some .initial
    peerConnectionRef := some .new
    localStreamRef := some CamGuard.camera
    peerIdRef := .str "b" }

def fulfilled : Attempt := ⟨true, "1", []⟩

/-- The page has sent its offer and waits for the answer. -/
def callingPage : Page := pageRun readyVars (fun _ => fulfilled) .press readyPage

def answerFromB : Json :=
  .obj [("from", .str "b"), ("to", .str "a"),
    ("sdp", .obj [("type", .str "answer"), ("sdp", .str "2")]), ("type", .str "answer")]

/-- The answer is rejected: the page may call again, the hook never does. -/
theorem rejected_answer_disagrees :
    callingPage.chain = [] ∧ Task.sound readyVars (.message answerFromB) = true ∧
    (viewOf (pageRun readyVars (fun _ => { fulfilled with ok := false })
      (.message answerFromB) callingPage)).isNegotiating = false ∧
    (hookRun readyVars (fun _ => { fulfilled with ok := false }) callingPage.localStreamRef
      (.message answerFromB) (viewOf callingPage)).isNegotiating = true := by
  decide +kernel

theorem paths_agree_iff_sample :
    leftRaised (fun _ => fulfilled) (.message answerFromB) callingPage = false ∧
    viewOf (pageRun readyVars (fun _ => fulfilled) (.message answerFromB) callingPage)
      = hookRun readyVars (fun _ => fulfilled) callingPage.localStreamRef
          (.message answerFromB) (viewOf callingPage) :=
  ⟨by decide +kernel,
    (paths_agree_iff (by decide +kernel) (by decide +kernel)).mpr (by decide +kernel)⟩

end UseWebRTC
