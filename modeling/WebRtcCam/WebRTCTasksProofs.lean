import WebRtcCam.WebRTCFlagProofs
import WebRtcCam.UseWebRTCProofs

/-! # One task of the hook, at once and in steps

    `UseWebRTC` runs a function of the hook to its end; `WebRTCCalls` stops it at every
    `await`.  Called by a function of an up-to-date render while nothing else is suspended,
    and left alone until its operations have settled, the two come to the same.

    * `settles_follow` — from one `await` to the end;
    * `createOffer_task` and its siblings — from the call to the end. -/

namespace WebRTCTasks

open CamWire JsonText RtcSignaling WebRTCCalls
open CamPage (hasTracksAdded addTracksToConnection tracksForOffer RTCSessionDescription
  RTCIceCandidate)
open UseWebRTC (Talk Attempt attempt awaitOp invokeOp setIsNegotiating)

/-! ## The machine left alone -/

/-- The machine shows what a task works on: an open connection with these suspended
    calls, and the flag. -/
structure Shows (c : Nat) (s : Hook) (chain : List (PcOp Json × Call)) (t : Talk) : Prop where
  mounted : s.mounted = true
  current : s.current = some c
  connection : ∃ pc, t.peerConnectionRef = some pc ∧ s.connections[c]? = some ⟨pc, chain⟩ ∧
    pc.signalingState ≠ .closed
  flag : s.flag = t.isNegotiating

/-- The oldest suspended call of connection `c` goes on, if there is one. -/
def settleNext (c : Nat) (a : Attempt) (s : Hook) : Hook := a.settles (settle c · s) s

section Tasks

variable (attempts : Nat → Attempt)

/-- The next `fuel` operations settle, from number `n` on. -/
def settles (c : Nat) : Nat → Nat → Hook → Hook
  | 0, _, s => s
  | fuel + 1, n, s => settles c fuel (n + 1) (settleNext c (attempts n) s)

/-- The rest of a function, from the `await` of this operation on. -/
def follow : Nat → Nat → PcOp Json → Call → Talk → Talk
  | 0, _, _, _, t => t
  | fuel + 1, n, op, call, t =>
      match awaitOp (attempts n) op t with
      | .error t => if call.raises then setIsNegotiating false t else t
      | .ok t =>
          match call.next (attempts n).sdp with
          | none => t
          | some (op', call') => follow fuel (n + 1) op' call' t

/-- The number of operations a call has yet to await. -/
def left : Call → Nat
  | .remoteApplied => 3
  | .offerCreated => 2
  | .answerCreated => 2
  | _ => 1

theorem left_next {call call' : Call} {sdp : String} {op : PcOp Json}
    (h : call.next sdp = some (op, call')) : left call = left call' + 1 := by
  cases call <;> cases h <;> rfl

section Settle

variable {c : Nat} {s : Hook} {t : Talk} {op : PcOp Json} {call : Call} {a : Attempt}

theorem Shows.invoke {chain : List (PcOp Json × Call)} (h : Shows c s chain t)
    (op : PcOp Json) : Shows c s chain (invokeOp op t) :=
  ⟨h.mounted, h.current, h.connection, h.flag⟩

/-- The connection, and with it the flag, is changed. -/
theorem Shows.changed {s' : Hook} {chain chain' : List (PcOp Json × Call)} {t' : Talk}
    (h : Shows c s chain t) (pc : Pc) (hm : s'.mounted = s.mounted)
    (hc : s'.current = s.current)
    (hset : s'.connections = s.connections.set c ⟨pc, chain'⟩)
    (hpc : t'.peerConnectionRef = some pc) (hopen : pc.signalingState ≠ .closed)
    (hflag : s'.flag = t'.isNegotiating) : Shows c s' chain' t' := by
  obtain ⟨pc₀, -, hx, -⟩ := h.connection
  obtain ⟨hlt, -⟩ := List.getElem?_eq_some_iff.mp hx
  refine ⟨hm.trans h.mounted, hc.trans h.current, ⟨pc, hpc, ?_, hopen⟩, hflag⟩
  rw [hset]
  exact List.getElem?_set_self hlt

/-- With nothing suspended, nothing happens. -/
theorem settleNext_idle (h : Shows c s [] t) (a : Attempt) : settleNext c a s = s := by
  obtain ⟨pc, -, hx, -⟩ := h.connection
  refine Attempt.settles_idle (fun o => ?_)
  rw [settle, hx]

theorem settles_idle (h : Shows c s [] t) (fuel n : Nat) :
    settles attempts c fuel n s = s := by
  induction fuel generalizing n with
  | zero => rfl
  | succ fuel ih =>
      show settles attempts c fuel (n + 1) (settleNext c (attempts n) s) = s
      rw [settleNext_idle h]
      exact ih (n + 1)

/-- An operation that is fulfilled. -/
theorem settleNext_ok {t' : Talk} (h : Shows c s [(op, call)] t)
    (hat : attempt a op t = some t') :
    Shows c (settleNext c a s) (call.next a.sdp).toList t' := by
  obtain ⟨pc, hpc, hx, hopen⟩ := h.connection
  rw [attempt, hpc] at hat
  obtain ⟨hok, hat⟩ := Option.ite_none_right_eq_some.mp hat
  obtain ⟨⟨pc', states⟩, hperf, rfl⟩ := Option.map_eq_some_iff.mp hat
  have hsettle : settle c (.fulfilled a.sdp a.sections) s
      = some (onsignalingstatechange states
          (setConnection c ⟨pc', (call.next a.sdp).toList⟩ s)) := by
    rw [settle, hx]
    dsimp only
    rw [if_neg hopen, hperf]
    rfl
  have hnext : settleNext c a s = _ := Attempt.settles_ok hok hsettle
  rw [hnext]
  refine h.changed pc' (by simp) (by simp) (by simp) ?_ (perform_open hperf hopen) ?_
  · show (UseWebRTC.onsignalingstatechange states _).peerConnectionRef = _
    rw [UseWebRTC.onsignalingstatechange]
    split <;> rfl
  · show (onsignalingstatechange states (setConnection c _ s)).flag = _
    rw [flag_announced (by exact h.mounted), flag_setConnection, h.flag,
      UseWebRTC.onsignalingstatechange]
    split
    · next hst => simp [hst]
    · next hst => simp [hst]

/-- An operation that is rejected. -/
theorem settleNext_error (h : Shows c s [(op, call)] t) (hat : attempt a op t = none) :
    Shows c (settleNext c a s) [] (if call.raises then setIsNegotiating false t else t) := by
  obtain ⟨pc, hpc, hx, hopen⟩ := h.connection
  have hful : a.ok = true → settle c (.fulfilled a.sdp a.sections) s = none := by
    intro hok
    rw [attempt, hpc, hok] at hat
    have hnone : pc.perform a.sections op = none := Option.map_eq_none_iff.mp hat
    rw [settle, hx]
    dsimp only
    rw [if_neg hopen, hnone]
    rfl
  have hrejected : settle c .rejected s = some (caught call (setConnection c ⟨pc, []⟩ s)) := by
    rw [settle, hx]
  have hnext : settleNext c a s = _ := Attempt.settles_error hful hrejected
  rw [hnext]
  refine h.changed pc (by simp) (by simp) (by simp) ?_ hopen ?_
  · split
    · exact hpc
    · exact hpc
  · show (caught call (setConnection c _ s)).flag = _
    rw [flag_caught (by exact h.mounted), flag_setConnection, h.flag]
    cases call.raises <;> rfl

/-- **TO THE END**: the machine goes through the rest of a function as the function
    does. -/
theorem settles_follow {fuel : Nat} :
    ∀ {n : Nat} {op : PcOp Json} {call : Call} {s : Hook} {t : Talk},
      Shows c s [(op, call)] t → left call ≤ fuel →
        Shows c (settles attempts c fuel n s) [] (follow attempts fuel n op call t) := by
  induction fuel with
  | zero =>
      intro n op call s t _ hfuel
      cases call <;> cases hfuel
  | succ fuel ih =>
      intro n op call s t h hfuel
      show Shows c (settles attempts c fuel (n + 1) (settleNext c (attempts n) s)) [] _
      rw [follow, awaitOp]
      cases hat : attempt (attempts n) op (invokeOp op t) with
      | none =>
          have hdone := settleNext_error (h.invoke op) hat
          rw [settles_idle attempts hdone]
          exact hdone
      | some t' =>
          have hshows := settleNext_ok (h.invoke op) hat
          dsimp only
          cases hnext : call.next (attempts n).sdp with
          | none =>
              rw [hnext] at hshows
              rw [settles_idle attempts hshows]
              exact hshows
          | some opcall =>
              obtain ⟨op', call'⟩ := opcall
              rw [hnext] at hshows
              have hleft := left_next hnext
              exact ih hshows (by omega)

end Settle

/-! ## The functions -/

/-- What a function comes to that begins so. -/
def outcome (call : Call) (t : Talk) : Entry → Talk
  | .skipped => t
  | .thrown pc =>
      { t with peerConnectionRef := some pc, isNegotiating := !call.raises && t.isNegotiating }
  | .awaits pc op =>
      follow attempts 3 0 op call
        { t with peerConnectionRef := some pc, isNegotiating := call.raises || t.isNegotiating }

section Functions

variable {t : Talk} {pc : Pc}

/-- `createOffer` from its first `await` on. -/
theorem offerCreated_follow (t : Talk) :
    (UseWebRTC.tryNegotiating (do
      let t ← awaitOp (attempts 0) .createOffer t
      let t ← awaitOp (attempts 1) (.setLocalDescription ⟨.offer, (attempts 0).sdp⟩) t
      .ok (t, ⟨.offer, (attempts 0).sdp⟩))).1
      = follow attempts 3 0 .createOffer .offerCreated t := by
  rw [follow]
  show (UseWebRTC.tryNegotiating (awaitOp (attempts 0) .createOffer t >>= _)).1 = _
  cases awaitOp (attempts 0) .createOffer t with
  | error t' => rfl
  | ok t' =>
      show (UseWebRTC.tryNegotiating (awaitOp (attempts 1)
        (.setLocalDescription ⟨.offer, (attempts 0).sdp⟩) t' >>= _)).1
        = follow attempts 2 1 (.setLocalDescription ⟨.offer, (attempts 0).sdp⟩)
          (.offerApplied ⟨.offer, (attempts 0).sdp⟩) t'
      rw [follow]
      cases awaitOp (attempts 1) (.setLocalDescription ⟨.offer, (attempts 0).sdp⟩) t' with
      | error t'' => rfl
      | ok t'' => rfl

/-- `handleOffer` from its first `await` on. -/
theorem remoteApplied_follow (d : Desc) (t : Talk) :
    (UseWebRTC.tryNegotiating (do
      let t ← awaitOp (attempts 0) (.setRemoteDescription d) t
      let t ← awaitOp (attempts 1) .createAnswer t
      let t ← awaitOp (attempts 2) (.setLocalDescription ⟨.answer, (attempts 1).sdp⟩) t
      .ok (t, ⟨.answer, (attempts 1).sdp⟩))).1
      = follow attempts 3 0 (.setRemoteDescription d) .remoteApplied t := by
  rw [follow]
  show (UseWebRTC.tryNegotiating (awaitOp (attempts 0) (.setRemoteDescription d) t >>= _)).1 = _
  cases awaitOp (attempts 0) (.setRemoteDescription d) t with
  | error t' => rfl
  | ok t' =>
      show (UseWebRTC.tryNegotiating (awaitOp (attempts 1) .createAnswer t' >>= _)).1
        = follow attempts 2 1 .createAnswer .answerCreated t'
      rw [follow]
      cases awaitOp (attempts 1) .createAnswer t' with
      | error t'' => rfl
      | ok t'' =>
          show (UseWebRTC.tryNegotiating (awaitOp (attempts 2)
            (.setLocalDescription ⟨.answer, (attempts 1).sdp⟩) t'' >>= _)).1
            = follow attempts 1 2 (.setLocalDescription ⟨.answer, (attempts 1).sdp⟩)
              (.answerApplied ⟨.answer, (attempts 1).sdp⟩) t''
          rw [follow]
          cases awaitOp (attempts 2) (.setLocalDescription ⟨.answer, (attempts 1).sdp⟩) t'' with
          | error u => rfl
          | ok u => rfl

theorem createOffer_outcome (hpc : t.peerConnectionRef = some pc) {env : Render}
    (henv : env.isNegotiating = t.isNegotiating) :
    (UseWebRTC.createOffer attempts env.localStream t).1
      = outcome attempts .offerCreated t (createOffer env pc) := by
  obtain ⟨pcr, flag, invoked, sent⟩ := t
  cases hpc
  rw [createOffer]
  cases env.localStream with
  | none => rfl
  | some stream =>
      dsimp only
      rw [henv]
      cases flag with
      | true => rfl
      | false =>
          show (UseWebRTC.tryNegotiating (UseWebRTC.addTracks stream pc
            ⟨some pc, true, invoked, sent⟩ >>= _)).1 = _
          rw [UseWebRTC.addTracks]
          cases hasTracksAdded pc with
          | true => exact offerCreated_follow attempts ⟨some pc, true, invoked, sent⟩
          | false =>
              simp only [Bool.false_eq_true, if_false]
              cases addTracksToConnection pc stream with
              | none => rfl
              | some pc' =>
                  exact offerCreated_follow attempts ⟨some pc', true, invoked, sent⟩

theorem handleOffer_outcome (hpc : t.peerConnectionRef = some pc) (env : Render)
    (message : Json) :
    (UseWebRTC.handleOffer attempts env.localStream message t).1
      = outcome attempts .remoteApplied t (handleOffer env message pc) := by
  obtain ⟨pcr, flag, invoked, sent⟩ := t
  cases hpc
  show (UseWebRTC.tryNegotiating (UseWebRTC.answerTracks env.localStream pc
    ⟨some pc, true, invoked, sent⟩ >>= _)).1 = _
  rw [handleOffer, UseWebRTC.answerTracks_eq rfl]
  cases tracksForOffer true env.localStream pc with
  | none => rfl
  | some pc' =>
      dsimp only
      cases (message.get "sdp").bind RTCSessionDescription with
      | none => rfl
      | some d => exact remoteApplied_follow attempts d ⟨some pc', true, invoked, sent⟩

theorem handleAnswer_outcome (hpc : t.peerConnectionRef = some pc) (message : Json) :
    UseWebRTC.handleAnswer attempts message t
      = outcome attempts .answered t (handleAnswer message pc) := by
  obtain ⟨pcr, flag, invoked, sent⟩ := t
  cases hpc
  rw [handleAnswer]
  show UseWebRTC.tryLogging (UseWebRTC.orThrow _ ((message.get "sdp").bind
    RTCSessionDescription) >>= _) = _
  cases (message.get "sdp").bind RTCSessionDescription with
  | none => rfl
  | some d =>
      show UseWebRTC.tryLogging (awaitOp (attempts 0) (.setRemoteDescription d)
        ⟨some pc, flag, invoked, sent⟩)
        = follow attempts 3 0 (.setRemoteDescription d) .answered ⟨some pc, flag, invoked, sent⟩
      rw [follow]
      cases awaitOp (attempts 0) (.setRemoteDescription d) ⟨some pc, flag, invoked, sent⟩ with
      | error t' => rfl
      | ok t' => rfl

theorem addIceCandidate_outcome (hpc : t.peerConnectionRef = some pc) (candidate : Js) :
    UseWebRTC.addIceCandidate attempts candidate t
      = outcome attempts .candidateAdded t (addIceCandidate candidate pc) := by
  obtain ⟨pcr, flag, invoked, sent⟩ := t
  cases hpc
  rw [addIceCandidate]
  show UseWebRTC.tryLogging (UseWebRTC.orThrow _ (RTCIceCandidate candidate) >>= _) = _
  cases RTCIceCandidate candidate with
  | none => rfl
  | some d =>
      show UseWebRTC.tryLogging (awaitOp (attempts 0) (.addIceCandidate d)
        ⟨some pc, flag, invoked, sent⟩)
        = follow attempts 3 0 (.addIceCandidate d) .candidateAdded
          ⟨some pc, flag, invoked, sent⟩
      rw [follow]
      cases awaitOp (attempts 0) (.addIceCandidate d) ⟨some pc, flag, invoked, sent⟩ with
      | error t' => rfl
      | ok t' => rfl

end Functions

/-! ## From the call to the end -/

section Runs

variable {c : Nat} {s s' : Hook} {t : Talk}

theorem left_le (call : Call) : left call ≤ 3 := by
  cases call <;> simp [left]

/-- A function that begins so comes to that. -/
theorem entered_shows (h : Shows c s [] t) {pc : Pc} (hopen : pc.signalingState ≠ .closed)
    {call : Call} {entry : Entry} (hsound : entry.Sound call pc) :
    Shows c (settles attempts c 3 0 (enter call c ⟨pc, []⟩ s entry)) []
      (outcome attempts call t entry) := by
  cases entry with
  | skipped =>
      show Shows c (settles attempts c 3 0 s) [] t
      rw [settles_idle attempts h]
      exact h
  | thrown pc' =>
      have hdone : Shows c (enter call c ⟨pc, []⟩ s (.thrown pc')) []
          (outcome attempts call t (.thrown pc')) := by
        refine h.changed pc' (by simp [enter]) (by simp [enter]) (by simp [enter]) rfl
          (fun hc => hopen (hsound.state.symm.trans hc)) ?_
        show (caught call (setConnection c _ (raise call s))).flag = _
        rw [flag_caught (by simpa using h.mounted), flag_setConnection, flag_raise h.mounted,
          h.flag]
        cases hr : call.raises <;> simp [outcome, hr]
      rw [settles_idle attempts hdone]
      exact hdone
  | awaits pc' op =>
      refine settles_follow attempts ?_ (left_le call)
      refine h.changed pc' (by simp [enter]) (by simp [enter]) (by simp [enter]) rfl
        (fun hc => hopen (hsound.1.state.symm.trans hc)) ?_
      show (setConnection c _ (raise call s)).flag = _
      rw [flag_setConnection, flag_raise h.mounted, h.flag]

/-- A call of the machine, left alone until it is done. -/
theorem called_shows (h : Shows c s [] t) {e : Event} (he : e.calls = true)
    (hst : step s e = some s') :
    ∃ pc call entry, t.peerConnectionRef = some pc ∧ called s pc e = some (call, entry) ∧
      Shows c (settles attempts c 3 0 s') [] (outcome attempts call t entry) := by
  obtain ⟨pc, hpc, hx, hopen⟩ := h.connection
  have href := WebRTCFlag.peerConnectionRef_eq h.current hx
  cases step_cases hst with
  | unready _ hnone =>
      rw [href] at hnone
      cases hnone
  | call href' hcall =>
      cases href.symm.trans href'
      exact ⟨pc, _, _, hpc, hcall, entered_shows attempts h hopen (called_sound hcall)⟩
  | render | flushEffects | rejected | fulfilled | iceConnectionState | unmount => cases he

/-- **`createOffer`**, called by a function of a render that knows the flag. -/
theorem createOffer_task (h : Shows c s [] t) {k : Nat} {env : Render}
    (hk : s.renders[k]? = some env) (henv : env.isNegotiating = t.isNegotiating)
    (hst : step s (.createOffer k) = some s') :
    Shows c (settles attempts c 3 0 s') []
      (UseWebRTC.createOffer attempts env.localStream t).1 := by
  obtain ⟨pc, call, entry, hpc, hcall, hshows⟩ := called_shows attempts h rfl hst
  rw [called, hk] at hcall
  cases hcall
  rw [createOffer_outcome attempts hpc henv]
  exact hshows

/-- **`handleOffer`**, likewise. -/
theorem handleOffer_task (h : Shows c s [] t) {k : Nat} {env : Render}
    (hk : s.renders[k]? = some env) {message : Json}
    (hst : step s (.handleOffer k message) = some s') :
    Shows c (settles attempts c 3 0 s') []
      (UseWebRTC.handleOffer attempts env.localStream message t).1 := by
  obtain ⟨pc, call, entry, hpc, hcall, hshows⟩ := called_shows attempts h rfl hst
  rw [called, hk] at hcall
  cases hcall
  rw [handleOffer_outcome attempts hpc env message]
  exact hshows

/-- **`handleAnswer`**, likewise. -/
theorem handleAnswer_task (h : Shows c s [] t) {message : Json}
    (hst : step s (.handleAnswer message) = some s') :
    Shows c (settles attempts c 3 0 s') [] (UseWebRTC.handleAnswer attempts message t) := by
  obtain ⟨pc, call, entry, hpc, hcall, hshows⟩ := called_shows attempts h rfl hst
  cases hcall
  rw [handleAnswer_outcome attempts hpc message]
  exact hshows

/-- **`addIceCandidate`**, likewise. -/
theorem addIceCandidate_task (h : Shows c s [] t) {candidate : Js}
    (hst : step s (.addIceCandidate candidate) = some s') :
    Shows c (settles attempts c 3 0 s') []
      (UseWebRTC.addIceCandidate attempts candidate t) := by
  obtain ⟨pc, call, entry, hpc, hcall, hshows⟩ := called_shows attempts h rfl hst
  cases hcall
  rw [addIceCandidate_outcome attempts hpc candidate]
  exact hshows

end Runs

end Tasks

end WebRTCTasks
