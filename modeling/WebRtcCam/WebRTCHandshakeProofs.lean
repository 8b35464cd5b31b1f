import WebRtcCam.CamHonestProofs
import WebRtcCam.WebRTCTasksProofs

/-! # Two hooks come to an agreement

    What one hook offers another can answer, and the first can apply the answer.  A call
    that is left alone until its operations have settled comes to what it comes to at once.
    But nobody waits for that: candidates come in while a call is suspended, the hook
    renders, and the button may be pressed again.

    * `task_agrees` — a call in steps and at once;
    * `at_step` — what becomes of a suspended call while the hook goes on;
    * `Survives` — what is true of a call whatever its operations come to;
    * `handshake` — an offer, its answer, and the answer applied leave both connections
      stable with the same two descriptions. -/

namespace WebRTCHandshake

open LtsRun JsonText CamWire RtcSignaling WebRTCCalls WebRTCTasks
open CamPage (descJson RTCSessionDescription RTCIceCandidate)
open CamHonest (RTCSessionDescription_descJson)
open WebRTCFlag (runOf optionsOf)
open UseWebRTC (Talk Attempt)

/-! ## One call -/

/-- The function that an event calls, run to its end at once. -/
def atOnce (attempts : Nat → Attempt) (s : Hook) (t : Talk) : Event → Option Talk
  | .createOffer k =>
      (s.renders[k]?).map (fun env => (UseWebRTC.createOffer attempts env.localStream t).1)
  | .handleOffer k message =>
      (s.renders[k]?).map (fun env =>
        (UseWebRTC.handleOffer attempts env.localStream message t).1)
  | .handleAnswer message => some (UseWebRTC.handleAnswer attempts message t)
  | .addIceCandidate candidate => some (UseWebRTC.addIceCandidate attempts candidate t)
  | _ => none

/-- `createOffer` reads the flag of the render it is from; that is to be the flag there
    is. -/
def UpToDate (s : Hook) : Event → Prop
  | .createOffer k => ∀ env, s.renders[k]? = some env → env.isNegotiating = s.flag
  | _ => True

section Calls

variable {c : Nat} {s s' : Hook} {t : Talk}

/-- **AT ONCE OR IN STEPS**: a function of the hook that is called while nothing else is
    suspended, and left alone until its operations have settled, whichever of them are
    rejected, leaves the connection and the flag as it does when it runs to its end at
    once. -/
theorem task_agrees (h : Shows c s [] t) (attempts : Nat → Attempt) {e : Event}
    (he : e.calls = true) (hup : UpToDate s e) (hst : step s e = some s') :
    ∃ t', atOnce attempts s t e = some t' ∧ Shows c (settles attempts c 3 0 s') [] t' := by
  cases e with
  | createOffer k =>
      obtain ⟨pc, call, entry, -, hcall, -⟩ := called_shows attempts h he hst
      obtain ⟨env, hk, -⟩ := Option.map_eq_some_iff.mp hcall
      refine ⟨_, by rw [atOnce, hk]; rfl, ?_⟩
      exact createOffer_task attempts h hk ((hup env hk).trans h.flag) hst
  | handleOffer k message =>
      obtain ⟨pc, call, entry, -, hcall, -⟩ := called_shows attempts h he hst
      obtain ⟨env, hk, -⟩ := Option.map_eq_some_iff.mp hcall
      exact ⟨_, by rw [atOnce, hk]; rfl, handleOffer_task attempts h hk hst⟩
  | handleAnswer message => exact ⟨_, rfl, handleAnswer_task attempts h hst⟩
  | addIceCandidate candidate => exact ⟨_, rfl, addIceCandidate_task attempts h hst⟩
  | render | flushEffects | settle | iceConnectionState | unmount => cases he

/-- A hook with a camera and its first connection. -/
def ready : Hook := runOf [.flushEffects]

theorem ready_shows : Shows 0 ready [] ⟨some .new, false, [], []⟩ :=
  ⟨by decide +kernel, by decide +kernel, ⟨.new, rfl, by decide +kernel, by decide⟩,
    by decide +kernel⟩

theorem ready_render : ready.renders[0]? = some ⟨some CamGuard.camera, false⟩ := by
  decide +kernel

/-- The state one more event leads to. -/
def stepped (s : Hook) (e : Event) : Hook := LtsRun.after hook s [e]

/-- Every operation is fulfilled, and a description that is created reads so. -/
def fulfilling (sdp : String) (_ : Nat) : Attempt := ⟨true, sdp, []⟩

theorem task_agrees_sample :
    ∃ t', atOnce (fulfilling "1") ready ⟨some .new, false, [], []⟩ (.createOffer 0) = some t' ∧
      Shows 0 (settles (fulfilling "1") 0 3 0 (stepped ready (.createOffer 0))) [] t' :=
  task_agrees ready_shows (fulfilling "1") (e := .createOffer 0) rfl
    (fun env henv => by
      cases ready_render.symm.trans henv
      decide +kernel)
    (by decide +kernel)

end Calls

/-! ## A call while the hook goes on -/

/-- What a call has come to: it has returned a description, or has applied an answer. -/
inductive Done where
  | returned (d : Desc)
  | applied
  deriving DecidableEq, Repr

/-- What a call has come to when its operation is fulfilled and it awaits no other. -/
def Call.done : Call → Option Done
  | .offerApplied offer => some (.returned offer)
  | .answerApplied answer => some (.returned answer)
  | .answered => some .applied
  | _ => none

/-- What the calls on connection `c` have come to by a step. -/
def done (c : Nat) (s : Hook) : Event → List Done
  | .settle i (.fulfilled _ _) =>
      if i = c then
        match s.connections[i]? with
        | some ⟨_, (_, call) :: _⟩ => (Call.done call).toList
        | _ => []
      else []
  | _ => []

/-- The step leaves a negotiation alone: no other function gets to the connection but
    `addIceCandidate` and a `createOffer` that returns at once, and the connection is not
    replaced or closed.  Operations settle as they like. -/
def undisturbed (s : Hook) : Event → Bool
  | .createOffer k =>
      (s.renders[k]?).all (fun env => env.localStream.isNone || env.isNegotiating)
  | .handleOffer _ _ => false
  | .handleAnswer _ => false
  | .flushEffects => false
  | .unmount => false
  | _ => true

/-- The call of `addIceCandidate`. -/
def isCandidate : PcOp Json × Call → Bool
  | (.addIceCandidate _, .candidateAdded) => true
  | _ => false

/-- The connection in the reference, and its only suspended call that is not about a
    candidate. -/
structure At (c : Nat) (s : Hook) (pc : Pc) (main : Option (PcOp Json × Call)) : Prop where
  mounted : s.mounted = true
  current : s.current = some c
  connection : ∃ chain, s.connections[c]? = some ⟨pc, chain⟩ ∧
    chain.filter (fun p => !isCandidate p) = main.toList

section Steps

variable {c : Nat} {s s' : Hook} {pc : Pc} {main : Option (PcOp Json × Call)} {e : Event}

/-- The connection is changed. -/
theorem At.changed {pc' : Pc} {main' : Option (PcOp Json × Call)} (h : At c s pc main)
    (chain : List (PcOp Json × Call)) (hm : s'.mounted = s.mounted) (hc : s'.current = s.current)
    (hset : s'.connections = s.connections.set c ⟨pc', chain⟩)
    (hmain : chain.filter (fun p => !isCandidate p) = main'.toList) : At c s' pc' main' := by
  obtain ⟨chain₀, hx, -⟩ := h.connection
  obtain ⟨hlt, -⟩ := List.getElem?_eq_some_iff.mp hx
  refine ⟨hm.trans h.mounted, hc.trans h.current, chain, ?_, hmain⟩
  rw [hset]
  exact List.getElem?_set_self hlt

/-- Another connection is changed. -/
theorem At.beside {i : Nat} (h : At c s pc main) (hi : i ≠ c) (y : Connection)
    (hm : s'.mounted = s.mounted) (hc : s'.current = s.current)
    (hset : s'.connections = s.connections.set i y) : At c s' pc main := by
  obtain ⟨chain, hx, hmain⟩ := h.connection
  refine ⟨hm.trans h.mounted, hc.trans h.current, chain, ?_, hmain⟩
  rw [hset, List.getElem?_set_ne hi]
  exact hx

/-- What becomes of the call. -/
inductive Goes (c : Nat) (s : Hook) (pc : Pc) (main : Option (PcOp Json × Call)) (e : Event)
    (s' : Hook) : Prop where
  | still (hat : At c s' pc main) (hdone : done c s e = [])
      (hflag : s'.flag = s.flag ∨ s'.flag = false) : Goes c s pc main e s'
  | rejected {p : PcOp Json × Call} (hmain : main = some p) (hat : At c s' pc none)
      (hdone : done c s e = []) (hflag : s'.flag = s.flag ∨ s'.flag = false) :
      Goes c s pc main e s'
  | fulfilled (sdp : String) {op : PcOp Json} {call : Call} {sections : List Kind} {pc' : Pc}
      {states : List SignalingState} (hmain : main = some (op, call))
      (hperf : pc.perform sections op = some (pc', states)) (hat : At c s' pc' (call.next sdp))
      (hdone : done c s e = (Call.done call).toList)
      (hflag : s'.flag = (decide (.stable ∉ states) && s.flag)) : Goes c s pc main e s'

/-- The oldest operation is about a candidate, or it is that of the call. -/
theorem head_cases {op : PcOp Json} {call : Call} {rest : List (PcOp Json × Call)}
    (h : ((op, call) :: rest).filter (fun p => !isCandidate p) = main.toList) :
    ((∃ candidate, op = .addIceCandidate candidate) ∧ call = .candidateAdded ∧
        rest.filter (fun p => !isCandidate p) = main.toList) ∨
      (main = some (op, call) ∧ rest.filter (fun p => !isCandidate p) = []) := by
  rw [List.filter_cons] at h
  split at h
  · next hno =>
      cases main with
      | none => cases h
      | some p =>
          obtain ⟨hp, hrest⟩ := List.cons.inj h
          exact Or.inr ⟨congrArg some hp.symm, hrest⟩
  · next hc =>
      refine Or.inl ?_
      simp only [isCandidate] at hc
      split at hc
      · next heq =>
          cases heq
          exact ⟨⟨_, rfl⟩, rfl, h⟩
      · exact absurd rfl hc

theorem next_not_candidate (sdp : String) (call : Call) :
    (call.next sdp).toList.filter (fun p => !isCandidate p) = (call.next sdp).toList := by
  cases call <;> rfl

theorem caught_flag (hm : s.mounted = true) (call : Call) :
    (caught call s).flag = s.flag ∨ (caught call s).flag = false := by
  rw [flag_caught hm]
  cases call.raises
  · exact Or.inl rfl
  · exact Or.inr rfl

/-- An operation is rejected. -/
theorem goes_rejected (h : At c s pc main) {i : Nat} {x : Pc} {op : PcOp Json} {call : Call}
    {rest : List (PcOp Json × Call)} (hi : s.connections[i]? = some ⟨x, (op, call) :: rest⟩) :
    Goes c s pc main (.settle i .rejected) (caught call (setConnection i ⟨x, rest⟩ s)) := by
  have hflag := caught_flag (s := setConnection i ⟨x, rest⟩ s) h.mounted call
  by_cases hic : i = c
  · subst hic
    obtain ⟨chain, hx, hmain⟩ := h.connection
    cases hi.symm.trans hx
    rcases head_cases hmain with ⟨-, -, hrest⟩ | ⟨hsome, hrest⟩
    · exact .still (h.changed rest (by simp) (by simp) (by simp) hrest) rfl hflag
    · exact .rejected hsome (h.changed rest (by simp) (by simp) (by simp) hrest) rfl hflag
  · exact .still (h.beside hic ⟨x, rest⟩ (by simp) (by simp) (by simp)) rfl hflag

/-- An operation is fulfilled. -/
theorem goes_fulfilled (h : At c s pc main) {i : Nat} {x x' : Pc} {op : PcOp Json} {call : Call}
    {rest : List (PcOp Json × Call)} {sdp : String} {sections : List Kind}
    {states : List SignalingState}
    (hi : s.connections[i]? = some ⟨x, (op, call) :: rest⟩)
    (hperf : x.perform sections op = some (x', states)) :
    Goes c s pc main (.settle i (.fulfilled sdp sections))
      (onsignalingstatechange states
        (setConnection i ⟨x', rest ++ (call.next sdp).toList⟩ s)) := by
  have hflag := flag_announced (s := setConnection i ⟨x', rest ++ (call.next sdp).toList⟩ s)
    h.mounted states
  by_cases hic : i = c
  · subst hic
    obtain ⟨chain, hx, hmain⟩ := h.connection
    cases hi.symm.trans hx
    have hdone : done i s (.settle i (.fulfilled sdp sections)) = (Call.done call).toList := by
      rw [done, if_pos rfl, hi]
    rcases head_cases hmain with ⟨⟨candidate, rfl⟩, rfl, hrest⟩ | ⟨hsome, hrest⟩
    · obtain ⟨rfl, rfl⟩ := perform_addIceCandidate hperf
      refine .still (h.changed (rest ++ []) (announced_mounted _ _) (announced_current _ _)
        (announced_connections _ _) ?_) hdone (Or.inl rfl)
      rw [List.append_nil]
      exact hrest
    · have hmain' : (rest ++ (call.next sdp).toList).filter (fun p => !isCandidate p)
          = (call.next sdp).toList := by
        rw [List.filter_append, hrest, List.nil_append, next_not_candidate]
      exact .fulfilled sdp hsome hperf (h.changed _ (by simp) (by simp) (by simp) hmain') hdone
        hflag
  · refine .still (h.beside hic ⟨x', rest ++ (call.next sdp).toList⟩ (by simp) (by simp)
      (by simp)) (if_neg hic) ?_
    rw [hflag]
    cases decide (.stable ∉ states)
    · exact Or.inr rfl
    · exact Or.inl rfl

/-- A candidate comes in, or the button is pressed in vain. -/
theorem goes_called (h : At c s pc main) (hc : undisturbed s e = true) {c' : Nat}
    {x : Connection} {call : Call} {entry : Entry} (href : s.peerConnectionRef = some (c', x))
    (hcall : called s x.pc e = some (call, entry)) :
    Goes c s pc main e (enter call c' x s entry) := by
  obtain ⟨hcur, hx⟩ := peerConnectionRef_some href
  cases h.current.symm.trans hcur
  obtain ⟨chain, hchain, hmain⟩ := h.connection
  cases hx.symm.trans hchain
  cases e with
  | createOffer k =>
      obtain ⟨env, hk, heq⟩ := Option.map_eq_some_iff.mp hcall
      cases heq
      have hskip : createOffer env pc = .skipped := by
        rw [undisturbed, hk, Option.all_some] at hc
        rw [createOffer]
        cases hstr : env.localStream with
        | none => rfl
        | some stream =>
            rw [hstr] at hc
            exact if_pos hc
      rw [hskip]
      exact .still h rfl (Or.inl rfl)
  | addIceCandidate candidate =>
      cases hcall
      rw [addIceCandidate]
      cases RTCIceCandidate candidate with
      | none =>
          exact .still (h.changed chain rfl rfl rfl hmain) rfl (Or.inl rfl)
      | some d =>
          refine .still (h.changed (chain ++ [(.addIceCandidate d, .candidateAdded)]) rfl rfl rfl
            ?_) rfl (Or.inl rfl)
          rw [List.filter_append, hmain]
          exact List.append_nil _
  | handleOffer | handleAnswer => cases hc
  | render | flushEffects | settle | iceConnectionState | unmount => cases hcall

/-- **ONE STEP** leaves the call where it is, or its operation has settled. -/
theorem at_step (h : At c s pc main) (hc : undisturbed s e = true)
    (hst : step s e = some s') : Goes c s pc main e s' := by
  cases step_cases hst with
  | render => exact .still ⟨h.mounted, h.current, h.connection⟩ rfl (Or.inl rfl)
  | flushEffects | unmount => cases hc
  | unready he href =>
      obtain ⟨chain, hx, -⟩ := h.connection
      rw [WebRTCFlag.peerConnectionRef_eq h.current hx] at href
      cases href
  | call href hcall => exact goes_called h hc href hcall
  | rejected hi => exact goes_rejected h hi
  | fulfilled hi _ hperf => exact goes_fulfilled h hi hperf
  | @iceConnectionState state =>
      refine .still ⟨h.mounted, h.current, h.connection⟩ rfl (Or.inl ?_)
      rw [Hook.flag, next_update h.mounted]
      rfl

end Steps

/-! ## What survives -/

/-- What is true of a call, the connection, what the call has come to and the flag,
    whatever its operations come to, and when the flag is lowered. -/
structure Survives
    (P : Pc → Option (PcOp Json × Call) → List Done → Bool → Prop) : Prop where
  lowered : ∀ {pc main l f}, P pc main l f → P pc main l false
  rejected : ∀ {pc p l f}, P pc (some p) l f → P pc none l f
  fulfilled : ∀ {pc op call l f sections pc' states} (sdp : String),
    P pc (some (op, call)) l f → pc.perform sections op = some (pc', states) →
      P pc' (call.next sdp) (l ++ (Call.done call).toList) (decide (.stable ∉ states) && f)

/-- It is true of the call on connection `c`. -/
def Holds (P : Pc → Option (PcOp Json × Call) → List Done → Bool → Prop) (c : Nat)
    (p : Hook × List Done) : Prop :=
  ∃ pc main, At c p.1 pc main ∧ P pc main p.2 p.1.flag

section Survive

variable {P : Pc → Option (PcOp Json × Call) → List Done → Bool → Prop} {c : Nat}

theorem Survives.flag (hP : Survives P) {pc : Pc} {main : Option (PcOp Json × Call)}
    {l : List Done} {f f' : Bool} (h : P pc main l f) (hf : f' = f ∨ f' = false) :
    P pc main l f' := by
  rcases hf with rfl | rfl
  · exact h
  · exact hP.lowered h

/-- **ALONG A RUN** it stays true. -/
theorem Survives.run (hP : Survives P) (es : List Event) {p p' : Hook × List Done}
    (h : Holds P c p)
    (hrun : execVia (logged hook (done c)) (fun p e => undisturbed p.1 e) p es = some p') :
    Holds P c p' := by
  refine run_keeps (I := Holds P c) (fun p e p' h hc hst => ?_) es h hrun
  obtain ⟨hstep, hlog⟩ := logged_step hst
  obtain ⟨pc, main, hat, hp⟩ := h
  cases at_step hat hc hstep with
  | still hat' hdone hflag =>
      refine ⟨pc, main, hat', ?_⟩
      rw [hlog, hdone, List.append_nil]
      exact hP.flag hp hflag
  | rejected hmain hat' hdone hflag =>
      subst hmain
      refine ⟨pc, none, hat', ?_⟩
      rw [hlog, hdone, List.append_nil]
      exact hP.flag (hP.rejected hp) hflag
  | @fulfilled sdp op call sections pc' states hmain hperf hat' hdone hflag =>
      subst hmain
      refine ⟨pc', call.next sdp, hat', ?_⟩
      rw [hlog, hdone, hflag]
      exact hP.fulfilled sdp hp hperf

end Survive

/-! ## The three calls -/

/-- The connection is stable with these descriptions. -/
structure Settled (pc : Pc) (localDesc remoteDesc : Desc) : Prop where
  state : pc.signalingState = .stable
  currentLocal : pc.currentLocal = some localDesc
  currentRemote : pc.currentRemote = some remoteDesc

/-- Where `createOffer` is: it has failed, or is on its way, or has left its offer
    pending. -/
inductive Offering : Pc → Option (PcOp Json × Call) → List Done → Bool → Prop where
  | failed {pc : Pc} {f : Bool} : Offering pc none [] f
  | creating {pc : Pc} {f : Bool} : Offering pc (some (.createOffer, .offerCreated)) [] f
  | setting {pc : Pc} {f : Bool} {o : Desc} (hty : o.type = .offer) :
      Offering pc (some (.setLocalDescription o, .offerApplied o)) [] f
  | offered {pc : Pc} {f : Bool} {o : Desc} (hty : o.type = .offer)
      (hstate : pc.signalingState = .haveLocalOffer) (hpend : pc.pendingLocal = some o) :
      Offering pc none [.returned o] f

theorem offering_survives : Survives Offering where
  lowered h := by
    cases h with
    | failed => exact .failed
    | creating => exact .creating
    | setting hty => exact .setting hty
    | offered hty hstate hpend => exact .offered hty hstate hpend
  rejected h := by
    cases h with
    | creating => exact .failed
    | setting => exact .failed
  fulfilled sdp h hperf := by
    cases h with
    | creating => exact .setting rfl
    | setting hty =>
        obtain ⟨hstate, hpend, -⟩ := perform_localOffer hty hperf
        exact .offered hty hstate hpend

/-- Where `handleOffer` is with the offer `o`. -/
inductive Answering (o : Desc) :
    Pc → Option (PcOp Json × Call) → List Done → Bool → Prop where
  | failed {pc : Pc} {f : Bool} : Answering o pc none [] f
  | applying {pc : Pc} {f : Bool} :
      Answering o pc (some (.setRemoteDescription o, .remoteApplied)) [] f
  | creating {pc : Pc} {f : Bool} (hpend : pc.pendingRemote = some o) :
      Answering o pc (some (.createAnswer, .answerCreated)) [] f
  | setting {pc : Pc} {f : Bool} {d : Desc} (hpend : pc.pendingRemote = some o)
      (hty : d.type = .answer) :
      Answering o pc (some (.setLocalDescription d, .answerApplied d)) [] f
  | answered {pc : Pc} {d : Desc} (hty : d.type = .answer) (hsettled : Settled pc d o) :
      Answering o pc none [.returned d] false

theorem answering_survives {o : Desc} (ho : o.type = .offer) : Survives (Answering o) where
  lowered h := by
    cases h with
    | failed => exact .failed
    | applying => exact .applying
    | creating hpend => exact .creating hpend
    | setting hpend hty => exact .setting hpend hty
    | answered hty hsettled => exact .answered hty hsettled
  rejected h := by
    cases h with
    | applying => exact .failed
    | creating => exact .failed
    | setting => exact .failed
  fulfilled sdp h hperf := by
    cases h with
    | applying =>
        obtain ⟨-, hpend, -⟩ := perform_remoteOffer ho hperf
        exact .creating hpend
    | creating hpend =>
        obtain ⟨rfl, -⟩ := perform_createAnswer hperf
        exact .setting hpend rfl
    | setting hpend hty =>
        obtain ⟨rfl, hstable, -⟩ := perform_localAnswer hty hperf
        rw [decide_eq_false (not_not_intro hstable)]
        exact .answered hty ⟨rfl, rfl, hpend⟩

/-- Where `handleAnswer` is with the answer `d` to the pending offer `o`. -/
inductive Applying (o d : Desc) :
    Pc → Option (PcOp Json × Call) → List Done → Bool → Prop where
  | failed {pc : Pc} {f : Bool} : Applying o d pc none [] f
  | applying {pc : Pc} {f : Bool} (hpend : pc.pendingLocal = some o) :
      Applying o d pc (some (.setRemoteDescription d, .answered)) [] f
  | applied {pc : Pc} (hsettled : Settled pc o d) : Applying o d pc none [.applied] false

theorem applying_survives {o d : Desc} (hd : d.type = .answer) : Survives (Applying o d) where
  lowered h := by
    cases h with
    | failed => exact .failed
    | applying hpend => exact .applying hpend
    | applied hsettled => exact .applied hsettled
  rejected h := by
    cases h with
    | applying => exact .failed
  fulfilled sdp h hperf := by
    cases h with
    | applying hpend =>
        obtain ⟨rfl, hstable, -⟩ := perform_remoteAnswer hd hperf
        rw [decide_eq_false (not_not_intro hstable)]
        exact .applied ⟨rfl, hpend, rfl⟩

section Begin

variable {c : Nat} {s s' : Hook} {pc : Pc} {e : Event}

/-- A function is called while nothing but candidates is suspended. -/
theorem At.called (h : At c s pc none) (he : e.calls = true) (hst : step s e = some s') :
    ∃ chain call entry, s.connections[c]? = some ⟨pc, chain⟩ ∧
      chain.filter (fun p => !isCandidate p) = [] ∧
      WebRTCCalls.called s pc e = some (call, entry) ∧
      s' = enter call c ⟨pc, chain⟩ s entry := by
  obtain ⟨chain, hx, hmain⟩ := h.connection
  have href := WebRTCFlag.peerConnectionRef_eq h.current hx
  cases step_cases hst with
  | unready _ hnone =>
      rw [href] at hnone
      cases hnone
  | call href' hcall =>
      cases href.symm.trans href'
      exact ⟨chain, _, _, hx, hmain, hcall, rfl⟩
  | render | flushEffects | rejected | fulfilled | iceConnectionState | unmount => cases he

section Enter

variable {chain : List (PcOp Json × Call)} (h : At c s pc none)
  (hmain : chain.filter (fun p => !isCandidate p) = []) (call : Call) (pc' : Pc)

include h hmain

theorem At.thrown : At c (enter call c ⟨pc, chain⟩ s (.thrown pc')) pc' none :=
  h.changed chain (by simp [enter]) (by simp [enter]) (by simp [enter]) hmain

theorem At.awaits {op : PcOp Json} (hno : isCandidate (op, call) = false) :
    At c (enter call c ⟨pc, chain⟩ s (.awaits pc' op)) pc' (some (op, call)) := by
  refine h.changed (chain ++ [(op, call)]) (by simp [enter]) (by simp [enter]) (by simp [enter]) ?_
  rw [List.filter_append, hmain, List.filter_cons_of_pos (by simp [hno])]
  rfl

end Enter

/-- `createOffer` begins. -/
theorem offering_begins (h : At c s pc none) {k : Nat} (hst : step s (.createOffer k) = some s') :
    Holds Offering c (s', []) := by
  obtain ⟨chain, call, entry, -, hmain, hcall, rfl⟩ := h.called rfl hst
  obtain ⟨env, -, heq⟩ := Option.map_eq_some_iff.mp hcall
  have hsound := called_sound hcall
  cases heq
  cases hentry : createOffer env pc with
  | skipped => exact ⟨pc, none, h, .failed⟩
  | thrown pc' => exact ⟨pc', none, h.thrown hmain .offerCreated pc', .failed⟩
  | awaits pc' op =>
      rw [hentry] at hsound
      obtain rfl : op = .createOffer := hsound.2
      exact ⟨pc', _, h.awaits hmain .offerCreated pc' rfl, .creating⟩

/-- `handleOffer` begins. -/
theorem answering_begins (h : At c s pc none) {k : Nat} {message : Json} {o : Desc}
    (hmsg : message.get "sdp" = some (descJson o))
    (hst : step s (.handleOffer k message) = some s') : Holds (Answering o) c (s', []) := by
  obtain ⟨chain, call, entry, -, hmain, hcall, rfl⟩ := h.called rfl hst
  obtain ⟨env, -, heq⟩ := Option.map_eq_some_iff.mp hcall
  cases heq
  rw [handleOffer, hmsg, Option.bind_some, RTCSessionDescription_descJson]
  cases CamPage.tracksForOffer true env.localStream pc with
  | none => exact ⟨pc, none, h.thrown hmain .remoteApplied pc, .failed⟩
  | some pc' => exact ⟨pc', _, h.awaits hmain .remoteApplied pc' rfl, .applying⟩

/-- `handleAnswer` begins. -/
theorem applying_begins (h : At c s pc none) {message : Json} {o d : Desc}
    (hpend : pc.pendingLocal = some o) (hmsg : message.get "sdp" = some (descJson d))
    (hst : step s (.handleAnswer message) = some s') : Holds (Applying o d) c (s', []) := by
  obtain ⟨chain, call, entry, -, hmain, hcall, rfl⟩ := h.called rfl hst
  cases hcall
  rw [handleAnswer, hmsg, Option.bind_some, RTCSessionDescription_descJson]
  exact ⟨pc, _, h.awaits hmain .answered pc rfl, .applying hpend⟩

end Begin

/-! ## Two hooks -/

/-- The connection in the reference is stable with these descriptions, nothing but
    candidates is suspended on it, and the flag is down. -/
structure Agreed (c : Nat) (s : Hook) (localDesc remoteDesc : Desc) : Prop where
  flag : s.flag = false
  connection : ∃ pc, At c s pc none ∧ Settled pc localDesc remoteDesc

section Handshake

variable {a b k j : Nat} {sA sA₁ sA₂ sA₃ sA₄ sB sB₁ sB₂ : Hook} {pcA pcB : Pc}
  {es fs gs : List Event} {o d : Desc} {offer answer : Json}

/-- **THE HANDSHAKE**: one hook's `createOffer` is called and returns an offer, another's
    `handleOffer` is called with it and returns an answer, and the first's `handleAnswer` is
    called with that and applies it; then the two connections are stable, each has the
    other's description beside its own, and both flags are down.  Nothing is asked of the
    state the connections were in, nor of the streams, and during and after every call the
    hooks go on: they render, candidates come in and are added or not, and a button that is
    pressed again gets nowhere. -/
theorem handshake (hA : At a sA pcA none) (hcreate : step sA (.createOffer k) = some sA₁)
    (hoffered : execVia (logged hook (done a)) (fun p e => undisturbed p.1 e) (sA₁, []) es
      = some (sA₂, [.returned o]))
    (hoffer : offer.get "sdp" = some (descJson o))
    (hB : At b sB pcB none) (hhandle : step sB (.handleOffer j offer) = some sB₁)
    (hanswered : execVia (logged hook (done b)) (fun p e => undisturbed p.1 e) (sB₁, []) fs
      = some (sB₂, [.returned d]))
    (hanswer : answer.get "sdp" = some (descJson d))
    (happly : step sA₂ (.handleAnswer answer) = some sA₃)
    (happlied : execVia (logged hook (done a)) (fun p e => undisturbed p.1 e) (sA₃, []) gs
      = some (sA₄, [.applied])) :
    Agreed a sA₄ o d ∧ Agreed b sB₂ d o := by
  obtain ⟨pc, _, hA₂, hoffering⟩ :=
    offering_survives.run es (offering_begins hA hcreate) hoffered
  cases hoffering with
  | offered hoty _ hpend =>
      obtain ⟨pcB', _, hB₂, hanswering⟩ :=
        (answering_survives hoty).run fs (answering_begins hB hoffer hhandle) hanswered
      generalize hflagB : (sB₂, [Done.returned d]).1.flag = f at hanswering
      cases hanswering with
      | answered hdty hsettledB =>
          obtain ⟨pcA', _, hA₄, happlying⟩ :=
            (applying_survives hdty).run gs (applying_begins hA₂ hpend hanswer happly) happlied
          generalize hflagA : (sA₄, [Done.applied]).1.flag = f at happlying
          cases happlying with
          | applied hsettledA =>
              exact ⟨⟨hflagA, pcA', hA₄, hsettledA⟩, ⟨hflagB, pcB', hB₂, hsettledB⟩⟩

end Handshake

/-- A message with a description. -/
def carrying (d : Desc) : Json := .obj [("sdp", descJson d)]

def someCandidate : Js := some (.obj [("candidate", .str ""), ("sdpMid", .str "0")])

/-- After `createOffer` has begun: a render, a candidate that comes too early, the button
    again, and the two operations. -/
def offeringRun : List Event :=
  [.render (optionsOf 0), .addIceCandidate someCandidate, .createOffer 1,
    .settle 0 (.fulfilled "1" []), .settle 0 .rejected, .settle 0 (.fulfilled "" []),
    .render (optionsOf 0)]

/-- After `handleOffer` has begun: a candidate among its three operations. -/
def answeringRun : List Event :=
  [.iceConnectionState "checking", .settle 0 (.fulfilled "" []),
    .addIceCandidate someCandidate, .settle 0 (.fulfilled "2" []),
    .settle 0 (.fulfilled "" []), .settle 0 (.fulfilled "" [])]

/-- After `handleAnswer` has begun: a candidate that is still being added at the end. -/
def applyingRun : List Event :=
  [.addIceCandidate someCandidate, .settle 0 (.fulfilled "" []), .render (optionsOf 0)]

/-- The hook after these events, with what its calls have come to. -/
def cameTo (s : Hook) (es : List Event) : Hook × List Done :=
  after (logged hook (done 0)) (s, []) es

def offering : Hook := stepped ready (.createOffer 0)
def offered : Hook := (cameTo offering offeringRun).1
def answering : Hook := stepped ready (.handleOffer 0 (carrying ⟨.offer, "1"⟩))
def answered : Hook := (cameTo answering answeringRun).1
def applying : Hook := stepped offered (.handleAnswer (carrying ⟨.answer, "2"⟩))

theorem ready_at : At 0 ready .new none :=
  ⟨by decide +kernel, by decide +kernel, [], by decide +kernel, rfl⟩

theorem handshake_sample :
    Agreed 0 (cameTo applying applyingRun).1 ⟨.offer, "1"⟩ ⟨.answer, "2"⟩ ∧
      Agreed 0 answered ⟨.answer, "2"⟩ ⟨.offer, "1"⟩ := by
  have hcreate : step ready (.createOffer 0) = some offering := by decide +kernel
  have hoffered : execVia (logged hook (done 0)) (fun p e => undisturbed p.1 e) (offering, [])
      offeringRun = some (offered, [.returned ⟨.offer, "1"⟩]) := by decide +kernel
  have hhandle : step ready (.handleOffer 0 (carrying ⟨.offer, "1"⟩)) = some answering := by
    decide +kernel
  have hanswered : execVia (logged hook (done 0)) (fun p e => undisturbed p.1 e) (answering, [])
      answeringRun = some (answered, [.returned ⟨.answer, "2"⟩]) := by decide +kernel
  have happly : step offered (.handleAnswer (carrying ⟨.answer, "2"⟩)) = some applying := by
    decide +kernel
  have happlied : execVia (logged hook (done 0)) (fun p e => undisturbed p.1 e) (applying, [])
      applyingRun = some ((cameTo applying applyingRun).1, [.applied]) := by decide +kernel
  exact handshake ready_at hcreate hoffered rfl ready_at hhandle hanswered rfl happly happlied

end WebRTCHandshake
