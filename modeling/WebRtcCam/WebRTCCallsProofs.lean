import WebRtcCam.HookEffectsProofs
import WebRtcCam.UseWebRTCProofs

/-! # The calls of `useWebRTC`

    The four functions the hook returns are asynchronous.  Each of them reads
    `peerConnectionRef` when it is called and awaits operations of that connection, which
    go on in the order they were invoked; in between other functions are called, the hook
    renders, and its effect may replace the connection.  `localStream` and `isNegotiating`
    are those of the render that made the function.

    A closed connection fulfils nothing any more, and fires no event.

    * `step_cases` — what each event does;
    * `refines` — without the calls it is the hook of `HookEffects`. -/

namespace WebRTCCalls

open LtsRun ReactFiber CamWire JsonText RtcSignaling
open CamPage (hasTracksAdded addTracksToConnection tracksForOffer RTCSessionDescription
  RTCIceCandidate)
open HookEffects (WebRTCProps WebRTCVars WebRTCUpdate webRTCApply useWebRTC)

/-! ## The hook with its calls -/

/-- The options: the stream, and what the effect depends on. -/
structure Options where
  localStream : Option Stream
  deps : WebRTCProps
  deriving DecidableEq

/-- What the functions of one render hold. -/
structure Render where
  localStream : Option Stream
  isNegotiating : Bool
  deriving DecidableEq

/-- Where a suspended call goes on. -/
inductive Call where
  | offerCreated
  | offerApplied (offer : Desc)
  | remoteApplied
  | answerCreated
  | answerApplied (answer : Desc)
  | answered
  | candidateAdded
  deriving DecidableEq, Repr

/-- `createOffer` and `handleOffer` raise the flag when they begin, and lower it in their
    `catch`. -/
def Call.raises : Call → Bool
  | .answered => false
  | .candidateAdded => false
  | _ => true

/-- A connection and its operations that have not settled, with the calls that await
    them. -/
structure Connection where
  pc : Pc
  chain : List (PcOp Json × Call)
  deriving DecidableEq

structure Hook where
  mounted : Bool
  fiber : Fiber WebRTCVars WebRTCUpdate Options
  connections : List Connection
  /-- The connection in `peerConnectionRef`. -/
  current : Option Nat
  renders : List Render
  deriving DecidableEq

/-- The functions are called as those of render number `k`; what a function does not read
    of its render is left out. -/
inductive Event where
  | render (options : Options)
  | flushEffects
  | createOffer (k : Nat)
  | handleOffer (k : Nat) (message : Json)
  | handleAnswer (message : Json)
  | addIceCandidate (candidate : Js)
  | settle (i : Nat) (o : Outcome)
  | iceConnectionState (state : String)
  | unmount
  deriving DecidableEq

/-! ## The functions, up to their first `await` -/

/-- A function returns at once, or throws inside its `try`, or awaits an operation; in
    the meantime it may have added tracks. -/
inductive Entry where
  | skipped
  | thrown (pc : Pc)
  | awaits (pc : Pc) (op : PcOp Json)
  deriving DecidableEq

/-- `createOffer`. -/
def createOffer (env : Render) (pc : Pc) : Entry :=
  match env.localStream with
  | none => .skipped
  | some stream =>
      if env.isNegotiating then .skipped
      else
        match (if hasTracksAdded pc then some pc else addTracksToConnection pc stream) with
        | none => .thrown pc
        | some pc' => .awaits pc' .createOffer

/-- `handleOffer`. -/
def handleOffer (env : Render) (message : Json) (pc : Pc) : Entry :=
  match tracksForOffer true env.localStream pc with
  | none => .thrown pc
  | some pc' =>
      match (message.get "sdp").bind RTCSessionDescription with
      | none => .thrown pc'
      | some d => .awaits pc' (.setRemoteDescription d)

/-- `handleAnswer`. -/
def handleAnswer (message : Json) (pc : Pc) : Entry :=
  match (message.get "sdp").bind RTCSessionDescription with
  | none => .thrown pc
  | some d => .awaits pc (.setRemoteDescription d)

/-- `addIceCandidate`. -/
def addIceCandidate (candidate : Js) (pc : Pc) : Entry :=
  match RTCIceCandidate candidate with
  | none => .thrown pc
  | some c => .awaits pc (.addIceCandidate c)

/-! ## Steps -/

/-- Setters are called; those of a component that is gone do nothing. -/
@[simps] def update (us : List WebRTCUpdate) (s : Hook) : Hook :=
  { s with fiber := if s.mounted then s.fiber.set us else s.fiber }

/-- The connections are numbered. -/
@[simps] def setConnection (i : Nat) (x : Connection) (s : Hook) : Hook :=
  { s with connections := s.connections.set i x }

/-- `peerConnectionRef.current`, with its number. -/
def Hook.peerConnectionRef (s : Hook) : Option (Nat × Connection) :=
  s.current.bind (fun c => (s.connections[c]?).map (fun x => (c, x)))

/-- `setIsNegotiating(true)` in the functions that do so. -/
def raise (call : Call) (s : Hook) : Hook :=
  if call.raises then update [.setIsNegotiating true] s else s

/-- The `catch`, which lowers the flag or only logs. -/
def caught (call : Call) (s : Hook) : Hook :=
  if call.raises then update [.setIsNegotiating false] s else s

/-- A function is called, and goes on as `call` after its first `await`. -/
def enter (call : Call) (c : Nat) (x : Connection) (s : Hook) : Entry → Hook
  | .skipped => s
  | .thrown pc => caught call (setConnection c ⟨pc, x.chain⟩ (raise call s))
  | .awaits pc op => setConnection c ⟨pc, x.chain ++ [(op, call)]⟩ (raise call s)

/-- The function called by an event, applied to the connection. -/
def called (s : Hook) (pc : Pc) : Event → Option (Call × Entry)
  | .createOffer k =>
      (s.renders[k]?).map (fun env => (.offerCreated, createOffer env pc))
  | .handleOffer k message =>
      (s.renders[k]?).map (fun env => (.remoteApplied, handleOffer env message pc))
  | .handleAnswer message => some (.answered, handleAnswer message pc)
  | .addIceCandidate candidate => some (.candidateAdded, addIceCandidate candidate pc)
  | _ => none

/-- The events that call a function. -/
def Event.calls : Event → Bool
  | .createOffer _ => true
  | .handleOffer _ _ => true
  | .handleAnswer _ => true
  | .addIceCandidate _ => true
  | _ => false

/-- The next operation of a call whose operation was fulfilled, and the call that awaits
    it; a call that is done has none. -/
def Call.next (sdp : String) : Call → Option (PcOp Json × Call)
  | .offerCreated => some (.setLocalDescription ⟨.offer, sdp⟩, .offerApplied ⟨.offer, sdp⟩)
  | .offerApplied _ => none
  | .remoteApplied => some (.createAnswer, .answerCreated)
  | .answerCreated =>
      some (.setLocalDescription ⟨.answer, sdp⟩, .answerApplied ⟨.answer, sdp⟩)
  | .answerApplied _ => none
  | .answered => none
  | .candidateAdded => none

/-- `pc.onsignalingstatechange`, once for each announced state. -/
def onsignalingstatechange (states : List SignalingState) (s : Hook) : Hook :=
  if .stable ∈ states then update [.setIsNegotiating false] s else s

/-- The oldest operation of connection `i` settles. -/
def settle (i : Nat) (o : Outcome) (s : Hook) : Option Hook :=
  match s.connections[i]? with
  | some ⟨pc, (op, call) :: rest⟩ =>
      match o with
      | .rejected => some (caught call (setConnection i ⟨pc, rest⟩ s))
      | .fulfilled sdp sections =>
          if pc.signalingState = .closed then none
          else
            (pc.perform sections op).map (fun r =>
              onsignalingstatechange r.2
                (setConnection i ⟨r.1, rest ++ (call.next sdp).toList⟩ s))
  | _ => none

/-- `pc.close()` in the cleanup of the effect. -/
def closeCurrent (current : Option Nat) (connections : List Connection) : List Connection :=
  match current with
  | some c => connections.modify c (fun x => { x with pc := x.pc.close })
  | none => connections

/-- The first render has been committed. -/
def mount (options : Options) : Hook where
  mounted := true
  fiber := .first ⟨"new", false⟩ options
  connections := []
  current := none
  renders := [⟨options.localStream, false⟩]

/-- The variables of the next render. -/
def Hook.next (s : Hook) : WebRTCVars := s.fiber.next webRTCApply

/-- Another render is committed. -/
@[simps] def rendered (options : Options) (s : Hook) : Hook :=
  { s with
    fiber := s.fiber.commit webRTCApply (fun p _ => p.deps) options
    renders := s.renders ++ [⟨options.localStream, s.next.isNegotiating⟩] }

/-- The cleanup of the last run and the next run of the effect. -/
@[simps] def runEffect (s : Hook) : Hook :=
  { s with
    fiber := s.fiber.flushed
    connections := closeCurrent s.current s.connections ++ [⟨.new, []⟩]
    current := some s.connections.length }

/-- The hook is unmounted; the reference keeps the closed connection. -/
@[simps] def unmounted (s : Hook) : Hook :=
  { s with mounted := false, connections := closeCurrent s.current s.connections }

def step (s : Hook) : Event → Option Hook
  | .render options => if s.mounted && !s.fiber.due then some (rendered options s) else none
  | .flushEffects => if s.mounted && s.fiber.due then some (runEffect s) else none
  | .settle i o => settle i o s
  | .iceConnectionState state => some (update [.setConnectionState state] s)
  | .unmount => if s.mounted && !s.fiber.due then some (unmounted s) else none
  | e =>
      match s.peerConnectionRef with
      | none => some s
      | some (c, x) => (called s x.pc e).map (fun p => enter p.1 c x s p.2)

/-- The hook as a transition system. -/
def hook : Lts Hook Event where
  init := fun s => ∃ options, s = mount options
  step := step

/-- What each event does. -/
inductive Step (s : Hook) : Event → Hook → Prop where
  | render {options : Options} (hm : s.mounted = true) (hdue : s.fiber.due = false) :
      Step s (.render options) (rendered options s)
  | flushEffects (hm : s.mounted = true) (hdue : s.fiber.due = true) :
      Step s .flushEffects (runEffect s)
  | unready {e : Event} (he : e.calls = true) (href : s.peerConnectionRef = none) : Step s e s
  | call {e : Event} {c : Nat} {x : Connection} {call : Call} {entry : Entry}
      (href : s.peerConnectionRef = some (c, x))
      (hcall : called s x.pc e = some (call, entry)) : Step s e (enter call c x s entry)
  | rejected {i : Nat} {pc : Pc} {op : PcOp Json} {call : Call}
      {rest : List (PcOp Json × Call)}
      (hi : s.connections[i]? = some ⟨pc, (op, call) :: rest⟩) :
      Step s (.settle i .rejected) (caught call (setConnection i ⟨pc, rest⟩ s))
  | fulfilled {i : Nat} {pc : Pc} {op : PcOp Json} {call : Call}
      {rest : List (PcOp Json × Call)} {sdp : String} {sections : List Kind} {pc' : Pc}
      {states : List SignalingState}
      (hi : s.connections[i]? = some ⟨pc, (op, call) :: rest⟩)
      (hopen : pc.signalingState ≠ .closed)
      (hperf : pc.perform sections op = some (pc', states)) :
      Step s (.settle i (.fulfilled sdp sections))
        (onsignalingstatechange states
          (setConnection i ⟨pc', rest ++ (call.next sdp).toList⟩ s))
  | iceConnectionState {state : String} :
      Step s (.iceConnectionState state) (update [.setConnectionState state] s)
  | unmount (hm : s.mounted = true) (hdue : s.fiber.due = false) :
      Step s .unmount (unmounted s)

/-- The calls. -/
theorem step_call {s s' : Hook} {e : Event} (he : e.calls = true)
    (h : (match s.peerConnectionRef with
      | none => some s
      | some (c, x) => (called s x.pc e).map (fun p => enter p.1 c x s p.2)) = some s') :
    Step s e s' := by
  cases href : s.peerConnectionRef with
  | none =>
      rw [href] at h
      cases h
      exact .unready he href
  | some cx =>
      rw [href] at h
      obtain ⟨⟨call, entry⟩, hcall, rfl⟩ := Option.map_eq_some_iff.mp h
      exact .call href hcall

theorem step_settle {s s' : Hook} {i : Nat} {o : Outcome} (h : settle i o s = some s') :
    Step s (.settle i o) s' := by
  rw [settle] at h
  split at h
  · next pc op call rest hi =>
      cases o with
      | rejected =>
          cases h
          exact .rejected hi
      | fulfilled sdp sections =>
          dsimp only at h
          split at h
          · cases h
          · next hopen =>
              obtain ⟨⟨pc', states⟩, hperf, rfl⟩ := Option.map_eq_some_iff.mp h
              exact .fulfilled hi hopen hperf
  · cases h

theorem step_cases {s s' : Hook} {e : Event} (h : step s e = some s') : Step s e s' := by
  cases e with
  | render options =>
      obtain ⟨hc, hs⟩ := Option.ite_none_right_eq_some.mp h
      cases hs
      obtain ⟨hm, hdue⟩ : s.mounted = true ∧ s.fiber.due = false := by simpa using hc
      exact .render hm hdue
  | flushEffects =>
      obtain ⟨hc, hs⟩ := Option.ite_none_right_eq_some.mp h
      cases hs
      obtain ⟨hm, hdue⟩ : s.mounted = true ∧ s.fiber.due = true := by simpa using hc
      exact .flushEffects hm hdue
  | settle i o => exact step_settle h
  | iceConnectionState state =>
      cases h
      exact .iceConnectionState
  | unmount =>
      obtain ⟨hc, hs⟩ := Option.ite_none_right_eq_some.mp h
      cases hs
      obtain ⟨hm, hdue⟩ : s.mounted = true ∧ s.fiber.due = false := by simpa using hc
      exact .unmount hm hdue
  | createOffer k => exact step_call rfl h
  | handleOffer k message => exact step_call rfl h
  | handleAnswer message => exact step_call rfl h
  | addIceCandidate candidate => exact step_call rfl h

/-! ## The flag -/

/-- `isNegotiating` in the next render. -/
def Hook.flag (s : Hook) : Bool := s.next.isNegotiating

section Flag

variable {s : Hook}

theorem next_update (hm : s.mounted = true) (us : List WebRTCUpdate) :
    (update us s).next = us.foldl webRTCApply s.next := by
  simp [Hook.next, hm]

theorem flag_raise (hm : s.mounted = true) (call : Call) :
    (raise call s).flag = (call.raises || s.flag) := by
  rw [raise, Hook.flag]
  cases call.raises with
  | true =>
      rw [if_pos rfl, next_update hm]
      rfl
  | false => rfl

theorem flag_caught (hm : s.mounted = true) (call : Call) :
    (caught call s).flag = (!call.raises && s.flag) := by
  rw [caught, Hook.flag]
  cases call.raises with
  | true =>
      rw [if_pos rfl, next_update hm]
      rfl
  | false => rfl

theorem flag_announced (hm : s.mounted = true) (states : List SignalingState) :
    (onsignalingstatechange states s).flag
      = (decide (.stable ∉ states) && s.flag) := by
  rw [onsignalingstatechange, Hook.flag]
  by_cases hst : .stable ∈ states
  · rw [if_pos hst, next_update hm, decide_eq_false (not_not_intro hst)]
    rfl
  · rw [if_neg hst, decide_eq_true hst]
    rfl

@[simp] theorem flag_setConnection (i : Nat) (x : Connection) :
    (setConnection i x s).flag = s.flag := rfl

end Flag

/-! ### What the setters leave alone -/

section Frame

variable (s : Hook) (call : Call) (states : List SignalingState)

@[simp] theorem raise_mounted : (raise call s).mounted = s.mounted := by
  rw [raise]; split <;> rfl

@[simp] theorem raise_connections : (raise call s).connections = s.connections := by
  rw [raise]; split <;> rfl

@[simp] theorem raise_current : (raise call s).current = s.current := by
  rw [raise]; split <;> rfl

@[simp] theorem caught_mounted : (caught call s).mounted = s.mounted := by
  rw [caught]; split <;> rfl

@[simp] theorem caught_connections : (caught call s).connections = s.connections := by
  rw [caught]; split <;> rfl

@[simp] theorem caught_current : (caught call s).current = s.current := by
  rw [caught]; split <;> rfl

@[simp] theorem announced_mounted :
    (onsignalingstatechange states s).mounted = s.mounted := by
  rw [onsignalingstatechange]; split <;> rfl

@[simp] theorem announced_connections :
    (onsignalingstatechange states s).connections = s.connections := by
  rw [onsignalingstatechange]; split <;> rfl

@[simp] theorem announced_current :
    (onsignalingstatechange states s).current = s.current := by
  rw [onsignalingstatechange]; split <;> rfl

end Frame

/-- A function that is called touches one connection, without closing it, and may leave a
    call of its own there. -/
theorem enter_cases (call : Call) (c : Nat) (x : Connection) (s : Hook) (entry : Entry) :
    (enter call c x s entry = s ∧ entry = .skipped) ∨
    (∃ pc, entry = .thrown pc ∧
      enter call c x s entry = caught call (setConnection c ⟨pc, x.chain⟩ (raise call s))) ∨
    ∃ pc op, entry = .awaits pc op ∧
      enter call c x s entry
        = setConnection c ⟨pc, x.chain ++ [(op, call)]⟩ (raise call s) := by
  cases entry with
  | skipped => exact Or.inl ⟨rfl, rfl⟩
  | thrown pc => exact Or.inr (Or.inl ⟨pc, rfl, rfl⟩)
  | awaits pc op => exact Or.inr (Or.inr ⟨pc, op, rfl, rfl⟩)

/-- No step mounts the hook again. -/
theorem mounted_before {s s' : Hook} {e : Event} (h : Step s e s')
    (hm' : s'.mounted = true) : s.mounted = true := by
  cases h with
  | render hm hdue => exact hm
  | flushEffects hm hdue => exact hm
  | unready he href => exact hm'
  | @call e c x call entry href hcall =>
      rcases enter_cases call c x s entry with ⟨heq, -⟩ | ⟨pc, -, heq⟩ | ⟨pc, op, -, heq⟩ <;>
        rw [heq] at hm'
      · exact hm'
      · simpa using hm'
      · simpa using hm'
  | rejected hx => simpa using hm'
  | fulfilled hx hopen hperf => simpa using hm'
  | iceConnectionState => exact hm'
  | unmount hm hdue => exact hm

/-! ## Calls and their operations -/

/-- The operation the call awaits. -/
def Call.awaits (op : PcOp Json) : Call → Prop
  | .offerCreated => op = .createOffer
  | .offerApplied offer => op = .setLocalDescription offer ∧ offer.type = .offer
  | .remoteApplied => ∃ d, op = .setRemoteDescription d
  | .answerCreated => op = .createAnswer
  | .answerApplied answer => op = .setLocalDescription answer ∧ answer.type = .answer
  | .answered => ∃ d, op = .setRemoteDescription d
  | .candidateAdded => ∃ c, op = .addIceCandidate c

/-- The connection a function leaves, and the operation it awaits, if it does. -/
def Entry.Sound (call : Call) (pc : Pc) : Entry → Prop
  | .skipped => True
  | .thrown pc' => SameSignaling pc pc'
  | .awaits pc' op => SameSignaling pc pc' ∧ call.awaits op

theorem createOffer_sound (env : Render) (pc : Pc) :
    (createOffer env pc).Sound .offerCreated pc := by
  rw [createOffer]
  split
  · trivial
  · next stream =>
      split
      · trivial
      · split
        · exact .refl pc
        · next pc' htracks =>
            refine ⟨?_, rfl⟩
            split at htracks
            · cases htracks
              exact .refl pc
            · exact addTracks_sameSignaling _ htracks

theorem handleOffer_sound (env : Render) (message : Json) (pc : Pc) :
    (handleOffer env message pc).Sound .remoteApplied pc := by
  rw [handleOffer]
  split
  · exact .refl pc
  · next pc' htracks =>
      have hsame := CamPage.tracksForOffer_sameSignaling htracks
      split
      · exact hsame
      · exact ⟨hsame, _, rfl⟩

theorem handleAnswer_sound (message : Json) (pc : Pc) :
    (handleAnswer message pc).Sound .answered pc := by
  rw [handleAnswer]
  split
  · exact .refl pc
  · exact ⟨.refl pc, _, rfl⟩

theorem addIceCandidate_sound (candidate : Js) (pc : Pc) :
    (addIceCandidate candidate pc).Sound .candidateAdded pc := by
  rw [addIceCandidate]
  split
  · exact .refl pc
  · exact ⟨.refl pc, _, rfl⟩

theorem called_sound {s : Hook} {pc : Pc} {e : Event} {call : Call} {entry : Entry}
    (h : called s pc e = some (call, entry)) : entry.Sound call pc := by
  cases e with
  | createOffer k =>
      obtain ⟨env, -, heq⟩ := Option.map_eq_some_iff.mp h
      cases heq
      exact createOffer_sound env pc
  | handleOffer k message =>
      obtain ⟨env, -, heq⟩ := Option.map_eq_some_iff.mp h
      cases heq
      exact handleOffer_sound env message pc
  | handleAnswer message =>
      cases h
      exact handleAnswer_sound message pc
  | addIceCandidate candidate =>
      cases h
      exact addIceCandidate_sound candidate pc
  | _ => cases h

theorem awaits_next {call call' : Call} {sdp : String} {op : PcOp Json}
    (h : call.next sdp = some (op, call')) : call'.awaits op := by
  cases call <;> cases h
  · exact ⟨rfl, rfl⟩
  · exact rfl
  · exact ⟨rfl, rfl⟩

/-- Every suspended call awaits an operation of its kind, and only the connection in the
    reference may be open. -/
structure Ordered (s : Hook) : Prop where
  awaits : ∀ (i : Nat) (x : Connection), s.connections[i]? = some x →
    ∀ p ∈ x.chain, p.2.awaits p.1
  closed : ∀ (i : Nat) (x : Connection), s.connections[i]? = some x →
    s.current ≠ some i → x.pc.signalingState = .closed

theorem peerConnectionRef_some {s : Hook} {c : Nat} {x : Connection}
    (h : s.peerConnectionRef = some (c, x)) :
    s.current = some c ∧ s.connections[c]? = some x := by
  obtain ⟨c', hc, h⟩ := Option.bind_eq_some_iff.mp h
  obtain ⟨x', hx, h⟩ := Option.map_eq_some_iff.mp h
  cases h
  exact ⟨hc, hx⟩

theorem set_cases {α : Type} {l : List α} {i j : Nat} {y x : α}
    (h : (l.set i y)[j]? = some x) : (j = i ∧ x = y) ∨ (j ≠ i ∧ l[j]? = some x) := by
  by_cases hj : i = j
  · subst hj
    obtain ⟨hlt, heq⟩ := List.getElem?_eq_some_iff.mp h
    rw [List.getElem_set_self] at heq
    exact Or.inl ⟨rfl, heq.symm⟩
  · rw [List.getElem?_set_ne hj] at h
    exact Or.inr ⟨Ne.symm hj, h⟩

/-- One connection is changed. -/
theorem ordered_set {s s' : Hook} (h : Ordered s) (i : Nat) (y : Connection)
    (hset : s'.connections = s.connections.set i y) (hcur : s'.current = s.current)
    (hy : ∀ p ∈ y.chain, p.2.awaits p.1)
    (hclosed : s.current ≠ some i → y.pc.signalingState = .closed) : Ordered s' := by
  constructor
  · intro j x hx
    rw [hset] at hx
    rcases set_cases hx with ⟨-, rfl⟩ | ⟨-, hx⟩
    · exact hy
    · exact h.awaits j x hx
  · intro j x hx hne
    rw [hcur] at hne
    rw [hset] at hx
    rcases set_cases hx with ⟨rfl, rfl⟩ | ⟨-, hx⟩
    · exact hclosed hne
    · exact h.closed j x hx hne

/-- After the cleanup every connection is closed. -/
theorem closed_all {s : Hook} (h : Ordered s) {i : Nat} {x : Connection}
    (hx : (closeCurrent s.current s.connections)[i]? = some x) :
    (∀ p ∈ x.chain, p.2.awaits p.1) ∧ x.pc.signalingState = .closed := by
  cases hc : s.current with
  | none =>
      rw [hc] at hx
      exact ⟨h.awaits i x hx, h.closed i x hx (by rw [hc]; exact fun hn => (by cases hn))⟩
  | some c =>
      rw [hc] at hx
      by_cases hi : c = i
      · rw [hi, closeCurrent, List.getElem?_modify_eq] at hx
        obtain ⟨y, hy, rfl⟩ := Option.map_eq_some_iff.mp hx
        exact ⟨h.awaits i y hy, rfl⟩
      · rw [closeCurrent, List.getElem?_modify_ne _ _ hi] at hx
        refine ⟨h.awaits i x hx, h.closed i x hx ?_⟩
        rw [hc]
        exact fun hn => hi (Option.some.inj hn)

theorem closeCurrent_length (current : Option Nat) (connections : List Connection) :
    (closeCurrent current connections).length = connections.length := by
  simp only [closeCurrent]
  cases current with
  | none => rfl
  | some c => exact List.length_modify ..

/-- Closing a connection settles nothing. -/
theorem closeCurrent_chain (current : Option Nat) {connections : List Connection} {i : Nat}
    {x : Connection} (hx : connections[i]? = some x) :
    ∃ y, (closeCurrent current connections)[i]? = some y ∧ y.chain = x.chain := by
  simp only [closeCurrent]
  cases current with
  | none => exact ⟨x, hx, rfl⟩
  | some c =>
      by_cases hci : c = i
      · subst hci
        refine ⟨{ x with pc := x.pc.close }, ?_, rfl⟩
        rw [List.getElem?_modify_eq, hx]
        rfl
      · exact ⟨x, by rw [List.getElem?_modify_ne _ _ hci]; exact hx, rfl⟩

theorem ordered_step {s s' : Hook} {e : Event} (h : Step s e s') (hi : Ordered s) :
    Ordered s' := by
  cases h with
  | render hm hdue => exact ⟨hi.awaits, hi.closed⟩
  | flushEffects hm hdue =>
      constructor
      · intro j x hx
        rw [runEffect_connections, List.getElem?_append] at hx
        split at hx
        · exact (closed_all hi hx).1
        · intro p hp
          cases List.mem_singleton.mp (List.mem_of_getElem? hx)
          cases hp
      · intro j x hx hne
        rw [runEffect_connections, List.getElem?_append] at hx
        split at hx
        · exact (closed_all hi hx).2
        · next hge =>
            obtain ⟨hlt, -⟩ := List.getElem?_eq_some_iff.mp hx
            rw [closeCurrent_length] at hge hlt
            rw [List.length_singleton] at hlt
            exact absurd (congrArg some (by omega)) hne
  | unready he href => exact hi
  | @call e c x call entry href hcall =>
      obtain ⟨hc, hx⟩ := peerConnectionRef_some href
      have hsound := called_sound hcall
      rcases enter_cases call c x s entry with ⟨heq, -⟩ | ⟨pc, rfl, heq⟩ | ⟨pc, op, rfl, heq⟩
      · rw [heq]
        exact hi
      · rw [heq]
        refine ordered_set hi c ⟨pc, x.chain⟩ (by simp) (by simp) (hi.awaits c x hx) ?_
        exact fun hne => absurd hc hne
      · rw [heq]
        refine ordered_set hi c ⟨pc, x.chain ++ [(op, call)]⟩ (by simp) (by simp) ?_ ?_
        · intro p hp
          rcases List.mem_append.mp hp with hp | hp
          · exact hi.awaits c x hx p hp
          · cases List.mem_singleton.mp hp
            exact hsound.2
        · exact fun hne => absurd hc hne
  | @rejected i pc op call rest hx =>
      refine ordered_set hi i ⟨pc, rest⟩ (by simp) (by simp) ?_ ?_
      · exact fun p hp => hi.awaits i _ hx p (List.mem_cons_of_mem _ hp)
      · exact fun hne => hi.closed i ⟨pc, (op, call) :: rest⟩ hx hne
  | @fulfilled i pc op call rest sdp sections pc' states hx hopen hperf =>
      refine ordered_set hi i ⟨pc', rest ++ (call.next sdp).toList⟩ (by simp) (by simp) ?_ ?_
      · intro p hp
        rcases List.mem_append.mp hp with hp | hp
        · exact hi.awaits i _ hx p (List.mem_cons_of_mem _ hp)
        · exact awaits_next (Option.mem_toList.mp hp)
      · exact fun hne => absurd (hi.closed i _ hx hne) hopen
  | iceConnectionState => exact ⟨hi.awaits, hi.closed⟩
  | unmount hm hdue =>
      exact ⟨fun j x hx => (closed_all hi hx).1, fun j x hx _ => (closed_all hi hx).2⟩

theorem ordered_reachable {s : Hook} (h : Reachable hook s) : Ordered s := by
  refine ReachVia.invariant (M := hook) (I := Ordered) (fun s hs => ?_)
    (fun s e s' _ hi _ hst => ordered_step (step_cases hst) hi) h
  obtain ⟨options, rfl⟩ := hs
  exact ⟨fun i x hx => (by cases hx), fun i x hx => (by cases hx)⟩

/-! ## Without the calls -/

/-- What `HookEffects` keeps of the fiber. -/
@[simps] def effectFiber (f : Fiber WebRTCVars WebRTCUpdate Options) :
    Fiber WebRTCVars WebRTCUpdate WebRTCProps :=
  ⟨f.vars, f.props.deps, f.queue, f.due⟩

/-- The hook of `HookEffects` in the same state. -/
structure Matches (s : Hook)
    (t : HookEffects.Hook WebRTCVars WebRTCUpdate WebRTCProps) : Prop where
  mounted : t.mounted = s.mounted
  fiber : t.fiber = effectFiber s.fiber
  current : s.mounted = true → t.current = s.current
  created : t.created = s.connections.length

/-- The hook of `HookEffects` can get into the same state. -/
def Refined (s : Hook) : Prop :=
  ∃ t, Reachable (HookEffects.hook useWebRTC) t ∧ Matches s t

/-- The setters of an event. -/
theorem refined_update {s : Hook} (h : Refined s) (o : HookEffects.WebRTCEvent) :
    Refined (update (HookEffects.webRTCUpdates o) s) := by
  obtain ⟨t, ht, hmatch⟩ := h
  cases hm : s.mounted with
  | false =>
      refine ⟨t, ht, hmatch.mounted, ?_, hmatch.current, hmatch.created⟩
      rw [update_fiber, hm]
      exact hmatch.fiber
  | true =>
      refine ⟨{ t with fiber := t.fiber.set (HookEffects.webRTCUpdates o) },
        .step (e := .outside o) ht trivial ?_, hmatch.mounted, ?_, hmatch.current,
        hmatch.created⟩
      · show HookEffects.step useWebRTC t (.outside o) = _
        rw [HookEffects.step, hmatch.mounted, hm]
        rfl
      · rw [update_fiber, hm, hmatch.fiber]
        rfl

theorem refined_raise {s : Hook} (h : Refined s) (call : Call) : Refined (raise call s) := by
  rw [raise]
  split
  · exact refined_update h .negotiationStarted
  · exact h

theorem refined_caught {s : Hook} (h : Refined s) (call : Call) :
    Refined (caught call s) := by
  rw [caught]
  split
  · exact refined_update h .negotiationFailed
  · exact h

theorem refined_announced {s : Hook} (h : Refined s) (states : List SignalingState) :
    Refined (onsignalingstatechange states s) := by
  rw [onsignalingstatechange]
  split
  · exact refined_update h (.onsignalingstatechange .stable)
  · exact h

theorem refined_setConnection {s : Hook} (h : Refined s) (i : Nat) (x : Connection) :
    Refined (setConnection i x s) := by
  obtain ⟨t, ht, hmatch⟩ := h
  refine ⟨t, ht, hmatch.mounted, hmatch.fiber, hmatch.current, ?_⟩
  rw [setConnection_connections, List.length_set]
  exact hmatch.created

theorem refined_step {s s' : Hook} {e : Event} (hst : Step s e s') (h : Refined s) :
    Refined s' := by
  cases hst with
  | @render options hm hdue =>
      obtain ⟨t, ht, hmatch⟩ := h
      refine ⟨HookEffects.commitFor useWebRTC .other options.deps t,
        .step (e := .parentRender options.deps) ht trivial ?_, hmatch.mounted, ?_,
        hmatch.current, hmatch.created⟩
      · show HookEffects.step useWebRTC t (.parentRender options.deps) = _
        rw [HookEffects.step, hmatch.mounted, hmatch.fiber, hm, effectFiber_due, hdue]
        rfl
      · rw [HookEffects.commitFor_fiber, hmatch.fiber]
        rfl
  | flushEffects hm hdue =>
      obtain ⟨t, ht, hmatch⟩ := h
      refine ⟨HookEffects.runEffect useWebRTC t,
        .step (e := .flushEffects) ht trivial ?_, hmatch.mounted, ?_, fun _ => ?_, ?_⟩
      · show HookEffects.step useWebRTC t .flushEffects = _
        rw [HookEffects.step, hmatch.mounted, hmatch.fiber, hm, effectFiber_due, hdue]
        rfl
      · rw [HookEffects.runEffect_fiber, hmatch.fiber]
        simp [useWebRTC, effectFiber, Fiber.set, Fiber.flushed]
      · rw [HookEffects.runEffect_current, hmatch.created, runEffect_current]
      · rw [HookEffects.runEffect_created, hmatch.created, runEffect_connections,
          List.length_append, closeCurrent_length]
        rfl
  | unready he href => exact h
  | @call e c x call entry href hcall =>
      rcases enter_cases call c x s entry with ⟨heq, -⟩ | ⟨pc, -, heq⟩ | ⟨pc, op, -, heq⟩
      · rw [heq]
        exact h
      · rw [heq]
        exact refined_caught (refined_setConnection (refined_raise h call) c _) call
      · rw [heq]
        exact refined_setConnection (refined_raise h call) c _
  | @rejected i pc op call rest hx =>
      exact refined_caught (refined_setConnection h i _) call
  | @fulfilled i pc op call rest sdp sections pc' states hx hopen hperf =>
      exact refined_announced (refined_setConnection h i _) states
  | @iceConnectionState state => exact refined_update h (.oniceconnectionstatechange state)
  | unmount hm hdue =>
      obtain ⟨t, ht, hmatch⟩ := h
      refine ⟨_, .step (e := .unmount) ht trivial
        (show HookEffects.step useWebRTC t .unmount = some
          { t with mounted := false, current := none, closed := t.closed ++ t.current.toList }
          from ?_), rfl, hmatch.fiber, fun hm' => ?_, ?_⟩
      · rw [HookEffects.step, hmatch.mounted, hmatch.fiber, hm, effectFiber_due, hdue]
        rfl
      · cases hm'
      · rw [unmounted_connections, closeCurrent_length]
        exact hmatch.created

/-- **REFINEMENT**: a state with its calls is one of the hook of `HookEffects`. -/
theorem refines {s : Hook} (h : Reachable hook s) : Refined s := by
  refine ReachVia.invariant (M := hook) (I := Refined) (fun s hs => ?_)
    (fun s e s' _ hi _ hst => refined_step (step_cases hst) hi) h
  obtain ⟨options, rfl⟩ := hs
  exact ⟨HookEffects.mount useWebRTC options.deps, .init ⟨options.deps, rfl⟩,
    rfl, rfl, fun _ => rfl, rfl⟩

end WebRTCCalls
