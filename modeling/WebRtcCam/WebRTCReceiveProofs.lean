import WebRtcCam.CamReceiveProofs
import WebRtcCam.WebRTCCallsProofs

/-! # What a relayed text can make the hooks throw

    `useSignaling` with the functions of `useWebRTC` as its callbacks: an offer goes to
    `handleOffer`, an answer to `handleAnswer`, and what a candidate message carries to
    `addIceCandidate`.  The functions are written with every exception, as those of the
    page are; nobody awaits them.

    * `handleOffer_step` and its siblings — with nothing but what the values make throw,
      these are the calls of `WebRTCCalls`;
    * `handleOffer_safe` and its siblings — nothing leaves them;
    * `receive_contained_iff` — the receive paths of both versions, for whatever the relay
      forwards: all that gets out is the log line of a client id. -/

namespace WebRTCReceive

open AsyncFunction JsonText CamWire RtcSignaling WebRTCCalls
open ReactFiber (Fiber)
open HookEffects (SignalingProps SignalingUpdate)
open CamPage (hasTracksAdded tracksForOffer RTCSessionDescription RTCIceCandidate printable)
open CamReceive (Site Faults noFaults textOf follows_last follows_more HidesToString)

/-! ## The functions -/

/-- A connection changes. -/
@[simps] def onConnection (c : Nat) (f : Connection → Connection) (s : Hook) : Hook :=
  { s with connections := s.connections.modify c f }

/-- An operation of a connection is invoked, and awaited by a call. -/
def await (c : Nat) (op : PcOp Json) (call : Call) : Hook → Hook :=
  onConnection c (fun x => { x with chain := x.chain ++ [(op, call)] })

section Functions

variable (faults : Faults) (env : Render) (message : Json) (candidate : Js)

/-- `if (!pc) return …; try { … } catch { … }`. -/
def withConnection {α : Type} (unready : α) (body : Nat → Connection → Prog Hook Outcome α)
    (handler : Prog Hook Outcome α) : Prog Hook Outcome α := do
  let s ← .get
  match s.peerConnectionRef with
  | none => pure unready
  | some (c, x) => (body c x).tryCatch handler

/-- `await pc.op()`. -/
def awaitOp (site : Site) (c : Nat) (op : PcOp Json) (call : Call) :
    Prog Hook Outcome String := do
  .fallible (faults site)
  .modify (await c op call)
  .settled textOf

/-- `if (localStream && !hasTracksAdded(pc)) addTracksToConnection(pc, localStream)`. -/
def addLocalTracks (stream : Option Stream) (c : Nat) (pc : Pc) :
    Prog Hook Outcome Unit := do
  .fallible (stream.isSome && faults .getSenders)
  .fallible (stream.isSome && !hasTracksAdded pc && faults .addTrack)
  let pc' ← .orThrow (tracksForOffer true stream pc)
  .modify (onConnection c (fun x => { x with pc := pc' }))

/-- The answer is set, and returned. -/
def applyAnswer (c : Nat) (answer : String) : Prog Hook Outcome (Option Desc) := do
  let _ ← awaitOp faults .setLocalDescription c (.setLocalDescription ⟨.answer, answer⟩)
    (.answerApplied ⟨.answer, answer⟩)
  pure (some ⟨.answer, answer⟩)

/-- An offer that was applied is answered. -/
def answerOffer (c : Nat) : Prog Hook Outcome (Option Desc) := do
  let answer ← awaitOp faults .createAnswer c .createAnswer .answerCreated
  applyAnswer faults c answer

/-- `handleOffer`, inside its `try`. -/
def tryOffer (c : Nat) (pc : Pc) : Prog Hook Outcome (Option Desc) := do
  .modify (update [.setIsNegotiating true])
  addLocalTracks faults env.localStream c pc
  .fallible (faults .sessionDescription)
  let d ← .orThrow ((message.get "sdp").bind RTCSessionDescription)
  let _ ← awaitOp faults .setRemoteDescription c (.setRemoteDescription d) .remoteApplied
  answerOffer faults c

/-- The `catch` of `handleOffer`. -/
def lower : Prog Hook Outcome (Option Desc) := do
  .modify (update [.setIsNegotiating false])
  pure none

/-- `handleOffer`. -/
def handleOffer : Prog Hook Outcome (Option Desc) :=
  withConnection none (fun c x => tryOffer faults env message c x.pc) lower

/-- `handleAnswer`, inside its `try`. -/
def tryAnswer (c : Nat) : Prog Hook Outcome Unit := do
  .fallible (faults .sessionDescription)
  let d ← .orThrow ((message.get "sdp").bind RTCSessionDescription)
  let _ ← awaitOp faults .setRemoteDescription c (.setRemoteDescription d) .answered
  pure ()

/-- `handleAnswer`. -/
def handleAnswer : Prog Hook Outcome Unit :=
  withConnection () (fun c _ => tryAnswer faults message c) (pure ())

/-- `addIceCandidate`, inside its `try`. -/
def tryIceCandidate (c : Nat) : Prog Hook Outcome Unit := do
  .fallible (faults .iceCandidate)
  let d ← .orThrow (RTCIceCandidate candidate)
  let _ ← awaitOp faults .addIceCandidate c (.addIceCandidate d) .candidateAdded
  pure ()

/-- `addIceCandidate`. -/
def addIceCandidate : Prog Hook Outcome Unit :=
  withConnection () (fun c _ => tryIceCandidate faults candidate c) (pure ())

end Functions

/-- The two hooks. -/
structure Hooks where
  signaling : Fiber UseSignaling.Vars SignalingUpdate SignalingProps
  webRTC : Hook

/-- A function of `useWebRTC` is called. -/
def Hooks.fire (s : Hooks) (p : Prog Hook Outcome Unit) : Fired Hooks Hook Outcome :=
  (AsyncFunction.fire p id s.webRTC).within (fun t => { s with webRTC := t })

/-- `ws.onmessage` of `useSignaling`, with the functions of one render as callbacks. -/
def onmessage (faults : Faults) (env : Render) (data : Option Json) (s : Hooks) :
    Fired Hooks Hook Outcome :=
  match UseSignaling.onmessage data with
  | .uncaught => ⟨s, true, none⟩
  | .setClientId id =>
      ⟨{ s with signaling := s.signaling.set [.setClientId id] }, !printable id, none⟩
  | .onOffer message => s.fire (do let _ ← handleOffer faults env message)
  | .onAnswer message => s.fire (handleAnswer faults message)
  | .onIceCandidate message => s.fire (addIceCandidate faults (message.get "candidate"))
  | .ignored => ⟨s, false, none⟩

/-! ## The calls of the hook -/

section Connections

variable {s : Hook} {c : Nat} {x : Connection}

theorem onConnection_eq (h : s.connections[c]? = some x) (f : Connection → Connection) :
    onConnection c f s = setConnection c (f x) s := by
  have hlist : s.connections.modify c f = s.connections.set c (f x) := by
    refine List.ext_getElem? (fun i => ?_)
    rw [List.getElem?_modify, List.getElem?_set]
    by_cases hi : c = i
    · subst hi
      obtain ⟨hlt, rfl⟩ := List.getElem?_eq_some_iff.mp h
      simp [hlt]
    · simp [hi]
  show { s with connections := s.connections.modify c f } = _
  rw [hlist]
  rfl

theorem setConnection_self (h : s.connections[c]? = some x) : setConnection c x s = s := by
  show { s with connections := s.connections.set c x } = s
  obtain ⟨hlt, rfl⟩ := List.getElem?_eq_some_iff.mp h
  rw [List.set_getElem_self]

/-- Changes of one connection come to one. -/
theorem onConnection_twice (h : s.connections[c]? = some x)
    (f g : Connection → Connection) :
    onConnection c g (onConnection c f s) = setConnection c (g (f x)) s := by
  have hlt : c < s.connections.length := (List.getElem?_eq_some_iff.mp h).1
  have hf : (onConnection c f s).connections[c]? = some (f x) := by
    rw [onConnection_eq h]
    exact List.getElem?_set_self hlt
  rw [onConnection_eq hf, onConnection_eq h]
  show { s with connections := (s.connections.set c (f x)).set c (g (f x)) } = _
  rw [List.set_set]
  rfl

end Connections

/-- The suspended calls of the hook, each with the connection it is on. -/
def calls : Machine Hook Outcome String (Nat × Call) where
  value := textOf
  settle x o s :=
    match o with
    | .rejected => caught x.2 s
    | .fulfilled sdp _ =>
        match x.2.next sdp with
        | none => s
        | some (op, call') => await x.1 op call' s
  Invokes x s t := ∃ op, t = await x.1 op x.2 s

/-- What the hook leaves when a function is called, and what goes on from there. -/
def Starts {α : Type} (call : Call) (p : Prog Hook Outcome α) (s t : Hook) : Prop :=
  calls.Starts (fun x => s.current = some x.1 ∧ x.2 = call) p s t

theorem answerApplied_follows (c : Nat) (answer : String) :
    calls.Follows (c, .answerApplied ⟨.answer, answer⟩)
      (awaited textOf (fun _ => pure (some ⟨.answer, answer⟩)) lower) :=
  follows_last (fun _ => ⟨none, rfl⟩) (fun _ _ _ => ⟨some ⟨.answer, answer⟩, rfl⟩)

theorem answerCreated_follows (c : Nat) :
    calls.Follows (c, .answerCreated) (awaited textOf (applyAnswer noFaults c) lower) :=
  follows_more rfl (fun _ => ⟨none, rfl⟩) (fun _ _ _ => rfl)
    (fun sdp _ _ => ⟨.setLocalDescription ⟨.answer, sdp⟩, rfl⟩) (answerApplied_follows c)

theorem remoteApplied_follows (c : Nat) :
    calls.Follows (c, .remoteApplied)
      (awaited textOf (fun _ => answerOffer noFaults c) lower) :=
  follows_more rfl (fun _ => ⟨none, rfl⟩) (fun _ _ _ => rfl)
    (fun _ _ _ => ⟨.createAnswer, rfl⟩) (fun _ => answerCreated_follows c)

theorem answered_follows (c : Nat) :
    calls.Follows (c, .answered) (awaited textOf (fun _ => pure ()) (pure ())) :=
  follows_last (fun _ => ⟨(), rfl⟩) (fun _ _ _ => ⟨(), rfl⟩)

theorem candidateAdded_follows (c : Nat) :
    calls.Follows (c, .candidateAdded) (awaited textOf (fun _ => pure ()) (pure ())) :=
  follows_last (fun _ => ⟨(), rfl⟩) (fun _ _ _ => ⟨(), rfl⟩)

section Start

variable {s : Hook} {c : Nat} {x : Connection}

theorem withConnection_start {α : Type} (href : s.peerConnectionRef = some (c, x))
    (unready : α) (body : Nat → Connection → Prog Hook Outcome α)
    (handler : Prog Hook Outcome α) :
    start (withConnection unready body handler) s = start ((body c x).tryCatch handler) s := by
  show start (match s.peerConnectionRef with
    | none => pure unready
    | some (c, x) => (body c x).tryCatch handler) s = _
  rw [href]

/-- An operation is invoked on the connection as it is. -/
theorem await_eq (h : s.connections[c]? = some x) (op : PcOp Json) (call : Call) :
    await c op call s = setConnection c ⟨x.pc, x.chain ++ [(op, call)]⟩ s :=
  onConnection_eq h _

/-- **`handleOffer`**, when nothing but the values makes it throw. -/
theorem handleOffer_start (href : s.peerConnectionRef = some (c, x)) (env : Render)
    (message : Json) :
    Starts .remoteApplied (handleOffer noFaults env message) s
      (enter .remoteApplied c x s (WebRTCCalls.handleOffer env message x.pc)) := by
  obtain ⟨hc, hx⟩ := peerConnectionRef_some href
  have hraised : (update [.setIsNegotiating true] s).connections[c]? = some x := hx
  rw [Starts, Machine.Starts, handleOffer, withConnection_start href, WebRTCCalls.handleOffer,
    tryOffer, addLocalTracks]
  simp only [noFaults, Prog.fallible, Bool.and_false]
  cases htr : tracksForOffer true env.localStream x.pc with
  | none =>
      refine Or.inl ⟨none, ?_⟩
      show (update [.setIsNegotiating false] (update [.setIsNegotiating true] s), _) = _
      rw [enter, setConnection_self (s := raise .remoteApplied s) hraised]
      rfl
  | some pc' =>
      cases hd : (message.get "sdp").bind RTCSessionDescription with
      | none =>
          refine Or.inl ⟨none, ?_⟩
          show (update [.setIsNegotiating false] (onConnection c (fun x => { x with pc := pc' })
            (update [.setIsNegotiating true] s)), _) = _
          rw [onConnection_eq hraised]
          rfl
      | some d =>
          refine Or.inr ⟨(c, .remoteApplied),
            awaited textOf (fun _ => answerOffer noFaults c) lower, ⟨hc, rfl⟩, ?_,
            remoteApplied_follows c⟩
          show (await c (.setRemoteDescription d) .remoteApplied
            (onConnection c (fun x => { x with pc := pc' })
              (update [.setIsNegotiating true] s)), _) = _
          rw [await, onConnection_twice hraised]
          rfl

/-- **`handleAnswer`**, likewise. -/
theorem handleAnswer_start (href : s.peerConnectionRef = some (c, x)) (message : Json) :
    Starts .answered (handleAnswer noFaults message) s
      (enter .answered c x s (WebRTCCalls.handleAnswer message x.pc)) := by
  obtain ⟨hc, hx⟩ := peerConnectionRef_some href
  rw [Starts, Machine.Starts, handleAnswer, withConnection_start href, WebRTCCalls.handleAnswer,
    tryAnswer]
  cases hd : (message.get "sdp").bind RTCSessionDescription with
  | none =>
      refine Or.inl ⟨(), ?_⟩
      show (s, _) = (setConnection c x s, _)
      rw [setConnection_self hx]
  | some d =>
      refine Or.inr ⟨(c, .answered), awaited textOf (fun _ => pure ()) (pure ()), ⟨hc, rfl⟩, ?_,
        answered_follows c⟩
      show (await c (.setRemoteDescription d) .answered s, _) = _
      rw [await_eq hx]
      rfl

/-- **`addIceCandidate`**, likewise. -/
theorem addIceCandidate_start (href : s.peerConnectionRef = some (c, x)) (candidate : Js) :
    Starts .candidateAdded (addIceCandidate noFaults candidate) s
      (enter .candidateAdded c x s (WebRTCCalls.addIceCandidate candidate x.pc)) := by
  obtain ⟨hc, hx⟩ := peerConnectionRef_some href
  rw [Starts, Machine.Starts, addIceCandidate, withConnection_start href,
    WebRTCCalls.addIceCandidate, tryIceCandidate]
  cases hd : RTCIceCandidate candidate with
  | none =>
      refine Or.inl ⟨(), ?_⟩
      show (s, _) = (setConnection c x s, _)
      rw [setConnection_self hx]
  | some d =>
      refine Or.inr ⟨(c, .candidateAdded), awaited textOf (fun _ => pure ()) (pure ()),
        ⟨hc, rfl⟩, ?_, candidateAdded_follows c⟩
      show (await c (.addIceCandidate d) .candidateAdded s, _) = _
      rw [await_eq hx]
      rfl

/-- A call of the machine is the program, if it is one on every connection. -/
theorem step_starts {α : Type} {t : Hook} {e : Event} {call : Call} {entry : Pc → Entry}
    {unready : α} {body : Nat → Connection → Prog Hook Outcome α}
    {handler : Prog Hook Outcome α} (he : e.calls = true)
    (hcalled : ∀ pc, called s pc e = some (call, entry pc))
    (hstart : ∀ c x, s.peerConnectionRef = some (c, x) →
      Starts call (withConnection unready body handler) s (enter call c x s (entry x.pc)))
    (h : step s e = some t) : Starts call (withConnection unready body handler) s t := by
  cases step_cases h with
  | unready he href =>
      refine Or.inl ⟨unready, ?_⟩
      show start (match s.peerConnectionRef with
        | none => pure unready
        | some (c, x) => (body c x).tryCatch handler) s = _
      rw [href]
      rfl
  | call href hcall =>
      cases (hcalled _).symm.trans hcall
      exact hstart _ _ href
  | render | flushEffects | rejected | fulfilled | iceConnectionState | unmount => cases he

/-- **THE CALLS OF THE MACHINE**: an offer, through the function of a render, -/
theorem handleOffer_step {t : Hook} {k : Nat} {env : Render} {message : Json}
    (hk : s.renders[k]? = some env) (h : step s (.handleOffer k message) = some t) :
    Starts .remoteApplied (handleOffer noFaults env message) s t :=
  step_starts rfl (fun pc => by rw [called, hk]; rfl)
    (fun _ _ href => handleOffer_start href env message) h

/-- an answer, -/
theorem handleAnswer_step {t : Hook} {message : Json}
    (h : step s (.handleAnswer message) = some t) :
    Starts .answered (handleAnswer noFaults message) s t :=
  step_starts rfl (fun _ => rfl) (fun _ _ href => handleAnswer_start href message) h

/-- and a candidate. -/
theorem addIceCandidate_step {t : Hook} {candidate : Js}
    (h : step s (.addIceCandidate candidate) = some t) :
    Starts .candidateAdded (addIceCandidate noFaults candidate) s t :=
  step_starts rfl (fun _ => rfl) (fun _ _ href => addIceCandidate_start href candidate) h

end Start

/-! ## Nothing leaves the functions -/

section Safe

variable (faults : Faults)

theorem withConnection_safe {α : Type} (unready : α)
    (body : Nat → Connection → Prog Hook Outcome α) {handler : Prog Hook Outcome α}
    (h : Safe handler) : Safe (withConnection unready body handler) := by
  refine Safe.get.bind (fun s => ?_)
  cases s.peerConnectionRef with
  | none => exact .ret unready
  | some cx => exact h.tryCatch _

theorem handleOffer_safe (env : Render) (message : Json) :
    Safe (handleOffer faults env message) :=
  withConnection_safe none _ ((Safe.modify _).bind (fun _ => .ret none))

theorem handleAnswer_safe (message : Json) : Safe (handleAnswer faults message) :=
  withConnection_safe () _ (.ret ())

theorem addIceCandidate_safe (candidate : Js) : Safe (addIceCandidate faults candidate) :=
  withConnection_safe () _ (.ret ())

theorem Hooks.fire_contained {p : Prog Hook Outcome Unit} (h : Safe p) (s : Hooks) :
    ¬ (s.fire p).Escapes := by
  rw [Hooks.fire, Fired.within_escapes]
  exact h.not_escapes id s.webRTC

/-- **WHAT LEAVES `ws.onmessage`** of the hook, as of the page. -/
theorem onmessage_escapes_iff (env : Render) (s : Hooks) {j : Json} (hj : j ≠ .null) :
    (onmessage faults env (some j) s).Escapes ↔
      isWelcomeMessage j = true ∧ printable (j.get "id") = false := by
  have hreact : UseSignaling.onmessage (some j) =
      if isWelcomeMessage j then .setClientId (j.get "id")
      else if UseSignaling.isOfferMessage j then .onOffer j
      else if UseSignaling.isAnswerMessage j then .onAnswer j
      else if isICECandidateMessage j then .onIceCandidate j
      else .ignored := by
    cases j with
    | null => exact absurd rfl hj
    | _ => rfl
  rw [onmessage, hreact]
  by_cases hw : isWelcomeMessage j = true
  · rw [if_pos hw, Fired.escapes_of_sync, hw]
    simp
  · rw [if_neg hw]
    refine iff_of_false ?_ (fun h => hw h.1)
    by_cases ho : UseSignaling.isOfferMessage j = true
    · rw [if_pos ho]
      exact Hooks.fire_contained ((handleOffer_safe faults env j).bind (fun _ => .ret ())) s
    rw [if_neg ho]
    by_cases ha : UseSignaling.isAnswerMessage j = true
    · rw [if_pos ha]
      exact Hooks.fire_contained (handleAnswer_safe faults j) s
    rw [if_neg ha]
    by_cases hi : isICECandidateMessage j = true
    · rw [if_pos hi]
      exact Hooks.fire_contained (addIceCandidate_safe faults _) s
    · rw [if_neg hi]
      exact Fired.quiet_not_escapes s

end Safe

/-! ## The receive path -/

/-- Nothing leaves a client's receive path when this text arrives: no exception, and no
    rejection that nobody handles, whatever the browser makes fail, in whatever states. -/
structure Contained (text : String) : Prop where
  page : ∀ faults env s, ¬ (CamReceive.onmessage faults env (parse text) s).Escapes
  effect : ∀ faults s, ¬ (CamReceive.processPendingSDP faults s).Escapes
  handleSDPMessage : ∀ faults env m s,
    ¬ Rejects (start (CamReceive.handleSDPMessage faults env m) s).2
  handleIceCandidateMessage : ∀ faults env m s,
    ¬ Rejects (start (CamReceive.handleIceCandidateMessage faults env m) s).2
  hook : ∀ faults env s, ¬ (onmessage faults env (parse text) s).Escapes

/-- The text is a welcome with an `id` that has no string form. -/
def WelcomesUnprintable (text : String) : Prop :=
  ∃ j v, parse text = some j ∧ isWelcomeMessage j = true ∧ j.get "id" = some v ∧
    HidesToString v

theorem unprintable_iff {j : Json} :
    printable (j.get "id") = false ↔ ∃ v, j.get "id" = some v ∧ HidesToString v := by
  cases hid : j.get "id" with
  | none => simp [printable]
  | some v =>
      have hv := CamReceive.printable_iff v
      constructor
      · intro hp
        refine ⟨v, rfl, ?_⟩
        by_contra hhides
        rw [hv.mpr hhides] at hp
        cases hp
      · rintro ⟨w, hw, hhides⟩
        cases hw
        exact Bool.eq_false_iff.mpr (fun hp => hv.mp hp hhides)

/-- What the decoder of the relay accepts is an object or an array. -/
theorem accepted {text : String} (h : (CamWire.from_str text).isSome = true) :
    ∃ j, parse text = some j ∧ j ≠ .null := by
  obtain ⟨m, hm⟩ := Option.isSome_iff_exists.mp h
  obtain ⟨j, hj, hm⟩ := Option.bind_eq_some_iff.mp hm
  refine ⟨j, hj, ?_⟩
  rintro rfl
  cases hm

/-- **WHAT THE RELAY FORWARDS**, whatever else it carries, is contained, unless it is a
    welcome whose `id` hides its `toString`: the log line of the id is in no `try`.  The
    decoder may refuse more texts than the grammar does, but no others. -/
theorem receive_contained_iff {from_str : String → Option Message}
    (hserde : ∀ t, (from_str t).isSome = true → (CamWire.from_str t).isSome = true)
    {text : String} (h : (from_str text).isSome = true) :
    Contained text ↔ ¬ WelcomesUnprintable text := by
  obtain ⟨j, hj, hnull⟩ := accepted (hserde text h)
  constructor
  · rintro hcontained ⟨j', v, hj', hw, hid, hhides⟩
    cases hj.symm.trans hj'
    refine hcontained.page noFaults .initial .initial ?_
    rw [hj, CamReceive.onmessage_escapes_iff noFaults .initial .initial j hnull]
    exact ⟨hw, unprintable_iff.mpr ⟨v, hid, hhides⟩⟩
  · intro hnot
    have hprints : ¬ (isWelcomeMessage j = true ∧ printable (j.get "id") = false) := by
      rintro ⟨hw, hp⟩
      obtain ⟨v, hid, hhides⟩ := unprintable_iff.mp hp
      exact hnot ⟨j, v, hj, hw, hid, hhides⟩
    refine ⟨?_, CamReceive.processPendingSDP_contained, ?_, ?_, ?_⟩
    · intro faults env s
      rw [hj, CamReceive.onmessage_escapes_iff faults env s j hnull]
      exact hprints
    · exact fun faults env m s => (CamReceive.handleSDPMessage_safe faults env m).not_rejects s
    · exact fun faults env m s =>
        (CamReceive.handleIceCandidateMessage_safe faults env m).not_rejects s
    · intro faults env s
      rw [hj, onmessage_escapes_iff faults env s hnull]
      exact hprints

/-- An offer without a description. -/
def hollowOffer : Json :=
  .obj [("from", .str "b"), ("to", .str "a"), ("type", .str "offer")]

theorem receive_contained_iff_sample :
    CamWire.from_str (render hollowOffer) = some ⟨"b", "a", none, none⟩ ∧
      (Contained (render hollowOffer) ↔ ¬ WelcomesUnprintable (render hollowOffer)) := by
  have h : CamWire.from_str (render hollowOffer) = some ⟨"b", "a", none, none⟩ := by
    rw [CamWire.from_str, parse_render]
    rfl
  exact ⟨h, receive_contained_iff (fun _ h => h) (by rw [h]; rfl)⟩

/-- A welcome that a client made up. -/
def forgedWelcome : Json :=
  .obj [("from", .str "b"), ("to", .str "a"), ("type", .str "welcome"),
    ("id", .obj [("toString", .null)])]

/-- The relay forwards it, and both versions let the exception out in every state. -/
theorem forged_welcome_escapes :
    CamWire.from_str (render forgedWelcome) = some ⟨"b", "a", none, none⟩ ∧
      (∀ faults env s,
        (CamReceive.onmessage faults env (parse (render forgedWelcome)) s).Escapes) ∧
      (∀ faults env s, (onmessage faults env (parse (render forgedWelcome)) s).Escapes) ∧
      ¬ Contained (render forgedWelcome) := by
  have hpage : ∀ faults env s,
      (CamReceive.onmessage faults env (parse (render forgedWelcome)) s).Escapes := by
    intro faults env s
    rw [parse_render]
    exact Or.inl rfl
  refine ⟨?_, hpage, ?_, fun h => h.page noFaults .initial .initial (hpage _ _ _)⟩
  · rw [CamWire.from_str, parse_render]
    rfl
  · intro faults env s
    rw [parse_render]
    exact Or.inl rfl

end WebRTCReceive
