import WebRtcCam.LtsRunProofs
import WebRtcCam.CamWireProofs
import WebRtcCam.RtcSignalingProofs

/-! # The page component `Home`

    `webrtc/src/app/page.tsx`, with the React discipline it runs under.  A render
    fixes the values of the state variables (`Vars`); every function it creates
    keeps THAT render's values, however late it is called.  Setters queue updates;
    the next `render` applies the whole queue in order; effects whose dependencies
    changed run after the commit and before the next render.  Refs are shared by
    all closures and always current.

    Which closure runs when:

    * `createOffer` (the button) — the latest commit's;
    * `handleSDPMessage` (from the pending-SDP effect) — the latest commit's;
    * `ws.onmessage`, hence `handleIceCandidateMessage`, and `onicecandidate`,
      hence its `sendMessage` — those of the render that created the mount effect
      (`mountVars`), for the whole life of the page.

    An `await` on the peer connection suspends a call; the connection runs its
    operations one at a time in the order of the calls (`chain`), and an operation
    that settles resumes its call in the same step, up to its next `await`. -/

namespace CamPage

open Utf16 (JsString)
open LtsRun JsonText CamWire RtcSignaling

/-! ## State -/

/-- A message as `JSON.parse` returns it: a fresh object for every arrival, `n`
    being its identity. -/
structure Received where
  n : Nat
  data : Json
  deriving DecidableEq

/-- The WebSocket of the page: the mount effect creates one. -/
structure WebSocket where
  deriving DecidableEq, Repr

/-- The `useState` variables, as one render sees them. -/
structure Vars where
  socket : Option WebSocket
  clientId : Js
  peerId : Json
  pendingSDP : Option Received
  connectionState : String
  isLocalStreamReady : Bool
  deriving DecidableEq

/-- The initial values. -/
def Vars.initial : Vars where
  socket := none
  clientId := some .null
  peerId := .str ""
  pendingSDP := none
  connectionState := "disconnected"
  isLocalStreamReady := false

/-- The queued calls of the state setters. -/
inductive Update where
  | setSocket (ws : WebSocket)
  | setClientId (id : Js)
  | setPeerId (id : Json)
  | setPendingSDP (m : Option Received)
  | setConnectionState (st : String)
  | setIsLocalStreamReady (b : Bool)
  deriving DecidableEq

def Vars.apply (v : Vars) : Update → Vars
  | .setSocket ws => { v with socket := some ws }
  | .setClientId id => { v with clientId := id }
  | .setPeerId id => { v with peerId := id }
  | .setPendingSDP m => { v with pendingSDP := m }
  | .setConnectionState st => { v with connectionState := st }
  | .setIsLocalStreamReady b => { v with isLocalStreamReady := b }

/-- The three effects, in the order the component declares them. -/
inductive Effect where
  | syncPeerId | mount | processPendingSDP
  deriving DecidableEq, Repr

/-- Where a suspended call goes on, with the variables of the render that created
    it. -/
inductive Call where
  | offerCreated (env : Vars)
  | offerApplied (env : Vars) (offer : Desc)
  | remoteApplied (env : Vars) (m : Received) (isOffer : Bool)
  | answerCreated (env : Vars) (m : Received)
  | answerApplied (env : Vars) (m : Received) (answer : Desc)
  | candidateAdded
  deriving DecidableEq

/-- The observable history of a page: messages received, calls of
    `handleSDPMessage`, and operations invoked on the peer connection, with the
    message they are for. -/
inductive Obs where
  | received (m : Received)
  | handleSDPMessage (m : Received)
  | invoked (op : PcOp Json) (m : Option Received)
  | uncaught
  deriving DecidableEq

/-- The page. -/
structure Page where
  mounted : Bool
  vars : Vars
  queue : List Update
  effects : List Effect
  /-- The render whose closures the mount effect installed, once it has run. -/
  mountVars : Option Vars
  /-- A `getUserMedia` request is outstanding. -/
  mediaRequested : Bool
  peerConnectionRef : Option Pc
  localStreamRef : Option Stream
  peerIdRef : Json
  isNegotiatingRef : Bool
  /-- The operations chain of the connection, with the calls that await them. -/
  chain : List (PcOp Json × Call)
  arrivals : Nat
  /-- The frames handed to the page's socket. -/
  sent : List Json
  trace : List Obs
  deriving DecidableEq

/-- The first render has been committed and its effects are due. -/
def Page.initial : Page where
  mounted := true
  vars := .initial
  queue := []
  effects := [.syncPeerId, .mount, .processPendingSDP]
  mountVars := none
  mediaRequested := false
  peerConnectionRef := none
  localStreamRef := none
  peerIdRef := .str ""
  isNegotiatingRef := false
  chain := []
  arrivals := 0
  sent := []
  trace := []

/-! ## The pieces handlers are made of -/

/-- A state setter is called. -/
@[simps] def enqueue (u : Update) (s : Page) : Page :=
  { s with queue := s.queue ++ [u] }

/-- An operation of the connection is invoked and awaited. -/
@[simps] def invoke (op : PcOp Json) (m : Option Received) (call : Call)
    (s : Page) : Page :=
  { s with
    chain := s.chain ++ [(op, call)]
    trace := s.trace ++ [.invoked op m] }

@[simps] def setNegotiating (b : Bool) (s : Page) : Page :=
  { s with isNegotiatingRef := b }

/-- The connection has changed. -/
@[simps] def setPc (pc : Pc) (s : Page) : Page :=
  { s with peerConnectionRef := some pc }

/-- The head of the operations chain is taken off. -/
@[simps] def setChain (rest : List (PcOp Json × Call)) (s : Page) : Page :=
  { s with chain := rest }

/-- `setPeerId(from)` together with `peerIdRef.current = from`. -/
@[simps] def bindPeer (sender : Json) (s : Page) : Page :=
  { s with
    queue := s.queue ++ [.setPeerId sender]
    peerIdRef := sender }

/-- A member of an object literal; `JSON.stringify` drops an `undefined` one. -/
def member (k : String) : Js → Members
  | some v => [(k, v)]
  | none => []

/-- The names of `RTCSdpType`. -/
def sdpName : SdpType → String
  | .offer => "offer"
  | .answer => "answer"
  | .pranswer => "pranswer"
  | .rollback => "rollback"

/-- A description as it is put into a message. -/
def descJson (d : Desc) : Json :=
  .obj [("type", .str (sdpName d.type)), ("sdp", .str d.sdp)]

/-- `sendMessage`: nothing without a client id, and nothing without a socket. -/
def sendMessage (env : Vars) (message : Members) (s : Page) : Page :=
  if truthy env.clientId then
    match env.socket with
    | some _ => { s with sent := s.sent ++ [.obj (member "from" env.clientId ++ message)] }
    | none => s
  else s

/-- `isPeerIdEmpty`. -/
def isPeerIdEmpty (peerId : Json) : Bool := !truthy (some peerId) || peerId = .str ""

/-- `isMediaStreamReady`. -/
def isMediaStreamReady (isReady : Bool) (stream : Option Stream) : Bool :=
  isReady && stream.isSome

/-- `hasTracksAdded`. -/
def hasTracksAdded (pc : Pc) : Bool := 0 < pc.senders.length

/-- `addTracksToConnection`; `none` when `addTrack` throws. -/
def addTracksToConnection (pc : Pc) (stream : Stream) : Option Pc :=
  stream.tracks.foldlM Pc.addTrack pc

mutual

/-- `ToString` of a parsed value.  `none` is the `TypeError` of an object with a member
    `toString` of its own: it hides the inherited method and is no function. -/
def toJsString : Json → Option JsString
  | .null => some "null"
  | .bool true => some "true"
  | .bool false => some "false"
  | .num n => some (String.ofList n.chars)
  | .str s => some s
  | .arr xs => joinElems xs
  | .obj ms => if (lookup "toString" ms).isSome then none else some "[object Object]"

/-- The elements of an array, joined by commas; `null` prints as nothing. -/
def joinElems : List Json → Option JsString
  | [] => some ""
  | [.null] => some ""
  | [x] => toJsString x
  | .null :: xs => (joinElems xs).map (fun t => .text "," ++ t)
  | x :: xs =>
      match toJsString x, joinElems xs with
      | some t, some u => some (t ++ .text "," ++ u)
      | _, _ => none

end

/-- The value has a string form: a template literal with it does not throw. -/
def printable : Js → Bool
  | none => true
  | some v => (toJsString v).isSome

/-- The enumeration value a text names. -/
def sdpTypeOf (t : JsString) : Option SdpType :=
  if t = .text "offer" then some .offer
  else if t = .text "answer" then some .answer
  else if t = .text "pranswer" then some .pranswer
  else if t = .text "rollback" then some .rollback
  else none

/-- `new RTCSessionDescription(sdp)`: `type` is required and must name an
    `RTCSdpType` after conversion to a string, `sdp` is converted to a string and
    defaults to the empty one; anything but an object throws. -/
def RTCSessionDescription : Json → Option Desc
  | .obj ms =>
      match lookup "type" ms with
      | some t =>
          match (toJsString t).bind sdpTypeOf,
              (lookup "sdp" ms).elim (some (.text "")) toJsString with
          | some ty, some text => some ⟨ty, text⟩
          | _, _ => none
      | none => none
  | _ => none

/-- A dictionary member that is absent or `null`. -/
def isNullish : Js → Bool
  | none => true
  | some .null => true
  | _ => false

/-- `new RTCIceCandidate(candidate)`: throws unless `sdpMid` or `sdpMLineIndex`
    is given, and unless its members can be converted. -/
def RTCIceCandidate : Js → Option Json
  | some (.obj ms) =>
      if isNullish (lookup "sdpMid" ms) ∧ isNullish (lookup "sdpMLineIndex" ms) then none
      else if ["candidate", "sdpMid", "sdpMLineIndex", "usernameFragment"].all
          (fun k => printable (lookup k ms)) then some (.obj ms)
      else none
  | _ => none

/-! ## The handlers of the source -/

/-- `createOffer`, up to its first `await`. -/
def createOffer (env : Vars) (s : Page) : Page :=
  match s.peerConnectionRef with
  | none => s
  | some pc =>
      if isPeerIdEmpty env.peerId then s
      else
        match s.localStreamRef with
        | none => s
        | some stream =>
            if !isMediaStreamReady env.isLocalStreamReady (some stream) then s
            else if s.isNegotiatingRef then s
            else
              match (if hasTracksAdded pc then some pc
                else addTracksToConnection pc stream) with
              | none => setNegotiating false (setNegotiating true s)
              | some pc' =>
                  invoke .createOffer none (.offerCreated env)
                    (setNegotiating true (setPc pc' s))

/-- `handleSDPMessage`: the sender becomes the peer if there is none yet.  The server
    forwards nothing whose sender is no string, so logging it does not throw. -/
def adoptSender (env : Vars) (m : Received) (s : Page) : Page :=
  match m.data.get "from" with
  | some sender => if isPeerIdEmpty env.peerId then bindPeer sender s else s
  | none => s

/-- `handleSDPMessage`: an offer adds the local tracks if none were added. -/
def tracksForOffer (isOffer : Bool) (stream : Option Stream) (pc : Pc) : Option Pc :=
  match stream with
  | some str =>
      if isOffer && !hasTracksAdded pc then addTracksToConnection pc str else some pc
  | none => some pc

/-- `data.sdp.type === 'offer'`. -/
def isOfferSdp (sdp : Json) : Bool := sdp.get "type" = some (.str "offer")

/-- `handleSDPMessage` from the access to `data.sdp.type` to its first
    `await`. -/
def applySDP (env : Vars) (m : Received) (sdp : Json) (pc : Pc) (s : Page) : Page :=
  match tracksForOffer (isOfferSdp sdp) s.localStreamRef pc with
  | none => setNegotiating false s
  | some pc' =>
      match RTCSessionDescription sdp with
      | none => setNegotiating false (setPc pc' s)
      | some d =>
          invoke (.setRemoteDescription d) (some m)
            (.remoteApplied env m (isOfferSdp sdp)) (setPc pc' s)

/-- `data.sdp`, when its `type` can be read: the access throws on `undefined` and
    on `null`. -/
def sdpOf (m : Received) : Option Json :=
  match m.data.get "sdp" with
  | some .null => none
  | v => v

/-- A call of `handleSDPMessage` is noted. -/
@[simps] def noteSDP (m : Received) (s : Page) : Page :=
  { s with trace := s.trace ++ [.handleSDPMessage m] }

/-- `handleSDPMessage`, up to its first `await`; every exception ends in its
    `catch`. -/
def handleSDPMessage (env : Vars) (m : Received) (s : Page) : Page :=
  match s.peerConnectionRef with
  | none => noteSDP m s
  | some pc =>
      match sdpOf m with
      | none => setNegotiating false (adoptSender env m (noteSDP m s))
      | some sdp => applySDP env m sdp pc (adoptSender env m (noteSDP m s))

/-- `handleIceCandidateMessage`, up to its `await`. -/
def handleIceCandidateMessage (env : Vars) (m : Received) (s : Page) : Page :=
  match s.peerConnectionRef with
  | none => s
  | some _ =>
      match RTCIceCandidate (m.data.get "candidate") with
      | none => adoptSender env m s
      | some c =>
          invoke (.addIceCandidate c) (some m) .candidateAdded (adoptSender env m s)

/-- The message object of the next arrival. -/
def Page.arrival (s : Page) (j : Json) : Received := ⟨s.arrivals, j⟩

/-- A parsed message has arrived. -/
@[simps] def receive (j : Json) (s : Page) : Page :=
  { s with
    arrivals := s.arrivals + 1
    trace := s.trace ++ [.received (s.arrival j)] }

/-- An exception leaves a socket callback. -/
@[simps] def throwUncaught (s : Page) : Page :=
  { s with trace := s.trace ++ [.uncaught] }

/-- The log line of a welcome, a template literal with the id. -/
def logClientId (id : Js) (s : Page) : Page :=
  if printable id then s else throwUncaught s

/-- `ws.onmessage` after `JSON.parse`. -/
def dispatch (env : Vars) (j : Json) (s : Page) : Page :=
  if isWelcomeMessage j then
    logClientId (j.get "id") (enqueue (.setClientId (j.get "id")) (receive j s))
  else if isSDPMessage j then
    enqueue (.setPendingSDP (some (s.arrival j))) (receive j s)
  else if isICECandidateMessage j then
    handleIceCandidateMessage env (s.arrival j) (receive j s)
  else receive j s

/-- `ws.onmessage`: `JSON.parse` throws on what is no JSON text (`none`), and the
    access to `type` throws on `null`. -/
def onmessage (env : Vars) (data : Option Json) (s : Page) : Page :=
  match data with
  | none => throwUncaught s
  | some .null => throwUncaught s
  | some j => dispatch env j s

/-- `peerConnection.onicecandidate`. -/
def onicecandidate (env : Vars) (candidate : Option Json) (s : Page) : Page :=
  match candidate with
  | some c =>
      if s.peerIdRef ≠ .str "" then
        sendMessage env
          [("to", s.peerIdRef), ("candidate", c), ("type", .str "candidate")] s
      else s
  | none => s

/-- `peerConnection.onsignalingstatechange`, once for each announced state. -/
def onsignalingstatechange (states : List SignalingState) (s : Page) : Page :=
  if .stable ∈ states then setNegotiating false s else s

/-- A suspended call goes on after its operation was fulfilled; `sdp` is the text
    of a created description. -/
def resume (sdp : String) (call : Call) (s : Page) : Page :=
  match call with
  | .offerCreated env =>
      invoke (.setLocalDescription ⟨.offer, sdp⟩) none
        (.offerApplied env ⟨.offer, sdp⟩) s
  | .offerApplied env offer =>
      sendMessage env
        [("to", env.peerId), ("sdp", descJson offer), ("type", .str "offer")] s
  | .remoteApplied env m isOffer =>
      if isOffer then
        invoke .createAnswer none (.answerCreated env m) (setNegotiating true s)
      else s
  | .answerCreated env m =>
      invoke (.setLocalDescription ⟨.answer, sdp⟩) none
        (.answerApplied env m ⟨.answer, sdp⟩) s
  | .answerApplied env m answer =>
      sendMessage env (member "to" (m.data.get "from")
        ++ ([("sdp", descJson answer), ("type", .str "answer")] : Members)) s
  | .candidateAdded => s

/-- A suspended call goes on in its `catch`. -/
def reject (call : Call) (s : Page) : Page :=
  match call with
  | .candidateAdded => s
  | _ => setNegotiating false s

/-- One effect runs, with the variables of the commit that scheduled it. -/
def runEffect (s : Page) : Effect → Page
  | .syncPeerId => { s with peerIdRef := s.vars.peerId }
  | .mount =>
      enqueue (.setSocket ⟨⟩)
        { s with
          mountVars := some s.vars
          mediaRequested := true
          peerConnectionRef := some .new }
  | .processPendingSDP =>
      match s.vars.pendingSDP with
      | some m =>
          if truthy s.vars.clientId then
            enqueue (.setPendingSDP none) (handleSDPMessage s.vars m s)
          else s
      | none => s

/-! ## Steps -/

/-- What can happen to a page. -/
inductive Event where
  | render
  | flushEffects
  | message (data : Option Json)
  | iceCandidate (candidate : Option Json)
  | iceConnectionState (st : String)
  | userMedia (stream : Option Stream)
  | edit (v : String)
  | press
  | settle (o : Outcome)
  | unmount
  deriving DecidableEq

/-- The values the next render will have. -/
def Page.next (s : Page) : Vars := s.queue.foldl Vars.apply s.vars

/-- The effects whose dependencies changed from one commit to the next. -/
def changedEffects (v w : Vars) : List Effect :=
  (if v.peerId = w.peerId then [] else [.syncPeerId])
    ++ (if v.clientId = w.clientId ∧ v.pendingSDP = w.pendingSDP then []
      else [.processPendingSDP])

/-- The connect button is enabled. -/
def buttonEnabled (v : Vars) : Bool := v.isLocalStreamReady && truthy (some v.peerId)

/-- The head of the operations chain settles. -/
def settle (s : Page) (o : Outcome) : Option Page :=
  match s.peerConnectionRef, s.chain with
  | some pc, (op, call) :: rest =>
      match o with
      | .rejected => some (reject call (setChain rest s))
      | .fulfilled sdp sections =>
          match pc.perform sections op with
          | some (pc', states) =>
              some (resume sdp call (onsignalingstatechange states
                (setPc pc' (setChain rest s))))
          | none => none
  | _, _ => none

/-- One step of the page; an unmounted page takes none, and what was queued or due
    when it was unmounted stays so.  Every render is committed: that React gives up a page
    whose `clientId` is an object, which it cannot show, is left out. -/
def step (s : Page) (e : Event) : Option Page :=
  if !s.mounted then none
  else
    match e with
    | .render =>
        if s.effects = [] then
          some { s with
            vars := s.next
            queue := []
            effects := changedEffects s.vars s.next }
        else none
    | .flushEffects =>
        if s.effects = [] then none
        else some (s.effects.foldl runEffect { s with effects := [] })
    | .message data =>
        match s.mountVars with
        | some env => some (onmessage env data s)
        | none => none
    | .iceCandidate candidate =>
        match s.mountVars with
        | some env => some (onicecandidate env candidate s)
        | none => none
    | .iceConnectionState st =>
        match s.mountVars with
        | some _ => some (enqueue (.setConnectionState st) s)
        | none => none
    | .userMedia stream =>
        if s.mediaRequested then
          match stream with
          | some str =>
              some (enqueue (.setIsLocalStreamReady true)
                { s with mediaRequested := false, localStreamRef := some str })
          | none => some { s with mediaRequested := false }
        else none
    | .edit v => some (enqueue (.setPeerId (.str v)) s)
    | .press => if buttonEnabled s.vars then some (createOffer s.vars s) else none
    | .settle o => settle s o
    | .unmount =>
        some { s with
          mounted := false
          peerConnectionRef := s.peerConnectionRef.map Pc.close }

/-- The page as a transition system. -/
def page : Lts Page Event where
  init := fun s => s = .initial
  step := step

/-! ## Inversion: everything a step can be -/

/-- The steps of a page, as a relation. -/
inductive Step : Page → Event → Page → Prop where
  | render {s : Page} : s.mounted = true → s.effects = [] →
      Step s .render { s with
        vars := s.next
        queue := []
        effects := changedEffects s.vars s.next }
  | flushEffects {s : Page} : s.mounted = true → s.effects ≠ [] →
      Step s .flushEffects (s.effects.foldl runEffect { s with effects := [] })
  | message {s : Page} {env : Vars} {data : Option Json} :
      s.mounted = true → s.mountVars = some env →
      Step s (.message data) (onmessage env data s)
  | iceCandidate {s : Page} {env : Vars} {c : Option Json} :
      s.mounted = true → s.mountVars = some env →
      Step s (.iceCandidate c) (onicecandidate env c s)
  | iceConnectionState {s : Page} {st : String} :
      s.mounted = true →
      Step s (.iceConnectionState st) (enqueue (.setConnectionState st) s)
  | mediaGranted {s : Page} {str : Stream} : s.mounted = true →
      Step s (.userMedia (some str))
        (enqueue (.setIsLocalStreamReady true)
          { s with mediaRequested := false, localStreamRef := some str })
  | mediaDenied {s : Page} : s.mounted = true →
      Step s (.userMedia none) { s with mediaRequested := false }
  | edit {s : Page} {v : String} : s.mounted = true →
      Step s (.edit v) (enqueue (.setPeerId (.str v)) s)
  | press {s : Page} : s.mounted = true → buttonEnabled s.vars = true →
      Step s .press (createOffer s.vars s)
  | rejected {s : Page} {pc : Pc} {op : PcOp Json} {call : Call}
      {rest : List (PcOp Json × Call)} : s.mounted = true →
      s.peerConnectionRef = some pc → s.chain = (op, call) :: rest →
      Step s (.settle .rejected) (reject call (setChain rest s))
  | fulfilled {s : Page} {pc pc' : Pc} {op : PcOp Json} {call : Call}
      {rest : List (PcOp Json × Call)} {sdp : String} {sections : List Kind}
      {states : List SignalingState} : s.mounted = true →
      s.peerConnectionRef = some pc → s.chain = (op, call) :: rest →
      pc.perform sections op = some (pc', states) →
      Step s (.settle (.fulfilled sdp sections))
        (resume sdp call (onsignalingstatechange states
          (setPc pc' (setChain rest s))))
  | unmount {s : Page} : s.mounted = true →
      Step s .unmount { s with
        mounted := false
        peerConnectionRef := s.peerConnectionRef.map Pc.close }

/-- **INVERSION** of `step`. -/
theorem step_cases {s s' : Page} {e : Event} (h : step s e = some s') :
    Step s e s' := by
  simp only [step] at h
  by_cases hm : s.mounted = true
  · rw [if_neg (by simp [hm])] at h
    cases e with
    | render =>
        simp only at h
        split at h
        · next he => cases h; exact .render hm he
        · exact nomatch h
    | flushEffects =>
        simp only at h
        split at h
        · exact nomatch h
        · next he => cases h; exact .flushEffects hm he
    | message data =>
        simp only at h
        split at h
        · next env henv => cases h; exact .message hm henv
        · exact nomatch h
    | iceCandidate c =>
        simp only at h
        split at h
        · next env henv => cases h; exact .iceCandidate hm henv
        · exact nomatch h
    | iceConnectionState st =>
        simp only at h
        split at h
        · cases h; exact .iceConnectionState hm
        · exact nomatch h
    | userMedia stream =>
        simp only at h
        split at h
        · cases stream with
          | some str => cases h; exact .mediaGranted hm
          | none => cases h; exact .mediaDenied hm
        · exact nomatch h
    | edit v => cases h; exact .edit hm
    | press =>
        simp only at h
        split at h
        · next hb => cases h; exact .press hm hb
        · exact nomatch h
    | settle o =>
        simp only [settle] at h
        split at h
        · next pc op call rest hpc hchain =>
            cases o with
            | rejected => cases h; exact .rejected hm hpc hchain
            | fulfilled sdp sections =>
                simp only at h
                split at h
                · next pc' states hperf =>
                    cases h
                    exact .fulfilled hm hpc hchain hperf
                · exact nomatch h
        · exact nomatch h
    | unmount => cases h; exact .unmount hm
  · rw [if_pos (by simp [hm])] at h
    exact nomatch h

theorem step_mounted {s s' : Page} {e : Event} (h : step s e = some s') :
    s.mounted = true := by
  by_contra hm
  simp only [step] at h
  rw [if_pos (by simpa using hm)] at h
  exact nomatch h

/-! ## What each handler comes to -/

theorem next_of_append {s t : Page} (hv : t.vars = s.vars) {l : List Update}
    (hq : t.queue = s.queue ++ l) : t.next = l.foldl Vars.apply s.next := by
  rw [Page.next, hv, hq, List.foldl_append, Page.next]

@[simp] theorem next_enqueue (u : Update) (s : Page) :
    (enqueue u s).next = s.next.apply u :=
  next_of_append (s := s) (t := enqueue u s) rfl rfl

theorem setPc_self {s : Page} {pc : Pc} (h : s.peerConnectionRef = some pc) :
    setPc pc s = s := by
  cases s
  simp only at h
  subst h
  rfl

theorem adoptSender_cases (env : Vars) (m : Received) (s : Page) :
    adoptSender env m s = s ∨ ∃ sender, m.data.get "from" = some sender ∧
      isPeerIdEmpty env.peerId = true ∧ adoptSender env m s = bindPeer sender s := by
  rw [adoptSender]
  split
  · next sender hs =>
      split
      · next he => exact Or.inr ⟨sender, hs, he, rfl⟩
      · exact Or.inl rfl
  · exact Or.inl rfl

@[simp] theorem adoptSender_pc (env : Vars) (m : Received) (s : Page) :
    (adoptSender env m s).peerConnectionRef = s.peerConnectionRef := by
  rcases adoptSender_cases env m s with h | ⟨_, -, -, h⟩ <;> rw [h]
  rfl

@[simp] theorem adoptSender_stream (env : Vars) (m : Received) (s : Page) :
    (adoptSender env m s).localStreamRef = s.localStreamRef := by
  rcases adoptSender_cases env m s with h | ⟨_, -, -, h⟩ <;> rw [h]
  rfl

@[simp] theorem adoptSender_chain (env : Vars) (m : Received) (s : Page) :
    (adoptSender env m s).chain = s.chain := by
  rcases adoptSender_cases env m s with h | ⟨_, -, -, h⟩ <;> rw [h]
  rfl

theorem tracksForOffer_sameSignaling {isOffer : Bool} {stream : Option Stream}
    {pc pc' : Pc} (h : tracksForOffer isOffer stream pc = some pc') :
    SameSignaling pc pc' := by
  simp only [tracksForOffer] at h
  split at h
  · split at h
    · exact addTracks_sameSignaling _ h
    · cases h; exact .refl _
  · cases h; exact .refl _

/-- The two ways a started `createOffer` goes: nothing happens, the track step
    throws, or `pc.createOffer()` is awaited. -/
theorem createOffer_cases (env : Vars) (s : Page) :
    createOffer env s = s ∨
    (s.isNegotiatingRef = false ∧
      createOffer env s = setNegotiating false (setNegotiating true s)) ∨
    ∃ pc pc', s.peerConnectionRef = some pc ∧ SameSignaling pc pc' ∧
      s.isNegotiatingRef = false ∧ isPeerIdEmpty env.peerId = false ∧
      createOffer env s = invoke .createOffer none (.offerCreated env)
        (setNegotiating true (setPc pc' s)) := by
  rw [createOffer]
  split
  · exact Or.inl rfl
  · next pc hpc =>
      split
      · exact Or.inl rfl
      · next hpeer =>
          split
          · exact Or.inl rfl
          · next stream hstr =>
              split
              · exact Or.inl rfl
              · split
                · exact Or.inl rfl
                · next hneg =>
                    have hneg' : s.isNegotiatingRef = false := by simpa using hneg
                    split
                    · exact Or.inr (Or.inl ⟨hneg', rfl⟩)
                    · next pc' htr =>
                        refine Or.inr (Or.inr ⟨pc, pc', hpc, ?_, hneg',
                          by simpa using hpeer, rfl⟩)
                        split at htr
                        · cases htr; exact .refl _
                        · exact addTracks_sameSignaling _ htr

/-- How `handleSDPMessage` gets to its first `await`: there is no connection, it
    ends in its `catch`, or `setRemoteDescription` is awaited. -/
theorem handleSDPMessage_cases (env : Vars) (m : Received) (s : Page) :
    (s.peerConnectionRef = none ∧ handleSDPMessage env m s = noteSDP m s) ∨
    ∃ pc pc', s.peerConnectionRef = some pc ∧ SameSignaling pc pc' ∧
      ((handleSDPMessage env m s = setNegotiating false
          (setPc pc' (adoptSender env m (noteSDP m s))) ∧
        (∀ sdp, sdpOf m = some sdp → RTCSessionDescription sdp = none ∨
          tracksForOffer (isOfferSdp sdp) s.localStreamRef pc = none)) ∨
      ∃ sdp d, sdpOf m = some sdp ∧ RTCSessionDescription sdp = some d ∧
        handleSDPMessage env m s =
          invoke (.setRemoteDescription d) (some m)
            (.remoteApplied env m (isOfferSdp sdp))
            (setPc pc' (adoptSender env m (noteSDP m s)))) := by
  rw [handleSDPMessage]
  split
  · next hpc => exact Or.inl ⟨hpc, rfl⟩
  · next pc hpc =>
      have hpc1 : (adoptSender env m (noteSDP m s)).peerConnectionRef = some pc := by
        rw [adoptSender_pc]
        exact hpc
      have hstr : (adoptSender env m (noteSDP m s)).localStreamRef
          = s.localStreamRef := by
        rcases adoptSender_cases env m (noteSDP m s) with h | ⟨_, -, -, h⟩ <;>
          rw [h] <;> rfl
      refine Or.inr ?_
      split
      · next hsdp =>
          refine ⟨pc, pc, hpc, .refl _, Or.inl ⟨?_, ?_⟩⟩
          · rw [setPc_self hpc1]
          · intro sdp hs
            rw [hsdp] at hs
            exact nomatch hs
      · next sdp hsdp =>
          rw [applySDP]
          rw [hstr]
          split
          · next htr =>
              refine ⟨pc, pc, hpc, .refl _, Or.inl ⟨?_, ?_⟩⟩
              · rw [setPc_self hpc1]
              · intro sdp' hs
                rw [hsdp] at hs
                cases hs
                exact Or.inr htr
          · next pc' htr =>
              refine ⟨pc, pc', hpc, tracksForOffer_sameSignaling htr, ?_⟩
              split
              · next hd =>
                  refine Or.inl ⟨rfl, fun sdp' hs => ?_⟩
                  rw [hsdp] at hs
                  cases hs
                  exact Or.inl hd
              · next d hd => exact Or.inr ⟨sdp, d, hsdp, hd, rfl⟩

/-- `handleIceCandidateMessage` adopts the sender and maybe awaits
    `addIceCandidate`. -/
theorem handleIceCandidateMessage_cases (env : Vars) (m : Received) (s : Page) :
    (s.peerConnectionRef = none ∧ handleIceCandidateMessage env m s = s) ∨
    handleIceCandidateMessage env m s = adoptSender env m s ∨
    ∃ c, RTCIceCandidate (m.data.get "candidate") = some c ∧
      handleIceCandidateMessage env m s =
        invoke (.addIceCandidate c) (some m) .candidateAdded (adoptSender env m s) := by
  rw [handleIceCandidateMessage]
  split
  · next hpc => exact Or.inl ⟨hpc, rfl⟩
  · split
    · exact Or.inr (Or.inl rfl)
    · next c hc => exact Or.inr (Or.inr ⟨c, hc, rfl⟩)

/-- `sendMessage` adds at most one frame and touches nothing else. -/
theorem sendMessage_cases (env : Vars) (message : Members) (s : Page) :
    sendMessage env message s = s ∨
    (truthy env.clientId = true ∧ env.socket.isSome = true ∧
      sendMessage env message s = { s with
        sent := s.sent ++ [.obj (member "from" env.clientId ++ message)] }) := by
  rw [sendMessage]
  split
  · next ht =>
      split
      · next ws hs => exact Or.inr ⟨ht, by simp [hs], rfl⟩
      · exact Or.inl rfl
  · exact Or.inl rfl

/-- A handler that runs between two renders. -/
structure SameRender (s t : Page) : Prop where
  mounted : t.mounted = s.mounted
  vars : t.vars = s.vars
  effects : t.effects = s.effects
  mountVars : t.mountVars = s.mountVars
  connected : t.peerConnectionRef.isSome = s.peerConnectionRef.isSome

theorem SameRender.refl (s : Page) : SameRender s s := ⟨rfl, rfl, rfl, rfl, rfl⟩

theorem SameRender.trans {s t u : Page} (h₁ : SameRender s t)
    (h₂ : SameRender t u) : SameRender s u :=
  ⟨h₂.mounted.trans h₁.mounted, h₂.vars.trans h₁.vars,
    h₂.effects.trans h₁.effects, h₂.mountVars.trans h₁.mountVars,
    h₂.connected.trans h₁.connected⟩

theorem adoptSender_sameRender (env : Vars) (m : Received) (s : Page) :
    SameRender s (adoptSender env m s) := by
  rcases adoptSender_cases env m s with h | ⟨_, -, -, h⟩ <;> rw [h]
  · exact .refl s
  · exact ⟨rfl, rfl, rfl, rfl, rfl⟩

theorem handleSDPMessage_sameRender (env : Vars) (m : Received) (s : Page) :
    SameRender s (handleSDPMessage env m s) := by
  have hadopt : SameRender s (adoptSender env m (noteSDP m s)) :=
    SameRender.trans (t := noteSDP m s) ⟨rfl, rfl, rfl, rfl, rfl⟩
      (adoptSender_sameRender env m _)
  rcases handleSDPMessage_cases env m s with
    ⟨-, h⟩ | ⟨pc, pc', hpc, -, ⟨h, -⟩ | ⟨sdp, d, -, -, h⟩⟩ <;> rw [h]
  · exact ⟨rfl, rfl, rfl, rfl, rfl⟩
  · exact ⟨hadopt.mounted, hadopt.vars, hadopt.effects, hadopt.mountVars,
      by rw [hpc]; rfl⟩
  · exact ⟨hadopt.mounted, hadopt.vars, hadopt.effects, hadopt.mountVars,
      by rw [hpc]; rfl⟩

theorem handleIceCandidateMessage_sameRender (env : Vars) (m : Received)
    (s : Page) : SameRender s (handleIceCandidateMessage env m s) := by
  rcases handleIceCandidateMessage_cases env m s with ⟨-, h⟩ | h | ⟨c, -, h⟩ <;> rw [h]
  · exact .refl s
  · exact adoptSender_sameRender env m s
  · exact (adoptSender_sameRender env m s).trans ⟨rfl, rfl, rfl, rfl, rfl⟩

/-- What an arrival comes to, by the guard its message passes. -/
inductive Arrival (env : Vars) (s : Page) : Option Json → Page → Prop where
  | uncaught {data : Option Json} : data = none ∨ data = some .null →
      Arrival env s data (throwUncaught s)
  | welcome {j : Json} : isWelcomeMessage j = true → printable (j.get "id") = true →
      Arrival env s (some j) (enqueue (.setClientId (j.get "id")) (receive j s))
  | unprintable {j : Json} : isWelcomeMessage j = true → printable (j.get "id") = false →
      Arrival env s (some j)
        (throwUncaught (enqueue (.setClientId (j.get "id")) (receive j s)))
  | sdp {j : Json} : isWelcomeMessage j = false → isSDPMessage j = true →
      Arrival env s (some j)
        (enqueue (.setPendingSDP (some (s.arrival j))) (receive j s))
  | candidate {j : Json} : isWelcomeMessage j = false → isSDPMessage j = false →
      isICECandidateMessage j = true →
      Arrival env s (some j)
        (handleIceCandidateMessage env (s.arrival j) (receive j s))
  | ignored {j : Json} : isWelcomeMessage j = false → isSDPMessage j = false →
      isICECandidateMessage j = false → Arrival env s (some j) (receive j s)

theorem onmessage_cases (env : Vars) (data : Option Json) (s : Page) :
    Arrival env s data (onmessage env data s) := by
  simp only [onmessage]
  split
  · exact .uncaught (Or.inl rfl)
  · exact .uncaught (Or.inr rfl)
  · next j _ =>
      rw [dispatch]
      split
      · next hw =>
          rw [logClientId]
          split
          · next hp => exact .welcome hw hp
          · next hp => exact .unprintable hw (by simpa using hp)
      · next hw =>
          have hw' : isWelcomeMessage j = false := by simpa using hw
          split
          · next hs => exact .sdp hw' hs
          · next hs =>
              have hs' : isSDPMessage j = false := by simpa using hs
              split
              · next hc => exact .candidate hw' hs' hc
              · next hc => exact .ignored hw' hs' (by simpa using hc)

theorem onmessage_sameRender (env : Vars) (data : Option Json) (s : Page) :
    SameRender s (onmessage env data s) := by
  have ha := onmessage_cases env data s
  generalize onmessage env data s = t at ha
  cases ha with
  | uncaught => exact ⟨rfl, rfl, rfl, rfl, rfl⟩
  | welcome => exact ⟨rfl, rfl, rfl, rfl, rfl⟩
  | unprintable => exact ⟨rfl, rfl, rfl, rfl, rfl⟩
  | sdp => exact ⟨rfl, rfl, rfl, rfl, rfl⟩
  | @candidate j _ _ _ =>
      exact SameRender.trans (t := receive j s) ⟨rfl, rfl, rfl, rfl, rfl⟩
        (handleIceCandidateMessage_sameRender env _ _)
  | ignored => exact ⟨rfl, rfl, rfl, rfl, rfl⟩

theorem sendMessage_sameRender (env : Vars) (message : Members)
    (s : Page) : SameRender s (sendMessage env message s) := by
  rcases sendMessage_cases env message s with h | ⟨-, -, h⟩ <;> rw [h]
  · exact .refl s
  · exact ⟨rfl, rfl, rfl, rfl, rfl⟩

theorem onicecandidate_sameRender (env : Vars) (c : Option Json) (s : Page) :
    SameRender s (onicecandidate env c s) := by
  simp only [onicecandidate]
  split
  · split
    · exact sendMessage_sameRender env _ s
    · exact .refl s
  · exact .refl s

theorem createOffer_sameRender (env : Vars) (s : Page) :
    SameRender s (createOffer env s) := by
  rcases createOffer_cases env s with h | ⟨-, h⟩ | ⟨pc, pc', hpc, -, -, -, h⟩ <;>
    rw [h]
  · exact .refl s
  · exact ⟨rfl, rfl, rfl, rfl, rfl⟩
  · exact ⟨rfl, rfl, rfl, rfl, by rw [hpc]; rfl⟩

theorem reject_sameRender (call : Call) (s : Page) : SameRender s (reject call s) := by
  cases call <;> exact ⟨rfl, rfl, rfl, rfl, rfl⟩

theorem onsignalingstatechange_sameRender (states : List SignalingState)
    (s : Page) : SameRender s (onsignalingstatechange states s) := by
  rw [onsignalingstatechange]
  split
  · exact ⟨rfl, rfl, rfl, rfl, rfl⟩
  · exact .refl s

theorem resume_sameRender (sdp : String) (call : Call) (s : Page) :
    SameRender s (resume sdp call s) := by
  cases call with
  | offerCreated env => exact ⟨rfl, rfl, rfl, rfl, rfl⟩
  | offerApplied env offer => exact sendMessage_sameRender env _ s
  | remoteApplied env m isOffer =>
      unfold resume
      simp only
      split
      · exact ⟨rfl, rfl, rfl, rfl, rfl⟩
      · exact .refl s
  | answerCreated env m => exact ⟨rfl, rfl, rfl, rfl, rfl⟩
  | answerApplied env m answer => exact sendMessage_sameRender env _ s
  | candidateAdded => exact .refl s

theorem settle_sameRender {s : Page} {pc pc' : Pc} {call : Call}
    {rest : List (PcOp Json × Call)} {sdp : String} {states : List SignalingState}
    (hpc : s.peerConnectionRef = some pc) :
    SameRender s (resume sdp call (onsignalingstatechange states
      (setPc pc' (setChain rest s)))) := by
  have hchain : SameRender s (setPc pc' (setChain rest s)) :=
    ⟨rfl, rfl, rfl, rfl, by rw [hpc]; rfl⟩
  exact hchain.trans ((onsignalingstatechange_sameRender states _).trans
    (resume_sameRender sdp call _))

/-- An update of a variable that no message handler reads. -/
def Update.plain : Update → Bool
  | .setSocket _ => true
  | .setConnectionState _ => true
  | .setIsLocalStreamReady _ => true
  | _ => false

theorem foldl_plain (l : List Update) (v : Vars) (h : ∀ u ∈ l, u.plain = true) :
    (l.foldl Vars.apply v).clientId = v.clientId ∧
    (l.foldl Vars.apply v).peerId = v.peerId ∧
    (l.foldl Vars.apply v).pendingSDP = v.pendingSDP := by
  induction l generalizing v with
  | nil => exact ⟨rfl, rfl, rfl⟩
  | cons u l ih =>
      obtain ⟨h₁, h₂, h₃⟩ := ih (v.apply u) (fun w hw => h w (List.mem_cons_of_mem _ hw))
      have hu := h u (List.mem_cons_self ..)
      rw [List.foldl_cons, h₁, h₂, h₃]
      cases u with
      | setClientId id => exact nomatch hu
      | setPeerId id => exact nomatch hu
      | setPendingSDP m => exact nomatch hu
      | _ => exact ⟨rfl, rfl, rfl⟩

/-- A handler that takes no message and sets neither the client id, the peer id nor
    the pending description: what it adds to the history are operations of its
    own. -/
structure SameInbox (s t : Page) : Prop where
  queue : ∃ l : List Update, t.queue = s.queue ++ l ∧ ∀ u ∈ l, u.plain = true
  peerIdRef : t.peerIdRef = s.peerIdRef
  arrivals : t.arrivals = s.arrivals
  trace : ∃ ops : List (PcOp Json),
    t.trace = s.trace ++ ops.map (fun op => .invoked op none)

theorem SameInbox.of_trace {s t : Page} {l : List Update}
    (hq : t.queue = s.queue ++ l) (hl : ∀ u ∈ l, u.plain = true)
    (hp : t.peerIdRef = s.peerIdRef) (ha : t.arrivals = s.arrivals)
    (ht : t.trace = s.trace) : SameInbox s t :=
  ⟨⟨l, hq, hl⟩, hp, ha, [], by rw [ht, List.map_nil, List.append_nil]⟩

theorem SameInbox.of_queue {s t : Page} (hq : t.queue = s.queue)
    (hp : t.peerIdRef = s.peerIdRef) (ha : t.arrivals = s.arrivals)
    (ht : t.trace = s.trace) : SameInbox s t :=
  .of_trace (l := []) (by rw [hq, List.append_nil]) (by simp) hp ha ht

theorem SameInbox.refl (s : Page) : SameInbox s s := .of_queue rfl rfl rfl rfl

theorem SameInbox.trans {s t u : Page} (h₁ : SameInbox s t) (h₂ : SameInbox t u) :
    SameInbox s u := by
  obtain ⟨l₁, hq₁, hl₁⟩ := h₁.queue
  obtain ⟨l₂, hq₂, hl₂⟩ := h₂.queue
  obtain ⟨ops₁, ht₁⟩ := h₁.trace
  obtain ⟨ops₂, ht₂⟩ := h₂.trace
  refine ⟨⟨l₁ ++ l₂, ?_, ?_⟩, h₂.peerIdRef.trans h₁.peerIdRef,
    h₂.arrivals.trans h₁.arrivals, ops₁ ++ ops₂, ?_⟩
  · rw [hq₂, hq₁, List.append_assoc]
  · intro w hw
    rcases List.mem_append.mp hw with hw | hw
    · exact hl₁ w hw
    · exact hl₂ w hw
  · rw [ht₂, ht₁, List.map_append, List.append_assoc]

/-- Such a handler changes none of the three variables of the next render. -/
theorem SameInbox.next {s t : Page} (h : SameInbox s t) (hv : t.vars = s.vars) :
    t.next.clientId = s.next.clientId ∧ t.next.peerId = s.next.peerId ∧
      t.next.pendingSDP = s.next.pendingSDP := by
  obtain ⟨l, hq, hl⟩ := h.queue
  rw [next_of_append hv hq]
  exact foldl_plain l s.next hl

theorem invoke_sameInbox (op : PcOp Json) (call : Call) (s : Page) :
    SameInbox s (invoke op none call s) :=
  ⟨⟨[], (List.append_nil _).symm, by simp⟩, rfl, rfl, [op], rfl⟩

theorem setNegotiating_sameInbox (b : Bool) (s : Page) :
    SameInbox s (setNegotiating b s) := .of_queue rfl rfl rfl rfl

theorem sendMessage_sameInbox (env : Vars) (message : Members)
    (s : Page) : SameInbox s (sendMessage env message s) := by
  rcases sendMessage_cases env message s with h | ⟨-, -, h⟩ <;> rw [h]
  · exact .refl s
  · exact .of_queue rfl rfl rfl rfl

theorem onicecandidate_sameInbox (env : Vars) (c : Option Json) (s : Page) :
    SameInbox s (onicecandidate env c s) := by
  simp only [onicecandidate]
  split
  · split
    · exact sendMessage_sameInbox env _ s
    · exact .refl s
  · exact .refl s

theorem createOffer_sameInbox (env : Vars) (s : Page) :
    SameInbox s (createOffer env s) := by
  rcases createOffer_cases env s with h | ⟨-, h⟩ | ⟨pc, pc', -, -, -, -, h⟩ <;>
    rw [h]
  · exact .refl s
  · exact .of_queue rfl rfl rfl rfl
  · have hset : SameInbox s (setNegotiating true (setPc pc' s)) :=
      .of_queue rfl rfl rfl rfl
    exact hset.trans (invoke_sameInbox _ _ _)

theorem reject_sameInbox (call : Call) (s : Page) : SameInbox s (reject call s) := by
  cases call with
  | candidateAdded => exact .refl s
  | _ => exact setNegotiating_sameInbox false s

theorem onsignalingstatechange_sameInbox (states : List SignalingState)
    (s : Page) : SameInbox s (onsignalingstatechange states s) := by
  rw [onsignalingstatechange]
  split
  · exact setNegotiating_sameInbox false s
  · exact .refl s

theorem resume_sameInbox (sdp : String) (call : Call) (s : Page) :
    SameInbox s (resume sdp call s) := by
  cases call with
  | offerCreated env => exact invoke_sameInbox _ _ s
  | offerApplied env offer => exact sendMessage_sameInbox env _ s
  | remoteApplied env m isOffer =>
      unfold resume
      simp only
      split
      · exact (setNegotiating_sameInbox true s).trans (invoke_sameInbox _ _ _)
      · exact .refl s
  | answerCreated env m => exact invoke_sameInbox _ _ s
  | answerApplied env m answer => exact sendMessage_sameInbox env _ s
  | candidateAdded => exact .refl s

theorem settle_sameInbox {s : Page} {pc' : Pc} {call : Call}
    {rest : List (PcOp Json × Call)} {sdp : String} {states : List SignalingState} :
    SameInbox s (resume sdp call (onsignalingstatechange states
      (setPc pc' (setChain rest s)))) := by
  have hchain : SameInbox s (setPc pc' (setChain rest s)) := .of_queue rfl rfl rfl rfl
  exact hchain.trans ((onsignalingstatechange_sameInbox states _).trans
    (resume_sameInbox sdp call _))

/-- The events of the connection, of the media request and of the button. -/
def Event.isHandler : Event → Bool
  | .iceCandidate _ | .iceConnectionState _ | .userMedia _ | .press | .settle _ => true
  | _ => false

/-- The kinds of steps, by what they leave alone. -/
inductive Framed (s t : Page) : Event → Prop where
  | render : Framed s t .render
  | flushEffects : Framed s t .flushEffects
  | unmount : Framed s t .unmount
  | message {data : Option Json} : SameRender s t → Framed s t (.message data)
  | edit {v : String} : SameRender s t → Framed s t (.edit v)
  | handler {e : Event} : e.isHandler = true → SameRender s t → SameInbox s t →
      Framed s t e

/-- A page step is a render, a flush of effects, the unmount, or a handler that runs
    between two renders; of the handlers only arrivals and edits touch the inbox. -/
theorem Step.frame {s s' : Page} {e : Event} (h : Step s e s') : Framed s s' e := by
  cases h with
  | render => exact .render
  | flushEffects => exact .flushEffects
  | unmount => exact .unmount
  | message => exact .message (onmessage_sameRender _ _ s)
  | edit => exact .edit ⟨rfl, rfl, rfl, rfl, rfl⟩
  | iceCandidate =>
      exact .handler rfl (onicecandidate_sameRender _ _ s) (onicecandidate_sameInbox _ _ s)
  | iceConnectionState =>
      exact .handler rfl ⟨rfl, rfl, rfl, rfl, rfl⟩
        (.of_trace rfl (by simp [Update.plain]) rfl rfl rfl)
  | mediaGranted =>
      exact .handler rfl ⟨rfl, rfl, rfl, rfl, rfl⟩
        (.of_trace rfl (by simp [Update.plain]) rfl rfl rfl)
  | mediaDenied => exact .handler rfl ⟨rfl, rfl, rfl, rfl, rfl⟩ (.of_queue rfl rfl rfl rfl)
  | press => exact .handler rfl (createOffer_sameRender _ s) (createOffer_sameInbox _ s)
  | @rejected pc op call rest _ _ _ =>
      have hchain : SameInbox s (setChain rest s) := .of_queue rfl rfl rfl rfl
      have hrender : SameRender s (setChain rest s) := ⟨rfl, rfl, rfl, rfl, rfl⟩
      exact .handler rfl (hrender.trans (reject_sameRender _ _))
        (hchain.trans (reject_sameInbox _ _))
  | fulfilled _ hpc => exact .handler rfl (settle_sameRender hpc) settle_sameInbox

/-! ## The signaling state -/

/-- The signaling state of the page's connection, once there is one. -/
def Page.signaling (s : Page) : Option SignalingState :=
  s.peerConnectionRef.map Pc.signalingState

theorem signaling_some {s : Page} {pc : Pc} (h : s.peerConnectionRef = some pc) :
    s.signaling = some pc.signalingState := by
  rw [Page.signaling, h]
  rfl

@[simp] theorem adoptSender_signaling (env : Vars) (m : Received) (s : Page) :
    (adoptSender env m s).signaling = s.signaling := by
  rw [Page.signaling, adoptSender_pc, Page.signaling]

theorem createOffer_signaling (env : Vars) (s : Page) :
    (createOffer env s).signaling = s.signaling := by
  rcases createOffer_cases env s with h | ⟨-, h⟩ | ⟨pc, pc', hpc, hsig, -, -, h⟩
  · rw [h]
  · rw [h]
    rfl
  · rw [h, signaling_some hpc, ← hsig.state]
    rfl

theorem handleSDPMessage_signaling (env : Vars) (m : Received) (s : Page) :
    (handleSDPMessage env m s).signaling = s.signaling := by
  rcases handleSDPMessage_cases env m s with
    ⟨-, h⟩ | ⟨pc, pc', hpc, hsig, ⟨h, -⟩ | ⟨sdp, d, -, -, h⟩⟩
  · rw [h]
    rfl
  · rw [h, signaling_some hpc, ← hsig.state]
    rfl
  · rw [h, signaling_some hpc, ← hsig.state]
    rfl

@[simp] theorem handleIceCandidateMessage_pc (env : Vars) (m : Received) (s : Page) :
    (handleIceCandidateMessage env m s).peerConnectionRef = s.peerConnectionRef := by
  rcases handleIceCandidateMessage_cases env m s with ⟨-, h⟩ | h | ⟨c, -, h⟩ <;> rw [h]
  · exact adoptSender_pc env m s
  · exact adoptSender_pc env m s

@[simp] theorem onmessage_pc (env : Vars) (data : Option Json) (s : Page) :
    (onmessage env data s).peerConnectionRef = s.peerConnectionRef := by
  have ha := onmessage_cases env data s
  generalize onmessage env data s = t at ha
  cases ha with
  | candidate => exact handleIceCandidateMessage_pc env _ _
  | _ => rfl

@[simp] theorem sendMessage_pc (env : Vars) (message : Members)
    (s : Page) :
    (sendMessage env message s).peerConnectionRef = s.peerConnectionRef := by
  rcases sendMessage_cases env message s with h | ⟨-, -, h⟩ <;> rw [h]

@[simp] theorem onicecandidate_pc (env : Vars) (c : Option Json) (s : Page) :
    (onicecandidate env c s).peerConnectionRef = s.peerConnectionRef := by
  simp only [onicecandidate]
  split
  · split
    · exact sendMessage_pc env _ s
    · rfl
  · rfl

@[simp] theorem reject_pc (call : Call) (s : Page) :
    (reject call s).peerConnectionRef = s.peerConnectionRef := by
  cases call <;> rfl

@[simp] theorem onsignalingstatechange_pc (states : List SignalingState) (s : Page) :
    (onsignalingstatechange states s).peerConnectionRef = s.peerConnectionRef := by
  rw [onsignalingstatechange]
  split <;> rfl

@[simp] theorem resume_pc (sdp : String) (call : Call) (s : Page) :
    (resume sdp call s).peerConnectionRef = s.peerConnectionRef := by
  cases call with
  | offerApplied env offer => exact sendMessage_pc env _ s
  | remoteApplied env m isOffer => cases isOffer <;> rfl
  | answerApplied env m answer => exact sendMessage_pc env _ s
  | _ => rfl

theorem runEffect_signaling (s : Page) {e : Effect} (he : e ≠ .mount) :
    (runEffect s e).signaling = s.signaling := by
  cases e with
  | syncPeerId => rfl
  | mount => exact absurd rfl he
  | processPendingSDP =>
      simp only [runEffect]
      split
      · split
        · exact handleSDPMessage_signaling _ _ s
        · rfl
      · rfl

/-- The connection of a mounted page is open. -/
def IsOpen (s : Page) : Prop := s.mounted = true → s.signaling ≠ some .closed

theorem isOpen_flush (es : List Effect) :
    ∀ s : Page, s.signaling ≠ some .closed →
      (es.foldl runEffect s).signaling ≠ some .closed := by
  induction es with
  | nil => intro s hs; exact hs
  | cons e es ih =>
      intro s hs
      refine ih _ ?_
      by_cases he : e = .mount
      · rw [he]
        exact fun h => (nomatch h)
      · rw [runEffect_signaling s he]
        exact hs

theorem isOpen_step {s s' : Page} {e : Event} (hi : IsOpen s) (h : Step s e s') :
    IsOpen s' := by
  cases h with
  | flushEffects hm => exact fun _ => isOpen_flush _ _ (hi hm)
  | message hm => exact fun _ => by rw [Page.signaling, onmessage_pc]; exact hi hm
  | iceCandidate hm =>
      exact fun _ => by rw [Page.signaling, onicecandidate_pc]; exact hi hm
  | press hm => exact fun _ => by rw [createOffer_signaling]; exact hi hm
  | rejected hm => exact fun _ => by rw [Page.signaling, reject_pc]; exact hi hm
  | fulfilled hm hpc _ hperf =>
      intro _ hc
      rw [Page.signaling, resume_pc, onsignalingstatechange_pc] at hc
      rw [IsOpen, signaling_some hpc] at hi
      exact perform_open hperf (fun h => hi hm (congrArg some h)) (Option.some.inj hc)
  | unmount => exact fun hm => (nomatch hm)
  | _ => exact hi

theorem isOpen_reachable {s : Page} (h : Reachable page s) : IsOpen s := by
  refine ReachVia.invariant (fun s hs => ?_) (fun s e s' _ hi _ hst => ?_) h
  · subst hs
    exact fun _ hc => (nomatch hc)
  · exact isOpen_step hi (step_cases hst)

/-- Nothing is queued and no effect is due. -/
def Quiet (s : Page) : Prop := s.queue = [] ∧ s.effects = []

instance (s : Page) : Decidable (Quiet s) := inferInstanceAs (Decidable (_ ∧ _))

end CamPage
