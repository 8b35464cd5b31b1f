import WebRtcCam.CamRoutingProofs
import WebRtcCam.CamPageProofs

/-! # The hook `useSignaling`, and a message all the way

    `webrtc/src/hooks/useSignaling.ts`: the same signaling as in the page, with the
    handlers passed in by the caller.

    A message goes through three descriptions of one format: the object literal with
    its spread and `JSON.stringify`, the derived decoder of the server, and the type
    guards of the receiver.  What the server needs it decodes; what it passes on is the
    text itself.

    * `deserialize_outgoing` — the server reads sender and recipient;
    * `wire_round_trip` — whatever is sent arrives as it was sent, where it was sent,
      at the handler of its kind. -/

namespace UseSignaling

open JsonText CamWire
open CamPage (member)
open CamRelay (Addr Relay WebSocketSession)

/-! ## The hook -/

/-- The `useState` variables; sockets are numbered. -/
structure Vars where
  socket : Option Nat
  clientId : Js
  isConnected : Bool
  deriving DecidableEq

def Vars.initial : Vars := ⟨none, some .null, false⟩

/-- What `ws.onmessage` does with a message: it sets the client id or calls one of the
    caller's handlers. -/
inductive Reaction where
  | setClientId (id : Js)
  | onOffer (message : Json)
  | onAnswer (message : Json)
  | onIceCandidate (message : Json)
  | ignored
  | uncaught
  deriving DecidableEq

/-- `isOfferMessage`. -/
def isOfferMessage (message : Json) : Bool := hasType "offer" message

/-- `isAnswerMessage`. -/
def isAnswerMessage (message : Json) : Bool := hasType "answer" message

/-- `ws.onmessage`: `JSON.parse` throws on what is no JSON text (`none`), and the access
    to `type` throws on `null`.  The log line after `setClientId` may throw too, when there
    is nothing left to do. -/
def onmessage : Option Json → Reaction
  | none => .uncaught
  | some .null => .uncaught
  | some message =>
      if isWelcomeMessage message then .setClientId (message.get "id")
      else if isOfferMessage message then .onOffer message
      else if isAnswerMessage message then .onAnswer message
      else if isICECandidateMessage message then .onIceCandidate message
      else .ignored

/-- `sendMessage`: the frame handed to the socket, if there is a client id and a
    socket. -/
def sendMessage (env : Vars) (message : Members) : List Json :=
  if truthy env.clientId then
    match env.socket with
    | some _ => [.obj (member "from" env.clientId ++ message)]
    | none => []
  else []

/-- `sendOffer`. -/
def sendOffer (env : Vars) (dest : Js) (sdp : Json) : List Json :=
  sendMessage env (member "to" dest ++ ([("sdp", sdp), ("type", .str "offer")] : Members))

/-- `sendAnswer`. -/
def sendAnswer (env : Vars) (dest : Js) (sdp : Json) : List Json :=
  sendMessage env (member "to" dest ++ ([("sdp", sdp), ("type", .str "answer")] : Members))

/-- `sendCandidate`. -/
def sendCandidate (env : Vars) (dest : Js) (candidate : Json) : List Json :=
  sendMessage env
    (member "to" dest ++ ([("candidate", candidate), ("type", .str "candidate")] : Members))

/-! ## Outgoing messages -/

/-- The kinds of messages that are sent. -/
inductive Kind where
  | offer | answer | candidate
  deriving DecidableEq, Repr

/-- The member that has the payload. -/
def Kind.field : Kind → String
  | .offer => "sdp"
  | .answer => "sdp"
  | .candidate => "candidate"

/-- The value of `type`. -/
def Kind.type : Kind → String
  | .offer => "offer"
  | .answer => "answer"
  | .candidate => "candidate"

/-- The object passed to `sendMessage`. -/
def Kind.literal (k : Kind) (dest : String) (payload : Json) : Members :=
  [("to", .str dest), (k.field, payload), ("type", .str k.type)]

/-- The three functions the hook returns. -/
def Kind.send (k : Kind) (env : Vars) (dest : Js) (payload : Json) : List Json :=
  match k with
  | .offer => sendOffer env dest payload
  | .answer => sendAnswer env dest payload
  | .candidate => sendCandidate env dest payload

/-- The message on the wire. -/
def outgoing (clientId dest : String) (k : Kind) (payload : Json) : Json :=
  .obj [("from", .str clientId), ("to", .str dest), (k.field, payload),
    ("type", .str k.type)]

section Outgoing

variable (clientId dest : String) (k : Kind) (payload : Json)

@[simp] theorem outgoing_type :
    (outgoing clientId dest k payload).get "type" = some (.str k.type) := by
  cases k <;> rfl

@[simp] theorem outgoing_payload :
    (outgoing clientId dest k payload).get k.field = some payload := by
  cases k <;> rfl

theorem outgoing_isText (hpay : payload.isText = true) :
    (outgoing clientId dest k payload).isText = true := by
  cases k <;> simp [outgoing, Kind.field, Json.isText, isTextMembers, hpay]

/-- The server reads sender and recipient, and ignores the type.  A payload it keeps has
    texts for strings. -/
theorem deserialize_outgoing (hpay : payload.isText = true) :
    ∃ m, Message.deserialize (outgoing clientId dest k payload) = some m ∧
      m.from = clientId ∧ m.to = dest := by
  obtain ⟨v, hv⟩ : ∃ v, valueField payload = some v := ⟨_, valueField_isText hpay⟩
  cases k with
  | offer =>
      exact ⟨⟨clientId, dest, v, none⟩,
        by simp [Message.deserialize, outgoing, Kind.field, Kind.type, visitMember, hv],
        rfl, rfl⟩
  | answer =>
      exact ⟨⟨clientId, dest, v, none⟩,
        by simp [Message.deserialize, outgoing, Kind.field, Kind.type, visitMember, hv],
        rfl, rfl⟩
  | candidate =>
      exact ⟨⟨clientId, dest, none, v⟩,
        by simp [Message.deserialize, outgoing, Kind.field, Kind.type, visitMember, hv],
        rfl, rfl⟩

/-- The frames that are sent under a client id: none under the empty one. -/
def sentUnder (clientId : String) (message : Json) : List Json :=
  if clientId = "" then [] else [message]

/-- The page hands exactly this object to its socket. -/
theorem page_sends {env : CamPage.Vars} (s : CamPage.Page)
    (hclient : env.clientId = some (.str clientId)) (hsock : env.socket.isSome = true) :
    (CamPage.sendMessage env (k.literal dest payload) s).sent
      = s.sent ++ sentUnder clientId (outgoing clientId dest k payload) := by
  obtain ⟨ws, hws⟩ := Option.isSome_iff_exists.mp hsock
  rw [CamPage.sendMessage, sentUnder]
  rw [hclient, hws]
  by_cases hid : clientId = ""
  · rw [if_pos hid, hid, if_neg (by simp), List.append_nil]
  · rw [if_neg hid, if_pos ((truthy_str clientId).mpr hid)]
    rfl

/-- And so does the hook. -/
theorem hook_sends {env : Vars} (hclient : env.clientId = some (.str clientId))
    (hsock : env.socket.isSome = true) :
    k.send env (some (.str dest)) payload
      = sentUnder clientId (outgoing clientId dest k payload) := by
  obtain ⟨ws, hws⟩ := Option.isSome_iff_exists.mp hsock
  have hsend : ∀ message, sendMessage env message
      = sentUnder clientId (.obj (member "from" (some (.str clientId)) ++ message)) := by
    intro message
    rw [sendMessage, sentUnder]
    rw [hclient, hws]
    by_cases hid : clientId = ""
    · rw [if_pos hid, hid, if_neg (by simp)]
    · rw [if_neg hid, if_pos ((truthy_str clientId).mpr hid)]
  cases k with
  | offer => exact hsend _
  | answer => exact hsend _
  | candidate => exact hsend _

/-- The message passes the guard of its kind and no other. -/
theorem outgoing_guards :
    isWelcomeMessage (outgoing clientId dest k payload) = false ∧
    isSDPMessage (outgoing clientId dest k payload) = decide (k ≠ .candidate) ∧
    isICECandidateMessage (outgoing clientId dest k payload) = decide (k = .candidate) := by
  simp only [isWelcomeMessage, isSDPMessage, isICECandidateMessage, hasType]
  rw [outgoing_type]
  cases k <;> decide

/-- The page gives the message to the handler of its kind. -/
theorem page_dispatches (env : CamPage.Vars) (s : CamPage.Page) :
    CamPage.onmessage env (some (outgoing clientId dest k payload)) s =
      if k = .candidate then
        CamPage.handleIceCandidateMessage env (s.arrival (outgoing clientId dest k payload))
          (CamPage.receive (outgoing clientId dest k payload) s)
      else
        CamPage.enqueue
          (.setPendingSDP (some (s.arrival (outgoing clientId dest k payload))))
          (CamPage.receive (outgoing clientId dest k payload) s) := by
  obtain ⟨hw, hs, hc⟩ := outgoing_guards clientId dest k payload
  show CamPage.dispatch env (outgoing clientId dest k payload) s = _
  rw [CamPage.dispatch]
  rw [hw, hs, hc]
  cases k <;> rfl

/-- The handler of the hook a message of this kind is for. -/
def Kind.reaction (k : Kind) (message : Json) : Reaction :=
  match k with
  | .offer => .onOffer message
  | .answer => .onAnswer message
  | .candidate => .onIceCandidate message

theorem hook_dispatches :
    onmessage (some (outgoing clientId dest k payload))
      = k.reaction (outgoing clientId dest k payload) := by
  have htype : ∀ t, hasType t (outgoing clientId dest k payload) = decide (k.type = t) := by
    intro t
    rw [hasType, outgoing_type]
    simp
  show (if isWelcomeMessage _ then _ else _) = _
  rw [isWelcomeMessage, isOfferMessage, isAnswerMessage, isICECandidateMessage]
  rw [htype, htype, htype, htype]
  cases k <;> rfl

end Outgoing

/-! ## Through the relay -/

section Relay

variable {from_str : String → Option Message} {r r' : Relay} {a b : Addr}

/-- A text that decodes is passed on to the server under its recipient. -/
theorem frame_relays {t : String} {m : Message} (hdec : from_str t = some m)
    (h : CamRelay.step from_str r (.frame a (some (.text t))) = some r') :
    ∃ x x', r.actor a = some x ∧ r'.actor a = some x' ∧
      x'.toServer = x.toServer ++ [.sendMessage m.to t] := by
  cases CamRelay.step_cases h with
  | @frame _ x _ hx _ =>
      refine ⟨x, _, hx, CamRelay.setActor_self _ _ _, ?_⟩
      show x.toServer ++ (CamRelay.relayOf from_str t).toList = _
      rw [CamRelay.relayOf, hdec]
      rfl

/-- The server puts it into the mailbox of the session registered under that id. -/
theorem serve_routes {x y : WebSocketSession} {dest t : String}
    {rest : List CamRelay.ServerMsg} (hx : r.actor a = some x)
    (hq : x.toServer = .sendMessage dest t :: rest)
    (h : CamRelay.step from_str r (.serve a) = some r') (hs : r.sessions dest = some b)
    (hy : r.actor b = some y) (hp : y.phase ≠ .stopped) :
    ∃ y', r'.actor b = some y' ∧ y'.mailbox = y.mailbox ++ [t] := by
  cases CamRelay.step_cases h with
  | serve hx' hq' =>
      cases hx.symm.trans hx'
      cases hq.symm.trans hq'
      refine ⟨CamRelay.afterServe r a (.sendMessage dest t) rest b y, ?_, ?_⟩
      · rw [CamRelay.serveMsg_actor hx, hy]
        rfl
      · show y.mailbox ++ CamRelay.gift r b y (.sendMessage dest t) = _
        rw [CamRelay.gift, if_pos ⟨hs, hp⟩]

/-- The session writes it to its socket. -/
theorem deliver_writes {y : WebSocketSession} {t : String} {rest : List String}
    (hy : r.actor b = some y) (hm : y.mailbox = t :: rest)
    (h : CamRelay.step from_str r (.deliver b) = some r') :
    ∃ y', r'.actor b = some y' ∧ y'.socket = y.socket ++ [t] := by
  cases CamRelay.step_cases h with
  | deliver hy' _ hm' =>
      cases hy.symm.trans hy'
      cases hm.symm.trans hm'
      exact ⟨_, CamRelay.setActor_self _ _ _, rfl⟩

end Relay

/-- What it is for the message of one kind, from one client to another, to get through:
    page and hook send the same object (none under an empty client id); the server decodes
    sender and recipient of its text, hands the text to the session with that id and this
    one writes it; and the text parses to the object again, which passes one guard and gets
    to the handler of its kind, with its payload. -/
structure GetsThrough (from_str : String → Option Message) (clientId dest : String)
    (k : Kind) (payload : Json) (message : Json) : Prop where
  page : ∀ (env : CamPage.Vars) (s : CamPage.Page),
    env.clientId = some (.str clientId) → env.socket.isSome = true →
    (CamPage.sendMessage env (k.literal dest payload) s).sent
      = s.sent ++ sentUnder clientId message
  hook : ∀ env : Vars, env.clientId = some (.str clientId) → env.socket.isSome = true →
    k.send env (some (.str dest)) payload = sentUnder clientId message
  decoded : ∃ m, from_str (render message) = some m ∧ m.from = clientId ∧ m.to = dest
  accepted : ∀ r r' a,
    CamRelay.step from_str r (.frame a (some (.text (render message)))) = some r' →
    ∃ x x', r.actor a = some x ∧ r'.actor a = some x' ∧
      x'.toServer = x.toServer ++ [.sendMessage dest (render message)]
  routed : ∀ r r' a x rest b, LtsRun.Reachable (CamRelay.relay from_str) r →
    r.actor a = some x → x.toServer = .sendMessage dest (render message) :: rest →
    CamRelay.step from_str r (.serve a) = some r' → r.sessions dest = some b →
    ∃ y, r.actor b = some y ∧ y.id = dest ∧ (y.phase ≠ .stopped →
      ∃ y', r'.actor b = some y' ∧ y'.mailbox = y.mailbox ++ [render message])
  written : ∀ r r' b y rest, r.actor b = some y → y.mailbox = render message :: rest →
    CamRelay.step from_str r (.deliver b) = some r' →
    ∃ y', r'.actor b = some y' ∧ y'.socket = y.socket ++ [render message]
  parsed : parse (render message) = some message
  oneGuard : [isWelcomeMessage message, isSDPMessage message,
    isICECandidateMessage message].count true = 1
  payload : message.get k.field = some payload
  pageHandler : ∀ (env : CamPage.Vars) (s : CamPage.Page),
    CamPage.onmessage env (parse (render message)) s =
      if k = .candidate then
        CamPage.handleIceCandidateMessage env (s.arrival message) (CamPage.receive message s)
      else
        CamPage.enqueue (.setPendingSDP (some (s.arrival message)))
          (CamPage.receive message s)
  hookHandler : onmessage (parse (render message)) = k.reaction message

/-- **EVERY MESSAGE GETS THROUGH**, of every kind, with any client id, recipient and
    payload whose strings are texts, if the server's decoder reads the texts of such JSON
    values as the derived decoder says. -/
theorem wire_round_trip {from_str : String → Option Message}
    (hserde : ∀ j, j.isText = true → from_str (render j) = Message.deserialize j)
    (clientId dest : String) (k : Kind) (payload : Json) (hpay : payload.isText = true) :
    GetsThrough from_str clientId dest k payload (outgoing clientId dest k payload) := by
  obtain ⟨m, hm, hfrom, hto⟩ := deserialize_outgoing clientId dest k payload hpay
  have hdec : from_str (render (outgoing clientId dest k payload)) = some m := by
    rw [hserde _ (outgoing_isText clientId dest k payload hpay), hm]
  refine
    { page := fun env s hc hs => page_sends clientId dest k payload s hc hs
      hook := fun env hc hs => hook_sends clientId dest k payload hc hs
      decoded := ⟨m, hdec, hfrom, hto⟩
      accepted := fun r r' a h => ?_
      routed := fun r r' a x rest b hr hx hq h hs => ?_
      written := fun r r' b y rest hy hmail h => deliver_writes hy hmail h
      parsed := parse_render _
      oneGuard := ?_
      payload := outgoing_payload clientId dest k payload
      pageHandler := fun env s => ?_
      hookHandler := ?_ }
  · obtain ⟨x, x', hx, hx', hq⟩ := frame_relays hdec h
    rw [hto] at hq
    exact ⟨x, x', hx, hx', hq⟩
  · obtain ⟨y, hy, hyid, -⟩ := (CamRouting.registry_reachable hr).owner
      (CamRelay.pairFifo_reachable hr) hs
    exact ⟨y, hy, hyid, fun hp => serve_routes hx hq h hs hy hp⟩
  · obtain ⟨hw, hs, hc⟩ := outgoing_guards clientId dest k payload
    rw [hw, hs, hc]
    cases k <;> decide
  · rw [parse_render]
    exact page_dispatches clientId dest k payload env s
  · rw [parse_render]
    exact hook_dispatches clientId dest k payload

/-- A candidate with an escaped text, a null and a nested array in it. -/
def samplePayload : Json :=
  .obj [("candidate", .str "a\"b\n"), ("sdpMid", .null),
    ("sdpMLineIndex", .arr [.num ⟨['0'], by decide⟩, .obj []])]

theorem wire_round_trip_sample :
    CamWire.from_str (render (outgoing "a" "b" .candidate samplePayload))
      = some ⟨"a", "b", none, some samplePayload⟩ ∧
    GetsThrough CamWire.from_str "a" "b" .candidate samplePayload
      (outgoing "a" "b" .candidate samplePayload) := by
  have hserde : ∀ j, j.isText = true →
      CamWire.from_str (render j) = Message.deserialize j := by
    intro j _
    rw [CamWire.from_str, parse_render]
    rfl
  have hpay : samplePayload.isText = true := by decide
  refine ⟨?_, wire_round_trip hserde "a" "b" .candidate samplePayload hpay⟩
  rw [hserde _ (outgoing_isText "a" "b" .candidate samplePayload hpay)]
  rfl

end UseSignaling
