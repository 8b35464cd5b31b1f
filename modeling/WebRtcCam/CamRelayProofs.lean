import WebRtcCam.LtsRunProofs
import WebRtcCam.CamWireProofs

/-! # The signaling relay — three kinds of actors, one registry

    `signaling/src/main.rs`: a `SignalingServer` actor holding the registry
    `sessions`, and one `WebSocketSession` actor per connection.  Everything
    between them is `do_send`, so a run interleaves

    * `connect` — `ws_handler` creates a session with a fresh id;
    * `start` — the session's `started`, before any other message of it;
    * `frame` — its `StreamHandler` is handed a frame of the client;
    * `serve` — the server handles the oldest message ONE session sent it
      (mailboxes are FIFO per sender and receiver, so senders interleave
      freely);
    * `deliver` — a session handles the oldest `WsMessage` of its mailbox;
    * `stop` — a session's `stopping`, after which it handles nothing.

    This file has the model, the inversion of its steps (`Step`), and the one
    invariant all routing results rest on (`PairFifo`): what the server has
    handled from a session, followed by what is still on its way, is exactly
    what that session's life so far has emitted. -/

namespace CamRelay

open LtsRun CamWire

/-- An actor address, `Addr<WebSocketSession>`. -/
abbrev Addr := Nat

/-- The life cycle of a session actor. -/
inductive Phase where
  | created | running | stopped
  deriving DecidableEq, Repr

/-- The messages the server handles. -/
inductive ServerMsg where
  | registerSession (id : String) (addr : Addr)
  | unregisterSession (id : String)
  | sendMessage («to» : String) (msg : String)
  deriving DecidableEq, Repr

/-- `ws::Message`: only the text of a text frame is ever looked at. -/
inductive WsFrame where
  | text (t : String)
  | binary | continuation | ping | pong | close | nop
  deriving DecidableEq, Repr

/-- A `WebSocketSession` with its context.  `toServer` holds what it sent to the
    server and the server has not handled; `mailbox` the texts of its
    `WsMessage`s; `socket` the texts written by `ctx.text`, in order, and
    `received` the text frames handled, in order. -/
structure WebSocketSession where
  id : String
  phase : Phase
  toServer : List ServerMsg
  mailbox : List String
  socket : List String
  received : List String
  deriving DecidableEq, Repr

/-- The relay.  `issued` are the ids drawn so far, `handled` everything the
    server has handled, with its sender, in order. -/
structure Relay where
  sessions : String → Option Addr
  actor : Addr → Option WebSocketSession
  issued : List String
  handled : List (Addr × ServerMsg)

/-- The steps of a run.  A frame is `none` for a protocol error. -/
inductive Event where
  | connect (a : Addr) (id : String)
  | start (a : Addr)
  | frame (a : Addr) (f : Option WsFrame)
  | serve (a : Addr)
  | deliver (a : Addr)
  | stop (a : Addr)
  deriving DecidableEq, Repr

/-- `SignalingServer::new`, before the first connection. -/
def initial : Relay where
  sessions := fun _ => none
  actor := fun _ => none
  issued := []
  handled := []

def setActor (s : Relay) (a : Addr) (x : WebSocketSession) : Relay :=
  { s with actor := Function.update s.actor a (some x) }

section Handlers

variable (from_str : String → Option Message)

/-- The session `ws_handler` creates. -/
def newSession (id : String) : WebSocketSession where
  id := id
  phase := .created
  toServer := []
  mailbox := []
  socket := []
  received := []

/-- `WebSocketSession::started`. -/
def started (a : Addr) (x : WebSocketSession) : WebSocketSession :=
  { x with
    phase := .running
    toServer := x.toServer ++ [.registerSession x.id a]
    socket := x.socket ++ [welcomeText x.id] }

/-- `WebSocketSession::stopping`; the rest of the mailbox is never handled. -/
def stopping (x : WebSocketSession) : WebSocketSession :=
  { x with
    phase := .stopped
    toServer := x.toServer ++ [.unregisterSession x.id]
    mailbox := [] }

/-- What the session sends for one text: nothing if it does not decode. -/
def relayOf (t : String) : Option ServerMsg :=
  (from_str t).map (fun m => .sendMessage m.to t)

/-- `StreamHandler::handle`. -/
def handleFrame (x : WebSocketSession) : Option WsFrame → WebSocketSession
  | some (.text t) =>
      { x with
        received := x.received ++ [t]
        toServer := x.toServer ++ (relayOf from_str t).toList }
  | _ => x

/-- `Handler<WsMessage>::handle`, for the oldest message of the mailbox. -/
def handleWsMessage (x : WebSocketSession) (t : String) (rest : List String) :
    WebSocketSession :=
  { x with mailbox := rest, socket := x.socket ++ [t] }

/-- `session.do_send(WsMessage(msg))`: refused only by a stopped actor. -/
def doSend (s : Relay) (b : Addr) (msg : String) : Relay :=
  match s.actor b with
  | some y =>
      if y.phase = .stopped then s
      else setActor s b { y with mailbox := y.mailbox ++ [msg] }
  | none => s

/-- The server's three handlers. -/
def handleServer (s : Relay) : ServerMsg → Relay
  | .registerSession id addr =>
      { s with sessions := Function.update s.sessions id (some addr) }
  | .unregisterSession id =>
      { s with sessions := Function.update s.sessions id none }
  | .sendMessage dest msg =>
      match s.sessions dest with
      | some b => doSend s b msg
      | none => s

/-- The server takes `m` from the queue of session `a` and handles it. -/
def serveMsg (s : Relay) (a : Addr) (x : WebSocketSession) (m : ServerMsg)
    (rest : List ServerMsg) : Relay :=
  handleServer
    { setActor s a { x with toServer := rest } with
      handled := s.handled ++ [(a, m)] } m

/-- One step of the relay. -/
def step (s : Relay) : Event → Option Relay
  | .connect a id =>
      if (s.actor a).isNone ∧ id ∉ s.issued ∧ isUuid id = true then
        some { setActor s a (newSession id) with issued := id :: s.issued }
      else none
  | .start a =>
      match s.actor a with
      | some x => if x.phase = .created then some (setActor s a (started a x)) else none
      | none => none
  | .frame a f =>
      match s.actor a with
      | some x =>
          if x.phase = .running then some (setActor s a (handleFrame from_str x f))
          else none
      | none => none
  | .serve a =>
      match s.actor a with
      | some x =>
          match x.toServer with
          | m :: rest => some (serveMsg s a x m rest)
          | [] => none
      | none => none
  | .deliver a =>
      match s.actor a with
      | some x =>
          if x.phase = .running then
            match x.mailbox with
            | t :: rest => some (setActor s a (handleWsMessage x t rest))
            | [] => none
          else none
      | none => none
  | .stop a =>
      match s.actor a with
      | some x => if x.phase = .running then some (setActor s a (stopping x)) else none
      | none => none

/-- The relay as a transition system. -/
def relay : Lts Relay Event where
  init := fun s => s = initial
  step := step from_str

/-! ## Inversion: everything a step can be -/

/-- The steps of the relay, as a relation. -/
inductive Step : Relay → Event → Relay → Prop where
  | connect {s : Relay} {a : Addr} {id : String} :
      s.actor a = none → id ∉ s.issued → isUuid id = true →
      Step s (.connect a id)
        { setActor s a (newSession id) with issued := id :: s.issued }
  | start {s : Relay} {a : Addr} {x : WebSocketSession} :
      s.actor a = some x → x.phase = .created →
      Step s (.start a) (setActor s a (started a x))
  | frame {s : Relay} {a : Addr} {x : WebSocketSession} {f : Option WsFrame} :
      s.actor a = some x → x.phase = .running →
      Step s (.frame a f) (setActor s a (handleFrame from_str x f))
  | serve {s : Relay} {a : Addr} {x : WebSocketSession} {m : ServerMsg}
      {rest : List ServerMsg} :
      s.actor a = some x → x.toServer = m :: rest →
      Step s (.serve a) (serveMsg s a x m rest)
  | deliver {s : Relay} {a : Addr} {x : WebSocketSession} {t : String}
      {rest : List String} :
      s.actor a = some x → x.phase = .running → x.mailbox = t :: rest →
      Step s (.deliver a) (setActor s a (handleWsMessage x t rest))
  | stop {s : Relay} {a : Addr} {x : WebSocketSession} :
      s.actor a = some x → x.phase = .running →
      Step s (.stop a) (setActor s a (stopping x))

variable {from_str}

/-- **INVERSION** of `step`. -/
theorem step_cases {s s' : Relay} {e : Event}
    (h : step from_str s e = some s') : Step from_str s e s' := by
  cases e with
  | connect a id =>
      simp only [step, Option.isNone_iff_eq_none] at h
      split at h
      · next hc =>
          cases h
          exact .connect hc.1 hc.2.1 hc.2.2
      · exact nomatch h
  | start a =>
      simp only [step] at h
      split at h
      · next x hx =>
          split at h
          · next hp => cases h; exact .start hx hp
          · exact nomatch h
      · exact nomatch h
  | frame a f =>
      simp only [step] at h
      split at h
      · next x hx =>
          split at h
          · next hp => cases h; exact .frame hx hp
          · exact nomatch h
      · exact nomatch h
  | serve a =>
      simp only [step] at h
      split at h
      · next x hx =>
          split at h
          · next m rest hq => cases h; exact .serve hx hq
          · exact nomatch h
      · exact nomatch h
  | deliver a =>
      simp only [step] at h
      split at h
      · next x hx =>
          split at h
          · next hp =>
              split at h
              · next t rest hm => cases h; exact .deliver hx hp hm
              · exact nomatch h
          · exact nomatch h
      · exact nomatch h
  | stop a =>
      simp only [step] at h
      split at h
      · next x hx =>
          split at h
          · next hp => cases h; exact .stop hx hp
          · exact nomatch h
      · exact nomatch h

end Handlers

/-! ## What a step does to one actor -/

section Frame

variable {from_str : String → Option Message}

@[simp] theorem setActor_self (s : Relay) (a : Addr) (x : WebSocketSession) :
    (setActor s a x).actor a = some x := by
  simp [setActor]

theorem setActor_ne (s : Relay) {a b : Addr} (x : WebSocketSession)
    (h : b ≠ a) : (setActor s a x).actor b = s.actor b := by
  simp [setActor, h]

@[simp] theorem setActor_sessions (s : Relay) (a : Addr)
    (x : WebSocketSession) : (setActor s a x).sessions = s.sessions := rfl

@[simp] theorem setActor_issued (s : Relay) (a : Addr)
    (x : WebSocketSession) : (setActor s a x).issued = s.issued := rfl

@[simp] theorem setActor_handled (s : Relay) (a : Addr)
    (x : WebSocketSession) : (setActor s a x).handled = s.handled := rfl

/-- What handling `m` adds to the mailbox of actor `b`. -/
def gift (s : Relay) (b : Addr) (y : WebSocketSession) : ServerMsg → List String
  | .sendMessage dest msg =>
      if s.sessions dest = some b ∧ y.phase ≠ .stopped then [msg] else []
  | _ => []

/-- Actor `b` after the server has handled the message `m` of actor `a`: the
    sender's queue is one shorter, the recipient's mailbox one longer. -/
def afterServe (s : Relay) (a : Addr) (m : ServerMsg) (rest : List ServerMsg)
    (b : Addr) (y : WebSocketSession) : WebSocketSession :=
  { y with
    toServer := if b = a then rest else y.toServer
    mailbox := y.mailbox ++ gift s b y m }

theorem serveMsg_actor {s : Relay} {a : Addr} {x : WebSocketSession}
    {m : ServerMsg} {rest : List ServerMsg} (hx : s.actor a = some x)
    (b : Addr) :
    (serveMsg s a x m rest).actor b
      = (s.actor b).map (afterServe s a m rest b) := by
  have hbase : ∀ c, (setActor s a { x with toServer := rest }).actor c
      = (s.actor c).map (fun y =>
        { y with toServer := if c = a then rest else y.toServer }) := by
    intro c
    by_cases hc : c = a
    · subst hc
      simp [hx]
    · rw [setActor_ne s _ hc]
      cases s.actor c <;> simp [hc]
  unfold afterServe
  cases m with
  | registerSession id addr =>
      simp only [serveMsg, handleServer, gift, List.append_nil]
      exact hbase b
  | unregisterSession id =>
      simp only [serveMsg, handleServer, gift, List.append_nil]
      exact hbase b
  | sendMessage dest msg =>
      simp only [serveMsg, handleServer, setActor_sessions]
      cases hd : s.sessions dest with
      | none =>
          simp only [gift, hd, reduceCtorEq, false_and, if_false,
            List.append_nil]
          exact hbase b
      | some c =>
          simp only [doSend, hbase c]
          cases hc : s.actor c with
          | none =>
              have hcb : ∀ y, s.actor b = some y → b ≠ c := by
                rintro y hy rfl
                rw [hc] at hy
                exact nomatch hy
              simp only [Option.map_none]
              rw [hbase b]
              cases hb : s.actor b with
              | none => rfl
              | some y => simp [gift, hd, (hcb y hb).symm]
          | some z =>
              simp only [Option.map_some]
              by_cases hst : z.phase = .stopped
              · rw [if_pos hst, hbase b]
                cases hb : s.actor b with
                | none => rfl
                | some y =>
                    by_cases hbc : c = b
                    · subst hbc
                      have hzy : z = y := Option.some.inj (hc.symm.trans hb)
                      subst hzy
                      simp [gift, hst]
                    · simp [gift, hd, hbc]
              · rw [if_neg hst]
                by_cases hbc : b = c
                · subst hbc
                  simp [hc, gift, hd, hst]
                · rw [setActor_ne _ _ hbc]
                  simp only [hbase b]
                  cases hb : s.actor b with
                  | none => rfl
                  | some y => simp [gift, hd, Ne.symm hbc]

theorem serveMsg_actor_some {s : Relay} {a b : Addr} {x y' : WebSocketSession}
    {m : ServerMsg} {rest : List ServerMsg} (hx : s.actor a = some x)
    (hy' : (serveMsg s a x m rest).actor b = some y') :
    ∃ y, s.actor b = some y ∧ y' = afterServe s a m rest b y := by
  rw [serveMsg_actor hx] at hy'
  obtain ⟨y, hy, heq⟩ := Option.map_eq_some_iff.mp hy'
  exact ⟨y, hy, heq.symm⟩

@[simp] theorem serveMsg_handled (s : Relay) (a : Addr) (x : WebSocketSession)
    (m : ServerMsg) (rest : List ServerMsg) :
    (serveMsg s a x m rest).handled = s.handled ++ [(a, m)] := by
  cases m with
  | registerSession id addr => rfl
  | unregisterSession id => rfl
  | sendMessage dest msg =>
      simp only [serveMsg, handleServer, doSend]
      split <;> [(split <;> [split; skip]); skip] <;> rfl

@[simp] theorem serveMsg_issued (s : Relay) (a : Addr) (x : WebSocketSession)
    (m : ServerMsg) (rest : List ServerMsg) :
    (serveMsg s a x m rest).issued = s.issued := by
  cases m with
  | registerSession id addr => rfl
  | unregisterSession id => rfl
  | sendMessage dest msg =>
      simp only [serveMsg, handleServer, doSend]
      split <;> [(split <;> [split; skip]); skip] <;> rfl

/-- The registry after the server has handled `m`. -/
theorem serveMsg_sessions (s : Relay) (a : Addr) (x : WebSocketSession)
    (m : ServerMsg) (rest : List ServerMsg) :
    (serveMsg s a x m rest).sessions =
      match m with
      | .registerSession id addr => Function.update s.sessions id (some addr)
      | .unregisterSession id => Function.update s.sessions id none
      | .sendMessage _ _ => s.sessions := by
  cases m with
  | registerSession id addr => rfl
  | unregisterSession id => rfl
  | sendMessage dest msg =>
      simp only [serveMsg, handleServer, doSend]
      split <;> [(split <;> [split; skip]); skip] <;> rfl

/-- An actor of the next state is new, or was there before with the same id. -/
theorem Step.origin {s s' : Relay} {e : Event} (h : Step from_str s e s')
    {b : Addr} {y' : WebSocketSession} (hy' : s'.actor b = some y') :
    (e = .connect b y'.id ∧ y' = newSession y'.id ∧ s.actor b = none)
      ∨ ∃ y, s.actor b = some y ∧ y'.id = y.id := by
  -- an actor-local step writes one actor and keeps its id
  have hlocal : ∀ (a : Addr) (x z : WebSocketSession), s.actor a = some x →
      z.id = x.id → (setActor s a z).actor b = some y' →
      ∃ y, s.actor b = some y ∧ y'.id = y.id := by
    intro a x z hx hid hb
    by_cases hba : b = a
    · subst hba
      rw [setActor_self] at hb
      cases hb
      exact ⟨x, hx, hid⟩
    · rw [setActor_ne s z hba] at hb
      exact ⟨y', hb, rfl⟩
  cases h with
  | @connect a id hn _ _ =>
      by_cases hba : b = a
      · subst hba
        have hb : (setActor s b (newSession id)).actor b = some y' := hy'
        rw [setActor_self] at hb
        cases hb
        exact Or.inl ⟨rfl, rfl, hn⟩
      · have hb : (setActor s a (newSession id)).actor b = some y' := hy'
        rw [setActor_ne s _ hba] at hb
        exact Or.inr ⟨y', hb, rfl⟩
  | @start a x hx _ => exact Or.inr (hlocal a x (started a x) hx rfl hy')
  | @frame a x f hx _ =>
      refine Or.inr (hlocal _ _ _ hx ?_ hy')
      cases f with
      | none => rfl
      | some w => cases w <;> rfl
  | serve hx _ =>
      obtain ⟨y, hy, rfl⟩ := serveMsg_actor_some hx hy'
      exact Or.inr ⟨y, hy, rfl⟩
  | @deliver a x t rest hx _ _ =>
      exact Or.inr (hlocal a x (handleWsMessage x t rest) hx rfl hy')
  | @stop a x hx _ => exact Or.inr (hlocal a x (stopping x) hx rfl hy')

/-- An actor stays, with its id and everything it has received. -/
theorem Step.persists {s s' : Relay} {e : Event} (h : Step from_str s e s')
    {b : Addr} {y : WebSocketSession} (hy : s.actor b = some y) :
    ∃ y', s'.actor b = some y' ∧ y'.id = y.id ∧ y.received <+: y'.received := by
  have hlocal : ∀ (a : Addr) (x z : WebSocketSession), s.actor a = some x →
      z.id = x.id → x.received <+: z.received →
      ∃ y', (setActor s a z).actor b = some y' ∧ y'.id = y.id ∧
        y.received <+: y'.received := by
    intro a x z hx hid hrec
    by_cases hba : b = a
    · subst hba
      rw [hx] at hy
      cases hy
      exact ⟨z, setActor_self s b z, hid, hrec⟩
    · exact ⟨y, by rw [setActor_ne s z hba]; exact hy, rfl, List.prefix_rfl⟩
  cases h with
  | @connect a id hn _ _ =>
      have hba : b ≠ a := by
        rintro rfl
        rw [hn] at hy
        exact nomatch hy
      refine ⟨y, ?_, rfl, List.prefix_rfl⟩
      show (setActor s a (newSession id)).actor b = some y
      rw [setActor_ne s _ hba]
      exact hy
  | @start a x hx _ => exact hlocal a x (started a x) hx rfl List.prefix_rfl
  | @frame a x f hx _ =>
      cases f with
      | none => exact hlocal a x _ hx rfl List.prefix_rfl
      | some w =>
          cases w with
          | text t => exact hlocal a x _ hx rfl (List.prefix_append _ _)
          | _ => exact hlocal a x _ hx rfl List.prefix_rfl
  | @serve a x m rest hx _ =>
      refine ⟨afterServe s a m rest b y, ?_, rfl, List.prefix_rfl⟩
      rw [serveMsg_actor hx, hy]
      rfl
  | @deliver a x t rest hx _ _ =>
      exact hlocal a x (handleWsMessage x t rest) hx rfl List.prefix_rfl
  | @stop a x hx _ => exact hlocal a x (stopping x) hx rfl List.prefix_rfl

end Frame

/-! ## Ids name one session -/

/-- Every id in use was drawn, and no two sessions share one. -/
structure IdsDistinct (s : Relay) : Prop where
  issued : ∀ a x, s.actor a = some x → x.id ∈ s.issued
  inj : ∀ a b x y, s.actor a = some x → s.actor b = some y → x.id = y.id → a = b
  uuid : ∀ a x, s.actor a = some x → isUuid x.id = true

/-! ## The pair queues -/

/-- What the server has handled from session `a`, in order. -/
def handledFrom (a : Addr) (h : List (Addr × ServerMsg)) : List ServerMsg :=
  h.filterMap (fun p => if p.1 = a then some p.2 else none)

@[simp] theorem handledFrom_self (a : Addr) (m : ServerMsg)
    (h : List (Addr × ServerMsg)) :
    handledFrom a (h ++ [(a, m)]) = handledFrom a h ++ [m] := by
  simp [handledFrom]

theorem handledFrom_ne {a b : Addr} (m : ServerMsg)
    (h : List (Addr × ServerMsg)) (hab : a ≠ b) :
    handledFrom b (h ++ [(a, m)]) = handledFrom b h := by
  simp [handledFrom, hab]

theorem mem_handledFrom {a : Addr} {m : ServerMsg}
    {h : List (Addr × ServerMsg)} : m ∈ handledFrom a h ↔ (a, m) ∈ h := by
  simp [handledFrom]

section PairFifo

variable (from_str : String → Option Message)

/-- Everything a session has sent to the server in its life so far. -/
def emitted (a : Addr) (x : WebSocketSession) : List ServerMsg :=
  match x.phase with
  | .created => []
  | .running => .registerSession x.id a :: x.received.filterMap (relayOf from_str)
  | .stopped =>
      .registerSession x.id a ::
        (x.received.filterMap (relayOf from_str) ++ [.unregisterSession x.id])

/-- **THE PAIR QUEUES**: what the server has handled from a session, followed by
    what is still queued, is what the session has emitted. -/
structure PairFifo (s : Relay) : Prop where
  fifo : ∀ a x, s.actor a = some x →
    handledFrom a s.handled ++ x.toServer = emitted from_str a x
  absent : ∀ a, s.actor a = none → handledFrom a s.handled = []
  idle : ∀ a x, s.actor a = some x → x.phase = .created → x.received = []

variable {from_str}

theorem idsDistinct_step {s s' : Relay} {e : Event} (hi : IdsDistinct s)
    (h : Step from_str s e s') : IdsDistinct s' := by
  have hsub : ∀ id, id ∈ s.issued → id ∈ s'.issued := by
    intro id hid
    cases h with
    | connect => exact List.mem_cons_of_mem _ hid
    | serve => simpa using hid
    | _ => exact hid
  -- a new session's id is drawn in this very step and was not drawn before
  have hnew : ∀ b y', s'.actor b = some y' →
      (y'.id ∉ s.issued ∧ y'.id ∈ s'.issued ∧ isUuid y'.id = true ∧
        ∀ c z, c ≠ b → s'.actor c = some z → s.actor c = some z) ∨
      ∃ y, s.actor b = some y ∧ y'.id = y.id := by
    intro b y' hy'
    rcases h.origin hy' with ⟨he, -, -⟩ | hold
    · subst he
      cases h with
      | connect _ hf hu =>
          refine Or.inl ⟨hf, List.mem_cons_self .., hu, ?_⟩
          intro c z hcb hz
          have hz' : (setActor s b (newSession y'.id)).actor c = some z := hz
          rwa [setActor_ne s _ hcb] at hz'
    · exact Or.inr hold
  constructor
  · intro b y' hy'
    rcases hnew b y' hy' with ⟨-, hmem, -, -⟩ | ⟨y, hy, hid⟩
    · exact hmem
    · rw [hid]
      exact hsub _ (hi.issued b y hy)
  · intro a b x' y' hx' hy' hxy
    by_contra hab
    rcases hnew a x' hx' with ⟨hf, -, -, hkeep⟩ | ⟨x, hx, hxid⟩
    · have hy := hkeep b y' (Ne.symm hab) hy'
      rw [hxy] at hf
      exact hf (hi.issued b y' hy)
    · rcases hnew b y' hy' with ⟨hf, -, -, hkeep⟩ | ⟨y, hy, hyid⟩
      · have hx2 := hkeep a x' hab hx'
        rw [← hxy] at hf
        exact hf (hi.issued a x' hx2)
      · exact hab (hi.inj a b x y hx hy (by rw [← hxid, ← hyid]; exact hxy))
  · intro b y' hy'
    rcases hnew b y' hy' with ⟨-, -, hu, -⟩ | ⟨y, hy, hid⟩
    · exact hu
    · rw [hid]
      exact hi.uuid b y hy

/-- A step that writes one actor keeps the pair queues if that actor's own queue
    accounts for what it emitted. -/
theorem pairFifo_local {s : Relay} {a : Addr} {x z : WebSocketSession}
    (hi : PairFifo from_str s) (hx : s.actor a = some x)
    (hq : handledFrom a s.handled ++ z.toServer = emitted from_str a z)
    (hr : z.phase = .created → z.received = []) :
    PairFifo from_str (setActor s a z) := by
  constructor
  · intro b y hy
    by_cases hba : b = a
    · subst hba
      rw [setActor_self] at hy
      cases hy
      exact hq
    · rw [setActor_ne s z hba] at hy
      exact hi.fifo b y hy
  · intro b hb
    by_cases hba : b = a
    · subst hba
      rw [setActor_self] at hb
      exact nomatch hb
    · rw [setActor_ne s z hba] at hb
      exact hi.absent b hb
  · intro b y hy hp
    by_cases hba : b = a
    · subst hba
      rw [setActor_self] at hy
      cases hy
      exact hr hp
    · rw [setActor_ne s z hba] at hy
      exact hi.idle b y hy hp

theorem pairFifo_step {s s' : Relay} {e : Event} (hi : PairFifo from_str s)
    (h : Step from_str s e s') : PairFifo from_str s' := by
  cases h with
  | @connect a id hn _ _ =>
      constructor
      · intro b y hy
        have hy' : (setActor s a (newSession id)).actor b = some y := hy
        by_cases hba : b = a
        · subst hba
          rw [setActor_self] at hy'
          cases hy'
          show handledFrom b s.handled ++ [] = []
          rw [hi.absent b hn]
          rfl
        · rw [setActor_ne s _ hba] at hy'
          exact hi.fifo b y hy'
      · intro b hb
        have hb' : (setActor s a (newSession id)).actor b = none := hb
        by_cases hba : b = a
        · subst hba
          rw [setActor_self] at hb'
          exact nomatch hb'
        · rw [setActor_ne s _ hba] at hb'
          exact hi.absent b hb'
      · intro b y hy hp
        have hy' : (setActor s a (newSession id)).actor b = some y := hy
        by_cases hba : b = a
        · subst hba
          rw [setActor_self] at hy'
          cases hy'
          rfl
        · rw [setActor_ne s _ hba] at hy'
          exact hi.idle b y hy' hp
  | @start a x hx hp =>
      refine pairFifo_local hi hx ?_ (fun hc => nomatch hc)
      have hf := hi.fifo a x hx
      simp only [emitted, hp] at hf
      simp only [started, emitted, ← List.append_assoc, hf,
        hi.idle a x hx hp, List.filterMap_nil, List.nil_append]
  | @frame a x f hx hp =>
      have hf := hi.fifo a x hx
      simp only [emitted, hp] at hf
      have hkeep : PairFifo from_str (setActor s a x) :=
        pairFifo_local hi hx (hi.fifo a x hx) (hi.idle a x hx)
      cases f with
      | none => exact hkeep
      | some w =>
          cases w with
          | text t =>
              refine pairFifo_local hi hx ?_ (fun hc => ?_)
              · simp only [handleFrame, emitted, hp, ← List.append_assoc, hf,
                  List.filterMap_append, List.cons_append]
                cases hr : relayOf from_str t <;> simp [hr]
              · have hc' : x.phase = .created := hc
                rw [hp] at hc'
                exact nomatch hc'
          | _ => exact hkeep
  | @serve a x m rest hx hq =>
      constructor
      · intro b y' hy'
        obtain ⟨y, hy, rfl⟩ := serveMsg_actor_some hx hy'
        have hf := hi.fifo b y hy
        rw [serveMsg_handled]
        by_cases hba : b = a
        · subst hba
          have hxy : x = y := Option.some.inj (hx.symm.trans hy)
          subst hxy
          rw [hq] at hf
          simp only [afterServe, handledFrom_self, if_true, List.append_assoc,
            List.singleton_append]
          exact hf
        · simp only [afterServe, handledFrom_ne m _ (Ne.symm hba), if_neg hba]
          exact hf
      · intro b hb
        rw [serveMsg_actor hx] at hb
        have hb' : s.actor b = none := Option.map_eq_none_iff.mp hb
        have hba : a ≠ b := by
          rintro rfl
          rw [hx] at hb'
          exact nomatch hb'
        rw [serveMsg_handled, handledFrom_ne m _ hba]
        exact hi.absent b hb'
      · intro b y' hy' hp
        obtain ⟨y, hy, rfl⟩ := serveMsg_actor_some hx hy'
        exact hi.idle b y hy hp
  | @deliver a x t rest hx hp hm =>
      refine pairFifo_local hi hx ?_ (fun hc => ?_)
      · exact hi.fifo a x hx
      · exact hi.idle a x hx hc
  | @stop a x hx hp =>
      refine pairFifo_local hi hx ?_ (fun hc => nomatch hc)
      have hf := hi.fifo a x hx
      simp only [emitted, hp] at hf
      simp only [stopping, emitted, ← List.append_assoc, hf, List.cons_append]

/-- Every reachable relay has distinct ids. -/
theorem idsDistinct_reachable {s : Relay}
    (h : Reachable (relay from_str) s) : IdsDistinct s := by
  refine ReachVia.invariant (fun s hs => ?_) (fun s e s' _ hi _ hst => ?_) h
  · subst hs
    exact ⟨fun _ _ hx => (nomatch hx), fun _ _ _ _ hx => (nomatch hx),
      fun _ _ hx => (nomatch hx)⟩
  · exact idsDistinct_step hi (step_cases hst)

/-- Every reachable relay has its pair queues in order. -/
theorem pairFifo_reachable {s : Relay}
    (h : Reachable (relay from_str) s) : PairFifo from_str s := by
  refine ReachVia.invariant (fun s hs => ?_) (fun s e s' _ hi _ hst => ?_) h
  · subst hs
    exact ⟨fun _ _ hx => (nomatch hx), fun _ _ => rfl, fun _ _ hx => (nomatch hx)⟩
  · exact pairFifo_step hi (step_cases hst)

end PairFifo

end CamRelay
