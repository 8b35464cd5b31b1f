import WebRtcCam.HookEffectsProofs

/-! # The sockets of `useSignaling`

    Every run of the effect of `useSignaling` opens another `WebSocket`, and its cleanup
    closes the one before.  A closed socket is not gone: the browser delivers its events
    when it gets to it, possibly after its successor has opened, and all sockets share
    `isConnected` and `clientId`.  The functions the hook returns hold the socket and the
    client id of the render that made them, and a caller may keep them.

    This is the hook with every socket it ever opened, and every render.

    * `refines` — without the sockets it is the hook of `HookEffects`;
    * `truthful_step` — what an event does to the truth of `isConnected`;
    * `isConnected_truthful` — runs in which it tells the truth;
    * `signed_by_socket` — runs in which every frame has the client id of its socket. -/

namespace SignalingSockets

open LtsRun ReactFiber CamWire JsonText
open UseSignaling (Vars Kind)
open HookEffects (SignalingProps SignalingUpdate SocketEvent signalingApply socketUpdates
  useSignaling)

/-! ## Sockets -/

/-- `WebSocket.readyState`. -/
inductive ReadyState where
  | connecting | opened | closing | closed
  deriving DecidableEq, Repr

/-- A `WebSocket`, with the events it has fired. -/
structure Socket where
  readyState : ReadyState
  firedOpen : Bool
  firedError : Bool
  firedClose : Bool
  deriving DecidableEq, Repr

/-- `new WebSocket(wsUrl)`. -/
def Socket.new : Socket := ⟨.connecting, false, false, false⟩

/-- `ws.close()`. -/
@[simps] def Socket.close (x : Socket) : Socket :=
  { x with readyState := if x.readyState = .closed then .closed else .closing }

/-- The events the browser can deliver.  A socket that has been closed gets no more
    messages, but it may still open, fail and close. -/
def Socket.fires (x : Socket) : SocketEvent → Bool
  | .onopen => !x.firedOpen && !x.firedError && !x.firedClose
  | .onmessage _ => x.readyState = .opened
  | .onerror => !x.firedClose
  | .onclose => !x.firedClose

/-- The socket after the event. -/
def Socket.fire (x : Socket) : SocketEvent → Socket
  | .onopen =>
      { x with
        firedOpen := true
        readyState := if x.readyState = .connecting then .opened else x.readyState }
  | .onmessage _ => x
  | .onerror => { x with firedError := true, readyState := .closed }
  | .onclose => { x with firedClose := true, readyState := .closed }

/-- It has fired open, and neither error nor close. -/
def Socket.live (x : Socket) : Bool := x.firedOpen && !x.firedError && !x.firedClose

/-! ## The hook with its sockets -/

/-- What a render leaves behind: the variables its functions hold, and the client ids
    received before it, with the numbers of their sockets. -/
structure Render where
  vars : Vars
  welcomes : List (Nat × Js)
  deriving DecidableEq

structure Hook where
  mounted : Bool
  fiber : Fiber Vars SignalingUpdate SignalingProps
  /-- The socket of the last run of the effect. -/
  current : Option Nat
  sockets : List Socket
  /-- The client ids received, oldest first. -/
  welcomes : List (Nat × Js)
  renders : List Render
  /-- The frames handed to open sockets. -/
  handed : List (Nat × Json)
  deriving DecidableEq

inductive Event where
  | render (props : SignalingProps)
  | flushEffects
  | socket (ws : Nat) (e : SocketEvent)
  /-- A function returned by render number `k` is called. -/
  | call (k : Nat) (kind : Kind) (dest : Js) (payload : Json)
  | unmount
  deriving DecidableEq

/-- The first render has been committed. -/
def mount (props : SignalingProps) : Hook where
  mounted := true
  fiber := .first .initial props
  current := none
  sockets := []
  welcomes := []
  renders := [⟨.initial, []⟩]
  handed := []

/-- The variables of the next render. -/
def Hook.next (s : Hook) : Vars := s.fiber.next signalingApply

/-- Another render is committed. -/
@[simps] def rendered (props : SignalingProps) (s : Hook) : Hook :=
  { s with
    fiber := s.fiber.commit signalingApply (fun p _ => p) props
    renders := s.renders ++ [⟨s.next, s.welcomes⟩] }

/-- `ws.close()` in the cleanup of the effect. -/
def closeCurrent (current : Option Nat) (sockets : List Socket) : List Socket :=
  match current with
  | some ws => sockets.modify ws Socket.close
  | none => sockets

/-- The cleanup of the last run and the next run of the effect. -/
@[simps] def runEffect (s : Hook) : Hook :=
  { s with
    fiber := s.fiber.flushed.set [.setSocket s.sockets.length]
    current := some s.sockets.length
    sockets := closeCurrent s.current s.sockets ++ [Socket.new] }

/-- The client id the message sets. -/
def welcomed : SocketEvent → Option Js
  | .onmessage data =>
      match UseSignaling.onmessage data with
      | .setClientId id => some id
      | _ => none
  | _ => none

/-- A handler of a socket runs.  Setters of a component that is gone do nothing. -/
@[simps] def handle (ws : Nat) (e : SocketEvent) (s : Hook) : Hook :=
  { s with
    fiber := if s.mounted then s.fiber.set (socketUpdates e) else s.fiber
    sockets := s.sockets.modify ws (fun x => x.fire e)
    welcomes := s.welcomes ++ (welcomed e).toList.map (fun id => (ws, id)) }

/-- The socket takes frames. -/
def isOpen (s : Hook) (ws : Nat) : Bool := (s.sockets[ws]?).any (fun x => x.readyState = .opened)

/-- `socket?.send(…)` with the functions of a render: an open socket takes the frame; one
    that is connecting throws, and one that is closing or closed drops it. -/
def framesOf (s : Hook) (r : Render) (kind : Kind) (dest : Js) (payload : Json) :
    List (Nat × Json) :=
  match r.vars.socket with
  | some ws =>
      if isOpen s ws then (kind.send r.vars dest payload).map (fun frame => (ws, frame))
      else []
  | none => []

def step (s : Hook) : Event → Option Hook
  | .render props => if s.mounted && !s.fiber.due then some (rendered props s) else none
  | .flushEffects => if s.mounted && s.fiber.due then some (runEffect s) else none
  | .socket ws e =>
      if (s.sockets[ws]?).any (fun x => x.fires e) then some (handle ws e s) else none
  | .call k kind dest payload =>
      (s.renders[k]?).map (fun r =>
        { s with handed := s.handed ++ framesOf s r kind dest payload })
  | .unmount =>
      if s.mounted && !s.fiber.due then
        some { s with
          mounted := false
          current := none
          sockets := closeCurrent s.current s.sockets }
      else none

/-- The hook as a transition system. -/
def hook : Lts Hook Event where
  init := fun s => ∃ props, s = mount props
  step := step

/-- What each step does. -/
inductive Step (s : Hook) : Event → Hook → Prop where
  | render {props : SignalingProps} (hm : s.mounted = true) (hdue : s.fiber.due = false) :
      Step s (.render props) (rendered props s)
  | flushEffects (hm : s.mounted = true) (hdue : s.fiber.due = true) :
      Step s .flushEffects (runEffect s)
  | socket {ws : Nat} {e : SocketEvent} {x : Socket} (hx : s.sockets[ws]? = some x)
      (hf : x.fires e = true) : Step s (.socket ws e) (handle ws e s)
  | call {k : Nat} {kind : Kind} {dest : Js} {payload : Json} {r : Render}
      (hr : s.renders[k]? = some r) :
      Step s (.call k kind dest payload)
        { s with handed := s.handed ++ framesOf s r kind dest payload }
  | unmount (hm : s.mounted = true) (hdue : s.fiber.due = false) :
      Step s .unmount
        { s with
          mounted := false
          current := none
          sockets := closeCurrent s.current s.sockets }

theorem step_cases {s s' : Hook} {e : Event} (h : step s e = some s') : Step s e s' := by
  cases e with
  | render props =>
      obtain ⟨hc, hs⟩ := Option.ite_none_right_eq_some.mp h
      cases hs
      obtain ⟨hm, hdue⟩ : s.mounted = true ∧ s.fiber.due = false := by simpa using hc
      exact .render hm hdue
  | flushEffects =>
      obtain ⟨hc, hs⟩ := Option.ite_none_right_eq_some.mp h
      cases hs
      obtain ⟨hm, hdue⟩ : s.mounted = true ∧ s.fiber.due = true := by simpa using hc
      exact .flushEffects hm hdue
  | socket ws e =>
      obtain ⟨hc, hs⟩ := Option.ite_none_right_eq_some.mp h
      cases hs
      obtain ⟨x, hx, hf⟩ := (Option.any_eq_true _ _).mp hc
      exact .socket hx hf
  | call k kind dest payload =>
      obtain ⟨r, hr, rfl⟩ := Option.map_eq_some_iff.mp h
      exact .call hr
  | unmount =>
      obtain ⟨hc, hs⟩ := Option.ite_none_right_eq_some.mp h
      cases hs
      obtain ⟨hm, hdue⟩ : s.mounted = true ∧ s.fiber.due = false := by simpa using hc
      exact .unmount hm hdue

/-! ## Without the sockets -/

/-- The hook of `HookEffects` in the same state. -/
structure Matches (s : Hook)
    (t : HookEffects.Hook Vars SignalingUpdate SignalingProps) : Prop where
  mounted : t.mounted = s.mounted
  fiber : t.fiber = s.fiber
  current : t.current = s.current
  created : t.created = s.sockets.length

theorem closeCurrent_length (current : Option Nat) (sockets : List Socket) :
    (closeCurrent current sockets).length = sockets.length := by
  simp only [closeCurrent]
  cases current with
  | none => rfl
  | some ws => exact List.length_modify ..

/-- One step is one of the hook of `HookEffects`, or none. -/
theorem matches_step {s s' : Hook} {e : Event} (h : Step s e s')
    {t : HookEffects.Hook Vars SignalingUpdate SignalingProps} (ht : Matches s t) :
    Matches s' t ∨ ∃ d t', HookEffects.step useSignaling t d = some t' ∧ Matches s' t' := by
  cases h with
  | @render props hm hdue =>
      refine Or.inr ⟨.parentRender props, HookEffects.commitFor useSignaling .other props t,
        ?_, ?_⟩
      · rw [HookEffects.step, ht.mounted, ht.fiber, hm, hdue]
        rfl
      · exact ⟨ht.mounted, by simp [ht.fiber, useSignaling], ht.current, ht.created⟩
  | flushEffects hm hdue =>
      refine Or.inr ⟨.flushEffects, HookEffects.runEffect useSignaling t, ?_, ?_⟩
      · rw [HookEffects.step, ht.mounted, ht.fiber, hm, hdue]
        rfl
      · refine ⟨ht.mounted, ?_, ?_, ?_⟩
        · simp [ht.fiber, ht.created, useSignaling]
        · simp [ht.created]
        · simp [ht.created, closeCurrent_length]
  | @socket ws e x hx hf =>
      have hlen : (s.sockets.modify ws (fun x => x.fire e)).length = s.sockets.length :=
        List.length_modify ..
      cases hm : s.mounted with
      | true =>
          refine Or.inr ⟨.outside e, { t with fiber := t.fiber.set (socketUpdates e) }, ?_, ?_⟩
          · rw [HookEffects.step, ht.mounted, hm]
            rfl
          · exact ⟨ht.mounted, by simp [ht.fiber, hm], ht.current,
              ht.created.trans hlen.symm⟩
      | false =>
          exact Or.inl ⟨ht.mounted, by simp [ht.fiber, hm], ht.current,
            ht.created.trans hlen.symm⟩
  | call hr => exact Or.inl ⟨ht.mounted, ht.fiber, ht.current, ht.created⟩
  | unmount hm hdue =>
      refine Or.inr ⟨.unmount,
        { t with
          mounted := false
          current := none
          closed := t.closed ++ t.current.toList }, ?_, ?_⟩
      · rw [HookEffects.step, ht.mounted, ht.fiber, hm, hdue]
        rfl
      · exact ⟨rfl, ht.fiber, rfl, ht.created.trans (closeCurrent_length _ _).symm⟩

/-- **REFINEMENT**: a state with sockets is one of the hook of `HookEffects`. -/
theorem refines {s : Hook} (h : Reachable hook s) :
    ∃ t, Reachable (HookEffects.hook useSignaling) t ∧ Matches s t := by
  refine ReachVia.invariant (M := hook)
    (I := fun s => ∃ t, Reachable (HookEffects.hook useSignaling) t ∧ Matches s t)
    (fun s hs => ?_) (fun s e s' _ hi _ hst => ?_) h
  · obtain ⟨props, rfl⟩ := hs
    exact ⟨HookEffects.mount useSignaling props, .init ⟨props, rfl⟩, ⟨rfl, rfl, rfl, rfl⟩⟩
  · obtain ⟨t, ht, hmatch⟩ := hi
    rcases matches_step (step_cases hst) hmatch with hsame | ⟨d, t', hd, hmatch'⟩
    · exact ⟨t, ht, hsame⟩
    · exact ⟨t', .step ht trivial hd, hmatch'⟩

/-! ## The next render -/

/-- The flag a handler writes. -/
def flagOf : SocketEvent → Option Bool
  | .onopen => some true
  | .onmessage _ => none
  | .onerror => some false
  | .onclose => some false

/-- The setters of a handler write the flag and the client id, and never the socket. -/
theorem foldl_socketUpdates (e : SocketEvent) (v : Vars) :
    (socketUpdates e).foldl signalingApply v =
      { v with
        clientId := (welcomed e).getD v.clientId
        isConnected := (flagOf e).getD v.isConnected } := by
  cases e with
  | onopen => rfl
  | onmessage data =>
      show (match UseSignaling.onmessage data with
        | .setClientId id => [SignalingUpdate.setClientId id]
        | _ => []).foldl signalingApply v = _
      unfold welcomed
      dsimp only
      split <;> rfl
  | onerror => rfl
  | onclose => rfl

@[simp] theorem next_runEffect (s : Hook) :
    (runEffect s).next = { s.next with socket := some s.sockets.length } := by
  simp [Hook.next, signalingApply]

theorem next_handle {s : Hook} (hm : s.mounted = true) (ws : Nat) (e : SocketEvent) :
    (handle ws e s).next =
      { s.next with
        clientId := (welcomed e).getD s.next.clientId
        isConnected := (flagOf e).getD s.next.isConnected } := by
  rw [← foldl_socketUpdates]
  simp [Hook.next, hm]

/-- The hook will show the socket of the last run of its effect. -/
def ShowsCurrent (s : Hook) : Prop := s.mounted = true → s.next.socket = s.current

theorem showsCurrent_reachable {s : Hook} (h : Reachable hook s) : ShowsCurrent s := by
  refine ReachVia.invariant (M := hook) (I := ShowsCurrent) (fun s hs => ?_)
    (fun s e s' _ hi _ hst => ?_) h
  · obtain ⟨props, rfl⟩ := hs
    exact fun _ => rfl
  · intro hm'
    cases step_cases hst with
    | render hm hdue => exact hi hm
    | flushEffects hm hdue => rw [next_runEffect, runEffect_current]
    | socket hx hf =>
        have hm : s.mounted = true := hm'
        rw [next_handle hm]
        exact hi hm
    | call hr => exact hi hm'
    | unmount hm hdue => cases hm'

/-! ## `isConnected` -/

/-- The socket is there and live. -/
def live (s : Hook) (ws : Option Nat) : Bool :=
  ws.any (fun ws => (s.sockets[ws]?).any Socket.live)

/-- The next render tells the truth. -/
def Truthful (s : Hook) : Prop := s.next.isConnected = live s s.next.socket

/-- The effect does not run again while its socket is live, and the handlers of the
    sockets before it write only what is true of it. -/
def undisturbed (s : Hook) : Event → Bool
  | .flushEffects => !live s s.current
  | .socket ws e => some ws = s.current || (flagOf e).all (fun b => b = live s s.current)
  | _ => true

/-- A socket is live by what it has fired last. -/
theorem live_fire {x : Socket} {e : SocketEvent} (h : x.fires e = true) :
    (x.fire e).live = (flagOf e).getD x.live := by
  cases e with
  | onopen =>
      obtain ⟨⟨-, herror⟩, hclose⟩ : (x.firedOpen = false ∧ x.firedError = false) ∧
          x.firedClose = false := by simpa [Socket.fires] using h
      simp [Socket.fire, Socket.live, flagOf, herror, hclose]
  | onmessage data => rfl
  | onerror => simp [Socket.fire, Socket.live, flagOf]
  | onclose => simp [Socket.fire, Socket.live, flagOf]

/-- The event of one socket does not touch another. -/
theorem live_handle_other {s : Hook} {ws : Nat} {e : SocketEvent} {c : Option Nat}
    (h : some ws ≠ c) : live (handle ws e s) c = live s c := by
  cases c with
  | none => rfl
  | some n =>
      have hne : ws ≠ n := fun heq => h (congrArg some heq)
      show ((s.sockets.modify ws _)[n]?).any _ = _
      rw [List.getElem?_modify_ne _ _ hne]
      rfl

theorem live_handle_self {s : Hook} {ws : Nat} {e : SocketEvent} {x : Socket}
    (hx : s.sockets[ws]? = some x) (hf : x.fires e = true) :
    live (handle ws e s) (some ws) = (flagOf e).getD (live s (some ws)) := by
  have hbefore : live s (some ws) = x.live := by
    show (s.sockets[ws]?).any _ = _
    rw [hx]
    rfl
  rw [hbefore, ← live_fire hf]
  show ((s.sockets.modify ws _)[ws]?).any _ = _
  rw [List.getElem?_modify_eq, hx]
  rfl

/-- **ONE STEP**: it leaves a next render that tells the truth exactly when it is
    undisturbed. -/
theorem truthful_step {s s' : Hook} {e : Event} (h : Step s e s') (hs : ShowsCurrent s)
    (htrue : Truthful s) (hm' : s'.mounted = true) :
    Truthful s' ↔ undisturbed s e = true := by
  cases h with
  | render hm hdue => exact ⟨fun _ => rfl, fun _ => htrue⟩
  | flushEffects hm hdue =>
      have hfresh : live (runEffect s) (some s.sockets.length) = false := by
        show ((closeCurrent s.current s.sockets ++ [Socket.new])[s.sockets.length]?).any _ = _
        rw [← closeCurrent_length s.current s.sockets, List.getElem?_concat_length]
        rfl
      rw [Truthful, undisturbed]
      rw [next_runEffect, hfresh, ← hs hm, ← htrue, Bool.not_eq_true']
  | @socket ws e x hx hf =>
      have hm : s.mounted = true := hm'
      unfold Truthful undisturbed
      rw [next_handle hm]
      show (flagOf e).getD s.next.isConnected = live (handle ws e s) s.next.socket ↔ _
      rw [htrue, hs hm]
      by_cases hc : some ws = s.current
      · rw [← hc, live_handle_self hx hf]
        simp
      · rw [live_handle_other hc]
        cases hflag : flagOf e <;> simp [hc, hflag]
  | call hr => exact ⟨fun _ => rfl, fun _ => htrue⟩
  | unmount hm hdue => cases hm'

theorem truthful_reachable {s : Hook} (h : ReachVia hook (undisturbed · · = true) s) :
    s.mounted = true → Truthful s := by
  refine ReachVia.invariant (M := hook) (I := fun s => s.mounted = true → Truthful s)
    (fun s hs => ?_) (fun s e s' hr hi hc hst => ?_) h
  · obtain ⟨props, rfl⟩ := hs
    exact fun _ => rfl
  · intro hm'
    have hstep := step_cases hst
    have hm : s.mounted = true := by
      cases hstep with
      | unmount hm hdue => exact hm
      | render hm hdue => exact hm
      | flushEffects hm hdue => exact hm
      | socket hx hf => exact hm'
      | call hr => exact hm'
    exact (truthful_step hstep (showsCurrent_reachable hr.reachable) (hi hm) hm').mpr hc

/-- **`isConnected` TELLS THE TRUTH** in every run whose steps are undisturbed: with
    nothing queued it is true exactly when the socket the hook returns has fired open, and
    neither error nor close.  A step that is not undisturbed makes the next render lie. -/
theorem isConnected_truthful {s : Hook} (h : ReachVia hook (undisturbed · · = true) s)
    (hm : s.mounted = true) :
    (s.fiber.queue = [] → (s.fiber.vars.isConnected = true ↔
      ∃ ws x, s.fiber.vars.socket = some ws ∧ s.sockets[ws]? = some x ∧
        x.firedOpen = true ∧ x.firedError = false ∧ x.firedClose = false)) ∧
    ∀ e s', step s e = some s' → s'.mounted = true →
      (s'.next.isConnected = live s' s'.next.socket ↔ undisturbed s e = true) := by
  have htrue := truthful_reachable h hm
  refine ⟨fun hq => ?_, fun e s' hst hm' => ?_⟩
  · have hnext : s.next = s.fiber.vars := by
      rw [Hook.next, Fiber.next, hq]
      rfl
    rw [Truthful, hnext] at htrue
    rw [htrue]
    simp only [live, Socket.live, Option.any_eq_true, Bool.and_eq_true, Bool.not_eq_true',
      and_assoc]
    constructor
    · rintro ⟨ws, hws, x, hx, hlive⟩
      exact ⟨ws, x, hws, hx, hlive⟩
    · rintro ⟨ws, x, hws, hx, hlive⟩
      exact ⟨ws, hws, x, hx, hlive⟩
  · exact truthful_step (step_cases hst) (showsCurrent_reachable h.reachable) htrue hm'

/-! ## The client id of a frame -/

/-- The last client id received. -/
def lastId (l : List (Nat × Js)) : Js := (l.getLast?.map Prod.snd).getD (some .null)

/-- If the socket has received a client id at all, the last one received is its own. -/
def Latest (l : List (Nat × Js)) (ws : Nat) : Prop :=
  ∀ id, (ws, id) ∈ l → ∃ id', l.getLast? = some (ws, id')

/-- The socket can still receive: it is open, or may open. -/
def Socket.active (x : Socket) : Prop := x.readyState = .opened ∨ x.readyState = .connecting

/-- What is so in every run. -/
structure Signed (s : Hook) : Prop where
  active : ∀ ws x, s.sockets[ws]? = some x → x.active → s.current = some ws
  numbered : ∀ w ∈ s.welcomes, w.1 < s.sockets.length
  latest : ∀ ws, s.current = some ws → Latest s.welcomes ws
  clientId : s.mounted = true → s.next.clientId = lastId s.welcomes
  renders : ∀ r ∈ s.renders, r.vars.clientId = lastId r.welcomes ∧
    (∀ ws, r.vars.socket = some ws → Latest r.welcomes ws) ∧ r.welcomes ⊆ s.welcomes

/-- A socket that can receive after an event could before it. -/
theorem Socket.active_of_fire {x : Socket} {e : SocketEvent} (h : (x.fire e).active) :
    x.active := by
  cases e with
  | onopen =>
      by_cases hc : x.readyState = .connecting
      · exact Or.inr hc
      · simpa [Socket.active, Socket.fire, hc] using h
  | onmessage data => exact h
  | onerror => simp [Socket.active, Socket.fire] at h
  | onclose => simp [Socket.active, Socket.fire] at h

theorem Socket.not_active_close (x : Socket) : ¬ x.close.active := by
  rw [Socket.active]
  rw [Socket.close_readyState]
  split <;> simp

/-- After the cleanup no socket can receive. -/
theorem closed_inactive {s : Hook} (h : Signed s) {ws : Nat} {x : Socket}
    (hx : (closeCurrent s.current s.sockets)[ws]? = some x) : ¬ x.active := by
  intro hactive
  cases hc : s.current with
  | none =>
      rw [hc] at hx
      cases hc.symm.trans (h.active ws x hx hactive)
  | some n =>
      rw [hc] at hx
      by_cases hn : n = ws
      · rw [hn, closeCurrent, List.getElem?_modify_eq] at hx
        obtain ⟨y, -, rfl⟩ := Option.map_eq_some_iff.mp hx
        exact y.not_active_close hactive
      · rw [closeCurrent, List.getElem?_modify_ne _ _ hn] at hx
        cases hc.symm.trans (h.active ws x hx hactive)
        exact hn rfl

/-- Only messages bring client ids, and only open sockets get messages. -/
theorem active_of_welcomed {x : Socket} {e : SocketEvent} {id : Js} (hf : x.fires e = true)
    (hw : welcomed e = some id) : x.active := by
  cases e with
  | onmessage data => exact Or.inl (of_decide_eq_true hf)
  | onopen => cases hw
  | onerror => cases hw
  | onclose => cases hw

theorem signed_handle {s : Hook} (h : Signed s) {ws : Nat} {e : SocketEvent} {x : Socket}
    (hx : s.sockets[ws]? = some x) (hf : x.fires e = true) : Signed (handle ws e s) := by
  have hlen : (s.sockets.modify ws (fun x => x.fire e)).length = s.sockets.length :=
    List.length_modify ..
  obtain ⟨hws, -⟩ := List.getElem?_eq_some_iff.mp hx
  refine ⟨?_, ?_, ?_, ?_, ?_⟩
  · intro n y hy hactive
    rw [handle_sockets] at hy
    by_cases hn : ws = n
    · rw [← hn, List.getElem?_modify_eq, hx] at hy
      cases hy
      exact hn ▸ h.active ws x hx (Socket.active_of_fire hactive)
    · rw [List.getElem?_modify_ne _ _ hn] at hy
      exact h.active n y hy hactive
  · intro w hw
    rw [handle_sockets, hlen]
    rcases List.mem_append.mp hw with hw | hw
    · exact h.numbered w hw
    · obtain ⟨id, -, rfl⟩ := List.mem_map.mp hw
      exact hws
  · intro n hn
    rw [handle_welcomes]
    cases hw : welcomed e with
    | none => simpa using h.latest n hn
    | some id =>
        -- the message came over the current socket
        cases hn.symm.trans (h.active ws x hx (active_of_welcomed hf hw))
        exact fun _ _ => ⟨id, by simp⟩
  · intro hmounted
    have hm : s.mounted = true := hmounted
    rw [next_handle hm, handle_welcomes]
    cases hw : welcomed e with
    | none => simpa using h.clientId hm
    | some id => simp [lastId]
  · intro r hr
    obtain ⟨hid, hlatest, hsub⟩ := h.renders r hr
    exact ⟨hid, hlatest, fun w hw => List.mem_append_left _ (hsub hw)⟩

theorem signed_step {s s' : Hook} {e : Event} (h : Step s e s') (hs : ShowsCurrent s)
    (hi : Signed s) : Signed s' := by
  cases h with
  | render hm hdue =>
      refine ⟨hi.active, hi.numbered, hi.latest, hi.clientId, ?_⟩
      intro r hr
      rcases List.mem_append.mp hr with hr | hr
      · exact hi.renders r hr
      · cases List.mem_singleton.mp hr
        exact ⟨hi.clientId hm, fun ws hws => hi.latest ws ((hs hm).symm.trans hws),
          List.Subset.refl _⟩
  | flushEffects hm hdue =>
      have hlen : (runEffect s).sockets.length = s.sockets.length + 1 := by
        simp [closeCurrent_length]
      refine ⟨?_, ?_, ?_, ?_, hi.renders⟩
      · intro ws x hx hactive
        rw [runEffect_sockets, List.getElem?_append] at hx
        split at hx
        · exact absurd hactive (closed_inactive hi hx)
        · next hge =>
            obtain ⟨hlt, -⟩ := List.getElem?_eq_some_iff.mp hx
            rw [closeCurrent_length] at hge hlt
            rw [List.length_singleton] at hlt
            rw [runEffect_current]
            exact congrArg some (by omega)
      · intro w hw
        rw [hlen]
        exact Nat.lt_succ_of_lt (hi.numbered w hw)
      · -- the new socket has received nothing yet
        intro ws hws id hid
        cases hws
        exact absurd (hi.numbered _ hid) (Nat.lt_irrefl _)
      · intro _
        rw [next_runEffect]
        exact hi.clientId hm
  | socket hx hf => exact signed_handle hi hx hf
  | call hr => exact ⟨hi.active, hi.numbered, hi.latest, hi.clientId, hi.renders⟩
  | unmount hm hdue =>
      refine ⟨?_, ?_, ?_, ?_, hi.renders⟩
      · intro ws x hx hactive
        exact absurd hactive (closed_inactive hi hx)
      · intro w hw
        show w.1 < (closeCurrent s.current s.sockets).length
        rw [closeCurrent_length]
        exact hi.numbered w hw
      · intro ws hws
        cases hws
      · intro hm'
        cases hm'

theorem signed_reachable {s : Hook} (h : Reachable hook s) : Signed s := by
  refine ReachVia.invariant (M := hook) (I := Signed) (fun s hs => ?_)
    (fun s e s' hr hi _ hst =>
      signed_step (step_cases hst) (showsCurrent_reachable hr) hi) h
  obtain ⟨props, rfl⟩ := hs
  refine ⟨?_, ?_, ?_, fun _ => rfl, ?_⟩
  · intro ws x hx
    cases hx
  · intro w hw
    cases hw
  · intro ws hws
    cases hws
  · intro r hr
    cases List.mem_singleton.mp hr
    exact ⟨rfl, fun ws hws => (by cases hws), List.Subset.refl _⟩

/-- A frame is sent by a render that came after the client id of its socket: a call that
    finds its socket open and its client id set is a call of such a render. -/
def welcomedFirst (s : Hook) : Event → Bool
  | .call k _ _ _ =>
      (s.renders[k]?).all (fun r => r.vars.socket.all (fun ws =>
        !(isOpen s ws && truthy r.vars.clientId) || r.welcomes.any (fun w => w.1 = ws)))
  | _ => true

/-- All three functions send one frame, with the client id of their render, if it has
    one. -/
theorem send_eq (kind : Kind) {env : Vars} {ws : Nat} (hws : env.socket = some ws)
    (dest : Js) (payload : Json) :
    ∃ frame : Json, frame.get "from" = env.clientId ∧
      kind.send env dest payload = if truthy env.clientId then [frame] else [] := by
  have hsend : ∀ rest, lookup "from" rest = none →
      ∃ frame : Json, frame.get "from" = env.clientId ∧
        UseSignaling.sendMessage env (CamPage.member "to" dest ++ rest)
          = if truthy env.clientId then [frame] else [] := by
    intro rest hrest
    refine ⟨.obj (CamPage.member "from" env.clientId ++ (CamPage.member "to" dest ++ rest)),
      ?_, by rw [UseSignaling.sendMessage, hws]⟩
    rw [Json.get_obj, lookup_append, lookup_append, hrest, Option.none_or]
    cases dest <;> cases env.clientId <;> rfl
  cases kind with
  | offer => exact hsend _ rfl
  | answer => exact hsend _ rfl
  | candidate => exact hsend _ rfl

theorem framesOf_eq {s : Hook} {r : Render} {ws : Nat} (hws : r.vars.socket = some ws)
    (kind : Kind) (dest : Js) (payload : Json) :
    ∃ frame : Json, frame.get "from" = r.vars.clientId ∧
      framesOf s r kind dest payload
        = if isOpen s ws && truthy r.vars.clientId then [(ws, frame)] else [] := by
  obtain ⟨frame, hfrom, hsend⟩ := send_eq kind hws dest payload
  refine ⟨frame, hfrom, ?_⟩
  rw [framesOf, hws]
  dsimp only
  rw [hsend]
  cases isOpen s ws <;> cases truthy r.vars.clientId <;> rfl

/-- What a call hands over. -/
theorem mem_framesOf {s : Hook} {r : Render} {kind : Kind} {dest : Js} {payload : Json}
    {f : Nat × Json} (h : f ∈ framesOf s r kind dest payload) :
    r.vars.socket = some f.1 ∧ (isOpen s f.1 && truthy r.vars.clientId) = true ∧
      f.2.get "from" = r.vars.clientId := by
  cases hws : r.vars.socket with
  | none =>
      rw [framesOf, hws] at h
      cases h
  | some ws =>
      obtain ⟨frame, hfrom, heq⟩ := framesOf_eq (s := s) hws kind dest payload
      rw [heq] at h
      split at h
      · next hc =>
          cases List.mem_singleton.mp h
          exact ⟨rfl, hc, hfrom⟩
      · cases h

/-- The last client id received is an id some socket received, unless it is falsy. -/
theorem lastId_mem {l : List (Nat × Js)} (h : truthy (lastId l) = true) :
    ∃ n, l.getLast? = some (n, lastId l) ∧ (n, lastId l) ∈ l := by
  rw [lastId] at h ⊢
  cases hl : l.getLast? with
  | none =>
      rw [hl] at h
      cases h
  | some w => exact ⟨w.1, rfl, List.mem_of_getLast? hl⟩

/-- **ONE FRAME**: it carries an id of its socket if its render came after one, and one
    of another socket otherwise. -/
theorem frame_signed {s : Hook} (hs : Signed s) {r : Render} (hr : r ∈ s.renders)
    {kind : Kind} {dest : Js} {payload : Json} {f : Nat × Json}
    (hf : f ∈ framesOf s r kind dest payload) :
    if r.welcomes.any (fun w => w.1 = f.1) then
      ∃ id, (f.1, id) ∈ s.welcomes ∧ f.2.get "from" = id
    else ∃ ws id, ws ≠ f.1 ∧ (ws, id) ∈ s.welcomes ∧ f.2.get "from" = id := by
  obtain ⟨hws, hc, hfrom⟩ := mem_framesOf hf
  obtain ⟨-, ht⟩ := Bool.and_eq_true_iff.mp hc
  obtain ⟨hid, hlatest, hsub⟩ := hs.renders r hr
  rw [hid] at ht hfrom
  obtain ⟨n, hlast, hmem⟩ := lastId_mem ht
  split
  · next hany =>
      obtain ⟨⟨m, id⟩, hw, hm⟩ := List.any_eq_true.mp hany
      cases of_decide_eq_true hm
      obtain ⟨id', hlast'⟩ := hlatest f.1 hws id hw
      cases hlast.symm.trans hlast'
      exact ⟨_, hsub hmem, hfrom⟩
  · next hnone =>
      refine ⟨n, lastId r.welcomes, fun hn => hnone ?_, hsub hmem, hfrom⟩
      exact List.any_eq_true.mpr ⟨_, hmem, decide_eq_true hn⟩

/-- A call that sends at all is one of a render after the client id of its socket. -/
theorem welcomed_of_mem {s : Hook} {k : Nat} {kind : Kind} {dest : Js} {payload : Json}
    {r : Render} (hr : s.renders[k]? = some r) {f : Nat × Json}
    (hc : welcomedFirst s (.call k kind dest payload) = true)
    (hf : f ∈ framesOf s r kind dest payload) :
    r.welcomes.any (fun w => w.1 = f.1) = true := by
  obtain ⟨hws, hsends, -⟩ := mem_framesOf hf
  unfold welcomedFirst at hc
  dsimp only at hc
  rw [hr, Option.all_some, hws, Option.all_some, hsends] at hc
  exact hc

/-- Any other call hands over one frame. -/
theorem sends_of_unwelcomed {s : Hook} {k : Nat} {kind : Kind} {dest : Js} {payload : Json}
    {r : Render} (hr : s.renders[k]? = some r)
    (hc : welcomedFirst s (.call k kind dest payload) = false) :
    ∃ f, framesOf s r kind dest payload = [f] ∧
      ¬ r.welcomes.any (fun w => w.1 = f.1) = true := by
  unfold welcomedFirst at hc
  dsimp only at hc
  rw [hr, Option.all_some] at hc
  cases hws : r.vars.socket with
  | none =>
      rw [hws] at hc
      cases hc
  | some ws =>
      rw [hws, Option.all_some] at hc
      obtain ⟨hsends, hnone⟩ := Bool.or_eq_false_iff.mp hc
      obtain ⟨frame, -, heq⟩ := framesOf_eq (s := s) hws kind dest payload
      refine ⟨(ws, frame), ?_, ?_⟩
      · rw [heq, if_pos ((Bool.not_eq_false' _).mp hsends)]
      · rw [hnone]
        exact Bool.false_ne_true

theorem handed_reachable {s : Hook} (h : ReachVia hook (welcomedFirst · · = true) s) :
    ∀ f ∈ s.handed, ∃ id, (f.1, id) ∈ s.welcomes ∧ f.2.get "from" = id := by
  refine ReachVia.invariant (M := hook)
    (I := fun s => ∀ f ∈ s.handed, ∃ id, (f.1, id) ∈ s.welcomes ∧ f.2.get "from" = id)
    (fun s hs => ?_) (fun s e s' hr hi hc hst => ?_) h
  · obtain ⟨props, rfl⟩ := hs
    intro f hf
    cases hf
  · cases step_cases hst with
    | render hm hdue => exact hi
    | flushEffects hm hdue => exact hi
    | socket hx hf =>
        intro f hmem
        obtain ⟨id, hw, hfrom⟩ := hi f hmem
        exact ⟨id, List.mem_append_left _ hw, hfrom⟩
    | @call k kind dest payload r hrender =>
        intro f hmem
        rcases List.mem_append.mp hmem with hold | hnew
        · exact hi f hold
        · have hframe := frame_signed (signed_reachable hr.reachable)
            (List.mem_of_getElem? hrender) hnew
          rw [if_pos (welcomed_of_mem hrender hc hnew)] at hframe
          exact hframe
    | unmount hm hdue => exact hi

/-- **EVERY FRAME IS SIGNED BY ITS SOCKET** in every run whose calls come from renders
    after the client id of their socket: its `from` is an id that socket has received.
    Any other call hands over a frame with an id of another socket. -/
theorem signed_by_socket {s : Hook} (h : ReachVia hook (welcomedFirst · · = true) s) :
    (∀ f ∈ s.handed, ∃ id, (f.1, id) ∈ s.welcomes ∧ f.2.get "from" = id) ∧
    ∀ k kind dest payload s', step s (.call k kind dest payload) = some s' →
      welcomedFirst s (.call k kind dest payload) = false →
      ∃ ws frame other id, s'.handed = s.handed ++ [(ws, frame)] ∧
        frame.get "from" = id ∧ (other, id) ∈ s.welcomes ∧ other ≠ ws := by
  refine ⟨handed_reachable h, fun k kind dest payload s' hst hc => ?_⟩
  cases step_cases hst with
  | @call _ _ _ _ r hrender =>
      obtain ⟨⟨ws, frame⟩, heq, hnone⟩ := sends_of_unwelcomed hrender hc
      have hframe := frame_signed (signed_reachable h.reachable) (List.mem_of_getElem? hrender)
        (heq ▸ List.mem_singleton_self (ws, frame))
      rw [if_neg hnone] at hframe
      obtain ⟨other, id, hne, hw, hfrom⟩ := hframe
      refine ⟨ws, frame, other, id, ?_, hfrom, hw, hne⟩
      show s.handed ++ framesOf s r kind dest payload = _
      rw [heq]

/-! ## Runs -/

/-- A caller that passes other callbacks in its `n`th render. -/
def propsOf (n : Nat) : SignalingProps := ⟨none, some n, none, none⟩

/-- The text of a welcome message. -/
def welcome (id : String) : SocketEvent :=
  .onmessage (some (.obj [("type", .str "welcome"), ("id", .str id)]))

/-- The socket opens and gets its client id, and the caller passes another callback. -/
def replacingRun : List Event :=
  [.flushEffects, .socket 0 .onopen, .socket 0 (welcome "x"), .render (propsOf 0),
    .render (propsOf 1), .flushEffects]

/-- The state a list of events leads to. -/
def runOf (es : List Event) : Hook := LtsRun.after hook (mount (propsOf 0)) es

theorem runOf_reachable {c : Hook → Event → Bool} (es : List Event)
    (h : (execVia hook c (mount (propsOf 0)) es).isSome = true) :
    ReachVia hook (fun s e => c s e = true) (runOf es) :=
  ReachVia.of_after (fun _ _ hc => hc)
    (show hook.init (mount (propsOf 0)) from ⟨propsOf 0, rfl⟩) h

/-- The new socket is rendered before it has opened. -/
def earlyRun : List Event := replacingRun ++ [.render (propsOf 1)]

/-- The new socket opens, and then the old one closes. -/
def lateRun : List Event :=
  replacingRun ++ [.socket 1 .onopen, .socket 0 .onclose, .render (propsOf 1)]

theorem isConnected_lies :
    (Reachable hook (runOf earlyRun) ∧ (runOf earlyRun).fiber.queue = [] ∧
      (runOf earlyRun).fiber.vars.isConnected = true ∧
      (runOf earlyRun).fiber.vars.socket = some 1 ∧
      (runOf earlyRun).sockets[1]? = some Socket.new) ∧
    Reachable hook (runOf lateRun) ∧ (runOf lateRun).fiber.queue = [] ∧
      (runOf lateRun).fiber.vars.isConnected = false ∧
      (runOf lateRun).fiber.vars.socket = some 1 ∧
      (runOf lateRun).sockets[1]? = some ⟨.opened, true, false, false⟩ := by
  have hearly : Reachable hook (runOf earlyRun) :=
    ReachVia.reachable (runOf_reachable (c := fun _ _ => true) _ (by decide +kernel))
  have hlate : Reachable hook (runOf lateRun) :=
    ReachVia.reachable (runOf_reachable (c := fun _ _ => true) _ (by decide +kernel))
  exact ⟨⟨hearly, by decide +kernel⟩, hlate, by decide +kernel⟩

/-- The socket fails before another callback is passed, and its close event comes before
    the next one opens. -/
def patientRun : List Event :=
  [.flushEffects, .socket 0 .onopen, .socket 0 .onerror, .render (propsOf 1), .flushEffects,
    .socket 0 .onclose, .socket 1 .onopen, .render (propsOf 1)]

theorem isConnected_truthful_sample :
    (runOf patientRun).fiber.vars.isConnected = true ∧
      ∃ ws x, (runOf patientRun).fiber.vars.socket = some ws ∧
        (runOf patientRun).sockets[ws]? = some x ∧
        x.firedOpen = true ∧ x.firedError = false ∧ x.firedClose = false := by
  have hconn : (runOf patientRun).fiber.vars.isConnected = true := by decide +kernel
  exact ⟨hconn, ((isConnected_truthful (runOf_reachable patientRun (by decide +kernel))
    (by decide +kernel)).1 (by decide +kernel)).mp hconn⟩

/-- The new socket has opened, and the offer goes out before its client id has come. -/
def hastyRun : List Event :=
  replacingRun ++ [.socket 1 .onopen, .render (propsOf 1), .call 3 .offer (some (.str "b")) .null]

theorem stale_signature :
    Reachable hook (runOf hastyRun) ∧
    (runOf hastyRun).handed = [(1, .obj [("from", .str "x"), ("to", .str "b"), ("sdp", .null),
      ("type", .str "offer")])] ∧
    (runOf hastyRun).welcomes = [(0, some (.str "x"))] := by
  have hreach : Reachable hook (runOf hastyRun) :=
    ReachVia.reachable (runOf_reachable (c := fun _ _ => true) _ (by decide +kernel))
  exact ⟨hreach, by decide +kernel⟩

/-- The offer waits for the client id. -/
def signedRun : List Event :=
  replacingRun ++ [.socket 1 .onopen, .socket 1 (welcome "y"), .render (propsOf 1),
    .call 3 .offer (some (.str "b")) .null]

theorem signed_by_socket_sample :
    (runOf signedRun).handed.length = 1 ∧
    ∀ f ∈ (runOf signedRun).handed,
      ∃ id, (f.1, id) ∈ (runOf signedRun).welcomes ∧ f.2.get "from" = id :=
  ⟨by decide +kernel,
    (signed_by_socket (runOf_reachable signedRun (by decide +kernel))).1⟩

end SignalingSockets
