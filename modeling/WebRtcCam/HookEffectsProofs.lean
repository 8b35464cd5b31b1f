import Mathlib.Data.Nat.Find
import Mathlib.Logic.Function.Iterate
import WebRtcCam.LtsRunProofs
import WebRtcCam.ReactFiberProofs
import WebRtcCam.RtcSignalingProofs
import WebRtcCam.UseSignalingProofs

/-! # The effects of `useSignaling` and `useWebRTC`

    Each of the two hooks has one effect, which opens a connection (a `WebSocket`, an
    `RTCPeerConnection`) and whose cleanup closes it.  Its dependencies are what the
    caller passes: the callbacks, compared by identity.  A caller that writes them
    inline, as the doc comments do, passes new ones with every render, and that includes
    the renders the hook causes itself.

    * `disturbed_step`, `disturbed_iff` — a run disturbs the connection exactly when a
      render caused by the hook is passed other dependencies than the one before it;
    * `signaling_rests_iff` — the effect of `useSignaling` sets state, so the hook comes
      to rest only at a caller that repeats its dependencies;
    * `own_renders_iff` — both, for both hooks. -/

namespace HookEffects

open LtsRun ReactFiber RtcSignaling CamWire JsonText

/-! ## A hook whose effect opens a connection -/

/-- Variables `V` with updates `U`, props `P` with the dependencies `D` among them, and
    events `O` from outside.  `setup k` are the setters the effect calls when it opens
    connection number `k`. -/
structure EffectHook (V U P D O : Type) where
  initial : V
  apply : V → U → V
  deps : P → D
  setup : Nat → List U
  outside : O → List U

/-- Who caused the last commit: the setters of the hook, or the mount and the parents. -/
inductive Cause where
  | own | other
  deriving DecidableEq, Repr

/-- The hook; `renders` is the number of the render committed last. -/
structure Hook (V U P : Type) where
  mounted : Bool
  fiber : Fiber V U P
  cause : Cause
  renders : Nat
  /-- The connection in use.  Connections are numbered. -/
  current : Option Nat
  created : Nat
  closed : List Nat
  /-- What the effect closed and opened after renders the hook caused itself. -/
  torn : List (Option Nat × Nat)
  deriving DecidableEq, Repr

inductive Event (P O : Type) where
  | render (props : P)
  | parentRender (props : P)
  | flushEffects
  | outside (o : O)
  | unmount
  deriving DecidableEq, Repr

section Machine

variable {V U P D O : Type} [DecidableEq V] [DecidableEq D] (H : EffectHook V U P D O)

/-- The first render has been committed. -/
def mount (props : P) : Hook V U P where
  mounted := true
  fiber := .first H.initial props
  cause := .other
  renders := 0
  current := none
  created := 0
  closed := []
  torn := []

/-- A render with the given props, and its commit. -/
@[simps] def commitFor (cause : Cause) (props : P) (s : Hook V U P) : Hook V U P :=
  { s with
    fiber := s.fiber.commit H.apply (fun p _ => H.deps p) props
    cause := cause
    renders := s.renders + 1 }

/-- The cleanup of the last run closes its connection, and the effect opens the next. -/
@[simps] def runEffect (s : Hook V U P) : Hook V U P :=
  { s with
    fiber := s.fiber.flushed.set (H.setup s.created)
    current := some s.created
    created := s.created + 1
    closed := s.closed ++ s.current.toList
    torn := if s.cause = .own then s.torn ++ [(s.current, s.created)] else s.torn }

/-- One step of the hook.  A render caused by updates that change nothing is given up
    before it is committed. -/
def step (s : Hook V U P) : Event P O → Option (Hook V U P)
  | .render props =>
      if s.mounted && !s.fiber.due && !s.fiber.queue.isEmpty then
        if s.fiber.next H.apply = s.fiber.vars then
          some { s with fiber := { s.fiber with queue := [] } }
        else some (commitFor H .own props s)
      else none
  | .parentRender props =>
      if s.mounted && !s.fiber.due then some (commitFor H .other props s) else none
  | .flushEffects =>
      if s.mounted && s.fiber.due then some (runEffect H s) else none
  | .outside o =>
      if s.mounted then some { s with fiber := s.fiber.set (H.outside o) } else none
  | .unmount =>
      if s.mounted && !s.fiber.due then
        some { s with
          mounted := false
          current := none
          closed := s.closed ++ s.current.toList }
      else none

/-- The hook as a transition system. -/
def hook : Lts (Hook V U P) (Event P O) where
  init := fun s => ∃ props, s = mount H props
  step := step H

/-- A render the hook causes itself is passed the dependencies of the commit before
    it. -/
def steady (s : Hook V U P) : Event P O → Bool
  | .render props =>
      s.fiber.next H.apply = s.fiber.vars || H.deps props = H.deps s.fiber.props
  | _ => true

/-! ## Disturbances -/

/-- The effect has run, or is due, because of a render the hook caused itself. -/
def Disturbed (s : Hook V U P) : Prop :=
  s.torn ≠ [] ∨ (s.fiber.due = true ∧ s.cause = .own)

variable {H}

/-- One step disturbs the connection exactly when it is not steady. -/
theorem disturbed_step {s t : Hook V U P} {e : Event P O} (h : step H s e = some t) :
    Disturbed t ↔ Disturbed s ∨ steady H s e = false := by
  cases e with
  | render props =>
      simp only [step] at h
      split at h
      · next hc =>
          obtain ⟨⟨-, hdue⟩, -⟩ : (s.mounted = true ∧ s.fiber.due = false) ∧ _ := by
            simpa using hc
          split at h
          · next hsame =>
              cases h
              simp [Disturbed, steady, hsame]
          · next hne =>
              cases h
              have hsym : H.deps s.fiber.props = H.deps props ↔
                  H.deps props = H.deps s.fiber.props := eq_comm
              simp [Disturbed, steady, hne, hdue, hsym]
      · exact nomatch h
  | parentRender props =>
      simp only [step] at h
      split at h
      · next hc =>
          obtain ⟨-, hdue⟩ : s.mounted = true ∧ s.fiber.due = false := by simpa using hc
          cases h
          simp [Disturbed, steady, hdue]
      · exact nomatch h
  | flushEffects =>
      simp only [step] at h
      split at h
      · next hc =>
          obtain ⟨-, hdue⟩ : s.mounted = true ∧ s.fiber.due = true := by simpa using hc
          cases h
          cases hcause : s.cause <;> simp [Disturbed, steady, hdue, hcause]
      · exact nomatch h
  | outside o =>
      simp only [step] at h
      split at h
      · cases h
        simp [Disturbed, steady]
      · exact nomatch h
  | unmount =>
      simp only [step] at h
      split at h
      · cases h
        simp [Disturbed, steady]
      · exact nomatch h

/-- A run keeps the connection undisturbed exactly when all its steps are steady. -/
theorem disturbed_iff {es : List (Event P O)} :
    ∀ {s t : Hook V U P}, exec (hook H) s es = some t →
      (¬ Disturbed t ↔ ¬ Disturbed s ∧ execVia (hook H) (steady H) s es = some t) := by
  induction es with
  | nil =>
      intro s t h
      have hst : s = t := Option.some.inj h
      rw [hst]
      exact ⟨fun hn => ⟨hn, rfl⟩, And.left⟩
  | cons e es ih =>
      intro s t h
      obtain ⟨u, hu, hrest⟩ := exec_cons h
      rw [ih hrest, disturbed_step hu]
      cases hsteady : steady H s e with
      | false => simp [execVia, hsteady]
      | true => simp [execVia, hsteady, hu]

/-- **OWN RENDERS**: they make the effect run again exactly when one of them is passed
    other dependencies. -/
theorem torn_iff {props : P} {es : List (Event P O)} {s : Hook V U P}
    (h : exec (hook H) (mount H props) es = some s) (hdue : s.fiber.due = false) :
    s.torn = [] ↔ execVia (hook H) (steady H) (mount H props) es = some s := by
  have hfirst : ¬ Disturbed (mount H props) := by
    simp [Disturbed, mount]
  have hlast : ¬ Disturbed s ↔ s.torn = [] := by
    simp [Disturbed, hdue]
  rw [← hlast, disturbed_iff h]
  exact ⟨And.right, fun hv => ⟨hfirst, hv⟩⟩

/-! ## With no event from outside -/

variable (H) in
/-- Nothing but the hook itself runs, and render `n` is passed `caller n`. -/
def tick (caller : Nat → P) (s : Hook V U P) : Hook V U P :=
  (step H s .flushEffects <|> step H s (.render (caller (s.renders + 1)))).getD s

/-- Nothing is left to run. -/
def resting (s : Hook V U P) : Bool := !s.fiber.due && s.fiber.queue.isEmpty

variable (H) in
/-- From the mount, the hook comes to rest. -/
def Rests (caller : Nat → P) : Prop :=
  ∃ k, resting ((tick H caller)^[k] (mount H (caller 0))) = true

section Tick

variable {caller : Nat → P} {s : Hook V U P}

theorem tick_due (hm : s.mounted = true) (hdue : s.fiber.due = true) :
    tick H caller s = runEffect H s := by
  simp [tick, step, hm, hdue]

theorem tick_queued (hm : s.mounted = true) (hdue : s.fiber.due = false)
    (hq : s.fiber.queue ≠ []) (hne : s.fiber.next H.apply ≠ s.fiber.vars) :
    tick H caller s = commitFor H .own (caller (s.renders + 1)) s := by
  simp [tick, step, hm, hdue, hq, hne]

/-- An effect that sets nothing leaves nothing to run. -/
theorem rests_of_setup (h : H.setup 0 = []) (caller : Nat → P) : Rests H caller := by
  refine ⟨1, ?_⟩
  show resting (tick H caller (mount H (caller 0))) = true
  rw [tick_due rfl rfl]
  simp [resting, mount, h]

end Tick

end Machine

/-! ## `useSignaling` -/

/-- The options, with functions known by their identities. -/
structure SignalingProps where
  url : Option String
  onOffer : Option Nat
  onAnswer : Option Nat
  onIceCandidate : Option Nat
  deriving DecidableEq, Repr

inductive SignalingUpdate where
  | setSocket (ws : Nat)
  | setClientId (id : Js)
  | setIsConnected (b : Bool)
  deriving DecidableEq

/-- The events of the socket. -/
inductive SocketEvent where
  | onopen
  | onmessage (data : Option Json)
  | onerror
  | onclose
  deriving DecidableEq

def signalingApply (v : UseSignaling.Vars) : SignalingUpdate → UseSignaling.Vars
  | .setSocket ws => { v with socket := some ws }
  | .setClientId id => { v with clientId := id }
  | .setIsConnected b => { v with isConnected := b }

/-- The setters the handlers of the socket call. -/
def socketUpdates : SocketEvent → List SignalingUpdate
  | .onopen => [.setIsConnected true]
  | .onmessage data =>
      match UseSignaling.onmessage data with
      | .setClientId id => [.setClientId id]
      | _ => []
  | .onerror => [.setIsConnected false]
  | .onclose => [.setIsConnected false]

/-- `useSignaling`: the effect depends on all its options and sets the socket. -/
def useSignaling :
    EffectHook UseSignaling.Vars SignalingUpdate SignalingProps SignalingProps SocketEvent where
  initial := ⟨none, some .null, false⟩
  apply := signalingApply
  deps := id
  setup := fun ws => [.setSocket ws]
  outside := socketUpdates

/-- Socket `n` is open and has not been rendered yet: the hook has rendered `n` times
    since the mount, and every time it opened a new socket. -/
structure Cycling (caller : Nat → SignalingProps) (n : Nat)
    (s : Hook UseSignaling.Vars SignalingUpdate SignalingProps) : Prop where
  mounted : s.mounted = true
  due : s.fiber.due = false
  queue : s.fiber.queue = [.setSocket n]
  props : s.fiber.props = caller n
  renders : s.renders = n
  created : s.created = n + 1
  socket : ∀ ws, s.fiber.vars.socket = some ws → ws < n

section Cycle

variable {caller : Nat → SignalingProps}
  {s : Hook UseSignaling.Vars SignalingUpdate SignalingProps} {n : Nat}

theorem cycling_mount :
    Cycling caller 0 (tick useSignaling caller (mount useSignaling (caller 0))) := by
  rw [tick_due rfl rfl]
  exact ⟨rfl, rfl, rfl, rfl, rfl, rfl, fun ws h => (nomatch h)⟩

/-- The next render. -/
theorem Cycling.render (h : Cycling caller n s) :
    tick useSignaling caller s = commitFor useSignaling .own (caller (n + 1)) s := by
  have hne : s.fiber.next useSignaling.apply ≠ s.fiber.vars := by
    intro heq
    have hsocket : s.fiber.vars.socket = some n := by
      rw [← heq, Fiber.next, h.queue]
      rfl
    exact absurd (h.socket n hsocket) (lt_irrefl n)
  rw [tick_queued h.mounted h.due (by rw [h.queue]; exact List.cons_ne_nil _ _) hne, h.renders]

/-- A caller that repeats its dependencies ends the cycle. -/
theorem Cycling.rests (h : Cycling caller n s) (hcaller : caller (n + 1) = caller n) :
    resting (tick useSignaling caller s) = true := by
  rw [h.render]
  simp [resting, useSignaling, h.props, hcaller]

/-- A caller that does not makes it go on with another socket. -/
theorem Cycling.next (h : Cycling caller n s) (hcaller : caller (n + 1) ≠ caller n) :
    resting (tick useSignaling caller s) = false ∧
      Cycling caller (n + 1) (tick useSignaling caller (tick useSignaling caller s)) := by
  have hdue : (commitFor useSignaling .own (caller (n + 1)) s).fiber.due = true := by
    simp [useSignaling, h.props, hcaller.symm]
  rw [h.render,
    tick_due (s := commitFor useSignaling .own (caller (n + 1)) s) h.mounted hdue]
  refine ⟨by rw [resting, hdue]; rfl, ⟨h.mounted, rfl, ?_, rfl, ?_, ?_, ?_⟩⟩
  · simp [useSignaling, h.created]
  · simp [h.renders]
  · simp [h.created]
  · intro ws hws
    have hvars : (s.fiber.next useSignaling.apply).socket = some n := by
      rw [Fiber.next, h.queue]
      rfl
    have heq : some ws = some n := hws.symm.trans hvars
    rw [Option.some.inj heq]
    exact Nat.lt_succ_self n

/-- As long as the caller passes new dependencies, every other step finds a new socket
    to render. -/
theorem cycling_iterate : ∀ n, (∀ m < n, caller (m + 1) ≠ caller m) →
    Cycling caller n
      ((tick useSignaling caller)^[2 * n + 1] (mount useSignaling (caller 0))) := by
  intro n
  induction n with
  | zero => exact fun _ => cycling_mount
  | succ n ih =>
      intro hcaller
      have hprev := ih (fun m hm => hcaller m (Nat.lt_succ_of_lt hm))
      rw [show 2 * (n + 1) + 1 = (2 * n + 1) + 1 + 1 by omega, Function.iterate_succ_apply',
        Function.iterate_succ_apply']
      exact (hprev.next (hcaller n (Nat.lt_succ_self n))).2

/-- **THE CYCLE**: without events from outside `useSignaling` comes to rest exactly at a
    caller that some time passes the same dependencies twice. -/
theorem signaling_rests_iff (caller : Nat → SignalingProps) :
    Rests useSignaling caller ↔ ∃ n, caller (n + 1) = caller n := by
  constructor
  · rintro ⟨k, hk⟩
    by_contra hno
    have hcaller : ∀ m, caller (m + 1) ≠ caller m := fun m hm => hno ⟨m, hm⟩
    -- the steps alternate between a due effect and a queued socket
    obtain ⟨n, rfl | rfl⟩ : ∃ n, k = 2 * n ∨ k = 2 * n + 1 := ⟨k / 2, by omega⟩
    · cases n with
      | zero => exact nomatch hk
      | succ n =>
          have h := cycling_iterate n (fun m _ => hcaller m)
          rw [show 2 * (n + 1) = (2 * n + 1) + 1 by omega, Function.iterate_succ_apply',
            (h.next (hcaller n)).1] at hk
          exact nomatch hk
    · have h := cycling_iterate n (fun m _ => hcaller m)
      rw [resting, h.queue, List.isEmpty_cons, Bool.and_false] at hk
      exact nomatch hk
  · intro hex
    classical
    have hfirst := Nat.find_spec hex
    have h := cycling_iterate (Nat.find hex) (fun m hm => Nat.find_min hex hm)
    refine ⟨2 * Nat.find hex + 1 + 1, ?_⟩
    rw [Function.iterate_succ_apply']
    exact h.rests hfirst

end Cycle

/-! ## `useWebRTC` -/

/-- The options the effect depends on. -/
structure WebRTCProps where
  remoteVideoRef : Option Nat
  onIceCandidate : Option Nat
  onConnectionStateChange : Option Nat
  deriving DecidableEq, Repr

structure WebRTCVars where
  connectionState : String
  isNegotiating : Bool
  deriving DecidableEq, Repr

inductive WebRTCUpdate where
  | setConnectionState (state : String)
  | setIsNegotiating (b : Bool)
  deriving DecidableEq, Repr

def webRTCApply (v : WebRTCVars) : WebRTCUpdate → WebRTCVars
  | .setConnectionState state => { v with connectionState := state }
  | .setIsNegotiating b => { v with isNegotiating := b }

/-- The events of the connection, and the calls of `createOffer` and `handleOffer` with
    their `catch`. -/
inductive WebRTCEvent where
  | oniceconnectionstatechange (state : String)
  | onsignalingstatechange (state : SignalingState)
  | negotiationStarted
  | negotiationFailed
  deriving DecidableEq

def webRTCUpdates : WebRTCEvent → List WebRTCUpdate
  | .oniceconnectionstatechange state => [.setConnectionState state]
  | .onsignalingstatechange state => if state = .stable then [.setIsNegotiating false] else []
  | .negotiationStarted => [.setIsNegotiating true]
  | .negotiationFailed => [.setIsNegotiating false]

/-- `useWebRTC`: the effect sets no state. -/
def useWebRTC :
    EffectHook WebRTCVars WebRTCUpdate WebRTCProps WebRTCProps WebRTCEvent where
  initial := ⟨"new", false⟩
  apply := webRTCApply
  deps := id
  setup := fun _ => []
  outside := webRTCUpdates

/-! ## Both hooks -/

/-- **THE HOOKS AND THEIR OWN RENDERS**: in any run, once the due effects have run, no
    render that a hook caused itself has closed or opened a connection, exactly when each
    of them was passed the dependencies of the commit before it.  With no event from
    outside, `useSignaling` comes to rest exactly when its caller some time passes the
    same dependencies twice, and `useWebRTC` always does. -/
theorem own_renders_iff {props : SignalingProps} {es : List (Event SignalingProps SocketEvent)}
    {s : Hook UseSignaling.Vars SignalingUpdate SignalingProps}
    (h : exec (hook useSignaling) (mount useSignaling props) es = some s)
    (hdue : s.fiber.due = false) {props' : WebRTCProps}
    {es' : List (Event WebRTCProps WebRTCEvent)}
    {s' : Hook WebRTCVars WebRTCUpdate WebRTCProps}
    (h' : exec (hook useWebRTC) (mount useWebRTC props') es' = some s')
    (hdue' : s'.fiber.due = false) (caller : Nat → SignalingProps)
    (caller' : Nat → WebRTCProps) :
    (s.torn = [] ↔
      execVia (hook useSignaling) (steady useSignaling) (mount useSignaling props) es
        = some s) ∧
    (s'.torn = [] ↔
      execVia (hook useWebRTC) (steady useWebRTC) (mount useWebRTC props') es' = some s') ∧
    (Rests useSignaling caller ↔ ∃ n, caller (n + 1) = caller n) ∧
    Rests useWebRTC caller' :=
  ⟨torn_iff h hdue, torn_iff h' hdue', signaling_rests_iff caller, rests_of_setup rfl caller'⟩

/-- The caller of the doc comment: new functions with every render. -/
def inlineSignaling (n : Nat) : SignalingProps := ⟨none, some n, none, some n⟩

def inlineWebRTC (n : Nat) : WebRTCProps := ⟨some 0, some n, none⟩

/-- With inline callbacks `useSignaling` opens one socket after the other for ever, and
    `useWebRTC` closes its connection when its ICE state changes. -/
theorem inline_callbacks_tear_down :
    ¬ Rests useSignaling inlineSignaling ∧
    (exec (hook useSignaling) (mount useSignaling (inlineSignaling 0))
        [.flushEffects, .render (inlineSignaling 1), .flushEffects]).map
      (fun s => (s.torn, s.closed)) = some ([(some 0, 1)], [0]) ∧
    (exec (hook useWebRTC) (mount useWebRTC (inlineWebRTC 0))
        [.flushEffects, .outside (.oniceconnectionstatechange "checking"),
          .render (inlineWebRTC 1), .flushEffects]).map
      (fun s => (s.torn, s.closed)) = some ([(some 0, 1)], [0]) := by
  refine ⟨?_, by decide +kernel, by decide +kernel⟩
  rw [signaling_rests_iff]
  rintro ⟨n, hn⟩
  have hcallback : some (n + 1) = some n := congrArg SignalingProps.onOffer hn
  simp at hcallback

/-- Callers that memoise their callbacks: the socket opens, the ICE state changes. -/
def memoisedRun : List (Event SignalingProps SocketEvent) :=
  [.flushEffects, .render (inlineSignaling 0), .outside .onopen, .render (inlineSignaling 0)]

def memoisedRun' : List (Event WebRTCProps WebRTCEvent) :=
  [.flushEffects, .outside (.oniceconnectionstatechange "checking"), .render (inlineWebRTC 0)]

theorem own_renders_iff_sample :
    Rests useSignaling (fun _ => inlineSignaling 0) ∧ Rests useWebRTC inlineWebRTC ∧
    (∃ s, exec (hook useSignaling) (mount useSignaling (inlineSignaling 0)) memoisedRun
      = some s ∧ s.fiber.vars.isConnected = true ∧ s.torn = []) ∧
    ∃ s, exec (hook useWebRTC) (mount useWebRTC (inlineWebRTC 0)) memoisedRun' = some s ∧
      s.fiber.vars.connectionState = "checking" ∧ s.torn = [] := by
  obtain ⟨htorn, htorn', hrests, hrests'⟩ :=
    own_renders_iff
      (show exec (hook useSignaling) (mount useSignaling (inlineSignaling 0)) memoisedRun
        = some _ from rfl) (by decide +kernel)
      (show exec (hook useWebRTC) (mount useWebRTC (inlineWebRTC 0)) memoisedRun'
        = some _ from rfl) (by decide +kernel) (fun _ => inlineSignaling 0) inlineWebRTC
  exact ⟨hrests.mpr ⟨0, rfl⟩, hrests', ⟨_, rfl, by decide +kernel, htorn.mpr (by decide +kernel)⟩,
    _, rfl, by decide +kernel, htorn'.mpr (by decide +kernel)⟩

end HookEffects
