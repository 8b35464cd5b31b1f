import WebRtcCam.CamRoutingProofs

/-! # After a Close frame

    `StreamHandler::handle` looks at text frames only: a Close frame is handled like a
    ping, by doing nothing.  The session goes on running, and stays in `sessions`, until
    its stream ends; only then `stopping` sends the `UnregisterSession` that takes it
    out.  In between the server finds it, forwards to it and reports success, and the
    client that said goodbye is no longer there to read.

    The log beside the relay keeps, for every Close frame handled, what each session had
    sent to the server by then.

    * `unregistered_iff` — a key is out for good once its `UnregisterSession` has been
      handled, which is the last message of a stopped session;
    * `goodbye_iff` — when a session that said goodbye has left. -/

namespace CamGoodbye

open LtsRun CamWire CamRelay CamRouting

variable {from_str : String → Option Message}

/-! ## Goodbyes -/

/-- A Close frame has been handled: whose, and how many messages each session had sent to
    the server by then. -/
structure Goodbye where
  who : Addr
  sent : Addr → Nat

/-- What a session has sent to the server so far, handled or not. -/
def sentSoFar (s : Relay) (c : Addr) : Nat :=
  (handledFrom c s.handled).length + ((s.actor c).map (fun y => y.toServer.length)).getD 0

def note (s : Relay) : Event → List Goodbye
  | .frame a (some .close) => [⟨a, sentSoFar s⟩]
  | _ => []

/-- All messages that were in the server's mailbox at the goodbye have been handled. -/
def Handled (s : Relay) (g : Goodbye) : Prop :=
  ∀ c, g.sent c ≤ (handledFrom c s.handled).length

/-- Handling the oldest message of session `c` forwards its text to session `id`. -/
def Forwards (s : Relay) (c : Addr) (id : String) : Prop :=
  ∃ y msg rest b, s.actor c = some y ∧ y.toServer = .sendMessage id msg :: rest ∧
    s.sessions id = some b

/-- The id is not registered, and nothing is forwarded to it from now on. -/
def HasLeft (from_str : String → Option Message) (s : Relay) (id : String) : Prop :=
  s.sessions id = none ∧ ∀ t, Later (relay from_str) s t → ∀ c, ¬ Forwards t c id

/-! ## Out for good -/

/-- The unregister is the last message of a session, and it is handled when the session
    has stopped and its queue is empty. -/
theorem unregistered_iff {s : Relay} (hf : PairFifo from_str s) {a : Addr}
    {x : WebSocketSession} (hx : s.actor a = some x) :
    (a, ServerMsg.unregisterSession x.id) ∈ s.handled ↔
      x.phase = .stopped ∧ x.toServer = [] := by
  have hfifo := hf.fifo a x hx
  constructor
  · intro hm
    obtain ⟨y, hy, -, hp⟩ := handled_unregister hf hm
    cases hx.symm.trans hy
    refine ⟨hp, ?_⟩
    simp only [emitted, hp] at hfifo
    -- a message still queued would be the last one, and the unregister handled before it
    rcases List.eq_nil_or_concat x.toServer with hnil | ⟨ys, z, hys⟩
    · exact hnil
    · exfalso
      rw [hys, List.concat_eq_append, ← List.append_assoc, ← List.cons_append] at hfifo
      obtain ⟨hfront, -⟩ := List.append_inj' hfifo rfl
      have hmem : ServerMsg.unregisterSession x.id
          ∈ handledFrom a s.handled ++ ys :=
        List.mem_append_left _ (mem_handledFrom.mpr hm)
      rw [hfront] at hmem
      simp [relayOf] at hmem
  · rintro ⟨hp, hq⟩
    rw [hq, List.append_nil] at hfifo
    rw [← mem_handledFrom, hfifo]
    simp [emitted, hp]

/-- A key whose unregister has been handled is out, and never comes back. -/
theorem hasLeft_of_unregistered {s : Relay} (h : Reachable (relay from_str) s) {a : Addr}
    {id : String} (hm : (a, ServerMsg.unregisterSession id) ∈ s.handled) :
    HasLeft from_str s id := by
  refine ⟨gone_of_unregistered h hm, fun t ht c => ?_⟩
  rintro ⟨y, msg, rest, b, -, -, hb⟩
  rw [gone_of_unregistered (LaterVia.reachable ht h) (Later.handled_mono ht hm)] at hb
  cases hb

/-! ## When the goodbye counts -/

/-- A session that handles a frame has sent its registration. -/
theorem sent_pos {s s' : Relay} {a : Addr} {f : Option WsFrame} (hf : PairFifo from_str s)
    (h : Step from_str s (.frame a f) s') : 1 ≤ sentSoFar s a := by
  cases h with
  | @frame _ x _ hx hp =>
      have hlen := congrArg List.length (hf.fifo a x hx)
      simp only [emitted, hp, List.length_append, List.length_cons] at hlen
      rw [sentSoFar, hx, Option.map_some, Option.getD_some]
      omega

theorem goodbye_sent {p : Relay × List Goodbye}
    (h : Reachable (logged (relay from_str) note) p) : ∀ g ∈ p.2, 1 ≤ g.sent g.who := by
  refine ReachVia.invariant (M := logged (relay from_str) note)
    (I := fun p => ∀ g ∈ p.2, 1 ≤ g.sent g.who) (fun p hp => ?_)
    (fun p e p' hr hi _ hst => ?_) h
  · rw [hp.2]
    exact fun g hg => (by cases hg)
  · obtain ⟨hst, hl⟩ := logged_step hst
    have hf := pairFifo_reachable (ReachVia.unlogged (C := fun _ _ => True) hr)
    intro g hg
    rw [hl] at hg
    rcases List.mem_append.mp hg with hg | hg
    · exact hi g hg
    · simp only [note] at hg
      split at hg
      · next a =>
          rw [List.mem_singleton.mp hg]
          exact sent_pos hf (step_cases hst)
      · cases hg

/-- Once anything of a session has been handled, its registration has. -/
theorem registered_of_handled {s : Relay} (hf : PairFifo from_str s) {a : Addr}
    {x : WebSocketSession} (hx : s.actor a = some x)
    (hpos : 1 ≤ (handledFrom a s.handled).length) :
    (a, ServerMsg.registerSession x.id a) ∈ s.handled := by
  have hfifo := hf.fifo a x hx
  rw [← mem_handledFrom]
  cases hh : handledFrom a s.handled with
  | nil =>
      rw [hh] at hpos
      exact absurd hpos (by decide)
  | cons m ms =>
      rw [hh, List.cons_append] at hfifo
      cases hp : x.phase with
      | created =>
          simp only [emitted, hp] at hfifo
          cases hfifo
      | running =>
          simp only [emitted, hp] at hfifo
          rw [(List.cons.inj hfifo).1]
          exact List.mem_cons_self ..
      | stopped =>
          simp only [emitted, hp] at hfifo
          rw [(List.cons.inj hfifo).1]
          exact List.mem_cons_self ..

/-- **AFTER A GOODBYE**: in every run, once all messages that were in the server's mailbox
    at the Close frame have been handled, the session has left exactly when its actor has
    stopped and everything it sent, its `UnregisterSession` last, has been handled. -/
theorem goodbye_iff {s : Relay} {l : List Goodbye}
    (h : Reachable (logged (relay from_str) note) (s, l)) {g : Goodbye} (hg : g ∈ l)
    {x : WebSocketSession} (hx : s.actor g.who = some x) (hhandled : Handled s g) :
    HasLeft from_str s x.id ↔ x.phase = .stopped ∧ x.toServer = [] := by
  have hreach : Reachable (relay from_str) s := ReachVia.unlogged (C := fun _ _ => True) h
  have hf := pairFifo_reachable hreach
  rw [← unregistered_iff hf hx]
  constructor
  · rintro ⟨hout, -⟩
    have hreg := registered_of_handled hf hx
      (Nat.le_trans (goodbye_sent h g hg) (hhandled g.who))
    by_contra hno
    have hin := ((registry_reachable hreach).entry x.id g.who).mpr ⟨hreg, hno⟩
    rw [hout] at hin
    cases hin
  · exact hasLeft_of_unregistered hreach

/-- Two clients connect, and the first says goodbye. -/
def goodbyeRun : List Event :=
  [.connect 0 "b", .connect 1 "a", .start 0, .start 1, .serve 0, .serve 1,
    .frame 0 (some .close)]

/-- The state and the log a list of events leads to. -/
def loggedAfter (es : List Event) : Relay × List Goodbye :=
  LtsRun.after (logged (relay sampleDecode) note) (initial, []) es

theorem loggedAfter_reachable (es : List Event)
    (h : (exec (logged (relay sampleDecode) note) (initial, []) es).isSome = true) :
    Reachable (logged (relay sampleDecode) note) (loggedAfter es) :=
  ReachVia.of_after (c := fun _ _ => true) (fun _ _ _ => trivial)
    (logged_init (show (relay sampleDecode).init initial from rfl)) h

/-- With nothing in the server's mailbox the session is still registered, and the next
    text for it is forwarded to a client that is gone. -/
theorem forwarded_after_goodbye :
    (loggedAfter goodbyeRun).1.sessions "b" = some 0 ∧
    ((loggedAfter goodbyeRun).1.actor 0).map (fun x => x.toServer) = some [] ∧
    ((loggedAfter goodbyeRun).1.actor 1).map (fun x => x.toServer) = some [] ∧
    ((loggedAfter (goodbyeRun ++
      [.frame 1 (some (.text "\x7b\"from\":\"a\",\"to\":\"b\"\x7d")), .serve 1])).1.actor 0).map
        (fun x => x.mailbox) = some ["\x7b\"from\":\"a\",\"to\":\"b\"\x7d"] := by
  decide

/-- The stream of the first client ends, and its unregister is handled. -/
def leavingRun : List Event := goodbyeRun ++ [.stop 0, .serve 0]

/-- The goodbye of that run. -/
def firstGoodbye : Goodbye := ⟨0, sentSoFar (loggedAfter (goodbyeRun.take 6)).1⟩

theorem goodbye_iff_sample : HasLeft sampleDecode (loggedAfter leavingRun).1 "b" := by
  have hgoodbye : (loggedAfter leavingRun).2 = [firstGoodbye] := rfl
  have hhandled : Handled (loggedAfter leavingRun).1 firstGoodbye := by
    intro c
    match c with
    | 0 => decide
    | 1 => decide
    | n + 2 => exact Nat.zero_le _
  have hactor : ∃ x, (loggedAfter leavingRun).1.actor 0 = some x ∧
      x.id = "b" ∧ x.phase = .stopped ∧ x.toServer = [] := ⟨_, rfl, by decide⟩
  obtain ⟨x, hx, hid, hphase, hqueue⟩ := hactor
  have hreach : Reachable (logged (relay sampleDecode) note)
      ((loggedAfter leavingRun).1, [firstGoodbye]) := by
    rw [← hgoodbye]
    exact loggedAfter_reachable leavingRun (by decide)
  have hleft := (goodbye_iff hreach (List.mem_singleton_self firstGoodbye) hx
    hhandled).mpr ⟨hphase, hqueue⟩
  rw [hid] at hleft
  exact hleft

end CamGoodbye
