import Mathlib.Algebra.BigOperators.Group.Finset.Piecewise
import Mathlib.Algebra.Order.BigOperators.Group.Finset
import WebRtcCam.CamWorkProofs
import WebRtcCam.CamTrailProofs

/-! # The system drains

    Pages and relay, and other clients that send what they like.  Some of the steps are
    the system's own: sessions start, mailboxes are emptied, texts go up and down, pages
    render what is queued, run what is due and settle what is suspended.  Clicks, edits,
    cameras, connections and frames of other clients are not.

    Left to itself, any part of the system comes to rest.  What is still to do at an
    address (`workAt`) is what the page has to do, and what is on its way to and from
    it; every step of the system's own makes the sum over a set of addresses smaller.

    * `work_lowers` — the step;
    * `rests_when_stuck` — where no such step is possible, nothing is left to do;
    * `drains` — the bound, and the rest. -/

namespace CamDrain

open LtsRun JsonText CamWire CamNet CamMail CamStuck CamTrail CamWork
open CamNegotiation (frames step_negotiates sent_step isFrame_of_frames)
open CamRelay (Addr Relay WebSocketSession ServerMsg)
open CamPage (Page)

/-! ## The potential -/

/-- A message on its way to the server, with the text it carries. -/
def msgCost : ServerMsg → Nat
  | .sendMessage _ t => 2 + textCost t
  | _ => 1

/-- A session that is still to start: its registration and its welcome. -/
def phaseCost : CamRelay.Phase → Nat
  | .created => 23
  | _ => 0

/-- What a session has queued for the server, and the server for it. -/
def sessionWork (x : WebSocketSession) : Nat :=
  phaseCost x.phase + (x.toServer.map msgCost).sum +
    (x.mailbox.map (fun t => 1 + textCost t)).sum

/-- What a page and its session have still to do, with `up` frames gone up and `down`
    texts come down. -/
def workOf (s : Page) (up down : Nat) (x : WebSocketSession) : Nat :=
  pageWork s + framesCost (s.sent.drop up) + sessionWork x +
    ((x.socket.drop down).map textCost).sum

/-- Everything that is still to do at an address. -/
def workAt (n : Net) (a : Addr) : Nat :=
  workOf (n.page a) (n.up a) (n.down a) (session n.relay a)

/-- Everything that is still to do at some addresses. -/
def work (S : Finset Addr) (n : Net) : Nat := ∑ a ∈ S, workAt n a

/-- The steps the system takes of its own accord, at some addresses.  A page renders
    because something was queued. -/
def own (S : Finset Addr) (n : Net) (e : Event) : Bool :=
  decide (address e ∈ S) &&
    match e with
    | .server (.start _) | .server (.serve _) | .server (.deliver _) => true
    | .browser a .render => !(n.page a).queue.isEmpty
    | .browser _ .flushEffects | .browser _ (.settle _) => true
    | .upload _ | .download _ => true
    | _ => false

/-! ## One address -/

section Step

variable {honest : Addr → Bool} {from_str : String → Option Message}
  {C : Net → Event → Prop} {S : Finset Addr} {n n' : Net} {e : Event}

/-- Less is to do at one address, and nothing has changed at the others. -/
structure Lighter (n n' : Net) (b : Addr) : Prop where
  less : workAt n' b < workAt n b
  same : ∀ a, a ≠ b → workAt n' a = workAt n a

theorem Lighter.work (h : Lighter n n' b) (hb : b ∈ S) : work S n' < work S n := by
  refine Finset.sum_lt_sum (fun a _ => ?_) ⟨b, hb, h.less⟩
  by_cases hab : a = b
  · rw [hab]
    exact Nat.le_of_lt h.less
  · exact Nat.le_of_eq (h.same a hab)

/-- Texts dropped from a socket that has grown. -/
theorem drop_cost (l : List String) (t : String) (k : Nat) :
    (((l ++ [t]).drop k).map textCost).sum ≤ ((l.drop k).map textCost).sum + textCost t := by
  rw [List.drop_append, List.map_append, List.sum_append]
  refine Nat.add_le_add_left ?_ _
  cases k - l.length with
  | zero => exact Nat.le_of_eq (Nat.add_zero _)
  | succ j =>
      rw [List.drop_succ_cons, List.drop_nil]
      exact Nat.zero_le _

/-- Frames that have not gone up, when more have been sent. -/
theorem framesCost_drop (l l' : List Json) (k : Nat) :
    framesCost ((l ++ l').drop k) ≤ framesCost (l.drop k) + framesCost l' := by
  rw [List.drop_append, framesCost_append]
  refine Nat.add_le_add_left ?_ _
  have hsplit : framesCost l' = framesCost (l'.take (k - l.length))
      + framesCost (l'.drop (k - l.length)) := by
    rw [← framesCost_append, List.take_append_drop]
  omega

/-- The relay changes one session. -/
theorem lighter_session {b : Addr} {z : WebSocketSession}
    (h : sessionWork z + ((z.socket.drop (n.down b)).map textCost).sum
      < sessionWork (session n.relay b) +
        (((session n.relay b).socket.drop (n.down b)).map textCost).sum) :
    Lighter n { n with relay := CamRelay.setActor n.relay b z } b where
  less := by
    show workOf (n.page b) (n.up b) (n.down b) (session (CamRelay.setActor n.relay b z) b) < _
    rw [session_setActor, if_pos rfl, workAt, workOf, workOf]
    omega
  same := fun a ha => by
    show workOf (n.page a) (n.up a) (n.down a) (session (CamRelay.setActor n.relay b z) a) = _
    rw [session_setActor, if_neg ha]
    rfl

/-- A session starts. -/
theorem lighter_start {a : Addr} {x : WebSocketSession} (hx : n.relay.actor a = some x)
    (hp : x.phase = .created) :
    Lighter n { n with relay := CamRelay.setActor n.relay a (CamRelay.started a x) } a := by
  refine lighter_session ?_
  have hdrop := drop_cost x.socket (welcomeText x.id) (n.down a)
  have hle := textCost_le (welcomeText x.id)
  rw [session_some hx, sessionWork, sessionWork, hp]
  simp only [CamRelay.started, List.map_append, List.sum_append, List.map_cons, List.map_nil,
    List.sum_cons, List.sum_nil, msgCost, phaseCost]
  omega

/-- A session writes the oldest text of its mailbox to its socket. -/
theorem lighter_deliver {a : Addr} {x : WebSocketSession} {t : String} {rest : List String}
    (hx : n.relay.actor a = some x) (hm : x.mailbox = t :: rest) :
    Lighter n { n with
      relay := CamRelay.setActor n.relay a (CamRelay.handleWsMessage x t rest) } a := by
  refine lighter_session ?_
  have hdrop := drop_cost x.socket t (n.down a)
  rw [session_some hx, sessionWork, sessionWork, hm]
  simp only [CamRelay.handleWsMessage, List.map_cons, List.sum_cons]
  omega

/-- The next frame of a page goes up to its session. -/
theorem lighter_upload {a : Addr} {x : WebSocketSession} {f : Json}
    (hx : n.relay.actor a = some x) (hf : (n.page a).sent[n.up a]? = some f) :
    Lighter n { n with
      relay := CamRelay.setActor n.relay a
        (CamRelay.handleFrame from_str x (some (.text (render f))))
      up := Function.update n.up a (n.up a + 1) } a where
  less := by
    obtain ⟨hlt, hget⟩ := List.getElem?_eq_some_iff.mp hf
    have hsent : framesCost ((n.page a).sent.drop (n.up a))
        = frameCost f + framesCost ((n.page a).sent.drop (n.up a + 1)) := by
      rw [List.drop_eq_getElem_cons hlt, hget]
      rfl
    have hqueue : ((CamRelay.relayOf from_str (render f)).toList.map msgCost).sum
        ≤ 2 + textCost (render f) := by
      rw [CamRelay.relayOf]
      cases from_str (render f) with
      | none => exact Nat.zero_le _
      | some m => exact Nat.le_refl _
    show workOf (n.page a) (Function.update n.up a (n.up a + 1) a) (n.down a)
      (session (CamRelay.setActor n.relay a _) a) < _
    rw [session_setActor, if_pos rfl, Function.update_self, workAt, workOf, workOf,
      session_some hx, hsent, sessionWork, sessionWork, frameCost]
    simp only [CamRelay.handleFrame, List.map_append, List.sum_append]
    omega
  same := fun b hb => by
    show workOf (n.page b) (Function.update n.up a (n.up a + 1) b) (n.down b)
      (session (CamRelay.setActor n.relay a _) b) = _
    rw [session_setActor, if_neg hb, Function.update_of_ne hb]
    rfl

/-- A page takes a step of its own. -/
theorem lighter_browser (hreach : ReachVia (net honest from_str) C n) {a : Addr}
    {d : CamPage.Event} {s : Page} (hown : ownTurn (n.page a) d = true)
    (hm : isMessage d = false) (hs : CamPage.step (n.page a) d = some s) :
    Lighter n (setPage n a s) a where
  less := by
    obtain ⟨l, hl, hlt⟩ := turn_pays (page_reachable a hreach) hown hs
    have hprice : arrivalCost d = 0 := by
      cases d with
      | message => cases hm
      | _ => rfl
    have hsent := framesCost_drop (n.page a).sent l (n.up a)
    show workOf (Function.update n.page a s a) (n.up a) (n.down a) (session n.relay a) < _
    rw [Function.update_self, workAt, workOf, workOf, hl]
    omega
  same := fun b hb => by
    show workOf (Function.update n.page a s b) (n.up b) (n.down b) (session n.relay b) = _
    rw [Function.update_of_ne hb]
    rfl

/-- The next text on a socket reaches its page. -/
theorem lighter_download (hreach : ReachVia (net honest from_str) C n) {a : Addr}
    {x : WebSocketSession} {t : String} {s : Page} (hx : n.relay.actor a = some x)
    (ht : x.socket[n.down a]? = some t)
    (hs : CamPage.step (n.page a) (.message (parse t)) = some s) :
    Lighter n { setPage n a s with down := Function.update n.down a (n.down a + 1) } a where
  less := by
    obtain ⟨l, hl, hlt⟩ := turn_pays (page_reachable a hreach) rfl hs
    obtain ⟨hlen, hget⟩ := List.getElem?_eq_some_iff.mp ht
    have hprice : arrivalCost (.message (parse t)) = textCost t := rfl
    have hsent := framesCost_drop (n.page a).sent l (n.up a)
    have hsocket : ((x.socket.drop (n.down a)).map textCost).sum
        = textCost t + ((x.socket.drop (n.down a + 1)).map textCost).sum := by
      rw [List.drop_eq_getElem_cons hlen, hget]
      rfl
    show workOf (Function.update n.page a s a) (n.up a)
      (Function.update n.down a (n.down a + 1) a) (session n.relay a) < _
    rw [Function.update_self, Function.update_self, workAt, workOf, workOf, hl,
      session_some hx, hsocket]
    omega
  same := fun b hb => by
    show workOf (Function.update n.page a s b) (n.up b)
      (Function.update n.down a (n.down a + 1) b) (session n.relay b) = _
    rw [Function.update_of_ne hb, Function.update_of_ne hb]
    rfl

/-! ## A message handled by the server -/

/-- What handling `m` puts into the mailbox at `b`. -/
def giftCost (n : Net) (m : ServerMsg) (b : Addr) : Nat :=
  ((((n.relay.actor b).map (fun y => CamRelay.gift n.relay b y m)).getD []).map
    (fun t => 1 + textCost t)).sum

/-- The server passes a text on to one session at most. -/
theorem gifts_cost (S : Finset Addr) (n : Net) (m : ServerMsg) :
    ∑ b ∈ S, giftCost n m b < msgCost m := by
  have hnone : (∀ b y, CamRelay.gift n.relay b y m = []) → ∑ b ∈ S, giftCost n m b = 0 := by
    intro hno
    refine Finset.sum_eq_zero (fun b _ => ?_)
    rw [giftCost]
    cases n.relay.actor b with
    | none => rfl
    | some y =>
        rw [Option.map_some, hno b y]
        rfl
  cases m with
  | registerSession id addr =>
      rw [hnone (fun _ _ => rfl)]
      exact Nat.zero_lt_one
  | unregisterSession id =>
      rw [hnone (fun _ _ => rfl)]
      exact Nat.zero_lt_one
  | sendMessage dest t =>
      have hle : ∀ b, giftCost n (.sendMessage dest t) b
          ≤ if n.relay.sessions dest = some b then 1 + textCost t else 0 := by
        intro b
        rw [giftCost]
        cases n.relay.actor b with
        | none => exact Nat.zero_le _
        | some y =>
            rw [Option.map_some, Option.getD_some, CamRelay.gift]
            split
            · next hc =>
                rw [if_pos hc.1]
                exact Nat.le_refl _
            · exact Nat.zero_le _
      have hone : ∑ b ∈ S, (if n.relay.sessions dest = some b then 1 + textCost t else 0)
          ≤ 1 + textCost t := by
        cases n.relay.sessions dest with
        | none => exact Nat.le_trans (Nat.le_of_eq (by simp)) (Nat.zero_le _)
        | some c =>
            have hsome : ∀ b ∈ S, (if some c = some b then 1 + textCost t else 0)
                = if c = b then 1 + textCost t else 0 :=
              fun b _ => if_congr Option.some_inj rfl rfl
            rw [Finset.sum_congr rfl hsome, Finset.sum_ite_eq]
            split
            · exact Nat.le_refl _
            · exact Nat.zero_le _
      have hsum := Finset.sum_le_sum (fun b (_ : b ∈ S) => hle b)
      show _ < 2 + textCost t
      omega

/-- The server handles the oldest message of a session. -/
theorem serve_lowers {a : Addr} {x : WebSocketSession} {m : ServerMsg}
    {rest : List ServerMsg} (ha : a ∈ S) (hx : n.relay.actor a = some x)
    (hq : x.toServer = m :: rest) :
    work S { n with relay := CamRelay.serveMsg n.relay a x m rest } < work S n := by
  -- at each address, what is taken from the queue and put into the mailbox
  have hat : ∀ b, workAt { n with relay := CamRelay.serveMsg n.relay a x m rest } b
      + (if b = a then msgCost m else 0) = workAt n b + giftCost n m b := by
    intro b
    obtain ⟨hsocket, hto, hmail, hphase⟩ := @session_serve n.relay a x m rest hx b
    show workOf (n.page b) (n.up b) (n.down b) (session (CamRelay.serveMsg n.relay a x m rest) b)
      + _ = _
    rw [workAt, workOf, workOf, sessionWork, sessionWork, giftCost, hsocket, hto, hmail, hphase,
      List.map_append, List.sum_append]
    by_cases hb : b = a
    · rw [if_pos hb, if_pos hb, hb, session_some hx, hq, List.map_cons, List.sum_cons]
      omega
    · rw [if_neg hb, if_neg hb]
      omega
  have hsum := Finset.sum_congr (Eq.refl S) (fun b (_ : b ∈ S) => hat b)
  rw [Finset.sum_add_distrib, Finset.sum_add_distrib, Finset.sum_ite_eq' S a, if_pos ha] at hsum
  have hgifts := gifts_cost S n m
  show ∑ b ∈ S, _ < ∑ b ∈ S, _
  omega

/-- **THE WORK GETS LESS** with every step of the system's own. -/
theorem work_lowers (hreach : ReachVia (net honest from_str) C n) (hown : own S n e = true)
    (h : Step honest from_str n e n') : work S n' < work S n := by
  obtain ⟨hmem, hkind⟩ := Bool.and_eq_true_iff.mp hown
  have hmem := of_decide_eq_true hmem
  cases h with
  | @server d r _ hst =>
      cases CamRelay.step_cases hst with
      | connect => cases hkind
      | start hx hp => exact (lighter_start hx hp).work hmem
      | frame => cases hkind
      | serve hx hq => exact serve_lowers hmem hx hq
      | deliver hx _ hm => exact (lighter_deliver hx hm).work hmem
      | stop => cases hkind
  | @browser a d s _ hm hs =>
      have hturn : ownTurn (n.page a) d = true := by
        cases d with
        | render => exact hkind
        | flushEffects => rfl
        | message => rfl
        | settle => rfl
        | _ => cases hkind
      exact (lighter_browser hreach hturn hm hs).work hmem
  | @upload a f r _ hf hst =>
      cases CamRelay.step_cases hst with
      | frame hx _ => exact (lighter_upload hx hf).work hmem
  | @download a x t s _ hx ht hs => exact (lighter_download hreach hx ht hs).work hmem

/-! ## Where nothing more is possible -/

/-- Counters point into what they count, a page with a session has opened its socket, and
    one without has sent nothing. -/
structure Orderly (honest : Addr → Bool) (n : Net) : Prop where
  up_le : ∀ a, n.up a ≤ (n.page a).sent.length
  down_le : ∀ a, n.down a ≤ (session n.relay a).socket.length
  opened : ∀ a, honest a = true → n.relay.actor a ≠ none → (n.page a).mountVars.isSome = true
  silent : ∀ a, n.relay.actor a = none → (n.page a).sent = []

/-- The socket that the mount effect has opened is not given up. -/
theorem mountVars_kept {s s' : Page} {d : CamPage.Event} (hm : s.mountVars.isSome = true)
    (h : CamPage.step s d = some s') : s'.mountVars.isSome = true := by
  have hst := CamPage.step_cases h
  cases hst.frame with
  | render =>
      cases hst with
      | render => exact hm
  | flushEffects =>
      cases hst with
      | flushEffects => exact CamPending.flush_mountVars s.effects { s with effects := [] } hm
  | unmount =>
      cases hst with
      | unmount => exact hm
  | message hsame => rw [hsame.mountVars]; exact hm
  | edit hsame => rw [hsame.mountVars]; exact hm
  | handler _ hsame _ => rw [hsame.mountVars]; exact hm

/-- A frame or nothing goes up, a text or nothing comes down. -/
theorem counters_step (h : Step honest from_str n e n') (a : Addr) :
    (n'.up a = n.up a ∨ n'.up a = n.up a + 1 ∧ n.up a < (n.page a).sent.length) ∧
      (n'.down a = n.down a ∨
        n'.down a = n.down a + 1 ∧ n.down a < (session n.relay a).socket.length) := by
  cases h with
  | server => exact ⟨Or.inl rfl, Or.inl rfl⟩
  | browser => exact ⟨Or.inl rfl, Or.inl rfl⟩
  | @upload b f r _ hf _ =>
      refine ⟨?_, Or.inl rfl⟩
      show Function.update n.up b _ a = _ ∨ Function.update n.up b _ a = _ ∧ _
      by_cases hab : a = b
      · rw [hab, Function.update_self]
        exact Or.inr ⟨rfl, (List.getElem?_eq_some_iff.mp hf).1⟩
      · rw [Function.update_of_ne hab]
        exact Or.inl rfl
  | @download b x t s _ hx ht _ =>
      refine ⟨Or.inl rfl, ?_⟩
      show Function.update n.down b _ a = _ ∨ Function.update n.down b _ a = _ ∧ _
      by_cases hab : a = b
      · rw [hab, Function.update_self, session_some hx]
        exact Or.inr ⟨rfl, (List.getElem?_eq_some_iff.mp ht).1⟩
      · rw [Function.update_of_ne hab]
        exact Or.inl rfl

/-- What is in the mailbox of a session when it stops is gone, and nothing is put there
    any more. -/
theorem mailbox_stopped {r : Relay} (h : Reachable (CamRelay.relay from_str) r) :
    ∀ a x, r.actor a = some x → x.phase = .stopped → x.mailbox = [] := by
  refine ReachVia.invariant
    (I := fun r => ∀ a x, r.actor a = some x → x.phase = .stopped → x.mailbox = [])
    (fun r hr a x hx _ => ?_) (fun r d r' _ hi _ hst a x hx hp => ?_) h
  · subst hr
    cases hx
  · -- a step that writes one session
    have hlocal : ∀ (b : Addr) (z : WebSocketSession), (z.phase = .stopped → z.mailbox = []) →
        (CamRelay.setActor r b z).actor a = some x → x.mailbox = [] := by
      intro b z hz hx
      by_cases hab : a = b
      · rw [hab, CamRelay.setActor_self] at hx
        cases hx
        exact hz hp
      · rw [CamRelay.setActor_ne r z hab] at hx
        exact hi a x hx hp
    cases CamRelay.step_cases hst with
    | connect => exact hlocal _ _ (fun h => (by cases h)) hx
    | start => exact hlocal _ _ (fun h => (by cases h)) hx
    | @frame b y f hy hrun =>
        refine hlocal b _ (fun hs => ?_) hx
        have hphase : (CamRelay.handleFrame from_str y f).phase = y.phase := by
          cases f with
          | none => rfl
          | some w => cases w <;> rfl
        rw [hphase, hrun] at hs
        cases hs
    | @serve b y m rest hy _ =>
        rw [CamRelay.serveMsg_actor hy] at hx
        obtain ⟨z, hz, rfl⟩ := Option.map_eq_some_iff.mp hx
        have hstopped : z.phase = .stopped := hp
        have hgift : CamRelay.gift r a z m = [] := by
          cases m with
          | sendMessage dest t => rw [CamRelay.gift, if_neg (fun hc => hc.2 hstopped)]
          | _ => rfl
        show z.mailbox ++ CamRelay.gift r a z m = []
        rw [hi a z hz hstopped, hgift]
        rfl
    | @deliver b y t rest hy hrun _ =>
        refine hlocal b _ (fun hs => ?_) hx
        have hs' : y.phase = .stopped := hs
        rw [hrun] at hs'
        cases hs'
    | stop => exact hlocal _ _ (fun _ => rfl) hx

theorem orderly_step (hreach : ReachVia (net honest from_str) C n) (hi : Orderly honest n)
    (h : Step honest from_str n e n') : Orderly honest n' := by
  have hcount := counters_step h
  refine ⟨fun a => ?_, fun a => ?_, fun a hh hsome => ?_, fun a hnone => ?_⟩
  · have hle : (n.page a).sent.length ≤ (n'.page a).sent.length := by
      rcases h.page a with heq | ⟨d, hd, -⟩
      · rw [heq]
      · exact (sent_grows (page_reachable a hreach) hd).length_le
    have hup := hi.up_le a
    rcases (hcount a).1 with heq | ⟨heq, hlt⟩ <;> omega
  · have hle : (session n.relay a).socket.length ≤ (session n'.relay a).socket.length := by
      rcases h.relay with heq | ⟨d, hd⟩
      · rw [heq]
      · exact (session_socket (CamRelay.step_cases hd) a).length_le
    have hdown := hi.down_le a
    rcases (hcount a).2 with heq | ⟨heq, hlt⟩ <;> omega
  · -- the session was there before, or it connects in this step
    have hkeep : (n.page a).mountVars.isSome = true → (n'.page a).mountVars.isSome = true := by
      intro hm
      rcases h.page a with heq | ⟨d, hd, -⟩
      · rw [heq]
        exact hm
      · exact mountVars_kept hm hd
    by_cases hbefore : n.relay.actor a = none
    · -- only a connection brings a new one
      have hnew : ∀ d r, CamRelay.step from_str n.relay d = some r → r.actor a ≠ none →
          ∃ id, d = .connect a id := by
        intro d r hst hr
        obtain ⟨y, hy⟩ := Option.ne_none_iff_exists'.mp hr
        rcases (CamRelay.step_cases hst).origin hy with ⟨hd, -, -⟩ | ⟨x, hx, -⟩
        · exact ⟨_, hd⟩
        · rw [hbefore] at hx
          cases hx
      cases h with
      | server hmay hst =>
          obtain ⟨id, rfl⟩ := hnew _ _ hst hsome
          rw [serverMay, hh] at hmay
          exact hmay
      | browser => exact absurd hbefore hsome
      | upload _ _ hst =>
          obtain ⟨id, hd⟩ := hnew _ _ hst hsome
          cases hd
      | download => exact absurd hbefore hsome
    · exact hkeep (hi.opened a hh hbefore)
  · have hbefore := unconnected_before h hnone
    rcases unconnected_page h hbefore with heq | ⟨d, hd, -, -⟩
    · rw [heq]
      exact hi.silent a hbefore
    · have hun := (unheard_unconnected hreach a hbefore).2
      rcases sent_step (step_negotiates (page_reachable a hreach) hd) with
        heq | ⟨op, call, rest, hchain, heq⟩
      · rw [heq]
        exact hi.silent a hbefore
      · -- a call that knows no client id sends nothing
        rw [heq, hi.silent a hbefore]
        refine List.eq_nil_iff_forall_not_mem.mpr (fun f hf => ?_)
        have hnull := hun (op, call) (by rw [hchain]; exact List.mem_cons_self ..)
        rcases isFrame_of_frames hf with ⟨env, _, rfl, hfr⟩ | ⟨env, _, _, rfl, hfr⟩
        · have hknown := hfr.known
          rw [hnull env rfl] at hknown
          cases hknown
        · have hknown := hfr.known
          rw [hnull env rfl] at hknown
          cases hknown

theorem orderly_reachVia (h : ReachVia (net honest from_str) C n) : Orderly honest n := by
  refine ReachVia.invariant (fun n h0 => ?_) (fun n e n' hr hi _ hst => ?_) h
  · subst h0
    exact ⟨fun _ => Nat.le_refl 0, fun _ => Nat.zero_le _, fun _ _ hs => absurd rfl hs,
      fun _ _ => rfl⟩
  · exact orderly_step hr hi (CamNet.step_cases hst)

/-! ### What is not possible there -/

section Stuck

variable (hstuck : Stuck (net honest from_str) (own S) n) {a : Addr}

include hstuck

theorem stuck_server {d : CamRelay.Event} (hown : own S n (.server d) = true)
    (hmay : serverMay honest n d = true) : CamRelay.step from_str n.relay d = none := by
  have hno : CamNet.step honest from_str n (.server d) = none := hstuck _ hown
  rw [CamNet.step, if_pos hmay, Option.map_eq_none_iff] at hno
  exact hno

theorem stuck_browser {d : CamPage.Event} (hh : honest a = true)
    (hown : own S n (.browser a d) = true) (hm : isMessage d = false) :
    CamPage.step (n.page a) d = none := by
  have hno : CamNet.step honest from_str n (.browser a d) = none := hstuck _ hown
  rw [CamNet.step, if_pos (by rw [hh, hm]; rfl), Option.map_eq_none_iff] at hno
  exact hno

/-- A page that is there has nothing queued, due or suspended. -/
theorem rest_page (ha : a ∈ S) (hh : honest a = true) (hm : (n.page a).mounted = true)
    (hpc : (n.page a).peerConnectionRef.isSome = true) :
    CamPage.Quiet (n.page a) ∧ (n.page a).chain = [] := by
  have hmem : decide (a ∈ S) = true := decide_eq_true ha
  have hnot : ¬ (!(n.page a).mounted) = true := by rw [hm]; exact Bool.false_ne_true
  have heff : (n.page a).effects = [] := by
    by_contra hne
    have hno := stuck_browser hstuck (d := .flushEffects) hh
      (Bool.and_eq_true_iff.mpr ⟨hmem, rfl⟩) rfl
    rw [CamPage.step, if_neg hnot] at hno
    simp only [if_neg hne] at hno
    cases hno
  refine ⟨⟨?_, heff⟩, ?_⟩
  · by_contra hne
    have hq : (!(n.page a).queue.isEmpty) = true := by
      rw [Bool.not_eq_true', List.isEmpty_eq_false_iff]
      exact hne
    have hno := stuck_browser hstuck (d := .render) hh (Bool.and_eq_true_iff.mpr ⟨hmem, hq⟩) rfl
    rw [CamPage.step, if_neg hnot] at hno
    simp only [if_pos heff] at hno
    cases hno
  · -- whatever is suspended could be rejected
    by_contra hne
    obtain ⟨⟨op, call⟩, rest, hchain⟩ := List.exists_cons_of_ne_nil hne
    obtain ⟨pc, hpc⟩ := Option.isSome_iff_exists.mp hpc
    have hno := stuck_browser hstuck (d := .settle .rejected) hh
      (Bool.and_eq_true_iff.mpr ⟨hmem, rfl⟩) rfl
    rw [CamPage.step, if_neg hnot] at hno
    simp only [CamPage.settle, hpc, hchain] at hno
    cases hno

/-- A session that is there has started, and nothing is queued by it or for it. -/
theorem rest_session (ha : a ∈ S) {x : WebSocketSession} (hx : n.relay.actor a = some x) :
    x.phase ≠ .created ∧ x.toServer = [] ∧ (x.phase = .running → x.mailbox = []) := by
  have hmem : decide (a ∈ S) = true := decide_eq_true ha
  refine ⟨fun hp => ?_, ?_, fun hp => ?_⟩
  · have hno := stuck_server hstuck (d := .start a) (Bool.and_eq_true_iff.mpr ⟨hmem, rfl⟩) rfl
    simp only [CamRelay.step, hx, if_pos hp] at hno
    cases hno
  · by_contra hne
    obtain ⟨m, rest, hq⟩ := List.exists_cons_of_ne_nil hne
    have hno := stuck_server hstuck (d := .serve a) (Bool.and_eq_true_iff.mpr ⟨hmem, rfl⟩) rfl
    simp only [CamRelay.step, hx, hq] at hno
    cases hno
  · by_contra hne
    obtain ⟨t, rest, hq⟩ := List.exists_cons_of_ne_nil hne
    have hno := stuck_server hstuck (d := .deliver a) (Bool.and_eq_true_iff.mpr ⟨hmem, rfl⟩) rfl
    simp only [CamRelay.step, hx, if_pos hp, hq] at hno
    cases hno

/-- No frame of a running session is left to go up. -/
theorem rest_up (ha : a ∈ S) (hh : honest a = true) {x : WebSocketSession}
    (hx : n.relay.actor a = some x) (hp : x.phase = .running) :
    (n.page a).sent.length ≤ n.up a := by
  by_contra hlt
  have hget := List.getElem?_eq_getElem (Nat.lt_of_not_le hlt)
  have hno : CamNet.step honest from_str n (.upload a) = none :=
    hstuck (.upload a) (Bool.and_eq_true_iff.mpr ⟨decide_eq_true ha, rfl⟩)
  rw [CamNet.step, if_pos hh, hget] at hno
  simp only [CamRelay.step, hx, if_pos hp] at hno
  cases hno

/-- No text is left to come down to a page with a socket. -/
theorem rest_down (ha : a ∈ S) (hh : honest a = true) {x : WebSocketSession}
    (hx : n.relay.actor a = some x) (hm : (n.page a).mounted = true)
    (hopen : (n.page a).mountVars.isSome = true) : x.socket.length ≤ n.down a := by
  by_contra hlt
  have hget := List.getElem?_eq_getElem (Nat.lt_of_not_le hlt)
  obtain ⟨env, henv⟩ := Option.isSome_iff_exists.mp hopen
  have hno : CamNet.step honest from_str n (.download a) = none :=
    hstuck (.download a) (Bool.and_eq_true_iff.mpr ⟨decide_eq_true ha, rfl⟩)
  rw [CamNet.step, if_pos hh, hx, Option.bind_some, hget] at hno
  simp only [Option.map_eq_none_iff, CamPage.step, hm, henv] at hno
  cases hno

/-- **AT REST**: where the system can take no step of its own, nothing is left to do for
    a page and its session. -/
theorem rests_when_stuck (h : ReachVia (net honest from_str) C n) (ha : a ∈ S)
    (hh : honest a = true) : atRest n a = true := by
  have hi := orderly_reachVia h
  have hr := relay_reachable h
  have hpage : (!(n.page a).mounted || !(n.page a).peerConnectionRef.isSome ||
      (decide (CamPage.Quiet (n.page a)) && (n.page a).chain.isEmpty)) = true := by
    cases hm : (n.page a).mounted with
    | false => rfl
    | true =>
        cases hpc : (n.page a).peerConnectionRef.isSome with
        | false => rfl
        | true =>
            obtain ⟨hq, hc⟩ := rest_page hstuck ha hh hm hpc
            rw [hc, decide_eq_true hq]
            rfl
  rw [atRest, hpage]
  cases hx : n.relay.actor a with
  | none =>
      -- nobody has connected from there
      have hup := hi.up_le a
      have hdown := hi.down_le a
      have hsession : session n.relay a = CamRelay.newSession "" := by
        rw [session, hx]
        rfl
      rw [hi.silent a hx] at hup ⊢
      rw [hsession] at hdown ⊢
      have hup0 : n.up a = 0 := Nat.le_zero.mp hup
      have hdown0 : n.down a = 0 := Nat.le_zero.mp hdown
      rw [hup0, hdown0]
      cases (n.page a).mounted <;> rfl
  | some x =>
      obtain ⟨hstarted, hto, hmail⟩ := rest_session hstuck ha hx
      have hup := hi.up_le a
      have hdown := hi.down_le a
      rw [session_some hx] at hdown ⊢
      have hempty : x.mailbox = [] := by
        cases hp : x.phase with
        | created => exact absurd hp hstarted
        | running => exact hmail hp
        | stopped => exact mailbox_stopped hr a x hx hp
      have hsent : x.phase = .stopped ∨ n.up a = (n.page a).sent.length := by
        cases hp : x.phase with
        | created => exact absurd hp hstarted
        | running => exact Or.inr (Nat.le_antisymm hup (rest_up hstuck ha hh hx hp))
        | stopped => exact Or.inl rfl
      have hread : (n.page a).mounted = true → n.down a = x.socket.length := fun hm =>
        Nat.le_antisymm hdown (rest_down hstuck ha hh hx hm
          (hi.opened a hh (by rw [hx]; exact Option.some_ne_none x)))
      rw [hto, hempty]
      simp only [List.isEmpty_nil, Bool.and_true, Bool.true_and, Bool.and_eq_true,
        Bool.or_eq_true, Bool.not_eq_true', decide_eq_true_eq]
      refine ⟨hsent, ?_⟩
      cases hm : (n.page a).mounted with
      | false => exact Or.inl rfl
      | true => exact Or.inr (hread hm)

end Stuck

end Step

/-! ## Runs -/

/-- **THE SYSTEM DRAINS.**  From any state that pages, relay and other clients can reach,
    and for any finite set of addresses: a run of the system's own steps there is no longer than
    the work that is left; there is one that ends where no such step is possible; and
    where one ends so, every page of the set and its session are at rest. -/
theorem drains {honest : Addr → Bool} {from_str : String → Option Message} {n : Net}
    (h : Reachable (net honest from_str) n) (S : Finset Addr) :
    (∀ es n', execVia (net honest from_str) (own S) n es = some n' →
      es.length + work S n' ≤ work S n) ∧
    (∃ es n', execVia (net honest from_str) (own S) n es = some n' ∧
      Stuck (net honest from_str) (own S) n') ∧
    (∀ es n', execVia (net honest from_str) (own S) n es = some n' →
      Stuck (net honest from_str) (own S) n' →
      ∀ a ∈ S, honest a = true → atRest n' a = true) := by
  have hkeep : Keeping (net honest from_str) (Reachable (net honest from_str)) (own S) :=
    fun _ _ _ hn _ hst => .step hn trivial hst
  have hlow : Lowers (net honest from_str) (Reachable (net honest from_str)) (own S) (work S) :=
    fun _ _ _ hn hc hst => work_lowers hn hc (CamNet.step_cases hst)
  refine ⟨fun es n' hrun => own_length hkeep hlow es h hrun,
    LtsRun.comes_to_rest hkeep hlow _ (Nat.le_refl _) h, fun es n' hrun hstuck a ha hh => ?_⟩
  exact rests_when_stuck hstuck (run_keeps hkeep es h hrun) ha hh

/-- A page has just offered; its offer and the answer take less than the work that is left
    at the two addresses. -/
theorem drains_sample :
    ∃ n : Net, Reachable (net everyone CamWire.from_str) n ∧
      (∃ n', execVia (net everyone CamWire.from_str) (own {0, 1}) n
        (answerRun ++ returnRun) = some n') ∧
      (answerRun ++ returnRun).length ≤ work {0, 1} n := by
  have hrun : (exec (net everyone CamWire.from_str) .initial
      (welcomeRun ++ joinRun ++ pressRun)).any (fun n =>
        (execVia (net everyone CamWire.from_str) (own {0, 1}) n
          (answerRun ++ returnRun)).isSome) = true := by
    decide +kernel
  obtain ⟨n, -, hreach, hsome⟩ := ReachVia.of_check (fun _ _ _ => trivial) rfl hrun
  obtain ⟨n', hn'⟩ := Option.isSome_iff_exists.mp hsome
  exact ⟨n, hreach, ⟨n', hn'⟩,
    Nat.le_trans (Nat.le_add_right _ _) ((drains hreach {0, 1}).1 _ n' hn')⟩

end CamDrain
