import WebRtcCam.CamNetProofs

/-! # Frames between honest pages

    The system when nobody but pages sends: every text the relay passes on is a
    `Frame`, and every page keeps honest company.  What is on its way between two
    pages is then a matter of two lists per page,

    * `outgoing` — what it has sent and the server has not handled yet;
    * `incoming` — what was relayed to it and its `handleSDPMessage` has not been
      passed yet,

    and `Moves` says once what a step of the whole system does to them. -/

namespace CamMail

open LtsRun JsonText CamWire CamNet CamHonest CamPending CamNegotiation
open CamRelay (Addr Relay WebSocketSession ServerMsg newSession)
open CamPage (Page Received)

/-! ## Only frames are received -/

/-- `serde_json` reads back what `JSON.stringify` made of a frame. -/
def DecodesFrames (from_str : String → Option Message) : Prop :=
  ∀ f : Frame, from_str (render f.json)
    = some ⟨f.sender, f.dest, some (CamPage.descJson f.desc), none⟩

theorem decodesFrames_from_str : DecodesFrames CamWire.from_str := by
  rintro ⟨sender, dest, ⟨ty, sdp⟩, kind, t, ht⟩
  cases ht
  rw [CamWire.from_str, parse_render]
  rfl

/-- No text frame comes from anywhere but a page. -/
def closed : Event → Bool
  | .server (.frame _ (some (.text _))) => false
  | _ => true

/-- The session at an address goes by this id. -/
def Named (ids : Addr → String) (n : Net) : Prop :=
  ∀ a x, n.relay.actor a = some x → x.id = ids a

/-- The first text on a socket is the session's welcome. -/
theorem socket_first {from_str : String → Option Message} {s : Relay}
    (h : Reachable (CamRelay.relay from_str) s) {b : Addr} {y : WebSocketSession}
    {t : String} (hy : s.actor b = some y) (ht : y.socket[0]? = some t) :
    t = welcomeText y.id := by
  obtain ⟨rest, heq⟩ := (CamRouting.delivery_reachable h).gone b y hy
  rw [CamRouting.expected] at heq
  by_cases hp : y.phase = .created
  · rw [if_pos hp, CamRouting.relayedTo_created (CamRelay.idsDistinct_reachable h)
      (CamRelay.pairFifo_reachable h) hy hp, List.append_nil] at heq
    rw [(List.append_eq_nil_iff.mp heq).1] at ht
    cases ht
  · rw [if_neg hp] at heq
    cases hs : y.socket with
    | nil =>
        rw [hs] at ht
        cases ht
    | cons u l =>
        rw [hs] at ht heq
        injection heq with hu _
        exact (Option.some.inj ht).symm.trans hu

/-- The session at an address; one that was never created is like a new one. -/
def session (s : Relay) (a : Addr) : WebSocketSession :=
  (s.actor a).getD (newSession "")

theorem session_some {s : Relay} {a : Addr} {x : WebSocketSession}
    (h : s.actor a = some x) : session s a = x := by
  rw [session, h]
  rfl

@[simp] theorem session_setActor (s : Relay) (a b : Addr) (z : WebSocketSession) :
    session (CamRelay.setActor s a z) b = if b = a then z else session s b := by
  simp only [session]
  split
  · next h => rw [h, CamRelay.setActor_self, Option.getD_some]
  · next h => rw [CamRelay.setActor_ne s z h]

theorem session_serve {s : Relay} {a : Addr} {x : WebSocketSession} {m : ServerMsg}
    {rest : List ServerMsg} (hx : s.actor a = some x) (b : Addr) :
    (session (CamRelay.serveMsg s a x m rest) b).socket = (session s b).socket ∧
    (session (CamRelay.serveMsg s a x m rest) b).toServer
      = (if b = a then rest else (session s b).toServer) ∧
    (session (CamRelay.serveMsg s a x m rest) b).mailbox = (session s b).mailbox
      ++ ((s.actor b).map (fun y => CamRelay.gift s b y m)).getD [] ∧
    (session (CamRelay.serveMsg s a x m rest) b).phase = (session s b).phase := by
  simp only [session]
  rw [CamRelay.serveMsg_actor hx]
  cases hb : s.actor b with
  | none =>
      have hne : b ≠ a := by
        rintro rfl
        rw [hx] at hb
        exact nomatch hb
      rw [if_neg hne]
      exact ⟨rfl, rfl, rfl, rfl⟩
  | some y => exact ⟨rfl, rfl, rfl, rfl⟩

/-- What is on a socket stays there. -/
theorem session_socket {from_str : String → Option Message} {s s' : Relay}
    {e : CamRelay.Event} (h : CamRelay.Step from_str s e s') (b : Addr) :
    (session s b).socket <+: (session s' b).socket := by
  have hlocal : ∀ (a : Addr) (x z : WebSocketSession), s.actor a = some x →
      x.socket <+: z.socket →
      (session s b).socket <+: (session (CamRelay.setActor s a z) b).socket := by
    intro a x z hx hsub
    rw [session_setActor]
    split
    · next h => rw [h, session_some hx]; exact hsub
    · exact List.prefix_rfl
  cases h with
  | @connect a id hn _ _ =>
      show _ <+: (session (CamRelay.setActor s a (newSession id)) b).socket
      rw [session_setActor]
      split
      · next h =>
          rw [h, session, hn]
          exact List.prefix_rfl
      · exact List.prefix_rfl
  | @start a x hx _ => exact hlocal a x _ hx (List.prefix_append _ _)
  | @frame a x f hx _ =>
      refine hlocal a x _ hx ?_
      cases f with
      | none => exact List.prefix_rfl
      | some w => cases w <;> exact List.prefix_rfl
  | serve hx _ =>
      rw [(session_serve hx b).1]
  | @deliver a x t rest hx _ _ => exact hlocal a x _ hx (List.prefix_append _ _)
  | @stop a x hx _ => exact hlocal a x _ hx List.prefix_rfl

/-- A session that does not stop is started, or keeps its phase and its id. -/
theorem session_step {from_str : String → Option Message} {s s' : Relay}
    {e : CamRelay.Event} (h : CamRelay.Step from_str s e s') {b : Addr} (hb : e ≠ .stop b) :
    ((session s b).phase = .created ∧ (session s' b).phase ≠ .stopped) ∨
    ((session s' b).phase = (session s b).phase ∧ (session s' b).id = (session s b).id) := by
  have hlocal : ∀ (a : Addr) (z : WebSocketSession),
      (b = a → ((session s b).phase = .created ∧ z.phase ≠ .stopped) ∨
        (z.phase = (session s b).phase ∧ z.id = (session s b).id)) →
      ((session s b).phase = .created ∧ (session (CamRelay.setActor s a z) b).phase ≠ .stopped) ∨
      ((session (CamRelay.setActor s a z) b).phase = (session s b).phase ∧
        (session (CamRelay.setActor s a z) b).id = (session s b).id) := by
    intro a z hz
    rw [session_setActor]
    split
    · next hba => exact hz hba
    · exact Or.inr ⟨rfl, rfl⟩
  cases h with
  | @connect a id hnone _ _ =>
      refine hlocal a _ (fun hba => Or.inl ⟨?_, fun hs => (by cases hs)⟩)
      rw [hba, session, hnone]
      rfl
  | @start a x hx hc =>
      refine hlocal a _ (fun hba => Or.inl ⟨?_, fun hs => (by cases hs)⟩)
      rw [hba, session_some hx]
      exact hc
  | @frame a x f hx hrun =>
      refine hlocal a _ (fun hba => Or.inr ?_)
      rw [hba, session_some hx]
      cases f with
      | none => exact ⟨rfl, rfl⟩
      | some w => cases w <;> exact ⟨rfl, rfl⟩
  | @serve a x m rest hx _ =>
      refine Or.inr ⟨(session_serve hx b).2.2.2, ?_⟩
      rw [session, CamRelay.serveMsg_actor hx, session]
      cases s.actor b <;> rfl
  | @deliver a x t rest hx _ _ =>
      refine hlocal a _ (fun hba => Or.inr ?_)
      rw [hba, session_some hx]
      exact ⟨rfl, rfl⟩
  | @stop a x _ _ =>
      refine hlocal a _ (fun hba => ?_)
      rw [hba] at hb
      exact absurd rfl hb

theorem named_session (n : Net) : Named (fun a => (session n.relay a).id) n := by
  intro a x hx
  show x.id = (session n.relay a).id
  rw [session_some hx]

section Company

variable {honest : Addr → Bool} {from_str : String → Option Message}
  {C : Net → Event → Prop} {ids : Addr → String} {n n' : Net} {e : Event}

theorem Named.before (h : Step honest from_str n e n') (hn : Named ids n') :
    Named ids n :=
  fun a => id_before h (hn a)

/-- Every page keeps honest company, every text received anywhere is a frame of the
    page behind it, and a page that has been sent anything has been welcomed. -/
structure Trusty (ids : Addr → String) (n : Net) : Prop where
  pages : ∀ a, Honest (ids a) (n.page a)
  received : ∀ a x t, n.relay.actor a = some x → t ∈ x.received →
    ∃ f : Frame, f.sender = ids a ∧ t = render f.json
  welcomed : ∀ a, 0 < n.down a → (n.page a).next.clientId = some (.str (ids a))
  up_le : ∀ a, n.up a ≤ (n.page a).sent.length
  down_le : ∀ a, n.down a ≤ (session n.relay a).socket.length

/-- What a page is sent next: the welcome first, and frames after it. -/
theorem next_text (hr : Reachable (CamRelay.relay from_str) n.relay)
    (hn : Named ids n) (hi : Trusty ids n) {a : Addr} {x : WebSocketSession}
    {t : String} (hx : n.relay.actor a = some x) (ht : x.socket[n.down a]? = some t) :
    (n.down a = 0 ∧ parse t = some (welcomeJson (ids a))) ∨
      (0 < n.down a ∧ (parse t = some (welcomeJson (ids a)) ∨
        ∃ f : Frame, t = render f.json)) := by
  have hwelcome : t = welcomeText x.id → parse t = some (welcomeJson (ids a)) := by
    rintro rfl
    rw [parse_welcome ((CamRelay.idsDistinct_reachable hr).uuid a x hx), hn a x hx]
  rcases Nat.eq_zero_or_pos (n.down a) with hz | hpos
  · rw [hz] at ht
    exact Or.inl ⟨hz, hwelcome (socket_first hr hx ht)⟩
  · refine Or.inr ⟨hpos, ?_⟩
    rcases CamRouting.socket_origin hr hx (List.mem_of_getElem? ht) with
      hw | ⟨b, y, hy, hrec, -⟩
    · exact Or.inl (hwelcome hw)
    · obtain ⟨f, -, hf⟩ := hi.received b y t hy hrec
      exact Or.inr ⟨f, hf⟩

/-- A page step within the system is one in honest company. -/
theorem civil_turn (hr : Reachable (CamRelay.relay from_str) n.relay)
    (hn : Named ids n) (hi : Trusty ids n) {a : Addr} {d : CamPage.Event}
    (hfrom : ∀ data, d = .message data → ∃ x t, n.relay.actor a = some x ∧
      x.socket[n.down a]? = some t ∧ data = parse t) :
    Civil (ids a) (n.page a) d := by
  intro data hd
  obtain ⟨x, t, hx, ht, rfl⟩ := hfrom data hd
  rcases next_text hr hn hi hx ht with ⟨-, hw⟩ | ⟨hpos, hw | ⟨f, rfl⟩⟩
  · exact Or.inl hw
  · exact Or.inl hw
  · exact Or.inr ⟨hi.welcomed a hpos, f, parse_render f.json⟩

/-- Frames a page sends are sent for good. -/
theorem sent_grows {s s' : Page} {d : CamPage.Event} (hr : Reachable CamPage.page s)
    (h : CamPage.step s d = some s') : s.sent <+: s'.sent := by
  rcases sent_step (step_negotiates hr h) with hs | ⟨_, _, _, -, hs⟩
  · rw [hs]
  · rw [hs]
    exact List.prefix_append _ _

/-- The welcome sets the client id. -/
theorem welcome_client (env : CamPage.Vars) (s : Page) (id : String) :
    (CamPage.onmessage env (some (welcomeJson id)) s).next.clientId = some (.str id) := by
  have ha := CamPage.onmessage_cases env (some (welcomeJson id)) s
  generalize CamPage.onmessage env (some (welcomeJson id)) s = t at ha
  cases ha with
  | welcome =>
      rw [CamPage.next_enqueue]
      rfl
  | unprintable _ hp => exact nomatch hp
  | uncaught h =>
      rcases h with h | h
      · exact nomatch h
      · exact nomatch (Option.some.inj h)
  | sdp hw => exact nomatch hw
  | candidate hw => exact nomatch hw
  | ignored hw => exact nomatch hw

theorem trusty_step (hreach : ReachVia (net honest from_str) C n) (hn : Named ids n)
    (hclosed : closed e = true) (hi : Trusty ids n) (h : Step honest from_str n e n') :
    Trusty ids n' := by
  have hr := relay_reachable hreach
  refine ⟨fun a => ?_, fun a x t hx ht => ?_, fun a hpos => ?_, fun a => ?_, fun a => ?_⟩
  · rcases h.page a with heq | ⟨d, hd, -, hfrom⟩
    · rw [heq]
      exact hi.pages a
    · exact honest_step (page_reachable a hreach) (civil_turn hr hn hi hfrom)
        (hi.pages a) hd
  · cases h with
    | server _ hst =>
        rcases received_step (CamRelay.step_cases hst) hx ht with ⟨y, hy, hold⟩ | rfl
        · exact hi.received a y t hy hold
        · exact nomatch hclosed
    | browser => exact hi.received a x t hx ht
    | @upload b j r _ hj hst =>
        rcases received_step (CamRelay.step_cases hst) hx ht with ⟨y, hy, hold⟩ | heq
        · exact hi.received a y t hy hold
        · injection heq with hab hframe
          injection hframe with htext
          injection htext with htext
          obtain ⟨f, hid, hf⟩ := (hi.pages b).sent j (List.mem_of_getElem? hj)
          exact ⟨f, by rw [hid, hab], by rw [hf, htext]⟩
    | download => exact hi.received a x t hx ht
  · -- the welcome sets the client id, and nothing unsets it
    have hkeep : 0 < n.down a → (n'.page a).next.clientId = some (.str (ids a)) := by
      intro hold
      rcases h.page a with heq | ⟨d, hd, -, hfrom⟩
      · rw [heq]
        exact hi.welcomed a hold
      · exact client_kept (hi.pages a) (civil_turn hr hn hi hfrom) (hi.welcomed a hold)
          (CamPage.step_cases hd)
    cases h with
    | server => exact hkeep hpos
    | browser => exact hkeep hpos
    | upload => exact hkeep hpos
    | @download b x t s _ hx ht hs =>
        by_cases hab : a = b
        · subst hab
          rcases next_text hr hn hi hx ht with ⟨-, hw⟩ | ⟨hold, -⟩
          · rw [hw] at hs
            cases CamPage.step_cases hs with
            | @message env _ _ _ =>
                show (Function.update n.page a _ a).next.clientId = _
                rw [Function.update_self]
                exact welcome_client env (n.page a) (ids a)
          · exact hkeep hold
        · refine hkeep ?_
          have hd : 0 < Function.update n.down b (n.down b + 1) a := hpos
          rw [Function.update_of_ne hab] at hd
          exact hd
  · have hle : (n.page a).sent.length ≤ (n'.page a).sent.length := by
      rcases h.page a with heq | ⟨d, hd, -⟩
      · rw [heq]
      · exact (sent_grows (page_reachable a hreach) hd).length_le
    refine le_trans ?_ hle
    cases h with
    | @upload b j r _ hj _ =>
        show Function.update n.up b (n.up b + 1) a ≤ _
        by_cases hab : a = b
        · subst hab
          rw [Function.update_self]
          exact (List.getElem?_eq_some_iff.mp hj).1
        · rw [Function.update_of_ne hab]
          exact hi.up_le a
    | _ => exact hi.up_le a
  · have hle : (session n.relay a).socket.length ≤ (session n'.relay a).socket.length := by
      rcases h.relay with heq | ⟨d, hd⟩
      · rw [heq]
      · exact (session_socket (CamRelay.step_cases hd) a).length_le
    refine le_trans ?_ hle
    cases h with
    | @download b x t s _ hx ht _ =>
        show Function.update n.down b (n.down b + 1) a ≤ _
        by_cases hab : a = b
        · subst hab
          rw [Function.update_self, session_some hx]
          exact (List.getElem?_eq_some_iff.mp ht).1
        · rw [Function.update_of_ne hab]
          exact hi.down_le a
    | _ => exact hi.down_le a

theorem trusty_reachVia
    (hclosed : ∀ n e n', C n e → CamNet.step honest from_str n e = some n' →
      closed e = true)
    (h : ReachVia (net honest from_str) C n) (hn : Named ids n) : Trusty ids n := by
  refine ReachVia.invariant (I := fun n => Named ids n → Trusty ids n)
    (fun n h0 _ => ?_) (fun n e n' hr hi hc hst hn' => ?_) h hn
  · subst h0
    exact ⟨fun a => honest_initial (ids a), fun a x t hx => (nomatch hx),
      fun a hpos => absurd hpos (Nat.lt_irrefl 0), fun a => Nat.le_refl 0,
      fun a => Nat.le_refl 0⟩
  · have hstep := CamNet.step_cases hst
    have hbefore := hn'.before hstep
    exact trusty_step hr hbefore (hclosed n e n' hc hst) (hi hbefore) hstep

/-! ## What is on its way -/

/-- The message a session has asked the server to pass on. -/
def payload : ServerMsg → Option Json
  | .sendMessage _ t => parse t
  | _ => none

/-- What page `a` has sent and its session has not received; a stopped session
    receives nothing more. -/
def unsent (n : Net) (a : Addr) : List Json :=
  if (session n.relay a).phase = .stopped then [] else (n.page a).sent.drop (n.up a)

/-- What page `a` has sent and the server has still to handle. -/
def outgoing (n : Net) (a : Addr) : List Json :=
  (session n.relay a).toServer.filterMap payload ++ unsent n a

/-- An offer or answer the text is. -/
def arriving (t : String) : Option Json := (parse t).filter isSDPMessage

/-- What was relayed to page `a` and has not reached it. -/
def line (n : Net) (a : Addr) : List Json :=
  ((session n.relay a).socket.drop (n.down a) ++ (session n.relay a).mailbox).filterMap
    arriving

/-- What was relayed to page `a` and has not been handed over there. -/
def incoming (n : Net) (a : Addr) : List Json :=
  (inbox (n.page a)).map (·.data) ++ line n a

/-- The offer or answer a page is passed by an event. -/
def delivered : CamPage.Event → Option Json
  | .message data => data.filter isSDPMessage
  | _ => none

/-- The page at `a` takes the step `d` and sends the frames `l`. -/
structure Turn (ids : Addr → String) (n : Net) (e : Event) (a : Addr)
    (d : CamPage.Event) (l : List Json) (n' : Net) : Prop where
  event : e = .browser a d ∧ isMessage d = false ∨ e = .download a ∧ isMessage d = true
  step : CamPage.step (n.page a) d = some (n'.page a)
  pages : ∀ c, c ≠ a → n'.page c = n.page c
  civil : Civil (ids a) (n.page a) d
  sent : (n'.page a).sent = (n.page a).sent ++ l
  out : outgoing n' a
    = outgoing n a ++ (if (session n.relay a).phase = .stopped then [] else l)
  outs : ∀ c, c ≠ a → outgoing n' c = outgoing n c
  line : line n a = (delivered d).toList ++ line n' a
  lines : ∀ c, c ≠ a → CamMail.line n' c = CamMail.line n c

/-- Everything a step can do to what is on its way. -/
inductive Moves (ids : Addr → String) (n : Net) : Event → Net → Prop where
  | still {e : Event} {n' : Net} : n'.page = n.page →
      (∀ a, outgoing n' a = outgoing n a) → (∀ a, line n' a = line n a) →
      Moves ids n e n'
  | relayed {a b : Addr} {f : Frame} {rest : List ServerMsg} {n' : Net} :
      n'.page = n.page →
      (session n.relay a).toServer = .sendMessage f.dest (render f.json) :: rest →
      n.relay.sessions f.dest = some b → f.sender = ids a → f.dest = ids b →
      outgoing n a = f.json :: outgoing n' a →
      (∀ c, c ≠ a → outgoing n' c = outgoing n c) →
      line n' b = line n b ++ [f.json] → (∀ c, c ≠ b → line n' c = line n c) →
      Moves ids n (.server (.serve a)) n'
  | dropped {a : Addr} {f : Frame} {rest : List ServerMsg} {n' : Net} :
      n'.page = n.page →
      (session n.relay a).toServer = .sendMessage f.dest (render f.json) :: rest →
      (∀ b, n.relay.sessions f.dest = some b →
        (session n.relay b).phase = .stopped) → f.sender = ids a →
      outgoing n a = f.json :: outgoing n' a →
      (∀ c, c ≠ a → outgoing n' c = outgoing n c) → (∀ c, line n' c = line n c) →
      Moves ids n (.server (.serve a)) n'
  | stopped {a : Addr} {n' : Net} : n'.page = n.page →
      outgoing n a = outgoing n' a ++ unsent n a →
      (∀ c, c ≠ a → outgoing n' c = outgoing n c) →
      line n a = line n' a ++ (session n.relay a).mailbox.filterMap arriving →
      (∀ c, c ≠ a → line n' c = line n c) → Moves ids n (.server (.stop a)) n'
  | turn {e : Event} {a : Addr} {d : CamPage.Event} {l : List Json} {n' : Net} :
      Turn ids n e a d l n' → Moves ids n e n'

/-- Whatever a session has asked the server to pass on is a frame of its page. -/
theorem queued_frame (hr : Reachable (CamRelay.relay from_str) n.relay)
    (hdec : DecodesFrames from_str) (hi : Trusty ids n) {a : Addr}
    {x : WebSocketSession} {dest t : String} (hx : n.relay.actor a = some x)
    (hm : .sendMessage dest t ∈ x.toServer) :
    ∃ f : Frame, f.sender = ids a ∧ t = render f.json ∧ dest = f.dest := by
  have hmem : ServerMsg.sendMessage dest t ∈ CamRelay.emitted from_str a x := by
    rw [← (CamRelay.pairFifo_reachable hr).fifo a x hx]
    exact List.mem_append_right _ hm
  obtain ⟨hrec, m, hm', rfl⟩ := CamRouting.emitted_send hmem
  obtain ⟨f, hid, rfl⟩ := hi.received a x t hx hrec
  rw [hdec f] at hm'
  cases hm'
  exact ⟨f, hid, rfl, rfl⟩

/-- A step of one session that changes neither what it has in its queue for the
    server nor what it has for its page. -/
theorem moves_local {e : Event} {r : Relay} {a : Addr} {z : WebSocketSession}
    (hr : r.actor = (CamRelay.setActor n.relay a z).actor)
    (hphase : z.phase = .stopped ↔ (session n.relay a).phase = .stopped)
    (hout : z.toServer.filterMap payload
      = (session n.relay a).toServer.filterMap payload)
    (hline : (z.socket.drop (n.down a) ++ z.mailbox).filterMap arriving = line n a) :
    Moves ids n e { n with relay := r } := by
  have hsession : ∀ c, session r c = if c = a then z else session n.relay c := by
    intro c
    rw [← session_setActor, session, hr, session]
  refine .still rfl (fun c => ?_) (fun c => ?_)
  · rw [outgoing, outgoing, unsent, unsent]
    show (session r c).toServer.filterMap payload
      ++ (if (session r c).phase = .stopped then [] else _) = _
    rw [hsession]
    split
    · next h =>
        rw [h, hout]
        simp only [hphase]
    · rfl
  · show ((session r c).socket.drop (n.down c) ++ (session r c).mailbox).filterMap _ = _
    rw [hsession]
    split
    · next h => rw [h, hline]
    · rfl

/-- The welcome is no offer or answer. -/
theorem arriving_welcome {id : String} (h : isUuid id = true) :
    arriving (welcomeText id) = none := by
  rw [arriving, parse_welcome h]
  rfl

@[simp] theorem arriving_frame (f : Frame) : arriving (render f.json) = some f.json := by
  rw [arriving, parse_render, Option.filter_some, f.json_isSDP]
  rfl

/-- The server handles the oldest message of a session. -/
theorem moves_serve (hr : Reachable (CamRelay.relay from_str) n.relay)
    (hdec : DecodesFrames from_str) (hn : Named ids n) (hi : Trusty ids n) {a : Addr}
    {x : WebSocketSession} {m : ServerMsg} {rest : List ServerMsg}
    (hx : n.relay.actor a = some x) (hq : x.toServer = m :: rest) :
    Moves ids n (.server (.serve a))
      { n with relay := CamRelay.serveMsg n.relay a x m rest } := by
  have hqueue : (session n.relay a).toServer = m :: rest := by rw [session_some hx, hq]
  have hothers : ∀ c, c ≠ a →
      outgoing { n with relay := CamRelay.serveMsg n.relay a x m rest } c
        = outgoing n c := by
    intro c hc
    obtain ⟨-, hq', -, hp⟩ := @session_serve n.relay a x m rest hx c
    rw [outgoing, outgoing, unsent, unsent, hq', hp, if_neg hc]
  have hline : ∀ c, line { n with relay := CamRelay.serveMsg n.relay a x m rest } c
      = line n c ++ (((n.relay.actor c).map
        (fun y => CamRelay.gift n.relay c y m)).getD []).filterMap arriving := by
    intro c
    obtain ⟨hs, -, hm, -⟩ := @session_serve n.relay a x m rest hx c
    show ((session (CamRelay.serveMsg n.relay a x m rest) c).socket.drop (n.down c)
      ++ (session (CamRelay.serveMsg n.relay a x m rest) c).mailbox).filterMap _ = _
    rw [hs, hm, ← List.append_assoc, List.filterMap_append]
    rfl
  have hnew : outgoing n a = (payload m).toList
      ++ outgoing { n with relay := CamRelay.serveMsg n.relay a x m rest } a := by
    obtain ⟨-, hq', -, hp⟩ := @session_serve n.relay a x m rest hx a
    rw [outgoing, outgoing, unsent, unsent, hq', hp, if_pos rfl, hqueue,
      ← List.append_assoc]
    congr 1
    cases hp : payload m <;> simp [hp]
  -- a message that is no `SendMessage` goes to nobody
  have hnone : payload m = none → (∀ c y, CamRelay.gift n.relay c y m = []) →
      Moves ids n (.server (.serve a))
        { n with relay := CamRelay.serveMsg n.relay a x m rest } := by
    intro hp hgift
    refine .still rfl (fun c => ?_) (fun c => ?_)
    · by_cases hc : c = a
      · rw [hc, hnew, hp]
        rfl
      · exact hothers c hc
    · rw [hline c]
      cases n.relay.actor c with
      | none => exact List.append_nil _
      | some y =>
          rw [Option.map_some, hgift c y]
          exact List.append_nil _
  cases m with
  | registerSession id addr => exact hnone rfl (fun _ _ => rfl)
  | unregisterSession id => exact hnone rfl (fun _ _ => rfl)
  | sendMessage dest u =>
      obtain ⟨f, hid, rfl, rfl⟩ := queued_frame hr hdec hi hx
        (by rw [hq]; exact List.mem_cons_self ..)
      have hp : payload (.sendMessage f.dest (render f.json)) = some f.json :=
        parse_render f.json
      rw [hp] at hnew
      -- the text goes to `c` exactly if `c` is registered under it and has not stopped
      have hgift : ∀ c, ¬ (n.relay.sessions f.dest = some c ∧
          (session n.relay c).phase ≠ .stopped) →
          line { n with
            relay := CamRelay.serveMsg n.relay a x
              (.sendMessage f.dest (render f.json)) rest } c = line n c := by
        intro c hc
        rw [hline c]
        cases hy : n.relay.actor c with
        | none => exact List.append_nil _
        | some y =>
            rw [session_some hy] at hc
            rw [Option.map_some, CamRelay.gift, if_neg hc]
            exact List.append_nil _
      by_cases hto : ∃ b, n.relay.sessions f.dest = some b ∧
          (session n.relay b).phase ≠ .stopped
      · obtain ⟨b, hb, hlive⟩ := hto
        obtain ⟨y, hy, hyid, -⟩ := CamRouting.Registry.owner
          (CamRelay.pairFifo_reachable hr) (CamRouting.registry_reachable hr) hb
        refine .relayed rfl hqueue hb hid (by rw [← hyid, hn b y hy]) hnew hothers ?_
          (fun c hc => ?_)
        · rw [hline b, hy]
          rw [session_some hy] at hlive
          rw [Option.map_some, CamRelay.gift, if_pos ⟨hb, hlive⟩]
          simp
        · refine hgift c (fun hc' => hc ?_)
          exact Option.some.inj (hc'.1.symm.trans hb)
      · refine .dropped rfl hqueue (fun b hb => ?_) hid hnew hothers (fun c => ?_)
        · by_contra hlive
          exact hto ⟨b, hb, hlive⟩
        · exact hgift c (fun hc => hto ⟨c, hc⟩)

/-- A step of the relay that is not a frame of a client. -/
theorem moves_relay (hr : Reachable (CamRelay.relay from_str) n.relay)
    (hdec : DecodesFrames from_str) (hn : Named ids n) (hi : Trusty ids n)
    {d : CamRelay.Event} {r : Relay} (hclosed : closed (.server d) = true)
    (h : CamRelay.Step from_str n.relay d r) :
    Moves ids n (.server d) { n with relay := r } := by
  cases h with
  | @connect a id hnone _ _ =>
      have hs : session n.relay a = newSession "" := by rw [session, hnone]; rfl
      refine moves_local (z := newSession id) rfl ?_ ?_ ?_
      · rw [hs]
        exact Iff.rfl
      · rw [hs]
        rfl
      · rw [line, hs]
        simp [newSession]
  | @start a x hx hp =>
      refine moves_local (z := CamRelay.started a x) rfl ?_ ?_ ?_
      · rw [session_some hx, hp]
        exact ⟨fun h => (by cases h), fun h => (by cases h)⟩
      · rw [session_some hx, CamRelay.started, List.filterMap_append]
        exact List.append_nil _
      · have hle := hi.down_le a
        rw [session_some hx] at hle
        have hw := arriving_welcome ((CamRelay.idsDistinct_reachable hr).uuid a x hx)
        rw [line, session_some hx, CamRelay.started,
          List.drop_append_of_le_length hle]
        simp [hw]
  | @frame a x f hx _ =>
      have hsame : CamRelay.handleFrame from_str x f = x := by
        cases f with
        | none => rfl
        | some w =>
            cases w with
            | text t => cases hclosed
            | _ => rfl
      rw [hsame]
      refine moves_local (z := x) rfl ?_ ?_ ?_
      · rw [session_some hx]
      · rw [session_some hx]
      · rw [line, session_some hx]
  | serve hx hq => exact moves_serve hr hdec hn hi hx hq
  | @deliver a x t rest hx _ hm =>
      refine moves_local (z := CamRelay.handleWsMessage x t rest) rfl ?_ ?_ ?_
      · rw [session_some hx]
        rfl
      · rw [session_some hx]
        rfl
      · have hle := hi.down_le a
        rw [session_some hx] at hle
        rw [line, session_some hx, CamRelay.handleWsMessage,
          List.drop_append_of_le_length hle, hm, List.append_assoc]
        rfl
  | @stop a x hx _ =>
      have hsession : ∀ c, session (CamRelay.setActor n.relay a (CamRelay.stopping x)) c
          = if c = a then CamRelay.stopping x else session n.relay c :=
        fun c => session_setActor _ _ _ _
      have hline : line n a = (x.socket.drop (n.down a)).filterMap arriving
          ++ x.mailbox.filterMap arriving := by
        rw [line, session_some hx, List.filterMap_append]
      have hline' : line { n with
          relay := CamRelay.setActor n.relay a (CamRelay.stopping x) } a
          = (x.socket.drop (n.down a)).filterMap arriving := by
        rw [line, hsession, if_pos rfl]
        show (x.socket.drop (n.down a) ++ []).filterMap arriving = _
        rw [List.append_nil]
      refine .stopped rfl ?_ (fun c hc => ?_) ?_ (fun c hc => ?_)
      · have hnone : unsent { n with
            relay := CamRelay.setActor n.relay a (CamRelay.stopping x) } a = [] := by
          rw [unsent, hsession, if_pos rfl]
          exact if_pos rfl
        rw [outgoing, outgoing, hnone, hsession, if_pos rfl, session_some hx,
          CamRelay.stopping, List.filterMap_append]
        show _ = _ ++ [] ++ [] ++ _
        rw [List.append_nil, List.append_nil]
      · rw [outgoing, outgoing, unsent, unsent, hsession, if_neg hc]
      · rw [hline', hline, session_some hx]
      · rw [line, line, hsession, if_neg hc]

theorem delivered_other {d : CamPage.Event} (h : isMessage d = false) :
    delivered d = none := by
  cases d with
  | message => exact nomatch h
  | _ => rfl

/-- The next frame of a page reaches its session, which passes it on. -/
theorem moves_upload (hdec : DecodesFrames from_str) {a : Addr} {f : Frame}
    {x : WebSocketSession} (hx : n.relay.actor a = some x) (hp : x.phase = .running)
    (hj : (n.page a).sent[n.up a]? = some f.json) :
    Moves ids n (.upload a) { n with
      relay := CamRelay.setActor n.relay a
        (CamRelay.handleFrame from_str x (some (.text (render f.json))))
      up := Function.update n.up a (n.up a + 1) } := by
  have hqueue : (CamRelay.handleFrame from_str x (some (.text (render f.json)))).toServer
      = x.toServer ++ [.sendMessage f.dest (render f.json)] := by
    rw [CamRelay.handleFrame, CamRelay.relayOf, hdec f]
    rfl
  have hrest : (CamRelay.handleFrame from_str x (some (.text (render f.json)))).socket
      = x.socket ∧
      (CamRelay.handleFrame from_str x (some (.text (render f.json)))).mailbox
        = x.mailbox ∧
      (CamRelay.handleFrame from_str x (some (.text (render f.json)))).phase
        = x.phase := by
    rw [CamRelay.handleFrame]
    exact ⟨rfl, rfl, rfl⟩
  generalize CamRelay.handleFrame from_str x (some (.text (render f.json))) = z at *
  refine .still rfl (fun c => ?_) (fun c => ?_)
  · rw [outgoing, outgoing, unsent, unsent]
    simp only [session_setActor]
    split
    · next h =>
        obtain ⟨hlt, hget⟩ := List.getElem?_eq_some_iff.mp hj
        have hlive : x.phase ≠ .stopped := by rw [hp]; exact fun h => (by cases h)
        rw [h, Function.update_self, session_some hx, hrest.2.2, if_neg hlive,
          if_neg hlive, hqueue, List.drop_eq_getElem_cons hlt, hget,
          List.filterMap_append, List.append_assoc, List.filterMap_cons, payload,
          parse_render]
        rfl
    · next h => rw [Function.update_of_ne h]
  · rw [line, line]
    simp only [session_setActor]
    split
    · next h => rw [h, session_some hx, hrest.1, hrest.2.1]
    · rfl

/-- Frames appended to what is unsent, unless the session has stopped. -/
theorem append_unsent {stopped : Prop} [Decidable stopped] {q u u' l : List Json}
    (h : u' = u ++ l) :
    q ++ (if stopped then [] else u')
      = q ++ (if stopped then [] else u) ++ (if stopped then [] else l) := by
  subst h
  split <;> simp

/-- **WHAT MOVES IN A STEP** of the system. -/
theorem step_moves (hreach : ReachVia (net honest from_str) C n)
    (hdec : DecodesFrames from_str) (hn : Named ids n) (hclosed : closed e = true)
    (hi : Trusty ids n) (h : Step honest from_str n e n') : Moves ids n e n' := by
  have hr := relay_reachable hreach
  -- a page that takes a step sends what it appends to `sent`
  have hsent : ∀ a d s, CamPage.step (n.page a) d = some s →
      ∃ l, s.sent = (n.page a).sent ++ l ∧
        s.sent.drop (n.up a) = (n.page a).sent.drop (n.up a) ++ l := by
    intro a d s hs
    obtain ⟨l, hl⟩ := sent_grows (page_reachable a hreach) hs
    refine ⟨l, hl.symm, ?_⟩
    rw [← hl, List.drop_append_of_le_length (hi.up_le a)]
  cases h with
  | server _ hst => exact moves_relay hr hdec hn hi hclosed (CamRelay.step_cases hst)
  | @browser a d s _ hm hs =>
      obtain ⟨l, hl, hdrop⟩ := hsent a d s hs
      have hself : (setPage n a s).page a = s := Function.update_self ..
      have hne : ∀ c, c ≠ a → (setPage n a s).page c = n.page c :=
        fun c hc => Function.update_of_ne hc ..
      refine .turn (l := l) ⟨Or.inl ⟨rfl, hm⟩, by rw [hself]; exact hs, hne, ?_,
        by rw [hself]; exact hl, ?_, fun c hc => ?_, ?_, fun _ _ => rfl⟩
      · intro data hd
        rw [hd] at hm
        exact nomatch hm
      · rw [outgoing, outgoing, unsent, unsent, hself]
        exact append_unsent hdrop
      · rw [outgoing, outgoing, unsent, unsent, hne c hc]
        rfl
      · rw [delivered_other hm]
        rfl
  | @upload a j r _ hj hst =>
      obtain ⟨f, -, rfl⟩ := (hi.pages a).sent j (List.mem_of_getElem? hj)
      cases CamRelay.step_cases hst with
      | frame hx hp => exact moves_upload hdec hx hp hj
  | @download a x t s _ hx ht hs =>
      obtain ⟨l, hl, hdrop⟩ := hsent a (.message (parse t)) s hs
      have hself : Function.update n.page a s a = s := Function.update_self ..
      have hne : ∀ c, c ≠ a → Function.update n.page a s c = n.page c :=
        fun c hc => Function.update_of_ne hc ..
      have hcivil := civil_turn hr hn hi (a := a) (d := .message (parse t))
        (fun data hd => ⟨x, t, hx, ht, by injection hd with h; exact h.symm⟩)
      refine .turn (d := .message (parse t)) (l := l) ⟨Or.inr ⟨rfl, rfl⟩, ?_, hne, hcivil,
        ?_, ?_, fun c hc => ?_, ?_, fun c hc => ?_⟩
      · show _ = some (Function.update n.page a s a)
        rw [hself]
        exact hs
      · show (Function.update n.page a s a).sent = _
        rw [hself]
        exact hl
      · rw [outgoing, outgoing, unsent, unsent]
        show _ ++ (if _ then [] else (Function.update n.page a s a).sent.drop _) = _
        rw [hself]
        exact append_unsent hdrop
      · rw [outgoing, outgoing, unsent, unsent]
        show _ ++ (if _ then [] else (Function.update n.page a s c).sent.drop _) = _
        rw [hne c hc]
        rfl
      · obtain ⟨hlt, hget⟩ := List.getElem?_eq_some_iff.mp ht
        show line n a = (arriving t).toList ++ ((session n.relay a).socket.drop
          (Function.update n.down a (n.down a + 1) a)
            ++ (session n.relay a).mailbox).filterMap arriving
        rw [Function.update_self, line, session_some hx, List.drop_eq_getElem_cons hlt,
          hget]
        cases ha : arriving t <;> simp [ha]
      · show ((session n.relay c).socket.drop (Function.update n.down a _ c) ++ _).filterMap
          _ = _
        rw [Function.update_of_ne hc]
        rfl

/-- What a step of a page does to what is incoming: nothing, a message comes from the
    line into the slot, or the oldest one is handed over.  A second message in the
    slot is lost either way. -/
inductive Turned (n n' : Net) (a : Addr) : CamPage.Event → Prop where
  | same {d : CamPage.Event} : incoming n' a = incoming n a →
      (d = .flushEffects → handed (n.page a) = none) → Turned n n' a d
  | arrived {j : Json} : isSDPMessage j = true →
      incoming n a = (inbox (n.page a)).map (·.data) ++ j :: line n' a →
      incoming n' a = (handed (n.page a)).toList.map (·.data) ++ j :: line n' a →
      Turned n n' a (.message (some j))
  | handed {m : Received} {l : List Received} : handed (n.page a) = some m →
      inbox (n.page a) = m :: l →
      incoming n a = m.data :: (l.map (·.data) ++ line n' a) →
      incoming n' a = line n' a → Turned n n' a .flushEffects

theorem turned {a : Addr} {d : CamPage.Event}
    (hr : Reachable CamPage.page (n.page a))
    (hs : CamPage.step (n.page a) d = some (n'.page a))
    (hline : line n a = (delivered d).toList ++ line n' a) : Turned n n' a d := by
  cases boxes_step hr hs with
  | same hbox hflush hmsg =>
      refine .same ?_ hflush
      have hnone : delivered d = none := by
        cases d with
        | message data =>
            cases data with
            | none => rfl
            | some j =>
                rcases hmsg j rfl with hj | rfl
                · rw [delivered, Option.filter_some, hj]
                  rfl
                · rfl
        | _ => rfl
      rw [incoming, incoming, hbox, hline, hnone]
      rfl
  | @arrives j _ hj hbox =>
      have hd : delivered (.message (some j)) = some j := by
        rw [delivered, Option.filter_some, hj]
        rfl
      refine .arrived hj ?_ ?_
      · rw [incoming, hline, hd]
        rfl
      · rw [incoming, hbox, List.map_append, List.append_assoc]
        rfl
  | hands hh hbox hempty =>
      refine .handed hh hbox ?_ ?_
      · rw [incoming, hline, hbox]
        rfl
      · rw [incoming, hempty]
        rfl

/-- Whatever a page has coming was coming before. -/
theorem Turned.sublist {a : Addr} {d : CamPage.Event} (h : Turned n n' a d) :
    (incoming n' a).Sublist (incoming n a) := by
  cases h with
  | same heq _ => rw [heq]
  | arrived _ hn hn' =>
      rw [hn, hn']
      refine List.Sublist.append_right (List.Sublist.map _ ?_) _
      cases hh : CamPending.handed (n.page a) with
      | none => exact List.nil_sublist _
      | some m =>
          obtain ⟨l, hl⟩ := inbox_handed hh
          rw [hl]
          exact List.Sublist.cons_cons _ (List.nil_sublist _)
  | handed _ _ hn hn' =>
      rw [hn, hn']
      exact (List.sublist_append_right _ _).cons _

end Company

end CamMail
