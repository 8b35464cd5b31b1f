import WebRtcCam.CamStuckProofs

/-! # Who said what

    Nothing but pages on the relay, any number of them.  A page signs what it sends
    with the id its session was welcomed under, the server passes texts on unread but
    for their `to`, and an answer goes to whoever signed the offer.  So signatures can
    be trusted, all along the way.

    The invariant is on the history of the pages: every message received so far is a
    welcome of the page's own session or was SENT, for it, by the session whose id it
    bears.  Messages in the slot and in suspended calls are among those received
    (`held_reachable`). -/

namespace CamReply

open LtsRun JsonText CamWire CamNet CamHonest CamPending CamNegotiation CamMail CamStuck
open CamRelay (Addr Relay WebSocketSession ServerMsg)
open CamPage (Page Received Call Vars Obs sdpOf isOfferSdp)

/-- The page at `b` has sent `j`, its session has received the text of it, and it is
    signed with the id of that session and addressed to session `id`. -/
structure SentBy (n : Net) (b : Addr) (id : String) (j : Json) : Prop where
  sent : j ∈ (n.page b).sent
  session : ∃ y, n.relay.actor b = some y ∧ render j ∈ y.received ∧
    j.get "from" = some (.str y.id)
  dest : j.get "to" = some (.str id)

/-- `handleSDPMessage` takes the message for an offer. -/
def isOffer (m : Received) : Prop := ∃ sdp, sdpOf m = some sdp ∧ isOfferSdp sdp = true

/-- What a suspended call is answering is an offer. -/
def AnswersOffers (s : Page) : Prop :=
  ∀ x ∈ s.chain, ∀ m, answers x.2 = some m → isOffer m

theorem answers_followUp {sdp : String} {call : Call} {x : RtcSignaling.PcOp Json × Call}
    (h : x ∈ followUp sdp call) : answers x.2 = answers call := by
  cases call with
  | offerCreated env =>
      cases List.mem_singleton.mp h
      rfl
  | remoteApplied env m b =>
      cases b with
      | true =>
          cases List.mem_singleton.mp h
          rfl
      | false => exact nomatch h
  | answerCreated env m =>
      cases List.mem_singleton.mp h
      rfl
  | _ => exact nomatch h

theorem answersOffers_reachable {s : Page} (h : Reachable CamPage.page s) :
    AnswersOffers s := by
  refine ReachVia.invariant (fun s hs => ?_) (fun s e s' hr hi _ hst => ?_) h
  · subst hs
    exact fun x hx => (nomatch hx)
  · refine step_calls (P := fun c => ∀ m, answers c = some m → isOffer m)
      (fun _ _ m hm => (nomatch hm)) (fun _ m sdp _ hsdp m' hm' => ?_)
      (fun m hm => (nomatch hm)) (fun sdp c x hx hmem m hm => ?_) hi
      (step_negotiates hr hst)
    · cases hoff : isOfferSdp sdp with
      | true =>
          rw [hoff] at hm'
          cases hm'
          exact ⟨sdp, hsdp, hoff⟩
      | false =>
          rw [hoff] at hm'
          exact nomatch hm'
    · exact hx m ((answers_followUp hmem).symm.trans hm)

section Run

variable {from_str : String → Option Message} {C : Net → Event → Prop}
  {ids : Addr → String} {n n' : Net} {e : Event}

/-- What was sent stays sent. -/
theorem SentBy.later (hreach : ReachVia (net everyone from_str) C n)
    (h : Step everyone from_str n e n') {b : Addr} {id : String} {j : Json}
    (hs : SentBy n b id j) : SentBy n' b id j := by
  refine ⟨?_, ?_, hs.dest⟩
  · rcases h.page b with heq | ⟨d, hd, -⟩
    · rw [heq]
      exact hs.sent
    · exact (sent_grows (page_reachable b hreach) hd).subset hs.sent
  · obtain ⟨y, hy, hrec, hfrom⟩ := hs.session
    rcases h.relay with heq | ⟨d, hd⟩
    · exact ⟨y, by rw [heq]; exact hy, hrec, hfrom⟩
    · obtain ⟨z, hz, hid, hmono⟩ := (CamRelay.step_cases hd).persists hy
      exact ⟨z, hz, hmono.subset hrec, by rw [hid]; exact hfrom⟩

/-- **THE INVARIANT**: a session has received what its page has sent, and a page has
    received welcomes of its own session and what others have sent to it. -/
structure Attributed (ids : Addr → String) (n : Net) : Prop where
  uploaded : ∀ a x t, n.relay.actor a = some x → t ∈ x.received →
    ∃ j ∈ (n.page a).sent, t = render j
  heard : ∀ p m, .received m ∈ (n.page p).trace →
    m.data = welcomeJson (ids p) ∨ ∃ b, SentBy n b (ids p) m.data

theorem uploaded_step (hreach : ReachVia (net everyone from_str) C n)
    (hi : Attributed ids n) (h : Step everyone from_str n e n') (hclosed : closed e = true)
    {a : Addr} {x : WebSocketSession} {t : String} (hx : n'.relay.actor a = some x)
    (ht : t ∈ x.received) : ∃ j ∈ (n'.page a).sent, t = render j := by
  have hmono : (n.page a).sent <+: (n'.page a).sent := by
    rcases h.page a with heq | ⟨d, hd, -⟩
    · rw [heq]
    · exact sent_grows (page_reachable a hreach) hd
  have hold : (∃ y, n.relay.actor a = some y ∧ t ∈ y.received) →
      ∃ j ∈ (n'.page a).sent, t = render j := by
    rintro ⟨y, hy, hty⟩
    obtain ⟨j, hj, htj⟩ := hi.uploaded a y t hy hty
    exact ⟨j, hmono.subset hj, htj⟩
  cases h with
  | server _ hst =>
      rcases received_step (CamRelay.step_cases hst) hx ht with hy | rfl
      · exact hold hy
      · exact nomatch hclosed
  | browser => exact hold ⟨x, hx, ht⟩
  | @upload b j r _ hj hst =>
      rcases received_step (CamRelay.step_cases hst) hx ht with hy | heq
      · exact hold hy
      · injection heq with hab hframe
        injection hframe with htext
        injection htext with htext
        subst hab
        exact ⟨j, List.mem_of_getElem? hj, htext.symm⟩
  | download => exact hold ⟨x, hx, ht⟩

/-- What comes off the socket of session `p` is its welcome, or was sent to it. -/
theorem arriving_sent (hdec : DecodesFrames from_str)
    (hr : Reachable (CamRelay.relay from_str) n.relay) (hn : Named ids n)
    (htrust : Trusty ids n) (hi : Attributed ids n) {p : Addr} {x : WebSocketSession}
    {t : String} {j : Json} (hx : n.relay.actor p = some x) (ht : t ∈ x.socket)
    (hj : parse t = some j) : j = welcomeJson (ids p) ∨ ∃ b, SentBy n b (ids p) j := by
  rcases CamRouting.socket_origin hr hx ht with rfl | ⟨b, y, hy, hrec, m, hm, hto⟩
  · rw [parse_welcome ((CamRelay.idsDistinct_reachable hr).uuid p x hx), hn p x hx] at hj
    exact Or.inl (Option.some.inj hj).symm
  · obtain ⟨f, hsender, rfl⟩ := htrust.received b y t hy hrec
    obtain ⟨k, hk, htk⟩ := hi.uploaded b y _ hy hrec
    rw [parse_render] at hj
    cases hj
    cases render_injective htk
    -- the server has read the same recipient as the page reads
    rw [hdec f] at hm
    cases hm
    refine Or.inr ⟨b, hk, ⟨y, hy, hrec, ?_⟩, ?_⟩
    · rw [f.json_from, hsender, hn b y hy]
    · rw [← hn p x hx, ← hto]
      rfl

theorem attributed_step (hdec : DecodesFrames from_str)
    (hreach : ReachVia (net everyone from_str) C n) (hn : Named ids n)
    (hclosed : closed e = true) (htrust : Trusty ids n) (hi : Attributed ids n)
    (h : Step everyone from_str n e n') : Attributed ids n' := by
  refine ⟨fun a x t hx ht => uploaded_step hreach hi h hclosed hx ht, fun p m hm => ?_⟩
  have hlater : ∀ j, (j = welcomeJson (ids p) ∨ ∃ b, SentBy n b (ids p) j) →
      j = welcomeJson (ids p) ∨ ∃ b, SentBy n' b (ids p) j := by
    rintro j (hw | ⟨b, hb⟩)
    · exact Or.inl hw
    · exact Or.inr ⟨b, hb.later hreach h⟩
  rcases h.page p with heq | ⟨d, hd, -, hfrom⟩
  · rw [heq] at hm
    exact hlater _ (hi.heard p m hm)
  · rcases step_heard (CamPage.step_cases hd) with ⟨l, ht, hl⟩ | ⟨j, l, rfl, ht, hl⟩
    · rw [ht] at hm
      rcases List.mem_append.mp hm with hm | hm
      · exact hlater _ (hi.heard p m hm)
      · exact absurd hm (hl m)
    · rw [ht] at hm
      rcases List.mem_append.mp hm with hm | hm
      · exact hlater _ (hi.heard p m hm)
      · rcases List.mem_cons.mp hm with heq | hm
        · cases heq
          obtain ⟨x, t, hx, hsock, hparse⟩ := hfrom _ rfl
          exact hlater j (arriving_sent hdec (relay_reachable hreach) hn htrust hi hx
            (List.mem_of_getElem? hsock) hparse.symm)
        · exact absurd hm (hl m)

theorem attributed_reachVia (hdec : DecodesFrames from_str)
    (h : ReachVia (net everyone from_str) C n) (hn : Named ids n) : Attributed ids n := by
  refine ReachVia.invariant (I := fun n => Named ids n → Attributed ids n)
    (fun n h0 _ => ?_) (fun n e n' hr hi _ hst hn' => ?_) h hn
  · subst h0
    exact ⟨fun a x t hx => (nomatch hx), fun p m hm => (nomatch hm)⟩
  · have hstep := CamNet.step_cases hst
    have hbefore := hn'.before hstep
    exact attributed_step hdec hr hbefore (closed_everyone hst)
      (trusty_reachVia (fun _ _ _ _ hs => closed_everyone hs) hr hbefore) (hi hbefore) hstep

/-- **SIGNATURES ARE GENUINE AND ANSWERS GO BACK**, in every run in which all clients
    are pages.  Every text a session handles decodes with the id of that session as
    `from`.  Every message a page has received is the welcome of its own session, or
    bears that session's id as `to` and, as `from`, the id of the session whose page
    sent it, and no other session has received such a text.  And whenever a page sends
    an answer, it does so in a call that handles an offer it has received, and to the
    session that sent that offer. -/
theorem signed_and_answered (hdec : DecodesFrames from_str)
    (h : Reachable (net everyone from_str) n) :
    (∀ a x t, n.relay.actor a = some x → t ∈ x.received →
      ∃ m, from_str t = some m ∧ m.from = x.id) ∧
    (∀ p x m, n.relay.actor p = some x → .received m ∈ (n.page p).trace →
      m.data = welcomeJson x.id ∨ ∃ b, SentBy n b x.id m.data ∧
        ∀ c z, n.relay.actor c = some z → render m.data ∈ z.received → c = b) ∧
    ∀ e n' p j, CamNet.step everyone from_str n e = some n' →
      (n'.page p).sent = (n.page p).sent ++ [j] → hasType "answer" j = true →
      ∃ op env m d rest b y, (n.page p).chain = (op, .answerApplied env m d) :: rest ∧
        .received m ∈ (n.page p).trace ∧ isOffer m ∧ n.relay.actor b = some y ∧
        m.data ∈ (n.page b).sent ∧ j.get "to" = some (.str y.id) := by
  have hn : Named (fun a => (session n.relay a).id) n := by
    intro a x hx
    show x.id = (session n.relay a).id
    rw [session_some hx]
  have htrust := trusty_reachVia (fun _ _ _ _ hs => closed_everyone hs) h hn
  have hi := attributed_reachVia hdec h hn
  have hids := CamRelay.idsDistinct_reachable (relay_reachable h)
  have hsigned : ∀ a x t, n.relay.actor a = some x → t ∈ x.received →
      ∃ f : Frame, f.sender = x.id ∧ t = render f.json := by
    intro a x t hx ht
    obtain ⟨f, hsender, htf⟩ := htrust.received a x t hx ht
    exact ⟨f, by rw [hsender, hn a x hx], htf⟩
  refine ⟨fun a x t hx ht => ?_, fun p x m hx hm => ?_, fun e n' p j hst hsent hty => ?_⟩
  · obtain ⟨f, hsender, rfl⟩ := hsigned a x t hx ht
    exact ⟨_, hdec f, hsender⟩
  · rw [hn p x hx]
    rcases hi.heard p m hm with hw | ⟨b, hb⟩
    · exact Or.inl hw
    · refine Or.inr ⟨b, hb, fun c z hz hrec => ?_⟩
      obtain ⟨y, hy, -, hfrom⟩ := hb.session
      obtain ⟨f, hsender, htf⟩ := hsigned c z _ hz hrec
      rw [render_injective htf, f.json_from, hsender] at hfrom
      exact hids.inj c b z y hz hy (by simpa using hfrom)
  · have hr := page_reachable p h
    -- only a turn of the page itself sends, and only its first suspended call
    have hcall : ∃ op call rest, (n.page p).chain = (op, call) :: rest ∧
        j ∈ frames call := by
      rcases (CamNet.step_cases hst).page p with heq | ⟨d, hd, -⟩
      · rw [heq] at hsent
        exact absurd hsent (by simp)
      · rcases sent_step (step_negotiates hr hd) with heq | ⟨op, call, rest, hch, heq⟩
        · rw [heq] at hsent
          exact absurd hsent (by simp)
        · rw [heq] at hsent
          exact ⟨op, call, rest, hch, by
            rw [List.append_cancel_left hsent]; exact List.mem_singleton.mpr rfl⟩
    obtain ⟨op, call, rest, hch, hj⟩ := hcall
    have hmem : (op, call) ∈ (n.page p).chain := by rw [hch]; exact List.mem_cons_self ..
    rcases isFrame_of_frames hj with ⟨env, d, -, hfr⟩ | ⟨env, m, d, rfl, hfr⟩
    · rw [hasType, hfr.type] at hty
      cases hty
    · have hrec := (mem_sdpReceived.mp ((held_reachable hr).calls _ hmem m rfl)).1
      have hoff := answersOffers_reachable hr _ hmem m rfl
      rcases hi.heard p m hrec with hw | ⟨b, hb⟩
      · obtain ⟨sdp, hsdp, -⟩ := hoff
        rw [sdpOf, hw] at hsdp
        cases hsdp
      · obtain ⟨y, hy, -, hfrom⟩ := hb.session
        exact ⟨op, env, m, d, rest, b, y, hch, hrec, hoff, hy, hb.sent,
          by rw [hfr.recipient, hfrom]⟩

end Run

theorem callRun_reachable :
    Reachable (net everyone CamWire.from_str) (netAfter everyone callRun) :=
  callRun_keeps.reachable

/-- After a whole negotiation: one text each way, signed by the session it came from,
    and page 0 has received its welcome and the answer. -/
theorem signed_and_answered_sample :
    ((netAfter everyone callRun).relay.actor 1).map (·.received.length) = some 1 ∧
    (∀ a x t, (netAfter everyone callRun).relay.actor a = some x → t ∈ x.received →
      ∃ m, CamWire.from_str t = some m ∧ m.from = x.id) ∧
    ((netAfter everyone callRun).page 0).arrivals = 2 ∧
    ∀ x m, (netAfter everyone callRun).relay.actor 0 = some x →
      .received m ∈ ((netAfter everyone callRun).page 0).trace →
      m.data = welcomeJson x.id ∨ ∃ b, SentBy (netAfter everyone callRun) b x.id m.data ∧
        ∀ c z, (netAfter everyone callRun).relay.actor c = some z →
          render m.data ∈ z.received → c = b := by
  obtain ⟨htexts, hheard, -⟩ :=
    signed_and_answered decodesFrames_from_str callRun_reachable
  exact ⟨by decide +kernel, htexts, by decide +kernel, hheard 0⟩

end CamReply
