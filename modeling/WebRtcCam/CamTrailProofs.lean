import WebRtcCam.CamReplyProofs

/-! # The trail of an offer

    An offer of a page leaves a trail through the system: it is sent, relayed and handed
    over, a call of the other page answers it, and the answer comes back the same way
    and is applied.  `Trail id W` says of everything on the way that is an offer of
    session `id` or an answer to it that it has the property `W`; with `W` false the
    trail is gone.

    * `turn_sends` — what joins the trail: an offer of the session's own page, or an
      answer by a call that is on the trail;
    * `Trail.step` — nothing else does. -/

namespace CamTrail

open LtsRun JsonText CamWire CamNet CamHonest CamPending CamNegotiation CamMail CamStuck
open CamReply
open CamRelay (Addr Relay WebSocketSession ServerMsg)
open CamPage (Page Received Call Vars Obs)
open RtcSignaling (PcOp Desc SdpType Pc)

/-- A frame is known by its text. -/
theorem frame_injective {f g : Frame} (h : f.json = g.json) : f = g := by
  obtain ⟨s, t, d, hk⟩ := f
  obtain ⟨s', t', d', hk'⟩ := g
  have hfrom : some (Json.str s) = some (.str s') := congrArg (Json.get "from") h
  have hto : some (Json.str t) = some (.str t') := congrArg (Json.get "to") h
  have hsdp : some (CamPage.descJson d) = some (CamPage.descJson d') :=
    congrArg (Json.get "sdp") h
  have hd : some d = some d' := by
    rw [← RTCSessionDescription_descJson, ← RTCSessionDescription_descJson d',
      Option.some.inj hsdp]
  cases hfrom
  cases hto
  cases hd
  rfl

/-- Whatever is on the way, waits at a page or is being handled, and is an offer of
    session `id` or an answer to it, has the property `W`. -/
structure Trail (id : String) (W : Json → Prop) (n : Net) : Prop where
  out : ∀ a, ∀ j ∈ outgoing n a, waitsFor id j = true → W j
  inc : ∀ a, ∀ j ∈ incoming n a, waitsFor id j = true → W j
  calls : ∀ a, ∀ x ∈ (n.page a).chain, ∀ m, callMsg x.2 = some m →
    waitsFor id m.data = true → W m.data

/-- Nothing is left of the offers of session `id`. -/
def Vanished (id : String) (n : Net) : Prop := Trail id (fun _ => False) n

theorem Trail.mono {id : String} {W W' : Json → Prop} {n : Net} (h : Trail id W n)
    (hW : ∀ j, W j → W' j) : Trail id W' n where
  out := fun a j hj hw => hW j (h.out a j hj hw)
  inc := fun a j hj hw => hW j (h.inc a j hj hw)
  calls := fun a x hx m hm hw => hW _ (h.calls a x hx m hm hw)

theorem Vanished.trail {id : String} {n : Net} (h : Vanished id n) (W : Json → Prop) :
    Trail id W n :=
  Trail.mono h (fun _ hj => hj.elim)

section Step

variable {honest : Addr → Bool} {from_str : String → Option Message}
  {C : Net → Event → Prop} {ids : Addr → String} {id : String} {n n' : Net} {e : Event}

/-- A browser step is the turn of one page. -/
theorem browser_step {a : Addr} {d : CamPage.Event}
    (h : Step honest from_str n (.browser a d) n') :
    CamPage.step (n.page a) d = some (n'.page a) ∧ ∀ c, c ≠ a → n'.page c = n.page c := by
  cases h with
  | @browser _ _ s _ _ hs =>
      have hself : (setPage n a s).page a = s := Function.update_self ..
      exact ⟨by rw [hself]; exact hs, fun c hc => Function.update_of_ne hc ..⟩

/-- **ALONG THE TRAIL**: what is on it after a step was on it before, or is sent in this
    step. -/
theorem Trail.step {W : Json → Prop} (hreach : ReachVia (net honest from_str) C n)
    (hmoves : Moves ids n e n') (hi : Trail id W n)
    (hnew : ∀ a d l, Turn ids n e a d l n' → ∀ j ∈ l, waitsFor id j = true → W j) :
    Trail id W n' := by
  -- a step that leaves the pages alone
  have hstill : n'.page = n.page → (∀ a, ∀ j ∈ outgoing n' a, j ∈ outgoing n a) →
      (∀ a, ∀ j ∈ line n' a, j ∈ line n a ∨ ∃ b, j ∈ outgoing n b) → Trail id W n' := by
    intro hp ho hl
    refine ⟨fun a j hj hw => hi.out a j (ho a j hj) hw, fun a j hj hw => ?_,
      fun a x hx => hi.calls a x (by rw [← hp]; exact hx)⟩
    rcases List.mem_append.mp hj with hj | hj
    · rw [hp] at hj
      exact hi.inc a j (List.mem_append_left _ hj) hw
    · rcases hl a j hj with hj | ⟨b, hb⟩
      · exact hi.inc a j (List.mem_append_right _ hj) hw
      · exact hi.out b j hb hw
  cases hmoves with
  | still hp ho hl =>
      refine hstill hp (fun a j hj => ?_) (fun a j hj => Or.inl ?_)
      · rw [← ho a]
        exact hj
      · rw [← hl a]
        exact hj
  | @relayed a b f rest _ hp _ _ _ _ ha ho hlb hl =>
      refine hstill hp (fun c j hj => ?_) (fun c j hj => ?_)
      · by_cases hca : c = a
        · rw [hca, ha]
          rw [hca] at hj
          exact List.mem_cons_of_mem _ hj
        · rw [← ho c hca]
          exact hj
      · by_cases hcb : c = b
        · rw [hcb, hlb] at hj
          rcases List.mem_append.mp hj with hj | hj
          · exact Or.inl (by rw [hcb]; exact hj)
          · refine Or.inr ⟨a, ?_⟩
            rw [ha, List.mem_singleton.mp hj]
            exact List.mem_cons_self ..
        · exact Or.inl (by rw [← hl c hcb]; exact hj)
  | @dropped a f rest _ hp _ _ _ ha ho hl =>
      refine hstill hp (fun c j hj => ?_) (fun c j hj => Or.inl ?_)
      · by_cases hca : c = a
        · rw [hca, ha]
          rw [hca] at hj
          exact List.mem_cons_of_mem _ hj
        · rw [← ho c hca]
          exact hj
      · rw [← hl c]
        exact hj
  | @stopped a _ hp ha ho hla hl =>
      refine hstill hp (fun c j hj => ?_) (fun c j hj => Or.inl ?_)
      · by_cases hca : c = a
        · rw [hca, ha]
          rw [hca] at hj
          exact List.mem_append_left _ hj
        · rw [← ho c hca]
          exact hj
      · by_cases hca : c = a
        · rw [hca, hla]
          rw [hca] at hj
          exact List.mem_append_left _ hj
        · rw [← hl c hca]
          exact hj
  | @turn _ a d l _ ht =>
      refine ⟨fun c j hj hw => ?_, fun c j hj hw => ?_, fun c x hx => ?_⟩
      · by_cases hca : c = a
        · rw [hca, ht.out] at hj
          rcases List.mem_append.mp hj with hj | hj
          · exact hi.out a j hj hw
          · split at hj
            · cases hj
            · exact hnew a d l ht j hj hw
        · rw [ht.outs c hca] at hj
          exact hi.out c j hj hw
      · by_cases hca : c = a
        · rw [hca] at hj
          have hsub := (turned (page_reachable a hreach) ht.step ht.line).sublist
          exact hi.inc a j (hsub.subset hj) hw
        · rw [incoming, ht.pages c hca, ht.lines c hca] at hj
          exact hi.inc c j hj hw
      · by_cases hca : c = a
        · rw [hca] at hx
          refine step_calls (P := fun c => ∀ m, callMsg c = some m →
            waitsFor id m.data = true → W m.data) (fun _ _ m hm => (by cases hm))
            (fun _ m sdp hh _ m' hm' hw => ?_) (fun m hm => (by cases hm))
            (fun sdp c x hc hmem m hm => hc m ((callMsg_followUp hmem).symm.trans hm))
            (hi.calls a) (step_negotiates (page_reachable a hreach) ht.step) x hx
          -- what is handed over was in the slot
          cases hm'
          obtain ⟨l, hl⟩ := inbox_handed hh
          refine hi.inc a m.data (List.mem_append_left _ ?_) hw
          rw [hl]
          exact List.mem_cons_self ..
        · rw [ht.pages c hca] at hx
          exact hi.calls c x hx

/-- What a call is answering is an offer, and a frame. -/
theorem answers_frame (hreach : ReachVia (net honest from_str) C n) (hi : Trusty ids n)
    {a : Addr} {x : PcOp Json × Call} {m : Received} (hx : x ∈ (n.page a).chain)
    (hm : answers x.2 = some m) : ∃ g : Frame, m.data = g.json ∧ g.desc.type = .offer := by
  have hcall : callMsg x.2 = some m := by
    obtain ⟨op, call⟩ := x
    cases call with
    | remoteApplied env m' b =>
        cases b with
        | true => exact hm
        | false => exact nomatch hm
    | offerCreated => exact nomatch hm
    | offerApplied => exact nomatch hm
    | candidateAdded => exact nomatch hm
    | _ => exact hm
  obtain ⟨g, hg⟩ := ((hi.pages a).calls x hx).msg m hcall
  obtain ⟨sdp, hsdp, hoff⟩ := answersOffers_reachable (page_reachable a hreach) x hx m hm
  refine ⟨g, hg, ?_⟩
  rw [sdpOf_frame g hg] at hsdp
  cases hsdp
  rw [isOfferSdp_descJson] at hoff
  exact of_decide_eq_true hoff

/-- The first suspended call of a page sends a frame that concerns session `id`: its
    page's own offer, or the answer to an offer of that session. -/
inductive Joins (ids : Addr → String) (id : String) (n : Net) (a : Addr) (j : Json) :
    Call → Prop where
  | offer {env : Vars} {f : Frame} : j = f.json → f.sender = ids a → f.sender = id →
      f.desc.type = .offer → env.peerId = .str f.dest →
      Joins ids id n a j (.offerApplied env f.desc)
  | answer {env : Vars} {m : Received} {f g : Frame} : j = f.json → f.sender = ids a →
      f.dest = id → f.desc.type = .answer → m.data = g.json → g.desc.type = .offer →
      g.sender = id → Joins ids id n a j (.answerApplied env m f.desc)

/-- What a turn sends. -/
theorem turn_sends (hreach : ReachVia (net honest from_str) C n) (hi : Trusty ids n)
    {a : Addr} {d : CamPage.Event} {l : List Json} (ht : Turn ids n e a d l n') {j : Json}
    (hj : j ∈ l) (hw : waitsFor id j = true) :
    ∃ op call rest sdp sections, d = .settle (.fulfilled sdp sections) ∧
      (n.page a).chain = (op, call) :: rest ∧ j ∈ frames call ∧ Joins ids id n a j call := by
  have hr := page_reachable a hreach
  have hsame : (n'.page a).sent = (n.page a).sent → False := by
    intro heq
    have hl : l = [] := List.append_right_eq_self.mp (ht.sent.symm.trans heq)
    rw [hl] at hj
    exact nomatch hj
  cases step_negotiates hr ht.step with
  | idle _ htalk _ => exact (hsame htalk.sent).elim
  | mounts _ _ _ htalk => exact (hsame htalk.sent).elim
  | offers _ _ _ _ _ _ hs => exact (hsame hs).elim
  | handles _ _ _ _ _ _ _ _ _ hs => exact (hsame hs).elim
  | fails _ _ _ _ _ _ _ _ hs => exact (hsame hs).elim
  | candidate _ _ _ _ hs => exact (hsame hs).elim
  | rejected _ _ _ _ _ _ hs => exact (hsame hs).elim
  | unmount _ _ htalk => exact (hsame htalk.sent).elim
  | @fulfilled _ _ _ op call rest sdp sections _ _ _ hchain _ _ _ _ hsent =>
      have hmem : (op, call) ∈ (n.page a).chain := by rw [hchain]; exact List.mem_cons_self ..
      have hl : l = frames call := List.append_cancel_left (ht.sent.symm.trans hsent)
      rw [hl] at hj
      have hmatch := (matched_reachable hr).calls _ hmem
      obtain ⟨f, hsender, rfl, ⟨env, o, rfl, rfl, hpeer⟩ | ⟨env, m, o, rfl, rfl, hfrom⟩⟩ :=
        frames_of_good ((hi.pages a).calls _ hmem) hmatch hj
      · refine ⟨op, _, rest, sdp, sections, rfl, hchain, hj, ?_⟩
        have hty : f.desc.type = .offer := by
          cases hmatch with
          | offerApplied hd _ => exact hd
        rcases waitsFor_frame hw with ⟨-, hid⟩ | ⟨hans, -⟩
        · exact .offer rfl hsender hid hty hpeer
        · rw [hty] at hans
          exact nomatch hans
      · refine ⟨op, _, rest, sdp, sections, rfl, hchain, hj, ?_⟩
        have hty : f.desc.type = .answer := by
          cases hmatch with
          | answerApplied hd _ _ => exact hd
        obtain ⟨g, hg, hoff⟩ := answers_frame hreach hi hmem (m := m) rfl
        rcases waitsFor_frame hw with ⟨hoff', -⟩ | ⟨-, hdest⟩
        · rw [hty] at hoff'
          exact nomatch hoff'
        · refine .answer rfl hsender hdest hty hg hoff ?_
          rw [hg, g.json_from] at hfrom
          rw [← hdest]
          simpa using hfrom

/-- A trail that is gone stays gone, until the page of the session sends an offer. -/
theorem Vanished.step (hreach : ReachVia (net honest from_str) C n) (hi : Trusty ids n)
    (hmoves : Moves ids n e n') (h : Vanished id n)
    (hown : ∀ a sdp sections op env d rest,
      e = .browser a (.settle (.fulfilled sdp sections)) → ids a = id →
      (n.page a).chain = (op, .offerApplied env d) :: rest → frames (.offerApplied env d) = []) :
    Vanished id n' := by
  refine Trail.step hreach hmoves h (fun a d l ht j hj hw => ?_)
  obtain ⟨op, call, rest, sdp, sections, rfl, hchain, hsent, hjoin⟩ :=
    turn_sends hreach hi ht hj hw
  have hmem : (op, call) ∈ (n.page a).chain := by rw [hchain]; exact List.mem_cons_self ..
  have he : e = .browser a (.settle (.fulfilled sdp sections)) := by
    rcases ht.event with ⟨he, -⟩ | ⟨-, hm⟩
    · exact he
    · exact nomatch hm
  cases hjoin with
  | @offer env f _ hsender hid _ _ =>
      rw [hown a sdp sections op env f.desc rest he (hsender.symm.trans hid) hchain] at hsent
      exact nomatch hsent
  | @answer env m f g _ _ _ _ hg hoff hid =>
      refine h.calls a _ hmem m rfl ?_
      rw [hg, ← hid]
      exact offer_waits hoff

end Step

/-! ## Pages without a session -/

/-- No suspended call knows a client id. -/
def Unsigned (s : Page) : Prop :=
  ∀ x ∈ s.chain, ∀ env, callEnv x.2 = some env → env.clientId = some .null

theorem unsigned_step {s s' : Page} {e : CamPage.Event} (hr : Reachable CamPage.page s)
    (hun : Unheard s) (hi : Unsigned s) (h : CamPage.step s e = some s') : Unsigned s' := by
  refine step_calls (P := fun c => ∀ env, callEnv c = some env → env.clientId = some .null)
    (fun _ _ env henv => ?_) (fun _ m sdp hm _ env henv => ?_) (fun env henv => (nomatch henv))
    (fun sdp c x hc hmem env henv => hc env ((callEnv_followUp hmem).symm.trans henv)) hi
    (step_negotiates hr h)
  · cases henv
    exact hun.vars.1
  · cases henv
    exact hun.vars.1

section Unconnected

variable {honest : Addr → Bool} {from_str : String → Option Message}
  {C : Net → Event → Prop} {n n' : Net} {e : Event}

/-- A page whose session is not there has heard nothing, not even its id. -/
theorem unheard_unconnected (h : ReachVia (net honest from_str) C n) :
    ∀ a, n.relay.actor a = none → Unheard (n.page a) ∧ Unsigned (n.page a) := by
  refine ReachVia.invariant
    (I := fun n => ∀ a, n.relay.actor a = none → Unheard (n.page a) ∧ Unsigned (n.page a))
    (fun n h0 a _ => ?_) (fun n e n' hr hi _ hst a hnone => ?_) h
  · subst h0
    exact ⟨⟨⟨rfl, rfl⟩, ⟨rfl, rfl⟩, fun _ hx => (nomatch hx)⟩, fun _ hx => (nomatch hx)⟩
  · have hstep := CamNet.step_cases hst
    have hbefore := unconnected_before hstep hnone
    obtain ⟨hun, hsig⟩ := hi a hbefore
    rcases unconnected_page hstep hbefore with heq | ⟨d, hd, hmsg, -⟩
    · rw [heq]
      exact ⟨hun, hsig⟩
    · have hpage := page_reachable a hr
      exact ⟨unheard_step hpage hmsg hun hd, unsigned_step hpage hun hsig hd⟩

end Unconnected

/-! ## Where a message was sent -/

section Addressed

variable {from_str : String → Option Message} {C : Net → Event → Prop}
  {ids : Addr → String} {n : Net}

/-- What a call is about was sent to the page, by the page it is signed by. -/
theorem call_sentBy (hdec : DecodesFrames from_str)
    (hreach : ReachVia (net everyone from_str) C n) (hn : Named ids n) {a : Addr}
    {x : PcOp Json × Call} {m : Received} (hx : x ∈ (n.page a).chain)
    (hm : callMsg x.2 = some m) : ∃ b, SentBy n b (ids a) m.data := by
  have hi := trusty_reachVia (fun _ _ _ _ hs => closed_everyone hs) hreach hn
  have hrec := (mem_sdpReceived.mp
    ((held_reachable (page_reachable a hreach)).calls x hx m hm)).1
  rcases (attributed_reachVia hdec hreach hn).heard a m hrec with hw | hb
  · obtain ⟨g, hg⟩ := ((hi.pages a).calls x hx).msg m hm
    have hnot := g.json_not_welcome
    rw [← hg, hw] at hnot
    exact nomatch hnot
  · exact hb

/-- A frame a call is about was meant for the page. -/
theorem call_dest (hdec : DecodesFrames from_str)
    (hreach : ReachVia (net everyone from_str) C n) (hn : Named ids n) {a : Addr}
    {x : PcOp Json × Call} {m : Received} {g : Frame} (hx : x ∈ (n.page a).chain)
    (hm : callMsg x.2 = some m) (hg : m.data = g.json) : g.dest = ids a := by
  obtain ⟨b, hb⟩ := call_sentBy hdec hreach hn hx hm
  have hto : m.data.get "to" = some (.str (ids a)) := hb.dest
  rw [hg] at hto
  exact Json.text_inj (Option.some.inj hto)

end Addressed

end CamTrail
