import WebRtcCam.CamMailProofs

/-! # Waiting for the answer

    `createOffer` raises `isNegotiatingRef` and only what comes back lowers it again.
    Any number of honest pages; `Keeps` says of a step that it loses no offer or
    answer that a page with a raised flag is waiting for.

    The ways to lose one, over the pages and the server:

    * the button starts an offer before there is a client id (`sendMessage` then
      drops it), or the session it is sent on has stopped;
    * the server handles it for a recipient that is not registered, has stopped, or
      whose page is gone;
    * its session stops, or its page is unmounted, with it on the way;
    * a second message overwrites it in the slot;
    * an operation with which the other page answers it is rejected.

    * `not_stuck` — if no step does that, then no flag is raised when everything has
      come to rest. -/

namespace CamStuck

open LtsRun JsonText CamWire CamNet CamHonest CamPending CamNegotiation CamMail
open CamRelay (Addr Relay WebSocketSession ServerMsg)
open CamPage (Page Received Call Vars Quiet Update)
open RtcSignaling (PcOp Desc SdpType SignalingState)

/-- Every client is a page. -/
def everyone (_ : Addr) : Bool := true

/-- An offer of session `id`, or an answer to it. -/
def waitsFor (id : String) (j : Json) : Bool :=
  (hasType "offer" j && j.get "from" = some (.str id)) ||
    (hasType "answer" j && j.get "to" = some (.str id))

/-- The page at `p` is mounted and has its flag raised, and this is its offer, or an
    answer to it. -/
def Awaits (n : Net) (p : Addr) (j : Json) : Prop :=
  ∃ x, n.relay.actor p = some x ∧ (n.page p).mounted = true ∧
    (n.page p).isNegotiatingRef = true ∧ waitsFor x.id j = true

/-- The offer a call is answering. -/
def answers : Call → Option Received
  | .remoteApplied _ m true => some m
  | .answerCreated _ m => some m
  | .answerApplied _ m _ => some m
  | _ => none

/-- The step loses nothing that is awaited. -/
def Keeps (n : Net) : Event → Prop
  | .browser a .press =>
      (n.page a).isNegotiatingRef = false → truthy (n.page a).vars.clientId = true
  | .browser a (.settle .rejected) =>
      ∀ x rest m p, (n.page a).chain = x :: rest → answers x.2 = some m → p ≠ a →
        ¬ Awaits n p m.data
  | .browser a (.settle (.fulfilled _ _)) =>
      (session n.relay a).phase = .stopped → ∀ op rest,
        (∀ env d, (n.page a).chain ≠ (op, .offerApplied env d) :: rest) ∧
        ∀ env m d p, (n.page a).chain = (op, .answerApplied env m d) :: rest → p ≠ a →
          ¬ Awaits n p m.data
  | .browser a .flushEffects =>
      ∀ m l, handed (n.page a) = some m → inbox (n.page a) = m :: l →
        ∀ m' ∈ l, ∀ p, ¬ Awaits n p m'.data
  | .browser a .unmount =>
      ∀ p j, p ≠ a → Awaits n p j → j ∉ incoming n a ∧
        ∀ x ∈ (n.page a).chain, ∀ m, answers x.2 = some m → m.data ≠ j
  | .server (.serve a) =>
      ∀ dest t rest j p, (session n.relay a).toServer = .sendMessage dest t :: rest →
        parse t = some j → Awaits n p j → ∃ b, n.relay.sessions dest = some b ∧
          (session n.relay b).phase ≠ .stopped ∧ (n.page b).mounted = true
  | .server (.stop a) =>
      ∀ p j, Awaits n p j → j ∉ unsent n a ∧
        ((n.page a).mounted = true → j ∉ (session n.relay a).mailbox.filterMap arriving)
  | .download a =>
      ∀ m ∈ inbox (n.page a), handed (n.page a) ≠ some m → ∀ p, ¬ Awaits n p m.data
  | _ => True

/-- Everything has come to rest: no frame is in flight, no update queued, no effect due
    and no handler suspended on any page whose mount effect has run and that is still
    mounted, and the server has handled everything. -/
structure Quiescent (n : Net) : Prop where
  pages : ∀ a, (n.page a).mounted = true → (n.page a).peerConnectionRef.isSome = true →
    Quiet (n.page a) ∧ (n.page a).chain = []
  server : ∀ a, (session n.relay a).toServer = [] ∧ (session n.relay a).mailbox = []
  uploaded : ∀ a, (session n.relay a).phase ≠ .stopped →
    n.up a = (n.page a).sent.length
  downloaded : ∀ a, (n.page a).mounted = true →
    n.down a = (session n.relay a).socket.length

/-! ## A page nobody has written to -/

/-- No message has arrived. -/
structure Unheard (s : Page) : Prop where
  vars : s.vars.clientId = some .null ∧ s.vars.pendingSDP = none
  next : s.next.clientId = some .null ∧ s.next.pendingSDP = none
  calls : ∀ x ∈ s.chain, callMsg x.2 = none

theorem unheard_step {s s' : Page} {e : CamPage.Event}
    (hr : Reachable CamPage.page s) (hm : isMessage e = false) (hi : Unheard s)
    (h : CamPage.step s e = some s') : Unheard s' := by
  have hst := CamPage.step_cases h
  have hmsg : ∀ data, e ≠ .message data := by
    rintro data rfl
    exact nomatch hm
  refine ⟨?_, ?_, ?_⟩
  · rcases CamClosure.step_vars hst with hv | hv
    · rw [hv]
      exact hi.vars
    · rw [hv]
      exact hi.next
  · obtain ⟨l, hl, hq⟩ := step_next hst
    rw [hl]
    refine ⟨?_, foldl_unpending l _ hi.next.2 (fun m hmem => ?_)⟩
    · refine foldl_clientId (P := (· = some .null)) l _ hi.next.1 (fun c hmem => ?_)
      cases hq _ hmem with
      | plain hp => exact nomatch hp
      | welcome _ hj => exact (hmsg _ hj).elim
    · cases hq _ hmem with
      | plain hp => exact nomatch hp
      | pending hj => exact hmsg _ hj
  · refine step_calls (P := fun c => callMsg c = none) (fun _ _ => rfl)
      (fun _ m _ hm _ => ?_) rfl (fun sdp c x hx hmem => ?_) hi.calls (step_negotiates hr h)
    · have hvars := (handed_some hm).2.2
      rw [hi.vars.2] at hvars
      exact nomatch hvars
    · rw [callMsg_followUp hmem]
      exact hx

section Unconnected

variable {honest : Addr → Bool} {from_str : String → Option Message} {n n' : Net} {e : Event}
  {a : Addr}

/-- Sessions are there for good. -/
theorem unconnected_before (h : Step honest from_str n e n')
    (hnone : n'.relay.actor a = none) : n.relay.actor a = none := by
  by_contra hsome
  obtain ⟨x, hx⟩ := Option.ne_none_iff_exists'.mp hsome
  rcases h.relay with heq | ⟨d, hd⟩
  · rw [heq, hx] at hnone
    exact nomatch hnone
  · obtain ⟨y, hy, -⟩ := (CamRelay.step_cases hd).persists hx
    rw [hy] at hnone
    exact nomatch hnone

/-- A page without a session receives nothing. -/
theorem unconnected_page (h : Step honest from_str n e n') (hnone : n.relay.actor a = none) :
    n'.page a = n.page a ∨ ∃ d, CamPage.step (n.page a) d = some (n'.page a) ∧
      isMessage d = false ∧ e = .browser a d := by
  rcases h.page a with heq | ⟨d, hd, hev, hfrom⟩
  · exact Or.inl heq
  · have hmsg : isMessage d = false := by
      cases d with
      | message data =>
          obtain ⟨x, t, hx, -⟩ := hfrom data rfl
          rw [hnone] at hx
          exact nomatch hx
      | _ => rfl
    rcases hev with he | hm
    · exact Or.inr ⟨d, hd, hmsg, he⟩
    · rw [hmsg] at hm
      exact nomatch hm

end Unconnected

/-! ## The invariant -/

/-- An offer or answer on its way: sent, relayed to a mounted page, or an offer that
    a mounted page is answering. -/
inductive UnderWay (n : Net) (j : Json) : Prop where
  | sent {a : Addr} : j ∈ outgoing n a → UnderWay n j
  | relayed {a : Addr} : (n.page a).mounted = true → j ∈ incoming n a → UnderWay n j
  | handled {a : Addr} {x : PcOp Json × Call} {m : Received} :
      (n.page a).mounted = true → x ∈ (n.page a).chain → answers x.2 = some m →
      m.data = j → hasType "offer" j = true → UnderWay n j

/-- A call of `createOffer` or `handleSDPMessage` is suspended. -/
def Busy (s : Page) : Prop := ∃ x ∈ s.chain, x.2 ≠ .candidateAdded

/-- The variables of a call of `createOffer`. -/
def offerEnv : Call → Option Vars
  | .offerCreated env => some env
  | .offerApplied env _ => some env
  | _ => none

theorem offerEnv_followUp {sdp : String} {call : Call} {x : PcOp Json × Call}
    (h : x ∈ followUp sdp call) : offerEnv x.2 = offerEnv call := by
  cases call with
  | offerCreated env =>
      cases List.mem_singleton.mp h
      rfl
  | remoteApplied env m b =>
      cases b with
      | true =>
          cases List.mem_singleton.mp h
          rfl
      | false => exact nomatch h
  | answerCreated env m =>
      cases List.mem_singleton.mp h
      rfl
  | _ => exact nomatch h

section Run

variable {from_str : String → Option Message} {ids : Addr → String} {n n' : Net}
  {e : Event}

/-- **A RAISED FLAG IS ACCOUNTED FOR**: the page has a call suspended, or its offer or
    the answer to it is on the way. -/
structure Steady (ids : Addr → String) (n : Net) : Prop where
  heard : ∀ a, n.relay.actor a = none →
    Unheard (n.page a) ∧ (n.page a).isNegotiatingRef = false
  known : ∀ a, ∀ x ∈ (n.page a).chain, ∀ env, offerEnv x.2 = some env →
    truthy env.clientId = true
  addressed : ∀ a j, j ∈ incoming n a → j.get "to" = some (.str (ids a))
  flagged : ∀ p, (n.page p).mounted = true → (n.page p).isNegotiatingRef = true →
    Busy (n.page p) ∨ ∃ j, UnderWay n j ∧ waitsFor (ids p) j = true

/-- A raised flag belongs to a page with a session, so that its frames are awaited. -/
theorem Steady.awaits (hi : Steady ids n) (hn : Named ids n) {p : Addr} {j : Json}
    (hm : (n.page p).mounted = true) (hf : (n.page p).isNegotiatingRef = true)
    (hj : waitsFor (ids p) j = true) : Awaits n p j := by
  cases hx : n.relay.actor p with
  | none =>
      rw [(hi.heard p hx).2] at hf
      exact nomatch hf
  | some x => exact ⟨x, hx, hm, hf, by rw [hn p x hx]; exact hj⟩

theorem heard_step (hreach : ReachVia (net everyone from_str) Keeps n)
    (hk : Keeps n e) (hi : Steady ids n) (h : Step everyone from_str n e n') {a : Addr}
    (hnone : n'.relay.actor a = none) :
    Unheard (n'.page a) ∧ (n'.page a).isNegotiatingRef = false := by
  have hbefore := unconnected_before h hnone
  obtain ⟨hun, hflag⟩ := hi.heard a hbefore
  rcases unconnected_page h hbefore with heq | ⟨d, hd, hmsg, he⟩
  · rw [heq]
    exact ⟨hun, hflag⟩
  · have hr := page_reachable a hreach
    refine ⟨unheard_step hr hmsg hun hd, ?_⟩
    cases step_negotiates hr hd with
    | idle _ htalk _ => rw [htalk.flag]; exact hflag
    | mounts _ _ _ htalk => rw [htalk.flag]; exact hflag
    | offers =>
        -- the button is not pressed before there is a client id
        rw [he] at hk
        have hid := hk hflag
        rw [hun.vars.1] at hid
        exact nomatch hid
    | handles hm =>
        rw [hun.vars.2] at hm
        exact nomatch hm
    | fails _ _ _ _ _ _ hf => exact hf
    | candidate => exact nomatch hmsg
    | rejected _ _ _ _ hf =>
        rw [hf, hflag]
        exact Bool.and_false _
    | @fulfilled _ _ _ op call _ _ _ _ _ _ hchain _ _ hf =>
        have hnot := hun.calls _ (by rw [hchain]; exact List.mem_cons_self ..)
        have hraise : raises call = false := by
          cases call with
          | remoteApplied env m b => exact nomatch hnot
          | _ => rfl
        rw [hf, hraise, hflag]
        rfl
    | unmount _ _ htalk => rw [htalk.flag]; exact hflag

theorem known_step (hreach : ReachVia (net everyone from_str) Keeps n)
    (hk : Keeps n e) (hi : Steady ids n) (h : Step everyone from_str n e n') (a : Addr) :
    ∀ x ∈ (n'.page a).chain, ∀ env, offerEnv x.2 = some env →
      truthy env.clientId = true := by
  rcases h.page a with heq | ⟨d, hd, hev, -⟩
  · rw [heq]
    exact hi.known a
  · refine step_calls (P := fun c => ∀ env, offerEnv c = some env →
      truthy env.clientId = true) (fun hp hf env henv => ?_)
      (fun _ _ _ _ _ env henv => (nomatch henv)) (fun env henv => (nomatch henv))
      (fun sdp c x hx hmem env henv => ?_) (hi.known a)
      (step_negotiates (page_reachable a hreach) hd)
    · subst hp
      cases henv
      rcases hev with rfl | hm
      · exact hk hf
      · exact nomatch hm
    · exact hx env ((offerEnv_followUp hmem).symm.trans henv)

theorem addressed_step (hreach : ReachVia (net everyone from_str) Keeps n)
    (hi : Steady ids n) (h : Moves ids n e n') (c : Addr) (j : Json)
    (hj : j ∈ incoming n' c) : j.get "to" = some (.str (ids c)) := by
  cases h with
  | still hp _ hl =>
      rw [incoming, hp, hl] at hj
      exact hi.addressed c j hj
  | @relayed a b f rest _ hp _ _ _ hdest _ _ hb hl =>
      by_cases hcb : c = b
      · subst hcb
        rw [incoming, hp, hb, ← List.append_assoc] at hj
        rcases List.mem_append.mp hj with hj | hj
        · exact hi.addressed c j hj
        · rw [List.mem_singleton.mp hj, ← hdest]
          rfl
      · rw [incoming, hp, hl c hcb] at hj
        exact hi.addressed c j hj
  | dropped hp _ _ _ _ _ hl =>
      rw [incoming, hp, hl] at hj
      exact hi.addressed c j hj
  | @stopped a _ hp _ _ ha hl =>
      by_cases hca : c = a
      · subst hca
        refine hi.addressed c j ?_
        rw [incoming, hp] at hj
        rw [incoming, ha, ← List.append_assoc]
        exact List.mem_append_left _ hj
      · rw [incoming, hp, hl c hca] at hj
        exact hi.addressed c j hj
  | @turn _ a d _ _ ht =>
      by_cases hca : c = a
      · subst hca
        have hsub := (turned (page_reachable c hreach) ht.step ht.line).sublist
        exact hi.addressed c j (hsub.subset hj)
      · rw [incoming, ht.pages c hca, ht.lines c hca] at hj
        exact hi.addressed c j hj

/-! ## Nothing that is awaited gets lost -/

/-- A step of the relay keeps what is on the way, if it keeps what is sent and what is
    on the line to a mounted page. -/
theorem UnderWay.relay {j : Json} (hp : n'.page = n.page)
    (ho : ∀ a, j ∈ outgoing n a → UnderWay n' j)
    (hl : ∀ a, (n.page a).mounted = true → j ∈ line n a → UnderWay n' j)
    (h : UnderWay n j) : UnderWay n' j := by
  cases h with
  | sent hj => exact ho _ hj
  | @relayed a hm hj =>
      rcases List.mem_append.mp hj with hj | hj
      · refine .relayed (a := a) (by rw [hp]; exact hm) ?_
        rw [incoming, hp]
        exact List.mem_append_left _ hj
      · exact hl a hm hj
  | @handled a x m hm hx hans hdata htype =>
      exact .handled (a := a) (by rw [hp]; exact hm) (by rw [hp]; exact hx) hans hdata htype

/-- A step is the turn of a page, or it leaves the pages alone and keeps every awaited
    frame on its way. -/
theorem turn_or_keeps (hk : Keeps n e) (h : Moves ids n e n') :
    (∃ a d l, Turn ids n e a d l n') ∨ (n'.page = n.page ∧
      ∀ p j, Awaits n p j → UnderWay n j → UnderWay n' j) := by
  have hline : n'.page = n.page → ∀ a j, line n' a = line n a →
      (n.page a).mounted = true → j ∈ line n a → UnderWay n' j := by
    intro hp a j hla hm hmem
    refine .relayed (a := a) (by rw [hp]; exact hm) (List.mem_append_right _ ?_)
    rw [hla]
    exact hmem
  cases h with
  | turn ht => exact Or.inl ⟨_, _, _, ht⟩
  | still hp ho hl =>
      refine Or.inr ⟨hp, fun p j _ hj => hj.relay hp (fun a ha => ?_)
        (fun a => hline hp a j (hl a))⟩
      exact .sent (a := a) (by rw [ho]; exact ha)
  | @relayed a b f rest _ hp hq hb _ _ ha ho hlb hl =>
      refine Or.inr ⟨hp, fun p j haw hj => hj.relay hp (fun c hc => ?_)
        (fun c hm hc => ?_)⟩
      · by_cases hca : c = a
        · rw [hca, ha] at hc
          rcases List.mem_cons.mp hc with rfl | hc
          · -- the recipient is registered, and its page is there
            obtain ⟨b', hb', -, hm⟩ := hk f.dest (render f.json) rest f.json p hq
              (parse_render _) haw
            rw [hb] at hb'
            cases hb'
            refine .relayed (a := b) (by rw [hp]; exact hm) (List.mem_append_right _ ?_)
            rw [hlb]
            exact List.mem_append_right _ (List.mem_singleton.mpr rfl)
          · exact .sent hc
        · rw [← ho c hca] at hc
          exact .sent hc
      · by_cases hcb : c = b
        · subst hcb
          refine .relayed (a := c) (by rw [hp]; exact hm) (List.mem_append_right _ ?_)
          rw [hlb]
          exact List.mem_append_left _ hc
        · exact hline hp c j (hl c hcb) hm hc
  | @dropped a f rest _ hp hq hnone _ ha ho hl =>
      refine Or.inr ⟨hp, fun p j haw hj => hj.relay hp (fun c hc => ?_)
        (fun c => hline hp c j (hl c))⟩
      by_cases hca : c = a
      · rw [hca, ha] at hc
        rcases List.mem_cons.mp hc with rfl | hc
        · obtain ⟨b, hb, hlive, -⟩ := hk f.dest (render f.json) rest f.json p hq
            (parse_render _) haw
          exact absurd (hnone b hb) hlive
        · exact .sent hc
      · rw [← ho c hca] at hc
        exact .sent hc
  | @stopped a _ hp ha ho hla hl =>
      refine Or.inr ⟨hp, fun p j haw hj => hj.relay hp (fun c hc => ?_)
        (fun c hm hc => ?_)⟩
      · by_cases hca : c = a
        · rw [hca, ha] at hc
          rcases List.mem_append.mp hc with hc | hc
          · exact .sent hc
          · exact absurd hc (hk p j haw).1
        · rw [← ho c hca] at hc
          exact .sent hc
      · by_cases hca : c = a
        · subst hca
          rw [hla] at hc
          rcases List.mem_append.mp hc with hc | hc
          · exact .relayed (a := c) (by rw [hp]; exact hm) (List.mem_append_right _ hc)
          · exact absurd hc ((hk p j haw).2 hm)
        · exact hline hp c j (hl c hca) hm hc

/-- Frames wait for their own kind: an offer for its sender, an answer for its
    recipient. -/
theorem waitsFor_frame {id : String} {f : Frame} (h : waitsFor id f.json = true) :
    (f.desc.type = .offer ∧ f.sender = id) ∨ (f.desc.type = .answer ∧ f.dest = id) := by
  rcases f.kind with hk | hk
  · refine Or.inl ⟨hk, ?_⟩
    simpa [waitsFor, hasType, hk, CamPage.sdpName] using h
  · refine Or.inr ⟨hk, ?_⟩
    have hto : f.json.get "to" = some (.str f.dest) := rfl
    simpa [waitsFor, hasType, hk, CamPage.sdpName, hto] using h

theorem offer_waits {f : Frame} (h : f.desc.type = .offer) :
    waitsFor f.sender f.json = true := by
  simp [waitsFor, hasType, h, CamPage.sdpName]

theorem answer_waits {f : Frame} (h : f.desc.type = .answer) :
    waitsFor f.dest f.json = true := by
  have hto : f.json.get "to" = some (.str f.dest) := rfl
  simp [waitsFor, hasType, h, CamPage.sdpName, hto]

/-- What a page does to an awaited frame that is coming to it: it leaves it there, or
    hands it over. -/
theorem incoming_turn {a : Addr} {d : CamPage.Event} {l : List Json}
    (hreach : ReachVia (net everyone from_str) Keeps n) (hk : Keeps n e)
    (ht : Turn ids n e a d l n') {p : Addr} {j : Json} (haw : Awaits n p j)
    (hj : j ∈ incoming n a) :
    j ∈ incoming n' a ∨
      ∃ m, d = .flushEffects ∧ handed (n.page a) = some m ∧ m.data = j := by
  cases turned (page_reachable a hreach) ht.step ht.line with
  | same heq _ => exact Or.inl (by rw [heq]; exact hj)
  | arrived _ hn hn' =>
      rcases ht.event with ⟨-, hm⟩ | ⟨rfl, -⟩
      · exact nomatch hm
      · refine Or.inl ?_
        rw [hn] at hj
        rw [hn']
        rcases List.mem_append.mp hj with hj | hj
        · obtain ⟨m, hm, rfl⟩ := List.mem_map.mp hj
          -- a message that would be overwritten is not awaited
          have hh : handed (n.page a) = some m := by
            by_contra hne
            exact hk m hm hne p haw
          refine List.mem_append_left _ ?_
          rw [hh]
          exact List.mem_singleton.mpr rfl
        · exact List.mem_append_right _ hj
  | @handed m l hh hbox hn hn' =>
      rcases ht.event with ⟨rfl, -⟩ | ⟨-, hm⟩
      · rw [hn] at hj
        rcases List.mem_cons.mp hj with rfl | hj
        · exact Or.inr ⟨m, rfl, hh, rfl⟩
        · refine Or.inl ?_
          rw [hn']
          rcases List.mem_append.mp hj with hj | hj
          · obtain ⟨m', hm', rfl⟩ := List.mem_map.mp hj
            exact absurd haw (hk m l hh hbox m' hm' p)
          · exact hj
      · exact nomatch hm

/-- The frame a call sends once its operation is fulfilled: in honest company with a
    client id there is one. -/
theorem frames_of_known {id : String} {op : PcOp Json} {call : Call} {env : Vars}
    (hg : GoodCall id call) (hm : Matches op call)
    (hsends : (∃ d, call = .offerApplied env d) ∨ ∃ m d, call = .answerApplied env m d)
    (hid : truthy env.clientId = true) :
    ∃ f : Frame, f.json ∈ frames call ∧ f.sender = id ∧
      ((∃ env d, call = .offerApplied env d ∧ f.desc = d ∧ env.peerId = .str f.dest) ∨
        ∃ env m d, call = .answerApplied env m d ∧ f.desc = d ∧
          m.data.get "from" = some (.str f.dest)) := by
  have hne : ∃ j, j ∈ frames call := by
    have henv : callEnv call = some env := by
      rcases hsends with ⟨d, rfl⟩ | ⟨m, d, rfl⟩ <;> rfl
    have hopen := (hg.env env henv).socket hid
    rcases hsends with ⟨d, rfl⟩ | ⟨m, d, rfl⟩
    · exact ⟨_, by rw [frames, frame, hid, hopen]; exact List.mem_singleton.mpr rfl⟩
    · exact ⟨_, by rw [frames, frame, hid, hopen]; exact List.mem_singleton.mpr rfl⟩
  obtain ⟨j, hj⟩ := hne
  obtain ⟨f, hf, rfl, hrest⟩ := frames_of_good hg hm hj
  exact ⟨f, hj, hf, hrest⟩

/-- What becomes of an offer that a page is answering: it goes on answering it, or
    the answer is on its way. -/
theorem answering_turn {a : Addr} {d : CamPage.Event} {l : List Json}
    (hreach : ReachVia (net everyone from_str) Keeps n) (hi : Trusty ids n)
    (hk : Keeps n e) (ht : Turn ids n e a d l n') (hd : d ≠ .unmount) {p : Addr}
    {x : PcOp Json × Call} {m : Received} (hpa : p ≠ a) (haw : Awaits n p m.data)
    (hwait : waitsFor (ids p) m.data = true) (htype : hasType "offer" m.data = true)
    (hx : x ∈ (n.page a).chain) (hans : answers x.2 = some m) :
    ∃ j, UnderWay n' j ∧ waitsFor (ids p) j = true := by
  have hr := page_reachable a hreach
  have hmounted := CamClosure.mounted_kept ht.step hd
  have hstay : ∀ y ∈ (n'.page a).chain, answers y.2 = some m →
      ∃ j, UnderWay n' j ∧ waitsFor (ids p) j = true :=
    fun y hy hyans => ⟨m.data, .handled hmounted hy hyans rfl htype, hwait⟩
  cases step_negotiates hr ht.step with
  | idle _ htalk _ => exact hstay x (by rw [htalk.chain]; exact hx) hans
  | mounts _ _ _ htalk => exact hstay x (by rw [htalk.chain]; exact hx) hans
  | offers _ _ _ _ _ hc => exact hstay x (by rw [hc]; exact List.mem_append_left _ hx) hans
  | handles _ _ _ _ _ _ _ _ hc =>
      exact hstay x (by rw [hc]; exact List.mem_append_left _ hx) hans
  | fails _ _ _ _ _ _ _ hc => exact hstay x (by rw [hc]; exact hx) hans
  | candidate _ _ _ hc => exact hstay x (by rw [hc]; exact List.mem_append_left _ hx) hans
  | rejected _ _ hs _ _ hc =>
      rw [hs] at hx
      rcases List.mem_cons.mp hx with rfl | hx
      · rcases ht.event with ⟨rfl, -⟩ | ⟨-, hm⟩
        · exact absurd haw (hk _ _ m p hs hans hpa)
        · cases hm
      · exact hstay x (by rw [hc]; exact hx) hans
  | @fulfilled _ _ _ op call rest sdp _ _ _ _ hs _ _ _ hc hsent =>
      have hmem : (op, call) ∈ (n.page a).chain := by rw [hs]; exact List.mem_cons_self ..
      rw [hs] at hx
      rcases List.mem_cons.mp hx with rfl | hx
      · cases call with
        | remoteApplied env m' b =>
            cases b with
            | false => cases hans
            | true =>
                cases hans
                refine hstay (.createAnswer, .answerCreated env m) ?_ rfl
                rw [hc]
                exact List.mem_append_right _ (List.mem_singleton.mpr rfl)
        | answerCreated env m' =>
            cases hans
            refine hstay (.setLocalDescription ⟨.answer, sdp⟩,
              .answerApplied env m ⟨.answer, sdp⟩) ?_ rfl
            rw [hc]
            exact List.mem_append_right _ (List.mem_singleton.mpr rfl)
        | answerApplied env m' answer =>
            cases hans
            -- the answer goes to the sender of the offer
            have hmatch := (matched_reachable hr).calls _ hmem
            have hgood := (hi.pages a).calls _ hmem
            have htypes : answer.type = .answer ∧ truthy env.clientId = true := by
              cases hmatch with
              | answerApplied hty _ hid => exact ⟨hty, hid⟩
            obtain ⟨f, hf, -, ⟨_, _, hcall, -⟩ | ⟨_, _, _, hcall, hdesc, hdest⟩⟩ :=
              frames_of_known hgood hmatch (Or.inr ⟨m, answer, rfl⟩) htypes.2
            · cases hcall
            cases hcall
            obtain ⟨g, hg⟩ := hgood.msg m rfl
            rw [hg] at hwait htype hdest
            have hto : f.dest = ids p := by
              rw [g.json_from] at hdest
              have hsame : g.sender = f.dest := Json.text_inj (Option.some.inj hdest)
              rcases waitsFor_frame hwait with ⟨-, hs⟩ | ⟨hty, -⟩
              · rw [← hsame, hs]
              · simp [hasType, hty, CamPage.sdpName] at htype
            have hlive : (session n.relay a).phase ≠ .stopped := by
              intro hst
              rcases ht.event with ⟨rfl, -⟩ | ⟨-, hm⟩
              · exact ((hk hst op rest).2 env m answer p hs hpa) haw
              · cases hm
            refine ⟨f.json, .sent (a := a) ?_, ?_⟩
            · rw [ht.out, if_neg hlive]
              have hl : l = frames (.answerApplied env m answer) :=
                List.append_cancel_left (ht.sent.symm.trans hsent)
              rw [hl]
              exact List.mem_append_right _ hf
            · rw [← hto]
              exact answer_waits (by rw [hdesc]; exact htypes.1)
        | offerCreated => cases hans
        | offerApplied => cases hans
        | candidateAdded => cases hans
      · exact hstay x (by rw [hc]; exact List.mem_append_left _ hx) hans
  | unmount hm =>
      rw [hm] at hmounted
      cases hmounted

/-- A session that was relayed a frame exists, and its id is its own. -/
theorem addressee (hr : Reachable (CamRelay.relay from_str) n.relay) (hn : Named ids n)
    (hs : Steady ids n) {a p : Addr} {m : Received} {j : Json} (haw : Awaits n p j)
    (hm : (n.page a).vars.pendingSDP = some m) (hid : ids a = ids p) : p = a := by
  obtain ⟨x, hx, -⟩ := haw
  cases hy : n.relay.actor a with
  | none =>
      rw [((hs.heard a hy).1).vars.2] at hm
      exact nomatch hm
  | some y =>
      refine (CamRelay.idsDistinct_reachable hr).inj p a x y hx hy ?_
      rw [hn p x hx, hn a y hy, hid]

/-- What becomes of an awaited frame in the turn of a page: something for the waiting
    page is still on its way, unless the turn was its own. -/
theorem token_turn {a : Addr} {d : CamPage.Event} {l : List Json}
    (hreach : ReachVia (net everyone from_str) Keeps n) (hn : Named ids n)
    (hi : Trusty ids n) (hs : Steady ids n) (hk : Keeps n e)
    (ht : Turn ids n e a d l n') {p : Addr} {j : Json} (haw : Awaits n p j)
    (hwait : waitsFor (ids p) j = true) (hm' : (n'.page p).mounted = true)
    (hj : UnderWay n j) :
    (∃ j', UnderWay n' j' ∧ waitsFor (ids p) j' = true) ∨
      (p = a ∧ (Busy (n.page a) ∨ Busy (n'.page a))) := by
  -- a page that is unmounted holds nothing that another page awaits
  have hunmount : d = .unmount → p ≠ a ∧ (p ≠ a → j ∉ incoming n a ∧
      ∀ x ∈ (n.page a).chain, ∀ m, answers x.2 = some m → m.data ≠ j) := by
    rintro rfl
    refine ⟨?_, fun hpa => ?_⟩
    · rintro rfl
      have hst := ht.step
      generalize n'.page p = s' at hst hm'
      cases CamPage.step_cases hst with
      | unmount => cases hm'
    · rcases ht.event with ⟨rfl, -⟩ | ⟨-, hmsg⟩
      · exact hk p j hpa haw
      · cases hmsg
  cases hj with
  | @sent c hc =>
      refine Or.inl ⟨j, .sent (a := c) ?_, hwait⟩
      by_cases hca : c = a
      · rw [hca, ht.out]
        rw [hca] at hc
        exact List.mem_append_left _ hc
      · rw [ht.outs c hca]
        exact hc
  | @relayed c hm hc =>
      by_cases hca : c = a
      · rw [hca] at hc hm
        by_cases hd : d = .unmount
        · obtain ⟨hpa, hnot⟩ := hunmount hd
          exact absurd hc (hnot hpa).1
        · have hmounted := CamClosure.mounted_kept ht.step hd
          rcases incoming_turn hreach hk ht haw hc with hc | ⟨m, rfl, hh, rfl⟩
          · exact Or.inl ⟨j, .relayed hmounted hc, hwait⟩
          · -- it is handed over
            have hvars : (n.page a).vars.pendingSDP = some m := by
              rw [handed] at hh
              split at hh
              · exact hh
              · cases hh
            obtain ⟨-, f, hf⟩ := (hi.pages a).vars.pending m hvars
            obtain ⟨hchain, -⟩ := handed_step (page_reachable a hreach) (hi.pages a) hh
              hf ht.step
            have hlast : (PcOp.setRemoteDescription f.desc, Call.remoteApplied
                (n.page a).vars m (decide (f.desc.type = .offer)))
                ∈ (n'.page a).chain := by
              rw [hchain]
              exact List.mem_append_right _ (List.mem_singleton.mpr rfl)
            by_cases hpa : p = a
            · exact Or.inr ⟨hpa, Or.inr ⟨_, hlast, fun h => (by cases h)⟩⟩
            · have hoffer : f.desc.type = .offer := by
                have hw := hwait
                rw [hf] at hw
                rcases waitsFor_frame hw with ⟨ho, -⟩ | ⟨-, hdest⟩
                · exact ho
                · -- an answer that came here was meant for this page
                  have hto := hs.addressed a _ hc
                  have hto' : some (Json.str f.dest) = some (.str (ids a)) := by
                    rw [← hto, hf]
                    rfl
                  have hsame : f.dest = ids a := Json.text_inj (Option.some.inj hto')
                  exact absurd (addressee (relay_reachable hreach) hn hs haw hvars
                    (by rw [← hsame, hdest])) hpa
              refine Or.inl ⟨m.data, .handled hmounted hlast ?_ rfl ?_, hwait⟩
              · rw [decide_eq_true hoffer]
                rfl
              · rw [hf]
                simp [hasType, hoffer, CamPage.sdpName]
      · refine Or.inl ⟨j, .relayed (a := c) (by rw [ht.pages c hca]; exact hm) ?_, hwait⟩
        rw [incoming, ht.pages c hca, ht.lines c hca]
        exact hc
  | @handled c x m hm hx hans hdata htype =>
      by_cases hca : c = a
      · rw [hca] at hx hm
        by_cases hpa : p = a
        · refine Or.inr ⟨hpa, Or.inl ⟨x, hx, fun hc => ?_⟩⟩
          rw [hc] at hans
          cases hans
        · by_cases hd : d = .unmount
          · exact absurd hdata (((hunmount hd).2 hpa).2 x hx m hans)
          · subst hdata
            exact Or.inl (answering_turn hreach hi hk ht hd hpa haw hwait htype hx hans)
      · refine Or.inl ⟨j, .handled (a := c) ?_ ?_ hans hdata htype, hwait⟩
        · rw [ht.pages c hca]
          exact hm
        · rw [ht.pages c hca]
          exact hx

/-- A turn that keeps the flag and the calls of the page keeps what accounts for the
    flag. -/
theorem flagged_kept {a : Addr} {d : CamPage.Event} {l : List Json}
    (hreach : ReachVia (net everyone from_str) Keeps n) (hn : Named ids n)
    (hi : Trusty ids n) (hs : Steady ids n) (hk : Keeps n e)
    (ht : Turn ids n e a d l n') (hm' : (n'.page a).mounted = true)
    (hf : (n.page a).isNegotiatingRef = true)
    (hbusy : Busy (n.page a) → Busy (n'.page a)) :
    Busy (n'.page a) ∨ ∃ j, UnderWay n' j ∧ waitsFor (ids a) j = true := by
  have hm := CamPage.step_mounted ht.step
  rcases hs.flagged a hm hf with hb | ⟨j, hj, hwait⟩
  · exact Or.inl (hbusy hb)
  · rcases token_turn hreach hn hi hs hk ht (hs.awaits hn hm hf hwait) hwait hm' hj with
      hnew | ⟨-, hb | hb⟩
    · exact Or.inr hnew
    · exact Or.inl (hbusy hb)
    · exact Or.inl hb

/-- An answer of a party that is applied announces `stable`: what is no offer is an
    answer. -/
theorem answer_announces {m : Received} {f : Frame} {sdpJson : Json} {desc : Desc}
    {pc pc' : RtcSignaling.Pc} {sections : List RtcSignaling.Kind} {states : List SignalingState}
    (hfm : m.data = f.json) (hsdp : CamPage.sdpOf m = some sdpJson)
    (hd : CamPage.RTCSessionDescription sdpJson = some desc)
    (ho : CamPage.isOfferSdp sdpJson = false)
    (hperf : pc.perform sections (.setRemoteDescription desc : PcOp Json) = some (pc', states)) :
    .stable ∈ states := by
  rw [sdpOf_frame f hfm] at hsdp
  cases hsdp
  rw [RTCSessionDescription_descJson] at hd
  cases hd
  rw [isOfferSdp_descJson] at ho
  have hty : f.desc.type = .answer := by
    rcases f.kind with hk | hk
    · exact absurd hk (of_decide_eq_false ho)
    · exact hk
  exact (RtcSignaling.perform_remoteAnswer hty hperf).2.1

/-- An operation of the page is fulfilled: its call goes on, has sent an offer, or was
    one that does not touch the flag. -/
theorem flagged_fulfilled {a : Addr} {l : List Json} {pc pc' : RtcSignaling.Pc} {op : PcOp Json}
    {call : Call} {rest : List (PcOp Json × Call)} {sdp : String}
    {sections : List RtcSignaling.Kind} {states : List SignalingState}
    (hreach : ReachVia (net everyone from_str) Keeps n) (hn : Named ids n)
    (hi : Trusty ids n) (hs : Steady ids n) (hk : Keeps n e)
    (ht : Turn ids n e a (.settle (.fulfilled sdp sections)) l n')
    (hm' : (n'.page a).mounted = true) (hf' : (n'.page a).isNegotiatingRef = true)
    (hchain : (n.page a).chain = (op, call) :: rest)
    (hperf : pc.perform sections op = some (pc', states))
    (hf : (n'.page a).isNegotiatingRef
      = (raises call || ((n.page a).isNegotiatingRef && .stable ∉ states)))
    (hc : (n'.page a).chain = rest ++ followUp sdp call)
    (hsent : (n'.page a).sent = (n.page a).sent ++ frames call) :
    Busy (n'.page a) ∨ ∃ j, UnderWay n' j ∧ waitsFor (ids a) j = true := by
  have hr := page_reachable a hreach
  have hmem : (op, call) ∈ (n.page a).chain := by
    rw [hchain]
    exact List.mem_cons_self ..
  have hmatch := (matched_reachable hr).calls _ hmem
  have hgood := (hi.pages a).calls _ hmem
  have hfollow : ∀ x ∈ followUp sdp call, x.2 ≠ .candidateAdded →
      Busy (n'.page a) ∨ ∃ j, UnderWay n' j ∧ waitsFor (ids a) j = true := by
    intro x hx hne
    refine Or.inl ⟨x, ?_, hne⟩
    rw [hc]
    exact List.mem_append_right _ hx
  -- an operation that announces `stable` lowers the flag
  have hlowered : raises call = false → .stable ∈ states → False := by
    intro hr hst
    rw [hf, hr] at hf'
    simp [hst] at hf'
  cases hmatch with
  | offerCreated => exact hfollow _ (List.mem_singleton.mpr rfl) (fun h => (by cases h))
  | @offerApplied env desc hty htext =>
      -- the offer is on its way
      have hid := hs.known a _ hmem env rfl
      obtain ⟨f, hfr, hsender, ⟨_, _, hcall, hdesc, -⟩ | ⟨_, _, _, hcall, -⟩⟩ :=
        frames_of_known hgood (.offerApplied hty htext) (Or.inl ⟨desc, rfl⟩) hid
      · cases hcall
        have hlive : (session n.relay a).phase ≠ .stopped := by
          intro hst
          rcases ht.event with ⟨rfl, -⟩ | ⟨-, hmsg⟩
          · exact (hk hst _ rest).1 env desc hchain
          · cases hmsg
        refine Or.inr ⟨f.json, .sent (a := a) ?_, ?_⟩
        · have hl : l = frames (.offerApplied env desc) :=
            List.append_cancel_left (ht.sent.symm.trans hsent)
          rw [ht.out, if_neg hlive, hl]
          exact List.mem_append_right _ hfr
        · rw [← hsender]
          exact offer_waits (by rw [hdesc]; exact hty)
      · cases hcall
  | @remoteApplied env m sdpJson desc hsdp hd _ =>
      cases ho : CamPage.isOfferSdp sdpJson with
      | true =>
          refine hfollow (.createAnswer, .answerCreated env m) ?_ (fun h => (by cases h))
          rw [ho]
          exact List.mem_singleton.mpr rfl
      | false =>
          obtain ⟨f, hfm⟩ := hgood.msg m rfl
          exact (hlowered ho (answer_announces hfm hsdp hd ho hperf)).elim
  | answerCreated => exact hfollow _ (List.mem_singleton.mpr rfl) (fun h => (by cases h))
  | answerApplied hty _ =>
      obtain ⟨-, hst, -⟩ := RtcSignaling.perform_localAnswer hty hperf
      exact (hlowered rfl hst).elim
  | candidateAdded =>
      obtain ⟨-, rfl⟩ := RtcSignaling.perform_addIceCandidate hperf
      have hflag : (n.page a).isNegotiatingRef = true := by
        rw [hf] at hf'
        simpa [raises] using hf'
      refine flagged_kept hreach hn hi hs hk ht hm' hflag (fun ⟨x, hx, hne⟩ => ⟨x, ?_, hne⟩)
      rw [hchain] at hx
      rw [hc]
      rcases List.mem_cons.mp hx with rfl | hx
      · exact absurd rfl hne
      · exact List.mem_append_left _ hx

/-- The turn of the page whose flag is raised: whatever ends a call of it without
    sending anything lowers the flag. -/
theorem flagged_own {a : Addr} {d : CamPage.Event} {l : List Json}
    (hreach : ReachVia (net everyone from_str) Keeps n) (hn : Named ids n)
    (hi : Trusty ids n) (hs : Steady ids n) (hk : Keeps n e)
    (ht : Turn ids n e a d l n') (hm' : (n'.page a).mounted = true)
    (hf' : (n'.page a).isNegotiatingRef = true) :
    Busy (n'.page a) ∨ ∃ j, UnderWay n' j ∧ waitsFor (ids a) j = true := by
  have hkeep := flagged_kept hreach hn hi hs hk ht hm'
  cases step_negotiates (page_reachable a hreach) ht.step with
  | idle _ htalk _ =>
      refine hkeep (by rw [← htalk.flag]; exact hf') (fun hb => ?_)
      rw [Busy, htalk.chain]
      exact hb
  | mounts _ _ _ htalk =>
      refine hkeep (by rw [← htalk.flag]; exact hf') (fun hb => ?_)
      rw [Busy, htalk.chain]
      exact hb
  | offers _ _ _ _ _ hc =>
      refine Or.inl ⟨(.createOffer, .offerCreated (n.page a).vars), ?_, fun h => (by cases h)⟩
      rw [hc]
      exact List.mem_append_right _ (List.mem_singleton.mpr rfl)
  | @handles _ m sdp desc _ _ _ _ _ _ _ _ hc =>
      refine Or.inl ⟨(.setRemoteDescription desc,
        .remoteApplied (n.page a).vars m (CamPage.isOfferSdp sdp)), ?_, fun h => (by cases h)⟩
      rw [hc]
      exact List.mem_append_right _ (List.mem_singleton.mpr rfl)
  | fails _ _ _ _ _ _ hf =>
      rw [hf] at hf'
      cases hf'
  | candidate _ _ hf hc =>
      refine hkeep (by rw [← hf]; exact hf') (fun ⟨x, hx, hne⟩ => ⟨x, ?_, hne⟩)
      rw [hc]
      exact List.mem_append_left _ hx
  | rejected _ _ hchain _ hf hc =>
      rw [hf] at hf'
      obtain ⟨hcand, hflag⟩ := Bool.and_eq_true_iff.mp hf'
      refine hkeep hflag (fun ⟨x, hx, hne⟩ => ⟨x, ?_, hne⟩)
      rw [hchain] at hx
      rw [hc]
      rcases List.mem_cons.mp hx with rfl | hx
      · exact absurd (of_decide_eq_true hcand) hne
      · exact hx
  | fulfilled _ _ hchain hperf _ hf hc hsent =>
      exact flagged_fulfilled hreach hn hi hs hk ht hm' hf' hchain hperf hf hc hsent
  | unmount hun =>
      rw [hun] at hm'
      cases hm'

theorem flagged_step (hreach : ReachVia (net everyone from_str) Keeps n)
    (hn : Named ids n) (hi : Trusty ids n) (hs : Steady ids n) (hk : Keeps n e)
    (h : Moves ids n e n') {p : Addr} (hm' : (n'.page p).mounted = true)
    (hf' : (n'.page p).isNegotiatingRef = true) :
    Busy (n'.page p) ∨ ∃ j, UnderWay n' j ∧ waitsFor (ids p) j = true := by
  rcases turn_or_keeps hk h with ⟨a, d, l, ht⟩ | ⟨hp, hkeep⟩
  · by_cases hpa : p = a
    · subst hpa
      exact flagged_own hreach hn hi hs hk ht hm' hf'
    · have hm : (n.page p).mounted = true := by rw [← ht.pages p hpa]; exact hm'
      have hf : (n.page p).isNegotiatingRef = true := by
        rw [← ht.pages p hpa]
        exact hf'
      rcases hs.flagged p hm hf with hb | ⟨j, hj, hwait⟩
      · rw [ht.pages p hpa]
        exact Or.inl hb
      · rcases token_turn hreach hn hi hs hk ht (hs.awaits hn hm hf hwait) hwait hm' hj
          with hnew | ⟨heq, -⟩
        · exact Or.inr hnew
        · exact absurd heq hpa
  · rw [hp] at hm' hf' ⊢
    rcases hs.flagged p hm' hf' with hb | ⟨j, hj, hwait⟩
    · exact Or.inl hb
    · exact Or.inr ⟨j, hkeep p j (hs.awaits hn hm' hf' hwait) hj, hwait⟩

/-- Where every client is a page, no text comes from anywhere else. -/
theorem closed_everyone (h : CamNet.step everyone from_str n e = some n') :
    closed e = true := by
  cases CamNet.step_cases h with
  | @server d _ hmay _ =>
      cases d with
      | frame a f =>
          cases f with
          | none => rfl
          | some w =>
              cases w with
              | text t => exact nomatch hmay
              | _ => rfl
      | _ => rfl
  | _ => rfl

theorem trusty_everyone {C : Net → Event → Prop} (h : ReachVia (net everyone from_str) C n)
    (hn : Named ids n) : Trusty ids n :=
  trusty_reachVia (fun _ _ _ _ hs => closed_everyone hs) h hn

theorem steady_initial : Steady ids .initial where
  heard := fun _ _ => ⟨⟨⟨rfl, rfl⟩, ⟨rfl, rfl⟩, fun _ hx => (nomatch hx)⟩, rfl⟩
  known := fun _ _ hx => (nomatch hx)
  addressed := fun _ _ hj => (nomatch hj)
  flagged := fun _ _ hf => (nomatch hf)

theorem steady_reachVia (hdec : DecodesFrames from_str)
    (h : ReachVia (net everyone from_str) Keeps n) (hn : Named ids n) :
    Steady ids n := by
  refine ReachVia.invariant (I := fun n => Named ids n → Steady ids n)
    (fun n h0 _ => ?_) (fun n e n' hr hi hk hst hn' => ?_) h hn
  · subst h0
    exact steady_initial
  · have hstep := CamNet.step_cases hst
    have hbefore := hn'.before hstep
    have htrust := trusty_reachVia (fun _ _ _ _ hs => closed_everyone hs) hr hbefore
    have hmoves := step_moves hr hdec hbefore (closed_everyone hst) htrust hstep
    have hs := hi hbefore
    exact ⟨fun a => heard_step hr hk hs hstep, known_step hr hk hs hstep,
      addressed_step hr hs hmoves, fun p => flagged_step hr hbefore htrust hs hk hmoves⟩

/-! ## At rest -/

/-- At rest nothing waits in a slot. -/
theorem inbox_at_rest (hr : Reachable (CamRelay.relay from_str) n.relay) {a : Addr}
    (hp : Reachable CamPage.page (n.page a)) (hn : Named ids n) (hi : Trusty ids n)
    (hs : Steady ids n)
    (hquiet : (n.page a).peerConnectionRef.isSome = true → Quiet (n.page a)) :
    inbox (n.page a) = [] := by
  by_cases hmv : (n.page a).mountVars = none
  · obtain ⟨hv, hnext⟩ := (hi.pages a).unopened hmv
    rw [inbox_committed (by rw [hv, hnext]), hnext]
    rfl
  · have hq := hquiet ((CamClosure.mountRender_reachable hp).connected
      (Option.isSome_iff_ne_none.mpr hmv))
    have hnext : (n.page a).next = (n.page a).vars := by
      rw [Page.next, hq.1]
      rfl
    rw [inbox_committed (by rw [hnext]), hnext]
    cases hm : (n.page a).vars.pendingSDP with
    | none => rfl
    | some m =>
        -- a message that is in the slot at rest would have been handed over
        have hid := ((hi.pages a).vars.pending m hm).1
        have htruthy : truthy (n.page a).vars.clientId = true := by
          cases hx : n.relay.actor a with
          | none =>
              rw [((hs.heard a hx).1).vars.2] at hm
              cases hm
          | some x =>
              have huuid := (CamRelay.idsDistinct_reachable hr).uuid a x hx
              rw [hid, truthy_str, ← hn a x hx]
              exact of_decide_eq_true (Bool.and_eq_true_iff.mp huuid).1
        refine absurd ?_ ((slot_reachable hp).cleared (by rw [hq.2]; simp) htruthy m hm)
        rw [hnext]
        exact hm

/-- **A NEGOTIATION IS NOT LEFT STUCK**: for any number of pages, in every run in which
    no awaited offer or answer is lost, no mounted page has its flag raised once
    everything has come to rest.

    What a session has written to its socket gets to the page, if it is there, also after
    the session has stopped.  A text that the network loses with the socket is one that
    was left in the mailbox when the session stopped. -/
theorem not_stuck (hdec : DecodesFrames from_str)
    (h : ReachVia (net everyone from_str) Keeps n) (hq : Quiescent n) {p : Addr}
    (hm : (n.page p).mounted = true) : (n.page p).isNegotiatingRef = false := by
  have hn : Named (fun a => (session n.relay a).id) n := by
    intro a x hx
    show x.id = (session n.relay a).id
    rw [session_some hx]
  have hi := trusty_reachVia (fun _ _ _ _ hs => closed_everyone hs) h hn
  have hs := steady_reachVia hdec h hn
  -- no call is suspended
  have hidle : ∀ a, (n.page a).mounted = true → (n.page a).chain = [] := by
    intro a ha
    cases hpc : (n.page a).peerConnectionRef with
    | none => exact ((matched_reachable (page_reachable a h)).before hpc).1
    | some pc => exact (hq.pages a ha (by rw [hpc]; rfl)).2
  by_contra hf
  rcases hs.flagged p hm (by simpa using hf) with ⟨x, hx, -⟩ | ⟨j, hj, -⟩
  · rw [hidle p hm] at hx
    cases hx
  · cases hj with
    | @sent a ha =>
        have hnone : unsent n a = [] := by
          rw [unsent]
          split
          · rfl
          · next hlive => rw [hq.uploaded a hlive, List.drop_length]
        rw [outgoing, (hq.server a).1, hnone] at ha
        cases ha
    | @relayed a ha hj =>
        have hline : line n a = [] := by
          rw [line, hq.downloaded a ha, List.drop_length, (hq.server a).2]
          rfl
        have hbox := inbox_at_rest (relay_reachable h) (page_reachable a h) hn hi hs
          (fun hpc => (hq.pages a ha hpc).1)
        rw [incoming, hbox, hline] at hj
        cases hj
    | @handled a x m ha hx =>
        rw [hidle a ha] at hx
        cases hx

end Run

/-! ## Two runs -/

/-- The address a step is about. -/
def address : Event → Addr
  | .server (.connect a _) => a
  | .server (.start a) => a
  | .server (.frame a _) => a
  | .server (.serve a) => a
  | .server (.deliver a) => a
  | .server (.stop a) => a
  | .browser a _ => a
  | .upload a => a
  | .download a => a

/-- Nothing has happened at an address. -/
structure Untouched (n : Net) (a : Addr) : Prop where
  page : n.page a = .initial
  actor : n.relay.actor a = none
  up : n.up a = 0
  down : n.down a = 0

theorem untouched_step {n n' : Net} {e : Event} {a : Addr} (hi : Untouched n a)
    (ha : address e ≠ a) (h : CamNet.step everyone CamWire.from_str n e = some n') :
    Untouched n' a := by
  -- an address without an actor gets one by `connect` only
  have hrelay : ∀ d r, address (.server d) ≠ a →
      CamRelay.Step CamWire.from_str n.relay d r → r.actor a = none := by
    intro d r hd hst
    have hset : ∀ (b : Addr) (z : WebSocketSession), b ≠ a →
        (CamRelay.setActor n.relay b z).actor a = none := by
      intro b z hb
      rw [CamRelay.setActor_ne _ _ (Ne.symm hb)]
      exact hi.actor
    cases hst with
    | connect => exact hset _ _ hd
    | start => exact hset _ _ hd
    | frame => exact hset _ _ hd
    | serve hx _ =>
        rw [CamRelay.serveMsg_actor hx, hi.actor]
        rfl
    | deliver => exact hset _ _ hd
    | stop => exact hset _ _ hd
  cases CamNet.step_cases h with
  | @server d r _ hst =>
      exact ⟨hi.page, hrelay d r ha (CamRelay.step_cases hst), hi.up, hi.down⟩
  | @browser b d s _ _ _ =>
      have hb : a ≠ b := Ne.symm ha
      refine ⟨?_, hi.actor, hi.up, hi.down⟩
      show Function.update n.page b s a = _
      rw [Function.update_of_ne hb]
      exact hi.page
  | @upload b f r _ _ hst =>
      have hb : a ≠ b := Ne.symm ha
      have hst' := CamRelay.step_cases hst
      refine ⟨hi.page, hrelay (.frame b _) r ha hst', ?_, hi.down⟩
      show Function.update n.up b _ a = 0
      rw [Function.update_of_ne hb]
      exact hi.up
  | @download b x u s _ _ _ _ =>
      have hb : a ≠ b := Ne.symm ha
      refine ⟨?_, hi.actor, hi.up, ?_⟩
      · show Function.update n.page b s a = _
        rw [Function.update_of_ne hb]
        exact hi.page
      · show Function.update n.down b _ a = 0
        rw [Function.update_of_ne hb]
        exact hi.down

theorem untouched_run {a : Addr} (es : List Event) (hes : ∀ e ∈ es, address e ≠ a) :
    ∀ {n n' : Net}, Untouched n a →
      exec (net everyone CamWire.from_str) n es = some n' → Untouched n' a := by
  induction es with
  | nil =>
      intro n n' hi h
      cases h
      exact hi
  | cons e es ih =>
      intro n n' hi h
      obtain ⟨m, hm, hrest⟩ := exec_cons h
      have hstep := untouched_step hi (hes e (List.mem_cons_self ..)) hm
      exact ih (fun e' he' => hes e' (List.mem_cons_of_mem _ he')) hstep hrest

/-- A run of the addresses below `k` touches no other. -/
theorem untouched_above {es : List Event} {k : Nat} {n : Net} {a : Addr}
    (haddr : es.all (fun e => address e < k) = true)
    (hrun : exec (net everyone CamWire.from_str) .initial es = some n) (ha : ¬ a < k) :
    Untouched n a := by
  refine untouched_run es (fun e he heq => ?_) ⟨rfl, rfl, rfl, rfl⟩ hrun
  have hlt := of_decide_eq_true (List.all_eq_true.mp haddr e he)
  rw [heq] at hlt
  exact ha hlt

/-- Nothing is left to do at an address. -/
def atRest (n : Net) (a : Addr) : Bool :=
  (!(n.page a).mounted || !(n.page a).peerConnectionRef.isSome ||
    (decide (Quiet (n.page a)) && (n.page a).chain.isEmpty)) &&
  (session n.relay a).toServer.isEmpty && (session n.relay a).mailbox.isEmpty &&
  ((session n.relay a).phase = .stopped || n.up a = (n.page a).sent.length) &&
  (!(n.page a).mounted || n.down a = (session n.relay a).socket.length)

/-- What was sent by a page at rest has been handled. -/
theorem outgoing_at_rest {n : Net} {a : Addr} (h : atRest n a = true) : outgoing n a = [] := by
  simp only [atRest, Bool.and_eq_true, Bool.or_eq_true, decide_eq_true_eq, List.isEmpty_iff]
    at h
  obtain ⟨⟨⟨⟨-, hto⟩, -⟩, hup⟩, -⟩ := h
  rw [outgoing, unsent, hto]
  rcases hup with hup | hup
  · rw [if_pos hup]
    rfl
  · rw [hup, List.drop_length, ite_self]
    rfl

/-- What was sent to a page at rest that is there has arrived. -/
theorem line_at_rest {n : Net} {a : Addr} (h : atRest n a = true)
    (hm : (n.page a).mounted = true) : line n a = [] := by
  simp only [atRest, hm, Bool.and_eq_true, Bool.or_eq_true, Bool.not_true, decide_eq_true_eq,
    List.isEmpty_iff, Bool.false_eq_true, false_or] at h
  obtain ⟨⟨⟨-, hmail⟩, -⟩, hdown⟩ := h
  rw [line, hmail, hdown, List.drop_length]
  rfl

theorem quiescent_of_atRest {n : Net} (h : ∀ a, atRest n a = true) : Quiescent n := by
  refine ⟨fun a hm hpc => ?_, fun a => ?_, fun a hlive => ?_, fun a hm => ?_⟩
  · have ha := h a
    simp only [atRest, Bool.and_eq_true, hm, hpc] at ha
    simpa using ha.1.1.1.1
  · have ha := h a
    simp only [atRest, Bool.and_eq_true] at ha
    exact ⟨by simpa using ha.1.1.1.2, by simpa using ha.1.1.2⟩
  · have ha := h a
    simp only [atRest, Bool.and_eq_true] at ha
    simpa [hlive] using ha.1.2
  · have ha := h a
    simp only [atRest, Bool.and_eq_true, hm] at ha
    simpa using ha.2

/-- A run of the pages at the addresses below `k` is at rest if they are. -/
theorem quiescent_of_run {es : List Event} {k : Nat} {n : Net}
    (hrun : exec (net everyone CamWire.from_str) .initial es = some n)
    (haddr : es.all (fun e => address e < k) = true)
    (hrest : (List.range k).all (atRest n) = true) : Quiescent n := by
  refine quiescent_of_atRest (fun a => ?_)
  by_cases ha : a < k
  · exact List.all_eq_true.mp hrest a (List.mem_range.mpr ha)
  · have hun := untouched_above haddr hrun ha
    rw [atRest, hun.page, hun.up, hun.down, session, hun.actor]
    rfl

/-- Page 0 offers to somebody who is not there: the server drops the offer. -/
def lonelyRun : List Event :=
  welcomeRun ++ pressRun ++ [.upload 0, .server (.serve 0)]

/-- Everything is at rest, the page is mounted, and its flag is raised for good. -/
theorem stuck_offer :
    ∃ n : Net, Reachable (net everyone CamWire.from_str) n ∧ Quiescent n ∧
      (n.page 0).mounted = true ∧ (n.page 0).isNegotiatingRef = true := by
  have hrun : (exec (net everyone CamWire.from_str) .initial lonelyRun).any (fun n =>
      (List.range 1).all (atRest n) && (n.page 0).mounted && (n.page 0).isNegotiatingRef)
      = true := by
    decide +kernel
  obtain ⟨n, hexec, hreach, hcheck⟩ := ReachVia.of_check (fun _ _ _ => trivial) rfl hrun
  simp only [Bool.and_eq_true] at hcheck
  obtain ⟨⟨hrest, hm⟩, hflag⟩ := hcheck
  exact ⟨n, hreach, quiescent_of_run hexec (by decide) hrest, hm, hflag⟩

/-- A checkable condition that is enough: nothing is rejected, stopped or unmounted,
    slots are free, and recipients are there. -/
def keeps (n : Net) : Event → Bool
  | .browser a .press => (n.page a).isNegotiatingRef || truthy (n.page a).vars.clientId
  | .browser _ (.settle .rejected) => false
  | .browser a (.settle (.fulfilled _ _)) => (session n.relay a).phase ≠ .stopped
  | .browser a .flushEffects => (inbox (n.page a)).length ≤ 1
  | .browser _ .unmount => false
  | .server (.serve a) =>
      match (session n.relay a).toServer with
      | .sendMessage dest _ :: _ =>
          match n.relay.sessions dest with
          | some b => (session n.relay b).phase ≠ .stopped && (n.page b).mounted
          | none => false
      | _ => true
  | .server (.stop _) => false
  | .download a => (inbox (n.page a)).isEmpty
  | _ => true

theorem keeps_sound {n : Net} {e : Event} (h : keeps n e = true) : Keeps n e := by
  simp only [keeps] at h
  split at h
  · intro hf
    simpa [hf] using h
  · exact nomatch h
  · intro hst
    simp [hst] at h
  · intro m l _ hbox m' hm'
    rw [hbox] at h
    cases l with
    | nil => exact nomatch hm'
    | cons => simp at h
  · exact nomatch h
  · intro dest u rest j p hq _ _
    rw [hq] at h
    simp only at h
    split at h
    · next b hb => exact ⟨b, hb, by simpa using h⟩
    · exact nomatch h
  · exact nomatch h
  · intro m hm
    rw [List.isEmpty_iff.mp h] at hm
    exact nomatch hm
  · next h₁ h₂ h₃ h₄ h₅ h₆ h₇ h₈ =>
      unfold Keeps
      split
      · exact (h₁ _ rfl).elim
      · exact (h₂ _ rfl).elim
      · exact (h₃ _ _ _ rfl).elim
      · exact (h₄ _ rfl).elim
      · exact (h₅ _ rfl).elim
      · exact (h₆ _ rfl).elim
      · exact (h₇ _ rfl).elim
      · exact (h₈ _ rfl).elim
      · trivial

/-- Page 1 joins under id `b`. -/
def joinRun : List Event :=
  [.browser 1 .flushEffects, .server (.connect 1 "b"), .server (.start 1),
    .server (.serve 1), .download 1, .browser 1 .render, .browser 1 .flushEffects]

/-- The offer of page 0 gets to page 1, which answers it. -/
def answerRun : List Event :=
  [.upload 0, .server (.serve 0), .server (.deliver 1), .download 1, .browser 1 .render,
    .browser 1 .flushEffects, .browser 1 (.settle (.fulfilled "" [.video])),
    .browser 1 (.settle (.fulfilled "v=1" [])), .browser 1 (.settle (.fulfilled "" [])),
    .browser 1 .render, .browser 1 .flushEffects]

/-- The answer gets back to page 0. -/
def returnRun : List Event :=
  [.upload 1, .server (.serve 1), .server (.deliver 0), .download 0, .browser 0 .render,
    .browser 0 .flushEffects, .browser 0 (.settle (.fulfilled "" [])), .browser 0 .render,
    .browser 0 .flushEffects]

/-- A whole negotiation. -/
def callRun : List Event := welcomeRun ++ joinRun ++ pressRun ++ answerRun ++ returnRun

theorem callRun_keeps :
    ReachVia (net everyone CamWire.from_str) Keeps (netAfter everyone callRun) :=
  ReachVia.of_after (fun _ _ => keeps_sound) rfl (by decide +kernel)

theorem not_stuck_sample :
    ((netAfter everyone callRun).page 0).sent.length = 1 ∧
    ((netAfter everyone callRun).page 1).sent.length = 1 ∧
    ((netAfter everyone callRun).page 0).isNegotiatingRef = false := by
  have hrun : (exec (net everyone CamWire.from_str) .initial callRun).any (fun n =>
      (List.range 2).all (atRest n) && (n.page 0).mounted &&
        decide ((n.page 0).sent.length = 1) && decide ((n.page 1).sent.length = 1)) = true := by
    decide +kernel
  obtain ⟨n, hexec, hcheck⟩ := (Option.any_eq_true _ _).mp hrun
  have hn : netAfter everyone callRun = n := after_eq hexec
  have hkeeps := callRun_keeps
  simp only [Bool.and_eq_true, decide_eq_true_eq] at hcheck
  obtain ⟨⟨⟨hrest, hm⟩, h₀⟩, h₁⟩ := hcheck
  rw [hn] at hkeeps ⊢
  exact ⟨h₀, h₁, not_stuck decodesFrames_from_str hkeeps
    (quiescent_of_run hexec (by decide) hrest) hm⟩

end CamStuck
