import WebRtcCam.CamDrainProofs
import WebRtcCam.CamAgreeProofs
import WebRtcCam.CamButtonProofs

/-! # A call gets through

    Two pages that are there for each other, nothing on its way between them, and the
    button pressed at one of them.  If from then on nobody does anything any more, and
    no operation of a connection is rejected, the call is set up, in whatever order
    sessions, server and pages take their steps.  Neither connection need be stable before:
    a page whose own offer was never answered can still be called.

    From the press to the end there is exactly ONE thing: a suspended call, or a frame
    on its way (`Lies`), and it says what the connections are like (`Says`).

    * `lies_moved`, `quiet_turn`, `fulfilled_lies` — what a step does to it;
    * `says_fulfilled` — what it says after an operation;
    * `call_gets_through` — every run of such steps is bounded, and where it cannot go
      on both pages have the same two descriptions. -/

namespace CamCall

open LtsRun JsonText CamWire CamNet CamHonest CamPending CamNegotiation CamMail CamStuck
open CamAgree CamDrain CamTrail
open CamRelay (Addr Relay WebSocketSession ServerMsg)
open CamPage (Page Received Call Vars)
open RtcSignaling (PcOp Desc SdpType Pc)

/-! ## Who is there -/

/-- The page is mounted, and its session runs and is registered. -/
structure There (n : Net) (p : Addr) : Prop where
  mounted : (n.page p).mounted = true
  running : (session n.relay p).phase = .running
  registered : n.relay.sessions (session n.relay p).id = some p

/-- A step of the system's own, but no rejection. -/
def undisturbed (S : Finset Addr) (n : Net) (e : Event) : Bool :=
  own S n e &&
    match e with
    | .browser _ (.settle .rejected) => false
    | _ => true

section Relay

variable {from_str : String → Option Message} {s s' : Relay} {d : CamRelay.Event} {p : Addr}

/-- A running session goes on running until it stops. -/
theorem running_kept (h : CamRelay.Step from_str s d s') (hd : ∀ a, d ≠ .stop a)
    (hp : (session s p).phase = .running) :
    (session s' p).phase = .running ∧ (session s' p).id = (session s p).id := by
  rcases session_step h (hd p) with ⟨hcreated, -⟩ | ⟨hphase, hid⟩
  · rw [hp] at hcreated
    cases hcreated
  · exact ⟨hphase.trans hp, hid⟩

/-- A running session that was registered still is. -/
theorem registered_kept (hr : Reachable (CamRelay.relay from_str) s)
    (h : CamRelay.Step from_str s d s') (hst : CamRelay.step from_str s d = some s')
    (hp : (session s' p).phase = .running) (hid : (session s' p).id = (session s p).id)
    (hreg : s.sessions (session s p).id = some p) : s'.sessions (session s' p).id = some p := by
  have hr' : Reachable (CamRelay.relay from_str) s' := .step hr trivial hst
  have hmem := ((CamRouting.registry_reachable hr).entry _ _).mp hreg
  rw [hid, (CamRouting.registry_reachable hr').entry]
  refine ⟨CamRouting.Step.handled_mono h hmem.1, fun hun => ?_⟩
  -- only a session that has stopped is unregistered
  obtain ⟨y, hy, -, hstop⟩ :=
    CamRouting.handled_unregister (CamRelay.pairFifo_reachable hr') hun
  rw [session_some hy, hstop] at hp
  cases hp

end Relay

section Steps

variable {from_str : String → Option Message} {C : Net → Event → Prop} {S : Finset Addr}
  {n n' : Net} {e : Event} {p : Addr}

theorem There.session_some (h : There n p) : ∃ x, n.relay.actor p = some x ∧
    x.phase = .running ∧ n.relay.sessions x.id = some p := by
  have hrun := h.running
  have hreg := h.registered
  cases hx : n.relay.actor p with
  | none =>
      rw [session, hx] at hrun
      cases hrun
  | some x =>
      rw [CamMail.session_some hx] at hrun hreg
      exact ⟨x, rfl, hrun, hreg⟩

/-- A page that is there has a connection. -/
theorem There.connected (hreach : ReachVia (net everyone from_str) C n) (h : There n p) :
    (n.page p).peerConnectionRef.isSome = true := by
  obtain ⟨x, hx, -, -⟩ := h.session_some
  refine (CamClosure.mountRender_reachable (page_reachable p hreach)).connected ?_
  refine (orderly_reachVia hreach).opened p rfl ?_
  rw [hx]
  exact Option.some_ne_none x

/-- Whoever is there stays there. -/
theorem there_step (hreach : ReachVia (net everyone from_str) C n)
    (hown : undisturbed S n e = true) (h : Step everyone from_str n e n') (hi : There n p) :
    There n' p := by
  obtain ⟨hown, -⟩ := Bool.and_eq_true_iff.mp hown
  obtain ⟨-, hkind⟩ := Bool.and_eq_true_iff.mp hown
  have hrelay : ∀ d r, (∀ a, d ≠ .stop a) → CamRelay.step from_str n.relay d = some r →
      (session r p).phase = .running ∧ r.sessions (session r p).id = some p := by
    intro d r hd hst
    obtain ⟨hrun, hid⟩ := running_kept (CamRelay.step_cases hst) hd hi.running
    exact ⟨hrun, registered_kept (relay_reachable hreach) (CamRelay.step_cases hst) hst hrun hid
      hi.registered⟩
  have hpage : ∀ a d s, CamPage.step (n.page a) d = some s → d ≠ .unmount →
      (Function.update n.page a s p).mounted = true := by
    intro a d s hs hd
    by_cases hpa : p = a
    · rw [← hpa] at hs
      rw [← hpa, Function.update_self]
      exact CamClosure.mounted_kept hs hd
    · rw [Function.update_of_ne hpa]
      exact hi.mounted
  cases h with
  | @server d r _ hst =>
      obtain ⟨hrun, hreg⟩ := hrelay d r (by rintro a rfl; cases hkind) hst
      exact ⟨hi.mounted, hrun, hreg⟩
  | @browser a d s _ _ hs =>
      exact ⟨hpage a d s hs (by rintro rfl; cases hkind), hi.running, hi.registered⟩
  | @upload a f r _ _ hst =>
      obtain ⟨hrun, hreg⟩ := hrelay _ r (fun _ h => (by cases h)) hst
      exact ⟨hi.mounted, hrun, hreg⟩
  | @download a x t s _ _ _ hs =>
      exact ⟨hpage a _ s hs (fun h => (by cases h)), hi.running, hi.registered⟩

end Steps

/-! ## The one thing there is -/

/-- Page `p` has `suspended` on its chain and page `q` nothing; `way` is on its way from
    `p` to `q`, and nothing from `q` to `p`. -/
structure Lies (n : Net) (p q : Addr) (suspended : List (PcOp Json × Call)) (way : List Json) :
    Prop where
  chain : (n.page p).chain = suspended
  idle : (n.page q).chain = []
  forth : outgoing n p ++ incoming n q = way
  back : outgoing n q ++ incoming n p = []

/-- The connection can make an offer: it is stable, or an offer of its own has had no
    answer. -/
def CanOffer (pc : Pc) : Prop :=
  pc.signalingState = .stable ∨ pc.signalingState = .haveLocalOffer

/-- The connection can take an offer, if need be in place of one that is pending. -/
def CanTake (pc : Pc) : Prop :=
  pc.signalingState = .stable ∨ pc.signalingState = .haveRemoteOffer
    ∨ pc.signalingState = .haveLocalOffer

theorem senderless_canOffer : Senderless CanOffer := by
  intro pc pc' h hQ
  rw [CanOffer, h.state]
  exact hQ

theorem senderless_canTake : Senderless CanTake := by
  intro pc pc' h hQ
  rw [CanTake, h.state]
  exact hQ

/-- What the one thing says of the connections of the caller `A` and the callee `B`. -/
inductive Says (ids : Addr → String) (A B : Addr) (page : Addr → Page) :
    Addr → Addr → List (PcOp Json × Call) → List Json → Prop where
  | creating {env : Vars} : truthy env.clientId = true → env.peerId = .str (ids B) →
      Has CanOffer (page A) → Has CanTake (page B) →
      Says ids A B page A B [(.createOffer, .offerCreated env)] []
  | setting {env : Vars} {o : Desc} : truthy env.clientId = true → env.peerId = .str (ids B) →
      o.type = .offer → Has CanOffer (page A) → Has CanTake (page B) →
      Says ids A B page A B [(.setLocalDescription o, .offerApplied env o)] []
  | offered {f : Frame} : f.sender = ids A → f.dest = ids B → f.desc.type = .offer →
      Has (Offers f.desc) (page A) → Has CanTake (page B) →
      Says ids A B page A B [] [f.json]
  | applying {env : Vars} {m : Received} {f : Frame} : truthy env.clientId = true →
      m.data = f.json → f.sender = ids A → f.desc.type = .offer →
      Has (Offers f.desc) (page A) → Has CanTake (page B) →
      Says ids A B page B A [(.setRemoteDescription f.desc, .remoteApplied env m true)] []
  | answering {env : Vars} {m : Received} {f : Frame} : truthy env.clientId = true →
      m.data = f.json → f.sender = ids A → f.desc.type = .offer →
      Has (Offers f.desc) (page A) → Has (Offered f.desc) (page B) →
      Says ids A B page B A [(.createAnswer, .answerCreated env m)] []
  | replying {env : Vars} {m : Received} {f : Frame} {d : Desc} : truthy env.clientId = true →
      m.data = f.json → f.sender = ids A → f.desc.type = .offer → d.type = .answer →
      Has (Offers f.desc) (page A) → Has (Offered f.desc) (page B) →
      Says ids A B page B A [(.setLocalDescription d, .answerApplied env m d)] []
  | answered {o : Desc} {g : Frame} : g.dest = ids A → o.type = .offer →
      g.desc.type = .answer → Has (Offers o) (page A) → Has (Ended g.desc o) (page B) →
      (page B).isNegotiatingRef = false → Says ids A B page B A [] [g.json]
  | accepting {env : Vars} {m : Received} {o d : Desc} : o.type = .offer → d.type = .answer →
      Has (Offers o) (page A) → Has (Ended d o) (page B) →
      (page B).isNegotiatingRef = false →
      Says ids A B page A B [(.setRemoteDescription d, .remoteApplied env m false)] []
  | agreed {o d : Desc} : o.type = .offer → d.type = .answer → Has (Ended o d) (page A) →
      Has (Ended d o) (page B) → (page A).isNegotiatingRef = false →
      (page B).isNegotiatingRef = false → Says ids A B page A B [] []

section Says

variable {ids : Addr → String} {A B p q : Addr} {page page' : Addr → Page}
  {suspended : List (PcOp Json × Call)} {way : List Json}

/-- It says the same as long as connections and flags are the same. -/
theorem Says.later (h : Says ids A B page p q suspended way) (hrem : Remembers page page')
    (hflag : ∀ c, (page' c).isNegotiatingRef = (page c).isNegotiatingRef) :
    Says ids A B page' p q suspended way := by
  have hcan : ∀ c, Has CanOffer (page c) → Has CanOffer (page' c) :=
    fun c => hrem c _ senderless_canOffer
  have htake : ∀ c, Has CanTake (page c) → Has CanTake (page' c) :=
    fun c => hrem c _ senderless_canTake
  have hoffers : ∀ c d, Has (Offers d) (page c) → Has (Offers d) (page' c) :=
    fun c d => hrem c _ (senderless_offers d)
  have hoffered : ∀ c d, Has (Offered d) (page c) → Has (Offered d) (page' c) :=
    fun c d => hrem c _ (senderless_offered d)
  have hended : ∀ c l r, Has (Ended l r) (page c) → Has (Ended l r) (page' c) :=
    fun c l r => hrem c _ (senderless_ended l r)
  cases h with
  | creating hid hpeer hA hB => exact .creating hid hpeer (hcan A hA) (htake B hB)
  | setting hid hpeer ho hA hB => exact .setting hid hpeer ho (hcan A hA) (htake B hB)
  | offered hs hd ho hA hB => exact .offered hs hd ho (hoffers A _ hA) (htake B hB)
  | applying hid hm hs ho hA hB =>
      exact .applying hid hm hs ho (hoffers A _ hA) (htake B hB)
  | answering hid hm hs ho hA hB =>
      exact .answering hid hm hs ho (hoffers A _ hA) (hoffered B _ hB)
  | replying hid hm hs ho hd hA hB =>
      exact .replying hid hm hs ho hd (hoffers A _ hA) (hoffered B _ hB)
  | answered hd ho hans hA hB hf =>
      exact .answered hd ho hans (hoffers A _ hA) (hended B _ _ hB) ((hflag B).trans hf)
  | accepting ho hans hA hB hf =>
      exact .accepting ho hans (hoffers A _ hA) (hended B _ _ hB) ((hflag B).trans hf)
  | agreed ho hans hA hB hfA hfB =>
      exact .agreed ho hans (hended A _ _ hA) (hended B _ _ hB) ((hflag A).trans hfA)
        ((hflag B).trans hfB)

/-- It is between the two pages. -/
theorem Says.ends (h : Says ids A B page p q suspended way) :
    (p = A ∧ q = B) ∨ (p = B ∧ q = A) := by
  cases h with
  | applying => exact Or.inr ⟨rfl, rfl⟩
  | answering => exact Or.inr ⟨rfl, rfl⟩
  | replying => exact Or.inr ⟨rfl, rfl⟩
  | answered => exact Or.inr ⟨rfl, rfl⟩
  | _ => exact Or.inl ⟨rfl, rfl⟩

/-- What is on its way is one frame for the page at the end of it. -/
theorem Says.way_frame (h : Says ids A B page p q suspended way) {j : Json} (hj : j ∈ way) :
    ∃ f : Frame, way = [f.json] ∧ j = f.json ∧ f.dest = ids q ∧ suspended = [] := by
  cases h with
  | offered _ hd => exact ⟨_, rfl, List.mem_singleton.mp hj, hd, rfl⟩
  | answered hd => exact ⟨_, rfl, List.mem_singleton.mp hj, hd, rfl⟩
  | _ => cases hj

theorem Says.alone (h : Says ids A B page p q suspended way) {x : PcOp Json × Call}
    {rest : List (PcOp Json × Call)} (hs : suspended = x :: rest) : rest = [] ∧ way = [] := by
  cases h with
  | offered => cases hs
  | answered => cases hs
  | agreed => cases hs
  | _ =>
      cases hs
      exact ⟨rfl, rfl⟩

end Says

/-! ## What a step does to it -/

section Moving

variable {from_str : String → Option Message} {C : Net → Event → Prop} {S : Finset Addr}
  {ids : Addr → String} {A B p q c : Addr} {n n' : Net} {e : Event} {d : CamPage.Event}
  {l : List Json} {suspended : List (PcOp Json × Call)} {way : List Json}

/-- Between the pages it stays, or is relayed. -/
theorem lies_moved (hpq : p ≠ q) (hthere : There n q) (hq : (session n.relay q).id = ids q)
    (hown : undisturbed S n e = true) (hmoves : Moves ids n e n')
    (hturn : ∀ a d l, ¬ Turn ids n e a d l n') (he : address e = p ∨ address e = q)
    (hw : ∀ j ∈ way, ∃ f : Frame, way = [f.json] ∧ f.dest = ids q)
    (hi : Lies n p q suspended way) : n'.page = n.page ∧ Lies n' p q suspended way := by
  obtain ⟨hown, -⟩ := Bool.and_eq_true_iff.mp hown
  obtain ⟨-, hkind⟩ := Bool.and_eq_true_iff.mp hown
  have hreg := hthere.registered
  rw [hq] at hreg
  obtain ⟨houtq, hincp⟩ := List.append_eq_nil_iff.mp hi.back
  have hinc : ∀ c, n'.page = n.page → line n' c = line n c → incoming n' c = incoming n c := by
    intro c hp hl
    rw [incoming, incoming, hp, hl]
  -- what the server takes is the frame on its way from `p`
  have htaken : ∀ {a : Addr} {f : Frame}, a = p ∨ a = q →
      outgoing n a = f.json :: outgoing n' a →
      a = p ∧ f.dest = ids q ∧ way = [f.json] ∧ outgoing n' a = [] ∧ incoming n q = [] := by
    intro a f ha hout
    rcases ha with rfl | rfl
    · have hcons := hi.forth
      rw [hout] at hcons
      obtain ⟨g, hg, hdest⟩ := hw f.json (by rw [← hcons]; exact List.mem_cons_self ..)
      rw [hg] at hcons
      obtain ⟨hfg, hnil⟩ := List.cons.inj hcons
      obtain ⟨hout', hinc'⟩ := List.append_eq_nil_iff.mp hnil
      rw [frame_injective hfg]
      exact ⟨rfl, hdest, hg, hout', hinc'⟩
    · rw [houtq] at hout
      cases hout
  cases hmoves with
  | still hp ho hl =>
      refine ⟨hp, ?_, ?_, ?_, ?_⟩
      · rw [hp]; exact hi.chain
      · rw [hp]; exact hi.idle
      · rw [ho, hinc q hp (hl q)]; exact hi.forth
      · rw [ho, hinc p hp (hl p)]; exact hi.back
  | @relayed a b f rest _ hp _ hb _ _ ha ho hlb hl =>
      obtain ⟨hap, hdest, hway, hout, hincq⟩ := htaken (a := a) he ha
      obtain rfl : a = p := hap
      -- it is registered under this id, so the frame goes to `q`
      rw [hdest, hreg] at hb
      cases hb
      refine ⟨hp, ?_, ?_, ?_, ?_⟩
      · rw [hp]; exact hi.chain
      · rw [hp]; exact hi.idle
      · have hnew : incoming n' q = incoming n q ++ [f.json] := by
          rw [incoming, incoming, hp, hlb, List.append_assoc]
        rw [hout, hnew, hincq, hway]
        rfl
      · rw [ho q (Ne.symm hpq), hinc a hp (hl a hpq)]
        exact hi.back
  | @dropped a f rest _ hp _ hnone _ ha _ _ =>
      obtain ⟨-, hdest, -⟩ := htaken he ha
      rw [hdest] at hnone
      have hstop := hnone q hreg
      rw [hthere.running] at hstop
      cases hstop
  | stopped => cases hkind
  | turn ht => exact absurd ht (hturn _ _ _)

/-- A turn of the system's own is a render, a flush or an arrival, or an operation is
    fulfilled. -/
theorem own_turn (hown : undisturbed S n e = true) (ht : Turn ids n e c d l n') :
    (d = .render ∨ d = .flushEffects ∨ ∃ data, d = .message data) ∨
      ∃ sdp sections, d = .settle (.fulfilled sdp sections) := by
  obtain ⟨hown, hnot⟩ := Bool.and_eq_true_iff.mp hown
  obtain ⟨-, hkind⟩ := Bool.and_eq_true_iff.mp hown
  rcases ht.event with ⟨rfl, hm⟩ | ⟨rfl, hm⟩
  · cases d with
    | render => exact Or.inl (Or.inl rfl)
    | flushEffects => exact Or.inl (Or.inr (Or.inl rfl))
    | settle o =>
        cases o with
        | rejected => cases hnot
        | fulfilled sdp sections => exact Or.inr ⟨sdp, sections, rfl⟩
    | message => cases hm
    | _ => cases hkind
  · cases d with
    | message data => exact Or.inl (Or.inr (Or.inr ⟨data, rfl⟩))
    | _ => cases hm

/-- With at most one frame coming, a render, a flush or an arrival hands it over to
    `handleSDPMessage`, or changes nothing. -/
theorem quiet_turn (hreach : ReachVia (net everyone from_str) C n) (htrust : Trusty ids n)
    (hthere : There n c) (ht : Turn ids n e c d l n')
    (hd : d = .render ∨ d = .flushEffects ∨ ∃ data, d = .message data)
    (hinc : ∀ j ∈ incoming n c, ∃ f : Frame, incoming n c = [f.json]) :
    (n'.page c).isNegotiatingRef = (n.page c).isNegotiatingRef ∧
      outgoing n' c = outgoing n c ∧
      (((n'.page c).chain = (n.page c).chain ∧ incoming n' c = incoming n c) ∨
        ∃ (env : Vars) (m : Received) (f : Frame), truthy env.clientId = true ∧
          m.data = f.json ∧ incoming n c = [f.json] ∧ incoming n' c = [] ∧
          (n'.page c).chain = (n.page c).chain ++
            [(.setRemoteDescription f.desc, .remoteApplied env m (f.desc.type = .offer))]) := by
  have hr := page_reachable c hreach
  have hsome := hthere.connected hreach
  have hne : ∀ sdp sections, d ≠ .settle (.fulfilled sdp sections) := by
    rintro sdp sections rfl
    rcases hd with hd | hd | ⟨_, hd⟩ <;> cases hd
  have hout := quiet_out hreach ht hne
  cases turned hr ht.step ht.line with
  | @handed m rest hh hbox hbefore hafter =>
      obtain ⟨f, hf⟩ := hinc m.data (by rw [hbefore]; exact List.mem_cons_self ..)
      rw [hf] at hbefore
      obtain ⟨hm, hnil⟩ := List.cons.inj hbefore
      obtain ⟨hchain, hflag, -, -⟩ := handed_step hr (htrust.pages c) hh hm.symm ht.step
      refine ⟨hflag, hout, Or.inr ⟨_, m, f, (handed_some hh).2.1, hm.symm, hf, ?_, hchain⟩⟩
      rw [hafter]
      exact (List.append_eq_nil_iff.mp hnil.symm).2
  | @same _ heq hflush =>
      -- nothing is handed over, so the chain is the same
      have htalk : SameTalk (n.page c) (n'.page c) := by
        cases step_negotiates hr ht.step with
        | idle _ htalk _ => exact htalk
        | mounts _ hnone _ _ => rw [hnone] at hsome; cases hsome
        | offers => rcases hd with hd | hd | ⟨_, hd⟩ <;> cases hd
        | handles hm hid hdue =>
            have hh := hflush rfl
            rw [handed, if_pos ⟨hdue, hid⟩, hm] at hh
            cases hh
        | fails hm hid hdue =>
            have hh := hflush rfl
            rw [handed, if_pos ⟨hdue, hid⟩, hm] at hh
            cases hh
        | candidate _ _ _ hchain =>
            rw [civil_chain ht.civil ht.step] at hchain
            exact absurd (List.self_eq_append_right.mp hchain) (List.cons_ne_nil _ _)
        | rejected => rcases hd with hd | hd | ⟨_, hd⟩ <;> cases hd
        | fulfilled => exact absurd rfl (hne _ _)
        | unmount => rcases hd with hd | hd | ⟨_, hd⟩ <;> cases hd
      exact ⟨htalk.flag, hout, Or.inl ⟨htalk.chain, heq⟩⟩
  | @arrived j _ hbefore hafter =>
      obtain ⟨f, hf⟩ := hinc j (by rw [hbefore]; simp)
      -- the slot is empty
      have hempty : inbox (n.page c) = [] := by
        have hlen := congrArg List.length hbefore
        simp only [hf, List.length_append, List.length_map, List.length_cons,
          List.length_nil] at hlen
        exact List.eq_nil_of_length_eq_zero (by omega)
      have hnone : handed (n.page c) = none := by
        cases hh : handed (n.page c) with
        | none => rfl
        | some m =>
            obtain ⟨rest, hrest⟩ := inbox_handed hh
            rw [hempty] at hrest
            cases hrest
      rw [hempty] at hbefore
      rw [hnone] at hafter
      have htalk : SameTalk (n.page c) (n'.page c) := by
        cases step_negotiates hr ht.step with
        | idle _ htalk _ => exact htalk
        | candidate _ _ _ hchain =>
            rw [civil_chain ht.civil ht.step] at hchain
            exact absurd (List.self_eq_append_right.mp hchain) (List.cons_ne_nil _ _)
      exact ⟨htalk.flag, hout, Or.inl ⟨htalk.chain, hafter.trans hbefore.symm⟩⟩

/-- The call that is suspended goes on, or sends something; nothing else is left. -/
theorem fulfilled_lies (hpq : p ≠ q) (hreach : ReachVia (net everyone from_str) C n)
    (hthere : There n p) {sdp : String} {sections : List RtcSignaling.Kind}
    (ht : Turn ids n e p (.settle (.fulfilled sdp sections)) l n') {pc pc' : Pc}
    {op : PcOp Json} {call : Call} {states : List RtcSignaling.SignalingState}
    (hful : Fulfilled (n.page p) (n'.page p) sdp sections pc pc' op call [] states)
    (hi : Lies n p q [(op, call)] []) : Lies n' p q (followUp sdp call) (frames call) := by
  obtain ⟨hout, hincq⟩ := List.append_eq_nil_iff.mp hi.forth
  obtain ⟨houtq, hincp⟩ := List.append_eq_nil_iff.mp hi.back
  obtain ⟨hpageq, houtq', hincq'⟩ := turn_other hpq ht
  have hl : l = frames call := List.append_cancel_left (ht.sent.symm.trans hful.sent)
  have hlive : (session n.relay p).phase ≠ .stopped := by
    rw [hthere.running]
    intro h
    cases h
  have hincp' : incoming n' p = [] := by
    have hsub := (turned (page_reachable p hreach) ht.step ht.line).sublist
    rw [hincp] at hsub
    exact List.sublist_nil.mp hsub
  refine ⟨hful.rest, ?_, ?_, ?_⟩
  · rw [hpageq]
    exact hi.idle
  · rw [ht.out, hout, hincq', hincq, if_neg hlive, hl, List.append_nil]
    rfl
  · rw [houtq', houtq, hincp']
    rfl

/-- What it says once the operation is fulfilled. -/
theorem says_fulfilled (hAB : A ≠ B) (htrust : Trusty ids n)
    (hother : ∀ c, c ≠ p → n'.page c = n.page c) {sdp : String}
    {sections : List RtcSignaling.Kind} {pc pc' : Pc} {op : PcOp Json} {call : Call}
    {states : List RtcSignaling.SignalingState} (hmatch : Matches op call)
    (hful : Fulfilled (n.page p) (n'.page p) sdp sections pc pc' op call [] states)
    (hi : Says ids A B n.page p q [(op, call)] []) :
    Says ids A B n'.page p q (followUp sdp call) (frames call) := by
  have hgood : CamHonest.GoodCall (ids p) call :=
    (htrust.pages p).calls (op, call) (by rw [hful.chain]; exact List.mem_cons_self ..)
  have hbefore : ∀ {Q : Pc → Prop}, Has Q (n.page p) → Q pc := by
    intro Q hQ
    obtain ⟨pc₁, hpc₁, hq⟩ := hQ hful.mounted
    cases hpc₁.symm.trans hful.before
    exact hq
  have hafter : ∀ {Q : Pc → Prop}, Q pc' → Has Q (n'.page p) :=
    fun hQ _ => ⟨pc', hful.after, hQ⟩
  have hperf := hful.perform
  cases hi with
  | creating hid hpeer hA hB =>
      obtain ⟨rfl, -⟩ := RtcSignaling.perform_createOffer hperf
      rw [← hother B (Ne.symm hAB)] at hB
      exact .setting hid hpeer rfl (hafter (hbefore hA)) hB
  | @setting env o hid hpeer ho hA hB =>
      obtain ⟨hst, hpend, -⟩ := RtcSignaling.perform_localOffer ho hperf
      obtain ⟨f, hf, hsender, hfrom⟩ :=
        frames_of_known hgood hmatch (Or.inl ⟨o, rfl⟩) hid
      rcases hfrom with ⟨_, _, hcall, rfl, hdest⟩ | ⟨_, _, _, hcall, -⟩
      · cases hcall
        rw [hpeer] at hdest
        rw [CamExact.frames_singleton hf]
        rw [← hother B (Ne.symm hAB)] at hB
        exact .offered hsender (Json.text_inj hdest).symm ho (hafter ⟨hst, hpend⟩) hB
      · cases hcall
  | applying hid hm hs ho hA _ =>
      obtain ⟨hst, hpend, -⟩ := RtcSignaling.perform_remoteOffer ho hperf
      rw [← hother A hAB] at hA
      exact .answering hid hm hs ho hA (hafter ⟨hst, hpend⟩)
  | answering hid hm hs ho hA hB =>
      obtain ⟨rfl, -⟩ := RtcSignaling.perform_createAnswer hperf
      rw [← hother A hAB] at hA
      exact .replying hid hm hs ho rfl hA (hafter (hbefore hB))
  | @replying env m f d hid hm hs ho hd hA hB =>
      obtain ⟨rfl, hann, -⟩ := RtcSignaling.perform_localAnswer hd hperf
      obtain ⟨g, hg, -, hfrom⟩ :=
        frames_of_known hgood hmatch (Or.inr ⟨m, d, rfl⟩) hid
      rcases hfrom with ⟨_, _, hcall, -⟩ | ⟨_, _, _, hcall, rfl, hdest⟩
      · cases hcall
      · cases hcall
        rw [hm, f.json_from, hs] at hdest
        rw [CamExact.frames_singleton hg]
        rw [← hother A hAB] at hA
        refine .answered (Json.text_inj (Option.some.inj hdest)).symm ho hd hA
          (hafter ⟨rfl, rfl, (hbefore hB).2⟩) ?_
        rw [hful.flag]
        simp [raises, hann]
  | accepting ho hd hA hB hf =>
      obtain ⟨rfl, hann, -⟩ := RtcSignaling.perform_remoteAnswer hd hperf
      rw [← hother B (Ne.symm hAB)] at hB hf
      refine .agreed ho hd (hafter ⟨rfl, (hbefore hA).2, rfl⟩) hB ?_ hf
      rw [hful.flag]
      simp [raises, hann]

/-- There is exactly one thing, and it says what it says. -/
def Stage (ids : Addr → String) (A B : Addr) (n : Net) : Prop :=
  ∃ p q suspended way, Lies n p q suspended way ∧ Says ids A B n.page p q suspended way

/-- A frame that is handed over is handled. -/
theorem says_handed {env : Vars} {m : Received} {f : Frame} (hid : truthy env.clientId = true)
    (hm : m.data = f.json) (h : Says ids A B n.page p q [] [f.json]) :
    Says ids A B n.page q p
      [(.setRemoteDescription f.desc, .remoteApplied env m (f.desc.type = .offer))] [] := by
  generalize hway : [f.json] = way at h
  cases h with
  | @offered g hs _ ho hA hB =>
      cases frame_injective (List.cons.inj hway).1
      rw [decide_eq_true ho]
      exact .applying hid hm hs ho hA hB
  | @answered o g _ ho hd hA hB hf =>
      cases frame_injective (List.cons.inj hway).1
      have hno : f.desc.type ≠ .offer := by
        rw [hd]
        intro h
        cases h
      rw [decide_eq_false hno]
      exact .accepting ho hd hA hB hf
  | agreed => cases hway

/-- The own steps at two addresses are at one of them. -/
theorem own_address (hown : undisturbed {A, B} n e = true) : address e = A ∨ address e = B := by
  obtain ⟨hmem, -⟩ := Bool.and_eq_true_iff.mp (Bool.and_eq_true_iff.mp hown).1
  have hmem := Finset.mem_insert.mp (of_decide_eq_true hmem)
  rwa [Finset.mem_singleton] at hmem

/-- Between the pages it is where it was, for both of them. -/
theorem says_moved (hAB : A ≠ B) (hn : Named ids n) (hA : There n A) (hB : There n B)
    (hown : undisturbed {A, B} n e = true) (hmoves : Moves ids n e n')
    (hturn : ∀ a d l, ¬ Turn ids n e a d l n') (hlies : Lies n p q suspended way)
    (hsay : Says ids A B n.page p q suspended way) :
    n'.page = n.page ∧ Lies n' p q suspended way := by
  have hends : p ≠ q ∧ There n q ∧ (address e = p ∨ address e = q) := by
    rcases hsay.ends with ⟨rfl, rfl⟩ | ⟨rfl, rfl⟩
    · exact ⟨hAB, hB, own_address hown⟩
    · exact ⟨Ne.symm hAB, hA, (own_address hown).symm⟩
  have hids : (session n.relay q).id = ids q := by
    obtain ⟨y, hy, -⟩ := hends.2.1.session_some
    rw [session_some hy, hn q y hy]
  refine lies_moved hends.1 hends.2.1 hids hown hmoves hturn hends.2.2 (fun j hj => ?_) hlies
  obtain ⟨f, hway, -, hdest, -⟩ := hsay.way_frame hj
  exact ⟨f, hway, hdest⟩

/-- **ONE STEP** of the system's own. -/
theorem stage_step (hAB : A ≠ B) (hreach : ReachVia (net everyone from_str) C n)
    (hn : Named ids n) (htrust : Trusty ids n) (hA : There n A) (hB : There n B)
    (hown : undisturbed {A, B} n e = true) (hmoves : Moves ids n e n')
    (hi : Stage ids A B n) : Stage ids A B n' := by
  obtain ⟨p, q, suspended, way, hlies, hsays⟩ := hi
  -- the two ends are the two pages
  have hends : p ≠ q ∧ (There n p ∧ There n q) ∧ (address e = p ∨ address e = q) := by
    rcases hsays.ends with ⟨rfl, rfl⟩ | ⟨rfl, rfl⟩
    · exact ⟨hAB, ⟨hA, hB⟩, own_address hown⟩
    · exact ⟨Ne.symm hAB, ⟨hB, hA⟩, (own_address hown).symm⟩
  obtain ⟨hpq, hthere, haddr⟩ := hends
  obtain ⟨houtq, hincp⟩ := List.append_eq_nil_iff.mp hlies.back
  by_cases hturn : ∃ a d l, Turn ids n e a d l n'
  · obtain ⟨a, d, l, ht⟩ := hturn
    have ha : a = p ∨ a = q := by
      rcases ht.event with ⟨rfl, -⟩ | ⟨rfl, -⟩ <;> exact haddr
    rcases own_turn hown ht with hd | ⟨sdp, sections, rfl⟩
    · have hne : ∀ sdp sections, d ≠ .settle (.fulfilled sdp sections) := by
        rintro sdp sections rfl
        rcases hd with hd | hd | ⟨_, hd⟩ <;> cases hd
      have hrem := turn_remembers hreach ht hne
      have hkept : (n'.page a).isNegotiatingRef = (n.page a).isNegotiatingRef →
          ∀ c, (n'.page c).isNegotiatingRef = (n.page c).isNegotiatingRef := by
        intro hflag c
        by_cases hc : c = a
        · rw [hc]
          exact hflag
        · rw [ht.pages c hc]
      rcases ha with rfl | rfl
      · -- nothing is coming to this page
        obtain ⟨hflag, hout, hsame⟩ := quiet_turn hreach htrust hthere.1 ht hd
          (fun j hj => by rw [hincp] at hj; cases hj)
        obtain ⟨hpageq, houtq', hincq'⟩ := turn_other hpq ht
        rcases hsame with ⟨hchain, hinc⟩ | ⟨_, _, _, -, -, hone, -⟩
        · refine ⟨a, q, suspended, way, ⟨?_, ?_, ?_, ?_⟩, hsays.later hrem (hkept hflag)⟩
          · rw [hchain]; exact hlies.chain
          · rw [hpageq]; exact hlies.idle
          · rw [hout, hincq']; exact hlies.forth
          · rw [houtq', hinc]; exact hlies.back
        · rw [hincp] at hone
          cases hone
      · have hone : ∀ j ∈ incoming n a, ∃ f : Frame, incoming n a = [f.json] := by
          intro j hj
          have hforth := hlies.forth
          obtain ⟨f, hway, -⟩ := hsays.way_frame
            (by rw [← hforth]; exact List.mem_append_right _ hj)
          rw [hway] at hforth
          rcases List.append_eq_singleton_iff.mp hforth with ⟨-, hinc⟩ | ⟨-, hinc⟩
          · exact ⟨f, hinc⟩
          · rw [hinc] at hj
            cases hj
        obtain ⟨hflag, hout, hsame⟩ := quiet_turn hreach htrust hthere.2 ht hd hone
        obtain ⟨hpagep, houtp', hincp'⟩ := turn_other (Ne.symm hpq) ht
        rcases hsame with ⟨hchain, hinc⟩ | ⟨env, m, f, hid, hm, hinc, hinc', hchain⟩
        · refine ⟨p, a, suspended, way, ⟨?_, ?_, ?_, ?_⟩, hsays.later hrem (hkept hflag)⟩
          · rw [hpagep]; exact hlies.chain
          · rw [hchain]; exact hlies.idle
          · rw [houtp', hinc]; exact hlies.forth
          · rw [hout, hincp']; exact hlies.back
        · -- the frame is handed over
          have hforth := hlies.forth
          rw [hinc] at hforth
          obtain ⟨g, hway, hfg, -, hnone⟩ := hsays.way_frame (j := f.json)
            (by rw [← hforth]; simp)
          rw [hway, hfg] at hforth
          have houtp : outgoing n p = [] :=
            List.append_cancel_right (hforth.trans (List.nil_append _).symm)
          rw [hway, ← hfg, hnone] at hsays
          refine ⟨a, p, _, [], ⟨?_, ?_, ?_, ?_⟩,
            (says_handed hid hm hsays).later hrem (hkept hflag)⟩
          · rw [hchain, hlies.idle]
            rfl
          · rw [hpagep, hlies.chain, hnone]
          · rw [hout, houtq, hincp', hincp]
            rfl
          · rw [houtp', houtp, hinc']
            rfl
    · obtain ⟨pc, pc', op, call, rest, states, hful⟩ := step_fulfilled ht.step
      rcases ha with rfl | rfl
      · have hchain := hlies.chain.symm.trans hful.chain
        obtain ⟨rfl, rfl⟩ := hsays.alone hchain
        rw [hchain] at hlies hsays
        have hmatch := hful.matches (page_reachable a hreach)
        exact ⟨a, q, _, _, fulfilled_lies hpq hreach hthere.1 ht hful hlies,
          says_fulfilled hAB htrust ht.pages hmatch hful hsays⟩
      · have hidle := hlies.idle
        rw [hful.chain] at hidle
        cases hidle
  · obtain ⟨hpage, hlies'⟩ := says_moved hAB hn hA hB hown hmoves
      (fun a d l ht => hturn ⟨a, d, l, ht⟩) hlies hsays
    refine ⟨p, q, suspended, way, hlies', ?_⟩
    rw [hpage]
    exact hsays

end Moving

/-! ## The press, and the end -/

/-- Page `A` may call page `B`: both are there, with connections that can make the offer and
    take it, and nothing on its way between them; the caller knows its own id and that of
    the callee, and its flag is down.  The flag of the callee may be up. -/
structure MayCall (A B : Addr) (n : Net) : Prop where
  caller : There n A
  callee : There n B
  clear : load A B n = 0
  offers : Has CanOffer (n.page A)
  takes : Has CanTake (n.page B)
  known : truthy (n.page A).vars.clientId = true
  peer : peers n A B = true
  flag : (n.page A).isNegotiatingRef = false

section Ends

variable {from_str : String → Option Message} {C : Net → Event → Prop}
  {ids : Addr → String} {A B p q : Addr} {n m : Net}

theorem has_of_signaling {s : Page} {st : RtcSignaling.SignalingState} {Q : Pc → Prop}
    (h : s.signaling = some st) (hQ : ∀ pc : Pc, pc.signalingState = st → Q pc) :
    Has Q s := by
  intro _
  obtain ⟨pc, hpc, hst⟩ := Option.map_eq_some_iff.mp h
  exact ⟨pc, hpc, hQ pc hst⟩

theorem has_of_ended {s : Page} {l r : Desc} {Q : Pc → Prop} (h : Has (Ended l r) s)
    (hQ : ∀ pc : Pc, pc.signalingState = .stable → Q pc) : Has Q s := by
  intro hm
  obtain ⟨pc, hpc, hst, -⟩ := h hm
  exact ⟨pc, hpc, hQ pc hst⟩

theorem there_press (h : Step everyone from_str n (.browser A .press) m) (hi : There n p) :
    There m p := by
  cases h with
  | @browser _ _ s _ _ hs =>
      refine ⟨?_, hi.running, hi.registered⟩
      show (Function.update n.page A s p).mounted = true
      by_cases hpa : p = A
      · rw [hpa, Function.update_self]
        exact CamClosure.mounted_kept hs (fun h => (by cases h))
      · rw [Function.update_of_ne hpa]
        exact hi.mounted

theorem peer_named (hn : Named ids n) (h : peers n p q = true) :
    (n.page p).vars.peerId = .str (ids q) := by
  obtain ⟨y, hy, hp⟩ := (Option.any_eq_true _ _).mp h
  rw [of_decide_eq_true hp, hn q y hy]

/-- The press begins the call. -/
theorem stage_press (hAB : A ≠ B) (hreach : ReachVia (net everyone from_str) C n)
    (hn : Named ids n) (hmay : MayCall A B n)
    (hs : CamPage.step (n.page A) .press = some (m.page A))
    (hmoves : Moves ids n (.browser A .press) m) : Stage ids A B m := by
  have hr := page_reachable A hreach
  obtain ⟨heq, _, _, hpressable⟩ := CamButton.pressable hr hs
  rw [hpressable.offers hmay.flag] at heq
  -- nothing was on its way
  have hload := hmay.clear
  rw [load, weight, weight] at hload
  have hnil : outgoing n A = [] ∧ incoming n A = [] ∧ (n.page A).chain = [] ∧
      outgoing n B = [] ∧ incoming n B = [] ∧ (n.page B).chain = [] := by
    refine ⟨?_, ?_, ?_, ?_, ?_, ?_⟩ <;> refine List.eq_nil_of_length_eq_zero ?_ <;> omega
  obtain ⟨houtA, hincA, hchainA, houtB, hincB, hchainB⟩ := hnil
  have hchain : (m.page A).chain = [(.createOffer, .offerCreated (n.page A).vars)] := by
    rw [heq]
    show (n.page A).chain ++ _ = _
    rw [hchainA]
    rfl
  cases hmoves with
  | still hp =>
      rw [hp, hchainA] at hchain
      cases hchain
  | @turn _ a d l _ ht =>
      rcases ht.event with ⟨hev, -⟩ | ⟨hev, -⟩
      · cases hev
        have hne : ∀ sdp sections, CamPage.Event.press ≠ .settle (.fulfilled sdp sections) :=
          fun _ _ h => (by cases h)
        obtain ⟨hpageB, houtB', hincB'⟩ := turn_other hAB ht
        have hincA' : incoming m A = [] := by
          have hsub := (turned hr ht.step ht.line).sublist
          rw [hincA] at hsub
          exact List.sublist_nil.mp hsub
        have hstA := hmay.offers.quiet senderless_canOffer hr hs hne
        refine ⟨A, B, _, [], ⟨hchain, ?_, ?_, ?_⟩,
          .creating hmay.known (peer_named hn hmay.peer) hstA ?_⟩
        · rw [hpageB]; exact hchainB
        · rw [quiet_out hreach ht hne, houtA, hincB', hincB]
          rfl
        · rw [houtB', houtB, hincA']
          rfl
        · rw [hpageB]
          exact hmay.takes
      · cases hev

theorem step_browser {a : Addr} {d : CamPage.Event} (hm : isMessage d = false) :
    CamNet.step everyone from_str n (.browser a d)
      = (CamPage.step (n.page a) d).map (setPage n a) := by
  rw [CamNet.step, hm]
  rfl

/-- The system's own steps are undisturbed but for rejections. -/
theorem own_cases {S : Finset Addr} {e : Event} (hown : own S n e = true) :
    undisturbed S n e = true ∨ ∃ a, e = .browser a (.settle .rejected) := by
  by_cases hrej : ∃ a, e = .browser a (.settle .rejected)
  · exact Or.inr hrej
  · refine Or.inl (Bool.and_eq_true_iff.mpr ⟨hown, ?_⟩)
    split
    · exact absurd ⟨_, rfl⟩ hrej
    · rfl

/-- The operation a suspended call waits for can be performed. -/
theorem says_settles {x : PcOp Json × Call} {rest : List (PcOp Json × Call)} {way : List Json}
    (hi : Says ids A B n.page p q (x :: rest) way) (hm : (n.page p).mounted = true)
    (hchain : (n.page p).chain = x :: rest) :
    CamPage.step (n.page p) (.settle (.fulfilled "" [])) ≠ none := by
  have hperf : ∃ pc, (n.page p).peerConnectionRef = some pc ∧
      (pc.perform [] x.1).isSome = true := by
    cases hi with
    | creating _ _ hA _ =>
        obtain ⟨pc, hpc, hcan⟩ := hA hm
        exact ⟨pc, hpc, by simpa [Pc.perform, CanOffer] using hcan⟩
    | setting _ _ ho hA _ =>
        obtain ⟨pc, hpc, hcan⟩ := hA hm
        exact ⟨pc, hpc, by simpa [Pc.perform, Pc.applyLocal, ho, CanOffer] using hcan⟩
    | applying _ _ _ ho _ hB =>
        obtain ⟨pc, hpc, htake⟩ := hB hm
        exact ⟨pc, hpc, by simpa [Pc.perform, Pc.applyRemote, ho, CanTake] using htake⟩
    | answering _ _ _ _ _ hB =>
        obtain ⟨pc, hpc, hst, -⟩ := hB hm
        exact ⟨pc, hpc, by simp [Pc.perform, hst]⟩
    | replying _ _ _ _ hd _ hB =>
        obtain ⟨pc, hpc, hst, -⟩ := hB hm
        exact ⟨pc, hpc, by simp [Pc.perform, Pc.applyLocal, hd, hst]⟩
    | accepting _ hd hA _ _ =>
        obtain ⟨pc, hpc, hst, -⟩ := hA hm
        exact ⟨pc, hpc, by simp [Pc.perform, Pc.applyRemote, hd, hst]⟩
  obtain ⟨pc, hpc, hsome⟩ := hperf
  obtain ⟨⟨pc', states⟩, hr⟩ := Option.isSome_iff_exists.mp hsome
  intro hno
  rw [CamPage.step, if_neg (by rw [hm]; exact Bool.false_ne_true)] at hno
  simp only [CamPage.settle, hpc, hchain, hr] at hno
  cases hno

/-- With nothing queued and nothing due, nothing waits to be handed over. -/
theorem quiet_inbox {s : Page} (hr : Reachable CamPage.page s) (hq : CamPage.Quiet s)
    (hid : ∀ k, s.vars.pendingSDP = some k → truthy s.vars.clientId = true) :
    inbox s = [] := by
  have hnext : s.next = s.vars := by
    rw [Page.next, hq.1]
    rfl
  rw [inbox_committed (by rw [hnext]), hnext]
  cases hk : s.vars.pendingSDP with
  | none => rfl
  | some k =>
      refine absurd ?_ ((slot_reachable hr).cleared (by rw [hq.2]; simp) (hid k hk) k hk)
      rw [hnext]
      exact hk

/-- Whoever is there and at rest has nothing queued, due or suspended. -/
theorem rest_quiet (hreach : ReachVia (net everyone from_str) C n) (hthere : There n p)
    (hrest : atRest n p = true) : CamPage.Quiet (n.page p) ∧ (n.page p).chain = [] := by
  have hpc := hthere.connected hreach
  simp only [atRest, hthere.mounted, hpc, Bool.and_eq_true, Bool.or_eq_true, decide_eq_true_eq,
    List.isEmpty_iff, Bool.not_true, Bool.false_eq_true, false_or] at hrest
  exact hrest.1.1.1.1

/-- What is at rest has nothing on its way. -/
theorem rest_mail (hreach : ReachVia (net everyone from_str) C n) (hn : Named ids n)
    (htrust : Trusty ids n) (hthere : There n p) (hrest : atRest n p = true) :
    outgoing n p = [] ∧ incoming n p = [] := by
  obtain ⟨x, hx, -, -⟩ := hthere.session_some
  have hid : ∀ k, (n.page p).vars.pendingSDP = some k →
      truthy (n.page p).vars.clientId = true := by
    intro k hk
    have huuid := (CamRelay.idsDistinct_reachable (relay_reachable hreach)).uuid p x hx
    rw [((htrust.pages p).vars.pending k hk).1, truthy_str, ← hn p x hx]
    exact of_decide_eq_true (Bool.and_eq_true_iff.mp huuid).1
  refine ⟨outgoing_at_rest hrest, ?_⟩
  rw [incoming, quiet_inbox (page_reachable p hreach) (rest_quiet hreach hthere hrest).1 hid,
    line_at_rest hrest hthere.mounted]
  rfl

/-- Where nothing is possible without a rejection, nothing is left to do at either page. -/
theorem stuck_rests (hreach : ReachVia (net everyone from_str) C n) (hA : There n A)
    (hB : There n B) (hstuck : Stuck (net everyone from_str) (undisturbed {A, B}) n)
    (hi : Stage ids A B n) : atRest n A = true ∧ atRest n B = true := by
  obtain ⟨p, q, suspended, way, hlies, hsays⟩ := hi
  have hp : There n p ∧ p ∈ ({A, B} : Finset Addr) := by
    rcases hsays.ends with ⟨rfl, rfl⟩ | ⟨rfl, rfl⟩
    · exact ⟨hA, by simp⟩
    · exact ⟨hB, by simp⟩
  -- a suspended call would go on
  have hnone : suspended = [] := by
    cases suspended with
    | nil => rfl
    | cons x rest =>
        have hno := hstuck (.browser p (.settle (.fulfilled "" [])))
          (Bool.and_eq_true_iff.mpr
            ⟨Bool.and_eq_true_iff.mpr ⟨decide_eq_true hp.2, rfl⟩, rfl⟩)
        have hno : CamNet.step everyone from_str n
          (.browser p (.settle (.fulfilled "" []))) = none := hno
        rw [step_browser rfl, Option.map_eq_none_iff] at hno
        exact absurd hno (says_settles hsays hp.1.mounted hlies.chain)
  subst hnone
  -- so a rejection is not possible either
  have hall : Stuck (net everyone from_str) (own {A, B}) n := by
    intro e hown
    rcases own_cases hown with hund | ⟨a, rfl⟩
    · exact hstuck e hund
    · have hchain : (n.page a).chain = [] := by
        obtain ⟨hmem, -⟩ := Bool.and_eq_true_iff.mp hown
        have hmem : a ∈ ({A, B} : Finset Addr) := of_decide_eq_true hmem
        rw [Finset.mem_insert, Finset.mem_singleton] at hmem
        rcases hsays.ends with ⟨rfl, rfl⟩ | ⟨rfl, rfl⟩ <;> rcases hmem with rfl | rfl
        · exact hlies.chain
        · exact hlies.idle
        · exact hlies.idle
        · exact hlies.chain
      show CamNet.step everyone from_str n (.browser a (.settle .rejected)) = none
      rw [step_browser rfl, Option.map_eq_none_iff]
      have hsettle : CamPage.settle (n.page a) .rejected = none := by
        rw [CamPage.settle, hchain]
        cases (n.page a).peerConnectionRef <;> rfl
      rw [CamPage.step]
      split
      · rfl
      · exact hsettle
  exact ⟨rests_when_stuck hall hreach (by simp) rfl, rests_when_stuck hall hreach (by simp) rfl⟩

/-- **WHERE NOTHING IS POSSIBLE** the call is set up. -/
theorem stage_stuck (hreach : ReachVia (net everyone from_str) C n)
    (hn : Named ids n) (htrust : Trusty ids n) (hA : There n A) (hB : There n B)
    (hstuck : Stuck (net everyone from_str) (undisturbed {A, B}) n) (hi : Stage ids A B n) :
    Says ids A B n.page A B [] [] := by
  obtain ⟨hrestA, hrestB⟩ := stuck_rests hreach hA hB hstuck hi
  obtain ⟨p, q, suspended, way, hlies, hsays⟩ := hi
  have hrest : (There n p ∧ atRest n p = true) ∧ There n q ∧ atRest n q = true := by
    rcases hsays.ends with ⟨rfl, rfl⟩ | ⟨rfl, rfl⟩
    · exact ⟨⟨hA, hrestA⟩, hB, hrestB⟩
    · exact ⟨⟨hB, hrestB⟩, hA, hrestA⟩
  -- everything is at rest, so nothing is suspended or on its way
  obtain ⟨-, hidle⟩ := rest_quiet hreach hrest.1.1 hrest.1.2
  obtain ⟨hout, -⟩ := rest_mail hreach hn htrust hrest.1.1 hrest.1.2
  obtain ⟨-, hinc⟩ := rest_mail hreach hn htrust hrest.2.1 hrest.2.2
  have hchain := hlies.chain
  rw [hidle] at hchain
  subst hchain
  have hway := hlies.forth
  rw [hout, hinc] at hway
  subst hway
  cases hsays with
  | agreed ho hd hA hB hfA hfB => exact .agreed ho hd hA hB hfA hfB

/-- A negotiation that has ended, as the connection shows it. -/
theorem ended_outcome {s : Page} {l r : Desc} (hr : Reachable CamPage.page s)
    (hm : s.mounted = true) (h : Has (Ended l r) s) :
    outcome s = some (.stable, some l, some r) := by
  obtain ⟨pc, hpc, hst, hl, hrem⟩ := h hm
  obtain ⟨hpl, hpr⟩ := settled_reachable hr pc hpc hst
  rw [outcome, hpc, Option.map_some, Pc.localDescription, Pc.remoteDescription, hpl, hpr, hst,
    hl, hrem]
  rfl

end Ends

/-! ## Runs -/

section Runs

variable {from_str : String → Option Message} {A B : Addr} {n m : Net}

/-- What holds from the press on. -/
structure Calling (from_str : String → Option Message) (A B : Addr) (n : Net) : Prop where
  reachable : Reachable (net everyone from_str) n
  caller : There n A
  callee : There n B
  stage : ∀ ids, Named ids n → Stage ids A B n

theorem calling_press (hdec : DecodesFrames from_str) (hAB : A ≠ B)
    (h : Reachable (net everyone from_str) n) (hmay : MayCall A B n)
    (hpress : CamNet.step everyone from_str n (.browser A .press) = some m) :
    Calling from_str A B m := by
  have hst := CamNet.step_cases hpress
  have hm : Reachable (net everyone from_str) m :=
    .step (M := net everyone from_str) (e := .browser A .press) h trivial hpress
  refine ⟨hm, there_press hst hmay.caller, there_press hst hmay.callee,
    fun ids hn => ?_⟩
  have hbefore := hn.before hst
  have hpage : CamPage.step (n.page A) .press = some (m.page A) := by
    cases hst with
    | @browser _ _ s _ _ hs =>
        show _ = some (Function.update n.page A s A)
        rw [Function.update_self]
        exact hs
  exact stage_press hAB h hbefore hmay hpage (step_moves h hdec hbefore
    (closed_everyone hpress) (trusty_everyone h hbefore) hst)

theorem calling_keeping (hdec : DecodesFrames from_str) (hAB : A ≠ B) :
    Keeping (net everyone from_str) (Calling from_str A B) (undisturbed {A, B}) := by
  intro n e n' hi hown hst
  have hstep := CamNet.step_cases hst
  refine ⟨.step hi.reachable trivial hst, there_step hi.reachable hown hstep hi.caller,
    there_step hi.reachable hown hstep hi.callee, fun ids hn => ?_⟩
  have hbefore := hn.before hstep
  have htrust := trusty_everyone hi.reachable hbefore
  exact stage_step hAB hi.reachable hbefore htrust hi.caller hi.callee hown
    (step_moves hi.reachable hdec hbefore (closed_everyone hst) htrust hstep)
    (hi.stage ids hbefore)

theorem calling_lowers : Lowers (net everyone from_str) (Calling from_str A B)
    (undisturbed {A, B}) (work {A, B}) :=
  fun _ _ _ hi hown hst =>
    work_lowers hi.reachable (Bool.and_eq_true_iff.mp hown).1 (CamNet.step_cases hst)

/-- A call comes to an end. -/
theorem calling_rests (hdec : DecodesFrames from_str) (hAB : A ≠ B)
    (h : Calling from_str A B m) :
    ∃ es m', execVia (net everyone from_str) (undisturbed {A, B}) m es = some m' ∧
      Stuck (net everyone from_str) (undisturbed {A, B}) m' :=
  LtsRun.comes_to_rest (calling_keeping hdec hAB) calling_lowers _ (Nat.le_refl _) h

/-- And there both pages have the same two descriptions. -/
theorem calling_end (h : Calling from_str A B m)
    (hstuck : Stuck (net everyone from_str) (undisturbed {A, B}) m) :
    ∃ o d : Desc, o.type = .offer ∧ d.type = .answer ∧
      outcome (m.page A) = some (.stable, some o, some d) ∧
      outcome (m.page B) = some (.stable, some d, some o) ∧
      (m.page A).isNegotiatingRef = false ∧ (m.page B).isNegotiatingRef = false := by
  have hn := named_session m
  cases stage_stuck h.reachable hn (trusty_everyone h.reachable hn) h.caller h.callee hstuck
    (h.stage _ hn) with
  | agreed ho hd hA hB hfA hfB =>
      exact ⟨_, _, ho, hd, ended_outcome (page_reachable A h.reachable) h.caller.mounted hA,
        ended_outcome (page_reachable B h.reachable) h.callee.mounted hB, hfA, hfB⟩

/-- **A CALL GETS THROUGH.**  Whatever has happened before: once page `A` may call page `B`
    and presses the button, every run of the system's own steps at the two pages, without
    rejections, is no longer than the work there is; some run of them ends; and wherever
    one ends, both connections are stable, the offer of `A` and the answer of `B` are the
    two descriptions of both, and both flags are down. -/
theorem call_gets_through (hdec : DecodesFrames from_str) (hAB : A ≠ B)
    (h : Reachable (net everyone from_str) n) (hmay : MayCall A B n)
    (hpress : CamNet.step everyone from_str n (.browser A .press) = some m) :
    (∃ es m', execVia (net everyone from_str) (undisturbed {A, B}) m es = some m' ∧
      Stuck (net everyone from_str) (undisturbed {A, B}) m') ∧
    ∀ es m', execVia (net everyone from_str) (undisturbed {A, B}) m es = some m' →
      es.length ≤ work {A, B} m ∧
      (Stuck (net everyone from_str) (undisturbed {A, B}) m' →
        ∃ o d : Desc, o.type = .offer ∧ d.type = .answer ∧
          outcome (m'.page A) = some (.stable, some o, some d) ∧
          outcome (m'.page B) = some (.stable, some d, some o) ∧
          (m'.page A).isNegotiatingRef = false ∧ (m'.page B).isNegotiatingRef = false) := by
  have hstart := calling_press hdec hAB h hmay hpress
  have hkeep := calling_keeping hdec hAB
  refine ⟨calling_rests hdec hAB hstart, fun es m' hrun => ⟨?_, fun hstuck => ?_⟩⟩
  · exact Nat.le_trans (Nat.le_add_right _ _) (own_length hkeep calling_lowers es hstart hrun)
  · exact calling_end (run_keeps hkeep es hstart hrun) hstuck

/-- Page 1 could not apply the offer of page 0, which is never answered. -/
def spurnedRun : List Event :=
  CamExact.meetRun ++ [.browser 0 .press] ++ CamExact.setRun 0 "offer" ++
    CamExact.carryRun 0 1 ++ [.browser 1 (.settle .rejected)]

/-- The button of page 0 does nothing any more; the call of page 1 gets through, and frees
    it. -/
theorem call_gets_through_sample :
    ∃ (n m : Net) (es : List Event) (m' : Net) (o d : Desc),
      Reachable (net everyone CamWire.from_str) n ∧
      (n.page 0).signaling = some .haveLocalOffer ∧ (n.page 0).isNegotiatingRef = true ∧
      MayCall 1 0 n ∧ CamNet.step everyone CamWire.from_str n (.browser 1 .press) = some m ∧
      execVia (net everyone CamWire.from_str) (undisturbed {1, 0}) m es = some m' ∧
      outcome (m'.page 1) = some (.stable, some o, some d) ∧
      outcome (m'.page 0) = some (.stable, some d, some o) ∧
      (m'.page 0).isNegotiatingRef = false := by
  have hrun : (exec (net everyone CamWire.from_str) .initial spurnedRun).any (fun n =>
      (CamNet.step everyone CamWire.from_str n (.browser 1 .press)).isSome &&
      [0, 1].all (fun a => (n.page a).mounted &&
        decide ((session n.relay a).phase = .running) &&
        decide (n.relay.sessions (session n.relay a).id = some a)) &&
      decide ((n.page 1).signaling = some .stable) &&
      decide ((n.page 0).signaling = some .haveLocalOffer) &&
      decide (load 1 0 n = 0) && truthy (n.page 1).vars.clientId && peers n 1 0 &&
      !(n.page 1).isNegotiatingRef && (n.page 0).isNegotiatingRef) = true := by
    decide +kernel
  obtain ⟨n, -, hreach, hcheck⟩ := ReachVia.of_check (fun _ _ _ => trivial) rfl hrun
  simp only [Bool.and_eq_true, List.all_cons, List.all_nil, decide_eq_true_eq,
    Bool.not_eq_true', and_true] at hcheck
  obtain ⟨⟨⟨⟨⟨⟨⟨⟨hsome, ⟨⟨hm₀, hp₀⟩, hr₀⟩, ⟨hm₁, hp₁⟩, hr₁⟩, hs₁⟩, hs₀⟩, hload⟩, hid⟩,
    hpeer⟩, hflag⟩, hraised⟩ := hcheck
  obtain ⟨m, hpress⟩ := Option.isSome_iff_exists.mp hsome
  have hmay : MayCall 1 0 n :=
    ⟨⟨hm₁, hp₁, hr₁⟩, ⟨hm₀, hp₀, hr₀⟩, hload, has_of_signaling hs₁ (fun _ => Or.inl),
      has_of_signaling hs₀ (fun _ hst => Or.inr (Or.inr hst)), hid, hpeer, hflag⟩
  obtain ⟨⟨es, m', hes, hstuck⟩, hall⟩ := call_gets_through decodesFrames_from_str (by decide)
    hreach hmay hpress
  obtain ⟨o, d, -, -, ho, hd, -, hfree⟩ := (hall es m' hes).2 hstuck
  exact ⟨n, m, es, m', o, d, hreach, hs₀, hraised, hmay, hpress, hes, ho, hd, hfree⟩

end Runs

end CamCall
