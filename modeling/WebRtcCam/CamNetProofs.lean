import WebRtcCam.CamRoutingProofs
import WebRtcCam.CamHonestProofs

/-! # Pages and the relay

    The whole system: the relay, and a page behind each of its sessions.  Session
    and page share their address.  A page is HONEST if what its session receives is
    what the page sent, in order; other clients send what they like.

    * `upload` — the next frame of a page reaches its session, as the text
      `JSON.stringify` makes of it;
    * `download` — the next text on a session's socket reaches its page, which
      parses it;
    * `server`, `browser` — everything else, at either end.

    A component of a reachable state is reachable in its own system
    (`relay_reachVia`, `page_reachVia`), so that what was shown of the relay and of
    the page holds here.

    * `identity_kept` — a page goes by the id of its own session, unless another
      client sends it a welcome. -/

namespace CamNet

open LtsRun JsonText CamWire
open CamRelay (Addr Relay WebSocketSession WsFrame)
open CamPage (Page Vars Update Call)

/-- Relay, pages, and how many frames have gone up and texts come down. -/
structure Net where
  relay : Relay
  page : Addr → Page
  up : Addr → Nat
  down : Addr → Nat

inductive Event where
  | server (e : CamRelay.Event)
  | browser (a : Addr) (e : CamPage.Event)
  | upload (a : Addr)
  | download (a : Addr)
  deriving DecidableEq

def Net.initial : Net where
  relay := CamRelay.initial
  page := fun _ => .initial
  up := fun _ => 0
  down := fun _ => 0

def setPage (n : Net) (a : Addr) (s : Page) : Net :=
  { n with page := Function.update n.page a s }

/-- A message reaches a page by `download` only. -/
def isMessage : CamPage.Event → Bool
  | .message _ => true
  | _ => false

section Model

variable (honest : Addr → Bool) (from_str : String → Option Message)

/-- Text frames of an honest page come by `upload` only, and its session connects
    after the mount effect has opened the socket. -/
def serverMay (n : Net) : CamRelay.Event → Bool
  | .frame a (some (.text _)) => !honest a
  | .connect a _ => !honest a || (n.page a).mountVars.isSome
  | _ => true

/-- One step of the system. -/
def step (n : Net) : Event → Option Net
  | .server e =>
      if serverMay honest n e then
        (CamRelay.step from_str n.relay e).map (fun r => { n with relay := r })
      else none
  | .browser a e =>
      if honest a && !isMessage e then (CamPage.step (n.page a) e).map (setPage n a)
      else none
  | .upload a =>
      if honest a then
        match (n.page a).sent[n.up a]? with
        | some f =>
            (CamRelay.step from_str n.relay (.frame a (some (.text (render f))))).map
              (fun r => { n with
                relay := r
                up := Function.update n.up a (n.up a + 1) })
        | none => none
      else none
  | .download a =>
      if honest a then
        match (n.relay.actor a).bind (fun x => x.socket[n.down a]?) with
        | some t =>
            (CamPage.step (n.page a) (.message (parse t))).map
              (fun s => { setPage n a s with
                down := Function.update n.down a (n.down a + 1) })
        | none => none
      else none

/-- The system as a transition system. -/
def net : Lts Net Event where
  init := fun n => n = .initial
  step := step honest from_str

/-! ## Inversion -/

/-- The steps of the system, as a relation. -/
inductive Step (n : Net) : Event → Net → Prop where
  | server {e : CamRelay.Event} {r : Relay} : serverMay honest n e = true →
      CamRelay.step from_str n.relay e = some r →
      Step n (.server e) { n with relay := r }
  | browser {a : Addr} {e : CamPage.Event} {s : Page} : honest a = true →
      isMessage e = false → CamPage.step (n.page a) e = some s →
      Step n (.browser a e) (setPage n a s)
  | upload {a : Addr} {f : Json} {r : Relay} : honest a = true →
      (n.page a).sent[n.up a]? = some f →
      CamRelay.step from_str n.relay (.frame a (some (.text (render f)))) = some r →
      Step n (.upload a) { n with
        relay := r
        up := Function.update n.up a (n.up a + 1) }
  | download {a : Addr} {x : WebSocketSession} {t : String} {s : Page} :
      honest a = true → n.relay.actor a = some x → x.socket[n.down a]? = some t →
      CamPage.step (n.page a) (.message (parse t)) = some s →
      Step n (.download a) { setPage n a s with
        down := Function.update n.down a (n.down a + 1) }

variable {honest from_str}

/-- **INVERSION** of `step`. -/
theorem step_cases {n n' : Net} {e : Event} (h : step honest from_str n e = some n') :
    Step honest from_str n e n' := by
  cases e with
  | server e =>
      simp only [step] at h
      split at h
      · next hmay =>
          obtain ⟨r, hr, rfl⟩ := Option.map_eq_some_iff.mp h
          exact .server hmay hr
      · exact nomatch h
  | browser a e =>
      simp only [step] at h
      split at h
      · next hc =>
          obtain ⟨s, hs, rfl⟩ := Option.map_eq_some_iff.mp h
          obtain ⟨hh, hm⟩ := Bool.and_eq_true_iff.mp hc
          exact .browser hh (by simpa using hm) hs
      · exact nomatch h
  | upload a =>
      simp only [step] at h
      split at h
      · next hh =>
          split at h
          · next f hf =>
              obtain ⟨r, hr, rfl⟩ := Option.map_eq_some_iff.mp h
              exact .upload hh hf hr
          · exact nomatch h
      · exact nomatch h
  | download a =>
      simp only [step] at h
      split at h
      · next hh =>
          split at h
          · next t ht =>
              obtain ⟨s, hs, rfl⟩ := Option.map_eq_some_iff.mp h
              obtain ⟨x, hx, ht⟩ := Option.bind_eq_some_iff.mp ht
              exact .download hh hx ht hs
          · exact nomatch h
      · exact nomatch h

/-- A net step is a step of the relay, or leaves it alone. -/
theorem Step.relay {n n' : Net} {e : Event} (h : Step honest from_str n e n') :
    n'.relay = n.relay ∨
      ∃ d, CamRelay.step from_str n.relay d = some n'.relay := by
  cases h with
  | server _ hr => exact Or.inr ⟨_, hr⟩
  | browser => exact Or.inl rfl
  | upload _ _ hr => exact Or.inr ⟨_, hr⟩
  | download => exact Or.inl rfl

/-- A net step is a step of a page, or leaves it alone; a message is the next text on
    the socket of its session. -/
theorem Step.page {n n' : Net} {e : Event} (h : Step honest from_str n e n')
    (p : Addr) :
    n'.page p = n.page p ∨
      ∃ d, CamPage.step (n.page p) d = some (n'.page p) ∧
        (e = .browser p d ∨ isMessage d = true) ∧
        ∀ data, d = .message data → ∃ x t, n.relay.actor p = some x ∧
          x.socket[n.down p]? = some t ∧ data = parse t := by
  cases h with
  | server => exact Or.inl rfl
  | @browser a e s _ hm hs =>
      by_cases hpa : p = a
      · subst hpa
        refine Or.inr ⟨e, ?_, Or.inl rfl, fun data hd => ?_⟩
        · rw [hs]
          simp [setPage]
        · rw [hd] at hm
          exact nomatch hm
      · exact Or.inl (by simp [setPage, hpa])
  | upload => exact Or.inl rfl
  | @download a x t s _ hx ht hs =>
      by_cases hpa : p = a
      · subst hpa
        refine Or.inr ⟨.message (parse t), ?_, Or.inr rfl, fun data hd => ?_⟩
        · rw [hs]
          simp [setPage]
        · cases hd
          exact ⟨x, t, hx, ht, rfl⟩
      · exact Or.inl (by simp [setPage, hpa])

/-- The relay of a reached state is reached. -/
theorem relay_reachable {C : Net → Event → Prop} {n : Net}
    (h : ReachVia (net honest from_str) C n) :
    Reachable (CamRelay.relay from_str) n.relay := by
  refine h.project (N := CamRelay.relay from_str) (·.relay) ?_ ?_
  · rintro n rfl
    rfl
  · intro n e n' _ _ hst
    rcases (step_cases hst).relay with heq | ⟨d, hd⟩
    · exact Or.inl heq
    · exact Or.inr ⟨d, trivial, hd⟩

/-- The page of a reached state is reached, by messages that come from the socket of
    its session. -/
theorem page_reachVia {C : Net → Event → Prop} {D : Page → CamPage.Event → Prop}
    (p : Addr)
    (hmsg : ∀ n x t, ReachVia (net honest from_str) C n → n.relay.actor p = some x →
      x.socket[n.down p]? = some t → D (n.page p) (.message (parse t)))
    (hother : ∀ (s : Page) d, isMessage d = false → D s d)
    {n : Net} (h : ReachVia (net honest from_str) C n) :
    ReachVia CamPage.page D (n.page p) := by
  refine h.project (N := CamPage.page) (fun n => n.page p) ?_ ?_
  · rintro n rfl
    rfl
  · intro n e n' hr _ hst
    rcases (step_cases hst).page p with heq | ⟨d, hd, -, hfrom⟩
    · exact Or.inl heq
    · refine Or.inr ⟨d, ?_, hd⟩
      cases d with
      | message data =>
          obtain ⟨x, t, hx, ht, rfl⟩ := hfrom data rfl
          exact hmsg n x t hr hx ht
      | _ => exact hother _ _ rfl

theorem page_reachable {C : Net → Event → Prop} (p : Addr) {n : Net}
    (h : ReachVia (net honest from_str) C n) :
    Reachable CamPage.page (n.page p) :=
  page_reachVia p (fun _ _ _ _ _ _ => trivial) (fun _ _ _ => trivial) h

end Model

/-! ## Under which id a page goes -/

section Identity

open CamPage CamNegotiation CamClosure CamPending CamHonest

/-- The page knows itself by no other id: not now, not after the next render, not in
    any suspended call, and in no frame it has sent. -/
structure OwnId (id : String) (s : Page) : Prop where
  vars : KnownAs id s.vars.clientId
  next : KnownAs id s.next.clientId
  calls : ∀ x ∈ s.chain, ∀ env, callEnv x.2 = some env → KnownAs id env.clientId
  sent : ∀ f ∈ s.sent, f.get "from" = some (.str id)

/-- Every welcome carries this id. -/
def WelcomedAs (id : String) (_ : Page) (e : CamPage.Event) : Prop :=
  ∀ j, e = .message (some j) → isWelcomeMessage j = true → j.get "id" = some (.str id)

/-- What a step queues as client id is what a welcome said. -/
theorem welcomed_queued {id : String} {s : Page} {e : CamPage.Event} {c : Js}
    (hw : WelcomedAs id s e) (h : Queued s e (.setClientId c)) : c = some (.str id) := by
  cases h with
  | plain hp => exact nomatch hp
  | welcome _ hj hwj => exact hw _ hj hwj

theorem ownId_step {id : String} {s s' : Page} {e : CamPage.Event}
    (hr : Reachable page s) (hw : WelcomedAs id s e) (hi : OwnId id s)
    (h : CamPage.step s e = some s') : OwnId id s' := by
  have hst := CamPage.step_cases h
  have hneg := step_negotiates hr h
  refine ⟨?_, ?_, ?_, ?_⟩
  · rcases step_vars hst with hv | hv
    · rw [hv]
      exact hi.vars
    · rw [hv]
      exact hi.next
  · obtain ⟨l, hl, hq⟩ := step_next hst
    rw [hl]
    exact foldl_clientId l _ hi.next (fun c hc => Or.inr (welcomed_queued hw (hq _ hc)))
  · refine step_calls (P := fun c => ∀ env, callEnv c = some env →
      KnownAs id env.clientId) (fun _ _ env henv => ?_) (fun _ m sdp _ _ env henv => ?_)
      (fun env henv => (nomatch henv)) (fun sdp c x hx hmem env henv => ?_) hi.calls hneg
    · cases henv
      exact hi.vars
    · cases henv
      exact hi.vars
    · exact hx env ((callEnv_followUp hmem).symm.trans henv)
  · intro f hf
    rcases sent_step hneg with hsent | ⟨op, call, rest, hchain, hsent⟩
    · rw [hsent] at hf
      exact hi.sent f hf
    · rw [hsent] at hf
      rcases List.mem_append.mp hf with hf | hf
      · exact hi.sent f hf
      · -- the call that sends it goes by this id, and by no other
        have hown : ∀ env, callEnv call = some env → truthy env.clientId = true →
            env.clientId = some (.str id) := by
          intro env henv ht
          have hk := hi.calls (op, call) (by rw [hchain]; exact List.mem_cons_self ..)
          exact (hk env henv).of_truthy ht
        rcases isFrame_of_frames hf with ⟨env, d, rfl, hfr⟩ | ⟨env, m, d, rfl, hfr⟩
        · rw [hfr.sender]
          exact hown env rfl hfr.known
        · rw [hfr.sender]
          exact hown env rfl hfr.known

theorem ownId_reachVia {id : String} {s : Page}
    (h : ReachVia page (WelcomedAs id) s) : OwnId id s := by
  refine ReachVia.invariant (fun s hs => ?_) (fun s e s' hr hi hc hst => ?_) h
  · subst hs
    exact ⟨Or.inl rfl, Or.inl rfl, fun x hx => (nomatch hx), fun f hf => (nomatch hf)⟩
  · exact ownId_step hr.reachable hc hi hst

/-! ## One honest page among other clients -/

variable {p : Addr} {from_str : String → Option Message}

/-- Only this page is honest. -/
def only (p a : Addr) : Bool := a = p

/-- A text that the relay passes on to session `id`, and that its page takes for a
    welcome under another id. -/
def spoofs (from_str : String → Option Message) (id t : String) : Bool :=
  match from_str t, parse t with
  | some m, some j =>
      m.to = id && isWelcomeMessage j && j.get "id" ≠ some (.str id)
  | _, _ => false

/-- A step in which nobody sends such a text. -/
def noSpoof (from_str : String → Option Message) (id : String) (_ : Net) : Event → Bool
  | .server (.frame _ (some (.text t))) => !spoofs from_str id t
  | _ => true

def NoSpoof (from_str : String → Option Message) (id : String) (n : Net) (e : Event) :
    Prop :=
  noSpoof from_str id n e = true

theorem handleFrame_received (x : WebSocketSession) (f : Option WsFrame) {t : String}
    (h : t ∈ (CamRelay.handleFrame from_str x f).received) :
    t ∈ x.received ∨ f = some (.text t) := by
  cases f with
  | none => exact Or.inl h
  | some w =>
      cases w with
      | text u =>
          have h' : t ∈ x.received ++ [u] := h
          rcases List.mem_append.mp h' with h' | h'
          · exact Or.inl h'
          · cases List.mem_singleton.mp h'
            exact Or.inr rfl
      | _ => exact Or.inl h

/-- What a session has received, it had before or the step's frame brought it. -/
theorem received_step {s s' : Relay} {e : CamRelay.Event}
    (h : CamRelay.Step from_str s e s') {a : Addr} {x' : WebSocketSession} {t : String}
    (hx' : s'.actor a = some x') (ht : t ∈ x'.received) :
    (∃ x, s.actor a = some x ∧ t ∈ x.received) ∨ e = .frame a (some (.text t)) := by
  -- a step that rewrites one session and leaves what it received
  have hlocal : ∀ (b : Addr) (y z : WebSocketSession), s.actor b = some y →
      z.received = y.received → (CamRelay.setActor s b z).actor a = some x' →
      ∃ x, s.actor a = some x ∧ t ∈ x.received := by
    intro b y z hy hz ha
    by_cases hab : a = b
    · subst hab
      rw [CamRelay.setActor_self] at ha
      cases ha
      exact ⟨y, hy, by rw [← hz]; exact ht⟩
    · rw [CamRelay.setActor_ne s z hab] at ha
      exact ⟨x', ha, ht⟩
  cases h with
  | @connect b id hn _ _ =>
      refine Or.inl ?_
      by_cases hab : a = b
      · subst hab
        have ha : (CamRelay.setActor s a (CamRelay.newSession id)).actor a = some x' := hx'
        rw [CamRelay.setActor_self] at ha
        cases ha
        exact nomatch ht
      · have ha : (CamRelay.setActor s b (CamRelay.newSession id)).actor a = some x' := hx'
        rw [CamRelay.setActor_ne s _ hab] at ha
        exact ⟨x', ha, ht⟩
  | @start b y hy _ => exact Or.inl (hlocal b y (CamRelay.started b y) hy rfl hx')
  | @frame b y f hy _ =>
      by_cases hab : a = b
      · subst hab
        rw [CamRelay.setActor_self] at hx'
        cases hx'
        rcases handleFrame_received y f ht with hold | hf
        · exact Or.inl ⟨y, hy, hold⟩
        · exact Or.inr (by rw [hf])
      · rw [CamRelay.setActor_ne s _ hab] at hx'
        exact Or.inl ⟨x', hx', ht⟩
  | serve hy _ =>
      obtain ⟨y, hy, rfl⟩ := CamRelay.serveMsg_actor_some hy hx'
      exact Or.inl ⟨y, hy, ht⟩
  | @deliver b y u rest hy _ _ =>
      exact Or.inl (hlocal b y (CamRelay.handleWsMessage y u rest) hy rfl hx')
  | @stop b y hy _ => exact Or.inl (hlocal b y (CamRelay.stopping y) hy rfl hx')

/-- No text received anywhere spoofs: other clients send none, and what the honest
    page sends is typed as an offer or an answer. -/
theorem received_fine {id : String} {n : Net}
    (h : ReachVia (net (only p) from_str) (NoSpoof from_str id) n) :
    ∀ a x t, n.relay.actor a = some x → t ∈ x.received →
      spoofs from_str id t = false := by
  refine ReachVia.invariant (I := fun n => ∀ a x t, n.relay.actor a = some x →
    t ∈ x.received → spoofs from_str id t = false) (fun n hn => ?_)
    (fun n e n' hr hi hc hst => ?_) h
  · subst hn
    exact fun a x t hx => (nomatch hx)
  · intro a x t hx ht
    cases step_cases hst with
    | @server e r hmay hr' =>
        rcases received_step (CamRelay.step_cases hr') hx ht with ⟨y, hy, hold⟩ | rfl
        · exact hi a y t hy hold
        · simpa [NoSpoof, noSpoof] using hc
    | browser => exact hi a x t hx ht
    | @upload b f r hh hf hr' =>
        rcases received_step (CamRelay.step_cases hr') hx ht with ⟨y, hy, hold⟩ | heq
        · exact hi a y t hy hold
        · injection heq with _ hframe
          injection hframe with htext
          injection htext with htext
          have hsdp : isSDPMessage f = true :=
            sent_sdp (page_reachable b hr) f (List.mem_of_getElem? hf)
          have hnot : isWelcomeMessage f = false := by
            by_contra hw
            rw [not_sdp_of_welcome (by simpa using hw)] at hsdp
            exact nomatch hsdp
          rw [← htext, spoofs, parse_render]
          cases from_str (render f) with
          | none => rfl
          | some m => simp [hnot]
    | download => exact hi a x t hx ht

/-- A text on the socket of session `id` that is typed as a welcome carries `id`. -/
theorem welcomed_as {id : String} {n : Net}
    (h : ReachVia (net (only p) from_str) (NoSpoof from_str id) n)
    {x : WebSocketSession} {t : String} {j : Json} (hx : n.relay.actor p = some x)
    (hid : x.id = id) (ht : t ∈ x.socket) (hj : parse t = some j)
    (hw : isWelcomeMessage j = true) : j.get "id" = some (.str id) := by
  have hr := relay_reachable h
  rcases CamRouting.socket_origin hr hx ht with rfl | ⟨a, y, hy, hrec, m, hm, hto⟩
  · have huuid := (CamRelay.idsDistinct_reachable hr).uuid p x hx
    rw [parse_welcome huuid] at hj
    cases hj
    rw [hid]
    rfl
  · have hfine := received_fine h a y t hy hrec
    rw [hid] at hto
    simpa [spoofs, hm, hj, hto, hw] using hfine

/-- A session's id was the same before. -/
theorem id_before {n n' : Net} {e : Event} {honest : Addr → Bool}
    (h : Step honest from_str n e n') {id : String}
    (hid : ∀ x, n'.relay.actor p = some x → x.id = id) :
    ∀ x, n.relay.actor p = some x → x.id = id := by
  intro x hx
  rcases h.relay with heq | ⟨d, hd⟩
  · exact hid x (by rw [heq]; exact hx)
  · obtain ⟨x', hx', heq, -⟩ := (CamRelay.step_cases hd).persists hx
    rw [← heq]
    exact hid x' hx'

/-- **A PAGE GOES BY THE ID OF ITS OWN SESSION**, in every run in which no other client
    sends that session a text its page takes for a welcome: the client id is `null`
    or the session's id, and every frame sent carries it as `from`. -/
theorem identity_kept {id : String} {n : Net}
    (h : ReachVia (net (only p) from_str) (NoSpoof from_str id) n)
    (hid : ∀ x, n.relay.actor p = some x → x.id = id) :
    ((n.page p).vars.clientId = some .null ∨
      (n.page p).vars.clientId = some (.str id)) ∧
    ∀ f ∈ (n.page p).sent, f.get "from" = some (.str id) := by
  have hown : OwnId id (n.page p) := by
    refine ReachVia.invariant (I := fun n => (∀ x, n.relay.actor p = some x → x.id = id) →
      OwnId id (n.page p)) (fun n hn _ => ?_) (fun n e n' hr hi hc hst hid' => ?_) h hid
    · subst hn
      exact ownId_reachVia (.init rfl)
    · have hstep := step_cases hst
      have hbefore := id_before hstep hid'
      rcases hstep.page p with heq | ⟨d, hd, -, hfrom⟩
      · rw [heq]
        exact hi hbefore
      · refine ownId_step (page_reachable p hr) (fun j hj hw => ?_) (hi hbefore) hd
        -- the page got it from its session's socket
        obtain ⟨x, t, hx, ht, hparse⟩ := hfrom _ hj
        exact welcomed_as hr hx (hbefore x hx) (List.mem_of_getElem? ht) hparse.symm hw
  exact ⟨hown.vars, hown.sent⟩

/-- The net a list of events leads to, with the decoder by the book. -/
def netAfter (honest : Addr → Bool) (es : List Event) : Net :=
  after (net honest CamWire.from_str) .initial es

/-- Page 0 is mounted, its session starts under id `a` and welcomes it; it has a
    camera and `b` as its peer. -/
def welcomeRun : List Event :=
  [.browser 0 .flushEffects, .browser 0 (.userMedia (some CamGuard.camera)),
    .server (.connect 0 "a"), .server (.start 0), .server (.serve 0), .download 0,
    .browser 0 (.edit "b"), .browser 0 .render, .browser 0 .flushEffects]

/-- Page 0 presses the button and its offer is made. -/
def pressRun : List Event :=
  [.browser 0 .press, .browser 0 (.settle (.fulfilled "v=0" [])),
    .browser 0 (.settle (.fulfilled "" []))]

/-- Another client connects as `b` and sends page 0 a welcome under the id `evil`. -/
def spoofRun : List Event :=
  welcomeRun ++ [.server (.connect 1 "b"), .server (.start 1),
    .server (.frame 1 (some (.text
      "\x7b\"from\":\"b\",\"to\":\"a\",\"type\":\"welcome\",\"id\":\"evil\"\x7d"))),
    .server (.serve 1), .server (.serve 1), .server (.deliver 0), .download 0,
    .browser 0 .render, .browser 0 .flushEffects] ++ pressRun

/-- The page of session `a` takes itself for `evil` and signs its offer so. -/
theorem identity_spoofed :
    ∃ n : Net, Reachable (net (only 0) CamWire.from_str) n ∧
      (n.relay.actor 0).map (·.id) = some "a" ∧
      (n.page 0).vars.clientId = some (.str "evil") ∧
      (n.page 0).sent.map (·.get "from") = [some (.str "evil")] :=
  ⟨netAfter (only 0) spoofRun,
    ReachVia.of_after (c := fun _ _ => true) (fun _ _ _ => trivial) rfl (by decide +kernel),
    by decide +kernel, by decide +kernel, by decide +kernel⟩

/-- The other client sends the page an offer instead. -/
def offeredRun : List Event :=
  welcomeRun ++ [.server (.connect 1 "b"), .server (.start 1),
    .server (.frame 1 (some (.text
      "\x7b\"from\":\"b\",\"to\":\"a\",\"type\":\"offer\"\x7d"))),
    .server (.serve 1), .server (.serve 1), .server (.deliver 0), .download 0,
    .browser 0 .render, .browser 0 .flushEffects] ++ pressRun

theorem offeredRun_noSpoof :
    ReachVia (net (only 0) CamWire.from_str) (NoSpoof CamWire.from_str "a")
      (netAfter (only 0) offeredRun) :=
  ReachVia.of_after (fun _ _ hc => hc) rfl (by decide +kernel)

theorem identity_kept_sample :
    ((netAfter (only 0) offeredRun).page 0).sent.length = 1 ∧
    ∀ f ∈ ((netAfter (only 0) offeredRun).page 0).sent,
      f.get "from" = some (.str "a") := by
  refine ⟨by decide +kernel, (identity_kept offeredRun_noSpoof (fun x hx => ?_)).2⟩
  have hid : ((netAfter (only 0) offeredRun).relay.actor 0).map (·.id) = some "a" := by
    decide +kernel
  rw [hx] at hid
  exact Option.some.inj hid

end Identity

end CamNet
