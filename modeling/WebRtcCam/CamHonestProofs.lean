import WebRtcCam.CamGuardProofs

/-! # Honest company

    What holds of a page that hears from honest pages only: every message it gets is
    the welcome of its own session or a `Frame`, i.e. what a page like itself sends.
    Such a page knows itself by one id, knows its peers by texts, and sends frames.

    * `Queued` — everything a step can queue, so that the variables of the next render
      follow from the variables of this one;
    * `step_calls` — everything a step can leave suspended;
    * `honest_step` — the invariant of a page in honest company;
    * `step_heard`, `held_reachable` — what a page has received, and that it holds
      nothing else. -/

namespace CamHonest

open LtsRun JsonText CamWire RtcSignaling CamPage CamClosure CamPending CamNegotiation

/-! ## What a step queues -/

/-- The updates a step can queue. -/
inductive Queued (s : Page) (e : Event) : Update → Prop where
  | plain {u : Update} : u.plain = true → Queued s e u
  | welcome {j : Json} : s.mountVars.isSome = true → e = .message (some j) →
      isWelcomeMessage j = true → Queued s e (.setClientId (j.get "id"))
  | edit {v : String} : e = .edit v → Queued s e (.setPeerId (.str v))
  | pending {j : Json} : e = .message (some j) → isSDPMessage j = true →
      Queued s e (.setPendingSDP (some (s.arrival j)))
  | cleared : Queued s e (.setPendingSDP none)
  | adopted {m : Received} {sender : Json} :
      s.vars.pendingSDP = some m ∨ e = .message (some m.data) →
      m.data.get "from" = some sender → Queued s e (.setPeerId sender)

/-- The queue has grown by updates of a kind. -/
def Appends (P : Update → Prop) (s t : Page) : Prop :=
  ∃ l, t.queue = s.queue ++ l ∧ ∀ u ∈ l, P u

theorem Appends.refl (P : Update → Prop) {s t : Page} (h : t.queue = s.queue) :
    Appends P s t :=
  ⟨[], by rw [h, List.append_nil], fun _ hu => (nomatch hu)⟩

theorem Appends.one {P : Update → Prop} {s t : Page} {u : Update}
    (h : t.queue = s.queue ++ [u]) (hu : P u) : Appends P s t := by
  refine ⟨[u], h, fun v hv => ?_⟩
  cases List.mem_singleton.mp hv
  exact hu

theorem Appends.trans {P : Update → Prop} {s t u : Page} (h₁ : Appends P s t)
    (h₂ : Appends P t u) : Appends P s u := by
  obtain ⟨l₁, hq₁, hl₁⟩ := h₁
  obtain ⟨l₂, hq₂, hl₂⟩ := h₂
  refine ⟨l₁ ++ l₂, by rw [hq₂, hq₁, List.append_assoc], fun v hv => ?_⟩
  rcases List.mem_append.mp hv with hv | hv
  · exact hl₁ v hv
  · exact hl₂ v hv

/-- Adopting a sender queues the sender, if anything. -/
theorem adoptSender_appends {P : Update → Prop} (env : Vars) (m : Received) (s : Page)
    (hP : ∀ sender, m.data.get "from" = some sender → P (.setPeerId sender)) :
    Appends P s (adoptSender env m s) := by
  rcases adoptSender_cases env m s with heq | ⟨sender, hs, -, heq⟩
  · exact .refl P (by rw [heq])
  · exact .one (by rw [heq]; rfl) (hP sender hs)

theorem handleSDPMessage_appends {P : Update → Prop} (env : Vars) (m : Received)
    (s : Page) (hP : ∀ sender, m.data.get "from" = some sender → P (.setPeerId sender)) :
    Appends P s (handleSDPMessage env m s) := by
  have hadopt : Appends P s (adoptSender env m (noteSDP m s)) :=
    Appends.trans (.refl P rfl) (adoptSender_appends env m (noteSDP m s) hP)
  rcases handleSDPMessage_cases env m s with
    ⟨-, heq⟩ | ⟨pc, pc', -, -, ⟨heq, -⟩ | ⟨sdp, d, -, -, heq⟩⟩
  · exact .refl P (by rw [heq]; rfl)
  · exact hadopt.trans (.refl P (by rw [heq]; rfl))
  · exact hadopt.trans (.refl P (by rw [heq]; rfl))

/-- What the effects of a commit queue. -/
theorem flush_appends {s : Page} (es : List Effect) :
    ∀ t : Page, t.vars = s.vars →
      Appends (Queued s .flushEffects) t (es.foldl runEffect t) := by
  induction es with
  | nil => exact fun t _ => .refl _ rfl
  | cons e es ih =>
      intro t hv
      refine Appends.trans ?_ (ih (runEffect t e) (by rw [runEffect_vars, hv]))
      cases e with
      | syncPeerId => exact .refl _ rfl
      | mount => exact .one rfl (.plain rfl)
      | processPendingSDP =>
          rcases processPendingSDP_cases t with ⟨heq, -⟩ | ⟨m, hm, -, heq⟩
          · exact .refl _ (by rw [heq])
          · rw [heq]
            refine Appends.trans (handleSDPMessage_appends t.vars m t ?_)
              (.one rfl .cleared)
            exact fun sender hs => .adopted (Or.inl (by rw [← hv]; exact hm)) hs

/-- What an arrival queues. -/
theorem onmessage_appends {s : Page} (env : Vars) (data : Option Json)
    (hmv : s.mountVars.isSome = true) :
    Appends (Queued s (.message data)) s (onmessage env data s) := by
  have ha := onmessage_cases env data s
  generalize onmessage env data s = t at ha
  cases ha with
  | uncaught => exact .refl _ rfl
  | welcome hw _ => exact .one rfl (.welcome hmv rfl hw)
  | unprintable hw _ => exact .one rfl (.welcome hmv rfl hw)
  | sdp _ hs => exact .one rfl (.pending rfl hs)
  | @candidate j =>
      have hadopt : Appends (Queued s (.message (some j))) s
          (adoptSender env (s.arrival j) (receive j s)) :=
        Appends.trans (.refl _ rfl) (adoptSender_appends env (s.arrival j) (receive j s)
          (fun sender hs => .adopted (m := s.arrival j) (Or.inr rfl) hs))
      rcases handleIceCandidateMessage_cases env (s.arrival j) (receive j s) with
        ⟨-, heq⟩ | heq | ⟨_, -, heq⟩
      · exact .refl _ (by rw [heq]; rfl)
      · rw [heq]
        exact hadopt
      · rw [heq]
        exact hadopt.trans (.refl _ rfl)
  | ignored => exact .refl _ rfl

/-- **WHAT A STEP QUEUES**: a render empties the queue, any other step appends
    to it. -/
theorem step_appends {s s' : Page} {e : Event} (h : Step s e s') :
    (e = .render ∧ s'.vars = s.next ∧ s'.queue = []) ∨
      (s'.vars = s.vars ∧ Appends (Queued s e) s s') := by
  cases h.frame with
  | render =>
      cases h with
      | render => exact Or.inl ⟨rfl, rfl, rfl⟩
  | flushEffects =>
      cases h with
      | flushEffects =>
          refine Or.inr ⟨flush_vars _ _, ?_⟩
          exact Appends.trans (.refl _ rfl)
            (flush_appends s.effects { s with effects := [] } rfl)
  | unmount =>
      cases h with
      | unmount => exact Or.inr ⟨rfl, .refl _ rfl⟩
  | @message data hsame =>
      cases h with
      | @message env _ _ henv =>
          exact Or.inr ⟨hsame.vars, onmessage_appends env data (by rw [henv]; rfl)⟩
  | edit hsame =>
      cases h with
      | edit => exact Or.inr ⟨rfl, .one rfl (.edit rfl)⟩
  | handler _ hsame hin =>
      obtain ⟨l, hq, hl⟩ := hin.queue
      exact Or.inr ⟨hsame.vars, l, hq, fun u hu => .plain (hl u hu)⟩

/-- The variables of the next render, after a step. -/
theorem step_next {s s' : Page} {e : Event} (h : Step s e s') :
    ∃ l : List Update, s'.next = l.foldl Vars.apply s.next ∧ ∀ u ∈ l, Queued s e u := by
  rcases step_appends h with ⟨-, hv, hq⟩ | ⟨hv, l, hq, hl⟩
  · refine ⟨[], ?_, fun _ hu => (nomatch hu)⟩
    show s'.next = s.next
    rw [Page.next, hv, hq]
    rfl
  · exact ⟨l, next_of_append hv hq, hl⟩

/-! ## What a step leaves suspended -/

/-- The calls a step leaves suspended: those of before, an offer with the committed
    variables, the handling of the committed message, a candidate, and what a
    fulfilled call goes on with. -/
theorem step_calls {P : Call → Prop} {s s' : Page} {e : Event}
    (hoffer : e = .press → s.isNegotiatingRef = false → P (.offerCreated s.vars))
    (hremote : e = .flushEffects → ∀ m sdp, handed s = some m → sdpOf m = some sdp →
      P (.remoteApplied s.vars m (isOfferSdp sdp)))
    (hcandidate : P .candidateAdded)
    (hfollow : ∀ sdp c x, P c → x ∈ followUp sdp c → P x.2)
    (hi : ∀ x ∈ s.chain, P x.2) (h : Negotiates s e s') : ∀ x ∈ s'.chain, P x.2 := by
  have happend : ∀ x : PcOp Json × Call, P x.2 → ∀ y ∈ s.chain ++ [x], P y.2 := by
    intro x hx y hy
    rcases List.mem_append.mp hy with hy | hy
    · exact hi y hy
    · cases List.mem_singleton.mp hy
      exact hx
  cases h with
  | idle _ htalk _ => rw [htalk.chain]; exact hi
  | mounts _ _ _ htalk => rw [htalk.chain]; exact hi
  | offers _ hf _ _ _ hchain => rw [hchain]; exact happend _ (hoffer rfl hf)
  | @handles _ m _ _ hm hid hdue hsdp _ _ _ _ hchain =>
      have hh : handed s = some m := by rw [handed, if_pos ⟨hdue, hid⟩, hm]
      rw [hchain]
      exact happend _ (hremote rfl _ _ hh hsdp)
  | fails _ _ _ _ _ _ _ hchain => rw [hchain]; exact hi
  | candidate _ _ _ hchain => rw [hchain]; exact happend _ hcandidate
  | rejected _ _ hs _ _ hchain =>
      rw [hchain]
      exact fun x hx => hi x (by rw [hs]; exact List.mem_cons_of_mem _ hx)
  | fulfilled _ _ hs _ _ _ hchain =>
      intro x hx
      rw [hchain] at hx
      rcases List.mem_append.mp hx with hx | hx
      · exact hi x (by rw [hs]; exact List.mem_cons_of_mem _ hx)
      · exact hfollow _ _ x (hi _ (by rw [hs]; exact List.mem_cons_self ..)) hx
  | unmount _ _ htalk => rw [htalk.chain]; exact hi

/-! ## Frames -/

/-- What a page sends: an offer or an answer, from one session to another. -/
structure Frame where
  sender : String
  dest : String
  desc : Desc
  kind : desc.type = .offer ∨ desc.type = .answer
  text : ∃ t : String, desc.sdp = t

/-- The object `sendMessage` hands to `JSON.stringify`. -/
def Frame.json (f : Frame) : Json :=
  .obj [("from", .str f.sender), ("to", .str f.dest), ("sdp", descJson f.desc),
    ("type", .str (sdpName f.desc.type))]

section Frames

variable (f : Frame)

@[simp] theorem Frame.json_from : f.json.get "from" = some (.str f.sender) := rfl

@[simp] theorem Frame.json_sdp : f.json.get "sdp" = some (descJson f.desc) := rfl

@[simp] theorem Frame.json_type :
    f.json.get "type" = some (.str (sdpName f.desc.type)) := rfl

@[simp] theorem Frame.json_isSDP : isSDPMessage f.json = true := by
  unfold isSDPMessage hasType
  rw [f.json_type]
  rcases f.kind with h | h <;> rw [h] <;> rfl

theorem Frame.json_not_welcome : isWelcomeMessage f.json = false := by
  unfold isWelcomeMessage hasType
  rw [f.json_type]
  rcases f.kind with h | h <;> rw [h] <;> rfl

/-- The description a page builds from a frame is the one that was sent. -/
theorem RTCSessionDescription_descJson (d : Desc) :
    RTCSessionDescription (descJson d) = some d := by
  obtain ⟨ty, sdp⟩ := d
  cases ty <;> rfl

theorem isOfferSdp_descJson (d : Desc) :
    isOfferSdp (descJson d) = decide (d.type = .offer) := by
  obtain ⟨ty, sdp⟩ := d
  cases ty <;> rfl

theorem sdpOf_frame {m : Received} (h : m.data = f.json) :
    sdpOf m = some (descJson f.desc) := by
  unfold sdpOf
  rw [h, f.json_sdp]
  rfl

end Frames

/-! ## The invariant -/

/-- No id yet, or this one. -/
def KnownAs (id : String) (c : Js) : Prop := c = some .null ∨ c = some (.str id)

theorem KnownAs.of_truthy {id : String} {c : Js} (h : KnownAs id c)
    (ht : truthy c = true) : c = some (.str id) := by
  rcases h with h | h
  · rw [h] at ht
    exact nomatch ht
  · exact h

/-- The variables of a page in honest company: its own id or none, a peer known by a
    text, and in the slot a frame, which came after the welcome. -/
structure GoodVars (id : String) (v : Vars) : Prop where
  client : KnownAs id v.clientId
  peer : ∃ t : String, v.peerId = .str t
  pending : ∀ m, v.pendingSDP = some m →
    v.clientId = some (.str id) ∧ ∃ f : Frame, m.data = f.json
  socket : truthy v.clientId = true → v.socket.isSome = true

/-- An update that keeps the variables good. -/
def Fine (id : String) (v : Vars) : Update → Prop
  | .setClientId c => c = some (.str id) ∧ v.socket.isSome = true
  | .setPeerId p => ∃ t : String, p = .str t
  | .setPendingSDP (some m) =>
      v.clientId = some (.str id) ∧ ∃ f : Frame, m.data = f.json
  | _ => True

theorem goodVars_apply {id : String} {v : Vars} {u : Update} (hv : GoodVars id v)
    (hu : Fine id v u) : GoodVars id (v.apply u) := by
  cases u with
  | setSocket ws => exact ⟨hv.client, hv.peer, hv.pending, fun _ => rfl⟩
  | setClientId c =>
      obtain ⟨rfl, hs⟩ := hu
      exact ⟨Or.inr rfl, hv.peer, fun m hm => ⟨rfl, (hv.pending m hm).2⟩, fun _ => hs⟩
  | setPeerId p => exact ⟨hv.client, hu, hv.pending, hv.socket⟩
  | setPendingSDP o =>
      refine ⟨hv.client, hv.peer, fun m hm => ?_, hv.socket⟩
      cases hm
      exact hu
  | setConnectionState st => exact ⟨hv.client, hv.peer, hv.pending, hv.socket⟩
  | setIsLocalStreamReady b => exact ⟨hv.client, hv.peer, hv.pending, hv.socket⟩

/-- An update that is fine stays so when another one goes first. -/
theorem Fine.later {id : String} {v : Vars} {u w : Update} (hw : Fine id v w)
    (hu : Fine id v u) : Fine id (v.apply u) w := by
  have hsocket : v.socket.isSome = true → (v.apply u).socket.isSome = true := by
    intro hs
    cases u with
    | setSocket ws => rfl
    | _ => exact hs
  have hclient : v.clientId = some (.str id) → (v.apply u).clientId = some (.str id) := by
    intro hc
    cases u with
    | setClientId c => exact hu.1
    | _ => exact hc
  cases w with
  | setClientId c => exact ⟨hw.1, hsocket hw.2⟩
  | setPendingSDP o =>
      cases o with
      | some m => exact ⟨hclient hw.1, hw.2⟩
      | none => trivial
  | _ => exact hw

theorem goodVars_foldl {id : String} (l : List Update) (v : Vars) (hv : GoodVars id v)
    (hl : ∀ u ∈ l, Fine id v u) : GoodVars id (l.foldl Vars.apply v) := by
  induction l generalizing v with
  | nil => exact hv
  | cons u l ih =>
      have hu := hl u (List.mem_cons_self ..)
      exact ih _ (goodVars_apply hv hu)
        (fun w hw => (hl w (List.mem_cons_of_mem _ hw)).later hu)

/-- The message a suspended call is about. -/
def callMsg : Call → Option Received
  | .remoteApplied _ m _ => some m
  | .answerCreated _ m => some m
  | .answerApplied _ m _ => some m
  | _ => none

theorem callMsg_followUp {sdp : String} {call : Call} {x : PcOp Json × Call}
    (h : x ∈ followUp sdp call) : callMsg x.2 = callMsg call := by
  cases call with
  | offerCreated env =>
      cases List.mem_singleton.mp h
      rfl
  | remoteApplied env m b =>
      cases b with
      | true =>
          cases List.mem_singleton.mp h
          rfl
      | false => exact nomatch h
  | answerCreated env m =>
      cases List.mem_singleton.mp h
      rfl
  | _ => exact nomatch h

/-- A suspended call of such a page. -/
structure GoodCall (id : String) (c : Call) : Prop where
  env : ∀ v, callEnv c = some v → GoodVars id v
  msg : ∀ m, callMsg c = some m → ∃ f : Frame, m.data = f.json

/-- A page in honest company. -/
structure Honest (id : String) (s : Page) : Prop where
  vars : GoodVars id s.vars
  next : GoodVars id s.next
  opened : s.mountVars.isSome = true → s.next.socket.isSome = true
  unopened : s.mountVars = none → s.vars.pendingSDP = none ∧ s.next.pendingSDP = none
  calls : ∀ x ∈ s.chain, GoodCall id x.2
  sent : ∀ j ∈ s.sent, ∃ f : Frame, f.sender = id ∧ f.json = j

/-- Every message is the welcome of the page's own session, or a frame, which comes
    after the welcome. -/
def Civil (id : String) (s : Page) (e : Event) : Prop :=
  ∀ data, e = .message data → data = some (welcomeJson id) ∨
    s.next.clientId = some (.str id) ∧ ∃ f : Frame, data = some f.json

theorem fine_queued {id : String} {s : Page} {e : Event} {u : Update}
    (hi : Honest id s) (hc : Civil id s e) (h : Queued s e u) : Fine id s.next u := by
  cases h with
  | plain hp =>
      cases u with
      | setClientId => exact nomatch hp
      | setPeerId => exact nomatch hp
      | setPendingSDP => exact nomatch hp
      | _ => trivial
  | @welcome j hmv hj hw =>
      rcases hc _ hj with hd | ⟨-, f, hd⟩
      · cases hd
        exact ⟨rfl, hi.opened hmv⟩
      · cases hd
        rw [f.json_not_welcome] at hw
        exact nomatch hw
  | @edit v _ => exact ⟨v, rfl⟩
  | @pending j hj hs =>
      rcases hc _ hj with hd | ⟨hid, f, hd⟩
      · cases hd
        exact nomatch hs
      · cases hd
        exact ⟨hid, f, rfl⟩
  | cleared => trivial
  | @adopted m sender hm hs =>
      have hframe : ∃ f : Frame, m.data = f.json := by
        rcases hm with hm | hm
        · exact (hi.vars.pending m hm).2
        · rcases hc _ hm with hd | ⟨-, f, hd⟩
          · rw [Option.some.inj hd] at hs
            exact nomatch hs
          · exact ⟨f, Option.some.inj hd⟩
      obtain ⟨f, hf⟩ := hframe
      rw [hf, f.json_from] at hs
      exact ⟨f.sender, (Option.some.inj hs).symm⟩

/-- The client id after some updates is the one before them, or one of theirs. -/
theorem foldl_clientId {P : Js → Prop} (l : List Update) (v : Vars) (hv : P v.clientId)
    (h : ∀ c, .setClientId c ∈ l → P c) : P (l.foldl Vars.apply v).clientId := by
  induction l generalizing v with
  | nil => exact hv
  | cons u l ih =>
      refine ih _ ?_ (fun c hc => h c (List.mem_cons_of_mem _ hc))
      cases u with
      | setClientId c => exact h c (List.mem_cons_self ..)
      | _ => exact hv

/-- Once open, the socket stays in the variables. -/
theorem foldl_socket (l : List Update) (v : Vars)
    (h : v.socket.isSome = true ∨ .setSocket ⟨⟩ ∈ l) :
    (l.foldl Vars.apply v).socket.isSome = true := by
  induction l generalizing v with
  | nil =>
      rcases h with h | h
      · exact h
      · exact nomatch h
  | cons u l ih =>
      refine ih _ ?_
      cases u with
      | setSocket ws => exact Or.inl rfl
      | _ =>
          rcases h with h | h
          · exact Or.inl h
          · exact Or.inr (by simpa using h)

/-- The mount effect queues the socket. -/
theorem flush_opens (es : List Effect) :
    ∀ t : Page, (es.foldl runEffect t).mountVars.isSome = true →
      t.mountVars.isSome = true ∨ .setSocket ⟨⟩ ∈ (es.foldl runEffect t).queue := by
  induction es with
  | nil => exact fun t h => Or.inl h
  | cons e es ih =>
      intro t h
      rcases ih (runEffect t e) h with hs | hq
      · cases e with
        | syncPeerId => exact Or.inl hs
        | mount =>
            obtain ⟨l, hl, -⟩ := flush_appends (s := t) es (runEffect t .mount) rfl
            refine Or.inr ?_
            rw [List.foldl_cons, hl]
            refine List.mem_append_left _ ?_
            show Update.setSocket ⟨⟩ ∈ t.queue ++ [.setSocket ⟨⟩]
            simp
        | processPendingSDP =>
            refine Or.inl ?_
            rw [runEffect_mountVars, if_neg (by decide)] at hs
            exact hs
      · exact Or.inr hq

theorem foldl_unpending (l : List Update) (v : Vars) (h : v.pendingSDP = none)
    (hl : ∀ m, .setPendingSDP (some m) ∉ l) :
    (l.foldl Vars.apply v).pendingSDP = none := by
  induction l generalizing v with
  | nil => exact h
  | cons u l ih =>
      refine ih _ ?_ (fun m hm => hl m (List.mem_cons_of_mem _ hm))
      cases u with
      | setPendingSDP o =>
          cases o with
          | none => rfl
          | some m => exact absurd (List.mem_cons_self ..) (hl m)
      | _ => exact h

theorem opened_step {id : String} {s s' : Page} {e : Event} (hi : Honest id s)
    (h : Step s e s') (hmv : s'.mountVars.isSome = true) :
    s'.next.socket.isSome = true := by
  have hkeep : s.mountVars.isSome = true → s'.next.socket.isSome = true := by
    intro hs
    obtain ⟨l, hl, -⟩ := step_next h
    rw [hl]
    exact foldl_socket l _ (Or.inl (hi.opened hs))
  cases h.frame with
  | render =>
      cases h with
      | render => exact hkeep hmv
  | flushEffects =>
      cases h with
      | flushEffects =>
          rcases flush_opens s.effects { s with effects := [] } hmv with hs | hq
          · exact hkeep hs
          · exact foldl_socket _ _ (Or.inr hq)
  | unmount =>
      cases h with
      | unmount => exact hkeep hmv
  | message hsame => exact hkeep (by rw [← hsame.mountVars]; exact hmv)
  | edit hsame => exact hkeep (by rw [← hsame.mountVars]; exact hmv)
  | handler _ hsame _ => exact hkeep (by rw [← hsame.mountVars]; exact hmv)

/-- Before the socket is opened nothing is in the slot. -/
def Unopened (s : Page) : Prop :=
  s.mountVars = none → s.vars.pendingSDP = none ∧ s.next.pendingSDP = none

theorem unopened_step {s s' : Page} {e : Event} (hi : Unopened s) (h : Step s e s') :
    Unopened s' := by
  intro hmv
  have hbefore : s.mountVars = none ∧ ∀ data, e ≠ .message data := by
    cases h with
    | render => exact ⟨hmv, fun _ h => (nomatch h)⟩
    | flushEffects =>
        refine ⟨?_, fun _ h => (nomatch h)⟩
        by_contra hs
        refine absurd hmv (flush_induction (P := fun t => t.mountVars ≠ none)
          (fun t e ht => ?_) s.effects { s with effects := [] } hs)
        rw [runEffect_mountVars]
        split
        · exact fun h => (nomatch h)
        · exact ht
    | message _ henv =>
        rw [(onmessage_sameRender _ _ s).mountVars, henv] at hmv
        exact nomatch hmv
    | iceCandidate =>
        rw [(onicecandidate_sameRender _ _ s).mountVars] at hmv
        exact ⟨hmv, fun _ h => (nomatch h)⟩
    | press =>
        rw [(createOffer_sameRender _ s).mountVars] at hmv
        exact ⟨hmv, fun _ h => (nomatch h)⟩
    | rejected =>
        rw [(reject_sameRender _ _).mountVars] at hmv
        exact ⟨hmv, fun _ h => (nomatch h)⟩
    | fulfilled _ hpc =>
        rw [(settle_sameRender hpc).mountVars] at hmv
        exact ⟨hmv, fun _ h => (nomatch h)⟩
    | _ => exact ⟨hmv, fun _ h => (nomatch h)⟩
  obtain ⟨hnone, hmsg⟩ := hbefore
  obtain ⟨hv, hn⟩ := hi hnone
  refine ⟨?_, ?_⟩
  · rcases step_vars h with heq | heq
    · rw [heq]
      exact hv
    · rw [heq]
      exact hn
  · obtain ⟨l, hl, hq⟩ := step_next h
    rw [hl]
    refine foldl_unpending l _ hn (fun m hm => ?_)
    cases hq _ hm with
    | plain hp => exact nomatch hp
    | pending hj => exact hmsg _ hj

theorem unopened_reachable {s : Page} (h : Reachable page s) : Unopened s := by
  refine ReachVia.invariant (fun s hs => ?_) (fun s e s' _ hi _ hst => ?_) h
  · subst hs
    exact fun _ => ⟨rfl, rfl⟩
  · exact unopened_step hi (step_cases hst)

/-- What a call in honest company sends is a frame of the page: its offer to the
    peer it was started with, or its answer to the sender of the offer. -/
theorem frames_of_good {id : String} {op : PcOp Json} {call : Call}
    (hg : GoodCall id call) (hm : Matches op call) {j : Json} (hj : j ∈ frames call) :
    ∃ f : Frame, f.sender = id ∧ f.json = j ∧
      ((∃ env d, call = .offerApplied env d ∧ f.desc = d ∧ env.peerId = .str f.dest) ∨
        ∃ env m d, call = .answerApplied env m d ∧ f.desc = d ∧
          m.data.get "from" = some (.str f.dest)) := by
  -- a frame is sent under the id of the page only
  have hsend : ∀ env message, GoodVars id env → j ∈ frame env message →
      j = .obj (("from", .str id) :: message) := by
    intro env message hv hmem
    unfold frame at hmem
    split at hmem
    · next hc =>
        rw [hv.client.of_truthy (Bool.and_eq_true_iff.mp hc).1] at hmem
        exact List.mem_singleton.mp hmem
    · exact nomatch hmem
  cases hm with
  | @offerApplied env d hd htext =>
      have hv := hg.env env rfl
      obtain ⟨t, ht⟩ := hv.peer
      refine ⟨⟨id, t, d, Or.inl hd, htext⟩, rfl, ?_, Or.inl ⟨env, d, rfl, rfl, ht⟩⟩
      have hty : sdpName d.type = "offer" := by rw [hd]; rfl
      show Json.obj [("from", .str id), ("to", .str t), ("sdp", descJson d),
        ("type", .str (sdpName d.type))] = j
      rw [hsend env _ hv hj, ht, hty]
  | @answerApplied env m d hd htext _ =>
      have hv := hg.env env rfl
      obtain ⟨g, hf⟩ := hg.msg m rfl
      refine ⟨⟨id, g.sender, d, Or.inr hd, htext⟩, rfl, ?_,
        Or.inr ⟨env, m, d, rfl, rfl, by rw [hf, g.json_from]⟩⟩
      have hty : sdpName d.type = "answer" := by rw [hd]; rfl
      show Json.obj [("from", .str id), ("to", .str g.sender), ("sdp", descJson d),
        ("type", .str (sdpName d.type))] = j
      rw [hsend env _ hv hj, hf, g.json_from, hty]
      rfl
  | _ => exact nomatch hj

/-- **IN HONEST COMPANY A PAGE STAYS HONEST**. -/
theorem honest_step {id : String} {s s' : Page} {e : Event} (hr : Reachable page s)
    (hc : Civil id s e) (hi : Honest id s) (h : step s e = some s') : Honest id s' := by
  have hst := step_cases h
  have hneg := step_negotiates hr h
  refine ⟨?_, ?_, opened_step hi hst, unopened_step hi.unopened hst, ?_, ?_⟩
  · rcases step_vars hst with hv | hv
    · rw [hv]
      exact hi.vars
    · rw [hv]
      exact hi.next
  · obtain ⟨l, hl, hq⟩ := step_next hst
    rw [hl]
    exact goodVars_foldl l _ hi.next (fun u hu => fine_queued hi hc (hq u hu))
  · refine step_calls (P := GoodCall id)
      (fun _ _ => ⟨fun v hv => ?_, fun m hm => (nomatch hm)⟩)
      (fun _ m sdp hm _ => ⟨fun v hv => ?_, fun m' hm' => ?_⟩)
      ⟨fun v hv => (nomatch hv), fun m hm => (nomatch hm)⟩
      (fun sdp c x hx hmem => ⟨fun v hv => ?_, fun m hm => ?_⟩) hi.calls hneg
    · cases hv
      exact hi.vars
    · cases hv
      exact hi.vars
    · cases hm'
      exact (hi.vars.pending m (handed_some hm).2.2).2
    · exact hx.env v ((callEnv_followUp hmem).symm.trans hv)
    · exact hx.msg m ((callMsg_followUp hmem).symm.trans hm)
  · intro j hj
    rcases sent_step hneg with hsent | ⟨op, call, rest, hchain, hsent⟩
    · rw [hsent] at hj
      exact hi.sent j hj
    · rw [hsent] at hj
      rcases List.mem_append.mp hj with hj | hj
      · exact hi.sent j hj
      · have hmem : (op, call) ∈ s.chain := by rw [hchain]; exact List.mem_cons_self ..
        obtain ⟨f, hid, hf, -⟩ := frames_of_good (hi.calls _ hmem)
          ((matched_reachable hr).calls _ hmem) hj
        exact ⟨f, hid, hf⟩

theorem honest_initial (id : String) : Honest id .initial :=
  ⟨⟨Or.inl rfl, ⟨"", rfl⟩, fun _ hm => (nomatch hm), fun h => (nomatch h)⟩,
    ⟨Or.inl rfl, ⟨"", rfl⟩, fun _ hm => (nomatch hm), fun h => (nomatch h)⟩,
    fun h => (nomatch h), fun _ => ⟨rfl, rfl⟩, fun _ hx => (nomatch hx),
    fun _ hj => (nomatch hj)⟩

/-- The id a page has been welcomed under, it keeps. -/
theorem client_kept {id : String} {s s' : Page} {e : Event} (hi : Honest id s)
    (hc : Civil id s e) (hid : s.next.clientId = some (.str id)) (h : Step s e s') :
    s'.next.clientId = some (.str id) := by
  obtain ⟨l, hl, hq⟩ := step_next h
  rw [hl]
  refine foldl_clientId (P := (· = some (.str id))) l _ hid (fun c hmem => ?_)
  exact (fine_queued hi hc (hq _ hmem)).1

/-- A frame that is handed over gets to `setRemoteDescription`. -/
theorem handed_step {id : String} {s s' : Page} {m : Received} {f : Frame}
    (hr : Reachable page s) (hi : Honest id s) (hh : handed s = some m)
    (hf : m.data = f.json) (h : step s .flushEffects = some s') :
    s'.chain = s.chain ++ [(.setRemoteDescription f.desc,
        .remoteApplied s.vars m (f.desc.type = .offer))] ∧
      s'.isNegotiatingRef = s.isNegotiatingRef ∧ s'.sent = s.sent ∧ SamePc s s' := by
  have hvars : s.vars.pendingSDP = some m := (handed_some hh).2.2
  have hsome : s.peerConnectionRef.isSome = true := by
    refine (mountRender_reachable hr).connected ?_
    by_contra hn
    rw [(hi.unopened (by simpa using hn)).1] at hvars
    cases hvars
  cases step_negotiates hr h with
  | idle _ _ hnone =>
      rw [hnone rfl hsome] at hh
      cases hh
  | mounts hv =>
      rw [hv] at hvars
      cases hvars
  | handles hm _ _ hsdp hd hpc _ hflag hchain hsent =>
      rw [hvars] at hm
      cases hm
      rw [sdpOf_frame f hf] at hsdp
      cases hsdp
      rw [RTCSessionDescription_descJson] at hd
      cases hd
      rw [isOfferSdp_descJson] at hchain
      exact ⟨hchain, hflag, hsent, hpc⟩
  | fails hm _ _ hd =>
      rw [hvars] at hm
      cases hm
      rw [describes, sdpOf_frame f hf, Option.bind_some,
        RTCSessionDescription_descJson] at hd
      cases hd

/-! ## What a page has heard -/

/-- The history has grown by observations that are no receptions. -/
def Deaf (s t : Page) : Prop :=
  ∃ l, t.trace = s.trace ++ l ∧ ∀ m, .received m ∉ l

theorem Deaf.refl {s t : Page} (h : t.trace = s.trace) : Deaf s t :=
  ⟨[], by rw [h, List.append_nil], fun _ hm => (nomatch hm)⟩

theorem Deaf.trans {s t u : Page} (h₁ : Deaf s t) (h₂ : Deaf t u) : Deaf s u := by
  obtain ⟨l₁, ht₁, hl₁⟩ := h₁
  obtain ⟨l₂, ht₂, hl₂⟩ := h₂
  refine ⟨l₁ ++ l₂, by rw [ht₂, ht₁, List.append_assoc], fun m hm => ?_⟩
  rcases List.mem_append.mp hm with hm | hm
  · exact hl₁ m hm
  · exact hl₂ m hm

theorem handleSDPMessage_deaf (env : Vars) (m : Received) (s : Page) :
    Deaf s (handleSDPMessage env m s) := by
  obtain ⟨-, -, ht | ⟨d, ht⟩⟩ := handleSDPMessage_slot env m s
  · exact ⟨_, ht, by simp⟩
  · exact ⟨_, ht, by simp⟩

theorem flush_deaf (es : List Effect) (s : Page) : Deaf s (es.foldl runEffect s) := by
  refine flush_induction (P := Deaf s) (fun t e ht => ht.trans ?_) es s (.refl rfl)
  cases e with
  | syncPeerId => exact .refl rfl
  | mount => exact .refl rfl
  | processPendingSDP =>
      rcases processPendingSDP_cases t with ⟨heq, -⟩ | ⟨m, -, -, heq⟩
      · exact .refl (by rw [heq])
      · rw [heq]
        exact (handleSDPMessage_deaf t.vars m t).trans (.refl rfl)

/-- What an arrival adds to the history: the message, and maybe what its handler
    invokes. -/
theorem onmessage_heard (env : Vars) (data : Option Json) (s : Page) :
    Deaf s (onmessage env data s) ∨ ∃ j l, data = some j ∧
      (onmessage env data s).trace = s.trace ++ .received (s.arrival j) :: l ∧
      ∀ m, .received m ∉ l := by
  have ha := onmessage_cases env data s
  generalize onmessage env data s = t at ha
  cases ha with
  | uncaught => exact Or.inl ⟨[.uncaught], rfl, by simp⟩
  | @welcome j => exact Or.inr ⟨j, [], rfl, rfl, by simp⟩
  | @unprintable j => exact Or.inr ⟨j, [.uncaught], rfl, by simp, by simp⟩
  | @sdp j => exact Or.inr ⟨j, [], rfl, rfl, by simp⟩
  | @ignored j => exact Or.inr ⟨j, [], rfl, rfl, by simp⟩
  | @candidate j =>
      obtain ⟨-, -, ht⟩ := adoptSender_slot env (s.arrival j) (receive j s)
      rcases handleIceCandidateMessage_cases env (s.arrival j) (receive j s) with
        ⟨-, heq⟩ | heq | ⟨c, -, heq⟩
      · exact Or.inr ⟨j, [], rfl, by rw [heq]; rfl, by simp⟩
      · exact Or.inr ⟨j, [], rfl, by rw [heq, ht]; rfl, by simp⟩
      · refine Or.inr ⟨j, [.invoked (.addIceCandidate c) (some (s.arrival j))], rfl, ?_,
          by simp⟩
        rw [heq, invoke_trace, ht, receive_trace, List.append_assoc]
        rfl

/-- **WHAT A STEP HEARS**: the history only grows, and a reception is added by an
    arrival, of the message that arrives. -/
theorem step_heard {s s' : Page} {e : Event} (h : Step s e s') :
    Deaf s s' ∨ ∃ j l, e = .message (some j) ∧
      s'.trace = s.trace ++ .received (s.arrival j) :: l ∧ ∀ m, .received m ∉ l := by
  cases h.frame with
  | render =>
      cases h with
      | render => exact Or.inl (.refl rfl)
  | flushEffects =>
      cases h with
      | flushEffects => exact Or.inl (flush_deaf s.effects { s with effects := [] })
  | unmount =>
      cases h with
      | unmount => exact Or.inl (.refl rfl)
  | edit =>
      cases h with
      | edit => exact Or.inl (.refl rfl)
  | @message data =>
      cases h with
      | @message env =>
          rcases onmessage_heard env data s with hd | ⟨j, l, rfl, ht, hl⟩
          · exact Or.inl hd
          · exact Or.inr ⟨j, l, rfl, ht, hl⟩
  | handler _ _ hin =>
      obtain ⟨ops, ht⟩ := hin.trace
      exact Or.inl ⟨_, ht, by simp⟩

theorem trace_grows {s s' : Page} {e : Event} (h : Step s e s') : s.trace <+: s'.trace := by
  rcases step_heard h with ⟨l, ht, -⟩ | ⟨j, l, -, ht, -⟩
  · exact ⟨l, ht.symm⟩
  · exact ⟨_, ht.symm⟩

theorem mem_sdpReceived {s : Page} {m : Received} :
    m ∈ sdpReceived s ↔ .received m ∈ s.trace ∧ isSDPMessage m.data = true := by
  unfold sdpReceived
  rw [List.mem_filterMap]
  constructor
  · rintro ⟨o, ho, hm⟩
    cases o with
    | received m' =>
        simp only [receivedSDP] at hm
        split at hm
        · next hs =>
            cases hm
            exact ⟨ho, hs⟩
        · cases hm
    | _ => cases hm
  · rintro ⟨ho, hs⟩
    exact ⟨.received m, ho, by simp [receivedSDP, hs]⟩

/-- **WHAT A STEP HANDS OVER**: a flush hands over the message that is due, and
    nothing else is handed over. -/
theorem step_handled {s s' : Page} {e : Event} (hr : Reachable page s)
    (h : step s e = some s') :
    (sdpHandled s' = sdpHandled s ∧ (e = .flushEffects → handed s = none)) ∨
      (e = .flushEffects ∧ ∃ m, handed s = some m ∧ sdpHandled s' = sdpHandled s ++ [m]) := by
  have hst := step_cases h
  cases hst.frame with
  | render =>
      cases hst with
      | render => exact Or.inl ⟨rfl, fun h => (by cases h)⟩
  | flushEffects =>
      cases hst with
      | flushEffects =>
          rcases flush_slot (slot_reachable hr).order with
            ⟨hsame, hnone⟩ | ⟨m, t, hdue, hid, hm, hslot, heq⟩
          · exact Or.inl ⟨hsame.handled, fun _ => handed_none hnone⟩
          · refine Or.inr ⟨rfl, m, by rw [handed, if_pos ⟨hdue, hid⟩, hm], ?_⟩
            rw [heq]
            show sdpHandled (handleSDPMessage s.vars m t) = _
            rw [(handleSDPMessage_sdps s.vars m t).2, hslot.handled]
            rfl
  | unmount =>
      cases hst with
      | unmount => exact Or.inl ⟨rfl, fun h => (by cases h)⟩
  | @message data =>
      cases hst with
      | @message env =>
          refine Or.inl ⟨?_, fun h => (by cases h)⟩
          rcases onmessage_slot env data s with ⟨hsame, -⟩ | ⟨j, rfl, -, heq⟩
          · exact hsame.handled
          · rw [heq]
            show (s.trace ++ [Obs.received (s.arrival j)]).filterMap handledSDP = _
            rw [List.filterMap_append]
            exact List.append_nil _
  | @edit v =>
      cases hst with
      | edit => exact Or.inl ⟨(edit_sameSlot v s).handled, fun h => (by cases h)⟩
  | handler hev hsame hin =>
      refine Or.inl ⟨(SameSlot.of_sameInbox hsame hin).handled, ?_⟩
      rintro rfl
      cases hev

/-- Every message a page holds, in the slot or in a suspended call, and every message
    it has handled, it has received. -/
structure Held (s : Page) : Prop where
  vars : ∀ m, s.vars.pendingSDP = some m → m ∈ sdpReceived s
  next : ∀ m, s.next.pendingSDP = some m → m ∈ sdpReceived s
  calls : ∀ x ∈ s.chain, ∀ m, callMsg x.2 = some m → m ∈ sdpReceived s
  handled : ∀ m ∈ sdpHandled s, m ∈ sdpReceived s

/-- The pending message after some updates is the one before them, or one of theirs. -/
theorem foldl_pending {P : Option Received → Prop} (l : List Update) (v : Vars)
    (hv : P v.pendingSDP) (h : ∀ o, .setPendingSDP o ∈ l → P o) :
    P (l.foldl Vars.apply v).pendingSDP := by
  induction l generalizing v with
  | nil => exact hv
  | cons u l ih =>
      refine ih _ ?_ (fun o ho => h o (List.mem_cons_of_mem _ ho))
      cases u with
      | setPendingSDP o => exact h o (List.mem_cons_self ..)
      | _ => exact hv

/-- A message that arrives as an offer or answer is received. -/
theorem arrival_heard {s s' : Page} {j : Json} (hs : isSDPMessage j = true)
    (h : Step s (.message (some j)) s') : .received (s.arrival j) ∈ s'.trace := by
  cases h with
  | @message env =>
      have ha := onmessage_cases env (some j) s
      generalize onmessage env (some j) s = t at ha
      cases ha with
      | uncaught hn =>
          rcases hn with hn | hn
          · exact nomatch hn
          · rw [Option.some.inj hn] at hs
            exact nomatch hs
      | welcome => exact List.mem_append_right _ (List.mem_singleton.mpr rfl)
      | unprintable =>
          exact List.mem_append_left _ (List.mem_append_right _ (List.mem_singleton.mpr rfl))
      | sdp => exact List.mem_append_right _ (List.mem_singleton.mpr rfl)
      | candidate _ hns =>
          rw [hns] at hs
          exact nomatch hs
      | ignored => exact List.mem_append_right _ (List.mem_singleton.mpr rfl)

theorem held_step {s s' : Page} {e : Event} (hr : Reachable page s) (hi : Held s)
    (h : step s e = some s') : Held s' := by
  have hst := step_cases h
  have hmono : ∀ m, m ∈ sdpReceived s → m ∈ sdpReceived s' :=
    fun m hm => ((trace_grows hst).filterMap receivedSDP).subset hm
  refine ⟨fun m hm => ?_, fun m hm => ?_, ?_, fun m hm => ?_⟩
  · rcases step_vars hst with hv | hv
    · rw [hv] at hm
      exact hmono m (hi.vars m hm)
    · rw [hv] at hm
      exact hmono m (hi.next m hm)
  · obtain ⟨l, hl, hq⟩ := step_next hst
    rw [hl] at hm
    revert m
    refine foldl_pending (P := fun o => ∀ m, o = some m → m ∈ sdpReceived s') l _
      (fun m hm => hmono m (hi.next m hm)) (fun o ho m hm => ?_)
    subst hm
    cases hq _ ho with
    | plain hp => exact nomatch hp
    | pending hj hs =>
        subst hj
        exact mem_sdpReceived.mpr ⟨arrival_heard hs hst, hs⟩
  · refine step_calls (P := fun c => ∀ m, callMsg c = some m → m ∈ sdpReceived s')
      (fun _ _ m hm => (nomatch hm)) (fun _ m sdp hm _ m' hm' => ?_)
      (fun m hm => (nomatch hm)) (fun sdp c x hx hmem m hm => ?_)
      (fun x hx m hm => hmono m (hi.calls x hx m hm)) (step_negotiates hr h)
    · cases hm'
      exact hmono m (hi.vars m (handed_some hm).2.2)
    · exact hx m ((callMsg_followUp hmem).symm.trans hm)
  · rcases step_handled hr h with ⟨heq, -⟩ | ⟨-, m', hm', heq⟩
    · rw [heq] at hm
      exact hmono m (hi.handled m hm)
    · rw [heq] at hm
      rcases List.mem_append.mp hm with hm | hm
      · exact hmono m (hi.handled m hm)
      · cases List.mem_singleton.mp hm
        exact hmono m (hi.vars m (handed_some hm').2.2)

theorem held_reachable {s : Page} (h : Reachable page s) : Held s := by
  refine ReachVia.invariant (fun s hs => ?_) (fun s e s' hr hi _ hst => ?_) h
  · subst hs
    exact ⟨fun _ hm => (nomatch hm), fun _ hm => (nomatch hm), fun _ hx => (nomatch hx),
      fun _ hm => (nomatch hm)⟩
  · exact held_step hr hi hst

end CamHonest
