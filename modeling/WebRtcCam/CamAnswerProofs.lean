import WebRtcCam.CamNegotiationProofs

/-! # Which offer an answer answers

    Any number of `handleSDPMessage` calls of one page can be suspended at once, and
    all of them work on one connection.  A call that handles an offer awaits
    `setRemoteDescription`, `createAnswer` and `setLocalDescription`, and invokes each
    only when the one before it is fulfilled; so the operations of two such calls mix
    on the chain,

        [SRD₁, SRD₂]  →  [SRD₂, CA₁]  →  [CA₁, CA₂]  →  …

    and `CA₁` answers the SECOND offer, in the name of the first.

    The log keeps, for every answer created, the message it is for and the remote
    description it was created from.

    * `answers_in_turn` — if no offer is handed over while another one still waits for
      its `setRemoteDescription`, every answer answers the offer of its call. -/

namespace CamAnswer

open LtsRun JsonText CamWire RtcSignaling CamPage CamClosure CamPending CamNegotiation

/-- The description a message carries. -/
def description (m : Received) : Option Desc := (sdpOf m).bind RTCSessionDescription

/-- An answer that was created: for which message, and from which remote
    description. -/
structure Created where
  m : Received
  answer : Desc
  remote : Option Desc
  deriving DecidableEq

/-- The answer a call gets from its fulfilled operation. -/
def answerOf (sdp : String) (pc : Pc) : Call → List Created
  | .answerCreated _ m => [⟨m, ⟨.answer, sdp⟩, pc.remoteDescription⟩]
  | _ => []

/-- The answer a step creates. -/
def created (s : Page) : Event → List Created
  | .settle (.fulfilled sdp _) =>
      match s.peerConnectionRef, s.chain with
      | some pc, x :: _ => answerOf sdp pc x.2
      | _, _ => []
  | _ => []

/-- An offer is handed over only if no call still waits for the
    `setRemoteDescription` of an offer. -/
def inTurn (s : Page) : Event → Bool
  | .flushEffects =>
      match (handed s).bind description with
      | some d => d.type ≠ .offer || !s.chain.any (fun x => raises x.2)
      | none => true
  | _ => true

def InTurn (p : Page × List Created) (e : Event) : Prop := inTurn p.1 e = true

/-! ## The order of the chain -/

/-- The operation sets a remote offer. -/
def setsOffer : PcOp Json → Bool
  | .setRemoteDescription d => d.type = .offer
  | _ => false

/-- How two operations on the chain may follow each other: no answer is created from
    an offer that is set before it and is not its own, and no offer is set behind one
    that is to be answered. -/
def Follows (x y : PcOp Json × Call) : Prop :=
  (setsOffer x.1 = true → y.1 ≠ .createAnswer) ∧
    (raises x.2 = true → setsOffer y.1 = false)

/-- An operation that neither sets an offer nor creates an answer may follow
    anything. -/
theorem Follows.plain {x y : PcOp Json × Call} (hset : setsOffer y.1 = false)
    (hca : y.1 ≠ .createAnswer) : Follows x y :=
  ⟨fun _ => hca, fun _ => hset⟩

/-- **THE INVARIANT**: operations follow each other in turn; an answer about to be
    created is for an offer, which is the remote one as long as any is pending; and
    every answer created so far was created from its own offer. -/
structure Turns (p : Page × List Created) : Prop where
  order : p.1.chain.Pairwise Follows
  state : p.1.signaling ≠ some .haveLocalPranswer
  due : ∀ env m, (.createAnswer, .answerCreated env m) ∈ p.1.chain →
    ∃ d, description m = some d ∧ d.type = .offer ∧
      ∀ pc, p.1.peerConnectionRef = some pc → pc.signalingState = .haveRemoteOffer →
        pc.pendingRemote = some d
  applied : ∀ op env m a, (op, .answerApplied env m a) ∈ p.1.chain →
    ∃ c ∈ p.2, c.m = m ∧ c.answer = a
  log : ∀ c ∈ p.2, ∃ d, description c.m = some d ∧ d.type = .offer ∧ c.remote = some d

/-! ## Every step keeps it -/

/-- A step that changes neither the chain nor the connection, beyond its senders. -/
theorem Turns.of_same {p : Page × List Created} {t : Page} (hi : Turns p)
    (hpc : SamePc p.1 t) (hchain : t.chain = p.1.chain) : Turns (t, p.2) := by
  refine ⟨?_, ?_, fun env m hm => ?_, fun op env m a hm => ?_, hi.log⟩
  · rw [hchain]
    exact hi.order
  · rw [hpc.signaling]
    exact hi.state
  · rw [hchain] at hm
    obtain ⟨d, hd, hty, hrem⟩ := hi.due env m hm
    refine ⟨d, hd, hty, fun pc' hpc' hst => ?_⟩
    rcases hpc with ⟨-, hn⟩ | ⟨pc, pc₁, hs, ht, hsig⟩
    · rw [hn] at hpc'
      exact nomatch hpc'
    · cases ht.symm.trans hpc'
      rw [hsig] at hst ⊢
      exact hrem pc hs hst
  · rw [hchain] at hm
    exact hi.applied op env m a hm

/-- A call joins the chain that neither creates nor applies an answer. -/
theorem Turns.join {p : Page × List Created} {t : Page} {x : PcOp Json × Call}
    (hi : Turns p) (hpc : SamePc p.1 t) (hchain : t.chain = p.1.chain ++ [x])
    (hca : x.1 ≠ .createAnswer) (happ : ∀ env m a, x.2 ≠ .answerApplied env m a)
    (hset : ∀ y ∈ p.1.chain, raises y.2 = true → setsOffer x.1 = false) :
    Turns (t, p.2) := by
  have hsame := hi.of_same (t := { t with chain := p.1.chain }) hpc rfl
  refine ⟨?_, hsame.state, fun env m hm => ?_, fun op env m a hm => ?_, hi.log⟩
  · rw [hchain, List.pairwise_append]
    refine ⟨hi.order, List.pairwise_singleton _ _, fun y hy z hz => ?_⟩
    cases List.mem_singleton.mp hz
    exact ⟨fun _ => hca, hset y hy⟩
  · rw [hchain] at hm
    rcases List.mem_append.mp hm with hm | hm
    · exact hsame.due env m hm
    · cases List.mem_singleton.mp hm
      exact absurd rfl hca
  · rw [hchain] at hm
    rcases List.mem_append.mp hm with hm | hm
    · exact hi.applied op env m a hm
    · cases List.mem_singleton.mp hm
      exact absurd rfl (happ env m a)

/-- The first call leaves the chain and the connection moves on to `pc'`, in which no
    remote offer is pending unless it was before. -/
theorem Turns.leave {p : Page × List Created} {t : Page} {pc pc' : Pc}
    {x : PcOp Json × Call} {rest : List (PcOp Json × Call)} (hi : Turns p)
    (hpc : p.1.peerConnectionRef = some pc) (hchain : p.1.chain = x :: rest)
    (hpc' : t.peerConnectionRef = some pc') (hrest : t.chain = rest)
    (hstate : pc'.signalingState ≠ .haveLocalPranswer)
    (hkeep : pc'.signalingState = .haveRemoteOffer → pc' = pc) : Turns (t, p.2) := by
  have horder := hi.order
  rw [hchain, List.pairwise_cons] at horder
  refine ⟨by rw [hrest]; exact horder.2, ?_, fun env m hm => ?_, fun op env m a hm => ?_,
    hi.log⟩
  · rw [signaling_some hpc']
    exact fun h => hstate (Option.some.inj h)
  · rw [hrest] at hm
    obtain ⟨d, hd, hty, hrem⟩ := hi.due env m (by rw [hchain]; exact List.mem_cons_of_mem _ hm)
    refine ⟨d, hd, hty, fun pc₁ hpc₁ hst => ?_⟩
    cases hpc'.symm.trans hpc₁
    rw [hkeep hst]
    exact hrem pc hpc (by rw [← hkeep hst]; exact hst)
  · rw [hrest] at hm
    exact hi.applied op env m a (by rw [hchain]; exact List.mem_cons_of_mem _ hm)

/-- Whichever log is kept beside it. -/
theorem Turns.relog {p : Page × List Created} {l : List Created} (hi : Turns p)
    (hsub : ∀ c ∈ p.2, c ∈ l)
    (hlog : ∀ c ∈ l, ∃ d, description c.m = some d ∧ d.type = .offer ∧ c.remote = some d) :
    Turns (p.1, l) := by
  refine ⟨hi.order, hi.state, hi.due, fun op env m a hm => ?_, hlog⟩
  obtain ⟨c, hc, heq⟩ := hi.applied op env m a hm
  exact ⟨c, hsub c hc, heq⟩

/-- Only a fulfilled operation is written down. -/
theorem created_settled {s t : Page} {pc pc' : Pc} {op : PcOp Json} {call : Call}
    {rest : List (PcOp Json × Call)} {sdp : String} {sections : List Kind}
    {states : List SignalingState}
    (h : Fulfilled s t sdp sections pc pc' op call rest states) :
    created s (.settle (.fulfilled sdp sections)) = answerOf sdp pc call := by
  unfold created
  rw [h.before, h.chain]

/-- The offer of a call is set: it is the remote offer, and if the call is to answer
    it, its answer is created next. -/
theorem turns_offered {p : Page × List Created} {t : Page} {pc' : Pc} {env : Vars}
    {m : Received} {b : Bool} {d : Desc} {rest : List (PcOp Json × Call)} {sdp : String}
    (hi : Turns p) (hty : d.type = .offer) (hd : description m = some d)
    (hchain : p.1.chain = (.setRemoteDescription d, .remoteApplied env m b) :: rest)
    (hpc' : t.peerConnectionRef = some pc') (hst : pc'.signalingState = .haveRemoteOffer)
    (hrem : pc'.pendingRemote = some d)
    (hch : t.chain = rest ++ followUp sdp (.remoteApplied env m b)) : Turns (t, p.2) := by
  have hset : setsOffer (.setRemoteDescription d) = true := by simp [setsOffer, hty]
  have horder := hi.order
  rw [hchain, List.pairwise_cons] at horder
  obtain ⟨hhead, hrest⟩ := horder
  -- no other answer is about to be created
  have hnone : ∀ env' m', (.createAnswer, .answerCreated env' m') ∉ rest :=
    fun env' m' hm => (hhead _ hm).1 hset rfl
  have hold : ∀ op env' m' a, (op, .answerApplied env' m' a) ∈ rest →
      ∃ c ∈ p.2, c.m = m' ∧ c.answer = a :=
    fun op env' m' a hm =>
      hi.applied op env' m' a (by rw [hchain]; exact List.mem_cons_of_mem _ hm)
  have hstate : t.signaling ≠ some .haveLocalPranswer := by
    rw [signaling_some hpc', hst]
    exact fun h => (nomatch h)
  cases b with
  | false =>
      rw [show followUp sdp (.remoteApplied env m false) = [] from rfl,
        List.append_nil] at hch
      refine ⟨by rw [hch]; exact hrest, hstate, fun env' m' hm => ?_,
        fun op env' m' a hm => ?_, hi.log⟩
      · rw [hch] at hm
        exact absurd hm (hnone env' m')
      · rw [hch] at hm
        exact hold op env' m' a hm
  | true =>
      rw [show followUp sdp (.remoteApplied env m true)
        = [(.createAnswer, .answerCreated env m)] from rfl] at hch
      refine ⟨?_, hstate, fun env' m' hm => ?_, fun op env' m' a hm => ?_, hi.log⟩
      · rw [hch, List.pairwise_append]
        refine ⟨hrest, List.pairwise_singleton _ _, fun y hy z hz => ?_⟩
        cases List.mem_singleton.mp hz
        refine ⟨fun hs => ?_, fun _ => rfl⟩
        rw [(hhead y hy).2 rfl] at hs
        exact nomatch hs
      · rw [hch] at hm
        rcases List.mem_append.mp hm with hm | hm
        · exact absurd hm (hnone env' m')
        · cases List.mem_singleton.mp hm
          refine ⟨d, hd, hty, fun pc₁ hpc₁ _ => ?_⟩
          cases hpc'.symm.trans hpc₁
          exact hrem
      · rw [hch] at hm
        rcases List.mem_append.mp hm with hm | hm
        · exact hold op env' m' a hm
        · cases List.mem_singleton.mp hm

/-- An answer is created, and written down. -/
theorem turns_created {p : Page × List Created} {t : Page} {pc : Pc} {env : Vars}
    {m : Received} {rest : List (PcOp Json × Call)} {sdp : String} (hi : Turns p)
    (hpc : p.1.peerConnectionRef = some pc)
    (hchain : p.1.chain = (.createAnswer, .answerCreated env m) :: rest)
    (hst : pc.signalingState = .haveRemoteOffer) (hpc' : t.peerConnectionRef = some pc)
    (hch : t.chain = rest ++ followUp sdp (.answerCreated env m)) :
    Turns (t, p.2 ++ [⟨m, ⟨.answer, sdp⟩, pc.remoteDescription⟩]) := by
  obtain ⟨d, hd, hty, hrem⟩ := hi.due env m (by rw [hchain]; exact List.mem_cons_self ..)
  have hremote : pc.remoteDescription = some d := by
    rw [Pc.remoteDescription, hrem pc hpc hst]
    rfl
  have hleft := hi.leave (t := { t with chain := rest }) hpc hchain hpc' rfl
    (by rw [hst]; exact fun h => (nomatch h)) (fun _ => rfl)
  have hlogged := hleft.relog (l := p.2 ++ [⟨m, ⟨.answer, sdp⟩, pc.remoteDescription⟩])
    (fun c hc => List.mem_append_left _ hc) (fun c hc => ?_)
  · refine ⟨?_, hlogged.state, fun env' m' hm => ?_, fun op env' m' a hm => ?_,
      hlogged.log⟩
    · rw [hch]
      refine List.pairwise_append.mpr ⟨hlogged.order, List.pairwise_singleton _ _,
        fun y _ z hz => ?_⟩
      cases List.mem_singleton.mp hz
      exact .plain rfl (fun h => (nomatch h))
    · rw [hch] at hm
      rcases List.mem_append.mp hm with hm | hm
      · exact hlogged.due env' m' hm
      · cases List.mem_singleton.mp hm
    · rw [hch] at hm
      rcases List.mem_append.mp hm with hm | hm
      · exact hlogged.applied op env' m' a hm
      · cases List.mem_singleton.mp hm
        exact ⟨_, List.mem_append_right _ (List.mem_singleton.mpr rfl), rfl, rfl⟩
  · rcases List.mem_append.mp hc with hc | hc
    · exact hi.log c hc
    · cases List.mem_singleton.mp hc
      exact ⟨d, hd, hty, hremote⟩

/-- The operation of the first call is fulfilled. -/
theorem turns_fulfilled {p : Page × List Created} {t : Page} {pc pc' : Pc}
    {op : PcOp Json} {call : Call} {rest : List (PcOp Json × Call)} {sdp : String}
    {sections : List Kind} {states : List SignalingState} (hi : Turns p)
    (hmatch : Matches op call)
    (h : Fulfilled p.1 t sdp sections pc pc' op call rest states) :
    Turns (t, p.2 ++ answerOf sdp pc call) := by
  obtain ⟨-, hpc, hchain, hperf, hpc', -, hch, -⟩ := h
  have hstate : pc.signalingState ≠ .haveLocalPranswer := by
    intro h
    exact hi.state (by rw [signaling_some hpc, h])
  -- a call that has nothing more to await, in a state with no remote offer pending
  have hdone : answerOf sdp pc call = [] → followUp sdp call = [] →
      pc'.signalingState ≠ .haveLocalPranswer →
      (pc'.signalingState = .haveRemoteOffer → pc' = pc) →
      Turns (t, p.2 ++ answerOf sdp pc call) := by
    intro hlog hnext hst hkeep
    rw [hlog, List.append_nil]
    rw [hnext, List.append_nil] at hch
    exact hi.leave hpc hchain hpc' hch hst hkeep
  cases hmatch with
  | @offerCreated env =>
      obtain ⟨rfl, -, hst⟩ := perform_createOffer hperf
      rw [show answerOf sdp pc' (.offerCreated env) = [] from rfl, List.append_nil]
      have hleft := hi.leave (t := { t with chain := rest }) hpc hchain hpc' rfl hstate
        (fun _ => rfl)
      exact hleft.join (.of_eq rfl) hch (fun h => (nomatch h)) (fun _ _ _ h => (nomatch h))
        (fun _ _ _ => rfl)
  | @offerApplied env d hd _ =>
      obtain ⟨hst, -⟩ := perform_localOffer hd hperf
      refine hdone rfl rfl ?_ ?_
      · rw [hst]
        exact fun h => (nomatch h)
      · rw [hst]
        exact fun h => (nomatch h)
  | @remoteApplied env m sdpJson d hsdp hd _ =>
      have hdesc : description m = some d := by
        rw [description, hsdp, Option.bind_some, hd]
      have hplain : d.type ≠ .offer →
          followUp sdp (.remoteApplied env m (isOfferSdp sdpJson)) = [] := by
        intro hne
        cases hoff : isOfferSdp sdpJson with
        | false => rfl
        | true => exact absurd (type_of_isOfferSdp hoff hd) hne
      cases hty : d.type with
      | offer =>
          obtain ⟨hst, hrem, -⟩ := perform_remoteOffer hty hperf
          rw [show answerOf sdp pc (.remoteApplied env m (isOfferSdp sdpJson)) = [] from rfl,
            List.append_nil]
          exact turns_offered hi hty hdesc hchain hpc' hst hrem hch
      | answer =>
          obtain ⟨rfl, -, -⟩ := perform_remoteAnswer hty hperf
          exact hdone rfl (hplain (by simp [hty])) (fun h => (nomatch h))
            (fun h => (nomatch h))
      | pranswer =>
          obtain ⟨hst, -⟩ := perform_remotePranswer hty hperf
          refine hdone rfl (hplain (by simp [hty])) ?_ ?_
          · rw [hst]
            exact fun h => (nomatch h)
          · rw [hst]
            exact fun h => (nomatch h)
      | rollback =>
          obtain ⟨hst, -⟩ := perform_remoteRollback hty hperf
          refine hdone rfl (hplain (by simp [hty])) ?_ ?_
          · rw [hst]
            exact fun h => (nomatch h)
          · rw [hst]
            exact fun h => (nomatch h)
  | @answerCreated env m _ =>
      obtain ⟨rfl, -, hst⟩ := perform_createAnswer hperf
      exact turns_created hi hpc hchain (hst.resolve_right hstate) hpc' hch
  | @answerApplied env m d hd _ _ =>
      obtain ⟨rfl, -, -⟩ := perform_localAnswer hd hperf
      exact hdone rfl rfl (fun h => (nomatch h)) (fun h => (nomatch h))
  | @candidateAdded c =>
      obtain ⟨rfl, -⟩ := perform_addIceCandidate hperf
      exact hdone rfl rfl hstate (fun _ => rfl)

theorem turns_step {p p' : Page × List Created} {e : Event} (hr : Reachable page p.1)
    (hi : Turns p) (hk : InTurn p e) (h : (logged page created).step p e = some p') :
    Turns p' := by
  obtain ⟨hst, hlog⟩ := logged_step h
  obtain ⟨t, l⟩ := p'
  have hmatched := matched_reachable hr
  replace hst : step p.1 e = some t := hst
  replace hlog : l = p.2 ++ created p.1 e := hlog
  by_cases hsettle : ∃ sdp sections, e = .settle (.fulfilled sdp sections)
  · obtain ⟨sdp, sections, rfl⟩ := hsettle
    obtain ⟨pc, pc', op, call, rest, states, hful⟩ := step_fulfilled hst
    rw [hlog, created_settled hful]
    exact turns_fulfilled hi
      (hmatched.calls _ (by rw [hful.chain]; exact List.mem_cons_self ..)) hful
  · have hnone : created p.1 e = [] := by
      unfold created
      split
      · exact absurd ⟨_, _, rfl⟩ hsettle
      · rfl
    rw [hnone, List.append_nil] at hlog
    subst hlog
    cases step_negotiates hr hst with
    | idle hpc htalk _ => exact hi.of_same hpc htalk.chain
    | mounts _ hpc hnew htalk =>
        have hchain : t.chain = [] := htalk.chain.trans (hmatched.before hpc).1
        refine ⟨?_, ?_, fun env m hm => ?_, fun op env m a hm => ?_, hi.log⟩
        · rw [hchain]
          exact List.Pairwise.nil
        · rw [signaling_some hnew]
          exact fun h => (by cases h)
        · rw [hchain] at hm
          cases hm
        · rw [hchain] at hm
          cases hm
    | offers _ _ hpc _ _ hchain =>
        exact hi.join hpc hchain (fun h => (by cases h)) (fun _ _ _ h => (by cases h))
          (fun _ _ _ => rfl)
    | @handles _ m sdp d hm hid hdue hsdp hd hpc _ _ hchain =>
        refine hi.join hpc hchain (fun h => (by cases h)) (fun _ _ _ h => (by cases h))
          (fun y hy hraise => ?_)
        -- an offer is handed over only in turn
        have hdesc : (handed p.1).bind description = some d := by
          rw [handed, if_pos ⟨hdue, hid⟩, hm, Option.bind_some, description, hsdp,
            Option.bind_some, hd]
        simp only [InTurn, inTurn, hdesc] at hk
        rcases Bool.or_eq_true_iff.mp hk with hty | hfree
        · simpa [setsOffer] using hty
        · rw [Bool.not_eq_true', List.any_eq_false] at hfree
          exact absurd hraise (hfree y hy)
    | fails _ _ _ _ hpc _ _ hchain => exact hi.of_same hpc hchain
    | candidate hpc _ _ hchain =>
        exact hi.join (.of_eq hpc) hchain (fun h => (by cases h))
          (fun _ _ _ h => (by cases h)) (fun _ _ _ => rfl)
    | @rejected _ pc _ _ _ _ hpc hchain hpc' _ hrest =>
        refine hi.leave hpc hchain hpc' hrest (fun h => ?_) (fun _ => rfl)
        exact hi.state (by rw [signaling_some hpc, h])
    | fulfilled => exact absurd ⟨_, _, rfl⟩ hsettle
    | unmount _ _ htalk =>
        have hclosed : ∀ pc, t.peerConnectionRef = some pc → pc.signalingState = .closed := by
          intro pc hpc
          cases step_cases hst with
          | unmount =>
              obtain ⟨pc₁, -, rfl⟩ := Option.map_eq_some_iff.mp hpc
              rfl
        refine ⟨by rw [htalk.chain]; exact hi.order, ?_, fun env m hm => ?_,
          fun op env m a hm => hi.applied op env m a (by rw [← htalk.chain]; exact hm),
          hi.log⟩
        · intro h
          obtain ⟨pc, hpc, hs⟩ := Option.map_eq_some_iff.mp h
          rw [hclosed pc hpc] at hs
          cases hs
        · obtain ⟨d, hd, hty, -⟩ := hi.due env m (by rw [← htalk.chain]; exact hm)
          refine ⟨d, hd, hty, fun pc hpc hs => ?_⟩
          rw [hclosed pc hpc] at hs
          cases hs

theorem turns_reachVia {p : Page × List Created}
    (h : ReachVia (logged page created) InTurn p) : Turns p := by
  refine ReachVia.invariant (fun p h0 => ?_) (fun p e p' hr hi hk hst => ?_) h
  · obtain ⟨s, l⟩ := p
    obtain ⟨hs, hl⟩ := h0
    cases hs
    cases hl
    exact ⟨List.Pairwise.nil, fun h => (nomatch h), fun _ _ hm => (nomatch hm),
      fun _ _ _ _ hm => (nomatch hm), fun _ hc => (nomatch hc)⟩
  · refine turns_step ?_ hi hk hst
    exact ReachVia.reachable (ReachVia.unlogged (C := fun s e => inTurn s e = true) hr)

/-- **EVERY ANSWER ANSWERS THE OFFER OF ITS CALL**, in every run in which no offer is
    handed over while another one still waits for its `setRemoteDescription`.  An answer
    the page sends is sent by a call of `handleSDPMessage` to the sender of the message
    it handles; the message carries an offer; and the answer was created for it, while
    that offer was the remote description of the connection. -/
theorem answers_in_turn {p : Page × List Created}
    (h : ReachVia (logged page created) InTurn p) {e : Event} {s' : Page} {j : Json}
    (hst : step p.1 e = some s') (hsent : s'.sent = p.1.sent ++ [j])
    (hty : hasType "answer" j = true) :
    ∃ op env rest, ∃ c ∈ p.2, ∃ d,
      p.1.chain = (op, .answerApplied env c.m c.answer) :: rest ∧
      j.get "to" = c.m.data.get "from" ∧ j.get "sdp" = some (descJson c.answer) ∧
      description c.m = some d ∧ d.type = .offer ∧ c.remote = some d := by
  have hr : Reachable page p.1 :=
    ReachVia.reachable (ReachVia.unlogged (C := fun s e => inTurn s e = true) h)
  have hi := turns_reachVia h
  rcases sent_step (step_negotiates hr hst) with heq | ⟨op, call, rest, hchain, heq⟩
  · rw [heq] at hsent
    exact absurd hsent (by simp)
  · rw [heq] at hsent
    have hj : j ∈ frames call := by
      rw [List.append_cancel_left hsent]
      exact List.mem_singleton.mpr rfl
    rcases isFrame_of_frames hj with ⟨env, d, -, hfr⟩ | ⟨env, m, a, rfl, hfr⟩
    · rw [hasType, hfr.type] at hty
      cases hty
    · obtain ⟨c, hc, rfl, rfl⟩ :=
        hi.applied op env m a (by rw [hchain]; exact List.mem_cons_self ..)
      obtain ⟨d, hd, hoff, hrem⟩ := hi.log c hc
      exact ⟨op, env, rest, c, hc, d, hchain, hfr.recipient, hfr.sdp, hd, hoff, hrem⟩

/-! ## Two runs -/

/-- The page and its log after a list of events. -/
def loggedAfter (es : List Event) : Page × List Created :=
  LtsRun.after (logged page created) (.initial, []) es

/-- A second offer is handed over before the first one is set; both are answered. -/
def mixedRun : List Event :=
  welcomedRun ++ [.message (some (offerFrom "b" "1")), .render, .flushEffects,
    .message (some (offerFrom "c" "2")), .render, .flushEffects,
    .settle (.fulfilled "" [.video]), .settle (.fulfilled "" []),
    .settle (.fulfilled "answer" []), .settle (.fulfilled "answer" [])]

/-- The answer for `b` was created from the offer of `c`, and is sent to `b`. -/
theorem answer_mixed_up :
    ∃ p : Page × List Created, Reachable (logged page created) p ∧
      ∃ s' j, step p.1 (.settle (.fulfilled "" [])) = some s' ∧
        s'.sent = p.1.sent ++ [j] ∧ hasType "answer" j = true ∧
        j.get "to" = some (.str "b") ∧ j.get "sdp" = some (descJson ⟨.answer, "answer"⟩) ∧
        p.2.map (fun c => (c.m.data.get "from", c.answer, c.remote))
          = [(some (.str "b"), ⟨.answer, "answer"⟩, some ⟨.offer, "2"⟩),
            (some (.str "c"), ⟨.answer, "answer"⟩, some ⟨.offer, "2"⟩)] :=
  ⟨loggedAfter mixedRun,
    ReachVia.of_after (c := fun _ _ => true) (fun _ _ _ => trivial) (logged_init rfl)
      (by decide +kernel),
    (step (loggedAfter mixedRun).1 (.settle (.fulfilled "" []))).getD .initial,
    .obj [("from", .str "a"), ("to", .str "b"), ("sdp", descJson ⟨.answer, "answer"⟩),
      ("type", .str "answer")],
    by decide +kernel, by decide +kernel, by decide +kernel, by decide +kernel,
    by decide +kernel, by decide +kernel⟩

/-- The second offer is handed over while the first one is being answered. -/
def inTurnRun : List Event :=
  welcomedRun ++ [.message (some (offerFrom "b" "1")), .render, .flushEffects,
    .settle (.fulfilled "" [.video]), .message (some (offerFrom "c" "2")), .render,
    .flushEffects, .settle (.fulfilled "answer" []), .settle (.fulfilled "" [])]

theorem inTurnRun_reachVia :
    ReachVia (logged page created) InTurn (loggedAfter inTurnRun) :=
  ReachVia.of_after (fun _ _ hc => hc) (logged_init rfl) (by decide +kernel)

theorem answers_in_turn_sample :
    (loggedAfter inTurnRun).1.chain.length = 2 ∧
    ∃ op env rest, ∃ c ∈ (loggedAfter inTurnRun).2, ∃ d,
      (loggedAfter inTurnRun).1.chain = (op, .answerApplied env c.m c.answer) :: rest ∧
      some (.str "b") = c.m.data.get "from" ∧
      some (descJson ⟨.answer, "answer"⟩) = some (descJson c.answer) ∧
      description c.m = some d ∧ d.type = .offer ∧ c.remote = some d :=
  ⟨by decide +kernel, answers_in_turn inTurnRun_reachVia
    (j := .obj [("from", .str "a"), ("to", .str "b"),
      ("sdp", descJson ⟨.answer, "answer"⟩), ("type", .str "answer")])
    (show step (loggedAfter inTurnRun).1 (.settle (.fulfilled "" []))
      = some ((step (loggedAfter inTurnRun).1 (.settle (.fulfilled "" []))).getD .initial) by
        decide +kernel)
    (by decide +kernel) (by decide +kernel)⟩

end CamAnswer
