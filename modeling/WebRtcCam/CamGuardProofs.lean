import WebRtcCam.CamNegotiationProofs

/-! # The negotiation guard

    `isNegotiatingRef` is to mirror the connection: raised when an offer is started
    or a remote offer applied, lowered when the connection announces `stable`, and
    lowered in the two `catch` blocks.  The `catch` blocks and the `stable` event do
    not look whose negotiation they end.

    * `Guard` — what the flag, the signaling state and the suspended calls have to do
      with each other;
    * `keepsGuard` — the steps that lower the flag for the state they find: no
      `handleSDPMessage` call fails while an offer of the page's own is under way or
      outstanding, or ends a negotiation while `createOffer` is suspended;
    * `guard_mirrors` — under which the flag is raised exactly outside `stable`. -/

namespace CamGuard

open LtsRun JsonText CamWire RtcSignaling CamPage CamClosure CamPending CamNegotiation

/-- A call of `createOffer`. -/
def isOfferCall : Call → Bool
  | .offerCreated _ => true
  | .offerApplied _ _ => true
  | _ => false

/-- A call of `handleSDPMessage` that has applied its offer and owes an answer. -/
def isAnswerCall : Call → Bool
  | .answerCreated _ _ => true
  | .answerApplied _ _ _ => true
  | _ => false

/-- A call of `handleSDPMessage`. -/
def isSDPCall : Call → Bool
  | .remoteApplied _ _ _ => true
  | c => isAnswerCall c

/-- The suspended calls of `createOffer`. -/
def offerCalls (chain : List (PcOp Json × Call)) : Nat :=
  chain.countP (fun x => isOfferCall x.2)

/-- The suspended calls that owe an answer. -/
def answerCalls (chain : List (PcOp Json × Call)) : Nat :=
  chain.countP (fun x => isAnswerCall x.2)

/-- The flag may be down: the connection is stable, or a remote offer is pending
    that a suspended call will answer. -/
def Covered (st : Option SignalingState) (chain : List (PcOp Json × Call)) : Prop :=
  st = some .stable ∨ (st = some .haveRemoteOffer ∧ answerCalls chain ≠ 0)

instance (st : Option SignalingState) (chain : List (PcOp Json × Call)) :
    Decidable (Covered st chain) := inferInstanceAs (Decidable (_ ∨ _))

/-- An operation that ends a negotiation. -/
def endsNegotiation : PcOp Json → Bool
  | .setLocalDescription d => d.type ≠ .offer
  | .setRemoteDescription d => d.type = .answer || d.type = .rollback
  | _ => false

/-- The description is an offer only if `data.sdp.type` is the string `offer`. -/
def plainType (m : Received) : Bool :=
  match (sdpOf m).bind RTCSessionDescription with
  | some d => d.type ≠ .offer || (sdpOf m).any isOfferSdp
  | none => true

/-- The steps that lower the flag only when the negotiation they end is the one the
    flag stands for. -/
def keepsGuard (s : Page) : Event → Bool
  | .settle .rejected =>
      match s.chain with
      | (_, call) :: rest =>
          !isSDPCall call || (offerCalls rest = 0 && Covered s.signaling rest)
      | [] => true
  | .settle (.fulfilled _ _) =>
      match s.chain with
      | (op, call) :: rest =>
          !(isSDPCall call && endsNegotiation op) || offerCalls rest = 0
      | [] => true
  | .flushEffects =>
      match handed s with
      | some m =>
          if describes m then plainType m
          else offerCalls s.chain = 0 && Covered s.signaling s.chain
      | none => true
  | _ => true

def KeepsGuard (s : Page) (e : Event) : Prop := keepsGuard s e = true

/-- The flag, the signaling state and the suspended calls. -/
structure Guard (st : Option SignalingState) (flag : Bool)
    (chain : List (PcOp Json × Call)) : Prop where
  typed : ∀ d env m b, (.setRemoteDescription d, .remoteApplied env m b) ∈ chain →
    d.type = .offer → b = true
  single : offerCalls chain ≤ 1
  raised : offerCalls chain ≠ 0 → flag = true ∧ Covered st chain
  lowered : flag = false → st = none ∨ Covered st chain
  meant : flag = true → offerCalls chain ≠ 0 ∨ st ≠ some .stable

/-! ## Calls come and go -/

theorem offerCalls_append (l₁ l₂ : List (PcOp Json × Call)) :
    offerCalls (l₁ ++ l₂) = offerCalls l₁ + offerCalls l₂ := List.countP_append

theorem answerCalls_append (l₁ l₂ : List (PcOp Json × Call)) :
    answerCalls (l₁ ++ l₂) = answerCalls l₁ + answerCalls l₂ := List.countP_append

theorem offerCalls_cons (x : PcOp Json × Call) (l : List (PcOp Json × Call)) :
    offerCalls (x :: l) = offerCalls l + if isOfferCall x.2 then 1 else 0 :=
  List.countP_cons

theorem answerCalls_cons (x : PcOp Json × Call) (l : List (PcOp Json × Call)) :
    answerCalls (x :: l) = answerCalls l + if isAnswerCall x.2 then 1 else 0 :=
  List.countP_cons

/-- A call that is none of `createOffer` joins the chain. -/
theorem Guard.join {st : Option SignalingState} {flag : Bool}
    {chain : List (PcOp Json × Call)} (h : Guard st flag chain)
    {x : PcOp Json × Call} (hx : isOfferCall x.2 = false)
    (ht : ∀ d env m b, x = (.setRemoteDescription d, .remoteApplied env m b) →
      d.type = .offer → b = true) : Guard st flag (chain ++ [x]) := by
  have hoff : offerCalls (chain ++ [x]) = offerCalls chain := by
    rw [offerCalls_append, offerCalls_cons, hx]
    rfl
  have hcov : Covered st chain → Covered st (chain ++ [x]) := by
    rintro (hs | ⟨hs, ha⟩)
    · exact Or.inl hs
    · refine Or.inr ⟨hs, ?_⟩
      rw [answerCalls_append]
      omega
  refine ⟨fun d env m b hm => ?_, ?_, ?_, ?_, ?_⟩
  · rcases List.mem_append.mp hm with hm | hm
    · exact h.typed d env m b hm
    · exact ht d env m b (List.mem_singleton.mp hm).symm
  · rw [hoff]
    exact h.single
  · rw [hoff]
    exact fun hne => ⟨(h.raised hne).1, hcov (h.raised hne).2⟩
  · exact fun hf => (h.lowered hf).imp id hcov
  · rw [hoff]
    exact h.meant

/-! ## Steps -/

section Settle

variable {st : Option SignalingState} {flag : Bool} {op : PcOp Json} {call : Call}
  {rest : List (PcOp Json × Call)}

theorem Guard.typed_rest (h : Guard st flag ((op, call) :: rest)) :
    ∀ d env m b, (.setRemoteDescription d, .remoteApplied env m b) ∈ rest →
      d.type = .offer → b = true :=
  fun d env m b hm => h.typed d env m b (List.mem_cons_of_mem _ hm)

/-- Calls that neither offer nor answer leave without a trace. -/
theorem Guard.leave (h : Guard st flag ((op, call) :: rest))
    (hoff : isOfferCall call = false) (hans : isAnswerCall call = false) :
    Guard st flag rest := by
  have hn : offerCalls ((op, call) :: rest) = offerCalls rest := by
    rw [offerCalls_cons, hoff]
    rfl
  have ha : answerCalls ((op, call) :: rest) = answerCalls rest := by
    rw [answerCalls_cons, hans]
    rfl
  have htyped := h.typed_rest
  obtain ⟨-, hsingle, hraised, hlowered, hmeant⟩ := h
  rw [Covered] at hraised hlowered
  rw [hn, ha] at hraised
  rw [ha] at hlowered
  rw [hn] at hsingle hmeant
  exact ⟨htyped, hsingle, hraised, hlowered, hmeant⟩

/-- A call goes on to its next operation. -/
theorem Guard.advance (h : Guard st flag ((op, call) :: rest)) {op' : PcOp Json}
    {call' : Call} (hoff : isOfferCall call' = isOfferCall call)
    (hans : isAnswerCall call' = isAnswerCall call)
    (hne : ∀ env m b, call' ≠ .remoteApplied env m b) :
    Guard st flag (rest ++ [(op', call')]) := by
  have hn : offerCalls ((op, call) :: rest) = offerCalls (rest ++ [(op', call')]) := by
    rw [offerCalls_cons, offerCalls_append, offerCalls_cons, hoff]
    simp [offerCalls]
  have ha : answerCalls ((op, call) :: rest) = answerCalls (rest ++ [(op', call')]) := by
    rw [answerCalls_cons, answerCalls_append, answerCalls_cons, hans]
    simp [answerCalls]
  have htyped : ∀ d env m b,
      (.setRemoteDescription d, .remoteApplied env m b) ∈ rest ++ [(op', call')] →
      d.type = .offer → b = true := by
    intro d env m b hm
    rcases List.mem_append.mp hm with hm | hm
    · exact h.typed_rest d env m b hm
    · cases List.mem_singleton.mp hm
      exact absurd rfl (hne env m b)
  obtain ⟨-, hsingle, hraised, hlowered, hmeant⟩ := h
  rw [Covered] at hraised hlowered
  rw [hn, ha] at hraised
  rw [ha] at hlowered
  rw [hn] at hsingle hmeant
  exact ⟨htyped, hsingle, hraised, hlowered, hmeant⟩

/-- A negotiation ends, with no `createOffer` suspended: the flag goes down. -/
theorem Guard.ended (h : Guard st flag ((op, call) :: rest))
    (hrest : offerCalls rest = 0) : Guard (some .stable) false rest := by
  refine ⟨h.typed_rest, by omega, fun hne => absurd hrest hne, fun _ => ?_, ?_⟩
  · exact Or.inr (Or.inl rfl)
  · exact fun hf => (nomatch hf)

/-- `createOffer` fails: nothing of its own is outstanding. -/
theorem Guard.offerFailed (h : Guard st flag ((op, call) :: rest))
    (hoff : isOfferCall call = true) : Guard st false rest := by
  have hone : offerCalls ((op, call) :: rest) = offerCalls rest + 1 := by
    rw [offerCalls_cons, hoff]
    rfl
  have hrest : offerCalls rest = 0 := by
    have := h.single
    omega
  have hcov : Covered st rest := by
    have hans : isAnswerCall call = false := by
      cases call with
      | offerCreated => rfl
      | offerApplied => rfl
      | _ => exact nomatch hoff
    rcases (h.raised (by omega)).2 with hs | ⟨hs, ha⟩
    · exact Or.inl hs
    · rw [answerCalls_cons, hans] at ha
      exact Or.inr ⟨hs, ha⟩
  exact ⟨h.typed_rest, by omega, fun hne => absurd hrest hne, fun _ => Or.inr hcov,
    fun hf => (nomatch hf)⟩

/-- `handleSDPMessage` fails where the flag may be down. -/
theorem Guard.sdpFailed (h : Guard st flag ((op, call) :: rest))
    (hrest : offerCalls rest = 0) (hcov : Covered st rest) : Guard st false rest :=
  ⟨h.typed_rest, by omega, fun hne => absurd hrest hne, fun _ => Or.inr hcov,
    fun hf => (nomatch hf)⟩

end Settle

/-- A call that raises nothing keeps the flag, unless `stable` is announced. -/
theorem flag_kept {call : Call} {flag : Bool} {states : List SignalingState}
    (hr : raises call = false) (hs : .stable ∉ states) :
    (raises call || (flag && .stable ∉ states)) = flag := by
  simp [hr, hs]

theorem flag_ended {call : Call} {flag : Bool} {states : List SignalingState}
    (hr : raises call = false) (hs : .stable ∈ states) :
    (raises call || (flag && .stable ∉ states)) = false := by
  simp [hr, hs]

/-- A rejected operation. -/
theorem guard_rejected {st : Option SignalingState} {flag : Bool} {op : PcOp Json}
    {call : Call} {rest : List (PcOp Json × Call)}
    (h : Guard st flag ((op, call) :: rest))
    (hk : isSDPCall call = true → offerCalls rest = 0 ∧ Covered st rest) :
    Guard st (call = .candidateAdded && flag) rest := by
  cases call with
  | offerCreated env => exact h.offerFailed rfl
  | offerApplied env d => exact h.offerFailed rfl
  | remoteApplied env m b => exact h.sdpFailed (hk rfl).1 (hk rfl).2
  | answerCreated env m => exact h.sdpFailed (hk rfl).1 (hk rfl).2
  | answerApplied env m d => exact h.sdpFailed (hk rfl).1 (hk rfl).2
  | candidateAdded => exact h.leave rfl rfl

/-- A remote description is applied, in a call of `handleSDPMessage`. -/
theorem guard_applied {pc pc' : Pc} {flag : Bool} {d : Desc} {env : Vars} {m : Received}
    {sdpJson : Json} {rest : List (PcOp Json × Call)} {sections : List Kind}
    {states : List SignalingState} {sdp : String}
    (h : Guard (some pc.signalingState) flag
      ((.setRemoteDescription d, .remoteApplied env m (isOfferSdp sdpJson)) :: rest))
    (hd : RTCSessionDescription sdpJson = some d)
    (hperf : pc.perform sections (.setRemoteDescription d : PcOp Json) = some (pc', states))
    (hk : endsNegotiation (.setRemoteDescription d) = true → offerCalls rest = 0) :
    Guard (some pc'.signalingState)
      (raises (.remoteApplied env m (isOfferSdp sdpJson)) || (flag && .stable ∉ states))
      (rest ++ followUp sdp (.remoteApplied env m (isOfferSdp sdpJson))) := by
  -- outside these two states no `createOffer` is suspended, and the flag is up
  have hnone : pc.signalingState = .haveLocalOffer ∨
      pc.signalingState = .haveRemotePranswer →
      offerCalls rest = 0 ∧ flag = true := by
    intro hs
    have hnot : ¬ Covered (some pc.signalingState)
        ((.setRemoteDescription d, .remoteApplied env m (isOfferSdp sdpJson))
          :: rest) := by
      rintro (hc | ⟨hc, -⟩) <;> rcases hs with hs | hs <;> rw [hs] at hc <;>
        exact nomatch hc
    refine ⟨?_, ?_⟩
    · by_contra hne
      refine hnot (h.raised ?_).2
      rw [offerCalls_cons]
      omega
    · cases hf : flag with
      | true => rfl
      | false =>
          rcases h.lowered hf with hc | hc
          · exact nomatch hc
          · exact absurd hc hnot
  have hplain : d.type ≠ .offer → isOfferSdp sdpJson = false := by
    intro hne
    by_contra hoff
    exact hne (type_of_isOfferSdp (by simpa using hoff) hd)
  cases hty : d.type with
  | offer =>
      have hoff := h.typed d env m _ (List.mem_cons_self ..) hty
      obtain ⟨hst, -, -⟩ := perform_remoteOffer hty hperf
      rw [hoff, hst]
      have hcov : Covered (some .haveRemoteOffer)
          (rest ++ [(.createAnswer, .answerCreated env m)]) := by
        refine Or.inr ⟨rfl, ?_⟩
        rw [answerCalls_append]
        exact Nat.succ_ne_zero _
      have hoffers : offerCalls (rest ++ [(.createAnswer, .answerCreated env m)])
          = offerCalls rest := by
        rw [offerCalls_append]
        rfl
      refine ⟨?_, ?_, fun _ => ⟨rfl, hcov⟩, fun hf => (nomatch hf),
        fun _ => Or.inr (fun hs => (nomatch hs))⟩
      · intro d' env' m' b hm
        rcases List.mem_append.mp hm with hm | hm
        · exact h.typed_rest d' env' m' b hm
        · cases List.mem_singleton.mp hm
      · have hs := h.single
        rw [offerCalls_cons] at hs
        show offerCalls (rest ++ [(.createAnswer, .answerCreated env m)]) ≤ 1
        omega
  | answer =>
      obtain ⟨rfl, hmem, hs⟩ := perform_remoteAnswer hty hperf
      rw [hplain (by simp [hty]), flag_ended rfl hmem,
        show followUp sdp (.remoteApplied env m false) = [] from rfl,
        List.append_nil]
      exact h.ended (hnone hs).1
  | pranswer =>
      obtain ⟨hst, hnot, hs⟩ := perform_remotePranswer hty hperf
      obtain ⟨hrest, hflag⟩ := hnone hs
      rw [hplain (by simp [hty]), hst, flag_kept rfl hnot, hflag,
        show followUp sdp (.remoteApplied env m false) = [] from rfl,
        List.append_nil]
      exact ⟨h.typed_rest, by omega, fun hne => absurd hrest hne,
        fun hf => (nomatch hf), fun _ => Or.inr (fun hs => (nomatch hs))⟩
  | rollback =>
      obtain ⟨hst, hmem⟩ := perform_remoteRollback hty hperf
      rw [hplain (by simp [hty]), hst, flag_ended rfl hmem,
        show followUp sdp (.remoteApplied env m false) = [] from rfl,
        List.append_nil]
      exact h.ended (hk (by simp [endsNegotiation, hty]))

/-- A fulfilled operation. -/
theorem guard_fulfilled {pc pc' : Pc} {flag : Bool} {op : PcOp Json} {call : Call}
    {rest : List (PcOp Json × Call)} {sections : List Kind}
    {states : List SignalingState} {sdp : String}
    (h : Guard (some pc.signalingState) flag ((op, call) :: rest))
    (hmatch : Matches op call) (hperf : pc.perform sections op = some (pc', states))
    (hk : isSDPCall call = true → endsNegotiation op = true → offerCalls rest = 0) :
    Guard (some pc'.signalingState) (raises call || (flag && .stable ∉ states))
      (rest ++ followUp sdp call) := by
  cases hmatch with
  | @offerCreated env =>
      obtain ⟨rfl, rfl, -⟩ := perform_createOffer hperf
      rw [flag_kept rfl (by simp)]
      exact h.advance rfl rfl (fun _ _ _ hc => (nomatch hc))
  | @offerApplied env d hd _ =>
      obtain ⟨hst, -, hnot, -⟩ := perform_localOffer hd hperf
      have hone := offerCalls_cons (.setLocalDescription d, .offerApplied env d) rest
      simp only [isOfferCall, if_true] at hone
      have hrest : offerCalls rest = 0 := by
        have := h.single
        omega
      have hflag := (h.raised (by omega)).1
      rw [flag_kept rfl hnot, hflag, hst, show followUp sdp (.offerApplied env d) = []
        from rfl, List.append_nil]
      refine ⟨h.typed_rest, by omega, fun hne => absurd hrest hne, fun hf => (nomatch hf),
        fun _ => Or.inr (fun hs => (nomatch hs))⟩
  | remoteApplied _ hd _ => exact guard_applied h hd hperf (hk rfl)
  | @answerCreated env m hid =>
      obtain ⟨rfl, rfl, -⟩ := perform_createAnswer hperf
      rw [flag_kept rfl (by simp)]
      exact h.advance rfl rfl (fun _ _ _ hc => (nomatch hc))
  | @answerApplied env m d hd _ hid =>
      obtain ⟨rfl, hmem, -⟩ := perform_localAnswer hd hperf
      rw [flag_ended rfl hmem, show followUp sdp (.answerApplied env m d) = [] from rfl,
        List.append_nil]
      exact h.ended (hk rfl (by simp [endsNegotiation, hd]))
  | @candidateAdded c =>
      obtain ⟨rfl, rfl⟩ := perform_addIceCandidate hperf
      rw [flag_kept rfl (by simp), show followUp sdp .candidateAdded = [] from rfl,
        List.append_nil]
      exact h.leave rfl rfl

theorem guard_step {s s' : Page} {e : Event} (hr : Reachable page s)
    (hi : Guard s.signaling s.isNegotiatingRef s.chain) (hk : KeepsGuard s e)
    (h : step s e = some s') (hmt : s'.mounted = true) :
    Guard s'.signaling s'.isNegotiatingRef s'.chain := by
  have hmatched := matched_reachable hr
  cases step_negotiates hr h with
  | idle hpc htalk _ =>
      rw [hpc.signaling, htalk.flag, htalk.chain]
      exact hi
  | mounts _ hnone hnew htalk =>
      obtain ⟨hchain, hflag⟩ := hmatched.before hnone
      rw [signaling_some hnew, htalk.flag, htalk.chain, hchain, hflag]
      refine ⟨fun _ _ _ _ hm => (by cases hm), Nat.zero_le _, fun hne => absurd rfl hne,
        fun _ => Or.inr (Or.inl rfl), fun hf => (by cases hf)⟩
  | offers _ hflag hpc hsome hflag' hchain =>
      rw [hpc.signaling, hflag', hchain]
      have hzero : offerCalls s.chain = 0 := by
        by_contra hne
        rw [(hi.raised hne).1] at hflag
        cases hflag
      have hone : offerCalls (s.chain ++ [(.createOffer, .offerCreated s.vars)]) = 1 := by
        rw [offerCalls_append, hzero]
        rfl
      have hcov : Covered s.signaling
          (s.chain ++ [(.createOffer, .offerCreated s.vars)]) := by
        rcases hi.lowered hflag with hn | hs | ⟨hs, ha⟩
        · rw [Page.signaling, Option.map_eq_none_iff] at hn
          rw [hn] at hsome
          cases hsome
        · exact Or.inl hs
        · refine Or.inr ⟨hs, ?_⟩
          rw [answerCalls_append]
          omega
      refine ⟨fun d env m b hm => ?_, hone.le, fun _ => ⟨rfl, hcov⟩,
        fun hf => (by cases hf), fun _ => Or.inl (by omega)⟩
      rcases List.mem_append.mp hm with hm | hm
      · exact hi.typed d env m b hm
      · cases List.mem_singleton.mp hm
  | @handles _ m sdp d hm hid hdue hsdp hd hpc _ hflag hchain =>
      rw [hpc.signaling, hflag, hchain]
      refine hi.join rfl (fun d' env m' b hx hty => ?_)
      cases hx
      -- the description is an offer only if the page takes it for one
      have hover : handed s = some m := by rw [handed, if_pos ⟨hdue, hid⟩, hm]
      simp only [KeepsGuard, keepsGuard, hover, describes, plainType, hsdp,
        Option.bind_some, hd, Option.isSome_some, if_true] at hk
      simpa [hty] using hk
  | @fails _ m hm hid hdue hnot hpc _ hflag hchain =>
      have hover : handed s = some m := by rw [handed, if_pos ⟨hdue, hid⟩, hm]
      have hsafe : offerCalls s.chain = 0 ∧ Covered s.signaling s.chain := by
        simpa [KeepsGuard, keepsGuard, hover, hnot] using hk
      rw [hpc.signaling, hflag, hchain]
      exact ⟨hi.typed, hi.single, fun hne => absurd hsafe.1 hne, fun _ => Or.inr hsafe.2,
        fun hf => (by cases hf)⟩
  | candidate hpc _ hflag hchain =>
      rw [Page.signaling, hpc, hflag, hchain]
      exact hi.join rfl (fun _ _ _ _ hx => (by cases hx))
  | @rejected _ pc op call rest _ hs hchain hpc hflag hrest =>
      rw [hchain] at hi
      have hsig : s'.signaling = s.signaling := by
        rw [signaling_some hpc, signaling_some hs]
      rw [hsig, hflag, hrest]
      refine guard_rejected hi (fun hsdp => ?_)
      simpa [KeepsGuard, keepsGuard, hchain, hsdp] using hk
  | @fulfilled _ pc pc' op call rest sdp sections states _ hs hchain hperf hpc hflag hrest =>
      have hmatch := hmatched.calls (op, call) (by rw [hchain]; exact List.mem_cons_self ..)
      rw [hchain, signaling_some hs] at hi
      rw [signaling_some hpc, hflag, hrest]
      refine guard_fulfilled hi hmatch hperf (fun hsdp hends => ?_)
      simpa [KeepsGuard, keepsGuard, hchain, hsdp, hends] using hk
  | unmount hno =>
      rw [hno] at hmt
      cases hmt

theorem guard_reachVia {s : Page} (h : ReachVia page KeepsGuard s)
    (hmt : s.mounted = true) : Guard s.signaling s.isNegotiatingRef s.chain := by
  refine ReachVia.invariant (I := fun s => s.mounted = true →
    Guard s.signaling s.isNegotiatingRef s.chain) (fun s hs _ => ?_)
    (fun s e s' hr hi hc hst hm => ?_) h hmt
  · subst hs
    exact ⟨fun _ _ _ _ hm => (nomatch hm), Nat.zero_le _, fun hne => absurd rfl hne,
      fun _ => Or.inl rfl, fun hf => (nomatch hf)⟩
  · exact guard_step hr.reachable (hi (step_mounted hst)) hc hst hm

/-- **THE GUARD MIRRORS THE CONNECTION** in runs whose steps keep the guard: with no
    call of `createOffer` or `handleSDPMessage` suspended, the flag is up exactly
    outside `stable`; and at no time, suspended calls or not, is a second offer
    started while one is under way or outstanding. -/
theorem guard_mirrors {s : Page} (h : ReachVia page KeepsGuard s)
    (hmt : s.mounted = true) {st : SignalingState} (hst : s.signaling = some st) :
    ((∀ x ∈ s.chain, x.2 = .candidateAdded) →
      (s.isNegotiatingRef = true ↔ st ≠ .stable)) ∧
    (st = .haveLocalOffer ∨ (∃ x ∈ s.chain, isOfferCall x.2 = true) →
      ∀ env, createOffer env s = s) := by
  have hg := guard_reachVia h hmt
  rw [hst] at hg
  constructor
  · intro hidle
    have hoff : offerCalls s.chain = 0 := by
      refine List.countP_eq_zero.mpr (fun x hx => ?_)
      rw [hidle x hx]
      exact fun hc => (nomatch hc)
    have hans : answerCalls s.chain = 0 := by
      refine List.countP_eq_zero.mpr (fun x hx => ?_)
      rw [hidle x hx]
      exact fun hc => (nomatch hc)
    refine ⟨fun hf hs => ?_, fun hne => ?_⟩
    · rcases hg.meant hf with ho | hn
      · exact ho hoff
      · exact hn (congrArg some hs)
    · by_contra hf
      rcases hg.lowered (by simpa using hf) with hn | hs | ⟨-, ha⟩
      · exact nomatch hn
      · exact hne (Option.some.inj hs)
      · exact ha hans
  · intro hout env
    have hflag : s.isNegotiatingRef = true := by
      rcases hout with hs | ⟨x, hx, hox⟩
      · by_contra hf
        rw [hs] at hg
        rcases hg.lowered (by simpa using hf) with hn | hn | ⟨hn, -⟩ <;> exact nomatch hn
      · refine (hg.raised ?_).1
        exact Nat.ne_of_gt (List.countP_pos_iff.mpr ⟨x, hx, hox⟩)
    rcases createOffer_cases env s with hc | ⟨hneg, -⟩ | ⟨_, _, -, -, hneg, -, -⟩
    · exact hc
    · rw [hflag] at hneg
      exact nomatch hneg
    · rw [hflag] at hneg
      exact nomatch hneg

/-- A camera stream with one video track. -/
def camera : Stream := ⟨[⟨0, .video⟩], by decide⟩

/-- The page, welcomed as `a` and with a camera, offers to `b`. -/
def offerRun : List Event :=
  [.flushEffects, .message (some (welcomeJson "a")), .userMedia (some camera), .edit "b",
    .render, .flushEffects, .press, .settle (.fulfilled "v=0" []),
    .settle (.fulfilled "" [])]

/-- An offer message without a description arrives and is handled. -/
def emptyOfferRun : List Event :=
  offerRun ++ [.message (some (.obj [("from", .str "x"), ("to", .str "a"),
    ("type", .str "offer")])), .render, .flushEffects]

/-- The page's own offer is outstanding, the malformed message lowers the flag, and the
    button starts a second offer. -/
theorem guard_lowered :
    ∃ s s' : Page, Reachable page s ∧ s.mounted = true ∧ s.chain = [] ∧
      s.signaling = some .haveLocalOffer ∧ s.isNegotiatingRef = false ∧
      step s .press = some s' ∧ s'.chain.map (·.1) = [.createOffer] :=
  ⟨stateAfter emptyOfferRun, stateAfter (emptyOfferRun ++ [.press]),
    stateAfter_reachable (by decide +kernel), by decide +kernel, by decide +kernel,
    by decide +kernel, by decide +kernel, by decide +kernel, by decide +kernel⟩

theorem offerRun_keepsGuard : ReachVia page KeepsGuard (stateAfter offerRun) := by
  have hrun : execVia page keepsGuard .initial offerRun = some (stateAfter offerRun) := by
    decide +kernel
  exact ReachVia.of_exec (fun _ _ hc => hc) rfl hrun

theorem guard_mirrors_sample :
    (stateAfter offerRun).signaling = some .haveLocalOffer ∧
    ((stateAfter offerRun).isNegotiatingRef = true ↔
      SignalingState.haveLocalOffer ≠ .stable) :=
  ⟨by decide +kernel, (guard_mirrors offerRun_keepsGuard (by decide +kernel)
    (by decide +kernel)).1 (by decide +kernel)⟩

end CamGuard
