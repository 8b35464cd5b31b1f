import WebRtcCam.CamAnswerProofs
import WebRtcCam.CamTrailProofs

/-! # The answer to the outstanding offer

    Messages carry no negotiation id and `handleSDPMessage` asks neither who sent an
    answer nor what it answers.  An answer to an earlier offer of the page, if it
    arrives while a later one is outstanding, is applied to the later one.  That an
    earlier offer is still around when the button starts the next one is what must not
    happen: then everything on the trail belongs to the offer that was sent last.

    The log keeps, for every answer created, the page, the message, the remote
    description, and how many offers each page had sent by then.

    * `turns_at` — every page sees its own part of the log, so that what was shown of
      answers at one page holds here;
    * `Current` — the invariant;
    * `answer_is_for_offer` — an answer that is accepted was made by the page the current
      offer was sent to, for that very offer. -/

namespace CamExact

open LtsRun JsonText CamWire CamNet CamHonest CamPending CamNegotiation CamMail CamStuck
open CamReply CamTrail
open CamAnswer (Created created inTurn InTurn Turns description answerOf)
open CamRelay (Addr Relay WebSocketSession)
open CamPage (Page Received Call Vars)
open RtcSignaling (PcOp Desc Pc)

/-! ## The log -/

/-- The offers a page has sent. -/
def offersOf (s : Page) : List Json := s.sent.filter (hasType "offer")

/-- The offer it sent last. -/
def lastOffer (s : Page) : Option Json := (offersOf s).getLast?

/-- An answer that was created: where, for what, and how many offers each page had sent
    by then. -/
structure Entry where
  page : Addr
  created : Created
  offers : Addr → Nat

/-- The answers a step creates. -/
def entries (n : Net) : Event → List Entry
  | .browser a d =>
      (created (n.page a) d).map (fun c => ⟨a, c, fun p => (offersOf (n.page p)).length⟩)
  | _ => []

/-- The part of the log that is about one page. -/
def entriesAt (b : Addr) (l : List Entry) : List Created :=
  (l.filter (fun E => E.page = b)).map Entry.created

/-- No call of `createOffer` is suspended, and nothing is left of an earlier offer. -/
def Clear (n : Net) (a : Addr) : Prop :=
  (∀ x ∈ (n.page a).chain, offerEnv x.2 = none) ∧
    ∀ y, n.relay.actor a = some y → Vanished y.id n

/-- The button starts an offer only when nothing is left of an earlier one, and offers
    are handed over in turn. -/
def OneOffer (P : Net × List Entry) : Event → Prop
  | .browser a .press => (P.1.page a).isNegotiatingRef = false → Clear P.1 a
  | .browser a d => inTurn (P.1.page a) d = true
  | _ => True

/-- The system with its log. -/
def netLog (from_str : String → Option Message) : Lts (Net × List Entry) Event :=
  logged (net everyone from_str) entries

section Log

variable {from_str : String → Option Message} {P : Net × List Entry}

theorem net_reachable (h : ReachVia (netLog from_str) OneOffer P) :
    Reachable (net everyone from_str) P.1 := by
  refine ReachVia.project (N := net everyone from_str) Prod.fst ?_ ?_ h
  · intro Q h0
    exact h0.1
  · intro Q e Q' _ _ hs
    exact Or.inr ⟨e, trivial, (logged_step hs).1⟩

theorem entriesAt_append (b : Addr) (l l' : List Entry) :
    entriesAt b (l ++ l') = entriesAt b l ++ entriesAt b l' := by
  rw [entriesAt, List.filter_append, List.map_append]
  rfl

theorem entriesAt_self (b : Addr) (l : List Created) (k : Addr → Nat) :
    entriesAt b (l.map (fun c => ⟨b, c, k⟩)) = l := by
  induction l with
  | nil => rfl
  | cons c l ih =>
      rw [List.map_cons, entriesAt, List.filter_cons_of_pos (by simp), List.map_cons]
      exact congrArg (c :: ·) ih

theorem entriesAt_other {a b : Addr} (h : a ≠ b) (l : List Created) (k : Addr → Nat) :
    entriesAt b (l.map (fun c => ⟨a, c, k⟩)) = [] := by
  induction l with
  | nil => rfl
  | cons c l ih =>
      rw [List.map_cons, entriesAt, List.filter_cons_of_neg (by simpa using h)]
      exact ih

/-- **EVERY PAGE HAS ITS LOG**, and its answers are in turn there. -/
theorem turns_at (h : ReachVia (netLog from_str) OneOffer P) (b : Addr) :
    Turns (P.1.page b, entriesAt b P.2) := by
  refine CamAnswer.turns_reachVia (ReachVia.project (N := logged CamPage.page created)
    (D := InTurn) (fun P => (P.1.page b, entriesAt b P.2)) ?_ ?_ h)
  · rintro ⟨n, l⟩ ⟨h0, hl⟩
    cases h0
    cases hl
    exact logged_init rfl
  · rintro ⟨n, l⟩ e ⟨n', l'⟩ _ hc hs
    obtain ⟨hst, hlog⟩ := logged_step hs
    replace hst : CamNet.step everyone from_str n e = some n' := hst
    replace hlog : l' = l ++ entries n e := hlog
    subst hlog
    -- a step that is none of the page's
    have hstill : n'.page b = n.page b → entriesAt b (entries n e) = [] →
        (n'.page b, entriesAt b (l ++ entries n e)) = (n.page b, entriesAt b l) := by
      intro hp hnone
      rw [hp, entriesAt_append, hnone, List.append_nil]
    have hturn : ∀ d, CamPage.step (n.page b) d = some (n'.page b) →
        inTurn (n.page b) d = true → entriesAt b (entries n e) = created (n.page b) d →
        ∃ d, InTurn (n.page b, entriesAt b l) d ∧ (logged CamPage.page created).step
          (n.page b, entriesAt b l) d
            = some (n'.page b, entriesAt b (l ++ entries n e)) := by
      intro d hd hin hnew
      refine ⟨d, hin, ?_⟩
      show (CamPage.step (n.page b) d).map _ = _
      rw [hd, entriesAt_append, hnew]
      rfl
    cases CamNet.step_cases hst with
    | server => exact Or.inl (hstill rfl rfl)
    | upload => exact Or.inl (hstill rfl rfl)
    | @browser a d s _ hm hd =>
        by_cases hab : a = b
        · subst hab
          have hself : (setPage n a s).page a = s := Function.update_self ..
          refine Or.inr (hturn d (by rw [hself]; exact hd) ?_ (entriesAt_self _ _ _))
          cases d with
          | press => rfl
          | _ => exact hc
        · refine Or.inl (hstill ?_ (entriesAt_other hab _ _))
          exact Function.update_of_ne (Ne.symm hab) ..
    | @download a x t s _ _ _ hd =>
        by_cases hab : a = b
        · subst hab
          have hself : Function.update n.page a s a = s := Function.update_self ..
          refine Or.inr (hturn (.message (parse t)) ?_ rfl rfl)
          show _ = some (Function.update n.page a s a)
          rw [hself]
          exact hd
        · refine Or.inl (hstill ?_ rfl)
          exact Function.update_of_ne (Ne.symm hab) ..

end Log

/-! ## The pending local offer of a page -/

/-- A local offer that is pending after a step was pending before, or is set and sent in
    this step. -/
theorem pendingLocal_step {s s' : Page} {e : CamPage.Event} (hr : Reachable CamPage.page s)
    (h : CamPage.step s e = some s') {pc' : Pc} {o : Desc}
    (hpc' : s'.peerConnectionRef = some pc') (ho : pc'.pendingLocal = some o) :
    (∃ pc, s.peerConnectionRef = some pc ∧ pc.pendingLocal = some o) ∨
      ∃ sdp sections env rest, e = .settle (.fulfilled sdp sections) ∧
        s.chain = (.setLocalDescription o, .offerApplied env o) :: rest := by
  cases step_pc hr h hpc' with
  | same hpc hsig =>
      rw [hsig] at ho
      exact Or.inl ⟨_, hpc, ho⟩
  | mounted hnew =>
      rw [hnew] at ho
      exact nomatch ho
  | @performed pc op call rest sdp sections states hpc hchain hperf =>
      rcases RtcSignaling.perform_local hperf with heq | heq | ⟨d, rfl, heq⟩
      · exact Or.inl ⟨pc, hpc, by rw [← heq]; exact ho⟩
      · rw [heq] at ho
        exact nomatch ho
      · cases heq.symm.trans ho
        have hmatch := (matched_reachable hr).calls (.setLocalDescription o, call)
          (by rw [hchain]; exact List.mem_cons_self ..)
        cases hmatch with
        | offerApplied => exact Or.inr ⟨sdp, sections, _, rest, rfl, hchain⟩
        | answerApplied hd _ _ =>
            obtain ⟨rfl, -⟩ := RtcSignaling.perform_localAnswer hd hperf
            exact nomatch ho
  | closed hpc heq =>
      rw [heq] at ho
      exact Or.inl ⟨_, hpc, ho⟩

/-- A page whose connection has a local offer outstanding knows which. -/
theorem sound_reachable {s : Page} (h : Reachable CamPage.page s) :
    ∀ pc, s.peerConnectionRef = some pc → pc.Sound := by
  refine pc_reachable (fun pc pc' hsig hi => ?_) ?_ (fun pc _ => ?_)
    (fun _ _ _ _ _ => RtcSignaling.perform_sound) h
  · rw [hsig]
    exact hi
  · rintro (hs | hs) <;> exact nomatch hs
  · rintro (hs | hs) <;> exact nomatch hs

/-! ## The invariant -/

section Invariant

variable {from_str : String → Option Message} {ids : Addr → String} {p : Addr}
  {P P' : Net × List Entry} {e : Event}

/-- What is on the trail of the page belongs to the offer it sent last: it is that offer,
    or an answer that the page it was sent to has made of it since. -/
def Traced (ids : Addr → String) (p : Addr) (P : Net × List Entry) (j : Json) : Prop :=
  ∃ f : Frame, lastOffer (P.1.page p) = some f.json ∧ f.desc.type = .offer ∧
    (j = f.json ∨ ∃ g : Frame, j = g.json ∧ g.desc.type = .answer ∧ g.sender = f.dest ∧
      ∃ E ∈ P.2, ids E.page = f.dest ∧ E.created.m.data = f.json ∧
        E.created.answer = g.desc ∧ E.offers p = (offersOf (P.1.page p)).length)

/-- The answer `d` to the message `m` was written down since the page `p` sent its last
    offer. -/
def Written (p : Addr) (P : Net × List Entry) (a : Addr) (m : Received) (d : Desc) : Prop :=
  ∃ E ∈ P.2, E.page = a ∧ E.created.m = m ∧ E.created.answer = d ∧
    E.offers p = (offersOf (P.1.page p)).length

/-- A call of `createOffer`. -/
def isOwn (x : PcOp Json × Call) : Bool := (offerEnv x.2).isSome

/-- **THE INVARIANT** for one page: there is at most one call of `createOffer`, and nothing
    on the trail while there is one; everything on the trail belongs to the last offer,
    and the pending local offer is that one, unless the trail is gone. -/
structure Current (ids : Addr → String) (p : Addr) (P : Net × List Entry) : Prop where
  fresh : P.1.relay.actor p = none → Vanished (ids p) P.1
  own : ∀ x ∈ (P.1.page p).chain, offerEnv x.2 ≠ none → Vanished (ids p) P.1
  single : (P.1.page p).chain.countP isOwn ≤ 1
  trail : Trail (ids p) (Traced ids p P) P.1
  answered : ∀ a, ∀ x ∈ (P.1.page a).chain, ∀ env m d, x.2 = .answerApplied env m d →
    waitsFor (ids p) m.data = true → Written p P a m d
  pending : ∀ pc o, (P.1.page p).peerConnectionRef = some pc → pc.pendingLocal = some o →
    Vanished (ids p) P.1 ∨ ∃ f : Frame, lastOffer (P.1.page p) = some f.json ∧ f.desc = o

/-- What was traced stays so, as long as the page sends no other offer. -/
theorem Traced.later {j : Json} (hlog : ∀ E ∈ P.2, E ∈ P'.2)
    (hoff : offersOf (P'.1.page p) = offersOf (P.1.page p)) (h : Traced ids p P j) :
    Traced ids p P' j := by
  obtain ⟨f, hlast, hty, hcases⟩ := h
  refine ⟨f, by rw [lastOffer, hoff]; exact hlast, hty, ?_⟩
  rcases hcases with heq | ⟨g, hg, hans, hs, E, hE, hpage, hm, ha, hk⟩
  · exact Or.inl heq
  · exact Or.inr ⟨g, hg, hans, hs, E, hlog E hE, hpage, hm, ha, by rw [hoff]; exact hk⟩

theorem Written.later {a : Addr} {m : Received} {d : Desc} (hlog : ∀ E ∈ P.2, E ∈ P'.2)
    (hoff : offersOf (P'.1.page p) = offersOf (P.1.page p)) (h : Written p P a m d) :
    Written p P' a m d := by
  obtain ⟨E, hE, hpage, hm, ha, hk⟩ := h
  exact ⟨E, hlog E hE, hpage, hm, ha, by rw [hoff]; exact hk⟩

/-- The offers a call sends. -/
theorem offersOf_frames {call : Call} (h : ∀ env d, call ≠ .offerApplied env d) :
    (frames call).filter (hasType "offer") = [] := by
  rw [List.filter_eq_nil_iff]
  intro j hj hty
  rcases isFrame_of_frames hj with ⟨env, d, rfl, -⟩ | ⟨env, m, d, rfl, hfr⟩
  · exact h env d rfl
  · rw [hasType, hfr.type] at hty
    cases hty

/-- What a call sends is one frame, if anything. -/
theorem frames_singleton {call : Call} {j : Json} (h : j ∈ frames call) : frames call = [j] := by
  have hframe : ∀ env message, j ∈ frame env message → frame env message = [j] := by
    intro env message hj
    unfold frame at hj ⊢
    split at hj
    · next hs => rw [if_pos hs, List.mem_singleton.mp hj]
    · exact nomatch hj
  cases call with
  | offerApplied env d => exact hframe env _ h
  | answerApplied env m d => exact hframe env _ h
  | _ => exact nomatch h

/-- The page sets its offer, and sends it if it can. -/
def Offering (n : Net) (p : Addr) (e : Event) : Prop :=
  ∃ sdp sections env d rest, e = .browser p (.settle (.fulfilled sdp sections)) ∧
    (n.page p).chain = (.setLocalDescription d, .offerApplied env d) :: rest

section Step

variable {C : Net → Event → Prop} {n n' : Net}

/-- The offers of the page stay what they are until it sets another one. -/
theorem offersOf_kept (hreach : ReachVia (net everyone from_str) C n)
    (h : Step everyone from_str n e n') (hoff : ¬ Offering n p e) :
    offersOf (n'.page p) = offersOf (n.page p) := by
  have hsame : (n'.page p).sent = (n.page p).sent →
      offersOf (n'.page p) = offersOf (n.page p) := by
    intro hs
    rw [offersOf, hs]
    rfl
  rcases h.page p with heq | ⟨d, hd, hev, -⟩
  · exact hsame (by rw [heq])
  · have hr := page_reachable p hreach
    cases step_negotiates hr hd with
    | idle _ htalk _ => exact hsame htalk.sent
    | mounts _ _ _ htalk => exact hsame htalk.sent
    | offers _ _ _ _ _ _ hs => exact hsame hs
    | handles _ _ _ _ _ _ _ _ _ hs => exact hsame hs
    | fails _ _ _ _ _ _ _ _ hs => exact hsame hs
    | candidate _ _ _ _ hs => exact hsame hs
    | rejected _ _ _ _ _ _ hs => exact hsame hs
    | unmount _ _ htalk => exact hsame htalk.sent
    | @fulfilled _ _ _ op call rest sdp sections _ _ _ hchain _ _ _ _ hsent =>
        rw [offersOf, hsent, List.filter_append, offersOf_frames, List.append_nil]
        · rfl
        · rintro env o rfl
          have hmatch := (matched_reachable hr).calls (op, .offerApplied env o)
            (by rw [hchain]; exact List.mem_cons_self ..)
          cases hmatch with
          | offerApplied =>
              rcases hev with he | hm
              · exact hoff ⟨sdp, sections, env, o, rest, he, hchain⟩
              · exact nomatch hm

/-- A trail that is gone stays gone, unless the page sets an offer and sends it. -/
theorem vanished_kept (hp : ∀ a, ids a = ids p → a = p)
    (hreach : ReachVia (net everyone from_str) C n) (hi : Trusty ids n)
    (hmoves : Moves ids n e n') (h : Vanished (ids p) n)
    (hsilent : ∀ op env d rest, (n.page p).chain = (op, .offerApplied env d) :: rest →
      ¬ Offering n p e ∨ frames (.offerApplied env d) = []) : Vanished (ids p) n' := by
  refine h.step hreach hi hmoves (fun a sdp sections op env d rest he hid hchain => ?_)
  obtain rfl := hp a hid
  rcases hsilent op env d rest hchain with hoff | hnone
  · have hmatch := (matched_reachable (page_reachable a hreach)).calls (op, .offerApplied env d)
      (by rw [hchain]; exact List.mem_cons_self ..)
    cases hmatch with
    | offerApplied => exact absurd ⟨sdp, sections, env, d, rest, he, hchain⟩ hoff
  · exact hnone

end Step

/-- A step of the system under the condition, with what is known about it. -/
structure Taken (from_str : String → Option Message) (ids : Addr → String)
    (P : Net × List Entry) (e : Event) (P' : Net × List Entry) : Prop where
  reach : Reachable (net everyone from_str) P.1
  named : Named ids P.1
  trusty : Trusty ids P.1
  moves : Moves ids P.1 e P'.1
  step : Step everyone from_str P.1 e P'.1
  log : P'.2 = P.2 ++ entries P.1 e
  cond : OneOffer P e

section Keeps

variable (hp : ∀ a, ids a = ids p → a = p) (ht : Taken from_str ids P e P')
  (hc : Current ids p P)

include hp ht hc

theorem fresh_step (hnone : P'.1.relay.actor p = none) : Vanished (ids p) P'.1 := by
  have hbefore := unconnected_before ht.step hnone
  refine vanished_kept hp ht.reach ht.trusty ht.moves (hc.fresh hbefore)
    (fun op env d rest hchain => Or.inr ?_)
  -- without a client id nothing is sent
  have hid := (unheard_unconnected ht.reach p hbefore).2 (op, .offerApplied env d)
    (by rw [hchain]; exact List.mem_cons_self ..) env rfl
  rw [frames, frame, hid]
  rfl

omit hp in
/-- A call of `createOffer` is there only when the trail was gone before the step. -/
theorem own_before {x : PcOp Json × Call} (hx : x ∈ (P'.1.page p).chain)
    (hown : offerEnv x.2 ≠ none) : Vanished (ids p) P.1 := by
  rcases ht.step.page p with heq | ⟨d, hd, hev, -⟩
  · rw [heq] at hx
    exact hc.own x hx hown
  · refine step_calls (P := fun c => offerEnv c ≠ none → Vanished (ids p) P.1)
      (fun hpress hflag _ => ?_) (fun _ _ _ _ _ h => absurd rfl h) (fun h => absurd rfl h)
      (fun sdp c y hcall hmem h => hcall (by rw [← offerEnv_followUp hmem]; exact h)) hc.own
      (step_negotiates (page_reachable p ht.reach) hd) x hx hown
    subst hpress
    rcases hev with he | hm
    · have hclear := ht.cond
      rw [he] at hclear
      cases hactor : P.1.relay.actor p with
      | none => exact hc.fresh hactor
      | some y =>
          rw [← ht.named p y hactor]
          exact (hclear hflag).2 y hactor
    · exact nomatch hm

omit hp in
theorem single_step : (P'.1.page p).chain.countP isOwn ≤ 1 := by
  have hsingle := hc.single
  rcases ht.step.page p with heq | ⟨d, hd, hev, -⟩
  · rw [heq]
    exact hsingle
  · cases step_negotiates (page_reachable p ht.reach) hd with
    | idle _ htalk _ => rw [htalk.chain]; exact hsingle
    | mounts _ _ _ htalk => rw [htalk.chain]; exact hsingle
    | offers _ hflag _ _ _ hchain =>
        have hclear : Clear P.1 p := by
          rcases hev with he | hm
          · have hcond := ht.cond
            rw [he] at hcond
            exact hcond hflag
          · exact nomatch hm
        have hnone : (P.1.page p).chain.countP isOwn = 0 := by
          rw [List.countP_eq_zero]
          intro x hx hown
          rw [isOwn, hclear.1 x hx] at hown
          exact nomatch hown
        rw [hchain, List.countP_append, hnone]
        exact Nat.le_refl 1
    | handles _ _ _ _ _ _ _ _ hchain => rw [hchain, List.countP_append]; exact hsingle
    | fails _ _ _ _ _ _ _ hchain => rw [hchain]; exact hsingle
    | candidate _ _ _ hchain => rw [hchain, List.countP_append]; exact hsingle
    | rejected _ _ hs _ _ hchain =>
        rw [hs, List.countP_cons] at hsingle
        rw [hchain]
        omega
    | @fulfilled _ _ _ op call rest sdp _ _ _ _ hs _ _ _ hchain _ =>
        have hfollow : (followUp sdp call).countP isOwn
            ≤ if isOwn (op, call) = true then 1 else 0 := by
          cases call with
          | offerCreated env => exact Nat.le_refl 1
          | remoteApplied env m b => cases b <;> exact Nat.le_refl 0
          | answerCreated env m => exact Nat.le_refl 0
          | offerApplied env d => exact Nat.zero_le _
          | answerApplied env m d => exact Nat.le_refl 0
          | candidateAdded => exact Nat.le_refl 0
        rw [hs, List.countP_cons] at hsingle
        rw [hchain, List.countP_append]
        omega
    | unmount _ _ htalk => rw [htalk.chain]; exact hsingle

omit hp hc in
theorem log_grows : ∀ E ∈ P.2, E ∈ P'.2 := by
  intro E hE
  rw [ht.log]
  exact List.mem_append_left _ hE

/-! ### Steps that set no offer of the page -/

section Other

variable (hoff : ¬ Offering P.1 p e)

include hoff

omit hc in
theorem vanished_other (h : Vanished (ids p) P.1) : Vanished (ids p) P'.1 :=
  vanished_kept hp ht.reach ht.trusty ht.moves h (fun _ _ _ _ _ => Or.inl hoff)

/-- What joins the trail is an answer to the last offer. -/
theorem trail_other (hdec : DecodesFrames from_str) :
    Trail (ids p) (Traced ids p P') P'.1 := by
  have hsame := offersOf_kept ht.reach ht.step hoff
  have hlater : ∀ j, Traced ids p P j → Traced ids p P' j :=
    fun j => Traced.later (log_grows ht) hsame
  refine Trail.step ht.reach ht.moves (hc.trail.mono hlater)
    (fun a d l hturn j hj hw => ?_)
  obtain ⟨op, call, rest, sdp, sections, rfl, hchain, -, hjoin⟩ :=
    turn_sends ht.reach ht.trusty hturn hj hw
  have hmem : (op, call) ∈ (P.1.page a).chain := by rw [hchain]; exact List.mem_cons_self ..
  cases hjoin with
  | @offer env f _ hsender hid _ _ =>
      obtain rfl := hp a (hsender.symm.trans hid)
      have hmatch := (matched_reachable (page_reachable a ht.reach)).calls _ hmem
      cases hmatch with
      | offerApplied =>
          rcases hturn.event with ⟨he, -⟩ | ⟨-, hm⟩
          · exact absurd ⟨sdp, sections, env, f.desc, rest, he, hchain⟩ hoff
          · exact nomatch hm
  | @answer env m f g hjson hsender hdest hans hg hoffer hid =>
      have hwait : waitsFor (ids p) m.data = true := by
        rw [hg, ← hid]
        exact offer_waits hoffer
      obtain ⟨f₀, hlast, hty, hcases⟩ := hc.trail.calls a _ hmem m rfl hwait
      -- the call answers an offer, so it answers the last one
      have hm : m.data = f₀.json := by
        rcases hcases with heq | ⟨g', hg', hans', -⟩
        · exact heq
        · rw [frame_injective (hg.symm.trans hg'), hans'] at hoffer
          exact nomatch hoffer
      obtain ⟨E, hE, hpage, hEm, hEa, hk⟩ := hc.answered a _ hmem env m f.desc rfl hwait
      have hto : f₀.dest = ids a := call_dest hdec ht.reach ht.named hmem rfl hm
      refine ⟨f₀, by rw [lastOffer, hsame]; exact hlast, hty, Or.inr ⟨f, hjson, hans, ?_, E,
        log_grows ht E hE, ?_, ?_, hEa, by rw [hsame]; exact hk⟩⟩
      · rw [hsender, hto]
      · rw [hpage, hto]
      · rw [hEm, hm]

omit hp in
/-- Answers are written down when they are created. -/
theorem answered_other {a : Addr} {x : PcOp Json × Call} (hx : x ∈ (P'.1.page a).chain)
    {env : Vars} {m : Received} {d : Desc} (hcall : x.2 = .answerApplied env m d)
    (hw : waitsFor (ids p) m.data = true) : Written p P' a m d := by
  have hsame := offersOf_kept ht.reach ht.step hoff
  have hold : x ∈ (P.1.page a).chain → Written p P' a m d := fun h =>
    (hc.answered a x h env m d hcall hw).later (log_grows ht) hsame
  -- a call that has just been started awaits something else
  have hnew : ∀ y : PcOp Json × Call, (P'.1.page a).chain = (P.1.page a).chain ++ [y] →
      (∀ env m d, y.2 ≠ .answerApplied env m d) → Written p P' a m d := by
    intro y hchain hy
    rw [hchain] at hx
    rcases List.mem_append.mp hx with hx | hx
    · exact hold hx
    · rw [List.mem_singleton.mp hx] at hcall
      exact absurd hcall (hy env m d)
  rcases ht.step.page a with heq | ⟨d', hd', hev, -⟩
  · exact hold (by rw [← heq]; exact hx)
  · cases step_negotiates (page_reachable a ht.reach) hd' with
    | idle _ htalk _ => exact hold (by rw [← htalk.chain]; exact hx)
    | mounts _ _ _ htalk => exact hold (by rw [← htalk.chain]; exact hx)
    | offers _ _ _ _ _ hchain => exact hnew _ hchain (fun _ _ _ h => (nomatch h))
    | handles _ _ _ _ _ _ _ _ hchain => exact hnew _ hchain (fun _ _ _ h => (nomatch h))
    | fails _ _ _ _ _ _ _ hchain => exact hold (by rw [← hchain]; exact hx)
    | candidate _ _ _ hchain => exact hnew _ hchain (fun _ _ _ h => (nomatch h))
    | rejected _ _ hs _ _ hchain =>
        refine hold ?_
        rw [hs]
        rw [hchain] at hx
        exact List.mem_cons_of_mem _ hx
    | @fulfilled _ pc _ op call rest sdp sections _ _ hpc hs _ _ _ hchain _ =>
        rw [hchain] at hx
        rcases List.mem_append.mp hx with hx | hx
        · exact hold (by rw [hs]; exact List.mem_cons_of_mem _ hx)
        · -- the answer has just been created
          have he : e = .browser a (.settle (.fulfilled sdp sections)) := by
            rcases hev with he | hm
            · exact he
            · exact nomatch hm
          cases call with
          | answerCreated env' m' =>
              cases List.mem_singleton.mp hx
              cases hcall
              refine ⟨⟨a, ⟨m, ⟨.answer, sdp⟩, pc.remoteDescription⟩,
                fun p => (offersOf (P.1.page p)).length⟩, ?_, rfl, rfl, rfl, ?_⟩
              · rw [ht.log, he, entries, created, hpc, hs]
                exact List.mem_append_right _ (List.mem_singleton.mpr rfl)
              · rw [hsame]
          | offerCreated env' =>
              rw [List.mem_singleton.mp hx] at hcall
              exact nomatch hcall
          | remoteApplied env' m' b =>
              cases b with
              | true =>
                  rw [List.mem_singleton.mp hx] at hcall
                  exact nomatch hcall
              | false => exact nomatch hx
          | _ => exact nomatch hx
    | unmount _ _ htalk => exact hold (by rw [← htalk.chain]; exact hx)

theorem pending_other {pc : Pc} {o : Desc} (hpc : (P'.1.page p).peerConnectionRef = some pc)
    (ho : pc.pendingLocal = some o) : Vanished (ids p) P'.1 ∨
      ∃ f : Frame, lastOffer (P'.1.page p) = some f.json ∧ f.desc = o := by
  have hold : (∃ pc, (P.1.page p).peerConnectionRef = some pc ∧ pc.pendingLocal = some o) →
      Vanished (ids p) P'.1 ∨
        ∃ f : Frame, lastOffer (P'.1.page p) = some f.json ∧ f.desc = o := by
    rintro ⟨pc₀, hpc₀, ho₀⟩
    rcases hc.pending pc₀ o hpc₀ ho₀ with hgone | ⟨f, hlast, hd⟩
    · exact Or.inl (vanished_other hp ht hoff hgone)
    · refine Or.inr ⟨f, ?_, hd⟩
      rw [lastOffer, offersOf_kept ht.reach ht.step hoff]
      exact hlast
  rcases ht.step.page p with heq | ⟨d, hd, hev, -⟩
  · exact hold ⟨pc, by rw [← heq]; exact hpc, ho⟩
  · rcases pendingLocal_step (page_reachable p ht.reach) hd hpc ho with
      h | ⟨sdp, sections, env, rest, rfl, hchain⟩
    · exact hold h
    · rcases hev with he | hm
      · exact absurd ⟨sdp, sections, env, o, rest, he, hchain⟩ hoff
      · exact nomatch hm

theorem current_other (hdec : DecodesFrames from_str) : Current ids p P' where
  fresh := fresh_step hp ht hc
  own := fun _ hx hown => vanished_other hp ht hoff (own_before ht hc hx hown)
  single := single_step ht hc
  trail := trail_other hp ht hc hoff hdec
  answered := fun _ _ hx _ _ _ => answered_other ht hc hoff hx
  pending := fun _ _ => pending_other hp ht hc hoff

end Other

/-! ### The page sets its offer -/

theorem current_offering (hset : Offering P.1 p e) : Current ids p P' := by
  obtain ⟨sdp, sections, env, d, rest, rfl, hchain⟩ := hset
  have hr := page_reachable p ht.reach
  have hmem : (.setLocalDescription d, .offerApplied env d) ∈ (P.1.page p).chain := by
    rw [hchain]
    exact List.mem_cons_self ..
  have hgone : Vanished (ids p) P.1 := hc.own _ hmem (fun h => (nomatch h))
  have hmatch := (matched_reachable hr).calls _ hmem
  have hgood := (ht.trusty.pages p).calls _ hmem
  obtain ⟨hd, hothers⟩ := browser_step ht.step
  obtain ⟨pc, pc', op, call, rest', states, hful⟩ := step_fulfilled hd
  cases hchain.symm.trans hful.chain
  have hty : d.type = .offer := by
    cases hmatch with
    | offerApplied hty _ => exact hty
  have hchain' : (P'.1.page p).chain = rest := hful.rest.trans (List.append_nil _)
  -- there was no other call of `createOffer`
  have hnone : ∀ x ∈ (P'.1.page p).chain, offerEnv x.2 = none := by
    intro x hx
    have hsingle := hc.single
    rw [hchain, List.countP_cons_of_pos rfl] at hsingle
    have hzero : rest.countP isOwn = 0 := by omega
    rw [hchain'] at hx
    have hown := List.countP_eq_zero.mp hzero x hx
    cases henv : offerEnv x.2 with
    | none => rfl
    | some v =>
        rw [isOwn, henv] at hown
        exact absurd rfl hown
  -- whoever is sent an offer now is sent the last one
  have hlast : ∀ j ∈ frames (.offerApplied env d), lastOffer (P'.1.page p) = some j := by
    intro j hj
    have hoffer : hasType "offer" j = true := by
      rcases isFrame_of_frames hj with ⟨_, _, hcall, hfr⟩ | ⟨_, _, _, hcall, -⟩
      · exact decide_eq_true hfr.type
      · exact nomatch hcall
    rw [lastOffer, offersOf, hful.sent, frames_singleton hj, List.filter_append,
      List.filter_cons_of_pos hoffer]
    exact List.getLast?_concat ..
  have hcalls : ∀ a, ∀ x ∈ (P'.1.page a).chain, x ∈ (P.1.page a).chain := by
    intro a x hx
    by_cases hap : a = p
    · rw [hap] at hx ⊢
      rw [hchain, ← hchain']
      exact List.mem_cons_of_mem _ hx
    · rw [← hothers a hap]
      exact hx
  refine ⟨fresh_step hp ht hc, fun x hx hown => absurd (hnone x hx) hown, single_step ht hc,
    ?_, fun a x hx env' m d' hcall hw => ?_, fun pc₁ o hpc₁ ho => ?_⟩
  · refine Trail.step ht.reach ht.moves (hgone.trail _) (fun a d' l hturn j hj hw => ?_)
    obtain ⟨op, call, rest', sdp', sections', rfl, hch, hsent, hjoin⟩ :=
      turn_sends ht.reach ht.trusty hturn hj hw
    cases hjoin with
    | @offer env' f hjson hsender hid hoffer _ =>
        obtain rfl := hp a (hsender.symm.trans hid)
        cases hchain.symm.trans hch
        refine ⟨f, ?_, hoffer, Or.inl hjson⟩
        rw [← hjson]
        exact hlast j hsent
    | @answer env' m f g _ _ _ _ hg hoffer hid =>
        refine (hgone.calls a _ (by rw [hch]; exact List.mem_cons_self ..) m rfl ?_).elim
        rw [hg, ← hid]
        exact offer_waits hoffer
  · refine (hgone.calls a x (hcalls a x hx) m ?_ hw).elim
    rw [hcall]
    rfl
  · obtain ⟨-, hpend, -⟩ := RtcSignaling.perform_localOffer hty hful.perform
    cases hful.after.symm.trans hpc₁
    cases hpend.symm.trans ho
    cases hsent : frames (.offerApplied env d) with
    | nil =>
        refine Or.inl (vanished_kept hp ht.reach ht.trusty ht.moves hgone
          (fun op' env' d' rest' hch => Or.inr ?_))
        cases hchain.symm.trans hch
        exact hsent
    | cons j l =>
        have hj : j ∈ frames (.offerApplied env d) := by rw [hsent]; exact List.mem_cons_self ..
        obtain ⟨f, -, rfl, ⟨_, _, hcall, hdesc, -⟩ | ⟨_, _, _, hcall, -⟩⟩ :=
          frames_of_good hgood hmatch hj
        · cases hcall
          exact Or.inr ⟨f, hlast _ hj, hdesc⟩
        · exact nomatch hcall

end Keeps

theorem current_initial (ids : Addr → String) (p : Addr) :
    Current ids p (Net.initial, []) where
  fresh := fun _ => ⟨fun _ _ hj => (nomatch hj), fun _ _ hj => (nomatch hj),
    fun _ _ hx => (nomatch hx)⟩
  own := fun _ hx => (nomatch hx)
  single := Nat.zero_le 1
  trail := ⟨fun _ _ hj => (nomatch hj), fun _ _ hj => (nomatch hj), fun _ _ hx => (nomatch hx)⟩
  answered := fun _ _ hx => (nomatch hx)
  pending := fun _ _ hpc => (nomatch hpc)

theorem current_reachVia (hdec : DecodesFrames from_str) (hp : ∀ a, ids a = ids p → a = p)
    (h : ReachVia (netLog from_str) OneOffer P) (hn : Named ids P.1) : Current ids p P := by
  refine ReachVia.invariant (I := fun P => Named ids P.1 → Current ids p P)
    (fun P h0 _ => ?_) (fun P e P' hr hi hc hst hn' => ?_) h hn
  · obtain ⟨n, l⟩ := P
    obtain ⟨hnet, hl⟩ := h0
    cases hnet
    cases hl
    exact current_initial ids p
  · obtain ⟨hst, hlog⟩ := logged_step hst
    have hreach := net_reachable hr
    have hstep := CamNet.step_cases hst
    have hbefore := hn'.before hstep
    have htrust := trusty_reachVia (fun _ _ _ _ hs => closed_everyone hs) hreach hbefore
    have ht : Taken from_str ids P e P' := ⟨hreach, hbefore, htrust,
      step_moves hreach hdec hbefore (closed_everyone hst) htrust hstep, hstep, hlog, hc⟩
    by_cases hset : Offering P.1 p e
    · exact current_offering hp ht (hi hbefore) hset
    · exact current_other hp ht (hi hbefore) hset hdec

end Invariant

/-! ## Accepted answers -/

/-- An id that a session has is the id of no other address. -/
theorem id_unique {from_str : String → Option Message} {n : Net}
    (h : Reachable (net everyone from_str) n) {b : Addr} {y : WebSocketSession}
    (hy : n.relay.actor b = some y) (a : Addr)
    (ha : (session n.relay a).id = (session n.relay b).id) : a = b := by
  have hids := CamRelay.idsDistinct_reachable (relay_reachable h)
  rw [session_some hy] at ha
  cases hx : n.relay.actor a with
  | none =>
      -- without a session there is no id
      have huuid := hids.uuid b y hy
      rw [← ha, session, hx] at huuid
      cases huuid
  | some x =>
      rw [session_some hx] at ha
      exact hids.inj a b x y hx hy ha

/-- **AN ACCEPTED ANSWER ANSWERS THE OUTSTANDING OFFER**, for any number of pages, in
    every run in which the button starts an offer only when nothing is left of an earlier
    one, and offers are handed over in turn.  When the connection of `p` accepts the
    answer `d`, its current local offer `o` is the offer `p` sent last; it was sent to
    `b`; and `d` was created by `b` since then, for the message that carries this offer
    and while it was the remote description there. -/
theorem answer_is_for_offer {from_str : String → Option Message} (hdec : DecodesFrames from_str)
    {P : Net × List Entry} (h : ReachVia (netLog from_str) OneOffer P) {p : Addr} {n' : Net}
    {sdp : String} {sections : List RtcSignaling.Kind} {d : Desc} {call : Call}
    {rest : List (PcOp Json × Call)}
    (hst : CamNet.step everyone from_str P.1 (.browser p (.settle (.fulfilled sdp sections)))
      = some n')
    (hchain : (P.1.page p).chain = (.setRemoteDescription d, call) :: rest)
    (hty : d.type = .answer) :
    ∃ pc o, (P.1.page p).peerConnectionRef = some pc ∧ pc.pendingLocal = some o ∧
      ∃ f : Frame, lastOffer (P.1.page p) = some f.json ∧ f.desc = o ∧
        ∃ b y, P.1.relay.actor b = some y ∧ f.dest = y.id ∧
          ∃ E ∈ P.2, E.page = b ∧ E.created.answer = d ∧ E.created.m.data = f.json ∧
            E.created.remote = some o ∧ E.offers p = (offersOf (P.1.page p)).length := by
  have hreach := net_reachable h
  have hn : Named (fun a => (session P.1.relay a).id) P.1 := by
    intro a x hx
    show x.id = (session P.1.relay a).id
    rw [session_some hx]
  have hi := trusty_reachVia (fun _ _ _ _ hs => closed_everyone hs) hreach hn
  have hr := page_reachable p hreach
  have hmem : (.setRemoteDescription d, call) ∈ (P.1.page p).chain := by
    rw [hchain]
    exact List.mem_cons_self ..
  -- the call handles a message that carries the answer
  obtain ⟨m, hm, g, hg, rfl⟩ : ∃ m, callMsg call = some m ∧ ∃ g : Frame,
      m.data = g.json ∧ g.desc = d := by
    have hmatch := (matched_reachable hr).calls _ hmem
    have hgood := (hi.pages p).calls _ hmem
    cases hmatch with
    | @remoteApplied env m sdpJson d hsdp hd _ =>
        obtain ⟨g, hg⟩ := hgood.msg m rfl
        refine ⟨m, rfl, g, hg, ?_⟩
        rw [sdpOf_frame g hg] at hsdp
        cases hsdp
        rw [RTCSessionDescription_descJson] at hd
        exact Option.some.inj hd
  -- the page has a session
  obtain ⟨x, hx⟩ : ∃ x, P.1.relay.actor p = some x := by
    cases hx : P.1.relay.actor p with
    | some x => exact ⟨x, rfl⟩
    | none =>
        have hno := (unheard_unconnected hreach p hx).1.calls _ hmem
        rw [hm] at hno
        exact nomatch hno
  have hc := current_reachVia hdec (id_unique hreach hx) h hn
  have hdest : g.dest = (session P.1.relay p).id := call_dest hdec hreach hn hmem hm hg
  have hwait : waitsFor (session P.1.relay p).id m.data = true := by
    rw [hg, ← hdest]
    exact answer_waits hty
  obtain ⟨f, hlast, hoffer, hcases⟩ := hc.trail.calls p _ hmem m hm hwait
  rcases hcases with heq | ⟨g', hg', -, hsender, E, hE, hpage, hEm, hEa, hk⟩
  · rw [frame_injective (hg.symm.trans heq), hoffer] at hty
    exact nomatch hty
  cases frame_injective (hg.symm.trans hg')
  -- the answer came from the page the offer was sent to
  obtain ⟨b, hb⟩ := call_sentBy hdec hreach hn hmem hm
  obtain ⟨y, hy, -, hfrom⟩ := hb.session
  have hyid : f.dest = y.id := by
    rw [hg, g.json_from] at hfrom
    rw [← hsender]
    simpa using hfrom
  have hEb : E.page = b := by
    refine id_unique hreach hy E.page ?_
    rw [session_some hy]
    exact hpage.trans hyid
  -- what it was created from
  have hlog : E.created ∈ entriesAt b P.2 :=
    List.mem_map.mpr ⟨E, List.mem_filter.mpr ⟨hE, decide_eq_true hEb⟩, rfl⟩
  obtain ⟨o, ho, -, hrem⟩ := (turns_at h b).log E.created hlog
  have hof : f.desc = o := by
    rw [description, sdpOf_frame f hEm, Option.bind_some, RTCSessionDescription_descJson] at ho
    exact Option.some.inj ho
  -- the offer is still outstanding
  obtain ⟨hd, -⟩ := browser_step (CamNet.step_cases hst)
  obtain ⟨pc, pc', op, call', rest', states, hful⟩ := step_fulfilled hd
  cases hchain.symm.trans hful.chain
  obtain ⟨-, -, hstate⟩ := RtcSignaling.perform_remoteAnswer hty hful.perform
  obtain ⟨o', ho'⟩ := Option.isSome_iff_exists.mp
    (sound_reachable hr pc hful.before hstate)
  have hcurrent : o' = o := by
    rcases hc.pending pc o' hful.before ho' with hgone | ⟨f', hlast', hd'⟩
    · exact (hgone.calls p _ hmem m hm hwait).elim
    · rw [← hd', ← hof, frame_injective (Option.some.inj (hlast'.symm.trans hlast))]
  subst hcurrent
  exact ⟨pc, o', hful.before, ho', f, hlast, hof, b, y, hy, hyid, E, hE, hEb, hEa, hEm, hrem, hk⟩

/-! ## Two runs -/

/-- Page `a` is mounted, with a camera, a session under `id`, and a peer. -/
def readyRun (a : Addr) (id peer : String) : List Event :=
  [.browser a .flushEffects, .browser a (.userMedia (some CamGuard.camera)),
    .server (.connect a id), .server (.start a), .server (.serve a), .download a,
    .browser a (.edit peer), .browser a .render, .browser a .flushEffects]

/-- Its offer is created, set and sent. -/
def setRun (a : Addr) (sdp : String) : List Event :=
  [.browser a (.settle (.fulfilled sdp [])), .browser a (.settle (.fulfilled "" []))]

/-- Its next frame gets to page `b` and is handed over there. -/
def carryRun (a b : Addr) : List Event :=
  [.upload a, .server (.serve a), .server (.deliver b), .download b, .browser b .render,
    .browser b .flushEffects]

/-- Page `b` sets the offer and answers it. -/
def replyRun (b : Addr) (sdp : String) : List Event :=
  [.browser b (.settle (.fulfilled "" [])), .browser b (.settle (.fulfilled sdp [])),
    .browser b (.settle (.fulfilled "" [])), .browser b .render, .browser b .flushEffects]

/-- Both pages offer.  The offer of page 1 arrives first: page 0 drops its own, answers,
    and offers again, while page 1 is still to receive the dropped offer, and answers
    it. -/
def staleRun : List Event :=
  readyRun 0 "a" "b" ++ readyRun 1 "b" "a" ++ [.browser 0 .press] ++ setRun 0 "first" ++
    [.browser 1 .press] ++ setRun 1 "crossing" ++ carryRun 1 0 ++ replyRun 0 "to crossing" ++
    [.browser 0 .press] ++ setRun 0 "second" ++ carryRun 0 1 ++ replyRun 1 "to first" ++
    carryRun 1 0

/-- The answer to the first offer is accepted for the second. -/
theorem stale_answer_accepted :
    ∃ P, Reachable (netLog CamWire.from_str) P ∧
      (CamNet.step everyone CamWire.from_str P.1
        (.browser 0 (.settle (.fulfilled "" [])))).isSome = true ∧
      (P.1.page 0).chain.map Prod.fst = [.setRemoteDescription ⟨.answer, "to first"⟩] ∧
      (P.1.page 0).peerConnectionRef.bind (·.pendingLocal) = some ⟨.offer, "second"⟩ ∧
      P.2.map (fun E => (E.page, E.created.answer, E.created.remote))
        = [(0, ⟨.answer, "to crossing"⟩, some ⟨.offer, "crossing"⟩),
          (1, ⟨.answer, "to first"⟩, some ⟨.offer, "first"⟩)] := by
  have hrun : (exec (netLog CamWire.from_str) (.initial, []) staleRun).any (fun P =>
      (CamNet.step everyone CamWire.from_str P.1
        (.browser 0 (.settle (.fulfilled "" [])))).isSome &&
      decide ((P.1.page 0).chain.map Prod.fst
        = [.setRemoteDescription ⟨.answer, "to first"⟩]) &&
      decide ((P.1.page 0).peerConnectionRef.bind (·.pendingLocal)
        = some ⟨.offer, "second"⟩) &&
      decide (P.2.map (fun E => (E.page, E.created.answer, E.created.remote))
        = [(0, ⟨.answer, "to crossing"⟩, some ⟨.offer, "crossing"⟩),
          (1, ⟨.answer, "to first"⟩, some ⟨.offer, "first"⟩)])) = true := by
    decide +kernel
  obtain ⟨P, -, hreach, hcheck⟩ :=
    ReachVia.of_check (fun _ _ _ => trivial) (logged_init rfl) hrun
  simp only [Bool.and_eq_true, decide_eq_true_eq] at hcheck
  obtain ⟨⟨⟨hst, hops⟩, hpend⟩, hlog⟩ := hcheck
  exact ⟨P, hreach, hst, hops, hpend, hlog⟩

/-- Nobody presses the button, and offers are handed over in turn. -/
def patient (P : Net × List Entry) : Event → Bool
  | .browser _ .press => false
  | .browser a d => inTurn (P.1.page a) d
  | _ => true

theorem patient_sound {P : Net × List Entry} {e : Event} (h : patient P e = true) :
    OneOffer P e := by
  cases e with
  | browser a d =>
      cases d with
      | press => exact nomatch h
      | _ => exact h
  | _ => trivial

/-- Nothing is on its way from or to an address, and nothing is suspended there. -/
def idle (n : Net) (a : Addr) : Bool :=
  (outgoing n a).isEmpty && (incoming n a).isEmpty && (n.page a).chain.isEmpty

theorem vanished_of_idle {n : Net} (h : ∀ a, idle n a = true) (id : String) :
    Vanished id n := by
  have hempty : ∀ a, outgoing n a = [] ∧ incoming n a = [] ∧ (n.page a).chain = [] := by
    intro a
    have ha := h a
    simp only [idle, Bool.and_eq_true, List.isEmpty_iff] at ha
    exact ⟨ha.1.1, ha.1.2, ha.2⟩
  refine ⟨fun a j hj => ?_, fun a j hj => ?_, fun a x hx => ?_⟩
  · rw [(hempty a).1] at hj
    exact nomatch hj
  · rw [(hempty a).2.1] at hj
    exact nomatch hj
  · rw [(hempty a).2.2] at hx
    exact nomatch hx

/-- A run of the pages at the addresses below `k` has left nothing behind if it has left
    nothing there. -/
theorem idle_of_run {es : List Event} {k : Nat} {n : Net}
    (hrun : exec (net everyone CamWire.from_str) .initial es = some n)
    (haddr : es.all (fun e => address e < k) = true)
    (hidle : (List.range k).all (idle n) = true) (a : Addr) : idle n a = true := by
  by_cases ha : a < k
  · exact List.all_eq_true.mp hidle a (List.mem_range.mpr ha)
  · have hun := untouched_above haddr hrun ha
    rw [idle, outgoing, incoming, unsent, line, hun.page, hun.up, hun.down, session, hun.actor]
    rfl

/-- Two pages that are ready to call. -/
def meetRun : List Event := readyRun 0 "a" "b" ++ readyRun 1 "b" "a"

/-- Page 0 makes its offer, page 1 answers it, and the answer is handed over. -/
def calledRun : List Event :=
  setRun 0 "offer" ++ carryRun 0 1 ++ replyRun 1 "answer" ++ carryRun 1 0

/-- A run in which page 0 presses the button once, when nothing is on its way. -/
theorem pressed_reachVia {es es' : List Event} {k : Nat} {P₁ P₂ P₃ : Net × List Entry}
    (h₁ : execVia (netLog CamWire.from_str) patient (.initial, []) es = some P₁)
    (haddr : es.all (fun e => address e < k) = true)
    (hidle : (List.range k).all (idle P₁.1) = true)
    (h₂ : (netLog CamWire.from_str).step P₁ (.browser 0 .press) = some P₂)
    (h₃ : execVia (netLog CamWire.from_str) patient P₂ es' = some P₃) :
    ReachVia (netLog CamWire.from_str) OneOffer P₃ := by
  have hreach := ReachVia.of_exec (fun _ _ => patient_sound) (logged_init rfl) h₁
  have hall := idle_of_run (exec_unlogged es (exec_of_execVia es h₁)) haddr hidle
  have hempty : (P₁.1.page 0).chain = [] := by
    have h₀ := hall 0
    simp only [idle, Bool.and_eq_true, List.isEmpty_iff] at h₀
    exact h₀.2
  have hclear : Clear P₁.1 0 := by
    refine ⟨fun x hx => ?_, fun y _ => vanished_of_idle hall y.id⟩
    rw [hempty] at hx
    exact nomatch hx
  have hpress : OneOffer P₁ (.browser 0 .press) := fun _ => hclear
  exact ReachVia.of_execVia (fun _ _ => patient_sound) es' (.step hreach hpress h₂) h₃

theorem answer_is_for_offer_sample :
    ∃ P, ReachVia (netLog CamWire.from_str) OneOffer P ∧
      (P.1.page 0).chain.map Prod.fst = [.setRemoteDescription ⟨.answer, "answer"⟩] ∧
      ∃ pc o, (P.1.page 0).peerConnectionRef = some pc ∧ pc.pendingLocal = some o ∧
        ∃ f : Frame, lastOffer (P.1.page 0) = some f.json ∧ f.desc = o ∧
          ∃ b y, P.1.relay.actor b = some y ∧ f.dest = y.id ∧
            ∃ E ∈ P.2, E.page = b ∧ E.created.answer = ⟨.answer, "answer"⟩ ∧
              E.created.m.data = f.json ∧ E.created.remote = some o ∧
              E.offers 0 = (offersOf (P.1.page 0)).length := by
  -- the run, evaluated
  have hrun : (execVia (netLog CamWire.from_str) patient (.initial, []) meetRun).any (fun P₁ =>
      (List.range 2).all (idle P₁.1) &&
        ((netLog CamWire.from_str).step P₁ (.browser 0 .press)).any (fun P₂ =>
          (execVia (netLog CamWire.from_str) patient P₂ calledRun).any (fun P₃ =>
            decide ((P₃.1.page 0).chain.map Prod.fst
              = [.setRemoteDescription ⟨.answer, "answer"⟩]) &&
            (CamNet.step everyone CamWire.from_str P₃.1
              (.browser 0 (.settle (.fulfilled "" [])))).isSome))) = true := by
    decide +kernel
  obtain ⟨P₁, h₁, hrun⟩ := (Option.any_eq_true _ _).mp hrun
  obtain ⟨hidle, hrun⟩ := Bool.and_eq_true_iff.mp hrun
  obtain ⟨P₂, h₂, hrun⟩ := (Option.any_eq_true _ _).mp hrun
  obtain ⟨P₃, h₃, hrun⟩ := (Option.any_eq_true _ _).mp hrun
  obtain ⟨hops, hst⟩ := Bool.and_eq_true_iff.mp hrun
  replace hops := of_decide_eq_true hops
  obtain ⟨n', hn'⟩ := Option.isSome_iff_exists.mp hst
  have hreach := pressed_reachVia h₁ (by decide +kernel) hidle h₂ h₃
  refine ⟨P₃, hreach, hops, ?_⟩
  obtain ⟨x, hx, hop⟩ := List.map_eq_singleton_iff.mp hops
  obtain ⟨op, call⟩ := x
  cases hop
  exact answer_is_for_offer decodesFrames_from_str hreach hn' hx rfl

end CamExact
