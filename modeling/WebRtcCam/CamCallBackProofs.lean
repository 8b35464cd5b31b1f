import WebRtcCam.CamCallProofs
import WebRtcCam.CamPartyProofs

/-! # Calling back

    When a call has gone through, either page may call the other.  The caller's field has
    the callee's id as before; the callee's has the caller's, which `handleSDPMessage` put
    there when the offer was handed over, unless it was there already.

    While the offer has not been handed over the call is `Early`: it is suspended at the
    caller, or on its way.

    * `peer_turn` — what a turn does to a page's field;
    * `fields_step` — what a step does to the fields of the two pages;
    * `calls_follow` — any number of calls, one after the other, by either page. -/

namespace CamCallBack

open LtsRun JsonText CamWire CamNet CamHonest CamPending CamNegotiation CamMail CamStuck
open CamAgree CamDrain CamTrail CamCall
open CamRelay (Addr)
open CamPage (Page Received Call isPeerIdEmpty)
open RtcSignaling (PcOp Desc)

/-! ## The field along a turn -/

section Turns

variable {s s' : Page} {d : CamPage.Event} {id : String}

/-- In honest company a message is no candidate. -/
theorem civil_not_candidate {data : Option Json} (hc : Civil id s (.message data)) {j : Json}
    (hj : data = some j) : isICECandidateMessage j = false := by
  rcases hc data rfl with hd | ⟨-, f, hd⟩
  · cases hj.symm.trans hd
    rfl
  · cases hj.symm.trans hd
    rw [isICECandidateMessage, hasType, f.json_type]
    rcases f.kind with hk | hk <;> rw [hk] <;> rfl

/-- **THE FIELD ALONG A TURN**: only the sender of a description that is handed over is put
    into it, and only if none is drawn there. -/
theorem peer_turn (hr : Reachable CamPage.page s) (hc : Civil id s d)
    (h : CamPage.step s d = some s')
    (hd : (d = .render ∨ d = .flushEffects ∨ ∃ data, d = .message data) ∨
      ∃ sdp sections, d = .settle (.fulfilled sdp sections)) :
    (s'.vars.peerId = s.vars.peerId ∨ s'.vars.peerId = s.next.peerId) ∧
    (s'.next.peerId = s.next.peerId ∨
      ∃ m sender, handed s = some m ∧ m.data.get "from" = some sender ∧
        isPeerIdEmpty s.vars.peerId = true ∧ s'.next.peerId = sender) := by
  have hst := CamPage.step_cases h
  refine ⟨?_, ?_⟩
  · rcases CamClosure.step_vars hst with hv | hv
    · exact Or.inl (congrArg _ hv)
    · exact Or.inr (congrArg _ hv)
  · rcases hd with (rfl | rfl | ⟨data, rfl⟩) | ⟨sdp, sections, rfl⟩
    · cases hst with
      | render => exact Or.inl rfl
    · rcases CamParty.flush_peer hr h with ⟨m, sender, hm, hf, he, -, hn⟩ | ⟨-, -, hn⟩
      · exact Or.inr ⟨m, sender, hm, hf, he, hn⟩
      · exact Or.inl hn
    · cases hst with
      | @message env _ _ henv =>
          have hmount := CamClosure.mountRender_reachable hr
          have hpc := hmount.connected (by rw [henv]; rfl)
          have hsame := CamPage.onmessage_sameRender env data s
          rw [hmount.captured _ henv] at hsame ⊢
          rcases CamClosure.onmessage_peer hpc data with
            ⟨j, _, hj, hcand, -⟩ | ⟨-, ⟨l, hq, hl⟩, -⟩
          · rw [civil_not_candidate hc hj] at hcand
            cases hcand
          · rw [CamPage.next_of_append hsame.vars hq, CamClosure.foldl_peerId l _ hl]
            exact Or.inl rfl
    · cases hst.frame with
      | handler _ hrender hinbox => exact Or.inl (hinbox.next hrender.vars).2.1

end Turns

/-! ## The fields of the two pages -/

/-- The offer has not been handed over to the callee. -/
def Early (A B : Addr) (n : Net) : Prop :=
  (∃ x ∈ (n.page A).chain, (offerEnv x.2).isSome = true) ∨ outgoing n A ≠ [] ∨
    incoming n B ≠ []

/-- The caller's field has the callee's id, and no edit of it is queued; the callee's will
    have the caller's, or is empty while the offer has not been handed over. -/
structure Fields (ids : Addr → String) (A B : Addr) (n : Net) : Prop where
  caller : (n.page A).vars.peerId = .str (ids B) ∧ (n.page A).next.peerId = .str (ids B)
  callee : (n.page B).next.peerId = .str (ids A) ∨
    isPeerIdEmpty (n.page B).vars.peerId = true ∧
      isPeerIdEmpty (n.page B).next.peerId = true ∧ Early A B n

section Steps

variable {from_str : String → Option Message} {C : Net → Event → Prop}
  {ids : Addr → String} {A B p q : Addr} {n n' : Net} {e : Event} {d : CamPage.Event}
  {l : List Json} {suspended : List (PcOp Json × Call)} {way : List Json}

/-- What comes to the callee is from the caller. -/
theorem stage_mail (hi : Stage ids A B n) {f : Frame} (hf : f.json ∈ incoming n B) :
    f.sender = ids A := by
  obtain ⟨p, q, suspended, way, hlies, hsays⟩ := hi
  -- from the callee itself nothing comes to it
  have hback : p ≠ B := by
    rintro rfl
    rw [(List.append_eq_nil_iff.mp hlies.back).2] at hf
    cases hf
  have hway : q = B → f.json ∈ way := by
    rintro rfl
    rw [← hlies.forth]
    exact List.mem_append_right _ hf
  cases hsays with
  | offered hs =>
      rw [frame_injective (List.mem_singleton.mp (hway rfl))]
      exact hs
  | creating => cases hway rfl
  | setting => cases hway rfl
  | accepting => cases hway rfl
  | agreed => cases hway rfl
  | applying => exact absurd rfl hback
  | answering => exact absurd rfl hback
  | replying => exact absurd rfl hback
  | answered => exact absurd rfl hback

theorem Early.at_caller (he : Early A B n) (hmail : outgoing n A ++ incoming n B = []) :
    ∃ x ∈ (n.page A).chain, (offerEnv x.2).isSome = true := by
  obtain ⟨hout, hinc⟩ := List.append_eq_nil_iff.mp hmail
  rcases he with hx | hno | hno
  · exact hx
  · exact absurd hout hno
  · exact absurd hinc hno

theorem early_of_lies (h : Lies n A B suspended way)
    (hs : (∃ x ∈ suspended, (offerEnv x.2).isSome = true) ∨ way ≠ []) : Early A B n := by
  rcases hs with hx | hne
  · rw [← h.chain] at hx
    exact Or.inl hx
  · rw [← h.forth] at hne
    by_cases hout : outgoing n A = []
    · rw [hout, List.nil_append] at hne
      exact Or.inr (Or.inr hne)
    · exact Or.inr (Or.inl hout)

/-- Before the hand-over the caller makes its offer, or the offer is on its way. -/
theorem early_says (hlies : Lies n p q suspended way)
    (hsay : Says ids A B n.page p q suspended way) (he : Early A B n) :
    p = A ∧ q = B ∧
      ((∃ x, suspended = [x] ∧ (offerEnv x.2).isSome = true) ∨ ∃ f : Frame, way = [f.json]) := by
  have hidle : ∀ {suspended' way'}, Lies n B A suspended' way' → False := by
    intro suspended' way' hl
    obtain ⟨x, hx, -⟩ := he.at_caller hl.back
    rw [hl.idle] at hx
    cases hx
  cases hsay with
  | creating => exact ⟨rfl, rfl, Or.inl ⟨_, rfl, rfl⟩⟩
  | setting => exact ⟨rfl, rfl, Or.inl ⟨_, rfl, rfl⟩⟩
  | offered => exact ⟨rfl, rfl, Or.inr ⟨_, rfl⟩⟩
  | accepting =>
      obtain ⟨x, hx, henv⟩ := he.at_caller hlies.forth
      rw [hlies.chain] at hx
      cases List.mem_singleton.mp hx
      cases henv
  | agreed =>
      obtain ⟨x, hx, -⟩ := he.at_caller hlies.forth
      rw [hlies.chain] at hx
      cases hx
  | applying => exact (hidle hlies).elim
  | answering => exact (hidle hlies).elim
  | replying => exact (hidle hlies).elim
  | answered => exact (hidle hlies).elim

/-- A session's id fills a field. -/
theorem id_filled (hreach : ReachVia (net everyone from_str) C n) (hn : Named ids n)
    (h : There n p) : isPeerIdEmpty (.str (ids p)) = false := by
  obtain ⟨x, hx, -, -⟩ := h.session_some
  have huuid := (CamRelay.idsDistinct_reachable (relay_reachable hreach)).uuid p x hx
  have hne : ids p ≠ "" := by
    rw [← hn p x hx]
    exact of_decide_eq_true (Bool.and_eq_true_iff.mp huuid).1
  simp [isPeerIdEmpty, truthy_str, hne]

/-- What is handed over to the callee is from the caller. -/
theorem stage_handed (htrust : Trusty ids n) (hi : Stage ids A B n) {m : Received}
    (hm : handed (n.page B) = some m) :
    m.data.get "from" = some (.str (ids A)) := by
  obtain ⟨-, ⟨f, hf⟩⟩ := (htrust.pages B).vars.pending m (handed_some hm).2.2
  obtain ⟨rest, hrest⟩ := inbox_handed hm
  have hmem : f.json ∈ incoming n B := by
    rw [incoming, hrest, ← hf]
    exact List.mem_cons_self ..
  rw [hf, f.json_from, stage_mail hi hmem]

/-- A turn of the caller leaves the offer with it, or sends it on its way. -/
theorem early_turn (hAB : A ≠ B) (hreach : ReachVia (net everyone from_str) C n)
    (htrust : Trusty ids n) (hA : There n A) (hown : undisturbed {A, B} n e = true)
    (ht : Turn ids n e A d l n') (hi : Stage ids A B n) (he : Early A B n) :
    Early A B n' := by
  obtain ⟨p, q, suspended, way, hlies, hsays⟩ := hi
  obtain ⟨rfl, rfl, hcase⟩ := early_says hlies hsays he
  obtain ⟨-, hincp⟩ := List.append_eq_nil_iff.mp hlies.back
  rcases own_turn hown ht with hd | ⟨sdp, sections, rfl⟩
  · -- nothing is coming to the caller
    obtain ⟨-, hout, ⟨hchain, -⟩ | ⟨_, _, _, -, -, hone, -⟩⟩ := quiet_turn hreach htrust hA ht hd
      (fun j hj => by rw [hincp] at hj; cases hj)
    · obtain ⟨-, -, hinc⟩ := turn_other hAB ht
      rw [Early, hchain, hout, hinc]
      exact he
    · rw [hincp] at hone
      cases hone
  · obtain ⟨pc, pc', op, call, rest, states, hful⟩ := step_fulfilled ht.step
    have hchain := hlies.chain.symm.trans hful.chain
    obtain ⟨rfl, rfl⟩ := hsays.alone hchain
    rw [hchain] at hlies hsays hcase
    have hlies' := fulfilled_lies hAB hreach hA ht hful hlies
    rcases hcase with ⟨x, hx, henv⟩ | ⟨f, hway⟩
    · cases hx
      cases hsays with
      | creating => exact early_of_lies hlies' (Or.inl ⟨_, List.mem_singleton.mpr rfl, rfl⟩)
      | @setting env o hid hpeer _ _ _ =>
          -- in honest company the offer is sent
          have hgood : CamHonest.GoodCall (ids p) (.offerApplied env o) :=
            (htrust.pages p).calls (_, .offerApplied env o)
              (by rw [hful.chain]; exact List.mem_cons_self ..)
          obtain ⟨f, hf, -⟩ := frames_of_known hgood (hful.matches (page_reachable p hreach))
            (Or.inl ⟨o, rfl⟩) hid
          exact early_of_lies hlies' (Or.inr (List.ne_nil_of_mem hf))
      | accepting => cases henv
      | applying => exact absurd rfl hAB
      | answering => exact absurd rfl hAB
      | replying => exact absurd rfl hAB
    · cases hway

/-- **ONE STEP** keeps the caller's field, and the callee's once it has the caller's id; and
    it gets it by the step that hands the offer over. -/
theorem fields_step (hAB : A ≠ B) (hreach : ReachVia (net everyone from_str) C n)
    (hn : Named ids n) (htrust : Trusty ids n) (hA : There n A) (hB : There n B)
    (hown : undisturbed {A, B} n e = true) (hmoves : Moves ids n e n')
    (hi : Stage ids A B n) (hf : Fields ids A B n) : Fields ids A B n' := by
  by_cases hturn : ∃ a d l, Turn ids n e a d l n'
  · obtain ⟨a, d, l, ht⟩ := hturn
    have ha : a = A ∨ a = B := by
      rcases ht.event with ⟨rfl, -⟩ | ⟨rfl, -⟩ <;> exact own_address hown
    obtain ⟨hvars, hnext⟩ :=
      peer_turn (page_reachable a hreach) ht.civil ht.step (own_turn hown ht)
    rcases ha with rfl | rfl
    · obtain ⟨hpageB, -, -⟩ := turn_other hAB ht
      obtain ⟨hv, hx⟩ := hf.caller
      refine ⟨⟨?_, ?_⟩, ?_⟩
      · rcases hvars with h | h
        · exact h.trans hv
        · exact h.trans hx
      · rcases hnext with h | ⟨_, _, -, -, hempty, -⟩
        · exact h.trans hx
        · rw [hv, id_filled hreach hn hB] at hempty
          cases hempty
      · rw [hpageB]
        rcases hf.callee with h | ⟨hv', hx', he⟩
        · exact Or.inl h
        · exact Or.inr ⟨hv', hx', early_turn hAB hreach htrust hA hown ht hi he⟩
    · obtain ⟨hpageA, houtA, -⟩ := turn_other (Ne.symm hAB) ht
      refine ⟨by rw [hpageA]; exact hf.caller, ?_⟩
      rcases hnext with h | ⟨m, sender, hm, hfrom, -, h⟩
      · rcases hf.callee with hid | ⟨hv, hx, he⟩
        · exact Or.inl (h.trans hid)
        · have hempty : isPeerIdEmpty (n'.page a).vars.peerId = true := by
            rcases hvars with hv' | hv'
            · rw [hv']
              exact hv
            · rw [hv']
              exact hx
          have hlate : incoming n' a ≠ [] ∨ incoming n' a = incoming n a →
              isPeerIdEmpty (n'.page a).vars.peerId = true ∧
                isPeerIdEmpty (n'.page a).next.peerId = true ∧ Early A a n' := by
            intro hinc
            refine ⟨hempty, by rw [h]; exact hx, ?_⟩
            rw [Early, hpageA, houtA]
            rcases hinc with hne | heq
            · exact Or.inr (Or.inr hne)
            · rw [heq]
              exact he
          have hst := ht.step
          cases turned (page_reachable a hreach) hst ht.line with
          | same heq _ => exact Or.inr (hlate (Or.inr heq))
          | arrived _ _ hafter =>
              refine Or.inr (hlate (Or.inl ?_))
              rw [hafter]
              simp
          | @handed m _ hm _ _ _ =>
              -- the sender is put into the empty field
              rcases CamParty.flush_peer (page_reachable a hreach) hst with
                ⟨m', sender, hm', hfrom, -, -, hnext⟩ | ⟨hno, -, -⟩
              · rw [stage_handed htrust hi hm'] at hfrom
                cases hfrom
                exact Or.inl hnext
              · rcases hno m hm with hnone | hfull
                · rw [stage_handed htrust hi hm] at hnone
                  cases hnone
                · rw [hv] at hfull
                  cases hfull
      · rw [stage_handed htrust hi hm] at hfrom
        cases hfrom
        exact Or.inl h
  · have hno : ∀ a d l, ¬ Turn ids n e a d l n' := fun a d l ht => hturn ⟨a, d, l, ht⟩
    obtain ⟨p, q, suspended, way, hlies, hsays⟩ := hi
    obtain ⟨hpage, hlies'⟩ := says_moved hAB hn hA hB hown hmoves hno hlies hsays
    refine ⟨by rw [hpage]; exact hf.caller, ?_⟩
    rw [hpage]
    rcases hf.callee with h | ⟨hv, hx, he⟩
    · exact Or.inl h
    · obtain ⟨rfl, rfl, hcase⟩ := early_says hlies hsays he
      refine Or.inr ⟨hv, hx, early_of_lies hlies' ?_⟩
      rcases hcase with ⟨x, rfl, henv⟩ | ⟨f, rfl⟩
      · exact Or.inl ⟨x, List.mem_singleton.mpr rfl, henv⟩
      · exact Or.inr (List.cons_ne_nil _ _)

end Steps

/-! ## The end of a call -/

/-- No edit of the two fields is queued, and the callee's is empty or has the caller's
    id. -/
structure Unedited (A B : Addr) (n : Net) : Prop where
  caller : (n.page A).next.peerId = (n.page A).vars.peerId
  callee : (n.page B).next.peerId = (n.page B).vars.peerId
  free : isPeerIdEmpty (n.page B).vars.peerId = true ∨ peers n B A = true

/-- Either page may call the other. -/
structure Acquainted (A B : Addr) (n : Net) : Prop where
  call : MayCall A B n
  back : MayCall B A n
  unedited : Unedited A B n

section Ends

variable {from_str : String → Option Message} {C : Net → Event → Prop}
  {ids : Addr → String} {A B p q : Addr} {n m : Net}

theorem Acquainted.symm (h : Acquainted A B n) : Acquainted B A n :=
  ⟨h.back, h.call, h.unedited.callee, h.unedited.caller, Or.inr h.call.peer⟩

/-- The press begins with the fields as they are. -/
theorem fields_press (hreach : ReachVia (net everyone from_str) C n)
    (hn : Named ids n) (hmay : MayCall A B n) (hun : Unedited A B n)
    (hs : CamPage.step (n.page A) .press = some (m.page A)) (hother : m.page B = n.page B) :
    Fields ids A B m := by
  have hpeer := peer_named hn hmay.peer
  obtain ⟨heq, _, _, hpressable⟩ := CamButton.pressable (page_reachable A hreach) hs
  rw [hpressable.offers hmay.flag] at heq
  refine ⟨⟨?_, ?_⟩, ?_⟩
  · rw [heq]
    exact hpeer
  · rw [heq]
    exact hun.caller.trans hpeer
  · rw [hother]
    rcases hun.free with hempty | hback
    · refine Or.inr ⟨hempty, by rw [hun.callee]; exact hempty, Or.inl ?_⟩
      rw [heq]
      exact ⟨_, List.mem_append_right _ (List.mem_singleton.mpr rfl), rfl⟩
    · exact Or.inl (hun.callee.trans (peer_named hn hback))

/-- Whoever is at rest has read its welcome. -/
theorem known_at_rest (hreach : ReachVia (net everyone from_str) C n) (hn : Named ids n)
    (htrust : Trusty ids n) (hthere : There n p) (hrest : atRest n p = true) :
    truthy (n.page p).vars.clientId = true := by
  obtain ⟨x, hx, hrun, -⟩ := hthere.session_some
  obtain ⟨hquiet, -⟩ := rest_quiet hreach hthere hrest
  simp only [atRest, hthere.mounted, session_some hx, Bool.and_eq_true, Bool.or_eq_true,
    decide_eq_true_eq, List.isEmpty_iff, Bool.not_true, Bool.false_eq_true, false_or] at hrest
  obtain ⟨⟨⟨-, hmail⟩, -⟩, hdown⟩ := hrest
  -- the welcome is on the socket, and the page has been sent all of it
  have hlive := (CamRouting.delivery_reachable (relay_reachable hreach)).live p x hx
    (by rw [hrun]; intro h; cases h)
  rw [hmail, List.append_nil, CamRouting.expected, if_neg (by rw [hrun]; intro h; cases h)]
    at hlive
  have hpos : 0 < n.down p := by
    rw [hdown, hlive]
    exact Nat.succ_pos _
  have hvars : (n.page p).vars = (n.page p).next := by
    rw [Page.next, hquiet.1]
    rfl
  have huuid := (CamRelay.idsDistinct_reachable (relay_reachable hreach)).uuid p x hx
  rw [hvars, htrust.welcomed p hpos, truthy_str, ← hn p x hx]
  exact of_decide_eq_true (Bool.and_eq_true_iff.mp huuid).1

theorem peers_of (hn : Named ids n) (hthere : There n q)
    (h : (n.page p).vars.peerId = .str (ids q)) : peers n p q = true := by
  obtain ⟨y, hy, -, -⟩ := hthere.session_some
  rw [peers, hy, Option.any_some, h, hn q y hy]
  exact decide_eq_true rfl

/-- What holds from the press on. -/
structure Meeting (from_str : String → Option Message) (A B : Addr) (n : Net) : Prop where
  calling : Calling from_str A B n
  fields : ∀ ids, Named ids n → Fields ids A B n

theorem meeting_press (hdec : DecodesFrames from_str) (hAB : A ≠ B)
    (h : Reachable (net everyone from_str) n) (hmay : MayCall A B n) (hun : Unedited A B n)
    (hpress : CamNet.step everyone from_str n (.browser A .press) = some m) :
    Meeting from_str A B m := by
  refine ⟨calling_press hdec hAB h hmay hpress, fun ids hn => ?_⟩
  have hst := CamNet.step_cases hpress
  have hbefore := hn.before hst
  cases hst with
  | @browser _ _ s _ _ hs =>
      refine fields_press h hbefore hmay hun ?_ (Function.update_of_ne (Ne.symm hAB) _ _)
      show _ = some (Function.update n.page A s A)
      rw [Function.update_self]
      exact hs

theorem meeting_keeping (hdec : DecodesFrames from_str) (hAB : A ≠ B) :
    Keeping (net everyone from_str) (Meeting from_str A B) (undisturbed {A, B}) := by
  intro n e n' hi hown hst
  refine ⟨calling_keeping hdec hAB n e n' hi.calling hown hst, fun ids hn => ?_⟩
  have hstep := CamNet.step_cases hst
  have hbefore := hn.before hstep
  have hc := hi.calling
  have htrust := trusty_everyone hc.reachable hbefore
  exact fields_step hAB hc.reachable hbefore htrust hc.caller hc.callee hown
    (step_moves hc.reachable hdec hbefore (closed_everyone hst) htrust hstep)
    (hc.stage ids hbefore) (hi.fields ids hbefore)

/-- **WHERE A CALL ENDS** either page may call the other. -/
theorem meeting_end (hi : Meeting from_str A B n)
    (hstuck : Stuck (net everyone from_str) (undisturbed {A, B}) n) : Acquainted A B n := by
  have hc := hi.calling
  have hreach := hc.reachable
  have hn := named_session n
  have htrust := trusty_everyone hreach hn
  obtain ⟨hrestA, hrestB⟩ := stuck_rests hreach hc.caller hc.callee hstuck (hc.stage _ hn)
  obtain ⟨hquietA, hchainA⟩ := rest_quiet hreach hc.caller hrestA
  obtain ⟨hquietB, hchainB⟩ := rest_quiet hreach hc.callee hrestB
  obtain ⟨houtA, hincA⟩ := rest_mail hreach hn htrust hc.caller hrestA
  obtain ⟨houtB, hincB⟩ := rest_mail hreach hn htrust hc.callee hrestB
  have hload : load A B n = 0 := by
    rw [load, weight, weight, houtA, hincA, hchainA, houtB, hincB, hchainB]
    rfl
  have hnext : ∀ {s : Page}, CamPage.Quiet s → s.next.peerId = s.vars.peerId := by
    intro s hq
    rw [Page.next, hq.1]
    rfl
  have hf := hi.fields _ hn
  have hpeerA := peers_of hn hc.callee hf.caller.1
  have hpeerB : peers n B A = true := by
    refine peers_of hn hc.caller ?_
    rw [← hnext hquietB]
    rcases hf.callee with hid | ⟨-, -, he⟩
    · exact hid
    · obtain ⟨x, hx, -⟩ := he.at_caller (by rw [houtA, hincB]; rfl)
      rw [hchainA] at hx
      cases hx
  have hstable : ∀ {p l r}, Has (Ended l r) (n.page p) →
      Has CanOffer (n.page p) ∧ Has CanTake (n.page p) := fun hend =>
    ⟨has_of_ended hend (fun _ => Or.inl), has_of_ended hend (fun _ => Or.inl)⟩
  cases stage_stuck hreach hn htrust hc.caller hc.callee hstuck (hc.stage _ hn) with
  | agreed _ _ hA hB hfA hfB =>
      obtain ⟨hofferA, htakeA⟩ := hstable hA
      obtain ⟨hofferB, htakeB⟩ := hstable hB
      exact ⟨⟨hc.caller, hc.callee, hload, hofferA, htakeB,
          known_at_rest hreach hn htrust hc.caller hrestA, hpeerA, hfA⟩,
        ⟨hc.callee, hc.caller, (load_comm B A n).trans hload, hofferB, htakeA,
          known_at_rest hreach hn htrust hc.callee hrestB, hpeerB, hfB⟩,
        hnext hquietA, hnext hquietB, Or.inr hpeerB⟩

end Ends

/-! ## One call after the other -/

/-- Page `p` presses its button, and the two pages and their sessions take their own steps,
    without rejections, until none is possible. -/
def CallsOnce (from_str : String → Option Message) (A B p : Addr) (n n' : Net) : Prop :=
  ∃ m es, CamNet.step everyone from_str n (.browser p .press) = some m ∧
    execVia (net everyone from_str) (undisturbed {A, B}) m es = some n' ∧
    Stuck (net everyone from_str) (undisturbed {A, B}) n'

/-- Page `A` calls, and then either page, again and again; the last call was by `p` to
    `q`. -/
inductive Calls (from_str : String → Option Message) (A B : Addr) (n : Net) :
    Addr → Addr → Net → Prop where
  | first {m : Net} : CallsOnce from_str A B A n m → Calls from_str A B n A B m
  | again {p q : Addr} {m k : Net} : Calls from_str A B n p q m →
      CallsOnce from_str A B p m k → Calls from_str A B n p q k
  | back {p q : Addr} {m k : Net} : Calls from_str A B n p q m →
      CallsOnce from_str A B q m k → Calls from_str A B n q p k

section Calls

variable {from_str : String → Option Message} {A B p q : Addr} {n m : Net}

theorem once_swap (h : CallsOnce from_str A B p n m) : CallsOnce from_str B A p n m := by
  rw [CallsOnce, Finset.pair_comm]
  exact h

theorem once_at {r : Addr} (hends : p = A ∧ q = B ∨ p = B ∧ q = A)
    (h : CallsOnce from_str p q r n m) : CallsOnce from_str A B r n m := by
  rcases hends with ⟨rfl, rfl⟩ | ⟨rfl, rfl⟩
  · exact h
  · exact once_swap h

/-- What a call leaves behind. -/
structure Connected (from_str : String → Option Message) (p q : Addr) (n : Net) : Prop where
  reachable : Reachable (net everyone from_str) n
  acquainted : Acquainted p q n
  outcome : ∃ o d : Desc, o.type = .offer ∧ d.type = .answer ∧
    outcome (n.page p) = some (.stable, some o, some d) ∧
    outcome (n.page q) = some (.stable, some d, some o)

theorem once_connects (hdec : DecodesFrames from_str) (hAB : A ≠ B)
    (h : Reachable (net everyone from_str) n) (hmay : MayCall A B n) (hun : Unedited A B n)
    (honce : CallsOnce from_str A B A n m) : Connected from_str A B m := by
  obtain ⟨k, es, hpress, hrun, hstuck⟩ := honce
  have hend := run_keeps (meeting_keeping hdec hAB) es (meeting_press hdec hAB h hmay hun hpress)
    hrun
  obtain ⟨o, d, ho, hd, hoA, hoB, -⟩ := calling_end hend.calling hstuck
  exact ⟨hend.calling.reachable, meeting_end hend hstuck, o, d, ho, hd, hoA, hoB⟩

/-- A camera that is ready stays so. -/
theorem once_ready (h : Reachable (net everyone from_str) n)
    (honce : CallsOnce from_str A B p n m) {c : Addr}
    (hready : (n.page c).vars.isLocalStreamReady = true) :
    (m.page c).vars.isLocalStreamReady = true := by
  have hkeep : ∀ C, Keeping (net everyone from_str) (fun k =>
      Reachable (net everyone from_str) k ∧ (k.page c).vars.isLocalStreamReady = true) C := by
    intro C k e k' hk _ hst
    refine ⟨.step hk.1 trivial hst, ?_⟩
    rcases (CamNet.step_cases hst).page c with heq | ⟨d, hd, -⟩
    · rw [heq]
      exact hk.2
    · exact CamButton.ready_kept (page_reachable c hk.1) hd hk.2
  obtain ⟨k, es, hpress, hrun, -⟩ := honce
  have hstart := hkeep (fun _ _ => true) n (.browser p .press) k ⟨h, hready⟩ rfl hpress
  exact (run_keeps (hkeep _) es hstart hrun).2

/-- A call between two pages that may call each other. -/
theorem once_again (hdec : DecodesFrames from_str) (hAB : A ≠ B)
    (hends : p = A ∧ q = B ∨ p = B ∧ q = A) (h : Reachable (net everyone from_str) n)
    (hac : Acquainted p q n) (honce : CallsOnce from_str A B p n m) :
    Connected from_str p q m := by
  rcases hends with ⟨rfl, rfl⟩ | ⟨rfl, rfl⟩
  · exact once_connects hdec hAB h hac.call hac.unedited honce
  · exact once_connects hdec (Ne.symm hAB) h hac.call hac.unedited (once_swap honce)

/-- Whoever's camera is ready can call. -/
theorem can_call (hdec : DecodesFrames from_str) (hAB : A ≠ B)
    (hends : p = A ∧ q = B ∨ p = B ∧ q = A) (h : Reachable (net everyone from_str) n)
    (hmay : MayCall p q n) (hready : (n.page p).vars.isLocalStreamReady = true) :
    ∃ m, CallsOnce from_str A B p n m := by
  have hn := named_session n
  have hfull := id_filled h hn hmay.callee
  rw [← peer_named hn hmay.peer, isPeerIdEmpty, Bool.or_eq_false_iff] at hfull
  have hbutton : CamPage.buttonEnabled (n.page p).vars = true := by
    rw [CamPage.buttonEnabled, hready]
    simpa using hfull.1
  have hpress : ∃ m, CamNet.step everyone from_str n (.browser p .press) = some m := by
    have hmounted : ¬ (!(n.page p).mounted) = true := by
      rw [hmay.caller.mounted]
      exact Bool.false_ne_true
    rw [step_browser rfl, CamPage.step, if_neg hmounted]
    simp only [if_pos hbutton]
    exact ⟨_, rfl⟩
  obtain ⟨m, hpress⟩ := hpress
  have hpq : p ≠ q := by
    rcases hends with ⟨rfl, rfl⟩ | ⟨rfl, rfl⟩
    · exact hAB
    · exact Ne.symm hAB
  obtain ⟨es, m', hrun, hstuck⟩ := calling_rests hdec hpq (calling_press hdec hpq h hmay hpress)
  exact ⟨m', once_at hends ⟨m, es, hpress, hrun, hstuck⟩⟩

/-- **CALLS FOLLOW CALLS.**  Whatever has happened before: once page `A` may call page `B`,
    no edit is queued, and the field of `B` is empty or has the id of `A`, the two pages can
    go on calling each other, `A` first, and then one call after the other in either
    direction.  However many calls there were, each of them without a rejected operation and
    left alone until no own step was possible, the last one has left the two descriptions of
    its caller and its callee at both, each of the two may call the other, and for one whose
    camera was ready there is a next call. -/
theorem calls_follow (hdec : DecodesFrames from_str) (hAB : A ≠ B)
    (h : Reachable (net everyone from_str) n) (hmay : MayCall A B n) (hun : Unedited A B n)
    (hcalls : Calls from_str A B n p q m) :
    (∃ o d : Desc, o.type = .offer ∧ d.type = .answer ∧
      outcome (m.page p) = some (.stable, some o, some d) ∧
      outcome (m.page q) = some (.stable, some d, some o)) ∧
    MayCall p q m ∧ MayCall q p m ∧
    ((n.page p).vars.isLocalStreamReady = true → ∃ k, Calls from_str A B n p q k) ∧
    ((n.page q).vars.isLocalStreamReady = true → ∃ k, Calls from_str A B n q p k) := by
  have hkept : (p = A ∧ q = B ∨ p = B ∧ q = A) ∧ Connected from_str p q m ∧
      ∀ c, (n.page c).vars.isLocalStreamReady = true →
        (m.page c).vars.isLocalStreamReady = true := by
    induction hcalls with
    | first honce =>
        exact ⟨Or.inl ⟨rfl, rfl⟩, once_connects hdec hAB h hmay hun honce,
          fun _ hready => once_ready h honce hready⟩
    | @again p q m k _ honce ih =>
        obtain ⟨hends, hc, hready⟩ := ih
        refine ⟨hends, ?_, fun c hn => once_ready hc.reachable honce (hready c hn)⟩
        exact once_again hdec hAB hends hc.reachable hc.acquainted honce
    | @back p q m k _ honce ih =>
        obtain ⟨hends, hc, hready⟩ := ih
        have hends' := hends.symm.imp And.symm And.symm
        refine ⟨hends', ?_, fun c hn => once_ready hc.reachable honce (hready c hn)⟩
        exact once_again hdec hAB hends' hc.reachable hc.acquainted.symm honce
  obtain ⟨hends, hc, hready⟩ := hkept
  refine ⟨hc.outcome, hc.acquainted.call, hc.acquainted.back, fun hn => ?_, fun hn => ?_⟩
  · obtain ⟨k, honce⟩ :=
      can_call hdec hAB hends hc.reachable hc.acquainted.call (hready p hn)
    exact ⟨k, .again hcalls honce⟩
  · obtain ⟨k, honce⟩ := can_call hdec hAB (hends.symm.imp And.symm And.symm) hc.reachable
      hc.acquainted.back (hready q hn)
    exact ⟨k, .back hcalls honce⟩

/-- Two pages have met; page 0 calls page 1, and page 1 calls back. -/
theorem calls_follow_sample :
    ∃ n m k : Net, Reachable (net everyone CamWire.from_str) n ∧
      Calls CamWire.from_str 0 1 n 0 1 m ∧ Calls CamWire.from_str 0 1 n 1 0 k ∧
      ∃ o d : Desc, outcome (k.page 1) = some (.stable, some o, some d) ∧
        outcome (k.page 0) = some (.stable, some d, some o) := by
  have hrun : (exec (net everyone CamWire.from_str) .initial CamExact.meetRun).any (fun n =>
      [0, 1].all (fun a => (n.page a).mounted &&
        decide ((session n.relay a).phase = .running) &&
        decide (n.relay.sessions (session n.relay a).id = some a) &&
        decide ((n.page a).signaling = some .stable) &&
        decide ((n.page a).next.peerId = (n.page a).vars.peerId) &&
        (n.page a).vars.isLocalStreamReady) &&
      decide (load 0 1 n = 0) && truthy (n.page 0).vars.clientId && peers n 0 1 &&
      peers n 1 0 && !(n.page 0).isNegotiatingRef) = true := by
    decide +kernel
  obtain ⟨n, -, hreach, hcheck⟩ := ReachVia.of_check (fun _ _ _ => trivial) rfl hrun
  simp only [Bool.and_eq_true, List.all_cons, List.all_nil, decide_eq_true_eq,
    Bool.not_eq_true', and_true] at hcheck
  obtain ⟨⟨⟨⟨⟨⟨hpage₀, hpage₁⟩, hload⟩, hid⟩, hpeer⟩, hback⟩, hflag⟩ := hcheck
  obtain ⟨⟨⟨⟨⟨hm₀, hp₀⟩, hr₀⟩, hs₀⟩, he₀⟩, hc₀⟩ := hpage₀
  obtain ⟨⟨⟨⟨⟨hm₁, hp₁⟩, hr₁⟩, hs₁⟩, he₁⟩, hc₁⟩ := hpage₁
  have hmay : MayCall 0 1 n :=
    ⟨⟨hm₀, hp₀, hr₀⟩, ⟨hm₁, hp₁, hr₁⟩, hload, has_of_signaling hs₀ (fun _ => Or.inl),
      has_of_signaling hs₁ (fun _ => Or.inl), hid, hpeer, hflag⟩
  have hun : Unedited 0 1 n := ⟨he₀, he₁, Or.inr hback⟩
  obtain ⟨m, honce⟩ := can_call decodesFrames_from_str (by decide) (Or.inl ⟨rfl, rfl⟩) hreach
    hmay hc₀
  obtain ⟨-, -, -, -, hnext⟩ := calls_follow decodesFrames_from_str (by decide) hreach hmay hun
    (.first honce)
  obtain ⟨k, hk⟩ := hnext hc₁
  obtain ⟨⟨o, d, -, -, ho, hd⟩, -⟩ := calls_follow decodesFrames_from_str (by decide) hreach
    hmay hun hk
  exact ⟨n, m, k, hreach, .first honce, hk, o, d, ho, hd⟩

end Calls

end CamCallBack
