import WebRtcCam.CamAgreeProofs

/-! # From page to page in order

    What one page sends to another goes through the page's own socket, the queue of its
    session, the server, the mailbox of the other session and the other page's socket.
    Each of these keeps the order; sessions that stop and recipients that are gone lose
    some of it.

    `pipe` puts the places from one page to another behind each other: what has been
    heard, what was relayed and is still to arrive, and what the server has still to
    handle.

    * `pipe_step` — nothing is ever added but what the page sends, at the end;
    * `heard_in_order` — in every run: heard once, in order, and unaltered;
    * `heard_exactly` — and completely, if nothing is lost and everything is at rest. -/

namespace CamOrder

open LtsRun JsonText CamWire CamNet CamHonest CamPending CamNegotiation CamMail CamStuck
open CamTrail CamExact
open CamRelay (Addr Relay WebSocketSession ServerMsg)
open CamPage (Page Received)

/-- It is signed with the one id and addressed to the other. -/
def passes (src dst : String) (j : Json) : Bool :=
  j.get "from" = some (.str src) && j.get "to" = some (.str dst)

/-- The offers and answers a page has received, in order. -/
def heard (s : Page) : List Json := (sdpReceived s).map (·.data)

/-- What is on its way from `a` to `b`: relayed and on the line, then what the server has
    still to handle. -/
def mail (ids : Addr → String) (a b : Addr) (n : Net) : List Json :=
  (line n b).filter (passes (ids a) (ids b)) ++ (outgoing n a).filter (passes (ids a) (ids b))

/-- What `b` has heard from `a`, and then what is on its way. -/
def pipe (ids : Addr → String) (a b : Addr) (n : Net) : List Json :=
  (heard (n.page b)).filter (passes (ids a) (ids b)) ++ mail ids a b n

/-- What page `a` has sent to `b`. -/
def sentTo (ids : Addr → String) (a b : Addr) (n : Net) : List Json :=
  (n.page a).sent.filter (passes (ids a) (ids b))

/-- A message to be passed on to the id `dst`. -/
def isFor (dst : String) : ServerMsg → Bool
  | .sendMessage d _ => d = dst
  | _ => false

/-- The session of `a` or `b` stops, or the server handles a frame of `a` for the id `dst`
    while that is not registered or has stopped. -/
def loses (a b : Addr) (dst : String) (n : Net) : Event → Bool
  | .server (.stop c) => c = a || c = b
  | .server (.serve c) => c = a && (session n.relay a).toServer.head?.any (isFor dst) &&
      !(n.relay.sessions dst).any (fun p => (session n.relay p).phase ≠ .stopped)
  | _ => false

theorem passes_frame {src dst : String} {f : Frame} :
    passes src dst f.json = true ↔ f.sender = src ∧ f.dest = dst := by
  have hto : f.json.get "to" = some (.str f.dest) := rfl
  simp [passes, hto]

/-- A page receives what it is passed, and nothing else. -/
theorem heard_step {s s' : Page} {d : CamPage.Event} (h : CamPage.step s d = some s') :
    heard s' = heard s ++ (delivered d).toList := by
  have hst := CamPage.step_cases h
  cases d with
  | message data =>
      cases hst with
      | @message env _ _ _ =>
          rcases onmessage_slot env data s with ⟨hsame, hno⟩ | ⟨j, rfl, hj, heq⟩
          · have hnone : delivered (.message data) = none := by
              cases data with
              | none => rfl
              | some j =>
                  rcases hno j rfl with hj | rfl
                  · rw [delivered, Option.filter_some, hj]
                    rfl
                  · rfl
            rw [heard, hsame.received, hnone]
            exact (List.append_nil _).symm
          · have hrec : sdpReceived (CamPage.receive j s) = sdpReceived s ++ [s.arrival j] := by
              simp [sdpReceived, receivedSDP, CamPage.Page.arrival, hj]
            have hsome : delivered (.message (some j)) = some j := by
              rw [delivered, Option.filter_some, hj]
              rfl
            rw [heq, hsome]
            show (sdpReceived (CamPage.receive j s)).map _ = _
            rw [hrec, List.map_append]
            rfl
  | _ =>
      rcases step_heard hst with ⟨l, ht, hl⟩ | ⟨j, _, hd, -⟩
      · -- it observes no reception
        have hnil : l.filterMap receivedSDP = [] := by
          refine List.filterMap_eq_nil_iff.mpr (fun o ho => ?_)
          cases o with
          | received m => exact absurd ho (hl m)
          | _ => rfl
        rw [heard, sdpReceived, ht, List.filterMap_append, hnil, List.append_nil]
        exact (List.append_nil _).symm
      · cases hd

section Steps

variable {from_str : String → Option Message} {C : Net → Event → Prop}
  {ids : Addr → String} {a b : Addr} {n n' : Net} {e : Event}

/-- Between the pages mail is carried on, or lost. -/
theorem mail_carried (ha : ∀ c, ids c = ids a → c = a) (hb : ∀ c, ids c = ids b → c = b)
    (h : Moves ids n e n') (hturn : ∀ c d l, ¬ Turn ids n e c d l n') :
    n'.page = n.page ∧ (mail ids a b n').Sublist (mail ids a b n) ∧
      (loses a b (ids b) n e = false → mail ids a b n' = mail ids a b n) := by
  have hsame : n'.page = n.page → mail ids a b n' = mail ids a b n →
      n'.page = n.page ∧ (mail ids a b n').Sublist (mail ids a b n) ∧
        (loses a b (ids b) n e = false → mail ids a b n' = mail ids a b n) := by
    intro hp heq
    refine ⟨hp, ?_, fun _ => heq⟩
    rw [heq]
  cases h with
  | still hp ho hl => exact hsame hp (by rw [mail, mail, ho, hl])
  | @relayed c d f rest _ hp _ _ hsender hdest hc ho hd hl =>
      refine hsame hp ?_
      cases hpass : passes (ids a) (ids b) f.json with
      | true =>
          -- it goes from the end of the one list to the front of the other
          obtain ⟨hs, ht⟩ := passes_frame.mp hpass
          obtain rfl : c = a := ha c (hsender.symm.trans hs)
          obtain rfl : d = b := hb d (hdest.symm.trans ht)
          rw [mail, mail, hd, hc, List.filter_append, List.filter_cons_of_pos hpass,
            List.filter_cons_of_pos hpass, List.append_assoc]
          rfl
      | false =>
          have hnot : ¬ passes (ids a) (ids b) f.json = true := by
            rw [hpass]
            exact Bool.false_ne_true
          have hline : (line n' b).filter (passes (ids a) (ids b))
              = (line n b).filter (passes (ids a) (ids b)) := by
            by_cases hbd : b = d
            · rw [hbd, hd, List.filter_append, ← hbd, List.filter_cons_of_neg hnot]
              exact List.append_nil _
            · rw [hl b hbd]
          have hout : (outgoing n' a).filter (passes (ids a) (ids b))
              = (outgoing n a).filter (passes (ids a) (ids b)) := by
            by_cases hac : a = c
            · rw [hac, hc, ← hac, List.filter_cons_of_neg hnot]
            · rw [ho a hac]
          rw [mail, mail, hline, hout]
  | @dropped c f rest _ hp hq hnone hsender hc ho hl =>
      by_cases hac : a = c
      · subst hac
        refine ⟨hp, ?_, fun hno => ?_⟩
        · rw [mail, mail, hl, hc]
          exact ((List.sublist_cons_self ..).filter _).append_left _
        · cases hpass : passes (ids a) (ids b) f.json with
          | true =>
              have hdest := (passes_frame.mp hpass).2
              rw [hdest] at hnone hq
              have hgone : (n.relay.sessions (ids b)).any
                  (fun p => (session n.relay p).phase ≠ .stopped) = false := by
                rw [Option.any_eq_false]
                exact fun p hp => by simp [hnone p hp]
              rw [loses, hq, hgone] at hno
              simp [isFor] at hno
          | false =>
              rw [mail, mail, hl, hc, List.filter_cons_of_neg]
              rw [hpass]
              exact Bool.false_ne_true
      · exact hsame hp (by rw [mail, mail, hl, ho a hac])
  | @stopped c _ hp hc ho hline hl =>
      refine ⟨hp, ?_, fun hno => ?_⟩
      · have hlsub : (line n' b).Sublist (line n b) := by
          by_cases hbc : b = c
          · rw [hbc, hline]
            exact List.sublist_append_left ..
          · rw [hl b hbc]
        have hosub : (outgoing n' a).Sublist (outgoing n a) := by
          by_cases hac : a = c
          · rw [hac, hc]
            exact List.sublist_append_left ..
          · rw [ho a hac]
        rw [mail, mail]
        exact (hlsub.filter _).append (hosub.filter _)
      · have hne : c ≠ a ∧ c ≠ b := by simpa [loses] using hno
        rw [mail, mail, hl b (Ne.symm hne.2), ho a (Ne.symm hne.1)]
  | turn ht => exact absurd ht (hturn _ _ _)

/-- **ONE STEP** leaves what is in the pipe, puts what `a` sends at its end, or loses
    some. -/
theorem pipe_step (ha : ∀ c, ids c = ids a → c = a) (hb : ∀ c, ids c = ids b → c = b)
    (h : Moves ids n e n') :
    ∃ l, sentTo ids a b n' = sentTo ids a b n ++ l ∧
      (pipe ids a b n').Sublist (pipe ids a b n ++ l) ∧
      (loses a b (ids b) n e = false → (session n.relay a).phase ≠ .stopped →
        pipe ids a b n' = pipe ids a b n ++ l) := by
  by_cases hturn : ∃ c d l, Turn ids n e c d l n'
  · obtain ⟨c, d, l, ht⟩ := hturn
    -- what arrives at `b` is heard there
    have harrive : (heard (n'.page b)).filter (passes (ids a) (ids b)) ++
        (line n' b).filter (passes (ids a) (ids b))
        = (heard (n.page b)).filter (passes (ids a) (ids b)) ++
          (line n b).filter (passes (ids a) (ids b)) := by
      by_cases hbc : b = c
      · subst hbc
        rw [heard_step ht.step, ht.line, List.filter_append, List.filter_append,
          List.append_assoc]
      · rw [ht.pages b hbc, ht.lines b hbc]
    have hassoc : ∀ k, pipe ids a b k = ((heard (k.page b)).filter (passes (ids a) (ids b)) ++
        (line k b).filter (passes (ids a) (ids b))) ++
          (outgoing k a).filter (passes (ids a) (ids b)) :=
      fun k => (List.append_assoc ..).symm
    by_cases hac : a = c
    · subst hac
      refine ⟨l.filter (passes (ids a) (ids b)), ?_, ?_, fun _ hlive => ?_⟩
      · rw [sentTo, sentTo, ht.sent, List.filter_append]
      · rw [hassoc, hassoc, harrive, ht.out, List.filter_append, List.append_assoc,
          List.append_assoc, List.append_assoc]
        refine List.Sublist.append_left (List.Sublist.append_left
          (List.Sublist.append_left ?_ _) _) _
        split
        · exact List.nil_sublist _
        · exact List.Sublist.refl _
      · rw [hassoc, hassoc, harrive, ht.out, if_neg hlive, List.filter_append,
          List.append_assoc, List.append_assoc, List.append_assoc]
    · have heq : pipe ids a b n' = pipe ids a b n := by
        rw [hassoc, hassoc, harrive, ht.outs a hac]
      refine ⟨[], ?_, ?_, fun _ _ => ?_⟩
      · rw [sentTo, sentTo, ht.pages a hac, List.append_nil]
      · rw [heq, List.append_nil]
      · rw [heq, List.append_nil]
  · obtain ⟨hp, hsub, heq⟩ := mail_carried (a := a) (b := b) ha hb h
      (fun c d l ht => hturn ⟨c, d, l, ht⟩)
    refine ⟨[], ?_, ?_, fun hno _ => ?_⟩
    · rw [sentTo, sentTo, hp, List.append_nil]
    · rw [pipe, pipe, hp, List.append_nil]
      exact hsub.append_left _
    · rw [pipe, pipe, hp, heq hno, List.append_nil]

/-- A session stops by stopping. -/
theorem live_step {s s' : Relay} {d : CamRelay.Event} (h : CamRelay.Step from_str s d s')
    (hd : d ≠ .stop a) (hi : (session s a).phase ≠ .stopped) :
    (session s' a).phase ≠ .stopped := by
  rcases session_step h hd with ⟨-, hlive⟩ | ⟨hphase, -⟩
  · exact hlive
  · rw [hphase]
    exact hi

/-- Nothing is on its way to a page that is there once both ends are at rest. -/
theorem mail_at_rest (ha : atRest n a = true) (hb : atRest n b = true)
    (hm : (n.page b).mounted = true) : mail ids a b n = [] := by
  rw [mail, outgoing_at_rest ha, line_at_rest hb hm]
  rfl

end Steps

/-! ## Runs -/

section Runs

variable {from_str : String → Option Message} {C : Net → Event → Prop}
  {ids : Addr → String} {a b : Addr} {n : Net}

/-- Every run of pages moves mail as a step does. -/
theorem pipe_reachVia (hdec : DecodesFrames from_str) (ha : ∀ c, ids c = ids a → c = a)
    (hb : ∀ c, ids c = ids b → c = b) (h : ReachVia (net everyone from_str) C n)
    (hn : Named ids n) : (pipe ids a b n).Sublist (sentTo ids a b n) := by
  refine ReachVia.invariant
    (I := fun n => Named ids n → (pipe ids a b n).Sublist (sentTo ids a b n))
    (fun n h0 _ => ?_) (fun n e n' hr hi _ hst hn' => ?_) h hn
  · subst h0
    exact List.nil_sublist _
  · have hstep := CamNet.step_cases hst
    have hbefore := hn'.before hstep
    have htrust := trusty_everyone hr hbefore
    obtain ⟨l, hsent, hpipe, -⟩ := pipe_step ha hb
      (step_moves hr hdec hbefore (closed_everyone hst) htrust hstep)
    rw [hsent]
    exact hpipe.trans ((hi hbefore).append_right l)

/-- In a run that loses nothing, all that was sent is in the pipe. -/
theorem pipe_full (hdec : DecodesFrames from_str) (ha : ∀ c, ids c = ids a → c = a)
    (hb : ∀ c, ids c = ids b → c = b)
    (h : ReachVia (net everyone from_str) (fun n e => loses a b (ids b) n e = false) n)
    (hn : Named ids n) :
    pipe ids a b n = sentTo ids a b n ∧ (session n.relay a).phase ≠ .stopped := by
  refine ReachVia.invariant (I := fun n => Named ids n →
    pipe ids a b n = sentTo ids a b n ∧ (session n.relay a).phase ≠ .stopped)
    (fun n h0 _ => ?_) (fun n e n' hr hi hc hst hn' => ?_) h hn
  · subst h0
    exact ⟨rfl, fun h => (by cases h)⟩
  · have hstep := CamNet.step_cases hst
    have hbefore := hn'.before hstep
    have htrust := trusty_everyone hr hbefore
    obtain ⟨heq, hlive⟩ := hi hbefore
    obtain ⟨l, hsent, -, hpipe⟩ := pipe_step ha hb
      (step_moves hr hdec hbefore (closed_everyone hst) htrust hstep)
    refine ⟨by rw [hpipe hc hlive, heq, hsent], ?_⟩
    cases hstep with
    | server _ hs =>
        refine live_step (CamRelay.step_cases hs) ?_ hlive
        rintro rfl
        have hc : (a = a || a = b) = false := hc
        simp at hc
    | browser => exact hlive
    | upload _ _ hs => exact live_step (CamRelay.step_cases hs) (fun h => (by cases h)) hlive
    | download => exact hlive

variable {x y : WebSocketSession}

/-- **HEARD IN ORDER, AND ONCE.**  In every run in which all clients are pages, whatever
    sessions stop and whoever is not there: of the offers and answers that page `b` has
    received, those signed with the id of `a` and addressed to it are some of those that
    page `a` has sent it, each of them once, unaltered, and in the order in which they
    were sent. -/
theorem heard_in_order (hdec : DecodesFrames from_str) (h : Reachable (net everyone from_str) n)
    (hx : n.relay.actor a = some x) (hy : n.relay.actor b = some y) :
    ((heard (n.page b)).filter (passes x.id y.id)).Sublist
      ((n.page a).sent.filter (passes x.id y.id)) := by
  have hpipe := pipe_reachVia hdec (id_unique h hx) (id_unique h hy) h (named_session n)
  rw [sentTo, pipe, session_some hx, session_some hy] at hpipe
  exact (List.sublist_append_left ..).trans hpipe

/-- **HEARD EXACTLY**: if moreover neither of the two sessions stops, and `b` is registered
    whenever the server handles a frame from `a` to it, then at rest the page `b`, if it is
    still mounted, has received all that page `a` has sent it. -/
theorem heard_exactly (hdec : DecodesFrames from_str)
    (hx : n.relay.actor a = some x) (hy : n.relay.actor b = some y)
    (h : ReachVia (net everyone from_str) (fun n e => loses a b y.id n e = false) n)
    (ha : atRest n a = true) (hb : atRest n b = true) (hm : (n.page b).mounted = true) :
    (heard (n.page b)).filter (passes x.id y.id)
      = (n.page a).sent.filter (passes x.id y.id) := by
  have hid : (session n.relay b).id = y.id := by rw [session_some hy]
  have hpipe := (pipe_full hdec (id_unique h.reachable hx) (id_unique h.reachable hy)
    (by rw [hid]; exact h) (named_session n)).1
  rw [sentTo, pipe, mail_at_rest ha hb hm, List.append_nil, session_some hx, session_some hy]
    at hpipe
  exact hpipe

/-- Page 0 has called page 1, and its offer has been heard there. -/
theorem heard_in_order_sample :
    ∃ (n : Net) (x y : WebSocketSession), Reachable (net everyone CamWire.from_str) n ∧
      n.relay.actor 0 = some x ∧ n.relay.actor 1 = some y ∧
      ((heard (n.page 1)).filter (passes x.id y.id)).length = 1 ∧
      ((heard (n.page 1)).filter (passes x.id y.id)).Sublist
        ((n.page 0).sent.filter (passes x.id y.id)) := by
  have hrun : (exec (net everyone CamWire.from_str) .initial CamAgree.agreedRun).any (fun n =>
      decide ((n.relay.actor 0).map (·.id) = some "a") &&
      decide ((n.relay.actor 1).map (·.id) = some "b") &&
      decide (((heard (n.page 1)).filter (passes "a" "b")).length = 1)) = true := by
    decide +kernel
  obtain ⟨n, -, hreach, hcheck⟩ := ReachVia.of_check (fun _ _ _ => trivial) rfl hrun
  simp only [Bool.and_eq_true, decide_eq_true_eq] at hcheck
  obtain ⟨⟨hx, hy⟩, hlen⟩ := hcheck
  obtain ⟨x, hx, hxid⟩ := Option.map_eq_some_iff.mp hx
  obtain ⟨y, hy, hyid⟩ := Option.map_eq_some_iff.mp hy
  rw [← hxid, ← hyid] at hlen
  exact ⟨n, x, y, hreach, hx, hy, hlen, heard_in_order decodesFrames_from_str hreach hx hy⟩

/-- The answer to it has come back, and nothing was lost. -/
theorem heard_exactly_sample :
    ∃ (n : Net) (x y : WebSocketSession),
      ReachVia (net everyone CamWire.from_str) (fun n e => loses 1 0 x.id n e = false) n ∧
      n.relay.actor 0 = some x ∧ n.relay.actor 1 = some y ∧
      ((n.page 1).sent.filter (passes y.id x.id)).length = 1 ∧
      (heard (n.page 0)).filter (passes y.id x.id)
        = (n.page 1).sent.filter (passes y.id x.id) := by
  have hrun : (execVia (net everyone CamWire.from_str) (fun n e => !loses 1 0 "a" n e)
      .initial CamAgree.agreedRun).any (fun n =>
      decide ((n.relay.actor 0).map (·.id) = some "a") &&
      decide ((n.relay.actor 1).map (·.id) = some "b") && atRest n 0 && atRest n 1 &&
      (n.page 0).mounted && decide (((n.page 1).sent.filter (passes "b" "a")).length = 1))
      = true := by
    decide +kernel
  obtain ⟨n, -, hreach, hcheck⟩ := ReachVia.of_check
    (C := fun n e => loses 1 0 "a" n e = false) (fun _ _ h => by simpa using h) rfl hrun
  simp only [Bool.and_eq_true, decide_eq_true_eq] at hcheck
  obtain ⟨⟨⟨⟨⟨hx, hy⟩, h₀⟩, h₁⟩, hm⟩, hlen⟩ := hcheck
  obtain ⟨x, hx, hxid⟩ := Option.map_eq_some_iff.mp hx
  obtain ⟨y, hy, hyid⟩ := Option.map_eq_some_iff.mp hy
  rw [← hxid, ← hyid] at hlen
  rw [← hxid] at hreach
  exact ⟨n, x, y, hreach, hx, hy, hlen,
    heard_exactly decodesFrames_from_str hy hx hreach h₁ h₀ hm⟩

end Runs

end CamOrder
