import WebRtcCam.CamAnswerProofs
import WebRtcCam.CamHonestProofs

/-! # Who the page is talking to

    A page keeps its counterpart in two places.  An answer goes to the `from` of the
    message it answers; a gathered candidate goes to `peerIdRef.current`, which is set
    from the input field, by `handleSDPMessage` if no peer was COMMITTED, and by every
    candidate message that has a sender (its handler reads the peer id of the first
    render, which is empty).

    The log keeps the messages whose description was applied.

    * `flush_peer` — what a flush does to the peer id and its ref;
    * `same_party` — if all descriptions handed over are from one party, which is the
      page's peer or becomes it, and no candidate message of another party follows,
      candidates and answers go to that party. -/

namespace CamParty

open LtsRun JsonText CamWire RtcSignaling CamPage CamClosure CamPending CamNegotiation
open CamHonest CamAnswer

/-- The message whose description a call has applied. -/
def appliedOf : Call → List Received
  | .remoteApplied _ m _ => [m]
  | _ => []

/-- The message whose description a step applies. -/
def applied (s : Page) : Event → List Received
  | .settle (.fulfilled _ _) =>
      match s.chain with
      | x :: _ => appliedOf x.2
      | [] => []
  | _ => []

/-- The user edits the peer id only before the first offer or answer was sent or
    received. -/
def editsFirst (s : Page) : Event → Bool
  | .edit _ => sdpReceived s = [] ∧ s.sent = []
  | _ => true

/-- Everybody whose description was handed over so far is this sender. -/
def isParty (s : Page) (sender : Json) : Bool :=
  (sdpHandled s).all (fun m => (m.data.get "from").all (fun x => x = sender))

/-- `peerIdRef.current`, once the synchronisation has run that is due. -/
def syncedRef (s : Page) : Json :=
  if .syncPeerId ∈ s.effects then s.vars.peerId else s.peerIdRef

/-- A description is handed over only if its sender is the party of the earlier ones
    and the page has either no committed peer or this one, in all three places; and
    once a description was handed over, a candidate message is of the same party. -/
def oneParty (s : Page) : Event → Bool
  | .flushEffects =>
      match (handed s).bind (fun m => m.data.get "from") with
      | some sender => isParty s sender && (isPeerIdEmpty s.vars.peerId ||
          (s.vars.peerId = sender && s.next.peerId = sender && syncedRef s = sender))
      | none => true
  | .message (some j) =>
      !isICECandidateMessage j || (j.get "from").all (isParty s)
  | _ => true

def OneParty (p : Page × List Received) (e : Event) : Prop :=
  (editsFirst p.1 e && oneParty p.1 e) = true

/-! ## The peer id along a step -/

/-- What the effects before the hand-over do to the peer id: the ref is synchronised
    if it has to be, and no peer is queued. -/
theorem flush_sync (es : List Effect) :
    ∀ t : Page, .processPendingSDP ∉ es →
      (es.foldl runEffect t).peerIdRef
        = (if .syncPeerId ∈ es then t.vars.peerId else t.peerIdRef) ∧
      (es.foldl runEffect t).next.peerId = t.next.peerId := by
  induction es with
  | nil => exact fun t _ => ⟨rfl, rfl⟩
  | cons e es ih =>
      intro t hnot
      have hrest : .processPendingSDP ∉ es := fun hm => hnot (List.mem_cons_of_mem _ hm)
      obtain ⟨href, hnext⟩ := ih (runEffect t e) hrest
      rw [List.foldl_cons, href, hnext]
      cases e with
      | syncPeerId =>
          refine ⟨?_, rfl⟩
          rw [if_pos (List.mem_cons_self ..)]
          split
          · rfl
          · rfl
      | mount =>
          refine ⟨by simp [runEffect], ?_⟩
          show (enqueue (.setSocket ⟨⟩) _).next.peerId = t.next.peerId
          rw [next_enqueue]
          rfl
      | processPendingSDP => exact absurd (List.mem_cons_self ..) hnot

/-- `handleSDPMessage` makes the sender the peer if none is committed. -/
theorem handleSDPMessage_peer (env : Vars) (m : Received) {s : Page}
    (hpc : s.peerConnectionRef.isSome = true) :
    (∃ sender, m.data.get "from" = some sender ∧ isPeerIdEmpty env.peerId = true ∧
      (handleSDPMessage env m s).peerIdRef = sender ∧
      (handleSDPMessage env m s).next.peerId = sender) ∨
    ((m.data.get "from" = none ∨ isPeerIdEmpty env.peerId = false) ∧
      (handleSDPMessage env m s).peerIdRef = s.peerIdRef ∧
      (handleSDPMessage env m s).next.peerId = s.next.peerId) := by
  -- only `adoptSender` touches the peer
  have hadopt : (handleSDPMessage env m s).peerIdRef
        = (adoptSender env m (noteSDP m s)).peerIdRef ∧
      (handleSDPMessage env m s).next = (adoptSender env m (noteSDP m s)).next := by
    rcases handleSDPMessage_cases env m s with
      ⟨hn, -⟩ | ⟨pc, pc', -, -, ⟨h, -⟩ | ⟨sdp, d, -, -, h⟩⟩
    · rw [hn] at hpc
      exact nomatch hpc
    · rw [h]
      exact ⟨rfl, rfl⟩
    · rw [h]
      exact ⟨rfl, rfl⟩
  rw [hadopt.1, hadopt.2]
  rw [adoptSender]
  cases hfrom : m.data.get "from" with
  | none => exact Or.inr ⟨Or.inl rfl, rfl, rfl⟩
  | some sender =>
      cases hempty : isPeerIdEmpty env.peerId with
      | true =>
          refine Or.inl ⟨sender, rfl, rfl, rfl, ?_⟩
          have hnext := next_of_append (s := noteSDP m s) (t := bindPeer sender (noteSDP m s))
            rfl rfl
          show (bindPeer sender (noteSDP m s)).next.peerId = sender
          rw [hnext]
          rfl
      | false => exact Or.inr ⟨Or.inr rfl, rfl, rfl⟩

/-- **THE PEER ALONG A FLUSH**: the sender of the message handed over becomes the
    peer if none is committed; otherwise a due synchronisation runs, and that is
    all. -/
theorem flush_peer {s s' : Page} (hr : Reachable page s)
    (h : step s .flushEffects = some s') :
    (∃ m sender, handed s = some m ∧ m.data.get "from" = some sender ∧
      isPeerIdEmpty s.vars.peerId = true ∧ s'.peerIdRef = sender ∧
      s'.next.peerId = sender) ∨
    ((∀ m, handed s = some m → m.data.get "from" = none ∨
        isPeerIdEmpty s.vars.peerId = false) ∧
      s'.peerIdRef = syncedRef s ∧ s'.next.peerId = s.next.peerId) := by
  cases step_cases h with
  | flushEffects =>
      rcases (slot_reachable hr).order.last with hnot | ⟨es, hes, hnot⟩
      · obtain ⟨href, hnext⟩ := flush_sync s.effects { s with effects := [] } hnot
        refine Or.inr ⟨fun m hm => absurd (handed_some hm).1 hnot, href, hnext⟩
      · obtain ⟨href, hnext⟩ := flush_sync es { s with effects := [] } hnot
        have hsync : syncedRef s = (es.foldl runEffect { s with effects := [] }).peerIdRef := by
          rw [href, syncedRef, hes]
          simp
        have hvars := flush_vars es { s with effects := [] }
        have hdue : .processPendingSDP ∈ s.effects := by rw [hes]; simp
        -- a message can be handed over only when there is a connection
        have hconn : s.vars.pendingSDP ≠ none →
            (es.foldl runEffect { s with effects := [] }).peerConnectionRef.isSome
              = true := by
          intro hne
          refine flush_induction (P := fun t => t.peerConnectionRef.isSome = true)
            (fun t e ht => runEffect_connected e ht) es _ ?_
          refine (mountRender_reachable hr).connected ?_
          by_contra hn
          exact hne (unopened_reachable hr (by simpa using hn)).1
        rw [hsync, hes, List.foldl_append, List.foldl_cons, List.foldl_nil]
        generalize es.foldl runEffect { s with effects := [] } = t at *
        replace hvars : t.vars = s.vars := hvars
        rcases processPendingSDP_cases t with ⟨heq, hnone⟩ | ⟨m, hm, hid, heq⟩
        · rw [heq]
          refine Or.inr ⟨fun m hm => ?_, rfl, hnext⟩
          rw [hvars] at hnone
          rw [handed_none (Or.inr hnone)] at hm
          cases hm
        · rw [heq, next_enqueue]
          rw [hvars] at hm hid ⊢
          have hh : handed s = some m := by rw [handed, if_pos ⟨hdue, hid⟩, hm]
          rcases handleSDPMessage_peer s.vars m
            (hconn (by rw [hm]; exact fun h => (by cases h))) with
            ⟨sender, hfrom, hempty, hr', hn'⟩ | ⟨hno, hr', hn'⟩
          · exact Or.inl ⟨m, sender, hh, hfrom, hempty, hr', hn'⟩
          · refine Or.inr ⟨fun m' hm' => ?_, hr', hn'.trans hnext⟩
            rw [hh] at hm'
            cases hm'
            exact hno

/-! ## The invariant -/

/-- The party of a message is the page's peer: in the ref, in the next render, and in
    the committed one whenever an effect of it is due. -/
structure BoundTo (s : Page) (sender : Json) : Prop where
  ref : s.peerIdRef = sender
  next : s.next.peerId = sender
  vars : s.effects ≠ [] → s.vars.peerId = sender

/-- **THE INVARIANT**: whoever had a description handed over is the page's peer; what
    was applied and what is being handled was handed over; and the remote description
    was applied from a message. -/
structure Party (p : Page × List Received) : Prop where
  bound : ∀ m ∈ sdpHandled p.1, ∀ sender, m.data.get "from" = some sender →
    BoundTo p.1 sender
  log : ∀ m ∈ p.2, m ∈ sdpHandled p.1
  calls : ∀ x ∈ p.1.chain, ∀ m, callMsg x.2 = some m → m ∈ sdpHandled p.1
  remote : ∀ pc d, p.1.peerConnectionRef = some pc →
    (pc.pendingRemote = some d ∨ pc.currentRemote = some d) →
    ∃ m ∈ p.2, description m = some d

theorem isParty_iff {s : Page} {sender : Json} : isParty s sender = true ↔
    ∀ m ∈ sdpHandled s, ∀ x, m.data.get "from" = some x → x = sender := by
  rw [isParty]
  rw [List.all_eq_true]
  constructor
  · intro h m hm x hx
    have hall := h m hm
    rw [hx] at hall
    simpa using hall
  · intro h m hm
    cases hx : m.data.get "from" with
    | none => rfl
    | some x => simpa using h m hm x hx

/-- A flush in which all keep to one party. -/
theorem bound_flush {s s' : Page} (hr : Reachable page s)
    (hi : ∀ m ∈ sdpHandled s, ∀ sender, m.data.get "from" = some sender →
      BoundTo s sender) (hk : oneParty s .flushEffects = true)
    (h : step s .flushEffects = some s') :
    ∀ m ∈ sdpHandled s', ∀ sender, m.data.get "from" = some sender →
      BoundTo s' sender := by
  have hdone : s'.effects = [] ∧ s.effects ≠ [] := by
    cases step_cases h with
    | flushEffects _ hne => exact ⟨flush_effects _ _, hne⟩
  have hbind : ∀ sender, s'.peerIdRef = sender → s'.next.peerId = sender →
      BoundTo s' sender :=
    fun sender h₁ h₂ => ⟨h₁, h₂, fun hne => absurd hdone.1 hne⟩
  -- what was bound stays bound, if the flush just synchronises
  have hkeep : s'.peerIdRef = syncedRef s → s'.next.peerId = s.next.peerId →
      ∀ sender, BoundTo s sender → BoundTo s' sender := by
    intro href hnext sender hb
    refine hbind sender ?_ (hnext.trans hb.next)
    rw [href, syncedRef]
    split
    · exact hb.vars hdone.2
    · exact hb.ref
  rcases step_handled hr h with ⟨heq, hnone⟩ | ⟨-, m, hm, heq⟩
  · rcases flush_peer hr h with ⟨m', _, hm', -⟩ | ⟨-, href, hnext⟩
    · rw [hnone rfl] at hm'
      exact nomatch hm'
    · rw [heq]
      exact fun m hm sender hs => hkeep href hnext sender (hi m hm sender hs)
  · rw [heq]
    intro m' hm' sender' hs'
    simp only [oneParty, hm, Option.bind_some] at hk
    cases hfrom : m.data.get "from" with
    | none =>
        rcases flush_peer hr h with ⟨m₁, x, hm₁, hx, -⟩ | ⟨-, href, hnext⟩
        · rw [hm] at hm₁
          cases hm₁
          rw [hfrom] at hx
          exact nomatch hx
        · rcases List.mem_append.mp hm' with hm' | hm'
          · exact hkeep href hnext sender' (hi m' hm' sender' hs')
          · cases List.mem_singleton.mp hm'
            rw [hfrom] at hs'
            exact nomatch hs'
    | some sender =>
        rw [hfrom] at hk
        obtain ⟨hparty, hpeer⟩ := Bool.and_eq_true_iff.mp hk
        -- all of them are the sender
        have hsame : sender' = sender := by
          rcases List.mem_append.mp hm' with hm' | hm'
          · exact isParty_iff.mp hparty m' hm' sender' hs'
          · cases List.mem_singleton.mp hm'
            rw [hfrom] at hs'
            exact (Option.some.inj hs').symm
        subst hsame
        rcases flush_peer hr h with ⟨m₁, x, hm₁, hx, -, href, hnext⟩ | ⟨hno, href, hnext⟩
        · rw [hm] at hm₁
          cases hm₁
          rw [hfrom] at hx
          cases hx
          exact hbind _ href hnext
        · have hcommitted : isPeerIdEmpty s.vars.peerId = false := by
            rcases hno m hm with hn | hn
            · rw [hfrom] at hn
              exact nomatch hn
            · exact hn
          rw [hcommitted, Bool.false_or] at hpeer
          simp only [Bool.and_eq_true, decide_eq_true_eq] at hpeer
          obtain ⟨⟨-, hn⟩, hsync⟩ := hpeer
          exact hbind _ (href.trans hsync) (hnext.trans hn)

/-- An arrival in which all keep to one party. -/
theorem bound_message {s s' : Page} {data : Option Json} (hr : Reachable page s)
    (hi : ∀ m ∈ sdpHandled s, ∀ sender, m.data.get "from" = some sender →
      BoundTo s sender) (hk : oneParty s (.message data) = true)
    (h : step s (.message data) = some s') :
    ∀ m ∈ sdpHandled s, ∀ sender, m.data.get "from" = some sender →
      BoundTo s' sender := by
  intro m hm sender hs
  have hb := hi m hm sender hs
  have hmount := mountRender_reachable hr
  cases step_cases h with
  | @message env _ _ henv =>
      have hpc := hmount.connected (by rw [henv]; rfl)
      have hsame := onmessage_sameRender env data s
      have hvars : (onmessage env data s).effects ≠ [] →
          (onmessage env data s).vars.peerId = sender := by
        rw [hsame.effects, hsame.vars]
        exact hb.vars
      rw [hmount.captured _ henv] at hvars hsame ⊢
      rcases onmessage_peer hpc data with
        ⟨j, x, rfl, hc, hf, hq, href⟩ | ⟨-, ⟨l, hq, hl⟩, href⟩
      · -- the candidate message is of the party itself
        have hx : sender = x := by
          simp only [oneParty, hc, hf, Bool.not_true, Bool.false_or, Option.all_some] at hk
          exact isParty_iff.mp hk m hm sender hs
        subst hx
        refine ⟨href, ?_, hvars⟩
        rw [next_of_append hsame.vars hq]
        rfl
      · refine ⟨href.trans hb.ref, ?_, hvars⟩
        rw [next_of_append hsame.vars hq, foldl_peerId l _ hl]
        exact hb.next

/-- The binding along a step. -/
theorem bound_step {s s' : Page} {e : Event} (hr : Reachable page s)
    (hi : ∀ m ∈ sdpHandled s, ∀ sender, m.data.get "from" = some sender →
      BoundTo s sender) (hedit : editsFirst s e = true) (hk : oneParty s e = true)
    (h : step s e = some s') :
    ∀ m ∈ sdpHandled s', ∀ sender, m.data.get "from" = some sender →
      BoundTo s' sender := by
  have hst := step_cases h
  by_cases hflush : e = .flushEffects
  · subst hflush
    exact bound_flush hr hi hk h
  · have hsame : sdpHandled s' = sdpHandled s := by
      rcases step_handled hr h with ⟨heq, -⟩ | ⟨he, -⟩
      · exact heq
      · exact absurd he hflush
    rw [hsame]
    intro m hm sender hs
    have hb := hi m hm sender hs
    cases hst.frame with
    | render =>
        cases hst with
        | render => exact ⟨hb.ref, hb.next, fun _ => hb.next⟩
    | flushEffects => exact absurd rfl hflush
    | unmount =>
        cases hst with
        | unmount => exact ⟨hb.ref, hb.next, hb.vars⟩
    | message => exact bound_message hr hi hk h m hm sender hs
    | edit =>
        -- by then a description has been received
        have hrec := (held_reachable hr).handled m hm
        have hfirst : sdpReceived s = [] := (of_decide_eq_true hedit).1
        rw [hfirst] at hrec
        exact nomatch hrec
    | handler _ hrender hin =>
        refine ⟨hin.peerIdRef.trans hb.ref, (hin.next hrender.vars).2.1.trans hb.next, ?_⟩
        rw [hrender.effects, hrender.vars]
        exact hb.vars

/-- A step adds to the log what its first call has applied. -/
theorem applied_settled {s t : Page} {pc pc' : Pc} {op : PcOp Json} {call : Call}
    {rest : List (PcOp Json × Call)} {sdp : String} {sections : List Kind}
    {states : List SignalingState}
    (h : Fulfilled s t sdp sections pc pc' op call rest states) :
    applied s (.settle (.fulfilled sdp sections)) = appliedOf call := by
  rw [applied]
  rw [h.chain]

theorem applied_mem {s : Page} {e : Event} {m : Received} (h : m ∈ applied s e) :
    ∃ x ∈ s.chain, callMsg x.2 = some m := by
  simp only [applied] at h
  split at h
  · split at h
    · next x rest hchain =>
        refine ⟨x, by rw [hchain]; exact List.mem_cons_self .., ?_⟩
        obtain ⟨op, call⟩ := x
        cases call with
        | remoteApplied env m' b =>
            cases List.mem_singleton.mp h
            rfl
        | _ => exact nomatch h
    · exact nomatch h
  · exact nomatch h

/-- The remote description along a step: it was there, or its message is applied. -/
theorem remote_step {s s' : Page} {e : Event} {l : List Received}
    (hr : Reachable page s)
    (hi : ∀ pc d, s.peerConnectionRef = some pc →
      (pc.pendingRemote = some d ∨ pc.currentRemote = some d) →
      ∃ m ∈ l, description m = some d)
    (h : step s e = some s') :
    ∀ pc d, s'.peerConnectionRef = some pc →
      (pc.pendingRemote = some d ∨ pc.currentRemote = some d) →
      ∃ m ∈ l ++ applied s e, description m = some d := by
  intro pc d hpc hd
  have hold : ∀ pc₀, s.peerConnectionRef = some pc₀ →
      (pc₀.pendingRemote = some d ∨ pc₀.currentRemote = some d) →
      ∃ m ∈ l ++ applied s e, description m = some d := by
    intro pc₀ hpc₀ hd₀
    obtain ⟨m, hm, hdesc⟩ := hi pc₀ d hpc₀ hd₀
    exact ⟨m, List.mem_append_left _ hm, hdesc⟩
  have hsame : SamePc s s' → ∃ m ∈ l ++ applied s e, description m = some d := by
    rintro (⟨-, hn⟩ | ⟨pc₀, pc₁, hs, ht, hsig⟩)
    · rw [hn] at hpc
      exact nomatch hpc
    · cases ht.symm.trans hpc
      rw [hsig] at hd
      exact hold pc₀ hs hd
  by_cases hun : e = .unmount
  · subst hun
    cases step_cases h with
    | unmount =>
        obtain ⟨pc₀, hpc₀, rfl⟩ := Option.map_eq_some_iff.mp hpc
        exact hold pc₀ hpc₀ hd
  · cases step_negotiates hr h with
    | idle hsp => exact hsame hsp
    | mounts _ _ hnew =>
        cases hnew.symm.trans hpc
        rcases hd with hd | hd <;> exact nomatch hd
    | offers _ _ hsp => exact hsame hsp
    | handles _ _ _ _ _ hsp => exact hsame hsp
    | fails _ _ _ _ hsp => exact hsame hsp
    | candidate hsp => exact hsame (.of_eq hsp)
    | rejected _ hs _ ht => exact hsame (.of_eq (ht.trans hs.symm))
    | fulfilled =>
        obtain ⟨pc₀, pc₁, op, call, rest, states, hful⟩ := step_fulfilled h
        cases hful.after.symm.trans hpc
        rcases perform_remote hful.perform hd with hd₀ | rfl
        · exact hold pc₀ hful.before hd₀
        · have hmatch := (matched_reachable hr).calls _
            (by rw [hful.chain]; exact List.mem_cons_self ..)
          rw [applied_settled hful]
          cases hmatch with
          | @remoteApplied env m sdp d hsdp hdesc _ =>
              refine ⟨m, List.mem_append_right _ (List.mem_singleton.mpr rfl), ?_⟩
              rw [description, hsdp, Option.bind_some, hdesc]
    | unmount => exact absurd rfl hun

theorem party_step {p p' : Page × List Received} {e : Event} (hr : Reachable page p.1)
    (hi : Party p) (hk : OneParty p e) (h : (logged page applied).step p e = some p') :
    Party p' := by
  obtain ⟨hst, hlog⟩ := logged_step h
  obtain ⟨t, l⟩ := p'
  replace hst : step p.1 e = some t := hst
  replace hlog : l = p.2 ++ applied p.1 e := hlog
  obtain ⟨hedit, hparty⟩ := Bool.and_eq_true_iff.mp hk
  have hmono : ∀ m ∈ sdpHandled p.1, m ∈ sdpHandled t :=
    fun m hm => ((trace_grows (step_cases hst)).filterMap handledSDP).subset hm
  refine ⟨bound_step hr hi.bound hedit hparty hst, fun m hm => ?_, ?_, ?_⟩
  · rw [hlog] at hm
    rcases List.mem_append.mp hm with hm | hm
    · exact hmono m (hi.log m hm)
    · obtain ⟨x, hx, hmsg⟩ := applied_mem hm
      exact hmono m (hi.calls x hx m hmsg)
  · refine step_calls (P := fun c => ∀ m, callMsg c = some m → m ∈ sdpHandled t)
      (fun _ _ m hm => (nomatch hm)) (fun he m sdp hm _ m' hm' => ?_)
      (fun m hm => (nomatch hm)) (fun sdp c x hx hmem m hm => ?_)
      (fun x hx m hm => hmono m (hi.calls x hx m hm)) (step_negotiates hr hst)
    · -- a call is left suspended by the flush that hands its message over
      cases hm'
      rcases step_handled hr hst with ⟨-, hnone⟩ | ⟨-, m₁, hm₁, heq⟩
      · rw [hnone he] at hm
        exact nomatch hm
      · rw [hm] at hm₁
        cases hm₁
        rw [heq]
        exact List.mem_append_right _ (List.mem_singleton.mpr rfl)
    · exact hx m ((callMsg_followUp hmem).symm.trans hm)
  · rw [hlog]
    exact remote_step hr hi.remote hst

theorem page_of_party {p : Page × List Received}
    (h : ReachVia (logged page applied) OneParty p) : Reachable page p.1 :=
  ReachVia.reachable (ReachVia.unlogged
    (C := fun s e => (editsFirst s e && oneParty s e) = true) h)

theorem party_reachVia {p : Page × List Received}
    (h : ReachVia (logged page applied) OneParty p) : Party p := by
  refine ReachVia.invariant (fun p h0 => ?_) (fun p e p' hr hi hk hst => ?_) h
  · obtain ⟨s, l⟩ := p
    obtain ⟨hs, hl⟩ := h0
    cases hs
    cases hl
    exact ⟨fun _ hm => (nomatch hm), fun _ hm => (nomatch hm), fun _ hx => (nomatch hx),
      fun _ _ hpc => (nomatch hpc)⟩
  · exact party_step (page_of_party hr) hi hk hst

/-- **ANSWERS AND CANDIDATES GO TO THE SAME PARTY**, in every state of every run in
    which the user edits the peer id only before the first offer or answer, all
    descriptions handed over are from one party, which is the page's peer or becomes
    it, and later candidate messages are from that party too.  The remote description
    was applied from some message; whoever sent a message that was applied is
    `peerIdRef.current`; and so is whoever an answer is sent to. -/
theorem same_party {p : Page × List Received}
    (h : ReachVia (logged page applied) OneParty p) :
    (∀ pc d, p.1.peerConnectionRef = some pc → pc.remoteDescription = some d →
      ∃ m ∈ p.2, description m = some d) ∧
    (∀ m ∈ p.2, ∀ sender, m.data.get "from" = some sender → p.1.peerIdRef = sender) ∧
    ∀ e s' j dest, step p.1 e = some s' → s'.sent = p.1.sent ++ [j] →
      hasType "answer" j = true → j.get "to" = some dest → p.1.peerIdRef = dest := by
  have hi := party_reachVia h
  refine ⟨fun pc d hpc hd => ?_, fun m hm sender hs => (hi.bound m (hi.log m hm) sender hs).ref,
    fun e s' j dest hst hsent hty hto => ?_⟩
  · refine hi.remote pc d hpc ?_
    rw [Pc.remoteDescription] at hd
    cases hp : pc.pendingRemote with
    | none =>
        rw [hp] at hd
        exact Or.inr hd
    | some d' =>
        rw [hp] at hd
        exact Or.inl hd
  · rcases sent_step (step_negotiates (page_of_party h) hst) with
      heq | ⟨op, call, rest, hchain, heq⟩
    · rw [heq] at hsent
      exact absurd hsent (by simp)
    · rw [heq] at hsent
      have hj : j ∈ frames call := by
        rw [List.append_cancel_left hsent]
        exact List.mem_singleton.mpr rfl
      rcases isFrame_of_frames hj with ⟨env, d, -, hfr⟩ | ⟨env, m, a, rfl, hfr⟩
      · rw [hasType, hfr.type] at hty
        cases hty
      · have hm := hi.calls _ (by rw [hchain]; exact List.mem_cons_self ..) m rfl
        exact (hi.bound m hm dest (hfr.recipient.symm.trans hto)).ref

/-! ## Two runs -/

/-- The page and its log after a list of events. -/
def partyAfter (es : List Event) : Page × List Received :=
  LtsRun.after (logged page applied) (.initial, []) es

/-- An offer of `c` is handled and answered, then a candidate of `c` is added. -/
def answeredRun : List Event :=
  welcomedRun ++ [.message (some (offerFrom "c" "1")), .render, .flushEffects, .render,
    .flushEffects, .settle (.fulfilled "" [.video]), .settle (.fulfilled "answer" []),
    .settle (.fulfilled "" []), .message (some (candidateFrom "c")), .render,
    .settle (.fulfilled "" [])]

/-- After which a candidate message of `x` arrives. -/
def strangerRun : List Event :=
  answeredRun ++ [.message (some (candidateFrom "x")), .render, .flushEffects,
    .settle (.fulfilled "" [])]

/-- The page was called by `c` and has answered `c`; now its candidates go to `x`,
    though nobody edited the peer id. -/
theorem candidates_elsewhere :
    ∃ p : Page × List Received,
      ReachVia (logged page applied) (fun p e => editsFirst p.1 e = true) p ∧
      Quiet p.1 ∧ p.1.chain = [] ∧
      p.1.peerConnectionRef.bind Pc.remoteDescription = some ⟨.offer, "1"⟩ ∧
      p.2.map (fun m => (description m, m.data.get "from"))
        = [(some ⟨.offer, "1"⟩, some (.str "c"))] ∧
      p.1.sent.map (fun j => (j.get "type", j.get "to"))
        = [(some (.str "answer"), some (.str "c"))] ∧
      p.1.peerIdRef = .str "x" :=
  ⟨partyAfter strangerRun,
    ReachVia.of_after (fun _ _ hc => hc) (logged_init rfl) (by decide +kernel),
    by decide +kernel, by decide +kernel, by decide +kernel, by decide +kernel,
    by decide +kernel, by decide +kernel⟩

theorem answeredRun_reachVia :
    ReachVia (logged page applied) OneParty (partyAfter answeredRun) :=
  ReachVia.of_after (fun _ _ hc => hc) (logged_init rfl) (by decide +kernel)

theorem same_party_sample :
    (partyAfter answeredRun).2.map (fun m => m.data.get "from") = [some (.str "c")] ∧
    ∀ m ∈ (partyAfter answeredRun).2, ∀ sender, m.data.get "from" = some sender →
      (partyAfter answeredRun).1.peerIdRef = sender :=
  ⟨by decide +kernel, (same_party answeredRun_reachVia).2.1⟩

end CamParty
