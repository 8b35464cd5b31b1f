import Mathlib.Algebra.GroupWithZero.Nat
import Mathlib.Algebra.BigOperators.Group.List.Basic
import WebRtcCam.CamNetProofs

/-! # The work left on a page

    A page that nobody touches does not go on for ever.  What it still has to do is in
    five places: updates queued, effects due, offers and answers waiting in the slot,
    calls suspended on the connection, and frames sent and not taken away.  Each of them
    is given a price, high enough to pay for all that can come of it:

    * a message in the slot is handed over once, and an offer among them leads to three
      operations and ONE answer;
    * an answer that a page sends is no offer to whoever gets it, so it leads to one
      operation and no frame. -/

namespace CamWork

open LtsRun JsonText CamWire CamPending CamNegotiation
open CamPage
open RtcSignaling (PcOp Desc Pc Outcome)

/-! ## Prices -/

/-- `handleSDPMessage` would answer the message. -/
def answerable (m : Received) : Bool := (sdpOf m).any isOfferSdp

/-- A message in the slot: what handling it costs, and two updates. -/
def slotCost (m : Received) : Nat := if answerable m then 18 else 5

/-- A text that is still to be received. -/
def textCost (t : String) : Nat := 3 + (parse t).elim 0 (fun j => slotCost ⟨0, j⟩)

/-- A frame that is still to go up, through the server and down again. -/
def frameCost (f : Json) : Nat := 3 + textCost (render f)

/-- A suspended call, with what it goes on to. -/
def callCost : Call → Nat
  | .offerCreated _ => 26
  | .offerApplied _ _ => 25
  | .remoteApplied _ _ isOffer => if isOffer then 14 else 1
  | .answerCreated _ _ => 13
  | .answerApplied _ _ answer => if isOfferSdp (descJson answer) then 25 else 12
  | .candidateAdded => 1

/-- The effects that are due: one flush for all, and the update of the mount. -/
def effectCost (es : List Effect) : Nat :=
  (if es = [] then 0 else 1) + 2 * es.count .mount

def chainCost (l : List (PcOp Json × Call)) : Nat := (l.map (fun x => callCost x.2)).sum

def framesCost (l : List Json) : Nat := (l.map frameCost).sum

/-- What a page still has to do, but for the frames it has sent. -/
def pageWork (s : Page) : Nat :=
  2 * s.queue.length + effectCost s.effects + ((inbox s).map slotCost).sum + chainCost s.chain

/-! ## What the prices say of each other -/

theorem slotCost_le (m : Received) : slotCost m ≤ 18 := by
  rw [slotCost]
  split <;> omega

theorem textCost_le (t : String) : textCost t ≤ 21 := by
  rw [textCost]
  cases parse t with
  | none => exact Nat.le_add_right 3 18
  | some j =>
      have hle := slotCost_le ⟨0, j⟩
      rw [Option.elim_some]
      omega

theorem frameCost_le (f : Json) : frameCost f ≤ 24 := by
  have hle := textCost_le (render f)
  rw [frameCost]
  omega

@[simp] theorem chainCost_append (l l' : List (PcOp Json × Call)) :
    chainCost (l ++ l') = chainCost l + chainCost l' := by
  rw [chainCost, List.map_append, List.sum_append]
  rfl

@[simp] theorem framesCost_append (l l' : List Json) :
    framesCost (l ++ l') = framesCost l + framesCost l' := by
  rw [framesCost, List.map_append, List.sum_append]
  rfl

/-- The slot is charged for the call that handles its message, and for two updates. -/
theorem slotCost_call (m : Received) (env : Vars) {sdp : Json} (h : sdpOf m = some sdp) :
    slotCost m = 4 + callCost (.remoteApplied env m (isOfferSdp sdp)) := by
  rw [slotCost, answerable, h, Option.any_some, callCost]
  split <;> rfl

/-- The description in a frame is the one the call has set. -/
theorem frame_sdp {env : Vars} {f sdp : Json} {l tail : Members}
    (htail : lookup "sdp" tail = some sdp) (hf : f ∈ frame env (l ++ tail)) :
    f.get "sdp" = some sdp := by
  rw [frame] at hf
  split at hf
  · cases List.mem_singleton.mp hf
    show lookup "sdp" (member "from" env.clientId ++ (l ++ tail)) = _
    rw [lookup_append, lookup_append, htail]
    rfl
  · cases hf

/-- A frame with a description that is no offer is not answered. -/
theorem frameCost_light {f sdp : Json} (h : f.get "sdp" = some sdp)
    (ho : isOfferSdp sdp = false) : frameCost f ≤ 11 := by
  have hno : answerable ⟨0, f⟩ = false := by
    simp only [answerable, sdpOf, h]
    cases sdp with
    | null => rfl
    | _ => exact ho
  rw [frameCost, textCost, parse_render, Option.elim_some, slotCost, hno]
  exact Nat.le_refl 11

/-- **A CALL PAYS** for the operation it awaits, for what it invokes next and for the
    frames it sends. -/
theorem call_pays (sdp : String) (call : Call) :
    1 + chainCost (followUp sdp call) + framesCost (frames call) ≤ callCost call := by
  -- a frame is sent once, or not at all
  have hsent : ∀ (env : Vars) (l tail : Members) (d : Desc),
      lookup "sdp" tail = some (descJson d) →
      framesCost (frame env (l ++ tail)) ≤ if isOfferSdp (descJson d) then 24 else 11 := by
    intro env l tail d htail
    cases hc : truthy env.clientId && env.socket.isSome with
    | false =>
        rw [frame, hc]
        exact Nat.zero_le _
    | true =>
        have hmem : .obj (member "from" env.clientId ++ (l ++ tail))
            ∈ frame env (l ++ tail) := by
          rw [frame, hc]
          exact List.mem_cons_self ..
        rw [frame, hc, if_pos rfl, framesCost, List.map_singleton, List.sum_singleton]
        split
        · exact frameCost_le _
        · next ho => exact frameCost_light (frame_sdp htail hmem) (by simpa using ho)
  cases call with
  | offerCreated env => exact Nat.le_refl _
  | offerApplied env d =>
      have hle := hsent env [("to", env.peerId)]
        [("sdp", descJson d), ("type", .str "offer")] d rfl
      have hmax : (if isOfferSdp (descJson d) = true then 24 else 11) ≤ 24 := by
        split <;> omega
      show 1 + 0 + framesCost (frame env (([("to", env.peerId)] : Members) ++ _)) ≤ 25
      omega
  | remoteApplied env m isOffer => cases isOffer <;> exact Nat.le_refl _
  | answerCreated env m => exact Nat.le_refl _
  | answerApplied env m d =>
      have hle := hsent env (member "to" (m.data.get "from"))
        [("sdp", descJson d), ("type", .str "answer")] d rfl
      show 1 + 0 + framesCost (frame env (member "to" (m.data.get "from") ++ _))
        ≤ if isOfferSdp (descJson d) then 25 else 12
      cases ho : isOfferSdp (descJson d) with
      | true =>
          rw [ho, if_pos rfl] at hle
          rw [if_pos rfl]
          omega
      | false =>
          rw [ho, if_neg Bool.false_ne_true] at hle
          rw [if_neg Bool.false_ne_true]
          omega
  | candidateAdded => exact Nat.le_refl _

/-! ## What a step costs -/

/-- Effects other than the hand-over: the mount queues one update. -/
theorem flush_queue (es : List Effect) : ∀ s : Page, .processPendingSDP ∉ es →
    (es.foldl runEffect s).queue.length = s.queue.length + es.count .mount := by
  induction es with
  | nil => exact fun s _ => rfl
  | cons e es ih =>
      intro s hes
      have hrest : .processPendingSDP ∉ es := fun hm => hes (List.mem_cons_of_mem _ hm)
      rw [List.foldl_cons, ih (runEffect s e) hrest]
      cases e with
      | syncPeerId => rfl
      | mount =>
          have hlen : (runEffect s .mount).queue.length = s.queue.length + 1 :=
            List.length_append ..
          rw [List.count_cons_self, hlen]
          omega
      | processPendingSDP => exact absurd (List.mem_cons_self ..) hes

theorem adoptSender_queue (env : Vars) (m : Received) (s : Page) :
    (adoptSender env m s).queue.length ≤ s.queue.length + 1 := by
  rcases adoptSender_cases env m s with h | ⟨_, -, -, h⟩
  · rw [h]
    exact Nat.le_succ _
  · rw [h, bindPeer_queue, List.length_append]
    exact Nat.le_refl _

/-- The hand-over of a message is paid for by the slot. -/
theorem handleSDPMessage_pays (env : Vars) (m : Received) (s : Page) :
    (handleSDPMessage env m s).queue.length ≤ s.queue.length + 1 ∧
      chainCost (handleSDPMessage env m s).chain + 4 ≤ chainCost s.chain + slotCost m := by
  have hslot : 4 ≤ slotCost m := by
    rw [slotCost]
    split <;> omega
  have hqueue : (adoptSender env m (noteSDP m s)).queue.length ≤ s.queue.length + 1 :=
    adoptSender_queue env m (noteSDP m s)
  have hchain := adoptSender_chain env m (noteSDP m s)
  rcases handleSDPMessage_cases env m s with
    ⟨-, h⟩ | ⟨pc, pc', -, -, ⟨h, -⟩ | ⟨sdp, d, hsdp, -, h⟩⟩
  · rw [h]
    exact ⟨Nat.le_succ _, Nat.add_le_add_left hslot _⟩
  · rw [h]
    refine ⟨hqueue, ?_⟩
    show chainCost (adoptSender env m (noteSDP m s)).chain + 4 ≤ _
    rw [hchain]
    exact Nat.add_le_add_left hslot _
  · rw [h]
    refine ⟨hqueue, ?_⟩
    show chainCost ((adoptSender env m (noteSDP m s)).chain ++ [_]) + 4 ≤ _
    rw [hchain, chainCost_append, slotCost_call m env hsdp]
    show chainCost s.chain + (callCost (.remoteApplied env m (isOfferSdp sdp)) + 0) + 4 ≤ _
    omega

/-- The price of what an event brings from outside. -/
def arrivalCost : Event → Nat
  | .message data => 3 + data.elim 0 (fun j => slotCost ⟨0, j⟩)
  | _ => 0

/-- The steps a page takes of its own accord, or on a message. -/
def ownTurn (s : Page) : Event → Bool
  | .render => !s.queue.isEmpty
  | .flushEffects | .settle _ | .message _ => true
  | _ => false

theorem effectCost_changed (v w : Vars) : effectCost (changedEffects v w) ≤ 1 := by
  rw [changedEffects]
  split <;> split <;> decide

/-- A step that leaves the inbox alone. -/
theorem sameInbox_of_boxes {s t : Page} {e : Event} (h : Boxes s e t)
    (hm : ∀ j, e ≠ .message (some j)) (hf : e ≠ .flushEffects) : inbox t = inbox s := by
  cases h with
  | same heq => exact heq
  | arrives => exact (hm _ rfl).elim
  | hands => exact (hf rfl).elim

/-- What a flush comes to: the effects other than the hand-over, and the hand-over if a
    message is due. -/
theorem flush_cases {s : Page} (ho : EffectOrder s.effects) :
    ∃ t : Page, t.queue.length = s.queue.length + s.effects.count .mount ∧ SameTalk s t ∧
      t.effects = [] ∧
      ((handed s = none ∧ s.effects.foldl runEffect { s with effects := [] } = t) ∨
        ∃ m, handed s = some m ∧ s.effects.foldl runEffect { s with effects := [] }
          = enqueue (.setPendingSDP none) (handleSDPMessage s.vars m t)) := by
  rcases ho.last with hnot | ⟨es, hes, hnot⟩
  · obtain ⟨htalk, -, -⟩ := flush_talk s.effects { s with effects := [] } hnot
    exact ⟨_, flush_queue s.effects { s with effects := [] } hnot,
      ⟨htalk.flag, htalk.chain, htalk.sent⟩,
      (flush_sameSlot s.effects { s with effects := [] } hnot).effects,
      Or.inl ⟨handed_none (Or.inl hnot), rfl⟩⟩
  · obtain ⟨htalk, -, -⟩ := flush_talk es { s with effects := [] } hnot
    have hsame := flush_sameSlot es { s with effects := [] } hnot
    have hqueue := flush_queue es { s with effects := [] } hnot
    have hcount : s.effects.count .mount = es.count .mount := by
      rw [hes, List.count_append]
      rfl
    have hmem : .processPendingSDP ∈ s.effects := by rw [hes]; simp
    have hfold : s.effects.foldl runEffect { s with effects := [] }
        = runEffect (es.foldl runEffect { s with effects := [] }) .processPendingSDP := by
      rw [hes, List.foldl_append]
      rfl
    rw [hfold, hcount]
    generalize es.foldl runEffect { s with effects := [] } = t at *
    have hvars : t.vars = s.vars := hsame.vars
    refine ⟨t, hqueue, ⟨htalk.flag, htalk.chain, htalk.sent⟩, hsame.effects, ?_⟩
    rcases processPendingSDP_cases t with ⟨heq, hnone⟩ | ⟨m, hm, hid, heq⟩
    · rw [hvars] at hnone
      exact Or.inl ⟨handed_none (Or.inr hnone), heq⟩
    · rw [hvars] at hm hid heq
      exact Or.inr ⟨m, by rw [handed, if_pos ⟨hmem, hid⟩]; exact hm, heq⟩

theorem handleSDPMessage_sent (env : Vars) (m : Received) (s : Page) :
    (handleSDPMessage env m s).sent = s.sent := by
  have hadopt := (adoptSender_talk env m (noteSDP m s)).2.sent
  rcases handleSDPMessage_cases env m s with
    ⟨-, h⟩ | ⟨_, _, -, -, ⟨h, -⟩ | ⟨_, _, -, -, h⟩⟩
  · rw [h]
    rfl
  · rw [h]
    exact hadopt
  · rw [h]
    exact hadopt

/-- A flush is paid for by the effects that were due and the message in the slot. -/
theorem flush_pays {s s' : Page} (hr : Reachable page s)
    (h : step s .flushEffects = some s') : pageWork s' < pageWork s ∧ s'.sent = s.sent := by
  have hboxes := boxes_step hr h
  cases step_cases h with
  | flushEffects _ hne =>
      have hdue : effectCost s.effects = 1 + 2 * s.effects.count .mount := by
        rw [effectCost, if_neg hne]
      obtain ⟨t, hqueue, htalk, heff, ⟨hnone, heq⟩ | ⟨m, hm, heq⟩⟩ :=
        flush_cases (slot_reachable hr).order
      · have hbox : inbox t = inbox s := by
          rw [heq] at hboxes
          cases hboxes with
          | same hin => exact hin
          | hands hh =>
              rw [hnone] at hh
              cases hh
        rw [heq]
        refine ⟨?_, htalk.sent⟩
        rw [pageWork, pageWork, heff, hqueue, htalk.chain, hbox, hdue]
        show 2 * (s.queue.length + s.effects.count .mount) + 0 + _ + _ < _
        omega
      · -- the message leaves the slot, and pays
        obtain ⟨l, hl⟩ := inbox_handed hm
        rw [heq] at hboxes ⊢
        have hbox : inbox (enqueue (.setPendingSDP none) (handleSDPMessage s.vars m t)) = [] := by
          cases hboxes with
          | same _ hno =>
              rw [hno rfl] at hm
              cases hm
          | hands _ _ hempty => exact hempty
        obtain ⟨hq, hc⟩ := handleSDPMessage_pays s.vars m t
        refine ⟨?_, (handleSDPMessage_sent s.vars m t).trans htalk.sent⟩
        rw [pageWork, pageWork, hbox, hl, hdue, enqueue_queue, enqueue_effects, enqueue_chain,
          (handleSDPMessage_sameRender s.vars m t).effects, heff, List.length_append,
          List.map_cons, List.sum_cons, ← htalk.chain]
        show 2 * ((handleSDPMessage s.vars m t).queue.length + 1) + 0 + 0 + _ < _
        omega

/-- A render is paid for by the updates it applies. -/
theorem render_pays {s s' : Page} (hr : Reachable page s) (hq : s.queue ≠ [])
    (h : step s .render = some s') : pageWork s' < pageWork s ∧ s'.sent = s.sent := by
  have hbox := sameInbox_of_boxes (boxes_step hr h) (fun _ h => (nomatch h)) (fun h => (nomatch h))
  cases step_cases h with
  | render _ he =>
      have hlen : 0 < s.queue.length := List.length_pos_iff.mpr hq
      have hle := effectCost_changed s.vars s.next
      refine ⟨?_, rfl⟩
      rw [pageWork, pageWork, hbox, he]
      show 2 * 0 + effectCost (changedEffects s.vars s.next) + _ + chainCost s.chain < _
      omega

/-- What an arrival adds is no more than its price. -/
theorem message_pays {s s' : Page} {data : Option Json} (hr : Reachable page s)
    (h : step s (.message data) = some s') :
    pageWork s' < pageWork s + arrivalCost (.message data) ∧ s'.sent = s.sent := by
  have hboxes := boxes_step hr h
  have hprice : 3 ≤ arrivalCost (.message data) := Nat.le_add_right ..
  cases step_cases h with
  | @message env _ _ _ =>
      -- whatever is no offer or answer leaves the inbox alone
      have hsame : (∀ j, data = some j → isSDPMessage j = false) →
          inbox (onmessage env data s) = inbox s := by
        intro hno
        generalize hev : CamPage.Event.message data = e at hboxes
        cases hboxes with
        | same heq => exact heq
        | arrives hj =>
            cases hev
            rw [hno _ rfl] at hj
            cases hj
        | hands => cases hev
      have ha := onmessage_cases env data s
      generalize onmessage env data s = t at ha hsame hboxes h ⊢
      cases ha with
      | uncaught hd =>
          have hbox := hsame (fun j hj => by
            rcases hd with hd | hd
            · rw [hd] at hj
              cases hj
            · rw [hd] at hj
              cases hj
              rfl)
          refine ⟨?_, rfl⟩
          rw [pageWork, pageWork, hbox]
          show 2 * s.queue.length + effectCost s.effects + _ + chainCost s.chain < _
          omega
      | @welcome j hw _ =>
          have hbox := hsame (fun j' hj => by cases hj; exact not_sdp_of_welcome hw)
          refine ⟨?_, rfl⟩
          rw [pageWork, pageWork, hbox, enqueue_queue, List.length_append]
          show 2 * (s.queue.length + 1) + effectCost s.effects + _ + chainCost s.chain < _
          omega
      | @unprintable j hw _ =>
          have hbox := hsame (fun j' hj => by cases hj; exact not_sdp_of_welcome hw)
          refine ⟨?_, rfl⟩
          rw [pageWork, pageWork, hbox, throwUncaught_queue, enqueue_queue, List.length_append]
          show 2 * (s.queue.length + 1) + effectCost s.effects + _ + chainCost s.chain < _
          omega
      | @sdp j _ hj =>
          have hin : ((inbox (enqueue (.setPendingSDP (some (s.arrival j)))
              (receive j s))).map slotCost).sum
                ≤ ((inbox s).map slotCost).sum + slotCost ⟨0, j⟩ := by
            cases hboxes with
            | same _ _ hno =>
                rcases hno j rfl with h | rfl
                · rw [hj] at h
                  cases h
                · cases hj
            | arrives _ heq =>
                rw [heq, List.map_append, List.sum_append]
                refine Nat.add_le_add ?_ (Nat.le_of_eq (Nat.add_zero _))
                cases hh : handed s with
                | none => exact Nat.zero_le _
                | some m =>
                    obtain ⟨l, hl⟩ := inbox_handed hh
                    rw [hl, List.map_cons, List.sum_cons]
                    exact Nat.add_le_add_left (Nat.zero_le _) _
          refine ⟨?_, rfl⟩
          rw [pageWork, pageWork, enqueue_queue, List.length_append]
          show 2 * (s.queue.length + 1) + effectCost s.effects + _ + chainCost s.chain
            < _ + (3 + slotCost ⟨0, j⟩)
          omega
      | @candidate j _ hs _ =>
          have hbox := hsame (fun j' hj => by cases hj; exact hs)
          have hslot : 5 ≤ slotCost ⟨0, j⟩ := by
            rw [slotCost]
            split <;> omega
          have hq := adoptSender_queue env (s.arrival j) (receive j s)
          have hrender := handleIceCandidateMessage_sameRender env (s.arrival j) (receive j s)
          obtain ⟨-, htalk⟩ := adoptSender_talk env (s.arrival j) (receive j s)
          have hcost : (handleIceCandidateMessage env (s.arrival j) (receive j s)).queue.length
                ≤ s.queue.length + 1 ∧
              chainCost (handleIceCandidateMessage env (s.arrival j) (receive j s)).chain
                ≤ chainCost s.chain + 1 ∧
              (handleIceCandidateMessage env (s.arrival j) (receive j s)).sent = s.sent := by
            rcases handleIceCandidateMessage_cases env (s.arrival j) (receive j s) with
              ⟨-, hc⟩ | hc | ⟨c, -, hc⟩
            · rw [hc]
              exact ⟨Nat.le_succ _, Nat.le_succ _, rfl⟩
            · rw [hc, htalk.chain]
              exact ⟨hq, Nat.le_succ _, htalk.sent⟩
            · rw [hc, invoke_chain, chainCost_append, htalk.chain]
              exact ⟨hq, Nat.le_refl _, htalk.sent⟩
          refine ⟨?_, hcost.2.2⟩
          rw [pageWork, pageWork, hbox, hrender.effects]
          show _ + effectCost s.effects + _ + _ < _ + (3 + slotCost ⟨0, j⟩)
          omega
      | @ignored j _ hs _ =>
          have hbox := hsame (fun j' hj => by cases hj; exact hs)
          refine ⟨?_, rfl⟩
          rw [pageWork, pageWork, hbox]
          show 2 * s.queue.length + effectCost s.effects + _ + chainCost s.chain < _
          omega

/-- An operation that settles is paid for by the call that awaited it. -/
theorem settle_pays {s s' : Page} {o : Outcome} (hr : Reachable page s)
    (h : step s (.settle o) = some s') :
    ∃ l, s'.sent = s.sent ++ l ∧ pageWork s' + framesCost l < pageWork s := by
  have hbox := sameInbox_of_boxes (boxes_step hr h) (fun _ h => (nomatch h)) (fun h => (nomatch h))
  cases step_cases h with
  | @rejected pc op call rest _ hpc hchain =>
      obtain ⟨-, hch, hsent⟩ := reject_talk call (setChain rest s)
      have hrender := reject_sameRender call (setChain rest s)
      have hqueue : (reject call (setChain rest s)).queue = s.queue := by cases call <;> rfl
      have hcost : chainCost s.chain = callCost call + chainCost rest := by
        rw [hchain]
        rfl
      have hpay := call_pays "" call
      refine ⟨[], by rw [hsent]; exact (List.append_nil _).symm, ?_⟩
      rw [pageWork, pageWork, hbox, hrender.effects, hqueue, hch, hcost]
      show _ + effectCost s.effects + _ + chainCost rest + 0 < _
      omega
  | @fulfilled pc pc' op call rest sdp sections states _ hpc hchain hperf =>
      obtain ⟨-, hch, hsent⟩ := resume_talk sdp call
        (onsignalingstatechange states (setPc pc' (setChain rest s)))
      obtain ⟨-, hch', hsent'⟩ := onsignalingstatechange_talk states
        (setPc pc' (setChain rest s))
      have hrender := @settle_sameRender s pc pc' call rest sdp states hpc
      have hqueue : (resume sdp call (onsignalingstatechange states
          (setPc pc' (setChain rest s)))).queue = s.queue := by
        have hstates : (onsignalingstatechange states (setPc pc' (setChain rest s))).queue
            = s.queue := by
          rw [onsignalingstatechange]
          split <;> rfl
        rw [← hstates]
        generalize onsignalingstatechange states (setPc pc' (setChain rest s)) = t
        cases call with
        | offerApplied env d => rw [resume, sendMessage_eq]
        | answerApplied env m d => rw [resume, sendMessage_eq]
        | remoteApplied env m isOffer => cases isOffer <;> rfl
        | _ => rfl
      have hcost : chainCost s.chain = callCost call + chainCost rest := by
        rw [hchain]
        rfl
      have hpay := call_pays sdp call
      refine ⟨frames call, by rw [hsent, hsent']; rfl, ?_⟩
      rw [pageWork, pageWork, hbox, hrender.effects, hqueue, hch, hch',
        chainCost_append, hcost]
      show _ + effectCost s.effects + _ + (chainCost rest + _) + _ < _
      omega

/-- **A TURN IS PAID FOR**: by a step of its own a page loses more work than the frames it
    sends will make, and by a message it gains less than the message costs. -/
theorem turn_pays {s s' : Page} {d : Event} (hr : Reachable page s) (hown : ownTurn s d = true)
    (h : step s d = some s') :
    ∃ l, s'.sent = s.sent ++ l ∧ pageWork s' + framesCost l < pageWork s + arrivalCost d := by
  cases d with
  | render =>
      have hq : s.queue ≠ [] := by
        rintro hnil
        rw [ownTurn, hnil] at hown
        cases hown
      obtain ⟨hlt, hsent⟩ := render_pays hr hq h
      exact ⟨[], by rw [hsent, List.append_nil], hlt⟩
  | flushEffects =>
      obtain ⟨hlt, hsent⟩ := flush_pays hr h
      exact ⟨[], by rw [hsent, List.append_nil], hlt⟩
  | message data =>
      obtain ⟨hlt, hsent⟩ := message_pays hr h
      exact ⟨[], by rw [hsent, List.append_nil], hlt⟩
  | settle o => exact settle_pays hr h
  | _ => cases hown

end CamWork
