import Mathlib.Data.List.Sublists
import WebRtcCam.CamClosureProofs

/-! # The pending-SDP slot

    An offer or answer is not handled where it is received: `ws.onmessage` puts it
    into the state variable `pendingSDP`, and an effect of a later commit takes it
    out, hands it to `handleSDPMessage` and queues the clearing of the slot.
    Candidates are handled at once.

    The slot holds ONE message.  What is shown here is exactly what the code owes to
    that: `FreeSlot` says of each arrival that nothing is waiting in the slot, i.e.
    that `pendingSDP` is `null` once the queued updates are applied.

    * `sdp_handed_over` — with a free slot at every offer or answer, `handleSDPMessage`
      gets the received sequence;
    * `sdp_before_candidates` — with a free slot at the candidates too, and
      descriptions that can be built, arrival order is processing order. -/

namespace CamPending

open LtsRun JsonText CamWire RtcSignaling CamPage CamClosure

/-! ## What was received and what was handled -/

/-- The offer or answer an observation received. -/
def receivedSDP : Obs → Option Received
  | .received m => if isSDPMessage m.data then some m else none
  | _ => none

/-- The message an observed call of `handleSDPMessage` was passed. -/
def handledSDP : Obs → Option Received
  | .handleSDPMessage m => some m
  | _ => none

/-- The offers and answers received by `ws.onmessage`, in order. -/
def sdpReceived (s : Page) : List Received := s.trace.filterMap receivedSDP

/-- The messages passed to `handleSDPMessage`, in order. -/
def sdpHandled (s : Page) : List Received := s.trace.filterMap handledSDP

/-- Nothing is waiting in the slot when an offer or answer arrives. -/
def freeSlot (s : Page) : Event → Bool
  | .message (some j) => !isSDPMessage j || s.next.pendingSDP.isNone
  | _ => true

/-- The steps that find the slot free. -/
def FreeSlot (s : Page) (e : Event) : Prop := freeSlot s e = true

theorem FreeSlot.none {s : Page} {j : Json} (h : FreeSlot s (.message (some j)))
    (hj : isSDPMessage j = true) : s.next.pendingSDP = none := by
  simpa [FreeSlot, freeSlot, hj] using h

/-- A step that has nothing to do with the slot. -/
structure SameSlot (s t : Page) : Prop where
  vars : t.vars = s.vars
  effects : t.effects = s.effects
  next : t.next.pendingSDP = s.next.pendingSDP
  arrivals : s.arrivals ≤ t.arrivals
  received : sdpReceived t = sdpReceived s
  handled : sdpHandled t = sdpHandled s

theorem SameSlot.refl (s : Page) : SameSlot s s :=
  ⟨rfl, rfl, rfl, Nat.le_refl _, rfl, rfl⟩

theorem SameSlot.trans {s t u : Page} (h₁ : SameSlot s t) (h₂ : SameSlot t u) :
    SameSlot s u :=
  ⟨h₂.vars.trans h₁.vars, h₂.effects.trans h₁.effects, h₂.next.trans h₁.next,
    h₁.arrivals.trans h₂.arrivals, h₂.received.trans h₁.received,
    h₂.handled.trans h₁.handled⟩

/-- Operations of other handlers are neither receptions nor hand-overs. -/
theorem SameSlot.of_sameInbox {s t : Page} (hr : SameRender s t)
    (hi : SameInbox s t) : SameSlot s t := by
  obtain ⟨ops, ht⟩ := hi.trace
  refine ⟨hr.vars, hr.effects, (hi.next hr.vars).2.2, hi.arrivals.ge, ?_, ?_⟩
  · rw [sdpReceived, ht, List.filterMap_append, List.filterMap_map, sdpReceived]
    simp [Function.comp_def, receivedSDP]
  · rw [sdpHandled, ht, List.filterMap_append, List.filterMap_map, sdpHandled]
    simp [Function.comp_def, handledSDP]

/-- Of the effects only the pending-SDP one has to do with the slot. -/
theorem runEffect_sameSlot {e : Effect} (he : e ≠ .processPendingSDP) (s : Page) :
    SameSlot s (runEffect s e) := by
  cases e with
  | syncPeerId => exact ⟨rfl, rfl, rfl, Nat.le_refl _, rfl, rfl⟩
  | mount =>
      have hnext : (runEffect s .mount).next = s.next.apply (.setSocket ⟨⟩) :=
        next_of_append (s := s) (t := runEffect s .mount) rfl rfl
      refine ⟨rfl, rfl, ?_, Nat.le_refl _, rfl, rfl⟩
      rw [hnext]
      rfl
  | processPendingSDP => exact absurd rfl he

theorem flush_sameSlot (es : List Effect) :
    ∀ s : Page, .processPendingSDP ∉ es → SameSlot s (es.foldl runEffect s) := by
  induction es with
  | nil => intro s _; exact .refl s
  | cons e es ih =>
      intro s hes
      have he : e ≠ .processPendingSDP := by
        rintro rfl
        exact hes (List.mem_cons_self ..)
      have hrest : .processPendingSDP ∉ es := fun hm =>
        hes (List.mem_cons_of_mem _ hm)
      exact (runEffect_sameSlot he s).trans (ih _ hrest)

/-! ## The effects of one commit -/

/-- The effects due are among the three, each at most once and in this order. -/
def EffectOrder (es : List Effect) : Prop :=
  es.Sublist [.syncPeerId, .mount, .processPendingSDP]

theorem effectOrder_changed (v w : Vars) : EffectOrder (changedEffects v w) := by
  rw [changedEffects, EffectOrder]
  split <;> split <;> decide

/-- The pending-SDP effect is the last one, if it is due at all. -/
theorem EffectOrder.last {es : List Effect} (h : EffectOrder es) :
    .processPendingSDP ∉ es ∨
      ∃ es', es = es' ++ [.processPendingSDP] ∧ .processPendingSDP ∉ es' := by
  have hall : ∀ l ∈ [Effect.syncPeerId, .mount, .processPendingSDP].sublists,
      .processPendingSDP ∉ l ∨
        (l = l.dropLast ++ [.processPendingSDP] ∧ .processPendingSDP ∉ l.dropLast) := by
    decide
  rcases hall es (List.mem_sublists.mpr h) with h | h
  · exact Or.inl h
  · exact Or.inr ⟨_, h.1, h.2⟩

theorem adoptSender_slot (env : Vars) (m : Received) (s : Page) :
    (adoptSender env m s).next.pendingSDP = s.next.pendingSDP ∧
      (adoptSender env m s).arrivals = s.arrivals ∧
      (adoptSender env m s).trace = s.trace := by
  rcases adoptSender_cases env m s with h | ⟨sender, -, -, h⟩
  · rw [h]
    exact ⟨rfl, rfl, rfl⟩
  · have hnext : (bindPeer sender s).next = s.next.apply (.setPeerId sender) :=
      next_of_append (s := s) (t := bindPeer sender s) rfl rfl
    rw [h, hnext]
    exact ⟨rfl, rfl, rfl⟩

/-- `handleSDPMessage` leaves the slot to its caller.  It is observed once, and so
    is the `setRemoteDescription` it gets to. -/
theorem handleSDPMessage_slot (env : Vars) (m : Received) (s : Page) :
    (handleSDPMessage env m s).next.pendingSDP = s.next.pendingSDP ∧
    (handleSDPMessage env m s).arrivals = s.arrivals ∧
    ((handleSDPMessage env m s).trace = s.trace ++ [.handleSDPMessage m] ∨
      ∃ d, (handleSDPMessage env m s).trace = s.trace
        ++ [.handleSDPMessage m, .invoked (.setRemoteDescription d) (some m)]) := by
  obtain ⟨hn, ha, ht⟩ := adoptSender_slot env m (noteSDP m s)
  rcases handleSDPMessage_cases env m s with
    ⟨-, h⟩ | ⟨pc, pc', -, -, ⟨h, -⟩ | ⟨sdp, d, -, -, h⟩⟩
  · rw [h]
    exact ⟨rfl, rfl, Or.inl rfl⟩
  · rw [h]
    exact ⟨hn, ha, Or.inl ht⟩
  · rw [h]
    refine ⟨hn, ha, Or.inr ⟨d, ?_⟩⟩
    rw [invoke_trace, setPc_trace, ht, noteSDP_trace, List.append_assoc]
    rfl

/-- The hand-over of a message is no reception, and is one hand-over. -/
theorem handleSDPMessage_sdps (env : Vars) (m : Received) (s : Page) :
    sdpReceived (handleSDPMessage env m s) = sdpReceived s ∧
      sdpHandled (handleSDPMessage env m s) = sdpHandled s ++ [m] := by
  obtain ⟨-, -, ht⟩ := handleSDPMessage_slot env m s
  rw [sdpReceived, sdpHandled]
  rcases ht with ht | ⟨d, ht⟩
  · rw [ht, List.filterMap_append, List.filterMap_append]
    exact ⟨List.append_nil _, rfl⟩
  · rw [ht, List.filterMap_append, List.filterMap_append]
    exact ⟨List.append_nil _, rfl⟩

/-- The pending-SDP effect: it hands over what was committed and clears the slot, or
    it does nothing. -/
theorem processPendingSDP_cases (s : Page) :
    (runEffect s .processPendingSDP = s ∧
      (truthy s.vars.clientId = true → s.vars.pendingSDP = none)) ∨
    ∃ m, s.vars.pendingSDP = some m ∧ truthy s.vars.clientId = true ∧
      runEffect s .processPendingSDP
        = enqueue (.setPendingSDP none) (handleSDPMessage s.vars m s) := by
  simp only [runEffect]
  split
  · next m hm =>
      split
      · next ht => exact Or.inr ⟨m, hm, ht, rfl⟩
      · next ht => exact Or.inl ⟨rfl, fun h => absurd h ht⟩
  · next hm => exact Or.inl ⟨rfl, fun _ => hm⟩

/-! ## One slot -/

/-- What the slot has committed and what it will have: a committed message whose
    effect has run is gone from it, and its messages are older than the next
    arrival. -/
structure Slot (s : Page) : Prop where
  order : EffectOrder s.effects
  cleared : .processPendingSDP ∉ s.effects → truthy s.vars.clientId = true →
    ∀ m, s.vars.pendingSDP = some m → s.next.pendingSDP ≠ some m
  old : ∀ m, s.vars.pendingSDP = some m → m.n < s.arrivals
  oldNext : ∀ m, s.next.pendingSDP = some m → m.n < s.arrivals

theorem Slot.of_sameSlot {s t : Page} (hi : Slot s) (h : SameSlot s t) : Slot t := by
  obtain ⟨hv, he, hn, ha, -, -⟩ := h
  refine ⟨?_, ?_, ?_, ?_⟩
  · rw [he]; exact hi.order
  · rw [he, hv, hn]; exact hi.cleared
  · rw [hv]; exact fun m hm => (hi.old m hm).trans_le ha
  · rw [hn]; exact fun m hm => (hi.oldNext m hm).trans_le ha

theorem slot_render {s : Page} (he : s.effects = []) (hi : Slot s) :
    Slot { s with
      vars := s.next
      queue := []
      effects := changedEffects s.vars s.next } := by
  refine ⟨effectOrder_changed _ _, ?_, hi.oldNext, hi.oldNext⟩
  intro hnot hid m hm
  -- the effect is not due, so client id and slot are what they were before
  have hsame : s.vars.clientId = s.next.clientId ∧
      s.vars.pendingSDP = s.next.pendingSDP := by
    by_contra hne
    refine hnot (List.mem_append_right _ ?_)
    rw [if_neg hne]
    exact List.mem_singleton.mpr rfl
  refine absurd hm (hi.cleared ?_ ?_ m ?_)
  · rw [he]
    exact fun h => (nomatch h)
  · rw [hsame.1]
    exact hid
  · rw [hsame.2]
    exact hm

/-- What a flush does to the slot: it hands over the committed message and clears
    the slot, or it leaves the slot alone. -/
theorem flush_slot {s : Page} (ho : EffectOrder s.effects) :
    (SameSlot { s with effects := [] } (s.effects.foldl runEffect { s with effects := [] }) ∧
      (.processPendingSDP ∉ s.effects ∨
        (truthy s.vars.clientId = true → s.vars.pendingSDP = none))) ∨
    ∃ m t, .processPendingSDP ∈ s.effects ∧ truthy s.vars.clientId = true ∧
      s.vars.pendingSDP = some m ∧ SameSlot { s with effects := [] } t ∧
      s.effects.foldl runEffect { s with effects := [] }
        = enqueue (.setPendingSDP none) (handleSDPMessage s.vars m t) := by
  rcases ho.last with hnot | ⟨es, hes, hnot⟩
  · exact Or.inl ⟨flush_sameSlot _ _ hnot, Or.inl hnot⟩
  · -- the other effects run first and leave the slot alone
    have hslot := flush_sameSlot es { s with effects := [] } hnot
    rw [hes, List.foldl_append, List.foldl_cons, List.foldl_nil]
    generalize es.foldl runEffect { s with effects := [] } = t at hslot ⊢
    rcases processPendingSDP_cases t with ⟨heq, hnone⟩ | ⟨m, hm, hid, heq⟩
    · rw [hslot.vars] at hnone
      rw [heq]
      exact Or.inl ⟨hslot, Or.inr hnone⟩
    · rw [hslot.vars] at hm hid heq
      exact Or.inr ⟨m, t, by simp, hid, hm, hslot, heq⟩

theorem slot_flush {s : Page} (hi : Slot s) :
    Slot (s.effects.foldl runEffect { s with effects := [] }) := by
  rcases flush_slot hi.order with ⟨hsame, hnone⟩ | ⟨m, t, -, -, -, hslot, heq⟩
  · have hbegin : Slot { s with effects := [] } := by
      refine ⟨List.nil_sublist _, fun _ hid m hm => ?_, hi.old, hi.oldNext⟩
      rcases hnone with h | h
      · exact hi.cleared h hid m hm
      · rw [h hid] at hm
        exact nomatch hm
    exact hbegin.of_sameSlot hsame
  · rw [heq]
    obtain ⟨-, ha, -⟩ := handleSDPMessage_slot s.vars m t
    have hsame := handleSDPMessage_sameRender s.vars m t
    refine ⟨?_, ?_, ?_, ?_⟩
    · rw [enqueue_effects, hsame.effects, hslot.effects]
      exact List.nil_sublist _
    · intro _ _ m' _
      rw [next_enqueue]
      exact fun h => (nomatch h)
    · rw [enqueue_vars, enqueue_arrivals, hsame.vars, ha, hslot.vars]
      exact fun m' hm' => (hi.old m' hm').trans_le hslot.arrivals
    · rw [next_enqueue]
      exact fun m' h => (nomatch h)

/-- A message that is no offer or answer arrives. -/
theorem receive_sameSlot {j : Json} (hj : isSDPMessage j = false) (s : Page) :
    SameSlot s (receive j s) := by
  refine ⟨rfl, rfl, rfl, Nat.le_succ _, ?_, ?_⟩
  · simp [sdpReceived, receivedSDP, Page.arrival, hj]
  · simp [sdpHandled, handledSDP]

theorem handleIceCandidateMessage_sameSlot (env : Vars) (m : Received) (s : Page) :
    SameSlot s (handleIceCandidateMessage env m s) := by
  have hsame := handleIceCandidateMessage_sameRender env m s
  obtain ⟨hn, ha, ht⟩ := adoptSender_slot env m s
  rcases handleIceCandidateMessage_cases env m s with ⟨-, h⟩ | h | ⟨c, -, h⟩
  · rw [h]
    exact .refl s
  · rw [h] at hsame ⊢
    refine ⟨hsame.vars, hsame.effects, hn, ha.ge, ?_, ?_⟩
    · rw [sdpReceived, ht, sdpReceived]
    · rw [sdpHandled, ht, sdpHandled]
  · rw [h] at hsame ⊢
    refine ⟨hsame.vars, hsame.effects, hn, ha.ge, ?_, ?_⟩
    · simp [sdpReceived, ht, receivedSDP]
    · simp [sdpHandled, ht, handledSDP]

/-- What an arrival does to the slot: an offer or answer is queued for it, anything
    else leaves it alone. -/
theorem onmessage_slot (env : Vars) (data : Option Json) (s : Page) :
    (SameSlot s (onmessage env data s) ∧
      ∀ j, data = some j → isSDPMessage j = false ∨ j = .null) ∨
    ∃ j, data = some j ∧ isSDPMessage j = true ∧
      onmessage env data s
        = enqueue (.setPendingSDP (some (s.arrival j))) (receive j s) := by
  have ha := onmessage_cases env data s
  generalize onmessage env data s = t at ha
  cases ha with
  | uncaught h =>
      refine Or.inl ⟨⟨rfl, rfl, rfl, Nat.le_refl _, ?_, ?_⟩, fun j hj => ?_⟩
      · simp [sdpReceived, receivedSDP]
      · simp [sdpHandled, handledSDP]
      · rcases h with rfl | rfl
        · exact nomatch hj
        · exact Or.inr (Option.some.inj hj).symm
  | @welcome j hw _ =>
      refine Or.inl ⟨SameSlot.trans (t := receive j s)
        (receive_sameSlot (not_sdp_of_welcome hw) s)
        ⟨rfl, rfl, ?_, Nat.le_refl _, rfl, rfl⟩, fun j' hj => ?_⟩
      · rw [next_enqueue]
        rfl
      · cases hj
        exact Or.inl (not_sdp_of_welcome hw)
  | @unprintable j hw _ =>
      refine Or.inl ⟨SameSlot.trans (t := receive j s)
        (receive_sameSlot (not_sdp_of_welcome hw) s)
        ⟨rfl, rfl, ?_, Nat.le_refl _, ?_, ?_⟩, fun j' hj => ?_⟩
      · show (enqueue (.setClientId (j.get "id")) (receive j s)).next.pendingSDP = _
        rw [next_enqueue]
        rfl
      · simp [sdpReceived, List.filterMap_cons, receivedSDP]
      · simp [sdpHandled, List.filterMap_cons, handledSDP]
      · cases hj
        exact Or.inl (not_sdp_of_welcome hw)
  | @sdp j _ hs => exact Or.inr ⟨j, rfl, hs, rfl⟩
  | @candidate j _ hs _ =>
      refine Or.inl ⟨(receive_sameSlot hs s).trans
        (handleIceCandidateMessage_sameSlot env _ _), fun j' hj => ?_⟩
      cases hj
      exact Or.inl hs
  | @ignored j _ hs _ =>
      refine Or.inl ⟨receive_sameSlot hs s, fun j' hj => ?_⟩
      cases hj
      exact Or.inl hs

theorem slot_arrival {s : Page} (hi : Slot s) (env : Vars) (data : Option Json) :
    Slot (onmessage env data s) := by
  rcases onmessage_slot env data s with ⟨hsame, -⟩ | ⟨j, -, -, heq⟩
  · exact hi.of_sameSlot hsame
  · rw [heq]
    refine ⟨hi.order, ?_, ?_, ?_⟩
    · -- what was committed is older than what arrives
      intro _ _ m hm hcon
      have hlt : m.n < s.arrivals := hi.old m hm
      rw [next_enqueue] at hcon
      cases hcon
      exact Nat.lt_irrefl _ hlt
    · exact fun m hm => (hi.old m hm).trans (Nat.lt_succ_self _)
    · intro m hm
      rw [next_enqueue] at hm
      cases hm
      exact Nat.lt_succ_self _

/-- An edit and the unmount leave the slot alone, and so do the other handlers. -/
theorem edit_sameSlot (v : String) (s : Page) :
    SameSlot s (enqueue (.setPeerId (.str v)) s) := by
  refine ⟨rfl, rfl, ?_, Nat.le_refl _, rfl, rfl⟩
  rw [next_enqueue]
  rfl

theorem slot_step {s s' : Page} {e : Event} (hi : Slot s) (h : Step s e s') :
    Slot s' := by
  cases h.frame with
  | render =>
      cases h with
      | render _ he => exact slot_render he hi
  | flushEffects =>
      cases h with
      | flushEffects => exact slot_flush hi
  | unmount =>
      cases h with
      | unmount => exact hi.of_sameSlot ⟨rfl, rfl, rfl, Nat.le_refl _, rfl, rfl⟩
  | message =>
      cases h with
      | message => exact slot_arrival hi _ _
  | @edit v _ =>
      cases h with
      | edit => exact hi.of_sameSlot (edit_sameSlot v s)
  | handler _ hsame hin => exact hi.of_sameSlot (.of_sameInbox hsame hin)

theorem slot_reachable {s : Page} (h : Reachable page s) : Slot s := by
  refine ReachVia.invariant (fun s hs => ?_) (fun s e s' _ hi _ hst => ?_) h
  · subst hs
    exact ⟨List.Sublist.refl _, fun _ _ _ hm => (nomatch hm), fun _ hm => (nomatch hm),
      fun _ hm => (nomatch hm)⟩
  · exact slot_step hi (step_cases hst)

/-! ## The inbox -/

/-- The message the next flush hands over. -/
def handed (s : Page) : Option Received :=
  if .processPendingSDP ∈ s.effects ∧ truthy s.vars.clientId = true
  then s.vars.pendingSDP else none

/-- The offers and answers that have arrived and are still to be handed over, the
    oldest first. -/
def inbox (s : Page) : List Received :=
  (if handed s = s.next.pendingSDP then [] else (handed s).toList)
    ++ s.next.pendingSDP.toList

theorem handed_none {s : Page} (h : .processPendingSDP ∉ s.effects ∨
    (truthy s.vars.clientId = true → s.vars.pendingSDP = none)) : handed s = none := by
  rw [handed]
  split
  · next hc =>
      rcases h with h | h
      · exact absurd hc.1 h
      · exact h hc.2
  · rfl

theorem handed_some {s : Page} {m : Received} (h : handed s = some m) :
    .processPendingSDP ∈ s.effects ∧ truthy s.vars.clientId = true ∧
      s.vars.pendingSDP = some m := by
  rw [handed] at h
  split at h
  · next hc => exact ⟨hc.1, hc.2, h⟩
  · exact nomatch h

theorem inbox_of_handed_none {s : Page} (h : handed s = none) :
    inbox s = s.next.pendingSDP.toList := by
  rw [inbox]
  rw [h]
  split <;> rfl

/-- Right after a commit nothing else is waiting. -/
theorem inbox_committed {s : Page} (h : s.next.pendingSDP = s.vars.pendingSDP) :
    inbox s = s.next.pendingSDP.toList := by
  have hhanded : handed s = s.next.pendingSDP ∨ handed s = none := by
    rw [handed]
    split
    · exact Or.inl h.symm
    · exact Or.inr rfl
  rcases hhanded with hs | hn
  · rw [inbox, if_pos hs]
    rfl
  · exact inbox_of_handed_none hn

theorem SameSlot.inbox {s t : Page} (h : SameSlot s t) : inbox t = inbox s := by
  unfold CamPending.inbox handed
  rw [h.vars, h.effects, h.next]

/-- What is handed over next is the oldest. -/
theorem inbox_handed {s : Page} {m : Received} (h : handed s = some m) :
    ∃ l, inbox s = m :: l := by
  rw [inbox]
  rw [h]
  split
  · next hn => exact ⟨[], by rw [← hn]; rfl⟩
  · exact ⟨s.next.pendingSDP.toList, rfl⟩

/-- What a step does to the inbox. -/
inductive Boxes (s : Page) : Event → Page → Prop where
  | same {e : Event} {t : Page} : inbox t = inbox s →
      (e = .flushEffects → handed s = none) →
      (∀ j, e = .message (some j) → isSDPMessage j = false ∨ j = .null) → Boxes s e t
  | arrives {j : Json} {t : Page} : isSDPMessage j = true →
      inbox t = (handed s).toList ++ [s.arrival j] → Boxes s (.message (some j)) t
  | hands {m : Received} {l : List Received} {t : Page} : handed s = some m →
      inbox s = m :: l → inbox t = [] → Boxes s .flushEffects t

theorem boxes_flush {s : Page} (ho : EffectOrder s.effects) :
    Boxes s .flushEffects (s.effects.foldl runEffect { s with effects := [] }) := by
  have hidle : handed { s with effects := [] } = none :=
    handed_none (Or.inl (fun h => (nomatch h)))
  rcases flush_slot ho with ⟨hsame, hnone⟩ | ⟨m, t, hdue, hid, hm, hslot, heq⟩
  · have hh := handed_none hnone
    refine .same ?_ (fun _ => hh) (fun _ h => (nomatch h))
    rw [hsame.inbox, inbox_of_handed_none hidle, inbox_of_handed_none hh]
    rfl
  · have hh : handed s = some m := by rw [handed, if_pos ⟨hdue, hid⟩, hm]
    obtain ⟨l, hl⟩ := inbox_handed hh
    have hsame := handleSDPMessage_sameRender s.vars m t
    refine .hands hh hl ?_
    rw [heq, inbox_of_handed_none, next_enqueue]
    · rfl
    · refine handed_none (Or.inl ?_)
      rw [enqueue_effects, hsame.effects, hslot.effects]
      exact fun h => (nomatch h)

theorem boxes_step {s s' : Page} {e : Event} (hr : Reachable page s)
    (h : step s e = some s') : Boxes s e s' := by
  have hslot := slot_reachable hr
  have hst := step_cases h
  cases hst.frame with
  | render =>
      cases hst with
      | render _ he =>
          refine .same ?_ (fun h => (nomatch h)) (fun _ h => (nomatch h))
          have hidle : handed s = none := handed_none (Or.inl (by rw [he]; simp))
          rw [inbox_of_handed_none hidle]
          exact inbox_committed rfl
  | flushEffects =>
      cases hst with
      | flushEffects => exact boxes_flush hslot.order
  | unmount =>
      cases hst with
      | unmount => exact .same rfl (fun h => (nomatch h)) (fun _ h => (nomatch h))
  | @message data _ =>
      cases hst with
      | @message env _ _ _ =>
          rcases onmessage_slot env data s with ⟨hsame, hnot⟩ | ⟨j, rfl, hj, heq⟩
          · refine .same hsame.inbox (fun h => (nomatch h)) (fun j hj => hnot j ?_)
            injection hj
          · refine .arrives hj ?_
            rw [heq]
            have hnext : (enqueue (.setPendingSDP (some (s.arrival j)))
                (receive j s)).next.pendingSDP = some (s.arrival j) := by
              rw [next_enqueue]
              rfl
            have hne : handed s ≠ some (s.arrival j) := by
              intro hc
              rw [handed] at hc
              split at hc
              · exact Nat.lt_irrefl _ (hslot.old _ hc)
              · exact nomatch hc
            rw [inbox, hnext]
            exact congrArg (· ++ _) (if_neg hne)
  | @edit v _ =>
      cases hst with
      | edit =>
          exact .same (edit_sameSlot v s).inbox (fun h => (nomatch h)) (fun _ h => (nomatch h))
  | handler hev hsame hin =>
      refine .same (SameSlot.of_sameInbox hsame hin).inbox ?_ ?_
      · rintro rfl
        exact nomatch hev
      · rintro j rfl
        exact nomatch hev

/-! ## Conservation -/

/-- Where a received message is: handled, or in the slot.  A message that was
    committed is still there until its effect has run. -/
structure HandOver (s : Page) : Prop extends Slot s where
  conserved : sdpReceived s = sdpHandled s ++ s.next.pendingSDP.toList
  waiting : .processPendingSDP ∈ s.effects →
    ∀ m, s.vars.pendingSDP = some m → s.next.pendingSDP = some m

theorem HandOver.of_sameSlot {s t : Page} (hi : HandOver s) (h : SameSlot s t) :
    HandOver t := by
  refine ⟨hi.toSlot.of_sameSlot h, ?_, ?_⟩
  · rw [h.received, h.handled, h.next]
    exact hi.conserved
  · rw [h.effects, h.vars, h.next]
    exact hi.waiting

/-- A flush hands over the committed message, once, and clears the slot. -/
theorem handOver_flush {s : Page} (hi : HandOver s) :
    HandOver (s.effects.foldl runEffect { s with effects := [] }) := by
  refine ⟨slot_flush hi.toSlot, ?_, ?_⟩
  · rcases flush_slot hi.order with ⟨hsame, -⟩ | ⟨m, t, hdue, -, hm, hslot, heq⟩
    · rw [hsame.received, hsame.handled, hsame.next]
      exact hi.conserved
    · obtain ⟨hr, hh⟩ := handleSDPMessage_sdps s.vars m t
      rw [heq]
      show sdpReceived (handleSDPMessage s.vars m t)
        = sdpHandled (handleSDPMessage s.vars m t) ++ _
      rw [hr, hh, hslot.received, hslot.handled, next_enqueue]
      show sdpReceived s = sdpHandled s ++ [m] ++ []
      rw [hi.conserved, hi.waiting hdue m hm, List.append_nil]
      rfl
  · rw [flush_effects]
    exact fun h => (nomatch h)

/-- An arrival in a free slot fills it. -/
theorem handOver_arrival {s : Page} {env : Vars} {data : Option Json} (hi : HandOver s)
    (hfree : FreeSlot s (.message data)) : HandOver (onmessage env data s) := by
  refine ⟨slot_arrival hi.toSlot env data, ?_, ?_⟩
  · rcases onmessage_slot env data s with ⟨hsame, -⟩ | ⟨j, rfl, hs, heq⟩
    · exact (hi.of_sameSlot hsame).conserved
    · have hrec : sdpReceived (receive j s) = sdpReceived s ++ [s.arrival j] := by
        simp [sdpReceived, receivedSDP, Page.arrival, hs]
      have hhand : sdpHandled (receive j s) = sdpHandled s := by
        simp [sdpHandled, handledSDP]
      rw [heq]
      show sdpReceived (receive j s) = sdpHandled (receive j s) ++ _
      rw [hrec, hhand, next_enqueue, hi.conserved, hfree.none hs]
      exact congrArg (· ++ _) (List.append_nil _)
  · rcases onmessage_slot env data s with ⟨hsame, -⟩ | ⟨j, rfl, hs, heq⟩
    · exact (hi.of_sameSlot hsame).waiting
    · rw [heq]
      intro hdue m hm
      have hnone := hfree.none hs
      rw [hi.waiting hdue m hm] at hnone
      exact nomatch hnone

theorem handOver_step {s s' : Page} {e : Event} (hi : HandOver s) (hfree : FreeSlot s e)
    (h : Step s e s') : HandOver s' := by
  cases h.frame with
  | render =>
      cases h with
      | render _ he => exact ⟨slot_render he hi.toSlot, hi.conserved, fun _ m hm => hm⟩
  | flushEffects =>
      cases h with
      | flushEffects => exact handOver_flush hi
  | unmount =>
      cases h with
      | unmount => exact hi.of_sameSlot ⟨rfl, rfl, rfl, Nat.le_refl _, rfl, rfl⟩
  | message =>
      cases h with
      | message => exact handOver_arrival hi hfree
  | @edit v _ =>
      cases h with
      | edit => exact hi.of_sameSlot (edit_sameSlot v s)
  | handler _ hsame hin => exact hi.of_sameSlot (.of_sameInbox hsame hin)

theorem handOver_reachVia {s : Page} (h : ReachVia page FreeSlot s) : HandOver s := by
  refine ReachVia.invariant (fun s hs => ?_) (fun s e s' _ hi hc hst => ?_) h
  · subst hs
    exact ⟨slot_reachable (.init rfl), rfl, fun _ _ hm => (nomatch hm)⟩
  · exact handOver_step hi hc (step_cases hst)

/-- **NOTHING IS LOST, DUPLICATED OR REORDERED** in runs that find the slot free at
    every offer or answer: with nothing queued, no effect due and a client id, what
    was handed over is what was received. -/
theorem sdp_handed_over {s : Page} (h : ReachVia page FreeSlot s) (hq : Quiet s)
    (hid : truthy s.vars.clientId = true) : sdpHandled s = sdpReceived s := by
  have hi := handOver_reachVia h
  have hnext : s.next = s.vars := by rw [Page.next, hq.1]; rfl
  have hnone : s.vars.pendingSDP = none := by
    cases hm : s.vars.pendingSDP with
    | none => rfl
    | some m =>
        refine absurd ?_ (hi.cleared (by rw [hq.2]; simp) hid m hm)
        rw [hnext]
        exact hm
  rw [hi.conserved, hnext, hnone]
  exact (List.append_nil _).symm

/-- An offer and its answer, as they come over the wire. -/
def offerFrom (sender sdp : String) : Json :=
  .obj [("from", .str sender), ("to", .str "a"),
    ("sdp", .obj [("type", .str "offer"), ("sdp", .str sdp)]), ("type", .str "offer")]

/-- The page is mounted and has been welcomed as `a`. -/
def welcomedRun : List Event :=
  [.flushEffects, .message (some (welcomeJson "a")), .render, .flushEffects]

/-- Two offers arrive before the next render, and only the second is handled. -/
def overwriteRun : List Event :=
  welcomedRun ++ [.message (some (offerFrom "b" "1")), .message (some (offerFrom "c" "2")),
    .render, .flushEffects, .render, .flushEffects]

theorem sdp_overwritten :
    ∃ s : Page, Reachable page s ∧ Quiet s ∧ truthy s.vars.clientId = true ∧
      (sdpReceived s).map (·.n) = [1, 2] ∧ (sdpHandled s).map (·.n) = [2] :=
  ⟨stateAfter overwriteRun, stateAfter_reachable (by decide +kernel), by decide +kernel,
    by decide +kernel, by decide +kernel, by decide +kernel⟩

/-- Two offers, the second one after the slot has been cleared. -/
def oneByOneRun : List Event :=
  welcomedRun ++ [.message (some (offerFrom "b" "1")), .render, .flushEffects,
    .message (some (offerFrom "c" "2")), .render, .flushEffects, .render, .flushEffects]

theorem oneByOne_reachVia : ReachVia page FreeSlot (stateAfter oneByOneRun) := by
  have hrun : execVia page freeSlot .initial oneByOneRun
      = some (stateAfter oneByOneRun) := by decide +kernel
  exact ReachVia.of_exec (fun _ _ hc => hc) rfl hrun

theorem sdp_handed_over_sample :
    (sdpReceived (stateAfter oneByOneRun)).length = 2 ∧
    sdpHandled (stateAfter oneByOneRun) = sdpReceived (stateAfter oneByOneRun) :=
  ⟨by decide +kernel, sdp_handed_over oneByOne_reachVia (by decide +kernel) (by decide +kernel)⟩

/-! ## Descriptions and candidates -/

/-- A session description can be built from the message. -/
def describes (m : Received) : Bool := ((sdpOf m).bind RTCSessionDescription).isSome

/-- Offers and answers carry a description and find the slot free, and so does
    every candidate that can be built. -/
def orderly (s : Page) : Event → Bool
  | .message (some j) =>
      if isSDPMessage j then s.next.pendingSDP.isNone && describes (s.arrival j)
      else !isICECandidateMessage j || (RTCIceCandidate (j.get "candidate")).isNone
        || s.next.pendingSDP.isNone
  | _ => true

def Orderly (s : Page) (e : Event) : Prop := orderly s e = true

theorem Orderly.freeSlot {s : Page} {e : Event} (h : Orderly s e) : FreeSlot s e := by
  simp only [Orderly, orderly] at h
  simp only [FreeSlot, CamPending.freeSlot]
  split at h
  · next j =>
      split at h
      · next hs => simp [(Bool.and_eq_true_iff.mp h).1]
      · next hs => simp [hs]
  · rfl

/-- On an open connection without senders every track gets one. -/
theorem attach_fresh {pc : Pc} (stream : Stream) (hopen : pc.signalingState ≠ .closed)
    (hnone : pc.senders = []) :
    addTracksToConnection pc stream = some { pc with
      senders := stream.tracks.map (fun t => ⟨t.kind, some t⟩) } := by
  have hfree : ∀ x ∈ pc.senders, ∃ t, x.track = some t ∧ t ∉ stream.tracks := by
    intro x hx
    rw [hnone] at hx
    exact nomatch hx
  rw [addTracksToConnection, addTracks_eq stream.tracks stream.nodup hopen hfree, hnone]
  rfl

/-- On an open connection the track step of `handleSDPMessage` does not throw. -/
theorem tracksForOffer_isSome {pc : Pc} (hopen : pc.signalingState ≠ .closed)
    (isOffer : Bool) (stream : Option Stream) :
    (tracksForOffer isOffer stream pc).isSome = true := by
  simp only [tracksForOffer]
  split
  · next str =>
      split
      · next hc =>
          have hnone : pc.senders = [] := by
            simpa [hasTracksAdded] using (Bool.and_eq_true_iff.mp hc).2
          rw [attach_fresh str hopen hnone]
          rfl
      · rfl
  · rfl

/-- With a description and an open connection, `handleSDPMessage` gets to
    `setRemoteDescription`. -/
theorem handleSDPMessage_applies (env : Vars) {m : Received} {s : Page}
    (hd : describes m = true) (hpc : s.peerConnectionRef.isSome = true)
    (hopen : s.signaling ≠ some .closed) :
    ∃ d, (handleSDPMessage env m s).trace = s.trace
      ++ [.handleSDPMessage m, .invoked (.setRemoteDescription d) (some m)] := by
  rcases handleSDPMessage_cases env m s with
    ⟨hn, -⟩ | ⟨pc, pc', hs, -, ⟨-, hcatch⟩ | ⟨sdp, d, -, -, h⟩⟩
  · rw [hn] at hpc
    exact nomatch hpc
  · exfalso
    rw [describes] at hd
    cases hsdp : sdpOf m with
    | none =>
        rw [hsdp] at hd
        exact nomatch hd
    | some sdp =>
        rw [hsdp, Option.bind_some] at hd
        rw [signaling_some hs] at hopen
        rcases hcatch sdp hsdp with h | h
        · rw [h] at hd
          exact nomatch hd
        · have := tracksForOffer_isSome (fun hc => hopen (congrArg some hc))
            (isOfferSdp sdp) s.localStreamRef
          rw [h] at this
          exact nomatch this
  · obtain ⟨-, -, ht⟩ := adoptSender_slot env m (noteSDP m s)
    refine ⟨d, ?_⟩
    rw [h, invoke_trace, setPc_trace, ht, noteSDP_trace, List.append_assoc]
    rfl

/-! ## Histories -/

/-- Wherever a history invokes `addIceCandidate` for a message, that message had
    been received, and every offer or answer received before has had its
    `setRemoteDescription` invoked. -/
def ArrivalOrder (t : List Obs) : Prop :=
  ∀ pre post k c, t = pre ++ .invoked (.addIceCandidate c) (some k) :: post →
    .received k ∈ pre ∧
    ∀ m, .received m ∈ pre → isSDPMessage m.data = true →
      ∃ d, .invoked (.setRemoteDescription d) (some m) ∈ pre

/-- Everything but an `addIceCandidate` may follow. -/
theorem ArrivalOrder.append {t : List Obs} (h : ArrivalOrder t) {l : List Obs}
    (hl : ∀ c k, .invoked (.addIceCandidate c) (some k) ∉ l) :
    ArrivalOrder (t ++ l) := by
  intro pre post k c heq
  rcases List.append_eq_append_iff.mp heq with ⟨mid, hpre, hmid⟩ | ⟨mid, hpre, hmid⟩
  · exact absurd (by rw [hmid]; simp) (hl c k)
  · cases mid with
    | nil =>
        rw [List.nil_append] at hmid
        exact absurd (by rw [← hmid]; simp) (hl c k)
    | cons o mid =>
        cases hmid
        exact h pre mid k c hpre

/-- A candidate follows once every description received has been applied. -/
theorem ArrivalOrder.candidate {t : List Obs} (h : ArrivalOrder t)
    (happ : ∀ m, .received m ∈ t → isSDPMessage m.data = true →
      ∃ d, .invoked (.setRemoteDescription d) (some m) ∈ t)
    {k : Received} (hk : isSDPMessage k.data = false) (c : Json) :
    ArrivalOrder (t ++ [.received k, .invoked (.addIceCandidate c) (some k)]) := by
  intro pre post k' c' heq
  rcases List.append_eq_append_iff.mp heq with ⟨mid, hpre, hmid⟩ | ⟨mid, hpre, hmid⟩
  · -- the new call: everything before it is the old history and the reception
    have hnew : mid = [.received k] ∧ k' = k := by
      cases mid with
      | nil => exact nomatch (List.cons.inj hmid).1
      | cons o mid =>
          cases mid with
          | nil =>
              cases hmid
              exact ⟨rfl, rfl⟩
          | cons o' mid => simp at hmid
    obtain ⟨rfl, rfl⟩ := hnew
    rw [hpre]
    refine ⟨by simp, fun m hm hs => ?_⟩
    rcases List.mem_append.mp hm with hm | hm
    · obtain ⟨d, hd⟩ := happ m hm hs
      exact ⟨d, List.mem_append_left _ hd⟩
    · cases List.mem_singleton.mp hm
      rw [hk] at hs
      exact nomatch hs
  · cases mid with
    | nil => exact nomatch hmid
    | cons o mid =>
        cases hmid
        exact h pre mid k' c' hpre

/-- Messages in the slot carry a description and came after the mount, what was
    handed over has been applied, and the history is in order. -/
structure InOrder (s : Page) : Prop where
  slot : ∀ m, s.vars.pendingSDP = some m ∨ s.next.pendingSDP = some m →
    describes m = true ∧ s.mountVars.isSome = true
  applied : ∀ m ∈ sdpHandled s, ∃ d,
    .invoked (.setRemoteDescription d) (some m) ∈ s.trace
  order : ArrivalOrder s.trace

/-- Anything that is neither a hand-over nor a candidate may be observed. -/
theorem InOrder.extend {s t : Page} (hi : InOrder s)
    (hslot : ∀ m, t.vars.pendingSDP = some m ∨ t.next.pendingSDP = some m →
      describes m = true ∧ t.mountVars.isSome = true)
    {l : List Obs} (ht : t.trace = s.trace ++ l)
    (hh : ∀ o ∈ l, handledSDP o = none)
    (hl : ∀ c k, .invoked (.addIceCandidate c) (some k) ∉ l) : InOrder t := by
  refine ⟨hslot, fun m hm => ?_, ?_⟩
  · have hnil : l.filterMap handledSDP = [] := List.filterMap_eq_nil_iff.mpr hh
    rw [sdpHandled, ht, List.filterMap_append, hnil, List.append_nil] at hm
    obtain ⟨d, hd⟩ := hi.applied m hm
    rw [ht]
    exact ⟨d, List.mem_append_left _ hd⟩
  · rw [ht]
    exact hi.order.append hl

theorem flush_trace (es : List Effect) :
    ∀ s : Page, .processPendingSDP ∉ es → (es.foldl runEffect s).trace = s.trace := by
  induction es with
  | nil => intro s _; rfl
  | cons e es ih =>
      intro s hes
      rw [List.foldl_cons, ih _ (fun hm => hes (List.mem_cons_of_mem _ hm))]
      cases e with
      | syncPeerId => rfl
      | mount => rfl
      | processPendingSDP => exact absurd (List.mem_cons_self ..) hes

theorem flush_mountVars (es : List Effect) (s : Page)
    (h : s.mountVars.isSome = true) : (es.foldl runEffect s).mountVars.isSome = true := by
  refine flush_induction (P := fun t => t.mountVars.isSome = true) (fun t e ht => ?_) es s h
  rw [runEffect_mountVars]
  split
  · rfl
  · exact ht

theorem inOrder_flush {s : Page} (ho : HandOver s) (hm : MountRender s)
    (hopen : s.signaling ≠ some .closed) (hi : InOrder s) :
    InOrder (s.effects.foldl runEffect { s with effects := [] }) := by
  have hstart : InOrder { s with effects := [] } := ⟨hi.slot, hi.applied, hi.order⟩
  -- what the effects before the pending-SDP one leave behind
  have hkeep : ∀ es : List Effect, .processPendingSDP ∉ es →
      InOrder (es.foldl runEffect { s with effects := [] }) := by
    intro es hes
    have hslot := flush_sameSlot es { s with effects := [] } hes
    refine hstart.extend (l := []) (fun m h => ?_) ?_ (by simp) (by simp)
    · rw [hslot.vars, hslot.next] at h
      obtain ⟨hd, hmv⟩ := hi.slot m h
      exact ⟨hd, flush_mountVars es _ hmv⟩
    · rw [flush_trace es _ hes, List.append_nil]
  rcases ho.order.last with hnot | ⟨es, hes, hnot⟩
  · exact hkeep _ hnot
  · have hit := hkeep es hnot
    have hslot := flush_sameSlot es { s with effects := [] } hnot
    have hconn : s.mountVars.isSome = true →
        (es.foldl runEffect { s with effects := [] }).peerConnectionRef.isSome = true :=
      fun h => flush_induction (P := fun t => t.peerConnectionRef.isSome = true)
        (fun t e ht => runEffect_connected e ht) es _ (hm.connected h)
    have hopen' := isOpen_flush es { s with effects := [] } hopen
    rw [hes, List.foldl_append, List.foldl_cons, List.foldl_nil]
    generalize es.foldl runEffect { s with effects := [] } = t at hit hslot hconn hopen' ⊢
    rcases processPendingSDP_cases t with ⟨heq, -⟩ | ⟨m, hmt, -, heq⟩
    · rw [heq]
      exact hit
    · have hmt' : s.vars.pendingSDP = some m := by
        rw [hslot.vars] at hmt
        exact hmt
      obtain ⟨hd, hmv⟩ := hi.slot m (Or.inl hmt')
      obtain ⟨d, htr⟩ := handleSDPMessage_applies t.vars hd (hconn hmv) hopen'
      have hsame := handleSDPMessage_sameRender t.vars m t
      rw [heq]
      refine ⟨fun m' h => ?_, fun m' h => ?_, ?_⟩
      · rw [enqueue_vars, hsame.vars, next_enqueue] at h
        rw [enqueue_mountVars, hsame.mountVars]
        rcases h with h | h
        · exact hit.slot m' (Or.inl h)
        · exact nomatch h
      · have h' : m' ∈ sdpHandled t ++ [m] := by
          rw [← (handleSDPMessage_sdps t.vars m t).2]
          exact h
        rw [enqueue_trace, htr]
        rcases List.mem_append.mp h' with h' | h'
        · obtain ⟨d', hd'⟩ := hit.applied m' h'
          exact ⟨d', List.mem_append_left _ hd'⟩
        · cases List.mem_singleton.mp h'
          exact ⟨d, by simp⟩
      · rw [enqueue_trace, htr]
        exact hit.order.append (by simp)

/-- With the slot free, everything received has been applied. -/
theorem InOrder.all_applied {s : Page} (ho : HandOver s) (hi : InOrder s)
    (hfree : s.next.pendingSDP = none) {m : Received} (hm : .received m ∈ s.trace)
    (hs : isSDPMessage m.data = true) :
    ∃ d, .invoked (.setRemoteDescription d) (some m) ∈ s.trace := by
  refine hi.applied m ?_
  have hrec : m ∈ sdpReceived s :=
    List.mem_filterMap.mpr ⟨.received m, hm, by simp [receivedSDP, hs]⟩
  rw [ho.conserved, hfree] at hrec
  simpa using hrec

theorem inOrder_arrival {s : Page} {env : Vars} {data : Option Json}
    (hmv : s.mountVars.isSome = true) (ho : HandOver s) (hi : InOrder s)
    (hc : Orderly s (.message data)) : InOrder (onmessage env data s) := by
  have ha := onmessage_cases env data s
  generalize onmessage env data s = t at ha
  cases ha with
  | uncaught =>
      exact hi.extend hi.slot (l := [.uncaught]) rfl (by simp [handledSDP]) (by simp)
  | @welcome j hw _ =>
      refine hi.extend (fun m h => ?_) (l := [.received (s.arrival j)]) rfl
        (by simp [handledSDP]) (by simp)
      rw [next_enqueue] at h
      exact hi.slot m h
  | @unprintable j hw _ =>
      refine hi.extend (fun m h => ?_) (l := [.received (s.arrival j), .uncaught])
        (List.append_assoc s.trace [.received (s.arrival j)] [.uncaught])
        (by simp [handledSDP]) (by simp)
      replace h : s.vars.pendingSDP = some m ∨
        (enqueue (.setClientId (j.get "id")) (receive j s)).next.pendingSDP = some m := h
      rw [next_enqueue] at h
      exact hi.slot m h
  | @sdp j hw hs =>
      refine hi.extend (fun m h => ?_) (l := [.received (s.arrival j)]) rfl
        (by simp [handledSDP]) (by simp)
      rw [next_enqueue] at h
      rcases h with h | h
      · exact hi.slot m (Or.inl h)
      · cases h
        simp only [Orderly, orderly, hs, if_true] at hc
        exact ⟨(Bool.and_eq_true_iff.mp hc).2, hmv⟩
  | @candidate j hw hs hic =>
      have hsame := handleIceCandidateMessage_sameRender env (s.arrival j) (receive j s)
      have hslot := handleIceCandidateMessage_sameSlot env (s.arrival j) (receive j s)
      have hpend : ∀ m,
          (handleIceCandidateMessage env (s.arrival j) (receive j s)).vars.pendingSDP
              = some m ∨
            (handleIceCandidateMessage env (s.arrival j) (receive j s)).next.pendingSDP
              = some m →
          describes m = true ∧
            (handleIceCandidateMessage env (s.arrival j)
              (receive j s)).mountVars.isSome = true := by
        intro m h
        rw [hslot.vars, hslot.next] at h
        rw [hsame.mountVars]
        exact hi.slot m h
      obtain ⟨-, -, ht⟩ := adoptSender_slot env (s.arrival j) (receive j s)
      rcases handleIceCandidateMessage_cases env (s.arrival j) (receive j s) with
        ⟨-, h⟩ | h | ⟨c, hcand, h⟩
      · rw [h] at hpend ⊢
        exact hi.extend hpend (l := [.received (s.arrival j)]) rfl
          (by simp [handledSDP]) (by simp)
      · rw [h] at hpend ⊢
        exact hi.extend hpend (l := [.received (s.arrival j)]) ht
          (by simp [handledSDP]) (by simp)
      · -- the candidate can be built, so it found the slot free
        have hcand' : RTCIceCandidate (j.get "candidate") = some c := hcand
        have hfree : s.next.pendingSDP = none := by
          simpa [Orderly, orderly, hs, hic, hcand'] using hc
        have htr : (handleIceCandidateMessage env (s.arrival j) (receive j s)).trace
            = s.trace ++ [.received (s.arrival j),
              .invoked (.addIceCandidate c) (some (s.arrival j))] := by
          rw [h, invoke_trace, ht, receive_trace, List.append_assoc]
          rfl
        refine ⟨hpend, fun m hm => ?_, ?_⟩
        · rw [hslot.handled, (receive_sameSlot hs s).handled] at hm
          obtain ⟨d, hd⟩ := hi.applied m hm
          rw [htr]
          exact ⟨d, List.mem_append_left _ hd⟩
        · rw [htr]
          exact hi.order.candidate (fun m => hi.all_applied ho hfree) hs c
  | @ignored j hw hs hic =>
      exact hi.extend hi.slot (l := [.received (s.arrival j)]) rfl
        (by simp [handledSDP]) (by simp)

theorem inOrder_step {s s' : Page} {e : Event} (hm : MountRender s) (ho : HandOver s)
    (hopen : IsOpen s) (hi : InOrder s) (hc : Orderly s e) (h : Step s e s') :
    InOrder s' := by
  cases h.frame with
  | render =>
      cases h with
      | render =>
          refine ⟨fun m hm' => hi.slot m (Or.inr ?_), hi.applied, hi.order⟩
          rcases hm' with h | h
          · exact h
          · exact h
  | flushEffects =>
      cases h with
      | flushEffects hmt => exact inOrder_flush ho hm (hopen hmt) hi
  | unmount =>
      cases h with
      | unmount => exact ⟨hi.slot, hi.applied, hi.order⟩
  | message =>
      cases h with
      | message _ henv => exact inOrder_arrival (by rw [henv]; rfl) ho hi hc
  | edit =>
      cases h with
      | edit =>
          refine ⟨fun m h => ?_, hi.applied, hi.order⟩
          rw [next_enqueue] at h
          exact hi.slot m h
  | handler _ hsame hin =>
      obtain ⟨ops, ht⟩ := hin.trace
      refine hi.extend (fun m h => ?_) ht ?_ (by simp)
      · rw [hsame.vars, (hin.next hsame.vars).2.2] at h
        rw [hsame.mountVars]
        exact hi.slot m h
      · intro o ho'
        obtain ⟨op, -, rfl⟩ := List.mem_map.mp ho'
        rfl

/-- **ARRIVAL ORDER IS PROCESSING ORDER** in runs whose offers and answers carry a
    description and find the slot free, as do the candidates: whenever
    `addIceCandidate` is invoked for a received candidate, `setRemoteDescription`
    has been invoked for every offer or answer received before. -/
theorem sdp_before_candidates {s : Page} (h : ReachVia page Orderly s)
    (pre post : List Obs) (k : Received) (c : Json)
    (hk : s.trace = pre ++ .invoked (.addIceCandidate c) (some k) :: post) :
    .received k ∈ pre ∧
    ∀ m, .received m ∈ pre → isSDPMessage m.data = true →
      ∃ d, .invoked (.setRemoteDescription d) (some m) ∈ pre := by
  have hinv : InOrder s := by
    refine ReachVia.invariant (fun s hs => ?_) (fun s e s' hr hi hc hst => ?_) h
    · subst hs
      refine ⟨fun m hm => ?_, fun m hm => (nomatch hm), fun pre post k c heq => ?_⟩
      · rcases hm with hm | hm <;> exact nomatch hm
      · exact absurd heq (by simp [Page.initial])
    · exact inOrder_step (mountRender_reachable hr.reachable)
        (handOver_reachVia (hr.mono fun _ _ => Orderly.freeSlot))
        (isOpen_reachable hr.reachable) hi hc (step_cases hst)
  exact hinv.order pre post k c hk

/-- A candidate that can be built. -/
def candidateFrom (sender : String) : Json :=
  .obj [("from", .str sender), ("to", .str "a"),
    ("candidate", .obj [("sdpMid", .str "0")]), ("type", .str "candidate")]

/-- An offer and a candidate, both before the next render. -/
def hastyRun : List Event :=
  welcomedRun ++ [.message (some (offerFrom "b" "1")), .message (some (candidateFrom "b"))]

/-- The candidate is added although the offer before it has not been applied. -/
theorem candidate_overtakes :
    ∃ (s : Page) (pre : List Obs) (m k : Received) (c : Json), Reachable page s ∧
      s.trace = pre ++ [.invoked (.addIceCandidate c) (some k)] ∧
      .received m ∈ pre ∧ isSDPMessage m.data = true ∧ m.n < k.n ∧
      ∀ d, .invoked (.setRemoteDescription d) (some m) ∉ s.trace := by
  have htrace : (stateAfter hastyRun).trace
      = [.received ⟨0, welcomeJson "a"⟩, .received ⟨1, offerFrom "b" "1"⟩,
        .received ⟨2, candidateFrom "b"⟩]
      ++ [.invoked (.addIceCandidate (.obj [("sdpMid", .str "0")]))
        (some ⟨2, candidateFrom "b"⟩)] := by decide +kernel
  refine ⟨stateAfter hastyRun, _, ⟨1, offerFrom "b" "1"⟩, ⟨2, candidateFrom "b"⟩, _,
    stateAfter_reachable (by decide), htrace, by simp, by decide, by decide,
    fun d hd => ?_⟩
  rw [htrace] at hd
  simp at hd

/-- An offer and a candidate, the candidate after the effect has run. -/
def patientRun : List Event :=
  welcomedRun ++ [.message (some (offerFrom "b" "1")), .render, .flushEffects,
    .message (some (candidateFrom "b"))]

theorem patient_reachVia : ReachVia page Orderly (stateAfter patientRun) := by
  have hrun : execVia page orderly .initial patientRun
      = some (stateAfter patientRun) := by decide +kernel
  exact ReachVia.of_exec (fun _ _ hc => hc) rfl hrun

theorem sdp_before_candidates_sample :
    ∃ pre k c, (stateAfter patientRun).trace
        = pre ++ [.invoked (.addIceCandidate c) (some k)] ∧
      ∃ d, .invoked (.setRemoteDescription d) (some ⟨1, offerFrom "b" "1"⟩) ∈ pre := by
  have htrace : (stateAfter patientRun).trace
      = (stateAfter patientRun).trace.dropLast
        ++ [.invoked (.addIceCandidate (.obj [("sdpMid", .str "0")]))
          (some ⟨2, candidateFrom "b"⟩)] := by decide +kernel
  refine ⟨_, _, _, htrace, ?_⟩
  exact (sdp_before_candidates patient_reachVia _ [] _ _ htrace).2 _
    (by decide +kernel) (by decide)

end CamPending
