import WebRtcCam.CamClosureProofs
import WebRtcCam.CamPendingProofs

/-! # `peerIdRef` and `peerId`

    The page keeps the peer id twice: as a state variable, which a render commits, and
    in a ref, which the handlers of the connection read.  The ref has three writers.  The
    handlers of descriptions and candidates write it together with the update they
    queue, ahead of the render that commits it; the first effect copies the COMMITTED
    value into it, which may be older than what is queued, and does not run at all when
    a commit leaves the value as it was.  An edit of the input writes the state only.

    So the two are apart most of the time.  What holds in between is `CatchesUp`: the
    effect is due, or a render that would not make it due would find the ref right.

    * `Binding.catchesUp` — a handler that writes both, or neither, keeps it;
    * `catchesUp_flush` — so does a flush, in which the effect may run before a handler;
    * `ref_catches_up` — with nothing queued and no effect due, the two are equal. -/

namespace CamPeerRef

open LtsRun JsonText CamWire CamPage CamClosure CamPending

/-! ## The invariant -/

/-- Unless the queue changes the committed peer id, the ref has it. -/
def Agrees (s : Page) : Prop :=
  s.next.peerId = s.vars.peerId → s.peerIdRef = s.vars.peerId

/-- The ref will agree, at the latest when the effect has run. -/
def CatchesUp (s : Page) : Prop := .syncPeerId ∈ s.effects ∨ Agrees s

/-- An edit changes what the input shows, as `onChange` means. -/
def realEdit (s : Page) : Event → Bool
  | .edit v => .str v ≠ s.vars.peerId
  | _ => true

def RealEdit (s : Page) (e : Event) : Prop := realEdit s e = true

/-! ## What the handlers write -/

/-- A handler writes the ref and queues the same value, or writes neither. -/
inductive Binding (s t : Page) : Prop where
  | kept : t.peerIdRef = s.peerIdRef → t.next.peerId = s.next.peerId → Binding s t
  | bound : t.next.peerId = t.peerIdRef → Binding s t

theorem Binding.agrees {s t : Page} (h : Binding s t) (hv : t.vars = s.vars)
    (hi : Agrees s) : Agrees t := by
  intro hsame
  rw [hv] at hsame ⊢
  cases h with
  | kept href hnext => rw [href, hi (by rw [← hnext, hsame])]
  | bound hnext => rw [← hnext, hsame]

theorem Binding.catchesUp {s t : Page} (h : Binding s t) (hsame : SameRender s t)
    (hi : CatchesUp s) : CatchesUp t := by
  rcases hi with hdue | hi
  · exact Or.inl (by rw [hsame.effects]; exact hdue)
  · exact Or.inr (h.agrees hsame.vars hi)

/-- What queues nothing and leaves the ref alone. -/
theorem Binding.of_queue {s t : Page} (hv : t.vars = s.vars) (hq : t.queue = s.queue)
    (hr : t.peerIdRef = s.peerIdRef) : Binding s t := by
  refine .kept hr ?_
  rw [Page.next, Page.next, hv, hq]

theorem adoptSender_binding (env : Vars) (m : Received) (s : Page) :
    Binding s (adoptSender env m s) := by
  rcases adoptSender_cases env m s with h | ⟨sender, -, -, h⟩
  · rw [h]
    exact .kept rfl rfl
  · rw [h]
    refine .bound ?_
    rw [next_of_append (s := s) (t := bindPeer sender s) rfl rfl]
    rfl

/-- A handler that first adopts the sender and then does nothing more to the inbox. -/
theorem Binding.after {s t u : Page} (h : Binding s t) (hv : u.vars = t.vars)
    (hq : u.queue = t.queue) (hr : u.peerIdRef = t.peerIdRef) : Binding s u := by
  have hnext : u.next = t.next := by rw [Page.next, Page.next, hv, hq]
  cases h with
  | kept href hkeep => exact .kept (hr.trans href) (by rw [hnext, hkeep])
  | bound hbound => exact .bound (by rw [hnext, hr, hbound])

theorem handleSDPMessage_binding (env : Vars) (m : Received) (s : Page) :
    Binding s (handleSDPMessage env m s) := by
  have hnote : Binding s (adoptSender env m (noteSDP m s)) := by
    cases adoptSender_binding env m (noteSDP m s) with
    | kept href hnext => exact .kept href hnext
    | bound hnext => exact .bound hnext
  rcases handleSDPMessage_cases env m s with
    ⟨-, h⟩ | ⟨pc, pc', -, -, ⟨h, -⟩ | ⟨sdp, d, -, -, h⟩⟩
  · rw [h]
    exact .of_queue rfl rfl rfl
  · rw [h]
    exact hnote.after rfl rfl rfl
  · rw [h]
    exact hnote.after rfl rfl rfl

/-- An arrival binds the sender of a candidate; what else it queues is no peer id. -/
theorem onmessage_binding (env : Vars) (data : Option Json) (s : Page) :
    Binding s (onmessage env data s) := by
  have ha := onmessage_cases env data s
  generalize onmessage env data s = t at ha
  cases ha with
  | uncaught => exact .of_queue rfl rfl rfl
  | @welcome j _ _ =>
      exact .kept rfl (by rw [next_enqueue]; rfl)
  | @unprintable j _ _ =>
      have hset : Binding s (enqueue (.setClientId (j.get "id")) (receive j s)) :=
        .kept rfl (by rw [next_enqueue]; rfl)
      exact hset.after rfl rfl rfl
  | @sdp j _ _ =>
      exact .kept rfl (by rw [next_enqueue]; rfl)
  | @candidate j _ _ _ =>
      have hadopt : Binding s (adoptSender env (s.arrival j) (receive j s)) := by
        cases adoptSender_binding env (s.arrival j) (receive j s) with
        | kept href hnext => exact .kept href hnext
        | bound hnext => exact .bound hnext
      rcases handleIceCandidateMessage_cases env (s.arrival j) (receive j s) with
        ⟨-, h⟩ | h | ⟨c, -, h⟩
      · rw [h]
        exact .of_queue rfl rfl rfl
      · rw [h]
        exact hadopt
      · rw [h]
        exact hadopt.after rfl rfl rfl
  | ignored => exact .of_queue rfl rfl rfl

/-! ## Effects -/

/-- The effects other than the first write both or neither. -/
theorem runEffect_binding {e : Effect} (he : e ≠ .syncPeerId) (s : Page) :
    Binding s (runEffect s e) := by
  cases e with
  | syncPeerId => exact absurd rfl he
  | mount =>
      refine .kept rfl ?_
      rw [runEffect, next_enqueue]
      rfl
  | processPendingSDP =>
      rcases processPendingSDP_cases s with ⟨h, -⟩ | ⟨m, -, -, h⟩
      · rw [h]
        exact .kept rfl rfl
      · rw [h]
        cases handleSDPMessage_binding s.vars m s with
        | kept href hnext => exact .kept href (by rw [next_enqueue]; exact hnext)
        | bound hnext => exact .bound (by rw [next_enqueue]; exact hnext)

/-- One effect: the first makes the ref agree, the others keep it so. -/
theorem runEffect_agrees (s : Page) (e : Effect) (hi : e = .syncPeerId ∨ Agrees s) :
    Agrees (runEffect s e) := by
  by_cases he : e = .syncPeerId
  · subst he
    exact fun _ => rfl
  · rcases hi with hsync | hi
    · exact absurd hsync he
    · exact (runEffect_binding he s).agrees (runEffect_vars s e) hi

/-- A flush that runs the first effect, or starts from a ref that agrees, ends with one
    that does. -/
theorem agrees_flush (es : List Effect) :
    ∀ s : Page, .syncPeerId ∈ es ∨ Agrees s → Agrees (es.foldl runEffect s) := by
  induction es with
  | nil =>
      intro s hi
      rcases hi with hmem | hi
      · cases hmem
      · exact hi
  | cons e es ih =>
      intro s hi
      refine ih (runEffect s e) ?_
      rcases hi with hmem | hi
      · rcases List.mem_cons.mp hmem with heq | hmem
        · exact Or.inr (runEffect_agrees s e (Or.inl heq.symm))
        · exact Or.inl hmem
      · exact Or.inr (runEffect_agrees s e (Or.inr hi))

/-! ## Every step keeps it -/

/-- A render that changes the peer id makes the effect due; one that does not finds the
    ref as it should be. -/
theorem catchesUp_render {s : Page} (he : s.effects = []) (hi : CatchesUp s) :
    CatchesUp { s with
      vars := s.next
      queue := []
      effects := changedEffects s.vars s.next } := by
  by_cases hsame : s.vars.peerId = s.next.peerId
  · right
    intro _
    rcases hi with hdue | hi
    · rw [he] at hdue
      cases hdue
    · show s.peerIdRef = s.next.peerId
      rw [← hsame]
      exact hi hsame.symm
  · left
    show Effect.syncPeerId ∈ changedEffects s.vars s.next
    simp [changedEffects, hsame]

theorem catchesUp_step {s s' : Page} {e : Event} (hi : CatchesUp s) (hc : RealEdit s e)
    (h : Step s e s') : CatchesUp s' := by
  cases h.frame with
  | render =>
      cases h with
      | render _ he => exact catchesUp_render he hi
  | flushEffects =>
      cases h with
      | flushEffects => exact Or.inr (agrees_flush s.effects { s with effects := [] } hi)
  | unmount =>
      cases h with
      | unmount => exact hi
  | message hsame =>
      cases h with
      | message => exact (onmessage_binding _ _ s).catchesUp hsame hi
  | edit =>
      cases h with
      | @edit _ v =>
          -- the next render will commit the edit, and the edit is no committed value
          right
          intro hsame
          rw [next_enqueue] at hsame
          exact absurd hsame (of_decide_eq_true hc)
  | handler _ hsame hinbox =>
      exact (Binding.kept hinbox.peerIdRef (hinbox.next hsame.vars).2.1).catchesUp hsame hi

theorem catchesUp_reachable {s : Page} (h : ReachVia page RealEdit s) : CatchesUp s := by
  refine ReachVia.invariant (fun s hs => ?_) (fun s e s' _ hi hc hst => ?_) h
  · subst hs
    exact Or.inr (fun _ => rfl)
  · exact catchesUp_step hi hc (step_cases hst)

/-- **THE REF CATCHES UP**: in every run whose edits change what the input shows, however
    edits, handlers, batched renders and effects interleave, the ref is the committed
    peer id as soon as nothing is queued and no effect is due. -/
theorem ref_catches_up {s : Page} (h : ReachVia page RealEdit s) (hq : Quiet s) :
    s.peerIdRef = s.vars.peerId := by
  obtain ⟨hqueue, heffects⟩ := hq
  rcases catchesUp_reachable h with hdue | hagrees
  · rw [heffects] at hdue
    cases hdue
  · refine hagrees ?_
    rw [Page.next, hqueue]
    rfl

/-- A candidate from `"x"` arrives while an offer from `"b"` waits in the slot, the user
    types `"c"` before anything is rendered, and later another candidate binds `"y"`. -/
def racingRun : List Event :=
  [.flushEffects, .render, .message (some (welcomeJson "a")),
   .message (some (.obj [("from", .str "b"), ("to", .str "a"), ("type", .str "offer")])),
   .message (some (.obj [("from", .str "x"), ("to", .str "a"), ("type", .str "candidate")])),
   .edit "c", .render, .flushEffects,
   .message (some (.obj [("from", .str "y"), ("to", .str "a"), ("type", .str "candidate")])),
   .render, .flushEffects, .render]

theorem ref_catches_up_sample :
    ∃ s, exec page .initial racingRun = some s ∧ s.vars.peerId = .str "y" ∧
      s.peerIdRef = s.vars.peerId := by
  have hrun : (execVia page realEdit .initial racingRun).any
      (fun s => decide (Quiet s) && decide (s.vars.peerId = .str "y")) = true := by
    decide +kernel
  obtain ⟨s, hs, hr, hp⟩ := ReachVia.of_check (C := RealEdit) (fun _ _ h => h)
    (show page.init .initial from rfl) hrun
  obtain ⟨hquiet, hpeer⟩ := Bool.and_eq_true_iff.mp hp
  exact ⟨s, hs, of_decide_eq_true hpeer, ref_catches_up hr (of_decide_eq_true hquiet)⟩

end CamPeerRef
