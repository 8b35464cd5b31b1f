import WebRtcCam.CamRoutingProofs

/-! # Clients that keep to themselves

    The relay has one registry and one server for everybody.  Take any set of clients
    whose frames are never relayed to a session outside the set.  To all other sessions it
    is as if these clients had never been there: leave out everything that happens at
    them, and what is left is a run of the relay, in which every other session is in the
    same state, has the same texts in its mailbox and on its socket, and is registered
    under the same id.

    They may still receive what the others send to them.

    * `Apart` — the two relays agree on the others;
    * `unseen`, `followed` — one step of theirs, one step of the others;
    * `run_apart` — the run without them. -/

namespace CamApart

open LtsRun CamWire CamRelay CamRouting

/-- The session an event happens at. -/
def sessionOf : Event → Addr
  | .connect a _ | .start a | .frame a _ | .serve a | .deliver a | .stop a => a

/-- The server is about to relay a frame of a hidden session to one that is not. -/
def reaches (H : Addr → Bool) (s : Relay) : Event → Bool
  | .serve a =>
      H a && ((s.actor a).bind (fun x => x.toServer.head?)).any (fun m =>
        match m with
        | .sendMessage dest _ => (s.sessions dest).any (fun b => !H b)
        | _ => false)
  | _ => false

/-- The two relays agree on the sessions that are not hidden. -/
structure Apart (H : Addr → Bool) (s t : Relay) : Prop where
  actor : ∀ b, H b = false → t.actor b = s.actor b
  sessions : ∀ id, t.sessions id = (s.sessions id).filter (fun b => !H b)
  issued : ∀ id ∈ t.issued, id ∈ s.issued
  handled : t.handled = s.handled.filter (fun p => !H p.1)

section Steps

variable {from_str : String → Option Message} {H : Addr → Bool} {s t s' : Relay} {a : Addr}
  {x z : WebSocketSession} {m : ServerMsg} {rest : List ServerMsg}

/-- A hidden session may become anything. -/
theorem Apart.setActor_left (h : Apart H s t) (ha : H a = true) :
    Apart H (setActor s a z) t where
  actor := fun b hb => by
    have hba : b ≠ a := by
      rintro rfl
      rw [ha] at hb
      cases hb
    rw [setActor_ne s z hba]
    exact h.actor b hb
  sessions := h.sessions
  issued := h.issued
  handled := h.handled

/-- Another session becomes the same on both sides. -/
theorem Apart.setActor_both (h : Apart H s t) : Apart H (setActor s a z) (setActor t a z) where
  actor := fun b hb => by
    by_cases hba : b = a
    · rw [hba, setActor_self, setActor_self]
    · rw [setActor_ne s z hba, setActor_ne t z hba]
      exact h.actor b hb
  sessions := h.sessions
  issued := h.issued
  handled := h.handled

theorem filter_hidden (ha : H a = true) : (some a).filter (fun b => !H b) = none := by
  rw [Option.filter_some, ha]
  rfl

theorem filter_shown (ha : H a = false) : (some a).filter (fun b => !H b) = some a := by
  rw [Option.filter_some, ha]
  rfl

/-- Nobody else is registered under the id of a session. -/
theorem own_entry (hr : Reachable (relay from_str) s) (hx : s.actor a = some x)
    {b : Addr} (hb : s.sessions x.id = some b) : b = a := by
  obtain ⟨y, hy, hid, -⟩ :=
    Registry.owner (pairFifo_reachable hr) (registry_reachable hr) hb
  exact (idsDistinct_reachable hr).inj b a y x hy hx hid

/-- The server handles a message of a hidden session. -/
theorem apart_serve_hidden (hr : Reachable (relay from_str) s) (h : Apart H s t)
    (ha : H a = true) (hx : s.actor a = some x) (hq : x.toServer = m :: rest)
    (hno : reaches H s (.serve a) = false) : Apart H (serveMsg s a x m rest) t where
  actor := fun b hb => by
    rw [serveMsg_actor hx, h.actor b hb]
    cases hy : s.actor b with
    | none => rfl
    | some y =>
        have hba : b ≠ a := by
          rintro rfl
          rw [ha] at hb
          cases hb
        -- nothing is put into its mailbox
        have hgift : gift s b y m = [] := by
          cases m with
          | sendMessage dest msg =>
              rw [gift, if_neg]
              rintro ⟨hdest, -⟩
              simp [reaches, ha, hx, hq, hdest, hb] at hno
          | _ => rfl
        rw [Option.map_some, afterServe, hgift, if_neg hba, List.append_nil]
  sessions := fun id => by
    rw [serveMsg_sessions, h.sessions]
    cases m with
    | registerSession i c =>
        obtain ⟨rfl, rfl, -⟩ := head_register (pairFifo_reachable hr) hx hq
        show _ = (Function.update s.sessions x.id (some c) id).filter _
        by_cases hid : id = x.id
        · rw [hid, Function.update_self, filter_hidden ha]
          cases hb : s.sessions x.id with
          | none => rfl
          | some b =>
              rw [own_entry hr hx hb]
              exact filter_hidden ha
        · rw [Function.update_of_ne hid]
    | unregisterSession i =>
        obtain ⟨rfl, -⟩ := head_unregister (pairFifo_reachable hr) hx hq
        show _ = (Function.update s.sessions x.id none id).filter _
        by_cases hid : id = x.id
        · rw [hid, Function.update_self]
          cases hb : s.sessions x.id with
          | none => rfl
          | some b =>
              rw [own_entry hr hx hb]
              exact filter_hidden ha
        · rw [Function.update_of_ne hid]
    | sendMessage dest msg => rfl
  issued := by
    rw [serveMsg_issued]
    exact h.issued
  handled := by
    rw [serveMsg_handled, h.handled, List.filter_append]
    simp [ha]

/-- The server handles a message of another session. -/
theorem apart_serve (hr : Reachable (relay from_str) s) (h : Apart H s t)
    (ha : H a = false) (hx : s.actor a = some x) (hq : x.toServer = m :: rest) :
    Apart H (serveMsg s a x m rest) (serveMsg t a x m rest) where
  actor := fun b hb => by
    have hxt : t.actor a = some x := by rw [h.actor a ha, hx]
    rw [serveMsg_actor hx, serveMsg_actor hxt, h.actor b hb]
    -- `b` is registered on both sides, or on none
    have hgift : ∀ y, gift t b y m = gift s b y m := by
      intro y
      cases m with
      | sendMessage dest msg =>
          have hiff : t.sessions dest = some b ↔ s.sessions dest = some b := by
            rw [h.sessions dest, Option.filter_eq_some_iff]
            exact ⟨fun hc => hc.1, fun hc => ⟨hc, by rw [hb]; rfl⟩⟩
          rw [gift, gift]
          simp only [hiff]
      | _ => rfl
    cases s.actor b with
    | none => rfl
    | some y => rw [Option.map_some, Option.map_some, afterServe, afterServe, hgift]
  sessions := fun id => by
    rw [serveMsg_sessions, serveMsg_sessions]
    cases m with
    | registerSession i c =>
        obtain ⟨rfl, rfl, -⟩ := head_register (pairFifo_reachable hr) hx hq
        show Function.update t.sessions x.id (some c) id
          = (Function.update s.sessions x.id (some c) id).filter _
        by_cases hid : id = x.id
        · rw [hid, Function.update_self, Function.update_self, filter_shown ha]
        · rw [Function.update_of_ne hid, Function.update_of_ne hid]
          exact h.sessions id
    | unregisterSession i =>
        show Function.update t.sessions i none id = (Function.update s.sessions i none id).filter _
        by_cases hid : id = i
        · rw [hid, Function.update_self, Function.update_self]
          rfl
        · rw [Function.update_of_ne hid, Function.update_of_ne hid]
          exact h.sessions id
    | sendMessage dest msg => exact h.sessions id
  issued := by
    rw [serveMsg_issued, serveMsg_issued]
    exact h.issued
  handled := by
    rw [serveMsg_handled, serveMsg_handled, h.handled, List.filter_append]
    simp [ha]

/-- Nothing a hidden session does is seen by the others, unless it reaches them. -/
theorem unseen : Unseen (relay from_str) (fun s e => !reaches H s e) (fun e => H (sessionOf e))
    (fun s t => Reachable (relay from_str) s ∧ Apart H s t) := by
  intro s t e s' ⟨hr, h⟩ hc ha hst
  refine ⟨.step hr trivial hst, ?_⟩
  cases step_cases hst with
  | @connect a id _ _ _ =>
      have hset := h.setActor_left (z := newSession id) ha
      exact ⟨hset.actor, hset.sessions,
        fun id hid => List.mem_cons_of_mem _ (hset.issued id hid), hset.handled⟩
  | start => exact h.setActor_left ha
  | frame => exact h.setActor_left ha
  | serve hx hq => exact apart_serve_hidden hr h ha hx hq (by simpa using hc)
  | deliver => exact h.setActor_left ha
  | stop => exact h.setActor_left ha

/-- What another session does, it does without the hidden ones as well. -/
theorem followed :
    Followed (relay from_str) (fun s e => !reaches H s e) (fun e => H (sessionOf e))
      (fun s t => Reachable (relay from_str) s ∧ Apart H s t) := by
  intro s t e s' ⟨hr, h⟩ _ ha hst
  have hr' : Reachable (relay from_str) s' := .step hr trivial hst
  cases step_cases hst with
  | @connect a id hx hid huuid =>
      have hnone : t.actor a = none := (h.actor a ha).trans hx
      refine ⟨{ setActor t a (newSession id) with issued := id :: t.issued }, ?_, hr', ?_⟩
      · show step from_str t (.connect a id) = _
        rw [step, if_pos ⟨by rw [hnone]; rfl, fun hm => hid (h.issued id hm), huuid⟩]
      · have hset := h.setActor_both (a := a) (z := newSession id)
        refine ⟨hset.actor, hset.sessions, fun i hi => ?_, hset.handled⟩
        rcases List.mem_cons.mp hi with rfl | hi
        · exact List.mem_cons_self ..
        · exact List.mem_cons_of_mem _ (h.issued i hi)
  | @start a x hx hp =>
      have hxt : t.actor a = some x := (h.actor a ha).trans hx
      refine ⟨_, ?_, hr', h.setActor_both⟩
      show step from_str t (.start a) = _
      simp only [step, hxt, if_pos hp]
  | @frame a x f hx hp =>
      have hxt : t.actor a = some x := (h.actor a ha).trans hx
      refine ⟨_, ?_, hr', h.setActor_both⟩
      show step from_str t (.frame a f) = _
      simp only [step, hxt, if_pos hp]
  | @serve a x m rest hx hq =>
      have hxt : t.actor a = some x := (h.actor a ha).trans hx
      refine ⟨_, ?_, hr', apart_serve hr h ha hx hq⟩
      show step from_str t (.serve a) = _
      simp only [step, hxt, hq]
  | @deliver a x u rest hx hp hm =>
      have hxt : t.actor a = some x := (h.actor a ha).trans hx
      refine ⟨_, ?_, hr', h.setActor_both⟩
      show step from_str t (.deliver a) = _
      simp only [step, hxt, if_pos hp, hm]
  | @stop a x hx hp =>
      have hxt : t.actor a = some x := (h.actor a ha).trans hx
      refine ⟨_, ?_, hr', h.setActor_both⟩
      show step from_str t (.stop a) = _
      simp only [step, hxt, if_pos hp]

end Steps

/-- **AS IF THEY WERE NOT THERE.**  Take any set of clients and any run of the relay in
    which the server relays no frame of theirs to anyone else.  Without everything that
    happens at them it is still a run of the relay, and it ends with every other session
    in the same state, registered as it was, and with the same messages of the others
    handled in the same order. -/
theorem run_apart {from_str : String → Option Message} (H : Addr → Bool) {es : List Event}
    {s : Relay} (h : execVia (relay from_str) (fun s e => !reaches H s e) initial es = some s) :
    ∃ t, exec (relay from_str) initial (purge (fun e => H (sessionOf e)) es) = some t ∧
      (∀ b, H b = false → t.actor b = s.actor b) ∧
      (∀ id, t.sessions id = (s.sessions id).filter (fun b => !H b)) ∧
      t.handled = s.handled.filter (fun p => !H p.1) := by
  have hstart : Reachable (relay from_str) initial ∧ Apart H initial initial :=
    ⟨.init rfl, fun _ _ => rfl, fun _ => rfl, fun _ hid => hid, rfl⟩
  obtain ⟨t, ht, -, hR⟩ := purge_run unseen followed es hstart h
  exact ⟨t, ht, hR.actor, hR.sessions, hR.handled⟩

/-- A third client comes, writes to itself and to nobody, and leaves, while the first two
    talk. -/
def crowdedRun : List Event :=
  [.connect 0 "a", .connect 2 "c", .connect 1 "b", .start 0, .start 2, .start 1, .serve 1,
    .serve 2, .serve 0, .frame 2 (some (.text "\x7b\"from\":\"c\",\"to\":\"nobody\"\x7d")),
    .frame 0 (some (.text "\x7b\"from\":\"a\",\"to\":\"b\"\x7d")), .serve 2, .serve 0,
    .frame 2 (some (.text "\x7b\"from\":\"c\",\"to\":\"c\"\x7d")), .serve 2, .deliver 2,
    .deliver 1, .stop 2, .serve 2]

theorem run_apart_sample :
    ∃ s t : Relay, exec (relay CamWire.from_str) initial crowdedRun = some s ∧
      exec (relay CamWire.from_str) initial
        [.connect 0 "a", .connect 1 "b", .start 0, .start 1, .serve 1, .serve 0,
          .frame 0 (some (.text "\x7b\"from\":\"a\",\"to\":\"b\"\x7d")), .serve 0,
          .deliver 1] = some t ∧
      (s.actor 1).map (fun y => y.socket.length) = some 2 ∧ t.actor 1 = s.actor 1 := by
  have hrun : (execVia (relay CamWire.from_str) (fun s e => !reaches (fun a => a = 2) s e)
      initial crowdedRun).any (fun s =>
        decide ((s.actor 1).map (fun y => y.socket.length) = some 2)) = true := by
    decide +kernel
  obtain ⟨s, hs, hlen⟩ := (Option.any_eq_true _ _).mp hrun
  obtain ⟨t, ht, hactor, -, -⟩ := run_apart (fun a => a = 2) hs
  exact ⟨s, t, exec_of_execVia _ hs, ht, of_decide_eq_true hlen, hactor 1 (by decide)⟩

end CamApart
