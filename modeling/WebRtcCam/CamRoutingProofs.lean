import WebRtcCam.CamRelayProofs

/-! # Exact routing and the registry

    Two results about every run of the relay, both read off the pair queues
    (`PairFifo`):

    * the registry is what the handled register and unregister messages make it,
      and never names anyone but the session whose id the key is;
    * the texts on a session's socket and in its mailbox are its welcome and then
      exactly what was sent to it while it was registered.

    `replay` recomputes, from the log of handled messages alone, whether an id is
    registered and which texts it has been sent meanwhile. -/

namespace CamRouting

open LtsRun CamWire CamRelay

/-! ## Reading the log -/

/-- One handled message, as the session named `id` sees it. -/
def replayStep (id : String) (st : Bool × List String) (p : Addr × ServerMsg) :
    Bool × List String :=
  match p.2 with
  | .registerSession i _ => if i = id then (true, st.2) else st
  | .unregisterSession i => if i = id then (false, st.2) else st
  | .sendMessage dest msg =>
      if dest = id ∧ st.1 = true then (st.1, st.2 ++ [msg]) else st

/-- Whether `id` is registered after the log `h`, and the texts of the
    `SendMessage`s to it that were handled while it was. -/
def replay (id : String) (h : List (Addr × ServerMsg)) : Bool × List String :=
  h.foldl (replayStep id) (false, [])

/-- The texts handled for `id` while it was registered, in order. -/
def relayedTo (id : String) (h : List (Addr × ServerMsg)) : List String :=
  (replay id h).2

/-- The `SendMessage`s handled from session `a`, as recipient and text. -/
def sentFrom (a : Addr) (h : List (Addr × ServerMsg)) : List (String × String) :=
  (handledFrom a h).filterMap (fun m =>
    match m with
    | .sendMessage dest msg => some (dest, msg)
    | _ => none)

@[simp] theorem replay_append (id : String) (h : List (Addr × ServerMsg))
    (p : Addr × ServerMsg) :
    replay id (h ++ [p]) = replayStep id (replay id h) p := by
  simp [replay]

/-- An id nobody registered has been sent nothing. -/
theorem replay_unregistered {id : String} (h : List (Addr × ServerMsg))
    (hno : ∀ a b, (a, ServerMsg.registerSession id b) ∉ h) :
    replay id h = (false, []) := by
  induction h using List.reverseRecOn with
  | nil => rfl
  | append_singleton h p ih =>
      have hih := ih (fun a b hm => hno a b (List.mem_append_left _ hm))
      obtain ⟨a, m⟩ := p
      rw [replay_append, hih]
      cases m with
      | registerSession i b =>
          have hne : i ≠ id := by
            rintro rfl
            exact hno a b (List.mem_append_right _ (List.mem_singleton.mpr rfl))
          simp [replayStep, hne]
      | unregisterSession i => simp [replayStep]
      | sendMessage dest msg => simp [replayStep]

/-- Every text handled for `id` came in a `SendMessage` to `id`. -/
theorem mem_relayedTo {id t : String} {h : List (Addr × ServerMsg)}
    (ht : t ∈ relayedTo id h) : ∃ a, (a, ServerMsg.sendMessage id t) ∈ h := by
  induction h using List.reverseRecOn with
  | nil => exact nomatch ht
  | append_singleton h p ih =>
      obtain ⟨a, m⟩ := p
      have hold : t ∈ relayedTo id h →
          ∃ b, (b, ServerMsg.sendMessage id t) ∈ h ++ [(a, m)] := by
        intro hm
        obtain ⟨b, hb⟩ := ih hm
        exact ⟨b, List.mem_append_left _ hb⟩
      rw [relayedTo] at ht hold
      rw [replay_append] at ht
      cases m with
      | registerSession i b =>
          simp only [replayStep] at ht
          split at ht <;> exact hold ht
      | unregisterSession i =>
          simp only [replayStep] at ht
          split at ht <;> exact hold ht
      | sendMessage dest msg =>
          simp only [replayStep] at ht
          split at ht
          · next hc =>
              rcases List.mem_append.mp ht with hm | hm
              · exact hold hm
              · rw [List.mem_singleton] at hm
                rw [hm, ← hc.1]
                exact ⟨a, List.mem_append_right _ (List.mem_singleton.mpr rfl)⟩
          · exact hold ht

/-! ## What the pair queues say about single messages -/

section Log

variable {from_str : String → Option Message} {s : Relay}

/-- Only a session itself registers itself, and only once started. -/
theorem handled_register (hf : PairFifo from_str s) {a b : Addr} {id : String}
    (hm : (a, ServerMsg.registerSession id b) ∈ s.handled) :
    b = a ∧ ∃ x, s.actor a = some x ∧ x.id = id ∧ x.phase ≠ .created := by
  cases hx : s.actor a with
  | none =>
      have hnil := hf.absent a hx
      rw [← mem_handledFrom, hnil] at hm
      exact nomatch hm
  | some x =>
      have hmem : ServerMsg.registerSession id b ∈ emitted from_str a x := by
        rw [← hf.fifo a x hx]
        exact List.mem_append_left _ (mem_handledFrom.mpr hm)
      cases hp : x.phase <;> simp [emitted, hp, relayOf] at hmem ⊢
      · exact ⟨hmem.2, hmem.1.symm⟩
      · exact ⟨hmem.2, hmem.1.symm⟩

/-- Only a session itself unregisters itself, as the last thing it does. -/
theorem handled_unregister (hf : PairFifo from_str s) {a : Addr} {id : String}
    (hm : (a, ServerMsg.unregisterSession id) ∈ s.handled) :
    ∃ x, s.actor a = some x ∧ x.id = id ∧ x.phase = .stopped := by
  cases hx : s.actor a with
  | none =>
      have hnil := hf.absent a hx
      rw [← mem_handledFrom, hnil] at hm
      exact nomatch hm
  | some x =>
      have hmem : ServerMsg.unregisterSession id ∈ emitted from_str a x := by
        rw [← hf.fifo a x hx]
        exact List.mem_append_left _ (mem_handledFrom.mpr hm)
      cases hp : x.phase <;> simp [emitted, hp, relayOf] at hmem ⊢
      exact hmem.symm

/-- A session asks for what it received and could decode, under the decoded
    recipient. -/
theorem emitted_send {a : Addr} {x : WebSocketSession} {dest t : String}
    (h : ServerMsg.sendMessage dest t ∈ emitted from_str a x) :
    t ∈ x.received ∧ ∃ m, from_str t = some m ∧ m.to = dest := by
  have hmem : ServerMsg.sendMessage dest t
      ∈ x.received.filterMap (relayOf from_str) := by
    cases hp : x.phase <;> simp only [emitted, hp] at h
    · cases h
    · simpa using h
    · simpa using h
  obtain ⟨u, hu, hr⟩ := List.mem_filterMap.mp hmem
  obtain ⟨m, hdec, heq⟩ := Option.map_eq_some_iff.mp hr
  injection heq with h1 h2
  subst h2
  exact ⟨hu, m, hdec, h1⟩

/-- What a session sends on is a text it received, with the decoded recipient. -/
theorem handled_send (hf : PairFifo from_str s) {a : Addr} {dest t : String}
    (hm : (a, ServerMsg.sendMessage dest t) ∈ s.handled) :
    ∃ x, s.actor a = some x ∧ t ∈ x.received ∧
      ∃ m, from_str t = some m ∧ m.to = dest := by
  cases hx : s.actor a with
  | none =>
      have hnil := hf.absent a hx
      rw [← mem_handledFrom, hnil] at hm
      exact nomatch hm
  | some x =>
      have hmem : ServerMsg.sendMessage dest t ∈ emitted from_str a x := by
        rw [← hf.fifo a x hx]
        exact List.mem_append_left _ (mem_handledFrom.mpr hm)
      exact ⟨x, rfl, emitted_send hmem⟩

/-- The messages of the head of a pair queue: a register is the first thing a
    session sends. -/
theorem head_register (hf : PairFifo from_str s) {a b : Addr} {id : String}
    {x : WebSocketSession} {rest : List ServerMsg} (hx : s.actor a = some x)
    (hq : x.toServer = .registerSession id b :: rest) :
    id = x.id ∧ b = a ∧ handledFrom a s.handled = [] := by
  have he := hf.fifo a x hx
  rw [hq] at he
  cases hh : handledFrom a s.handled with
  | nil =>
      rw [hh, List.nil_append] at he
      cases hp : x.phase <;> simp [emitted, hp] at he
      · exact ⟨he.1.1, he.1.2, rfl⟩
      · exact ⟨he.1.1, he.1.2, rfl⟩
  | cons m ms =>
      exfalso
      rw [hh, List.cons_append] at he
      have htail : ServerMsg.registerSession id b ∈ (emitted from_str a x).tail := by
        rw [← he]
        simp
      cases hp : x.phase <;> simp [emitted, hp, relayOf] at htail

/-- An unregister is sent with the session's own id. -/
theorem head_unregister (hf : PairFifo from_str s) {a : Addr} {id : String}
    {x : WebSocketSession} {rest : List ServerMsg} (hx : s.actor a = some x)
    (hq : x.toServer = .unregisterSession id :: rest) :
    id = x.id ∧ ServerMsg.registerSession x.id a ∈ handledFrom a s.handled := by
  have he := hf.fifo a x hx
  rw [hq] at he
  have hmem : ServerMsg.unregisterSession id ∈ emitted from_str a x := by
    rw [← he]
    simp
  have hid : id = x.id := by
    cases hp : x.phase <;> simp [emitted, hp, relayOf] at hmem
    exact hmem
  refine ⟨hid, ?_⟩
  cases hh : handledFrom a s.handled with
  | nil =>
      rw [hh, List.nil_append] at he
      cases hp : x.phase <;> simp [emitted, hp] at he
  | cons m ms =>
      rw [hh, List.cons_append] at he
      cases hp : x.phase <;> simp [emitted, hp] at he
      · rw [he.1]
        exact List.mem_cons_self ..
      · rw [he.1]
        exact List.mem_cons_self ..

end Log

/-! ## The registry -/

section Registry

variable {from_str : String → Option Message}

/-- The registry is what the handled messages make it. -/
structure Registry (s : Relay) : Prop where
  entry : ∀ id b, s.sessions id = some b ↔
    (b, ServerMsg.registerSession id b) ∈ s.handled ∧
      (b, ServerMsg.unregisterSession id) ∉ s.handled
  present : ∀ id, (replay id s.handled).1 = (s.sessions id).isSome

/-- Steps other than `serve` leave the registry and the log alone. -/
theorem Step.registry_eq {s s' : Relay} {e : Event}
    (h : Step from_str s e s') :
    (s'.sessions = s.sessions ∧ s'.handled = s.handled) ∨ ∃ a, e = .serve a := by
  cases h with
  | serve => exact Or.inr ⟨_, rfl⟩
  | _ => exact Or.inl ⟨rfl, rfl⟩

theorem registry_serve {s : Relay} {a : Addr} {x : WebSocketSession}
    {m : ServerMsg} {rest : List ServerMsg} (hd : IdsDistinct s)
    (hf : PairFifo from_str s) (hr : Registry s) (hx : s.actor a = some x)
    (hq : x.toServer = m :: rest) : Registry (serveMsg s a x m rest) := by
  -- a registered id is the id of the session it points to
  have hown : ∀ b id, (b, ServerMsg.registerSession id b) ∈ s.handled →
      id = x.id → b = a := by
    intro b id hb hid
    obtain ⟨-, y, hy, hyid, -⟩ := handled_register hf hb
    exact hd.inj b a y x hy hx (hyid.trans hid)
  constructor
  · intro id b
    rw [serveMsg_sessions, serveMsg_handled]
    cases m with
    | registerSession i c =>
        obtain ⟨hi, hc, hnil⟩ := head_register hf hx hq
        subst hi hc
        have hnone : ∀ n, (c, n) ∉ s.handled := by
          intro n hn
          rw [← mem_handledFrom, hnil] at hn
          exact nomatch hn
        by_cases hid : id = x.id
        · subst hid
          simp only [Function.update_self, List.mem_append, List.mem_singleton]
          constructor
          · intro hb
            cases hb
            exact ⟨Or.inr rfl, fun hu => hu.elim (hnone _) (fun h => nomatch h)⟩
          · rintro ⟨hb | hb, -⟩
            · rw [hown b _ hb rfl]
            · cases hb
              rfl
        · simp [hr.entry id b, hid]
    | unregisterSession i =>
        obtain ⟨hi, -⟩ := head_unregister hf hx hq
        subst hi
        by_cases hid : id = x.id
        · subst hid
          simp only [Function.update_self, List.mem_append, List.mem_singleton,
            reduceCtorEq, false_iff]
          rintro ⟨hb | hb, hu⟩
          · have hba := hown b _ hb rfl
            subst hba
            exact hu (Or.inr rfl)
          · exact nomatch hb
        · simp [hr.entry id b, hid]
    | sendMessage dest msg => simp [hr.entry id b]
  · intro id
    rw [serveMsg_sessions, serveMsg_handled, replay_append]
    have hp := hr.present id
    cases m with
    | registerSession i c =>
        by_cases hid : id = i
        · subst hid
          simp [replayStep]
        · simp [replayStep, Ne.symm hid, Function.update_of_ne hid, hp]
    | unregisterSession i =>
        by_cases hid : id = i
        · subst hid
          simp [replayStep]
        · simp [replayStep, Ne.symm hid, Function.update_of_ne hid, hp]
    | sendMessage dest msg =>
        simp only [replayStep]
        split <;> exact hp

theorem registry_step {s s' : Relay} {e : Event} (hd : IdsDistinct s)
    (hf : PairFifo from_str s) (hr : Registry s) (h : Step from_str s e s') :
    Registry s' := by
  rcases Step.registry_eq h with ⟨h1, h2⟩ | ⟨a, rfl⟩
  · exact ⟨by rw [h1, h2]; exact hr.entry, by rw [h1, h2]; exact hr.present⟩
  · cases h with
    | serve hx hq => exact registry_serve hd hf hr hx hq

theorem registry_reachable {s : Relay} (h : Reachable (relay from_str) s) :
    Registry s := by
  refine ReachVia.invariant (fun s hs => ?_) (fun s e s' hre hr _ hst => ?_) h
  · subst hs
    exact ⟨fun _ _ => by simp [initial], fun _ => rfl⟩
  · exact registry_step (idsDistinct_reachable hre) (pairFifo_reachable hre) hr
      (step_cases hst)

/-- The registry in terms of the sessions: a key is the id of the session it
    points to, which has started. -/
theorem Registry.owner {s : Relay} (hf : PairFifo from_str s) (hr : Registry s)
    {id : String} {b : Addr} (h : s.sessions id = some b) :
    ∃ x, s.actor b = some x ∧ x.id = id ∧ x.phase ≠ .created := by
  obtain ⟨-, x, hx, hid, hp⟩ := handled_register hf ((hr.entry id b).mp h).1
  exact ⟨x, hx, hid, hp⟩

/-- The log only grows. -/
theorem Step.handled_mono {s s' : Relay} {e : Event}
    (h : Step from_str s e s') {p : Addr × ServerMsg} (hp : p ∈ s.handled) :
    p ∈ s'.handled := by
  cases h with
  | serve =>
      rw [serveMsg_handled]
      exact List.mem_append_left _ hp
  | _ => exact hp

theorem Later.handled_mono {s t : Relay} (h : Later (relay from_str) s t)
    {p : Addr × ServerMsg} (hp : p ∈ s.handled) : p ∈ t.handled :=
  LaterVia.preserves (I := fun u => p ∈ u.handled)
    (fun _ _ _ hu _ hst => Step.handled_mono (step_cases hst) hu) h hp

/-- A key that went was unregistered. -/
theorem unregistered_of_gone {s t : Relay} (hs : Reachable (relay from_str) s)
    (hst : Later (relay from_str) s t) {id : String} {b : Addr}
    (hin : s.sessions id = some b) (hout : t.sessions id = none) :
    (b, ServerMsg.unregisterSession id) ∈ t.handled := by
  have hreg : (b, ServerMsg.registerSession id b) ∈ t.handled :=
    Later.handled_mono hst (((registry_reachable hs).entry id b).mp hin).1
  by_contra hno
  have hsome := ((registry_reachable (LaterVia.reachable hst hs)).entry id b).mpr ⟨hreg, hno⟩
  rw [hout] at hsome
  exact nomatch hsome

/-- What the server handled from `a` up to some moment is what it handled from
    `a` before, then what came after. -/
theorem handledFrom_append (a : Addr) (h k : List (Addr × ServerMsg)) :
    handledFrom a (h ++ k) = handledFrom a h ++ handledFrom a k := by
  simp [handledFrom]

/-- A session's texts are handled after its registration. -/
theorem register_before_send {s : Relay} (hf : PairFifo from_str s) {a : Addr}
    {dest t : String} {pre post : List (Addr × ServerMsg)}
    (hh : s.handled = pre ++ (a, .sendMessage dest t) :: post) :
    ∃ x, s.actor a = some x ∧ (a, .registerSession x.id a) ∈ pre := by
  have hm : (a, ServerMsg.sendMessage dest t) ∈ s.handled := by
    rw [hh]
    simp
  obtain ⟨x, hx, -, -⟩ := handled_send hf hm
  refine ⟨x, hx, ?_⟩
  have he := hf.fifo a x hx
  rw [hh, show pre ++ (a, ServerMsg.sendMessage dest t) :: post
    = (pre ++ [(a, .sendMessage dest t)]) ++ post by simp, handledFrom_append,
    handledFrom_self] at he
  rw [← mem_handledFrom]
  cases hp : handledFrom a pre with
  | nil =>
      rw [hp] at he
      cases hph : x.phase <;> simp [emitted, hph] at he
  | cons m ms =>
      rw [hp] at he
      cases hph : x.phase <;> simp [emitted, hph] at he
      · rw [he.1]
        exact List.mem_cons_self ..
      · rw [he.1]
        exact List.mem_cons_self ..

/-- A key whose unregister has been handled is not in the registry: whoever unregisters
    an id is the session it belongs to. -/
theorem gone_of_unregistered {s : Relay} (h : Reachable (relay from_str) s) {a : Addr}
    {id : String} (hm : (a, ServerMsg.unregisterSession id) ∈ s.handled) :
    s.sessions id = none := by
  have hf := pairFifo_reachable h
  have hr := registry_reachable h
  cases hb : s.sessions id with
  | none => rfl
  | some b =>
      obtain ⟨x, hx, hxid, -⟩ := handled_unregister hf hm
      obtain ⟨y, hy, hyid, -⟩ := hr.owner hf hb
      have hab : a = b := (idsDistinct_reachable h).inj a b x y hx hy (hxid.trans hyid.symm)
      rw [hab] at hm
      exact absurd hm ((hr.entry id b).mp hb).2

/-- With nothing on its way to the server, the keys are the running sessions. -/
theorem keys_of_idle {s : Relay} (hf : PairFifo from_str s)
    (hr : Registry s) (hidle : ∀ a x, s.actor a = some x → x.toServer = [])
    (id : String) :
    (s.sessions id).isSome = true ↔
      ∃ a x, s.actor a = some x ∧ x.id = id ∧ x.phase = .running := by
  have hall : ∀ a x, s.actor a = some x →
      handledFrom a s.handled = emitted from_str a x := by
    intro a x hx
    have he := hf.fifo a x hx
    rwa [hidle a x hx, List.append_nil] at he
  constructor
  · intro hsome
    obtain ⟨b, hb⟩ := Option.isSome_iff_exists.mp hsome
    obtain ⟨x, hx, hid, hp⟩ := hr.owner hf hb
    refine ⟨b, x, hx, hid, ?_⟩
    have hno := ((hr.entry id b).mp hb).2
    rw [← mem_handledFrom, hall b x hx] at hno
    cases hph : x.phase with
    | created => exact absurd hph hp
    | running => rfl
    | stopped => simp [emitted, hph, hid] at hno
  · rintro ⟨a, x, hx, hid, hp⟩
    have hem := hall a x hx
    have hin : s.sessions id = some a := by
      rw [hr.entry id a, ← mem_handledFrom, ← mem_handledFrom, hem]
      simp [emitted, hp, hid, relayOf]
    rw [hin]
    rfl

/-- **THE REGISTRY INVARIANT.**  In every reachable state of the relay: an entry
    points to the session whose id is its key; a key is present exactly when its
    registration has been handled and its removal has not; a key once gone never
    comes back; a session's messages are handled after its own registration;
    frames of any kind, and messages to unknown recipients, leave the registry
    alone; and when nothing is on its way to the server the keys are the ids of
    the sessions that have started and not begun stopping. -/
theorem registry_tracks_sessions {s : Relay}
    (h : Reachable (relay from_str) s) :
    (∀ id b, s.sessions id = some b → ∃ x, s.actor b = some x ∧ x.id = id) ∧
    (∀ id, (s.sessions id).isSome = true ↔
      (∃ a, (a, ServerMsg.registerSession id a) ∈ s.handled) ∧
        ∀ a, (a, ServerMsg.unregisterSession id) ∉ s.handled) ∧
    (∀ id t u, Later (relay from_str) s t → Later (relay from_str) t u →
      s.sessions id ≠ none → t.sessions id = none → u.sessions id = none) ∧
    (∀ a dest msg pre post,
      s.handled = pre ++ (a, ServerMsg.sendMessage dest msg) :: post →
      ∃ x, s.actor a = some x ∧ (a, ServerMsg.registerSession x.id a) ∈ pre) ∧
    (∀ a f s', step from_str s (.frame a f) = some s' →
      s'.sessions = s.sessions) ∧
    (∀ a x dest msg rest, s.actor a = some x →
      x.toServer = .sendMessage dest msg :: rest → s.sessions dest = none →
      ∃ s', step from_str s (.serve a) = some s' ∧ s'.sessions = s.sessions) ∧
    ((∀ a x, s.actor a = some x → x.toServer = []) →
      ∀ id, (s.sessions id).isSome = true ↔
        ∃ a x, s.actor a = some x ∧ x.id = id ∧ x.phase = .running) := by
  have hf := pairFifo_reachable h
  have hr := registry_reachable h
  refine ⟨?_, ?_, ?_, ?_, ?_, ?_, ?_⟩
  · intro id b hb
    obtain ⟨x, hx, hid, -⟩ := hr.owner hf hb
    exact ⟨x, hx, hid⟩
  · intro id
    rw [Option.isSome_iff_exists]
    constructor
    · rintro ⟨b, hb⟩
      obtain ⟨hreg, -⟩ := (hr.entry id b).mp hb
      refine ⟨⟨b, hreg⟩, fun a hu => ?_⟩
      have hgone := gone_of_unregistered h hu
      rw [hb] at hgone
      cases hgone
    · rintro ⟨⟨a, hreg⟩, hno⟩
      exact ⟨a, (hr.entry id a).mpr ⟨hreg, hno a⟩⟩
  · intro id t u hst htu hin hout
    obtain ⟨b, hb⟩ := Option.ne_none_iff_exists'.mp hin
    have hu := Later.handled_mono htu (unregistered_of_gone h hst hb hout)
    exact gone_of_unregistered (LaterVia.reachable htu (LaterVia.reachable hst h)) hu
  · intro a dest msg pre post hh
    exact register_before_send hf hh
  · intro a f s' hst
    rcases Step.registry_eq (step_cases hst) with ⟨h1, -⟩ | ⟨b, hb⟩
    · exact h1
    · exact nomatch hb
  · intro a x dest msg rest hx hq _
    refine ⟨serveMsg s a x (.sendMessage dest msg) rest, ?_, ?_⟩
    · simp only [step, hx, hq]
    · rw [serveMsg_sessions]
  · intro hidle id
    exact keys_of_idle hf hr hidle id

end Registry

/-- A decoder that reads one text, the way `serde_json` does. -/
def sampleDecode (t : String) : Option Message :=
  if t = "\x7b\"from\":\"a\",\"to\":\"b\"\x7d" then some ⟨"a", "b", none, none⟩
  else none

/-- Two sessions connect, the first one sends the second a text and leaves. -/
def sampleRun : List Event :=
  [.connect 0 "a", .connect 1 "b", .start 0, .start 1, .serve 1, .serve 0,
    .frame 0 (some (.text "\x7b\"from\":\"a\",\"to\":\"b\"\x7d")), .serve 0,
    .deliver 1, .stop 0, .serve 0]

/-- The state after `sampleRun`. -/
def sampleState : Relay :=
  (exec (relay sampleDecode) initial sampleRun).getD initial

theorem sampleState_reachable : Reachable (relay sampleDecode) sampleState := by
  have hsome : (exec (relay sampleDecode) initial sampleRun).isSome = true := by
    decide
  have hrun : exec (relay sampleDecode) initial sampleRun = some sampleState := by
    rw [sampleState, Option.getD_of_ne_none (Option.isSome_iff_ne_none.mp hsome)]
  exact Reachable.of_exec rfl hrun

/-- The registry invariant at a run with a departure: only the second session is
    left in the registry. -/
theorem registry_tracks_sessions_sample :
    sampleState.sessions "a" = none ∧ sampleState.sessions "b" = some 1 ∧
      ∃ x, sampleState.actor 1 = some x ∧ x.id = "b" := by
  have hb : sampleState.sessions "b" = some 1 := by decide
  exact ⟨by decide, hb,
    (registry_tracks_sessions sampleState_reachable).1 "b" 1 hb⟩

/-! ## Delivery -/

section Delivery

variable {from_str : String → Option Message}

/-- The texts a session ever gets to write: its welcome, once started, and what
    was handled for it while it was registered. -/
def expected (y : WebSocketSession) (h : List (Addr × ServerMsg)) : List String :=
  (if y.phase = .created then [] else [welcomeText y.id]) ++ relayedTo y.id h

/-- Socket and mailbox of every session account for its expected texts. -/
structure Delivery (s : Relay) : Prop where
  live : ∀ b y, s.actor b = some y → y.phase ≠ .stopped →
    y.socket ++ y.mailbox = expected y s.handled
  gone : ∀ b y, s.actor b = some y → y.socket <+: expected y s.handled

/-- A session that has not started has been sent nothing. -/
theorem relayedTo_created {s : Relay} (hd : IdsDistinct s)
    (hf : PairFifo from_str s) {b : Addr} {y : WebSocketSession}
    (hy : s.actor b = some y) (hp : y.phase = .created) :
    relayedTo y.id s.handled = [] := by
  have hrep : replay y.id s.handled = (false, []) := by
    refine replay_unregistered _ (fun a c hm => ?_)
    obtain ⟨-, x, hx, hid, hne⟩ := handled_register hf hm
    have hab := hd.inj a b x y hx hy hid
    subst hab
    have hxy : x = y := Option.some.inj (hx.symm.trans hy)
    subst hxy
    exact hne hp
  rw [relayedTo, hrep]

/-- An id that was never drawn has been sent nothing. -/
theorem relayedTo_fresh {s : Relay} (hd : IdsDistinct s)
    (hf : PairFifo from_str s) {id : String} (hid : id ∉ s.issued) :
    relayedTo id s.handled = [] := by
  have hrep : replay id s.handled = (false, []) := by
    refine replay_unregistered _ (fun a c hm => ?_)
    obtain ⟨-, x, hx, hxid, -⟩ := handled_register hf hm
    rw [← hxid] at hid
    exact hid (hd.issued a x hx)
  rw [relayedTo, hrep]

/-- What handling `m` adds to the texts of session `b` is what it adds to the
    mailbox of `b`, unless `b` has stopped. -/
theorem relayedTo_serve {s : Relay} (hd : IdsDistinct s)
    (hf : PairFifo from_str s) (hr : Registry s) {b a : Addr}
    {y : WebSocketSession} (hy : s.actor b = some y) (m : ServerMsg) :
    (y.phase ≠ .stopped → relayedTo y.id (s.handled ++ [(a, m)])
      = relayedTo y.id s.handled ++ gift s b y m) ∧
    relayedTo y.id s.handled <+: relayedTo y.id (s.handled ++ [(a, m)]) := by
  simp only [relayedTo]
  rw [replay_append]
  cases m with
  | registerSession i c =>
      simp only [replayStep, gift, List.append_nil]
      split <;> exact ⟨fun _ => rfl, List.prefix_refl _⟩
  | unregisterSession i =>
      simp only [replayStep, gift, List.append_nil]
      split <;> exact ⟨fun _ => rfl, List.prefix_refl _⟩
  | sendMessage dest msg =>
      -- registered under its own id means registered with its own address
      have haddr : s.sessions dest = some b ↔
          dest = y.id ∧ (replay y.id s.handled).1 = true := by
        rw [hr.present y.id, Option.isSome_iff_exists]
        constructor
        · intro hb
          obtain ⟨z, hz, hzid, -⟩ := hr.owner hf hb
          have hzy : z = y := Option.some.inj (hz.symm.trans hy)
          subst hzy
          exact ⟨hzid.symm, b, by rw [hzid]; exact hb⟩
        · rintro ⟨rfl, c, hc⟩
          obtain ⟨z, hz, hzid, -⟩ := hr.owner hf hc
          have hcb := hd.inj c b z y hz hy hzid
          rwa [hcb] at hc
      simp only [replayStep, gift, haddr]
      by_cases hc : dest = y.id ∧ (replay y.id s.handled).1 = true
      · rw [if_pos hc]
        refine ⟨fun hp => ?_, List.prefix_append ..⟩
        rw [if_pos ⟨hc, hp⟩]
      · rw [if_neg hc]
        refine ⟨fun _ => ?_, List.prefix_refl _⟩
        rw [if_neg (fun h => hc h.1), List.append_nil]

/-- A step that writes one actor keeps delivery if that actor accounts for its
    own texts. -/
theorem delivery_local {s : Relay} {a : Addr} {z : WebSocketSession}
    (hi : Delivery s)
    (hlive : z.phase ≠ .stopped → z.socket ++ z.mailbox = expected z s.handled)
    (hgone : z.socket <+: expected z s.handled) :
    Delivery (setActor s a z) := by
  constructor
  · intro b y hy hp
    by_cases hba : b = a
    · subst hba
      rw [setActor_self] at hy
      cases hy
      exact hlive hp
    · rw [setActor_ne s z hba] at hy
      exact hi.live b y hy hp
  · intro b y hy
    by_cases hba : b = a
    · subst hba
      rw [setActor_self] at hy
      cases hy
      exact hgone
    · rw [setActor_ne s z hba] at hy
      exact hi.gone b y hy

theorem delivery_step {s s' : Relay} {e : Event} (hd : IdsDistinct s)
    (hf : PairFifo from_str s) (hr : Registry s) (hi : Delivery s)
    (h : Step from_str s e s') : Delivery s' := by
  cases h with
  | @connect a id hn hfr _ =>
      have hnil := relayedTo_fresh hd hf hfr
      have hset : Delivery (setActor s a (newSession id)) :=
        delivery_local hi (fun _ => by simp [newSession, expected, hnil])
          (by simp [newSession])
      exact ⟨hset.live, hset.gone⟩
  | @start a x hx hp =>
      have hnil := relayedTo_created hd hf hx hp
      have hl := hi.live a x hx (by rw [hp]; intro hc; cases hc)
      simp only [expected, hp, if_true, hnil, List.append_eq_nil_iff,
        List.nil_append] at hl
      exact delivery_local hi (fun _ => by simp [started, expected, hl, hnil])
        (by simp [started, expected, hl])
  | @frame a x f hx hp =>
      have hl := hi.live a x hx (by rw [hp]; intro hc; cases hc)
      have hg := hi.gone a x hx
      have hkeep : Delivery (setActor s a x) :=
        delivery_local hi (fun _ => hl) hg
      cases f with
      | none => exact hkeep
      | some w =>
          cases w with
          | text t => exact delivery_local hi (fun _ => hl) hg
          | _ => exact hkeep
  | @serve a x m rest hx hq =>
      constructor
      · intro b y' hy' hp
        obtain ⟨y, hy, rfl⟩ := serveMsg_actor_some hx hy'
        rw [serveMsg_handled]
        have hl := hi.live b y hy hp
        show y.socket ++ (y.mailbox ++ gift s b y m)
          = (if y.phase = .created then [] else [welcomeText y.id])
            ++ relayedTo y.id (s.handled ++ [(a, m)])
        rw [(relayedTo_serve hd hf hr hy m).1 hp, ← List.append_assoc, hl,
          expected, List.append_assoc]
      · intro b y' hy'
        obtain ⟨y, hy, rfl⟩ := serveMsg_actor_some hx hy'
        rw [serveMsg_handled]
        refine (hi.gone b y hy).trans ?_
        exact (List.prefix_append_right_inj _).mpr
          (relayedTo_serve hd hf hr hy m).2
  | @deliver a x t rest hx hp hm =>
      have hl := hi.live a x hx (by rw [hp]; intro hc; cases hc)
      rw [hm] at hl
      have hexp : (handleWsMessage x t rest).socket
          ++ (handleWsMessage x t rest).mailbox
          = expected (handleWsMessage x t rest) s.handled := by
        show (x.socket ++ [t]) ++ rest = expected x s.handled
        rw [List.append_assoc, List.singleton_append]
        exact hl
      exact delivery_local hi (fun _ => hexp) ⟨_, hexp⟩
  | @stop a x hx hp =>
      refine delivery_local hi (fun hc => absurd rfl hc) ?_
      have hg := hi.gone a x hx
      simpa [expected, stopping, hp] using hg

theorem delivery_reachable {s : Relay} (h : Reachable (relay from_str) s) :
    Delivery s := by
  refine ReachVia.invariant (fun s hs => ?_) (fun s e s' hre hi _ hst => ?_) h
  · subst hs
    exact ⟨fun _ _ hx => (nomatch hx), fun _ _ hx => (nomatch hx)⟩
  · exact delivery_step (idsDistinct_reachable hre) (pairFifo_reachable hre)
      (registry_reachable hre) hi (step_cases hst)

/-- The `SendMessage`s emitted in a life are its decodable texts. -/
theorem sentFrom_prefix {s : Relay} (hf : PairFifo from_str s) {a : Addr}
    {x : WebSocketSession} (hx : s.actor a = some x) :
    sentFrom a s.handled <+:
      x.received.filterMap (fun t => (from_str t).map (fun m => (m.to, t))) := by
  have hsend : ∀ l : List String,
      (l.filterMap (relayOf from_str)).filterMap (fun m =>
        match m with
        | .sendMessage dest msg => some (dest, msg)
        | _ => none)
      = l.filterMap (fun t => (from_str t).map (fun m => (m.to, t))) := by
    intro l
    rw [List.filterMap_filterMap]
    congr 1
    funext t
    cases hdec : from_str t <;> simp [relayOf, hdec]
  have hpre : handledFrom a s.handled <+: emitted from_str a x :=
    ⟨x.toServer, hf.fifo a x hx⟩
  have hmap := hpre.filterMap (fun m =>
    match m with
    | ServerMsg.sendMessage dest msg => some (dest, msg)
    | _ => none)
  rw [sentFrom]
  cases hp : x.phase with
  | created =>
      simp only [emitted, hp, List.filterMap_nil, List.prefix_nil] at hmap
      rw [hmap]
      exact List.nil_prefix
  | running =>
      simp only [emitted, hp, List.filterMap_cons_none, hsend] at hmap
      exact hmap
  | stopped =>
      simp only [emitted, hp, List.filterMap_cons_none, List.filterMap_append,
        hsend, List.filterMap_nil, List.append_nil] at hmap
      exact hmap

/-- Where a text on a socket comes from: it is the session's own welcome, or some
    session received it and it decodes with this session as recipient. -/
theorem socket_origin {s : Relay} (h : Reachable (relay from_str) s) {b : Addr}
    {y : WebSocketSession} {t : String} (hy : s.actor b = some y) (ht : t ∈ y.socket) :
    t = welcomeText y.id ∨ ∃ a x, s.actor a = some x ∧ t ∈ x.received ∧
      ∃ m, from_str t = some m ∧ m.to = y.id := by
  have hexp : t ∈ expected y s.handled := ((delivery_reachable h).gone b y hy).subset ht
  rcases List.mem_append.mp hexp with hw | hrel
  · split at hw
    · exact nomatch hw
    · exact Or.inl (List.mem_singleton.mp hw)
  · obtain ⟨a, ha⟩ := mem_relayedTo hrel
    obtain ⟨x, hx, hrec, hdec⟩ := handled_send (pairFifo_reachable h) ha
    exact Or.inr ⟨a, x, hx, hrec, hdec⟩

/-- **EXACT ROUTING.**  In every reachable state of the relay: the texts on a
    started session's socket are a prefix of its welcome followed by the texts
    handled for it while it was in `sessions`, each once, unchanged and in order,
    and unless it has stopped the rest is its mailbox; before it starts there is
    nothing.  What the server has handled from a session is a prefix of the texts
    it received that decode, each under its decoded recipient.  And no text other
    than the welcome is ever written to a session it is not addressed to. -/
theorem relay_routes_exactly {s : Relay} (h : Reachable (relay from_str) s) :
    (∀ b y, s.actor b = some y → y.phase ≠ .created →
      ∃ rest, welcomeText y.id :: relayedTo y.id s.handled = y.socket ++ rest ∧
        (y.phase ≠ .stopped → rest = y.mailbox)) ∧
    (∀ b y, s.actor b = some y → y.phase = .created →
      y.socket = [] ∧ y.mailbox = [] ∧ relayedTo y.id s.handled = []) ∧
    (∀ id, (replay id s.handled).1 = (s.sessions id).isSome) ∧
    (∀ a x, s.actor a = some x → sentFrom a s.handled <+:
      x.received.filterMap (fun t => (from_str t).map (fun m => (m.to, t)))) ∧
    (∀ b y t, s.actor b = some y → t ∈ y.socket →
      t = welcomeText y.id ∨ ∃ m, from_str t = some m ∧ m.to = y.id) := by
  have hd := idsDistinct_reachable h
  have hf := pairFifo_reachable h
  have hi := delivery_reachable h
  refine ⟨?_, ?_, (registry_reachable h).present, ?_, ?_⟩
  · intro b y hy hp
    have hexp : expected y s.handled
        = welcomeText y.id :: relayedTo y.id s.handled := by
      simp [expected, hp]
    rw [← hexp]
    by_cases hst : y.phase = .stopped
    · obtain ⟨rest, hrest⟩ := hi.gone b y hy
      exact ⟨rest, hrest.symm, fun hc => absurd hst hc⟩
    · exact ⟨y.mailbox, (hi.live b y hy hst).symm, fun _ => rfl⟩
  · intro b y hy hp
    have hnil := relayedTo_created hd hf hy hp
    have hl := hi.live b y hy (by rw [hp]; intro hc; cases hc)
    simp only [expected, hp, if_true, hnil, List.append_nil,
      List.append_eq_nil_iff] at hl
    exact ⟨hl.1, hl.2, hnil⟩
  · intro a x hx
    exact sentFrom_prefix hf hx
  · intro b y t hy ht
    rcases socket_origin h hy ht with hw | ⟨-, -, -, -, m, hdec, hto⟩
    · exact Or.inl hw
    · exact Or.inr ⟨m, hdec, hto⟩

end Delivery

/-- Exact routing at the sample run: the second session has written its welcome
    and the one text sent to it. -/
theorem relay_routes_exactly_sample :
    (sampleState.actor 1).map (·.socket)
      = some [welcomeText "b", "\x7b\"from\":\"a\",\"to\":\"b\"\x7d"] ∧
    ∀ y, sampleState.actor 1 = some y → y.phase ≠ .created →
      ∃ rest, welcomeText y.id :: relayedTo y.id sampleState.handled
        = y.socket ++ rest ∧ (y.phase ≠ .stopped → rest = y.mailbox) :=
  ⟨by decide, fun y hy hp =>
    (relay_routes_exactly sampleState_reachable).1 1 y hy hp⟩

end CamRouting
