import WebRtcCam.AsyncFunctionProofs
import WebRtcCam.CamPageProofs

/-! # What a relayed text can make the page throw

    The page casts what it receives without looking at it.  Here its receive path is
    written with every exception: each dereference of a parsed value, each operation and
    constructor of the browser, which may throw or reject as it likes, and the
    `try … catch` blocks around them.

    * `handleSDPMessage_start`, `onmessage_eq` and their siblings — with nothing but what
      the values make throw, these are the functions of `CamPage`;
    * `relayed_onmessage` — so they are for whatever the relay forwards;
    * `printable_iff` — the values that a template literal cannot print;
    * `handleSDPMessage_safe` and its siblings — nothing leaves the asynchronous functions;
    * `onmessage_escapes_iff` — what leaves the handler of the socket. -/

namespace CamReceive

open AsyncFunction JsonText CamWire RtcSignaling CamPage

/-! ## What may throw -/

/-- The operations and constructors of the browser. -/
inductive Site where
  | getSenders | addTrack | sessionDescription | iceCandidate
  | setRemoteDescription | createAnswer | setLocalDescription | addIceCandidate | send
  deriving DecidableEq, Repr

/-- Which of them throw. -/
abbrev Faults := Site → Bool

/-- Only the values make anything throw. -/
def noFaults : Faults := fun _ => false

/-- The description an operation created; none when it was rejected. -/
def textOf : Outcome → Option String
  | .fulfilled sdp _ => some sdp
  | .rejected => none

/-- A value without a string form: an object whose own member `toString` hides the
    inherited method, or an array with such an element. -/
inductive HidesToString : Json → Prop where
  | obj {ms : Members} (h : (lookup "toString" ms).isSome = true) :
      HidesToString (.obj ms)
  | arr {xs : List Json} {v : Json} (hmem : v ∈ xs) (hv : HidesToString v) :
      HidesToString (.arr xs)

theorem joinElems_cons (v : Json) (xs : List Json) :
    (joinElems (v :: xs)).isSome = ((toJsString v).isSome && (joinElems xs).isSome) := by
  have hmany : ∀ w ws, (joinElems (v :: w :: ws)).isSome
      = ((toJsString v).isSome && (joinElems (w :: ws)).isSome) := by
    intro w ws
    cases v with
    | null => simp [joinElems, toJsString]
    | _ =>
        rw [joinElems]
        · generalize toJsString _ = t
          generalize joinElems (w :: ws) = u
          cases t <;> cases u <;> rfl
        all_goals simp
  cases xs with
  | nil =>
      show (joinElems [v]).isSome = ((toJsString v).isSome && true)
      rw [Bool.and_true]
      cases v <;> rfl
  | cons w ws => exact hmany w ws

mutual

/-- **WHAT CAN BE PRINTED**: every value that does not hide its `toString`. -/
theorem printable_iff : ∀ v : Json, printable (some v) = true ↔ ¬ HidesToString v
  | .null => iff_of_true rfl (fun h => by cases h)
  | .bool b => iff_of_true (by cases b <;> rfl) (fun h => by cases h)
  | .num n => iff_of_true rfl (fun h => by cases h)
  | .str s => iff_of_true rfl (fun h => by cases h)
  | .arr xs => by
      have hxs := joinElems_iff xs
      constructor
      · intro hp h
        cases h with
        | arr hmem hv => exact hxs.mp hp _ hmem hv
      · exact fun h => hxs.mpr (fun v hmem hv => h (.arr hmem hv))
  | .obj ms => by
      show (if (lookup "toString" ms).isSome then none
        else some (.text "[object Object]") : Option Utf16.JsString).isSome = true ↔ _
      constructor
      · intro hp h
        cases h with
        | obj h =>
            rw [if_pos h] at hp
            cases hp
      · intro h
        rw [if_neg (fun hms => h (.obj hms))]
        rfl

theorem joinElems_iff : ∀ xs : List Json,
    (joinElems xs).isSome = true ↔ ∀ v ∈ xs, ¬ HidesToString v
  | [] => iff_of_true rfl (fun v hv => by cases hv)
  | v :: xs => by
      rw [joinElems_cons, Bool.and_eq_true, List.forall_mem_cons]
      exact and_congr (printable_iff v) (joinElems_iff xs)

end

section Page

variable (faults : Faults) (env : Vars) (m : Received)

/-- `await pc.op()`. -/
def awaitOp (site : Site) (op : PcOp Json) (message : Option Received) (call : Call) :
    Prog Page Outcome String := do
  .fallible (faults site)
  .modify (invoke op message call)
  .settled textOf

/-- A value in a template literal. -/
def print (v : Js) : Prog Page Outcome Unit := .fallible (!printable v)

/-- `===`, for a log line; two parsed objects are never the same, and numbers count as
    written. -/
def strictlyEqual : Json → Json → Bool
  | .arr _, _ => false
  | .obj _, _ => false
  | v, w => v = w

/-- The sender becomes the peer, or is only logged. -/
def adoptPeer : Prog Page Outcome Unit :=
  match m.data.get "from" with
  | none => pure ()
  | some sender =>
      if isPeerIdEmpty env.peerId then do
        print (some sender)
        .modify (bindPeer sender)
      else if strictlyEqual env.peerId sender then pure ()
      else do
        print (some env.peerId)
        print (some sender)

/-- `if (isOfferMessage && localStream && needsToAddTracks) addTracksToConnection(…)`. -/
def addLocalTracks (isOffer : Bool) (stream : Option Stream) (pc : Pc) :
    Prog Page Outcome Pc := do
  .fallible (faults .getSenders)
  .fallible (isOffer && stream.isSome && !hasTracksAdded pc && faults .addTrack)
  .orThrow (tracksForOffer isOffer stream pc)

/-- The answer is set and sent. -/
def sendAnswer (answer : String) : Prog Page Outcome Unit := do
  let _ ← awaitOp faults .setLocalDescription (.setLocalDescription ⟨.answer, answer⟩) none
    (.answerApplied env m ⟨.answer, answer⟩)
  .fallible (faults .send)
  .modify (sendMessage env (member "to" (m.data.get "from")
    ++ ([("sdp", descJson ⟨.answer, answer⟩), ("type", .str "answer")] : Members)))

/-- `if (isOfferMessage)`: an offer that was applied is answered. -/
def answerOffer (isOffer : Bool) : Prog Page Outcome Unit :=
  if isOffer then do
    .modify (setNegotiating true)
    let answer ← awaitOp faults .createAnswer .createAnswer none (.answerCreated env m)
    sendAnswer faults env m answer
  else pure ()

/-- `handleSDPMessage`, inside its `try`. -/
def trySDPMessage (stream : Option Stream) (pc : Pc) : Prog Page Outcome Unit := do
  adoptPeer env m
  let sdp ← .orThrow (sdpOf m)
  let pc' ← addLocalTracks faults (isOfferSdp sdp) stream pc
  .modify (setPc pc')
  .fallible (faults .sessionDescription)
  let d ← .orThrow (RTCSessionDescription sdp)
  let _ ← awaitOp faults .setRemoteDescription (.setRemoteDescription d) (some m)
    (.remoteApplied env m (isOfferSdp sdp))
  answerOffer faults env m (isOfferSdp sdp)

/-- `handleSDPMessage`. -/
def handleSDPMessage : Prog Page Outcome Unit := do
  .modify (noteSDP m)
  let s ← .get
  match s.peerConnectionRef with
  | none => pure ()
  | some pc =>
      (trySDPMessage faults env m s.localStreamRef pc).tryCatch (.modify (setNegotiating false))

/-- The sender becomes the peer if there is none yet. -/
def adoptFirst : Prog Page Outcome Unit :=
  match m.data.get "from" with
  | none => pure ()
  | some sender =>
      if isPeerIdEmpty env.peerId then do
        print (some sender)
        .modify (bindPeer sender)
      else pure ()

/-- `handleIceCandidateMessage`, inside its `try`. -/
def tryIceCandidateMessage : Prog Page Outcome Unit := do
  adoptFirst env m
  .fallible (faults .iceCandidate)
  let c ← .orThrow (RTCIceCandidate (m.data.get "candidate"))
  let _ ← awaitOp faults .addIceCandidate (.addIceCandidate c) (some m) .candidateAdded
  pure ()

/-- `handleIceCandidateMessage`. -/
def handleIceCandidateMessage : Prog Page Outcome Unit := do
  let s ← .get
  match s.peerConnectionRef with
  | none => pure ()
  | some _ => (tryIceCandidateMessage faults env m).tryCatch (pure ())

end Page

/-- The effect that processes `pendingSDP`. -/
def processPendingSDP (faults : Faults) (s : Page) : Fired Page Page Outcome :=
  match s.vars.pendingSDP with
  | some m =>
      if truthy s.vars.clientId then
        fire (handleSDPMessage faults s.vars m) (enqueue (.setPendingSDP none)) s
      else ⟨s, false, none⟩
  | none => ⟨s, false, none⟩

/-- `ws.onmessage` of the page, with the parsed text if it is JSON. -/
def onmessage (faults : Faults) (env : Vars) (data : Option Json) (s : Page) :
    Fired Page Page Outcome :=
  match data with
  | none => ⟨s, true, none⟩
  | some .null => ⟨s, true, none⟩
  | some j =>
      if isWelcomeMessage j then
        ⟨enqueue (.setClientId (j.get "id")) (receive j s), !printable (j.get "id"), none⟩
      else if isSDPMessage j then
        ⟨enqueue (.setPendingSDP (some (s.arrival j))) (receive j s), false, none⟩
      else if isICECandidateMessage j then
        fire (handleIceCandidateMessage faults env (s.arrival j)) id (receive j s)
      else ⟨receive j s, false, none⟩

/-! ## The page's functions -/

/-- The sender, and the peer it is compared with, can be logged. -/
def Prints (env : Vars) (m : Received) : Prop :=
  printable (m.data.get "from") = true ∧ printable (some env.peerId) = true

section Calls

variable {σ κ α : Type} {M : Machine σ Outcome String κ} {call : κ}
  {k : Outcome → Prog σ Outcome α}

/-- A call whose function ends when its operation settles. -/
theorem follows_last
    (hrejected : ∀ s, ∃ a, start (k .rejected) s = (M.settle call .rejected s, .returned a))
    (hfulfilled : ∀ sdp sections s, ∃ a, start (k (.fulfilled sdp sections)) s
      = (M.settle call (.fulfilled sdp sections) s, .returned a)) : M.Follows call k := by
  refine .last (fun o s => ?_)
  cases o with
  | rejected => exact hrejected s
  | fulfilled sdp sections => exact hfulfilled sdp sections s

/-- A call whose function goes on to the next `await` when its operation is fulfilled. -/
theorem follows_more (hvalue : M.value = textOf) {call' : String → κ}
    {k' : String → Outcome → Prog σ Outcome α}
    (hrejected : ∀ s, ∃ a, start (k .rejected) s = (M.settle call .rejected s, .returned a))
    (hfulfilled : ∀ sdp sections s, start (k (.fulfilled sdp sections)) s
      = (M.settle call (.fulfilled sdp sections) s, .suspended (k' sdp)))
    (hinvokes : ∀ sdp sections s,
      M.Invokes (call' sdp) s (M.settle call (.fulfilled sdp sections) s))
    (hfollows : ∀ sdp, M.Follows (call' sdp) (k' sdp)) : M.Follows call k := by
  refine .more call' k' ?_ ?_ hfollows
  · intro o ho s
    rw [hvalue] at ho
    cases o with
    | rejected => exact hrejected s
    | fulfilled sdp sections => cases ho
  · intro o sdp ho s
    rw [hvalue] at ho
    cases o with
    | rejected => cases ho
    | fulfilled sdp sections =>
        cases ho
        exact ⟨hfulfilled sdp sections s, hinvokes sdp sections s⟩

end Calls

/-- The suspended calls of the page. -/
def calls : Machine Page Outcome String Call where
  value := textOf
  settle call o s :=
    match o with
    | .rejected => reject call s
    | .fulfilled sdp _ => resume sdp call s
  Invokes call s t := ∃ op, t.chain = s.chain ++ [(op, call)]

/-- What the page leaves when a function is called, and what goes on from there. -/
def Starts (p : Prog Page Outcome Unit) (s t : Page) : Prop :=
  calls.Starts (fun call => calls.Invokes call s t) p s t

section Start

variable {env : Vars} {m : Received} {s : Page}

theorem adoptPeer_start (hp : Prints env m) :
    start (adoptPeer env m) s = (adoptSender env m s, .returned ()) := by
  rw [adoptPeer, adoptSender]
  obtain ⟨hfrom, hpeer⟩ := hp
  cases hm : m.data.get "from" with
  | none => rfl
  | some sender =>
      rw [hm] at hfrom
      dsimp only
      by_cases he : isPeerIdEmpty env.peerId = true
      · rw [if_pos he, if_pos he]
        simp [print, hfrom]
      · rw [if_neg he, if_neg he]
        split
        · rfl
        · simp [print, hfrom, hpeer]

theorem adoptFirst_start (hp : Prints env m) :
    start (adoptFirst env m) s = (adoptSender env m s, .returned ()) := by
  rw [adoptFirst, adoptSender]
  obtain ⟨hfrom, -⟩ := hp
  cases hm : m.data.get "from" with
  | none => rfl
  | some sender =>
      rw [hm] at hfrom
      dsimp only
      by_cases he : isPeerIdEmpty env.peerId = true
      · rw [if_pos he, if_pos he]
        simp [print, hfrom]
      · rw [if_neg he, if_neg he]
        rfl

/-- The `catch` of `handleSDPMessage`. -/
def lower : Prog Page Outcome Unit := .modify (setNegotiating false)

theorem answerApplied_follows (answer : String) :
    calls.Follows (.answerApplied env m ⟨.answer, answer⟩) (awaited textOf (fun _ => do
      .fallible (noFaults .send)
      .modify (sendMessage env (member "to" (m.data.get "from")
        ++ ([("sdp", descJson ⟨.answer, answer⟩), ("type", .str "answer")] : Members)))) lower) :=
  follows_last (fun _ => ⟨(), rfl⟩) (fun _ _ _ => ⟨(), rfl⟩)

theorem answerCreated_follows :
    calls.Follows (.answerCreated env m)
      (awaited textOf (sendAnswer noFaults env m) lower) :=
  follows_more rfl (fun _ => ⟨(), rfl⟩) (fun _ _ _ => rfl)
    (fun sdp _ _ => ⟨.setLocalDescription ⟨.answer, sdp⟩, rfl⟩) answerApplied_follows

theorem remoteApplied_follows (isOffer : Bool) :
    calls.Follows (.remoteApplied env m isOffer)
      (awaited textOf (fun _ => answerOffer noFaults env m isOffer) lower) := by
  cases isOffer with
  | false => exact follows_last (fun _ => ⟨(), rfl⟩) (fun _ _ _ => ⟨(), rfl⟩)
  | true =>
      exact follows_more rfl (fun _ => ⟨(), rfl⟩) (fun _ _ _ => rfl)
        (fun _ _ _ => ⟨.createAnswer, rfl⟩) (fun _ => answerCreated_follows)

theorem candidateAdded_follows :
    calls.Follows .candidateAdded (awaited textOf (fun _ => pure ()) (pure ())) :=
  follows_last (fun _ => ⟨(), rfl⟩) (fun _ _ _ => ⟨(), rfl⟩)

/-- **`handleSDPMessage`** of the page, when nothing but the values makes it throw. -/
theorem handleSDPMessage_start (hp : Prints env m) :
    Starts (handleSDPMessage noFaults env m) s (CamPage.handleSDPMessage env m s) := by
  have hstart : start (handleSDPMessage noFaults env m) s =
      match s.peerConnectionRef with
      | none => (noteSDP m s, .returned ())
      | some pc =>
          start ((trySDPMessage noFaults env m s.localStreamRef pc).tryCatch lower)
            (noteSDP m s) := by
    rw [handleSDPMessage]
    simp only [start_bind, start_modify, start_get, noteSDP_peerConnectionRef,
      noteSDP_localStreamRef]
    cases s.peerConnectionRef with
    | none => rfl
    | some pc => rfl
  rw [Starts, Machine.Starts, CamPage.handleSDPMessage]
  rw [hstart]
  cases s.peerConnectionRef with
  | none => exact Or.inl ⟨(), rfl⟩
  | some pc =>
      dsimp only
      rw [trySDPMessage]
      rw [start_tryCatch, start_bind, adoptPeer_start hp]
      dsimp only
      rw [start_bind, start_orThrow]
      cases hsdp : sdpOf m with
      | none => exact Or.inl ⟨(), rfl⟩
      | some sdp =>
          dsimp only
          rw [applySDP, addLocalTracks]
          rw [adoptSender_stream, noteSDP_localStreamRef]
          simp only [noFaults, Prog.fallible, Bool.and_false]
          cases htr : tracksForOffer (isOfferSdp sdp) s.localStreamRef pc with
          | none => exact Or.inl ⟨(), rfl⟩
          | some pc' =>
              cases hd : RTCSessionDescription sdp with
              | none => exact Or.inl ⟨(), rfl⟩
              | some d =>
                  exact Or.inr ⟨.remoteApplied env m (isOfferSdp sdp),
                    awaited textOf (fun _ => answerOffer noFaults env m (isOfferSdp sdp)) lower,
                    ⟨.setRemoteDescription d, by simp⟩, rfl, remoteApplied_follows _⟩

/-- **`handleIceCandidateMessage`** of the page, likewise. -/
theorem handleIceCandidateMessage_start (hp : Prints env m) :
    Starts (handleIceCandidateMessage noFaults env m) s
      (CamPage.handleIceCandidateMessage env m s) := by
  have hstart : start (handleIceCandidateMessage noFaults env m) s =
      match s.peerConnectionRef with
      | none => (s, .returned ())
      | some _ => start ((tryIceCandidateMessage noFaults env m).tryCatch (pure ())) s := by
    show start (match s.peerConnectionRef with
      | none => pure ()
      | some _ => (tryIceCandidateMessage noFaults env m).tryCatch (pure ())) s = _
    cases s.peerConnectionRef with
    | none => rfl
    | some pc => rfl
  rw [Starts, Machine.Starts, CamPage.handleIceCandidateMessage, hstart]
  cases s.peerConnectionRef with
  | none => exact Or.inl ⟨(), rfl⟩
  | some pc =>
      dsimp only
      rw [tryIceCandidateMessage, start_tryCatch, start_bind, adoptFirst_start hp]
      cases hc : RTCIceCandidate (m.data.get "candidate") with
      | none => exact Or.inl ⟨(), rfl⟩
      | some c =>
          exact Or.inr ⟨.candidateAdded, awaited textOf (fun _ => pure ()) (pure ()),
            ⟨.addIceCandidate c, by simp⟩, rfl, candidateAdded_follows⟩

end Start

/-- What a handler leaves, with the exception that left it in the history. -/
def observed (r : Fired Page Page Outcome) : Page :=
  if r.threw then throwUncaught r.state else r.state

theorem observed_fire {p : Prog Page Outcome Unit} {after : Page → Page} {s t : Page}
    (h : Starts p s t) : observed (fire p after s) = after t :=
  congrArg after h.state

/-- **`ws.onmessage`** of the page, likewise. -/
theorem onmessage_eq {env : Vars} {data : Option Json} {s : Page}
    (hp : ∀ j, data = some j → Prints env (s.arrival j)) :
    observed (onmessage noFaults env data s) = CamPage.onmessage env data s := by
  have hdispatch : ∀ j, data = some j → observed
      (if isWelcomeMessage j then
        ⟨enqueue (.setClientId (j.get "id")) (receive j s), !printable (j.get "id"), none⟩
      else if isSDPMessage j then
        ⟨enqueue (.setPendingSDP (some (s.arrival j))) (receive j s), false, none⟩
      else if isICECandidateMessage j then
        fire (handleIceCandidateMessage noFaults env (s.arrival j)) id (receive j s)
      else ⟨receive j s, false, none⟩) = dispatch env j s := by
    intro j hj
    rw [dispatch]
    split
    · rw [observed, logClientId]
      cases printable (j.get "id") with
      | true => rfl
      | false => rfl
    · split
      · rfl
      · split
        · exact observed_fire (handleIceCandidateMessage_start (hp j hj))
        · rfl
  cases data with
  | none => rfl
  | some j =>
      cases j with
      | null => rfl
      | _ => exact hdispatch _ rfl

/-- **THE EFFECT** of the page, likewise. -/
theorem processPendingSDP_eq {s : Page}
    (hp : ∀ m, s.vars.pendingSDP = some m → Prints s.vars m) :
    observed (processPendingSDP noFaults s) = runEffect s .processPendingSDP := by
  rw [processPendingSDP, runEffect]
  cases hm : s.vars.pendingSDP with
  | none => rfl
  | some m =>
      dsimp only
      split
      · exact observed_fire (handleSDPMessage_start (hp m hm))
      · rfl

theorem relayed_prints {text : String} {m : Message} {j : Json}
    (h : CamWire.from_str text = some m) (hj : parse text = some j) :
    printable (j.get "from") = true := by
  rw [CamWire.from_str, hj] at h
  rcases deserialize_from h with hfrom | hfrom
  · rw [hfrom]
    rfl
  · rw [hfrom]
    rfl

/-- **WHAT THE RELAY FORWARDS** has a sender that can be logged: `CamPage` says what the
    page makes of it. -/
theorem relayed_onmessage {env : Vars} {s : Page} {text : String} {m : Message}
    (h : CamWire.from_str text = some m) (hpeer : printable (some env.peerId) = true) :
    observed (onmessage noFaults env (parse text) s)
      = CamPage.onmessage env (parse text) s :=
  onmessage_eq (fun _ hj => ⟨relayed_prints h hj, hpeer⟩)

/-! ## Nothing leaves the asynchronous functions -/

section Safe

variable (faults : Faults) (env : Vars) (m : Received)

theorem handleSDPMessage_safe : Safe (handleSDPMessage faults env m) := by
  refine (Safe.modify _).bind (fun _ => Safe.get.bind (fun s => ?_))
  cases s.peerConnectionRef with
  | none => exact .ret ()
  | some pc => exact (Safe.modify _).tryCatch _

theorem handleIceCandidateMessage_safe :
    Safe (handleIceCandidateMessage faults env m) := by
  refine Safe.get.bind (fun s => ?_)
  cases s.peerConnectionRef with
  | none => exact .ret ()
  | some pc => exact (Safe.ret ()).tryCatch _

/-- The effect lets nothing out. -/
theorem processPendingSDP_contained (s : Page) :
    ¬ (processPendingSDP faults s).Escapes := by
  rw [processPendingSDP]
  cases s.vars.pendingSDP with
  | none => exact Fired.quiet_not_escapes s
  | some m =>
      dsimp only
      split
      · exact (handleSDPMessage_safe faults s.vars m).not_escapes _ s
      · exact Fired.quiet_not_escapes s

/-- **WHAT LEAVES `ws.onmessage`**: the log line of a client id, and what is no message. -/
theorem onmessage_escapes_iff (s : Page) (j : Json) (hj : j ≠ .null) :
    (onmessage faults env (some j) s).Escapes ↔
      isWelcomeMessage j = true ∧ printable (j.get "id") = false := by
  have hfire : onmessage faults env (some j) s =
      if isWelcomeMessage j then
        ⟨enqueue (.setClientId (j.get "id")) (receive j s), !printable (j.get "id"), none⟩
      else if isSDPMessage j then
        ⟨enqueue (.setPendingSDP (some (s.arrival j))) (receive j s), false, none⟩
      else if isICECandidateMessage j then
        fire (handleIceCandidateMessage faults env (s.arrival j)) id (receive j s)
      else ⟨receive j s, false, none⟩ := by
    cases j with
    | null => exact absurd rfl hj
    | _ => rfl
  rw [hfire]
  by_cases hw : isWelcomeMessage j = true
  · rw [if_pos hw, Fired.escapes_of_sync, hw]
    simp
  · rw [if_neg hw]
    refine iff_of_false ?_ (fun h => hw h.1)
    split
    · exact Fired.quiet_not_escapes _
    · split
      · exact (handleIceCandidateMessage_safe faults env _).not_escapes id _
      · exact Fired.quiet_not_escapes _

end Safe

end CamReceive
