import WebRtcCam.CamGuardProofs
import WebRtcCam.CamPendingProofs

/-! # A description that is not applied

    `handleSDPMessage` binds the sender and adds the local tracks before it knows whether
    the description can be built and applied, and its one `catch` lowers
    `isNegotiatingRef` whoever raised it.  So a description that comes to nothing may
    still leave its marks: a peer the user never chose, tracks on the connection, and
    the flag of another negotiation that is still going on.

    * `rejectedSDP_eq` — what is left of such a message;
    * `rejected_run` — that is what the page's steps come to;
    * `rejected_leaves_page_iff` — when nothing is left of it. -/

namespace CamRejected

open LtsRun JsonText CamWire RtcSignaling CamPage CamPending

/-! ## A message that is rejected -/

/-- The call that was suspended between `s` and `t`, if any, goes on in its `catch`. -/
def rejectLast (s t : Page) : Page :=
  match t.chain.drop s.chain.length with
  | (_, call) :: _ => reject call (setChain s.chain t)
  | [] => t

/-- `handleSDPMessage`, when the description cannot be built or `setRemoteDescription` is
    rejected. -/
def rejectedSDP (env : Vars) (m : Received) (s : Page) : Page :=
  rejectLast s (handleSDPMessage env m s)

/-- The tracks attached to the connection. -/
def tracksOf (s : Page) : List Track :=
  (s.peerConnectionRef.map (fun pc => pc.senders.filterMap Sender.track)).getD []

/-- Once the queue is applied, the binding, the flag and the attached tracks are as before. -/
structure LeavesPage (s t : Page) : Prop where
  peerId : t.next.peerId = s.next.peerId
  peerIdRef : t.peerIdRef = s.peerIdRef
  flag : t.isNegotiatingRef = s.isNegotiatingRef
  tracks : tracksOf t = tracksOf s

/-- The sender is adopted, and is not the peer already. -/
def adopts (env : Vars) (m : Received) (s : Page) : Bool :=
  match m.data.get "from" with
  | some sender =>
      isPeerIdEmpty env.peerId && !(s.next.peerId = sender && s.peerIdRef = sender)
  | none => false

/-- The message carries an offer. -/
def carriesOffer (m : Received) : Bool := (sdpOf m).any isOfferSdp

/-- The camera has tracks, and the open connection has no sender yet. -/
def wantsTracks (stream : Option Stream) (pc : Pc) : Bool :=
  pc.senders.isEmpty && pc.signalingState ≠ .closed && stream.any (fun str => !str.tracks.isEmpty)

/-- There is no connection; or no negotiation is going on, and the message finds its
    sender bound, or cannot bind it, and no tracks to add. -/
def harmless (env : Vars) (m : Received) (s : Page) : Bool :=
  match s.peerConnectionRef with
  | none => true
  | some pc =>
      !adopts env m s && !s.isNegotiatingRef
        && !(carriesOffer m && wantsTracks s.localStreamRef pc)

/-! ## What is left of it -/

/-- The connection after the track step. -/
def tracksAdded (m : Received) (stream : Option Stream) (pc : Pc) : Pc :=
  match sdpOf m with
  | some sdp => (tracksForOffer (isOfferSdp sdp) stream pc).getD pc
  | none => pc

theorem rejectLast_done {s t : Page} (h : t.chain = s.chain) : rejectLast s t = t := by
  rw [rejectLast, h, List.drop_length]

theorem rejectLast_suspended {s t : Page} (op : PcOp Json) (call : Call)
    (h : t.chain = s.chain ++ [(op, call)]) :
    rejectLast s t = reject call (setChain s.chain t) := by
  rw [rejectLast, h, List.drop_left]

/-- **WHAT IS LEFT**: the sender, the tracks and a lowered flag; and the history. -/
theorem rejectedSDP_eq (env : Vars) (m : Received) {s : Page} {pc : Pc}
    (hpc : s.peerConnectionRef = some pc) :
    ∃ l, rejectedSDP env m s =
      { setNegotiating false (setPc (tracksAdded m s.localStreamRef pc)
        (adoptSender env m (noteSDP m s))) with trace := l } := by
  have hpc' : (adoptSender env m (noteSDP m s)).peerConnectionRef = some pc := by
    rw [adoptSender_pc]
    exact hpc
  have hchain : (adoptSender env m (noteSDP m s)).chain = s.chain :=
    adoptSender_chain env m (noteSDP m s)
  rw [rejectedSDP, handleSDPMessage, tracksAdded]
  rw [hpc]
  dsimp only
  cases hsdp : sdpOf m with
  | none =>
      refine ⟨(adoptSender env m (noteSDP m s)).trace, ?_⟩
      dsimp only
      rw [rejectLast_done (t := setNegotiating false _) hchain, setPc_self hpc']
      rfl
  | some sdp =>
      dsimp only
      rw [applySDP]
      rw [adoptSender_stream]
      show ∃ l, rejectLast s (match tracksForOffer (isOfferSdp sdp) s.localStreamRef pc with
        | none => _
        | some pc' => _) = _
      cases tracksForOffer (isOfferSdp sdp) s.localStreamRef pc with
      | none =>
          refine ⟨(adoptSender env m (noteSDP m s)).trace, ?_⟩
          dsimp only [Option.getD_none]
          rw [rejectLast_done (t := setNegotiating false _) hchain, setPc_self hpc']
          rfl
      | some pc' =>
          dsimp only [Option.getD_some]
          cases RTCSessionDescription sdp with
          | none =>
              refine ⟨(adoptSender env m (noteSDP m s)).trace, ?_⟩
              dsimp only
              rw [rejectLast_done (t := setNegotiating false (setPc pc' _)) hchain]
              rfl
          | some d =>
              refine ⟨(adoptSender env m (noteSDP m s)).trace
                ++ [.invoked (.setRemoteDescription d) (some m)], ?_⟩
              dsimp only
              rw [rejectLast_suspended (.setRemoteDescription d)
                (.remoteApplied env m (isOfferSdp sdp))
                (by rw [invoke_chain, setPc_chain, hchain])]
              simp only [reject, setNegotiating, setChain, invoke, setPc, hchain]

/-- **THE STEPS OF THE PAGE**: where nothing else is suspended, the effect calls the
    handler, the operation is rejected, and this is what they come to. -/
theorem rejected_run {s t u : Page} {m : Received} (hdue : s.effects = [.processPendingSDP])
    (hm : s.vars.pendingSDP = some m) (hid : truthy s.vars.clientId = true)
    (hchain : s.chain = []) (hflush : step s .flushEffects = some t)
    (hreject : step t (.settle .rejected) = some u) :
    u = enqueue (.setPendingSDP none) (rejectedSDP s.vars m { s with effects := [] }) := by
  have ht : t = enqueue (.setPendingSDP none)
      (handleSDPMessage s.vars m { s with effects := [] }) := by
    cases step_cases hflush with
    | flushEffects =>
        rw [hdue]
        show runEffect { s with effects := [] } .processPendingSDP = _
        simp only [runEffect, hm, hid, if_true]
  generalize hcalled : handleSDPMessage s.vars m { s with effects := [] } = called at ht
  cases step_cases hreject with
  | @rejected pc op call rest _ _ hop =>
      -- the handler suspends at most one call, and it is the only one
      have hlast : called.chain = [(op, call)] ∧ rest = [] := by
        rw [ht, enqueue_chain] at hop
        rcases handleSDPMessage_cases s.vars m { s with effects := [] } with
          ⟨-, h⟩ | ⟨pc₀, pc', -, -, ⟨h, -⟩ | ⟨sdp, d, -, -, h⟩⟩
        · rw [hcalled] at h
          rw [h, noteSDP_chain] at hop
          rw [hchain] at hop
          cases hop
        · rw [hcalled] at h
          rw [h, setNegotiating_chain, setPc_chain, adoptSender_chain,
            noteSDP_chain] at hop
          rw [hchain] at hop
          cases hop
        · rw [hcalled] at h
          have hone : called.chain = [(.setRemoteDescription d,
              .remoteApplied s.vars m (isOfferSdp sdp))] := by
            rw [h, invoke_chain, setPc_chain, adoptSender_chain, noteSDP_chain]
            rw [show ({ s with effects := [] } : Page).chain = [] from hchain]
            rfl
          rw [hone] at hop ⊢
          cases hop
          exact ⟨rfl, rfl⟩
      obtain ⟨hone, rfl⟩ := hlast
      have hrej : rejectedSDP s.vars m { s with effects := [] }
          = reject call (setChain [] called) := by
        rw [rejectedSDP, hcalled, rejectLast_suspended op call
          (by rw [hone, show ({ s with effects := [] } : Page).chain = [] from hchain]; rfl)]
        rw [show ({ s with effects := [] } : Page).chain = [] from hchain]
      rw [hrej, ht]
      cases call <;> rfl

/-! ## When nothing is left of it -/

theorem addTracks_closed {pc : Pc} (hclosed : pc.signalingState = .closed) {t : Track}
    {ts : List Track} : (t :: ts).foldlM Pc.addTrack pc = none := by
  rw [List.foldlM_cons, Pc.addTrack, if_pos hclosed]
  rfl

/-- The track step changes the attached tracks exactly when an offer finds a camera with
    tracks and an open connection without senders. -/
theorem tracksForOffer_tracks (isOffer : Bool) (stream : Option Stream) (pc : Pc) :
    ((tracksForOffer isOffer stream pc).getD pc).senders.filterMap Sender.track
        = pc.senders.filterMap Sender.track ↔
      (isOffer && wantsTracks stream pc) = false := by
  simp only [tracksForOffer, wantsTracks]
  cases stream with
  | none => simp
  | some str =>
      cases isOffer with
      | false => simp
      | true =>
          have hadded : hasTracksAdded pc = !pc.senders.isEmpty := by
            cases hs : pc.senders <;> simp [hasTracksAdded, hs]
          rw [hadded]
          cases hsenders : pc.senders with
          | cons x l => simp [hsenders]
          | nil =>
              by_cases hclosed : pc.signalingState = .closed
              · cases hts : str.tracks with
                | nil => simp [addTracksToConnection, hts, hsenders]
                | cons t ts =>
                    have hadd : addTracksToConnection pc str = none := by
                      rw [addTracksToConnection, hts]
                      exact addTracks_closed hclosed
                    simp [hadd, hsenders, hclosed]
              · have hadd : addTracksToConnection pc str = some { pc with
                    senders := pc.senders ++ str.tracks.map (fun t => ⟨t.kind, some t⟩) } :=
                  addTracks_eq str.tracks str.nodup hclosed (by simp [hsenders])
                simp only [hadd, hsenders]
                cases hts : str.tracks <;> simp [hclosed, hts]

theorem tracksAdded_tracks (m : Received) (stream : Option Stream) (pc : Pc) :
    (tracksAdded m stream pc).senders.filterMap Sender.track
        = pc.senders.filterMap Sender.track ↔
      (carriesOffer m && wantsTracks stream pc) = false := by
  rw [tracksAdded, carriesOffer]
  cases sdpOf m with
  | none => simp
  | some sdp => exact tracksForOffer_tracks _ _ _

/-- The sender is adopted, unless it is the peer already. -/
theorem adoptSender_iff (env : Vars) (m : Received) (s : Page) :
    ((adoptSender env m s).next.peerId = s.next.peerId ∧
        (adoptSender env m s).peerIdRef = s.peerIdRef) ↔ adopts env m s = false := by
  rw [adoptSender, adopts]
  cases m.data.get "from" with
  | none => simp
  | some sender =>
      dsimp only
      cases isPeerIdEmpty env.peerId with
      | false => simp
      | true =>
          have hnext : (bindPeer sender s).next.peerId = sender := by
            rw [next_of_append (s := s) (t := bindPeer sender s) rfl rfl]
            rfl
          simp only [if_true, hnext, bindPeer_peerIdRef, Bool.true_and, Bool.not_eq_false',
            Bool.and_eq_true, decide_eq_true_eq]
          exact ⟨fun h => ⟨h.1.symm, h.2.symm⟩, fun h => ⟨h.1.symm, h.2.symm⟩⟩

/-- **A REJECTED DESCRIPTION LEAVES THE PAGE AS IT WAS** exactly when the message is
    harmless, in every state, whoever sent it and whatever it carries. -/
theorem rejected_leaves_page_iff (env : Vars) (m : Received) (s : Page) :
    LeavesPage s (rejectedSDP env m s) ↔ harmless env m s = true := by
  rw [harmless]
  cases hpc : s.peerConnectionRef with
  | none =>
      have hnothing : rejectedSDP env m s = noteSDP m s := by
        rw [rejectedSDP, handleSDPMessage]
        rw [hpc]
        exact rejectLast_done rfl
      rw [hnothing]
      exact ⟨fun _ => rfl, fun _ => ⟨rfl, rfl, rfl, rfl⟩⟩
  | some pc =>
      obtain ⟨l, hleft⟩ := rejectedSDP_eq env m hpc
      have hbound := adoptSender_iff env m (noteSDP m s)
      have htracks := tracksAdded_tracks m s.localStreamRef pc
      have hnow : tracksOf s = pc.senders.filterMap Sender.track := by
        rw [tracksOf, hpc]
        rfl
      rw [hleft]
      simp only [Bool.and_eq_true, Bool.not_eq_true']
      constructor
      · intro h
        refine ⟨⟨hbound.mp ⟨h.peerId, h.peerIdRef⟩, h.flag.symm⟩, htracks.mp ?_⟩
        rw [← hnow]
        exact h.tracks
      · rintro ⟨⟨hadopts, hflag⟩, hwants⟩
        obtain ⟨hpeer, href⟩ := hbound.mpr hadopts
        refine ⟨hpeer, href, hflag.symm, ?_⟩
        rw [hnow]
        exact htracks.mpr hwants

/-- The page is welcomed and its camera is ready. -/
def readyRun : List Event :=
  [.flushEffects, .userMedia (some CamGuard.camera), .message (some (welcomeJson "a")),
   .render, .flushEffects, .render]

/-- The user calls `"b"`: the page's offer is out. -/
def callingRun : List Event :=
  readyRun ++ [.edit "b", .render, .flushEffects, .press,
   .settle (.fulfilled "1" []), .settle (.fulfilled "1" [])]

/-- A stranger sends a description that is no SDP, and it is rejected. -/
def junkRun (type : String) : List Event :=
  [.message (some (.obj [("from", .str "x"), ("to", .str "a"),
     ("sdp", .obj [("type", .str type), ("sdp", .str "junk")]), ("type", .str type)])),
   .render, .flushEffects, .settle .rejected, .render, .flushEffects, .render]

/-- What a message may leave behind, and the state of the connection. -/
structure Marks where
  peerId : Json
  peerIdRef : Json
  flag : Bool
  tracks : List Track
  signaling : Option SignalingState
  deriving DecidableEq

def marks (s : Page) : Marks :=
  ⟨s.vars.peerId, s.peerIdRef, s.isNegotiatingRef, tracksOf s, s.signaling⟩

/-- A rejected offer leaves the stranger bound and the camera's tracks on the connection;
    a rejected answer lowers the flag in the middle of a call. -/
theorem stranger_leaves_marks :
    (exec page .initial readyRun).map marks
      = some ⟨.str "", .str "", false, [], some .stable⟩ ∧
    (exec page .initial (readyRun ++ junkRun "offer")).map marks
      = some ⟨.str "x", .str "x", false, CamGuard.camera.tracks, some .stable⟩ ∧
    (exec page .initial callingRun).map marks
      = some ⟨.str "b", .str "b", true, CamGuard.camera.tracks, some .haveLocalOffer⟩ ∧
    (exec page .initial (callingRun ++ junkRun "answer")).map marks
      = some ⟨.str "b", .str "b", false, CamGuard.camera.tracks, some .haveLocalOffer⟩ := by
  decide +kernel

end CamRejected
