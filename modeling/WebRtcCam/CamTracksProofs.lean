import WebRtcCam.CamGuardProofs

/-! # Attaching the local tracks

    Both `createOffer` and the handling of an offer add the tracks of the local stream
    to the connection "if none were added", which `hasTracksAdded` reads off the NUMBER
    of senders.  But a remote offer brings senders of its own, with no track, for the
    media sections nothing was added for.  An offer that is applied before the camera is
    ready therefore makes every later track step believe its work done.

    * `trackStep` — when a step passes the track step, and with which connection and
      stream;
    * `trackCalls` — the `addTrack` calls it makes, which the log keeps;
    * `tracks_attached_once` — if senders come out of a remote offer only when the local
      tracks are on the connection, the track step does what it is for. -/

namespace CamTracks

open LtsRun JsonText CamWire RtcSignaling CamPage CamClosure CamPending CamNegotiation

/-- The track step: the tracks are added unless there are senders already. -/
def attach (pc : Pc) (stream : Stream) : Option Pc :=
  if hasTracksAdded pc then some pc else addTracksToConnection pc stream

/-- The tracks `addTrack` is called for: an exception ends the loop. -/
def addTrackCalls : Pc → List Track → List Track
  | _, [] => []
  | pc, t :: ts =>
      t :: match pc.addTrack t with
        | some pc' => addTrackCalls pc' ts
        | none => []

/-- The connection and the stream of a step that passes the track step with a stream:
    a press that gets past the guards of `createOffer`, or the hand-over of an offer. -/
def trackStep (s : Page) : Event → Option (Pc × Stream)
  | .press =>
      match s.peerConnectionRef, s.localStreamRef with
      | some pc, some stream =>
          if !isPeerIdEmpty s.vars.peerId
              && isMediaStreamReady s.vars.isLocalStreamReady (some stream)
              && !s.isNegotiatingRef then some (pc, stream) else none
      | _, _ => none
  | .flushEffects =>
      match (handed s).bind sdpOf, s.peerConnectionRef, s.localStreamRef with
      | some sdp, some pc, some stream => if isOfferSdp sdp then some (pc, stream) else none
      | _, _, _ => none
  | _ => none

/-- The `addTrack` calls of a step. -/
def trackCalls (s : Page) (e : Event) : List Track :=
  match trackStep s e with
  | some (pc, stream) => if hasTracksAdded pc then [] else addTrackCalls pc stream.tracks
  | none => []

/-- By how many senders a track is carried. -/
def carriers (senders : List Sender) (t : Track) : Nat :=
  senders.countP (fun s => s.track = some t)

/-- The tracks of the local stream are on the connection. -/
def attached (s : Page) : Bool :=
  match s.peerConnectionRef, s.localStreamRef with
  | some pc, some stream => stream.tracks.all (fun t => carriers pc.senders t = 1)
  | _, _ => false

/-- A remote offer brings senders only when the local tracks are on the connection. -/
def tracksFirst (s : Page) : Event → Bool
  | .settle (.fulfilled _ sections) =>
      match s.chain with
      | (.setRemoteDescription d, _) :: _ =>
          d.type ≠ .offer || sections.isEmpty || attached s
      | _ => true
  | _ => true

def TracksFirst (p : Page × List Track) (e : Event) : Prop := tracksFirst p.1 e = true

/-! ## The track step itself -/

/-- A loop without exception calls `addTrack` for every track. -/
theorem addTrackCalls_eq :
    ∀ (ts : List Track) {pc pc' : Pc}, ts.foldlM Pc.addTrack pc = some pc' →
      addTrackCalls pc ts = ts := by
  intro ts
  induction ts with
  | nil => intro pc pc' _; rfl
  | cons t ts ih =>
      intro pc pc' h
      rw [List.foldlM_cons] at h
      obtain ⟨pc₁, h₁, h₂⟩ := Option.bind_eq_some_iff.mp h
      rw [addTrackCalls, h₁]
      exact congrArg (t :: ·) (ih h₂)

theorem carriers_fresh (stream : Stream) {t : Track} (ht : t ∈ stream.tracks) :
    carriers (stream.tracks.map (fun t => ⟨t.kind, some t⟩)) t = 1 := by
  rw [carriers, List.countP_map]
  have hcount : stream.tracks.countP ((fun s : Sender => decide (s.track = some t)) ∘
      (fun t => ⟨t.kind, some t⟩)) = stream.tracks.count t := by
    refine List.countP_congr (fun u _ => ?_)
    simp
  rw [hcount]
  exact List.count_eq_one_of_mem stream.nodup ht

/-- The senders of a remote offer carry nothing. -/
theorem carriers_sections (pc : Pc) (sections : List Kind) (t : Track) :
    carriers (pc.addSections sections).senders t = carriers pc.senders t := by
  rw [carriers, Pc.addSections, List.countP_append, List.countP_map]
  have hzero : sections.countP ((fun s : Sender => decide (s.track = some t)) ∘
      (fun k => ⟨k, none⟩)) = 0 := by
    rw [List.countP_eq_zero]
    intro k _
    simp
  rw [hzero]
  rfl

/-! ## What a step does to senders and stream -/

/-- The senders of the page's connection, once there is one. -/
def sendersOf (s : Page) : Option (List Sender) := s.peerConnectionRef.map (·.senders)

/-- Senders, stream and media request are what they were. -/
structure SameMedia (s t : Page) : Prop where
  senders : sendersOf t = sendersOf s
  stream : t.localStreamRef = s.localStreamRef
  request : t.mediaRequested = s.mediaRequested

/-- Everything a step can do to them. -/
inductive Attaches (s : Page) : Event → Page → Prop where
  | same {e : Event} {t : Page} : SameMedia s t → trackStep s e = none → Attaches s e t
  | mounts {t : Page} : s.peerConnectionRef = none → t.peerConnectionRef = some .new →
      t.localStreamRef = s.localStreamRef → trackStep s .flushEffects = none →
      Attaches s .flushEffects t
  | granted {stream : Stream} {t : Page} : s.mediaRequested = true →
      sendersOf t = sendersOf s → t.localStreamRef = some stream →
      t.mediaRequested = false → Attaches s (.userMedia (some stream)) t
  | denied {t : Page} : sendersOf t = sendersOf s → t.localStreamRef = s.localStreamRef →
      t.mediaRequested = false → Attaches s (.userMedia none) t
  | tracks {e : Event} {t : Page} {pc pc' : Pc} {stream : Stream} :
      trackStep s e = some (pc, stream) → s.peerConnectionRef = some pc →
      s.localStreamRef = some stream → attach pc stream = some pc' →
      sendersOf t = some pc'.senders → t.localStreamRef = s.localStreamRef →
      t.mediaRequested = s.mediaRequested → Attaches s e t
  | offered {sdp : String} {sections : List Kind} {t : Page} {pc : Pc} {d : Desc}
      {call : Call} {rest : List (PcOp Json × Call)} : s.peerConnectionRef = some pc →
      s.chain = (.setRemoteDescription d, call) :: rest → d.type = .offer →
      sendersOf t = some (pc.addSections sections).senders →
      t.localStreamRef = s.localStreamRef → t.mediaRequested = s.mediaRequested →
      Attaches s (.settle (.fulfilled sdp sections)) t

theorem SameMedia.of_pc {s t : Page} (hpc : t.peerConnectionRef = s.peerConnectionRef)
    (hstr : t.localStreamRef = s.localStreamRef)
    (hreq : t.mediaRequested = s.mediaRequested) : SameMedia s t :=
  ⟨by rw [sendersOf, hpc, sendersOf], hstr, hreq⟩

/-- Only a remote offer brings senders. -/
theorem perform_senders {pc pc' : Pc} {sections : List Kind} {op : PcOp Json}
    {states : List SignalingState} (h : pc.perform sections op = some (pc', states)) :
    pc'.senders = pc.senders ∨ ∃ d, op = .setRemoteDescription d ∧ d.type = .offer ∧
      pc'.senders = (pc.addSections sections).senders := by
  cases op with
  | createOffer =>
      obtain ⟨rfl, -⟩ := perform_createOffer h
      exact Or.inl rfl
  | createAnswer =>
      obtain ⟨rfl, -⟩ := perform_createAnswer h
      exact Or.inl rfl
  | addIceCandidate c =>
      obtain ⟨rfl, -⟩ := perform_addIceCandidate h
      exact Or.inl rfl
  | setLocalDescription d =>
      obtain ⟨pc₁, h₁, h₂⟩ := Option.map_eq_some_iff.mp h
      cases h₂
      refine Or.inl ?_
      cases hd : d.type <;> simp only [Pc.applyLocal, hd] at h₁ <;> split at h₁ <;>
        cases h₁ <;> rfl
  | setRemoteDescription d =>
      obtain ⟨pc₁, h₁, h₂⟩ := Option.map_eq_some_iff.mp h
      cases h₂
      cases hd : d.type with
      | offer =>
          refine Or.inr ⟨d, rfl, hd, ?_⟩
          simp only [Pc.applyRemote, hd] at h₁
          split at h₁
          · cases h₁
            rfl
          · cases h₁
      | _ =>
          refine Or.inl ?_
          simp only [Pc.applyRemote, hd] at h₁
          split at h₁
          · cases h₁
            rfl
          · cases h₁

/-- Adopting a sender has nothing to do with them. -/
theorem adoptSender_media (env : Vars) (m : Received) (s : Page) :
    SameMedia s (adoptSender env m s) := by
  rcases adoptSender_cases env m s with heq | ⟨_, -, -, heq⟩
  · rw [heq]
    exact .of_pc rfl rfl rfl
  · rw [heq]
    exact .of_pc rfl rfl rfl

theorem onmessage_media (env : Vars) (data : Option Json) (s : Page) :
    SameMedia s (onmessage env data s) := by
  have ha := onmessage_cases env data s
  generalize onmessage env data s = t at ha
  cases ha with
  | @candidate j =>
      have hadopt := adoptSender_media env (s.arrival j) (receive j s)
      rcases handleIceCandidateMessage_cases env (s.arrival j) (receive j s) with
        ⟨-, heq⟩ | heq | ⟨_, -, heq⟩
      · rw [heq]
        exact .of_pc rfl rfl rfl
      · rw [heq]
        exact ⟨hadopt.senders, hadopt.stream, hadopt.request⟩
      · rw [heq]
        exact ⟨hadopt.senders, hadopt.stream, hadopt.request⟩
  | _ => exact .of_pc rfl rfl rfl

theorem resume_media (sdp : String) (call : Call) (s : Page) :
    SameMedia s (resume sdp call s) := by
  refine .of_pc (resume_pc sdp call s) ?_ ?_
  · cases call with
    | offerApplied env offer => rw [resume, sendMessage_eq]
    | answerApplied env m answer => rw [resume, sendMessage_eq]
    | remoteApplied env m isOffer => cases isOffer <;> rfl
    | _ => rfl
  · cases call with
    | offerApplied env offer => rw [resume, sendMessage_eq]
    | answerApplied env m answer => rw [resume, sendMessage_eq]
    | remoteApplied env m isOffer => cases isOffer <;> rfl
    | _ => rfl

theorem onsignalingstatechange_media (states : List SignalingState) (s : Page) :
    SameMedia s (onsignalingstatechange states s) := by
  rw [onsignalingstatechange]
  split
  · exact .of_pc rfl rfl rfl
  · exact .of_pc rfl rfl rfl

/-- On an open connection the track step does not throw. -/
theorem attach_isSome {pc : Pc} (stream : Stream) (hopen : pc.signalingState ≠ .closed) :
    ∃ pc', attach pc stream = some pc' := by
  rw [attach]
  split
  · exact ⟨pc, rfl⟩
  · next hc =>
      have hnone : pc.senders = [] := by simpa [hasTracksAdded] using hc
      exact ⟨_, attach_fresh stream hopen hnone⟩

/-- `createOffer` on an open connection: it stops at a guard, or it passes the track
    step. -/
theorem createOffer_attaches {s : Page} (hopen : s.signaling ≠ some .closed) :
    Attaches s .press (createOffer s.vars s) := by
  cases hpc : s.peerConnectionRef with
  | none =>
      refine .same ?_ ?_
      · rw [createOffer, hpc]
        exact .of_pc rfl rfl rfl
      · rw [trackStep, hpc]
  | some pc =>
      have hstate : pc.signalingState ≠ .closed := by
        intro hc
        exact hopen (by rw [signaling_some hpc, hc])
      cases hstr : s.localStreamRef with
      | none =>
          refine .same ?_ ?_
          · rw [createOffer, hpc, hstr]
            dsimp only
            split <;> exact .of_pc rfl rfl rfl
          · rw [trackStep, hpc, hstr]
      | some stream =>
          by_cases hguard : (!isPeerIdEmpty s.vars.peerId
              && isMediaStreamReady s.vars.isLocalStreamReady (some stream)
              && !s.isNegotiatingRef) = true
          · obtain ⟨pc', hatt⟩ := attach_isSome stream hstate
            have hpass : trackStep s .press = some (pc, stream) := by
              rw [trackStep, hpc, hstr]
              exact if_pos hguard
            obtain ⟨hleft, hneg⟩ := Bool.and_eq_true_iff.mp hguard
            obtain ⟨hpeer, hready⟩ := Bool.and_eq_true_iff.mp hleft
            have hrun : createOffer s.vars s = invoke .createOffer none
                (.offerCreated s.vars) (setNegotiating true (setPc pc' s)) := by
              have hatt' : (if hasTracksAdded pc = true then some pc
                  else addTracksToConnection pc stream) = some pc' := hatt
              rw [createOffer, hpc, hstr]
              dsimp only
              rw [if_neg (by simpa using hpeer), if_neg (by simpa using hready),
                if_neg (by simpa using hneg), hatt']
            rw [hrun]
            exact .tracks hpass hpc hstr hatt rfl rfl rfl
          · refine .same ?_ ?_
            · rw [createOffer, hpc, hstr]
              dsimp only
              split
              · exact .of_pc rfl rfl rfl
              · next hpeer =>
                  split
                  · exact .of_pc rfl rfl rfl
                  · next hready =>
                      split
                      · exact .of_pc rfl rfl rfl
                      · next hneg =>
                          refine absurd ?_ hguard
                          simp only [Bool.not_eq_true] at hpeer hneg
                          simp only [Bool.not_eq_true', Bool.not_eq_false] at hready
                          rw [hpeer, hready, hneg]
                          rfl
            · rw [trackStep, hpc, hstr]
              exact if_neg hguard

/-- `handleSDPMessage` leaves the stream and the media request alone. -/
theorem handleSDPMessage_stream (env : Vars) (m : Received) (s : Page) :
    (handleSDPMessage env m s).localStreamRef = s.localStreamRef ∧
      (handleSDPMessage env m s).mediaRequested = s.mediaRequested := by
  have hadopt := adoptSender_media env m (noteSDP m s)
  rcases handleSDPMessage_cases env m s with
    ⟨-, heq⟩ | ⟨pc, pc', -, -, ⟨heq, -⟩ | ⟨sdp, d, -, -, heq⟩⟩
  · rw [heq]
    exact ⟨rfl, rfl⟩
  · rw [heq]
    exact ⟨hadopt.stream, hadopt.request⟩
  · rw [heq]
    exact ⟨hadopt.stream, hadopt.request⟩

/-- `handleSDPMessage` on an open connection: it passes the track step if the message
    is an offer and there is a stream, and brings no sender otherwise. -/
theorem handleSDPMessage_attaches (env : Vars) (m : Received) {s : Page} {pc : Pc}
    (hpc : s.peerConnectionRef = some pc) (hopen : pc.signalingState ≠ .closed) :
    (sendersOf (handleSDPMessage env m s) = sendersOf s ∧
      ∀ sdp stream, sdpOf m = some sdp → s.localStreamRef = some stream →
        isOfferSdp sdp = false) ∨
    ∃ sdp stream pc', sdpOf m = some sdp ∧ isOfferSdp sdp = true ∧
      s.localStreamRef = some stream ∧ attach pc stream = some pc' ∧
      sendersOf (handleSDPMessage env m s) = some pc'.senders := by
  have hadopt := adoptSender_media env m (noteSDP m s)
  cases hsdp : sdpOf m with
  | none =>
      refine Or.inl ⟨?_, fun _ _ h => (nomatch h)⟩
      rw [handleSDPMessage, hpc, hsdp]
      exact hadopt.senders
  | some sdp =>
      have hstr : (adoptSender env m (noteSDP m s)).localStreamRef = s.localStreamRef :=
        hadopt.stream
      have happly : ∀ pc', tracksForOffer (isOfferSdp sdp) s.localStreamRef pc = some pc' →
          sendersOf (handleSDPMessage env m s) = some pc'.senders := by
        intro pc' htr
        rw [handleSDPMessage, hpc, hsdp]
        dsimp only
        rw [applySDP, hstr, htr]
        dsimp only
        split <;> rfl
      by_cases hoff : isOfferSdp sdp = true ∧ s.localStreamRef.isSome = true
      · obtain ⟨hoff, hsome⟩ := hoff
        obtain ⟨stream, hstream⟩ := Option.isSome_iff_exists.mp hsome
        obtain ⟨pc', hatt⟩ := attach_isSome stream hopen
        refine Or.inr ⟨sdp, stream, pc', rfl, hoff, hstream, hatt, happly pc' ?_⟩
        rw [← hatt, hstream, hoff, tracksForOffer, attach]
        cases hasTracksAdded pc <;> rfl
      · refine Or.inl ⟨?_, fun sdp' stream hs hstream => ?_⟩
        · rw [happly pc ?_, sendersOf, hpc]
          · rfl
          · simp only [tracksForOffer]
            cases hstream : s.localStreamRef with
            | none => rfl
            | some stream =>
                have hno : isOfferSdp sdp = false := by
                  by_contra h
                  exact hoff ⟨by simpa using h, by rw [hstream]; rfl⟩
                rw [hno]
                rfl
        · cases hs
          by_contra h
          exact hoff ⟨by simpa using h, by rw [hstream]; rfl⟩

/-- Effects other than the mount and the hand-over have nothing to do with them. -/
theorem flush_media (es : List Effect) :
    ∀ s : Page, .processPendingSDP ∉ es → .mount ∉ es →
      (es.foldl runEffect s).peerConnectionRef = s.peerConnectionRef ∧
      (es.foldl runEffect s).localStreamRef = s.localStreamRef ∧
      (es.foldl runEffect s).mediaRequested = s.mediaRequested := by
  induction es with
  | nil => exact fun s _ _ => ⟨rfl, rfl, rfl⟩
  | cons e es ih =>
      intro s hsdp hmount
      cases e with
      | syncPeerId =>
          exact ih (runEffect s .syncPeerId) (fun h => hsdp (List.mem_cons_of_mem _ h))
            (fun h => hmount (List.mem_cons_of_mem _ h))
      | mount => exact absurd (List.mem_cons_self ..) hmount
      | processPendingSDP => exact absurd (List.mem_cons_self ..) hsdp

/-- No effect touches the stream. -/
theorem flush_stream (es : List Effect) (s : Page) :
    (es.foldl runEffect s).localStreamRef = s.localStreamRef := by
  refine flush_induction (P := fun t => t.localStreamRef = s.localStreamRef)
    (fun t e ht => ?_) es s rfl
  cases e with
  | syncPeerId => exact ht
  | mount => exact ht
  | processPendingSDP =>
      rcases processPendingSDP_cases t with ⟨heq, -⟩ | ⟨m, -, -, heq⟩
      · rw [heq]
        exact ht
      · rw [heq]
        exact (handleSDPMessage_stream t.vars m t).1.trans ht

/-- Nothing is handed over, so no track step is passed. -/
theorem trackStep_flush_none {s : Page} (h : handed s = none) :
    trackStep s .flushEffects = none := by
  rw [trackStep, h]
  rfl

/-- The hand-over of a message, in a page `t` that has the connection and the stream of
    the page `s` before the flush. -/
theorem handOver_attaches {s t : Page} {m : Received} (hh : handed s = some m)
    (hpc : t.peerConnectionRef = s.peerConnectionRef)
    (hstr : t.localStreamRef = s.localStreamRef)
    (hreq : t.mediaRequested = s.mediaRequested) (hopen : s.signaling ≠ some .closed) :
    Attaches s .flushEffects (enqueue (.setPendingSDP none) (handleSDPMessage t.vars m t)) := by
  obtain ⟨hstr', hreq'⟩ := handleSDPMessage_stream t.vars m t
  cases hs : s.peerConnectionRef with
  | none =>
      have hrun : handleSDPMessage t.vars m t = noteSDP m t := by
        rw [handleSDPMessage, hpc, hs]
      refine .same ⟨?_, hstr'.trans hstr, hreq'.trans hreq⟩ ?_
      · rw [hrun, sendersOf, sendersOf, hs]
        show t.peerConnectionRef.map _ = _
        rw [hpc, hs]
      · rw [trackStep, hs]
        cases (handed s).bind sdpOf <;> rfl
  | some pc =>
      have hstate : pc.signalingState ≠ .closed := by
        intro hc
        exact hopen (by rw [signaling_some hs, hc])
      have hsame : sendersOf t = sendersOf s := by rw [sendersOf, hpc, sendersOf]
      rcases handleSDPMessage_attaches t.vars m (hpc.trans hs) hstate with
        ⟨hsend, hnot⟩ | ⟨sdp, stream, pc', hsdp, hoff, hstream, hatt, hsend⟩
      · refine .same ⟨hsend.trans hsame, hstr'.trans hstr, hreq'.trans hreq⟩ ?_
        rw [trackStep, hh, hs, Option.bind_some]
        cases hsdp : sdpOf m with
        | none => rfl
        | some sdp =>
            cases hstream : s.localStreamRef with
            | none => rfl
            | some stream =>
                dsimp only
                rw [hnot sdp stream hsdp (hstr.trans hstream)]
                rfl
      · refine .tracks ?_ hs (hstr.symm.trans hstream) hatt hsend (hstr'.trans hstr)
          (hreq'.trans hreq)
        rw [trackStep, hh, hs, Option.bind_some, hsdp, hstr.symm.trans hstream]
        dsimp only
        rw [hoff]
        rfl

/-- What a flush does to them. -/
theorem flush_attaches {s : Page} (hm : MountRender s) (ho : EffectOrder s.effects)
    (hopen : s.signaling ≠ some .closed) :
    Attaches s .flushEffects (s.effects.foldl runEffect { s with effects := [] }) := by
  have hfirst : Effect.mount ∈ s.effects → handed s = none := by
    intro hmount
    exact handed_none (Or.inr (fun _ => by rw [hm.due hmount]; rfl))
  rcases ho.last with hnot | ⟨es, hes, hnot⟩
  · by_cases hmount : Effect.mount ∈ s.effects
    · exact .mounts (hm.first hmount)
        ((flush_talk s.effects _ hnot).2.2 (Or.inl hmount))
        (flush_stream s.effects { s with effects := [] })
        (trackStep_flush_none (hfirst hmount))
    · obtain ⟨hpc, hstr, hreq⟩ := flush_media s.effects { s with effects := [] } hnot hmount
      exact .same (.of_pc hpc hstr hreq) (trackStep_flush_none (handed_none (Or.inl hnot)))
  · have hdue : Effect.processPendingSDP ∈ s.effects := by rw [hes]; simp
    have hmem : Effect.mount ∈ s.effects ↔ Effect.mount ∈ es := by rw [hes]; simp
    have hvars := flush_vars es { s with effects := [] }
    have hnew := (flush_talk es { s with effects := [] } hnot).2.2
    have hkept := flush_media es { s with effects := [] } hnot
    have hstream := flush_stream es { s with effects := [] }
    rw [hes, List.foldl_append, List.foldl_cons, List.foldl_nil]
    generalize es.foldl runEffect { s with effects := [] } = t at *
    by_cases hmount : Effect.mount ∈ es
    · -- nothing is pending in the first render
      have hinit := hm.due (hmem.mpr hmount)
      rcases processPendingSDP_cases t with ⟨heq, -⟩ | ⟨m, hmt, -, -⟩
      · rw [heq]
        exact .mounts (hm.first (hmem.mpr hmount)) (hnew (Or.inl hmount)) hstream
          (trackStep_flush_none (hfirst (hmem.mpr hmount)))
      · rw [hvars, hinit] at hmt
        exact nomatch hmt
    · obtain ⟨hpc, hstr, hreq⟩ := hkept hmount
      rcases processPendingSDP_cases t with ⟨heq, hnone⟩ | ⟨m, hmt, hid, heq⟩
      · rw [heq]
        rw [hvars] at hnone
        exact .same (.of_pc hpc hstr hreq)
          (trackStep_flush_none (handed_none (Or.inr hnone)))
      · rw [heq]
        rw [hvars] at hmt hid
        refine handOver_attaches ?_ hpc hstr hreq hopen
        rw [handed, if_pos ⟨hdue, hid⟩]
        exact hmt

/-- A media request settles only if there is one. -/
theorem userMedia_requested {s s' : Page} {o : Option Stream}
    (h : step s (.userMedia o) = some s') : s.mediaRequested = true := by
  unfold step at h
  split at h
  · exact nomatch h
  · dsimp only at h
    split at h
    · next hreq => exact hreq
    · exact nomatch h

/-- **INVERSION**, as to senders and stream. -/
theorem step_attaches {s s' : Page} {e : Event} (hr : Reachable page s)
    (h : step s e = some s') : Attaches s e s' := by
  have hm := mountRender_reachable hr
  have hopen := isOpen_reachable hr
  cases step_cases h with
  | render => exact .same (.of_pc rfl rfl rfl) rfl
  | flushEffects hmt => exact flush_attaches hm ((slot_reachable hr).order) (hopen hmt)
  | message => exact .same (onmessage_media _ _ s) rfl
  | iceCandidate _ henv =>
      rw [hm.captured _ henv, onicecandidate_initial]
      exact .same (.of_pc rfl rfl rfl) rfl
  | iceConnectionState => exact .same (.of_pc rfl rfl rfl) rfl
  | mediaGranted => exact .granted (userMedia_requested h) rfl rfl rfl
  | mediaDenied => exact .denied rfl rfl rfl
  | edit => exact .same (.of_pc rfl rfl rfl) rfl
  | press hmt => exact createOffer_attaches (hopen hmt)
  | @rejected pc op call rest =>
      refine .same ?_ rfl
      cases call <;> exact .of_pc rfl rfl rfl
  | @fulfilled pc pc' op call rest sdp sections states _ hpc hchain hperf =>
      have hres := resume_media sdp call (onsignalingstatechange states
        (setPc pc' (setChain rest s)))
      have hsig := onsignalingstatechange_media states (setPc pc' (setChain rest s))
      have hsend : sendersOf (resume sdp call (onsignalingstatechange states
          (setPc pc' (setChain rest s)))) = some pc'.senders :=
        hres.senders.trans hsig.senders
      rcases perform_senders hperf with hkeep | ⟨d, rfl, hty, hnew⟩
      · refine .same ⟨?_, hres.stream.trans hsig.stream, hres.request.trans hsig.request⟩ rfl
        rw [hsend, hkeep, sendersOf, hpc]
        rfl
      · exact .offered hpc hchain hty (by rw [hsend, hnew])
          (hres.stream.trans hsig.stream) (hres.request.trans hsig.request)
  | unmount =>
      refine .same ⟨?_, rfl, rfl⟩ rfl
      rw [sendersOf, sendersOf, Option.map_map]
      rfl

/-! ## The invariant -/

/-- No senders before there is a stream; then none, or one for every track; and
    `addTrack` was called for nothing, or once for every track. -/
structure Settled (p : Page × List Track) : Prop where
  before : sendersOf p.1 = none → p.1.localStreamRef = none ∧ p.1.mediaRequested = false
  asked : p.1.mediaRequested = true → p.1.localStreamRef = none
  bare : p.1.localStreamRef = none → ∀ l, sendersOf p.1 = some l → l = []
  carried : ∀ l stream, sendersOf p.1 = some l → p.1.localStreamRef = some stream →
    l = [] ∨ ∀ t ∈ stream.tracks, carriers l t = 1
  log : p.2 = [] ∨ ∃ l stream, sendersOf p.1 = some l ∧ l ≠ [] ∧
    p.1.localStreamRef = some stream ∧ p.2 = stream.tracks

theorem Settled.of_same {p : Page × List Track} {t : Page} (hi : Settled p)
    (h : SameMedia p.1 t) : Settled (t, p.2) := by
  obtain ⟨hsend, hstr, hreq⟩ := h
  refine ⟨fun hn => ?_, fun hr => ?_, fun hn l hl => ?_, fun l stream hl hs => ?_, ?_⟩
  · rw [hsend] at hn
    rw [hstr, hreq]
    exact hi.before hn
  · rw [hreq] at hr
    rw [hstr]
    exact hi.asked hr
  · rw [hstr] at hn
    rw [hsend] at hl
    exact hi.bare hn l hl
  · rw [hsend] at hl
    rw [hstr] at hs
    exact hi.carried l stream hl hs
  · show p.2 = [] ∨ ∃ l stream, sendersOf t = some l ∧ _
    rw [hsend, hstr]
    exact hi.log

/-- With no stream nothing has been added. -/
theorem Settled.unlogged {p : Page × List Track} (hi : Settled p)
    (h : p.1.localStreamRef = none) : p.2 = [] := by
  rcases hi.log with hl | ⟨_, _, -, -, hs, -⟩
  · exact hl
  · rw [h] at hs
    exact nomatch hs

/-- What the track step does in such a state: every track is carried once, and what
    was added so far, with what is added now, is nothing or every track once. -/
theorem settled_attach {p : Page × List Track} {pc pc' : Pc} {stream : Stream}
    (hi : Settled p) (hopen : pc.signalingState ≠ .closed)
    (hpc : p.1.peerConnectionRef = some pc) (hstr : p.1.localStreamRef = some stream)
    (hatt : attach pc stream = some pc') :
    (∀ t ∈ stream.tracks, carriers pc'.senders t = 1) ∧
      (p.2 ++ (if hasTracksAdded pc then [] else addTrackCalls pc stream.tracks) = [] ∨
        pc'.senders ≠ [] ∧ p.2 ++ (if hasTracksAdded pc then []
          else addTrackCalls pc stream.tracks) = stream.tracks) := by
  have hsend : sendersOf p.1 = some pc.senders := by
    rw [sendersOf, hpc]
    rfl
  by_cases hadded : hasTracksAdded pc = true
  · -- there are senders, so the tracks are on them
    have hne : pc.senders ≠ [] := by
      intro hnil
      rw [hasTracksAdded, hnil] at hadded
      cases hadded
    rw [attach, if_pos hadded] at hatt
    cases hatt
    rw [if_pos hadded, List.append_nil]
    refine ⟨(hi.carried _ _ hsend hstr).resolve_left hne, ?_⟩
    rcases hi.log with hl | ⟨_, stream', -, -, hs, hl⟩
    · exact Or.inl hl
    · rw [hstr] at hs
      cases hs
      exact Or.inr ⟨hne, hl⟩
  · have hnil : pc.senders = [] := by simpa [hasTracksAdded] using hadded
    have hfold := attach_fresh stream hopen hnil
    rw [attach, if_neg hadded, hfold] at hatt
    cases hatt
    rw [if_neg hadded, addTrackCalls_eq stream.tracks hfold]
    have hnone : p.2 = [] := by
      rcases hi.log with hl | ⟨l, _, hl, hne, -⟩
      · exact hl
      · rw [hsend, hnil] at hl
        exact absurd (Option.some.inj hl).symm hne
    rw [hnone, List.nil_append]
    refine ⟨fun t ht => carriers_fresh stream ht, ?_⟩
    cases htr : stream.tracks with
    | nil => exact Or.inl rfl
    | cons t ts => exact Or.inr ⟨fun h => (by cases h), rfl⟩

/-- An offer was applied that brings senders of its own, or none. -/
theorem settled_offered {p : Page × List Track} {t : Page} {pc : Pc} {sections : List Kind}
    (hi : Settled p) (hpc : p.1.peerConnectionRef = some pc)
    (hfirst : sections = [] ∨ attached p.1 = true)
    (hsend : sendersOf t = some (pc.addSections sections).senders)
    (hstr : t.localStreamRef = p.1.localStreamRef)
    (hreq : t.mediaRequested = p.1.mediaRequested) : Settled (t, p.2) := by
  have hs : sendersOf p.1 = some pc.senders := by
    rw [sendersOf, hpc]
    rfl
  rcases hfirst with rfl | hatt
  · refine hi.of_same ⟨?_, hstr, hreq⟩
    rw [hsend, hs, Pc.addSections, List.map_nil, List.append_nil]
  · -- the tracks are on the connection already
    cases hstream : p.1.localStreamRef with
    | none =>
        rw [attached, hpc, hstream] at hatt
        exact nomatch hatt
    | some stream =>
        rw [attached, hpc, hstream] at hatt
        refine ⟨fun hn => ?_, fun hr => ?_, fun hn => ?_, fun l' stream' hl hs' => ?_, ?_⟩
        · rw [hsend] at hn
          exact nomatch hn
        · exact hstr.trans (hi.asked (hreq.symm.trans hr))
        · rw [hstr, hstream] at hn
          exact nomatch hn
        · rw [hsend] at hl
          rw [hstr, hstream] at hs'
          cases hl
          cases hs'
          refine Or.inr (fun u hu => ?_)
          rw [carriers_sections]
          exact of_decide_eq_true (List.all_eq_true.mp hatt u hu)
        · rcases hi.log with hl | ⟨l', stream', hl', hne, hs', hl⟩
          · exact Or.inl hl
          · refine Or.inr ⟨_, stream', hsend, ?_, hstr.trans hs', hl⟩
            rw [hs] at hl'
            cases hl'
            exact List.append_ne_nil_of_left_ne_nil hne _

theorem settled_step {p p' : Page × List Track} {e : Event} (hr : Reachable page p.1)
    (hi : Settled p) (hk : TracksFirst p e)
    (h : (logged page trackCalls).step p e = some p') : Settled p' := by
  obtain ⟨hst, hlog⟩ := logged_step h
  obtain ⟨t, l⟩ := p'
  replace hst : step p.1 e = some t := hst
  replace hlog : l = p.2 ++ trackCalls p.1 e := hlog
  have hquiet : trackStep p.1 e = none → l = p.2 := by
    intro hnone
    rw [hlog, trackCalls, hnone, List.append_nil]
  cases step_attaches hr hst with
  | same hsame hnone =>
      rw [hquiet hnone]
      exact hi.of_same hsame
  | mounts hpc hnew hstr hnone =>
      have hs : sendersOf p.1 = none := by
        rw [sendersOf, hpc]
        rfl
      have hs' : sendersOf t = some [] := by
        rw [sendersOf, hnew]
        rfl
      have hstream : t.localStreamRef = none := hstr.trans (hi.before hs).1
      refine ⟨fun hn => ?_, fun _ => hstream, fun _ l' hl => ?_, fun l' stream _ hs => ?_,
        Or.inl ?_⟩
      · rw [hs'] at hn
        exact nomatch hn
      · rw [hs'] at hl
        exact (Option.some.inj hl).symm
      · rw [hstream] at hs
        exact nomatch hs
      · exact (hquiet hnone).trans (hi.unlogged (hi.before hs).1)
  | @granted stream _ hreq hsend hstr hreq' =>
      have hnone := hi.asked hreq
      refine ⟨fun hn => ?_, fun hr => ?_, fun hn => ?_, fun l' _ hl _ => Or.inl ?_,
        Or.inl ((hquiet rfl).trans (hi.unlogged hnone))⟩
      · rw [hsend] at hn
        rw [(hi.before hn).2] at hreq
        exact nomatch hreq
      · rw [hreq'] at hr
        exact nomatch hr
      · rw [hstr] at hn
        exact nomatch hn
      · rw [hsend] at hl
        exact hi.bare hnone l' hl
  | denied hsend hstr hreq =>
      rw [hquiet rfl]
      refine ⟨fun hn => ?_, fun hr => ?_, fun hn l hl => ?_, fun l stream hl hs => ?_, ?_⟩
      · rw [hsend] at hn
        exact ⟨hstr.trans (hi.before hn).1, hreq⟩
      · rw [hreq] at hr
        exact nomatch hr
      · rw [hsend] at hl
        exact hi.bare (hstr.symm.trans hn) l hl
      · rw [hsend] at hl
        exact hi.carried l stream hl (hstr.symm.trans hs)
      · show p.2 = [] ∨ ∃ l stream, sendersOf t = some l ∧ _
        rw [hsend, hstr]
        exact hi.log
  | @tracks _ _ pc pc' stream hpass hpc hstr hatt hsend hstr' hreq =>
      have hopen : pc.signalingState ≠ .closed := by
        intro hc
        exact isOpen_reachable hr (step_mounted hst) (by rw [signaling_some hpc, hc])
      obtain ⟨hcarried, hcalls⟩ := settled_attach hi hopen hpc hstr hatt
      have hstream : t.localStreamRef = some stream := hstr'.trans hstr
      refine ⟨fun hn => ?_, fun hr => ?_, fun hn => ?_, fun l' stream' hl hs => ?_, ?_⟩
      · rw [hsend] at hn
        exact nomatch hn
      · rw [hi.asked (hreq.symm.trans hr)] at hstr
        exact nomatch hstr
      · rw [hstream] at hn
        exact nomatch hn
      · rw [hsend] at hl
        rw [hstream] at hs
        cases hl
        cases hs
        exact Or.inr hcarried
      · have hnote : l = p.2 ++ (if hasTracksAdded pc then []
            else addTrackCalls pc stream.tracks) := by
          rw [hlog, trackCalls, hpass]
        rcases hcalls with hl | ⟨hne, hl⟩
        · exact Or.inl (hnote.trans hl)
        · exact Or.inr ⟨pc'.senders, stream, hsend, hne, hstream, hnote.trans hl⟩
  | @offered sdp sections _ pc d call rest hpc hchain hty hsend hstr hreq =>
      rw [hquiet rfl]
      refine settled_offered hi hpc ?_ hsend hstr hreq
      have hk' : tracksFirst p.1 (.settle (.fulfilled sdp sections)) = true := hk
      simpa [tracksFirst, hchain, hty] using hk'

theorem settled_reachVia {p : Page × List Track}
    (h : ReachVia (logged page trackCalls) TracksFirst p) : Settled p := by
  refine ReachVia.invariant (fun p h0 => ?_) (fun p e p' hr hi hk hst => ?_) h
  · obtain ⟨s, l⟩ := p
    obtain ⟨hs, hl⟩ := h0
    cases hs
    cases hl
    exact ⟨fun _ => ⟨rfl, rfl⟩, fun h => (nomatch h), fun _ _ hl => (nomatch hl),
      fun _ _ hl => (nomatch hl), Or.inl rfl⟩
  · refine settled_step ?_ hi hk hst
    exact ReachVia.reachable (ReachVia.unlogged (C := fun s e => tracksFirst s e = true) hr)

/-- **THE LOCAL TRACKS ARE ATTACHED EXACTLY ONCE**, in every run in which a remote offer
    brings senders only when the tracks are on the connection: `addTrack` is never
    called twice for a track, and after every step that passes the track step with a
    stream each of its tracks is carried by exactly one sender. -/
theorem tracks_attached_once {p : Page × List Track}
    (h : ReachVia (logged page trackCalls) TracksFirst p) :
    p.2.Nodup ∧ ∀ e s' pc stream, step p.1 e = some s' →
      trackStep p.1 e = some (pc, stream) →
      ∃ pc', s'.peerConnectionRef = some pc' ∧
        ∀ t ∈ stream.tracks, carriers pc'.senders t = 1 := by
  have hr : Reachable page p.1 :=
    ReachVia.reachable (ReachVia.unlogged (C := fun s e => tracksFirst s e = true) h)
  have hi := settled_reachVia h
  refine ⟨?_, fun e s' pc stream hst hpass => ?_⟩
  · rcases hi.log with hl | ⟨_, stream, -, -, -, hl⟩
    · rw [hl]
      exact List.nodup_nil
    · rw [hl]
      exact stream.nodup
  · cases step_attaches hr hst with
    | same _ hnone =>
        rw [hnone] at hpass
        exact nomatch hpass
    | mounts _ _ _ hnone =>
        rw [hnone] at hpass
        exact nomatch hpass
    | @tracks _ _ pc₁ pc' stream₁ hpass' hpc hstr hatt hsend =>
        rw [hpass'] at hpass
        cases hpass
        have hopen : pc.signalingState ≠ .closed := by
          intro hc
          exact isOpen_reachable hr (step_mounted hst) (by rw [signaling_some hpc, hc])
        obtain ⟨pc₂, hpc₂, hsend₂⟩ := Option.map_eq_some_iff.mp hsend
        refine ⟨pc₂, hpc₂, fun t ht => ?_⟩
        rw [hsend₂]
        exact (settled_attach hi hopen hpc hstr hatt).1 t ht
    | granted => exact nomatch hpass
    | denied => exact nomatch hpass
    | offered => exact nomatch hpass

/-! ## Two runs -/

/-- The page and its `addTrack` calls after a list of events. -/
def tracksAfter (es : List Event) : Page × List Track :=
  LtsRun.after (logged page trackCalls) (.initial, []) es

/-- An offer is answered before the camera is ready; then the user calls. -/
def lateCameraRun : List Event :=
  welcomedRun ++ [.message (some (offerFrom "b" "1")), .render, .flushEffects,
    .settle (.fulfilled "" [.video]), .settle (.fulfilled "answer" []),
    .settle (.fulfilled "" []), .userMedia (some CamGuard.camera), .render, .flushEffects]

/-- The press passes the track step, and the camera's track is carried by no sender. -/
theorem track_never_attached :
    ∃ p : Page × List Track, Reachable (logged page trackCalls) p ∧
      ∃ s' pc, step p.1 .press = some s' ∧
        trackStep p.1 .press = some (pc, CamGuard.camera) ∧
        s'.peerConnectionRef.map (fun pc' => CamGuard.camera.tracks.map
          (carriers pc'.senders)) = some [0] ∧ p.2 = [] :=
  ⟨tracksAfter lateCameraRun,
    ReachVia.of_after (c := fun _ _ => true) (fun _ _ _ => trivial) (logged_init rfl)
      (by decide +kernel),
    (step (tracksAfter lateCameraRun).1 .press).getD .initial,
    (tracksAfter lateCameraRun).1.peerConnectionRef.getD .new,
    by decide +kernel, by decide +kernel, by decide +kernel, by decide +kernel⟩

/-- The camera is ready before the offer comes, which also brings a section for audio;
    after the answer the user calls. -/
def earlyCameraRun : List Event :=
  welcomedRun ++ [.userMedia (some CamGuard.camera), .message (some (offerFrom "b" "1")),
    .render, .flushEffects, .settle (.fulfilled "" [.audio]),
    .settle (.fulfilled "answer" []), .settle (.fulfilled "" []), .render, .flushEffects]

theorem earlyCameraRun_reachVia :
    ReachVia (logged page trackCalls) TracksFirst (tracksAfter earlyCameraRun) :=
  ReachVia.of_after (fun _ _ hc => hc) (logged_init rfl) (by decide +kernel)

theorem tracks_attached_once_sample :
    (tracksAfter earlyCameraRun).2 = CamGuard.camera.tracks ∧
    ∃ pc', ((step (tracksAfter earlyCameraRun).1 .press).getD .initial).peerConnectionRef
        = some pc' ∧
      ∀ t ∈ CamGuard.camera.tracks, carriers pc'.senders t = 1 :=
  ⟨by decide +kernel, (tracks_attached_once earlyCameraRun_reachVia).2 .press _
    ((tracksAfter earlyCameraRun).1.peerConnectionRef.getD .new) CamGuard.camera
    (by decide +kernel) (by decide +kernel)⟩

end CamTracks
