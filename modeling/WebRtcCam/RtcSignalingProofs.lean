import WebRtcCam.Utf16Proofs

/-! # The signaling state machine of a peer connection

    The part of an `RTCPeerConnection` that offer/answer programs steer: the six
    signaling states, the current and pending descriptions on both sides, and the
    senders.  `applyLocal` and `applyRemote` are the successful effects of
    `setLocalDescription` and `setRemoteDescription`; they are `none` where the
    state machine rejects the call, and a rejected call changes nothing.

    A remote offer applied in `have-local-offer` rolls the local offer back first,
    so such a call passes through `stable` and announces it. -/

namespace RtcSignaling

open Utf16 (JsString)

/-- `RTCSdpType`. -/
inductive SdpType where
  | offer | answer | pranswer | rollback
  deriving DecidableEq, Repr

/-- `RTCSessionDescription`. -/
structure Desc where
  type : SdpType
  sdp : JsString
  deriving DecidableEq, Repr

/-- `RTCSignalingState`. -/
inductive SignalingState where
  | stable | haveLocalOffer | haveRemoteOffer
  | haveLocalPranswer | haveRemotePranswer | closed
  deriving DecidableEq, Repr

/-- The kind of a track or of a media section. -/
inductive Kind where
  | audio | video
  deriving DecidableEq, Repr

/-- `MediaStreamTrack`. -/
structure Track where
  id : Nat
  kind : Kind
  deriving DecidableEq, Repr

/-- `MediaStream`: its tracks are distinct. -/
structure Stream where
  tracks : List Track
  nodup : tracks.Nodup
  deriving DecidableEq

/-- `RTCRtpSender`. -/
structure Sender where
  kind : Kind
  track : Option Track
  deriving DecidableEq, Repr

/-- `RTCPeerConnection`. -/
structure Pc where
  signalingState : SignalingState
  currentLocal : Option Desc
  pendingLocal : Option Desc
  currentRemote : Option Desc
  pendingRemote : Option Desc
  senders : List Sender
  deriving DecidableEq, Repr

/-- `new RTCPeerConnection()`. -/
def Pc.new : Pc where
  signalingState := .stable
  currentLocal := none
  pendingLocal := none
  currentRemote := none
  pendingRemote := none
  senders := []

/-- `localDescription`. -/
def Pc.localDescription (pc : Pc) : Option Desc := pc.pendingLocal <|> pc.currentLocal

/-- `remoteDescription`. -/
def Pc.remoteDescription (pc : Pc) : Option Desc :=
  pc.pendingRemote <|> pc.currentRemote

/-- Negotiation is over: the pending pair becomes the current one. -/
def Pc.settleOn (pc : Pc) (localDesc remoteDesc : Option Desc) : Pc :=
  { pc with
    signalingState := .stable
    currentLocal := localDesc
    currentRemote := remoteDesc
    pendingLocal := none
    pendingRemote := none }

/-- Discard whatever is pending. -/
def Pc.rollback (pc : Pc) : Pc :=
  { pc with signalingState := .stable, pendingLocal := none, pendingRemote := none }

/-- The effect of `setLocalDescription`. -/
def Pc.applyLocal (pc : Pc) (d : Desc) : Option Pc :=
  match d.type with
  | .offer =>
      if pc.signalingState = .stable ∨ pc.signalingState = .haveLocalOffer then
        some { pc with signalingState := .haveLocalOffer, pendingLocal := some d }
      else none
  | .answer =>
      if pc.signalingState = .haveRemoteOffer
          ∨ pc.signalingState = .haveLocalPranswer then
        some (pc.settleOn (some d) pc.pendingRemote)
      else none
  | .pranswer =>
      if pc.signalingState = .haveRemoteOffer
          ∨ pc.signalingState = .haveLocalPranswer then
        some { pc with signalingState := .haveLocalPranswer, pendingLocal := some d }
      else none
  | .rollback =>
      if pc.signalingState = .haveLocalOffer
          ∨ pc.signalingState = .haveRemoteOffer then
        some pc.rollback
      else none

/-- The senders a remote offer creates, one for each media section that no local
    track was added for. -/
def Pc.addSections (pc : Pc) (sections : List Kind) : Pc :=
  { pc with senders := pc.senders ++ sections.map (fun k => ⟨k, none⟩) }

/-- The effect of `setRemoteDescription`.  An offer in `have-local-offer` first
    discards the pending local offer. -/
def Pc.applyRemote (pc : Pc) (d : Desc) (sections : List Kind) : Option Pc :=
  match d.type with
  | .offer =>
      if pc.signalingState = .stable ∨ pc.signalingState = .haveRemoteOffer
          ∨ pc.signalingState = .haveLocalOffer then
        some ({ pc with
          signalingState := .haveRemoteOffer
          pendingLocal := none
          pendingRemote := some d }.addSections sections)
      else none
  | .answer =>
      if pc.signalingState = .haveLocalOffer
          ∨ pc.signalingState = .haveRemotePranswer then
        some (pc.settleOn pc.pendingLocal (some d))
      else none
  | .pranswer =>
      if pc.signalingState = .haveLocalOffer
          ∨ pc.signalingState = .haveRemotePranswer then
        some { pc with
          signalingState := .haveRemotePranswer, pendingRemote := some d }
      else none
  | .rollback =>
      if pc.signalingState = .haveLocalOffer
          ∨ pc.signalingState = .haveRemoteOffer then
        some pc.rollback
      else none

/-- The states announced by `signalingstatechange` on the way from one state to
    another: an implicit rollback announces `stable` as well. -/
def announced (d : Desc) (before after : SignalingState) : List SignalingState :=
  if d.type = .offer ∧ before = .haveLocalOffer ∧ after = .haveRemoteOffer then
    [.stable, .haveRemoteOffer]
  else if before = after then []
  else [after]

/-- The asynchronous operations of a peer connection, `γ` being candidates. -/
inductive PcOp (γ : Type) where
  | createOffer
  | createAnswer
  | setLocalDescription (d : Desc)
  | setRemoteDescription (d : Desc)
  | addIceCandidate (c : γ)
  deriving DecidableEq, Repr

/-- How an operation settles: the text of the description it created, or the media
    sections of a remote offer that no local track was added for. -/
inductive Outcome where
  | fulfilled (sdp : String) (sections : List Kind)
  | rejected
  deriving DecidableEq

/-- The effect of an operation that is fulfilled, with the states it announces;
    `none` where the state machine rejects it. -/
def Pc.perform {γ : Type} (pc : Pc) (sections : List Kind) :
    PcOp γ → Option (Pc × List SignalingState)
  | .createOffer =>
      if pc.signalingState = .stable ∨ pc.signalingState = .haveLocalOffer then
        some (pc, [])
      else none
  | .createAnswer =>
      if pc.signalingState = .haveRemoteOffer
          ∨ pc.signalingState = .haveLocalPranswer then
        some (pc, [])
      else none
  | .setLocalDescription d =>
      (pc.applyLocal d).map
        (fun pc' => (pc', announced d pc.signalingState pc'.signalingState))
  | .setRemoteDescription d =>
      (pc.applyRemote d sections).map
        (fun pc' => (pc', announced d pc.signalingState pc'.signalingState))
  | .addIceCandidate _ =>
      if pc.remoteDescription.isSome then some (pc, []) else none

/-- `addTrack`: an exception when the connection is closed or already carries the
    track; a sender created by a remote offer is reused for a track of its
    kind. -/
def Pc.addTrack (pc : Pc) (t : Track) : Option Pc :=
  if pc.signalingState = .closed then none
  else if pc.senders.any (fun s => s.track = some t) then none
  else
    match pc.senders.findIdx? (fun s => s.kind = t.kind ∧ s.track = none) with
    | some i => some { pc with senders := pc.senders.set i ⟨t.kind, some t⟩ }
    | none => some { pc with senders := pc.senders ++ [⟨t.kind, some t⟩] }

/-- `close()`. -/
def Pc.close (pc : Pc) : Pc := { pc with signalingState := .closed }

section Lemmas

variable {pc pc' : Pc} {d : Desc} {γ : Type} {sections : List Kind}
  {states : List SignalingState}

/-- A local offer is applied in `stable` or over an earlier local offer. -/
theorem applyLocal_offer (hd : d.type = .offer) (h : pc.applyLocal d = some pc') :
    pc'.signalingState = .haveLocalOffer ∧ pc'.pendingLocal = some d ∧
      pc'.currentLocal = pc.currentLocal ∧ pc'.currentRemote = pc.currentRemote ∧
      (pc.signalingState = .stable ∨ pc.signalingState = .haveLocalOffer) := by
  simp only [Pc.applyLocal, hd] at h
  split at h
  · next hs => cases h; exact ⟨rfl, rfl, rfl, rfl, hs⟩
  · exact nomatch h

/-- A local answer completes the negotiation of the pending remote offer. -/
theorem applyLocal_answer (hd : d.type = .answer)
    (h : pc.applyLocal d = some pc') :
    pc' = pc.settleOn (some d) pc.pendingRemote ∧
      pc.signalingState ≠ .stable := by
  simp only [Pc.applyLocal, hd] at h
  split at h
  · next hs =>
      cases h
      refine ⟨rfl, ?_⟩
      rcases hs with hs | hs <;> simp [hs]
  · exact nomatch h

/-- A remote offer leads to `have-remote-offer`. -/
theorem applyRemote_offer (hd : d.type = .offer)
    (h : pc.applyRemote d sections = some pc') :
    pc'.signalingState = .haveRemoteOffer ∧ pc'.pendingRemote = some d ∧
      pc'.pendingLocal = none := by
  simp only [Pc.applyRemote, hd] at h
  split at h
  · cases h; exact ⟨rfl, rfl, rfl⟩
  · exact nomatch h

/-- A remote answer completes the negotiation of the pending local offer. -/
theorem applyRemote_answer (hd : d.type = .answer)
    (h : pc.applyRemote d sections = some pc') :
    pc' = pc.settleOn pc.pendingLocal (some d) ∧
      (pc.signalingState = .haveLocalOffer ∨
        pc.signalingState = .haveRemotePranswer) := by
  simp only [Pc.applyRemote, hd] at h
  split at h
  · next hs => cases h; exact ⟨rfl, hs⟩
  · exact nomatch h

/-- Whoever enters `stable` announces it. -/
theorem stable_announced {before after : SignalingState} (h : after = .stable)
    (hne : before ≠ .stable) : .stable ∈ announced d before after := by
  subst h
  simp [announced, hne]

/-- An announcement of `stable` is an arrival there or an implicit rollback. -/
theorem announced_stable {before after : SignalingState}
    (h : .stable ∈ announced d before after) :
    after = .stable ∨
      (d.type = .offer ∧ before = .haveLocalOffer ∧ after = .haveRemoteOffer) := by
  rw [announced] at h
  split at h
  · next hc => exact Or.inr hc
  · split at h
    · exact nomatch h
    · exact Or.inl (List.mem_singleton.mp h).symm

/-! ### What a fulfilled operation did -/

/-- Creating a description and adding a candidate change nothing. -/
theorem perform_createOffer (h : pc.perform sections (.createOffer : PcOp γ)
    = some (pc', states)) :
    pc' = pc ∧ states = [] ∧
      (pc.signalingState = .stable ∨ pc.signalingState = .haveLocalOffer) := by
  simp only [Pc.perform] at h
  split at h
  · next hs => cases h; exact ⟨rfl, rfl, hs⟩
  · exact nomatch h

theorem perform_createAnswer (h : pc.perform sections (.createAnswer : PcOp γ)
    = some (pc', states)) :
    pc' = pc ∧ states = [] ∧ (pc.signalingState = .haveRemoteOffer ∨
      pc.signalingState = .haveLocalPranswer) := by
  simp only [Pc.perform] at h
  split at h
  · next hs => cases h; exact ⟨rfl, rfl, hs⟩
  · exact nomatch h

theorem perform_addIceCandidate {c : γ} (h : pc.perform sections (.addIceCandidate c)
    = some (pc', states)) : pc' = pc ∧ states = [] := by
  simp only [Pc.perform] at h
  split at h
  · cases h; exact ⟨rfl, rfl⟩
  · exact nomatch h

/-- A local offer is outstanding, and `stable` was not announced. -/
theorem perform_localOffer (hd : d.type = .offer)
    (h : pc.perform sections (.setLocalDescription d : PcOp γ) = some (pc', states)) :
    pc'.signalingState = .haveLocalOffer ∧ pc'.pendingLocal = some d ∧
      .stable ∉ states ∧
      (pc.signalingState = .stable ∨ pc.signalingState = .haveLocalOffer) := by
  obtain ⟨pc₁, h₁, h₂⟩ := Option.map_eq_some_iff.mp h
  cases h₂
  obtain ⟨hst, hpend, -, -, hbefore⟩ := applyLocal_offer hd h₁
  refine ⟨hst, hpend, fun hs => ?_, hbefore⟩
  rcases announced_stable hs with hs | ⟨-, -, hs⟩ <;> rw [hst] at hs <;> exact nomatch hs

/-- A local answer ends a negotiation, and `stable` was announced. -/
theorem perform_localAnswer (hd : d.type = .answer)
    (h : pc.perform sections (.setLocalDescription d : PcOp γ) = some (pc', states)) :
    pc' = pc.settleOn (some d) pc.pendingRemote ∧ .stable ∈ states ∧
      pc.signalingState ≠ .stable := by
  obtain ⟨pc₁, h₁, h₂⟩ := Option.map_eq_some_iff.mp h
  cases h₂
  obtain ⟨rfl, hne⟩ := applyLocal_answer hd h₁
  exact ⟨rfl, stable_announced rfl hne, hne⟩

/-- A remote offer is outstanding. -/
theorem perform_remoteOffer (hd : d.type = .offer)
    (h : pc.perform sections (.setRemoteDescription d : PcOp γ) = some (pc', states)) :
    pc'.signalingState = .haveRemoteOffer ∧ pc'.pendingRemote = some d ∧
      pc'.pendingLocal = none := by
  obtain ⟨pc₁, h₁, h₂⟩ := Option.map_eq_some_iff.mp h
  cases h₂
  exact applyRemote_offer hd h₁

/-- A remote answer ends the negotiation of the local offer, and `stable` was
    announced. -/
theorem perform_remoteAnswer (hd : d.type = .answer)
    (h : pc.perform sections (.setRemoteDescription d : PcOp γ) = some (pc', states)) :
    pc' = pc.settleOn pc.pendingLocal (some d) ∧ .stable ∈ states ∧
      (pc.signalingState = .haveLocalOffer ∨
        pc.signalingState = .haveRemotePranswer) := by
  obtain ⟨pc₁, h₁, h₂⟩ := Option.map_eq_some_iff.mp h
  cases h₂
  obtain ⟨rfl, hs⟩ := applyRemote_answer hd h₁
  refine ⟨rfl, stable_announced rfl ?_, hs⟩
  rcases hs with hs | hs <;> simp [hs]

/-- A provisional answer leaves the negotiation open. -/
theorem perform_remotePranswer (hd : d.type = .pranswer)
    (h : pc.perform sections (.setRemoteDescription d : PcOp γ) = some (pc', states)) :
    pc'.signalingState = .haveRemotePranswer ∧ .stable ∉ states ∧
      (pc.signalingState = .haveLocalOffer ∨
        pc.signalingState = .haveRemotePranswer) := by
  obtain ⟨pc₁, h₁, h₂⟩ := Option.map_eq_some_iff.mp h
  cases h₂
  simp only [Pc.applyRemote, hd] at h₁
  split at h₁
  · next hs =>
      cases h₁
      refine ⟨rfl, fun hm => ?_, hs⟩
      rcases announced_stable hm with hm | ⟨-, -, hm⟩ <;> exact nomatch hm
  · exact nomatch h₁

/-- A rollback ends the negotiation, and `stable` was announced. -/
theorem perform_remoteRollback (hd : d.type = .rollback)
    (h : pc.perform sections (.setRemoteDescription d : PcOp γ) = some (pc', states)) :
    pc'.signalingState = .stable ∧ .stable ∈ states := by
  obtain ⟨pc₁, h₁, h₂⟩ := Option.map_eq_some_iff.mp h
  cases h₂
  simp only [Pc.applyRemote, hd] at h₁
  split at h₁
  · next hs =>
      cases h₁
      refine ⟨rfl, stable_announced rfl ?_⟩
      rcases hs with hs | hs <;> simp [hs]
  · exact nomatch h₁

/-- Everything a fulfilled operation can do to a connection. -/
inductive Performs (pc : Pc) (sections : List Kind) : PcOp γ → Pc → Prop where
  | unchanged {op : PcOp γ} : (∀ d, op ≠ .setLocalDescription d) →
      (∀ d, op ≠ .setRemoteDescription d) → Performs pc sections op pc
  | localOffer {d : Desc} : d.type = .offer →
      pc.signalingState = .stable ∨ pc.signalingState = .haveLocalOffer →
      Performs pc sections (.setLocalDescription d)
        { pc with signalingState := .haveLocalOffer, pendingLocal := some d }
  | localAnswer {d : Desc} : d.type = .answer →
      pc.signalingState = .haveRemoteOffer ∨ pc.signalingState = .haveLocalPranswer →
      Performs pc sections (.setLocalDescription d) (pc.settleOn (some d) pc.pendingRemote)
  | localPranswer {d : Desc} : d.type = .pranswer →
      pc.signalingState = .haveRemoteOffer ∨ pc.signalingState = .haveLocalPranswer →
      Performs pc sections (.setLocalDescription d)
        { pc with signalingState := .haveLocalPranswer, pendingLocal := some d }
  | localRollback {d : Desc} : d.type = .rollback →
      pc.signalingState = .haveLocalOffer ∨ pc.signalingState = .haveRemoteOffer →
      Performs pc sections (.setLocalDescription d) pc.rollback
  | remoteOffer {d : Desc} : d.type = .offer →
      pc.signalingState = .stable ∨ pc.signalingState = .haveRemoteOffer ∨
        pc.signalingState = .haveLocalOffer →
      Performs pc sections (.setRemoteDescription d)
        ({ pc with
          signalingState := .haveRemoteOffer
          pendingLocal := none
          pendingRemote := some d }.addSections sections)
  | remoteAnswer {d : Desc} : d.type = .answer →
      pc.signalingState = .haveLocalOffer ∨ pc.signalingState = .haveRemotePranswer →
      Performs pc sections (.setRemoteDescription d) (pc.settleOn pc.pendingLocal (some d))
  | remotePranswer {d : Desc} : d.type = .pranswer →
      pc.signalingState = .haveLocalOffer ∨ pc.signalingState = .haveRemotePranswer →
      Performs pc sections (.setRemoteDescription d)
        { pc with signalingState := .haveRemotePranswer, pendingRemote := some d }
  | remoteRollback {d : Desc} : d.type = .rollback →
      pc.signalingState = .haveLocalOffer ∨ pc.signalingState = .haveRemoteOffer →
      Performs pc sections (.setRemoteDescription d) pc.rollback

/-- **INVERSION** of `perform`. -/
theorem perform_cases {op : PcOp γ} (h : pc.perform sections op = some (pc', states)) :
    Performs pc sections op pc' := by
  cases op with
  | createOffer =>
      obtain ⟨rfl, -⟩ := perform_createOffer h
      exact .unchanged (fun _ h => (nomatch h)) (fun _ h => (nomatch h))
  | createAnswer =>
      obtain ⟨rfl, -⟩ := perform_createAnswer h
      exact .unchanged (fun _ h => (nomatch h)) (fun _ h => (nomatch h))
  | addIceCandidate c =>
      obtain ⟨rfl, -⟩ := perform_addIceCandidate h
      exact .unchanged (fun _ h => (nomatch h)) (fun _ h => (nomatch h))
  | setLocalDescription d =>
      obtain ⟨pc₁, h₁, h₂⟩ := Option.map_eq_some_iff.mp h
      cases h₂
      cases hd : d.type <;> simp only [Pc.applyLocal, hd] at h₁ <;> split at h₁ <;> cases h₁
      · next hs => exact .localOffer hd hs
      · next hs => exact .localAnswer hd hs
      · next hs => exact .localPranswer hd hs
      · next hs => exact .localRollback hd hs
  | setRemoteDescription d =>
      obtain ⟨pc₁, h₁, h₂⟩ := Option.map_eq_some_iff.mp h
      cases h₂
      cases hd : d.type <;> simp only [Pc.applyRemote, hd] at h₁ <;> split at h₁ <;> cases h₁
      · next hs => exact .remoteOffer hd hs
      · next hs => exact .remoteAnswer hd hs
      · next hs => exact .remotePranswer hd hs
      · next hs => exact .remoteRollback hd hs

/-- No operation closes a connection. -/
theorem perform_open {op : PcOp γ} (h : pc.perform sections op = some (pc', states))
    (hopen : pc.signalingState ≠ .closed) : pc'.signalingState ≠ .closed := by
  cases perform_cases h with
  | unchanged => exact hopen
  | _ => exact fun hc => (nomatch hc)

/-- A remote description after an operation was one before it, or the operation set
    it. -/
theorem perform_remote {op : PcOp γ} (h : pc.perform sections op = some (pc', states))
    (hd : pc'.pendingRemote = some d ∨ pc'.currentRemote = some d) :
    (pc.pendingRemote = some d ∨ pc.currentRemote = some d) ∨
      op = .setRemoteDescription d := by
  -- a description that an operation sets is its own
  have hset : ∀ e : Desc, some e = some d →
      (.setRemoteDescription e : PcOp γ) = .setRemoteDescription d := by
    intro e he
    rw [Option.some.inj he]
  cases perform_cases h with
  | unchanged => exact Or.inl hd
  | localOffer => exact Or.inl hd
  | localAnswer =>
      rcases hd with hd | hd
      · exact nomatch hd
      · exact Or.inl (Or.inl hd)
  | localPranswer => exact Or.inl hd
  | localRollback =>
      rcases hd with hd | hd
      · exact nomatch hd
      · exact Or.inl (Or.inr hd)
  | remoteOffer =>
      rcases hd with hd | hd
      · exact Or.inr (hset _ hd)
      · exact Or.inl (Or.inr hd)
  | remoteAnswer =>
      rcases hd with hd | hd
      · exact nomatch hd
      · exact Or.inr (hset _ hd)
  | remotePranswer =>
      rcases hd with hd | hd
      · exact Or.inr (hset _ hd)
      · exact Or.inl (Or.inr hd)
  | remoteRollback =>
      rcases hd with hd | hd
      · exact nomatch hd
      · exact Or.inl (Or.inr hd)

/-- A pending local description after an operation was pending before it, or the
    operation set it. -/
theorem perform_local {op : PcOp γ} (h : pc.perform sections op = some (pc', states)) :
    pc'.pendingLocal = pc.pendingLocal ∨ pc'.pendingLocal = none ∨
      ∃ d, op = .setLocalDescription d ∧ pc'.pendingLocal = some d := by
  cases perform_cases h with
  | unchanged => exact Or.inl rfl
  | localOffer => exact Or.inr (Or.inr ⟨_, rfl, rfl⟩)
  | localPranswer => exact Or.inr (Or.inr ⟨_, rfl, rfl⟩)
  | remotePranswer => exact Or.inl rfl
  | _ => exact Or.inr (Or.inl rfl)

/-- While a local offer is outstanding, it is the pending local description. -/
def Pc.Sound (pc : Pc) : Prop :=
  pc.signalingState = .haveLocalOffer ∨ pc.signalingState = .haveRemotePranswer →
    pc.pendingLocal.isSome = true

theorem perform_sound {op : PcOp γ} (h : pc.perform sections op = some (pc', states))
    (hi : pc.Sound) : pc'.Sound := by
  cases perform_cases h with
  | unchanged => exact hi
  | localOffer => exact fun _ => rfl
  | remotePranswer _ hs => exact fun _ => hi hs
  | _ => rintro (hs | hs) <;> exact nomatch hs

/-- A stable connection has nothing pending. -/
def Pc.Settled (pc : Pc) : Prop :=
  pc.signalingState = .stable → pc.pendingLocal = none ∧ pc.pendingRemote = none

theorem perform_settled {op : PcOp γ} (h : pc.perform sections op = some (pc', states))
    (hi : pc.Settled) : pc'.Settled := by
  cases perform_cases h with
  | unchanged => exact hi
  | localAnswer => exact fun _ => ⟨rfl, rfl⟩
  | localRollback => exact fun _ => ⟨rfl, rfl⟩
  | remoteAnswer => exact fun _ => ⟨rfl, rfl⟩
  | remoteRollback => exact fun _ => ⟨rfl, rfl⟩
  | _ => exact fun hs => (nomatch hs)

/-- Adding tracks is no business of the signaling state machine. -/
def SameSignaling (pc pc' : Pc) : Prop := pc' = { pc with senders := pc'.senders }

theorem SameSignaling.refl (pc : Pc) : SameSignaling pc pc := rfl

theorem SameSignaling.state (h : SameSignaling pc pc') :
    pc'.signalingState = pc.signalingState := by
  rw [h]

theorem SameSignaling.trans {pc₁ pc₂ pc₃ : Pc} (h₁ : SameSignaling pc₁ pc₂)
    (h₂ : SameSignaling pc₂ pc₃) : SameSignaling pc₁ pc₃ := by
  rw [SameSignaling] at *
  rw [h₂, h₁]

theorem addTrack_sameSignaling {t : Track} (h : pc.addTrack t = some pc') :
    SameSignaling pc pc' := by
  rw [Pc.addTrack] at h
  split at h
  · exact nomatch h
  · split at h
    · exact nomatch h
    · split at h <;> (cases h; rfl)

theorem addTracks_sameSignaling :
    ∀ (ts : List Track) {pc pc' : Pc}, ts.foldlM Pc.addTrack pc = some pc' →
      SameSignaling pc pc' := by
  intro ts
  induction ts with
  | nil =>
      intro pc pc' h
      cases h
      exact .refl _
  | cons t ts ih =>
      intro pc pc' h
      rw [List.foldlM_cons] at h
      obtain ⟨pc₁, h₁, h₂⟩ := Option.bind_eq_some_iff.mp h
      exact (addTrack_sameSignaling h₁).trans (ih h₂)

/-- Tracks that are distinct from each other and from those already sent can all
    be added to an open connection, each with a sender of its own. -/
theorem addTracks_eq :
    ∀ (ts : List Track) {pc : Pc}, ts.Nodup → pc.signalingState ≠ .closed →
      (∀ s ∈ pc.senders, ∃ t, s.track = some t ∧ t ∉ ts) →
      ts.foldlM Pc.addTrack pc = some { pc with
        senders := pc.senders ++ ts.map (fun t => ⟨t.kind, some t⟩) } := by
  intro ts
  induction ts with
  | nil =>
      intro pc _ _ _
      rw [List.map_nil, List.append_nil]
      rfl
  | cons t ts ih =>
      intro pc hnd hopen hsent
      obtain ⟨hnot, hnd'⟩ := List.nodup_cons.mp hnd
      have hnew : pc.senders.any (fun s => s.track = some t) = false := by
        rw [List.any_eq_false]
        intro s hs
        obtain ⟨t', ht', hne⟩ := hsent s hs
        rw [ht']
        simpa using fun heq => hne (by rw [heq]; exact List.mem_cons_self ..)
      have hfree : pc.senders.findIdx? (fun s => s.kind = t.kind ∧ s.track = none)
          = none := by
        rw [List.findIdx?_eq_none_iff]
        intro s hs
        obtain ⟨t', ht', -⟩ := hsent s hs
        simp [ht']
      have hadd : pc.addTrack t
          = some { pc with senders := pc.senders ++ [⟨t.kind, some t⟩] } := by
        rw [Pc.addTrack]
        rw [if_neg hopen, hnew, hfree]
        rfl
      rw [List.foldlM_cons, hadd]
      have hrest : ∀ s ∈ pc.senders ++ [⟨t.kind, some t⟩],
          ∃ u, s.track = some u ∧ u ∉ ts := by
        intro s hs
        rcases List.mem_append.mp hs with hs | hs
        · obtain ⟨t', ht', hne⟩ := hsent s hs
          exact ⟨t', ht', fun hm => hne (List.mem_cons_of_mem _ hm)⟩
        · cases List.mem_singleton.mp hs
          exact ⟨t, rfl, hnot⟩
      refine (@ih { pc with senders := pc.senders ++ [⟨t.kind, some t⟩] }
        hnd' hopen hrest).trans ?_
      rw [List.append_assoc, List.map_cons]
      rfl

end Lemmas

end RtcSignaling
