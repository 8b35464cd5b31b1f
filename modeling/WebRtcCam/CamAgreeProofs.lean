import WebRtcCam.CamExactProofs

/-! # Two pages that agree

    Two pages, each with the other as its peer.  An offer and the answer to it pass
    through six places, and every place says something about the two connections: who
    has an offer outstanding, and which, who has set it as its remote description, and
    who is done.  If both pages offer at once, none of this holds: each drops its own
    offer for the other's, and they end up with different descriptions.

    If an offer is started only when nothing is on its way and no handler is suspended,
    then at most ONE thing is ever on its way (`load`), and the invariant says what it is
    and what the connections are like meanwhile.

    * `Fits` — what a frame says about the page that sent it and the one it is sent to;
    * `Sides` — the invariant;
    * `sides_carried`, `sides_quiet`, `sides_performed` — what happens between the pages,
      at a page that performs nothing, and with an operation that is performed;
    * `descriptions_agree` — when both connections are stable, the local description of
      the one is the remote description of the other. -/

namespace CamAgree

open LtsRun JsonText CamWire CamNet CamHonest CamPending CamNegotiation CamMail CamStuck
open CamReply CamTrail CamExact
open CamRelay (Addr Relay WebSocketSession ServerMsg)
open CamPage (Page Received Call Vars)
open RtcSignaling (PcOp Desc SdpType Pc SameSignaling)

/-! ## What is known of a connection -/

/-- As long as the page is mounted, its connection is so. -/
def Has (Q : Pc → Prop) (s : Page) : Prop :=
  s.mounted = true → ∃ pc, s.peerConnectionRef = some pc ∧ Q pc

/-- The offer `d` is outstanding. -/
def Offers (d : Desc) (pc : Pc) : Prop :=
  pc.signalingState = .haveLocalOffer ∧ pc.pendingLocal = some d

/-- The offer `d` of the other side is to be answered. -/
def Offered (d : Desc) (pc : Pc) : Prop :=
  pc.signalingState = .haveRemoteOffer ∧ pc.pendingRemote = some d

/-- The negotiation has ended with these descriptions. -/
def Ended (l r : Desc) (pc : Pc) : Prop :=
  pc.signalingState = .stable ∧ pc.currentLocal = some l ∧ pc.currentRemote = some r

/-- It does not depend on the senders. -/
def Senderless (Q : Pc → Prop) : Prop := ∀ pc pc', SameSignaling pc pc' → Q pc → Q pc'

theorem senderless_offers (d : Desc) : Senderless (Offers d) := by
  intro pc pc' h hQ
  rw [h]
  exact hQ

theorem senderless_offered (d : Desc) : Senderless (Offered d) := by
  intro pc pc' h hQ
  rw [h]
  exact hQ

theorem senderless_ended (l r : Desc) : Senderless (Ended l r) := by
  intro pc pc' h hQ
  rw [h]
  exact hQ

/-- Only a fulfilled operation changes what is known of a connection. -/
theorem Has.quiet {Q : Pc → Prop} (hQ : Senderless Q) {s s' : Page} {e : CamPage.Event}
    (hr : Reachable CamPage.page s) (h : CamPage.step s e = some s')
    (hne : ∀ sdp sections, e ≠ .settle (.fulfilled sdp sections)) (hi : Has Q s) :
    Has Q s' := by
  intro hm'
  obtain ⟨pc, hpc, hq⟩ := hi (CamPage.step_mounted h)
  have hsame : SamePc s s' → ∃ pc', s'.peerConnectionRef = some pc' ∧ Q pc' := by
    rintro (⟨hn, -⟩ | ⟨pc₁, pc', hs, ht, hsig⟩)
    · rw [hpc] at hn
      exact nomatch hn
    · cases hpc.symm.trans hs
      exact ⟨pc', ht, hQ pc pc' hsig hq⟩
  cases step_negotiates hr h with
  | idle hp _ _ => exact hsame hp
  | mounts _ hn _ _ =>
      rw [hpc] at hn
      exact nomatch hn
  | offers _ _ hp => exact hsame hp
  | handles _ _ _ _ _ hp => exact hsame hp
  | fails _ _ _ _ hp => exact hsame hp
  | candidate hp => exact hsame (.of_eq hp)
  | rejected _ hp _ hp' => exact hsame (.of_eq (hp'.trans hp.symm))
  | fulfilled => exact absurd rfl (hne _ _)
  | unmount hun =>
      rw [hun] at hm'
      exact nomatch hm'

/-- In honest company a message has no part in a negotiation. -/
theorem civil_chain {id : String} {s s' : Page} {data : Option Json}
    (hc : Civil id s (.message data)) (h : CamPage.step s (.message data) = some s') :
    s'.chain = s.chain := by
  cases CamPage.step_cases h with
  | @message env _ _ _ =>
      have ha := CamPage.onmessage_cases env data s
      generalize CamPage.onmessage env data s = t at ha
      cases ha with
      | candidate _ hs hcand =>
          rcases hc _ rfl with hd | ⟨-, f, hd⟩
          · cases hd
            exact nomatch hcand
          · cases hd
            rw [f.json_isSDP] at hs
            exact nomatch hs
      | _ => rfl

/-- A connection that is not closed belongs to a mounted page. -/
theorem mounted_of_open {s : Page} (h : Reachable CamPage.page s) :
    ∀ pc, s.peerConnectionRef = some pc → pc.signalingState ≠ .closed → s.mounted = true := by
  refine ReachVia.invariant (I := fun s => ∀ pc, s.peerConnectionRef = some pc →
    pc.signalingState ≠ .closed → s.mounted = true)
    (fun s h0 pc hpc => ?_) (fun s e s' _ _ _ hst pc hpc hopen => ?_) h
  · subst h0
    exact nomatch hpc
  · replace hst : CamPage.step s e = some s' := hst
    by_cases he : e = .unmount
    · subst he
      cases CamPage.step_cases hst with
      | unmount =>
          obtain ⟨pc₁, -, rfl⟩ := Option.map_eq_some_iff.mp hpc
          exact absurd rfl hopen
    · exact CamClosure.mounted_kept hst he

/-- What is known of the connection of a mounted page is known of a stable one. -/
theorem Has.stable {Q : Pc → Prop} {s : Page} {pc : Pc} (h : Has Q s)
    (hr : Reachable CamPage.page s) (hpc : s.peerConnectionRef = some pc)
    (hst : pc.signalingState = .stable) : Q pc := by
  have hopen : pc.signalingState ≠ .closed := by
    rw [hst]
    exact fun hc => (nomatch hc)
  obtain ⟨pc₁, hpc₁, hQ⟩ := h (mounted_of_open hr pc hpc hopen)
  cases hpc₁.symm.trans hpc
  exact hQ

/-! ## The invariant -/

/-- How much is on its way from and to a page, or suspended there. -/
def weight (n : Net) (a : Addr) : Nat :=
  (outgoing n a).length + (incoming n a).length + (n.page a).chain.length

def load (A B : Addr) (n : Net) : Nat := weight n A + weight n B

/-- What a frame from `p` to `q` says: the offer is outstanding at `p`; the answer ended
    the negotiation at `p` of an offer that is still outstanding at `q`. -/
structure Fits (ids : Addr → String) (p q : Addr) (page : Addr → Page) (f : Frame) :
    Prop where
  sender : f.sender = ids p
  dest : f.dest = ids q
  offer : f.desc.type = .offer → Has (Offers f.desc) (page p)
  answer : f.desc.type = .answer → ∃ o, Has (Offers o) (page q) ∧ Has (Ended f.desc o) (page p)

/-- What a call of `q` says that handles a message from `p`. -/
def CallFits (ids : Addr → String) (p q : Addr) (page : Addr → Page) : Call → Prop
  | .remoteApplied _ m _ => ∃ f : Frame, m.data = f.json ∧ Fits ids p q page f
  | .answerCreated _ m => ∃ f : Frame, m.data = f.json ∧ f.desc.type = .offer ∧
      Fits ids p q page f ∧ Has (Offered f.desc) (page q)
  | .answerApplied _ m _ => ∃ f : Frame, m.data = f.json ∧ f.desc.type = .offer ∧
      Fits ids p q page f ∧ Has (Offered f.desc) (page q)
  | _ => True

/-- The way from `p` to `q`. -/
structure Side (ids : Addr → String) (p q : Addr) (n : Net) : Prop where
  out : ∀ j ∈ outgoing n p, ∃ f : Frame, j = f.json ∧ Fits ids p q n.page f
  inc : ∀ j ∈ incoming n q, ∃ f : Frame, j = f.json ∧ Fits ids p q n.page f
  calls : ∀ x ∈ (n.page q).chain, CallFits ids p q n.page x.2
  peer : ∀ x ∈ (n.page p).chain, ∀ env, offerEnv x.2 = some env → env.peerId = .str (ids q)

/-- Descriptions of stable connections belong together. -/
def Agree (s t : Page) : Prop :=
  ∀ pc pc', s.peerConnectionRef = some pc → t.peerConnectionRef = some pc' →
    pc.signalingState = .stable → pc'.signalingState = .stable →
    ∀ l r l' r', pc.currentLocal = some l → pc.currentRemote = some r →
      pc'.currentLocal = some l' → pc'.currentRemote = some r' → l = r' ∧ l' = r

/-- **THE INVARIANT**: at most one thing is on its way, it says what it says, and where
    nothing is going on the two pages agree. -/
structure Sides (ids : Addr → String) (A B : Addr) (n : Net) : Prop where
  load : load A B n ≤ 1
  forth : Side ids A B n
  back : Side ids B A n
  agree : Agree (n.page A) (n.page B)

theorem load_comm (A B : Addr) (n : Net) : load A B n = load B A n :=
  Nat.add_comm ..

theorem Agree.symm {s t : Page} (h : Agree s t) : Agree t s := by
  intro pc pc' hpc hpc' hst hst' l r l' r' hl hr hl' hr'
  obtain ⟨h₁, h₂⟩ := h pc' pc hpc' hpc hst' hst l' r' l r hl' hr' hl hr
  exact ⟨h₂, h₁⟩

theorem Sides.symm {ids : Addr → String} {A B : Addr} {n : Net} (h : Sides ids A B n) :
    Sides ids B A n where
  load := by rw [load_comm]; exact h.load
  forth := h.back
  back := h.forth
  agree := h.agree.symm

theorem sides_initial (ids : Addr → String) (A B : Addr) : Sides ids A B .initial where
  load := Nat.zero_le 1
  forth := ⟨fun _ hj => (nomatch hj), fun _ hj => (nomatch hj), fun _ hx => (nomatch hx),
    fun _ hx => (nomatch hx)⟩
  back := ⟨fun _ hj => (nomatch hj), fun _ hj => (nomatch hj), fun _ hx => (nomatch hx),
    fun _ hx => (nomatch hx)⟩
  agree := fun _ _ hpc => (nomatch hpc)

section Later

variable {ids : Addr → String} {p q : Addr} {page page' : Addr → Page}

/-- What is known of the connections is still known. -/
def Remembers (page page' : Addr → Page) : Prop :=
  ∀ c Q, Senderless Q → Has Q (page c) → Has Q (page' c)

theorem Fits.later {f : Frame} (h : Remembers page page') (hf : Fits ids p q page f) :
    Fits ids p q page' f where
  sender := hf.sender
  dest := hf.dest
  offer := fun hty => h p _ (senderless_offers _) (hf.offer hty)
  answer := fun hty => by
    obtain ⟨o, ho, he⟩ := hf.answer hty
    exact ⟨o, h q _ (senderless_offers o) ho, h p _ (senderless_ended _ o) he⟩

theorem CallFits.later {call : Call} (h : Remembers page page')
    (hc : CallFits ids p q page call) : CallFits ids p q page' call := by
  cases call with
  | remoteApplied =>
      obtain ⟨f, hm, hf⟩ := hc
      exact ⟨f, hm, hf.later h⟩
  | answerCreated =>
      obtain ⟨f, hm, hty, hf, ho⟩ := hc
      exact ⟨f, hm, hty, hf.later h, h q _ (senderless_offered _) ho⟩
  | answerApplied =>
      obtain ⟨f, hm, hty, hf, ho⟩ := hc
      exact ⟨f, hm, hty, hf.later h, h q _ (senderless_offered _) ho⟩
  | _ => trivial

end Later

/-! ## Steps between the pages -/

section Between

variable {ids : Addr → String} {A B : Addr} {n n' : Net} {e : Event}

/-- A step that leaves the pages alone. -/
theorem Sides.carried (hi : Sides ids A B n) (hp : n'.page = n.page)
    (hA : outgoing n' A ⊆ outgoing n A) (hB : outgoing n' B ⊆ outgoing n B)
    (hincA : incoming n' A ⊆ incoming n A) (hincB : incoming n' B ⊆ incoming n B ++ outgoing n A)
    (hload : CamAgree.load A B n' ≤ CamAgree.load A B n) : Sides ids A B n' where
  load := Nat.le_trans hload hi.load
  forth := by
    refine ⟨?_, ?_, ?_, ?_⟩ <;> rw [hp]
    · exact fun j hj => hi.forth.out j (hA hj)
    · intro j hj
      rcases List.mem_append.mp (hincB hj) with hj | hj
      · exact hi.forth.inc j hj
      · exact hi.forth.out j hj
    · exact hi.forth.calls
    · exact hi.forth.peer
  back := by
    refine ⟨?_, ?_, ?_, ?_⟩ <;> rw [hp]
    · exact fun j hj => hi.back.out j (hB hj)
    · exact fun j hj => hi.back.inc j (hincA hj)
    · exact hi.back.calls
    · exact hi.back.peer
  agree := by
    rw [hp]
    exact hi.agree

/-- What is on its way is relayed, dropped, or lost with a session. -/
theorem sides_carried (hAB : A ≠ B) (hB : ∀ c, ids c = ids B → c = B)
    (hmoves : Moves ids n e n') (hturn : ∀ a d l, ¬ Turn ids n e a d l n')
    (he : address e = A) (hi : Sides ids A B n) : Sides ids A B n' := by
  have hBA : B ≠ A := Ne.symm hAB
  have hsub : ∀ {l l' : List Json}, l' = l → l' ⊆ l := by
    intro l l' h
    rw [h]
    exact List.Subset.refl l
  -- the inboxes are those of before
  have hinc : ∀ c, n'.page = n.page → line n' c = line n c → incoming n' c = incoming n c := by
    intro c hp hl
    rw [incoming, incoming, hp, hl]
  cases hmoves with
  | still hp ho hl =>
      have hA := hinc A hp (hl A)
      have hB := hinc B hp (hl B)
      refine hi.carried hp (hsub (ho A)) (hsub (ho B)) (hsub hA)
        (List.Subset.trans (hsub hB) (List.subset_append_left ..)) ?_
      rw [load, load, weight, weight, weight, weight, ho A, ho B, hA, hB, hp]
  | @relayed a b f rest _ hp _ _ _ hdest ha ho hlb hl =>
      obtain rfl : a = A := he
      -- it goes to the other page
      have hmem : f.json ∈ outgoing n a := by
        rw [ha]
        exact List.mem_cons_self ..
      obtain ⟨g, hg, hfits⟩ := hi.forth.out _ hmem
      obtain rfl : b = B := by
        refine hB b ?_
        rw [← hdest, frame_injective hg]
        exact hfits.dest
      have hA := hinc a hp (hl a hAB)
      have hB' : incoming n' b = incoming n b ++ [f.json] := by
        rw [incoming, incoming, hp, hlb, List.append_assoc]
      have hlen : (outgoing n a).length = (outgoing n' a).length + 1 := by
        rw [ha]
        rfl
      refine hi.carried hp ?_ (hsub (ho b hBA)) (hsub hA) (fun j hj => ?_) ?_
      · rw [ha]
        exact List.subset_cons_self ..
      · rw [hB'] at hj
        rcases List.mem_append.mp hj with hj | hj
        · exact List.mem_append_left _ hj
        · rw [List.mem_singleton.mp hj]
          exact List.mem_append_right _ hmem
      · rw [load, load, weight, weight, weight, weight, ho b hBA, hA, hB', hp, hlen,
          List.length_append, List.length_singleton]
        omega
  | @dropped a f rest _ hp _ _ _ ha ho hl =>
      obtain rfl : a = A := he
      have hA := hinc a hp (hl a)
      have hB := hinc B hp (hl B)
      have hlen : (outgoing n a).length = (outgoing n' a).length + 1 := by
        rw [ha]
        rfl
      refine hi.carried hp ?_ (hsub (ho B hBA)) (hsub hA)
        (List.Subset.trans (hsub hB) (List.subset_append_left ..)) ?_
      · rw [ha]
        exact List.subset_cons_self ..
      · rw [load, load, weight, weight, weight, weight, ho B hBA, hA, hB, hp, hlen]
        omega
  | @stopped a _ hp ha ho hla hl =>
      obtain rfl : a = A := he
      have hB := hinc B hp (hl B hBA)
      have hA : incoming n a = incoming n' a ++
          (session n.relay a).mailbox.filterMap arriving := by
        rw [incoming, incoming, hp, hla, List.append_assoc]
      refine hi.carried hp ?_ (hsub (ho B hBA)) ?_
        (List.Subset.trans (hsub hB) (List.subset_append_left ..)) ?_
      · rw [ha]
        exact List.subset_append_left ..
      · rw [hA]
        exact List.subset_append_left ..
      · rw [load, load, weight, weight, weight, weight, ho B hBA, hB, hp, ha, hA,
          List.length_append, List.length_append]
        omega
  | turn ht => exact absurd ht (hturn _ _ _)

end Between

/-! ## Turns that perform nothing -/

/-- What a turn that performs no operation does to the suspended calls. -/
inductive Suspends (s : Page) : CamPage.Event → Page → Prop where
  | fewer {e : CamPage.Event} {t : Page} : t.chain.Sublist s.chain → Suspends s e t
  | offers {t : Page} : s.isNegotiatingRef = false →
      t.chain = s.chain ++ [(.createOffer, .offerCreated s.vars)] → Suspends s .press t
  | handles {t : Page} {m : Received} {d : Desc} {b : Bool} : handed s = some m →
      t.chain = s.chain ++ [(.setRemoteDescription d, .remoteApplied s.vars m b)] →
      Suspends s .flushEffects t

theorem step_suspends {id : String} {s s' : Page} {e : CamPage.Event}
    (hr : Reachable CamPage.page s) (hc : Civil id s e) (h : CamPage.step s e = some s')
    (hne : ∀ sdp sections, e ≠ .settle (.fulfilled sdp sections)) :
    s'.sent = s.sent ∧ Suspends s e s' := by
  have hsame : s'.chain = s.chain → Suspends s e s' := by
    intro hchain
    exact .fewer (by rw [hchain])
  cases step_negotiates hr h with
  | idle _ htalk _ => exact ⟨htalk.sent, hsame htalk.chain⟩
  | mounts _ _ _ htalk => exact ⟨htalk.sent, hsame htalk.chain⟩
  | offers _ hflag _ _ _ hchain hsent => exact ⟨hsent, .offers hflag hchain⟩
  | @handles _ m _ _ hm hid hdue _ _ _ _ _ hchain hsent =>
      have hh : handed s = some m := by rw [handed, if_pos ⟨hdue, hid⟩, hm]
      exact ⟨hsent, .handles hh hchain⟩
  | fails _ _ _ _ _ _ _ hchain hsent => exact ⟨hsent, hsame hchain⟩
  | candidate _ _ _ _ hsent => exact ⟨hsent, hsame (civil_chain hc h)⟩
  | rejected _ _ hs _ _ hchain hsent =>
      refine ⟨hsent, .fewer ?_⟩
      rw [hs, hchain]
      exact List.sublist_cons_self ..
  | fulfilled => exact absurd rfl (hne _ _)
  | unmount _ _ htalk => exact ⟨htalk.sent, hsame htalk.chain⟩

/-- Descriptions that belong together still do. -/
theorem Agree.quiet {s s' t : Page} {e : CamPage.Event} (hr : Reachable CamPage.page s)
    (h : CamPage.step s e = some s')
    (hne : ∀ sdp sections, e ≠ .settle (.fulfilled sdp sections)) (hi : Agree s t) :
    Agree s' t := by
  intro pc pc' hpc hpc' hst hst' l r l' r' hl hrem hl' hrem'
  cases step_pc hr h hpc with
  | same hpc₀ hsig =>
      rw [hsig] at hst hl hrem
      exact hi _ pc' hpc₀ hpc' hst hst' l r l' r' hl hrem hl' hrem'
  | mounted hnew =>
      rw [hnew] at hl
      exact nomatch hl
  | performed => exact absurd rfl (hne _ _)
  | closed _ heq =>
      rw [heq] at hst
      exact nomatch hst

/-! ## What an operation leaves behind -/

/-- A call either goes on or sends something. -/
theorem followUp_frames (sdp : String) (call : Call) :
    (followUp sdp call).length + (frames call).length ≤ 1 := by
  have hframe : ∀ env message, (frame env message).length ≤ 1 := by
    intro env message
    rw [frame]
    split
    · exact Nat.le_refl 1
    · exact Nat.zero_le 1
  cases call with
  | offerApplied env d => simpa [followUp, frames] using hframe env _
  | answerApplied env m d => simpa [followUp, frames] using hframe env _
  | remoteApplied env m b => cases b <;> simp [followUp, frames]
  | _ => simp [followUp, frames]

/-- Agreement depends on the connections only. -/
theorem Agree.of_eq {s s' t : Page} (hi : Agree s t)
    (h : s'.peerConnectionRef = s.peerConnectionRef) : Agree s' t := by
  intro pc pc' hpc
  rw [h] at hpc
  exact hi pc pc' hpc

theorem agree_unstable {s t : Page} {pc : Pc} (hpc : s.peerConnectionRef = some pc)
    (h : pc.signalingState ≠ .stable) : Agree s t := by
  intro pc₁ pc' hpc₁ _ hst
  cases hpc.symm.trans hpc₁
  exact absurd hst h

/-- While the offer of the other page is outstanding there is nothing to agree on. -/
theorem agree_offers {s t : Page} {o : Desc} (hr : Reachable CamPage.page t)
    (h : Has (Offers o) t) : Agree s t := by
  intro pc pc' _ hpc' _ hst'
  have hoff := (h.stable hr hpc' hst').1
  rw [hst'] at hoff
  exact nomatch hoff

theorem agree_ended {s t : Page} {o g : Desc} {pc : Pc} (hr : Reachable CamPage.page t)
    (hpc : s.peerConnectionRef = some pc) (hs : Ended o g pc) (h : Has (Ended g o) t) :
    Agree s t := by
  intro pc₁ pc' hpc₁ hpc' _ hst' l r l' r' hl hrem hl' hrem'
  cases hpc.symm.trans hpc₁
  obtain ⟨-, hlo, hre⟩ := hs
  obtain ⟨-, hlo', hre'⟩ := h.stable hr hpc' hst'
  cases hlo.symm.trans hl
  cases hre.symm.trans hrem
  cases hlo'.symm.trans hl'
  cases hre'.symm.trans hrem'
  exact ⟨rfl, rfl⟩

/-! ## A turn of the first page -/

/-- The peer of page `p` is page `q`. -/
def peers (n : Net) (p q : Addr) : Bool :=
  (n.relay.actor q).any (fun y => (n.page p).vars.peerId = .str y.id)

/-- The button is pressed at page `p`, and its flag is down. -/
def starts (n : Net) (p : Addr) : Event → Bool
  | .browser a .press => a = p && !(n.page p).isNegotiatingRef
  | _ => false

section Turns

variable {from_str : String → Option Message} {C : Net → Event → Prop}
  {ids : Addr → String} {A B : Addr} {n n' : Net} {e : Event} {d : CamPage.Event}
  {l : List Json} (hAB : A ≠ B) (hreach : ReachVia (net everyone from_str) C n)
  (ht : Turn ids n e A d l n') (hi : Sides ids A B n)

include hreach ht

omit hreach in
include hAB in
/-- The other page is not concerned. -/
theorem turn_other : n'.page B = n.page B ∧ outgoing n' B = outgoing n B ∧
    incoming n' B = incoming n B := by
  have hp := ht.pages B (Ne.symm hAB)
  refine ⟨hp, ht.outs B (Ne.symm hAB), ?_⟩
  rw [incoming, incoming, hp, ht.lines B (Ne.symm hAB)]

omit hreach in
/-- A press is a press of this page. -/
theorem turn_starts (hd : d = .press) (hflag : (n.page A).isNegotiatingRef = false) :
    starts n A e = true := by
  rcases ht.event with ⟨he, -⟩ | ⟨-, hm⟩
  · rw [he, hd, starts, hflag]
    simp
  · rw [hd] at hm
    exact nomatch hm

section Quiet

variable (hne : ∀ sdp sections, d ≠ .settle (.fulfilled sdp sections))

include hne

theorem turn_remembers : Remembers n.page n'.page := by
  intro c Q hQ hhas
  by_cases hc : c = A
  · subst hc
    exact hhas.quiet hQ (page_reachable c hreach) ht.step hne
  · rw [ht.pages c hc]
    exact hhas

theorem quiet_out : outgoing n' A = outgoing n A := by
  obtain ⟨hsent, -⟩ := step_suspends (page_reachable A hreach) ht.civil ht.step hne
  have hl : l = [] := List.append_right_eq_self.mp (ht.sent.symm.trans hsent)
  rw [ht.out, hl, ite_self, List.append_nil]

include hi in
/-- A call that is new is the handling of a message that was waiting, or an offer. -/
theorem quiet_calls {x : PcOp Json × Call} (hx : x ∈ (n'.page A).chain) :
    CallFits ids B A n.page x.2 := by
  obtain ⟨-, hsus⟩ := step_suspends (page_reachable A hreach) ht.civil ht.step hne
  cases hsus with
  | fewer hsub => exact hi.back.calls x (hsub.subset hx)
  | offers _ hchain =>
      rw [hchain] at hx
      rcases List.mem_append.mp hx with hx | hx
      · exact hi.back.calls x hx
      · rw [List.mem_singleton.mp hx]
        trivial
  | @handles _ m _ _ hh hchain =>
      rw [hchain] at hx
      rcases List.mem_append.mp hx with hx | hx
      · exact hi.back.calls x hx
      · obtain ⟨l', hl'⟩ := inbox_handed hh
        have hmem : m.data ∈ incoming n A := by
          rw [incoming, hl']
          exact List.mem_cons_self ..
        rw [List.mem_singleton.mp hx]
        exact hi.back.inc _ hmem

include hi in
/-- An offer that is started is meant for the other page. -/
theorem quiet_peer (hn : Named ids n) (hpeer : starts n A e = true → peers n A B = true)
    {x : PcOp Json × Call} (hx : x ∈ (n'.page A).chain) {env : Vars}
    (henv : offerEnv x.2 = some env) : env.peerId = .str (ids B) := by
  obtain ⟨-, hsus⟩ := step_suspends (page_reachable A hreach) ht.civil ht.step hne
  cases hsus with
  | fewer hsub => exact hi.forth.peer x (hsub.subset hx) env henv
  | offers hflag hchain =>
      rw [hchain] at hx
      rcases List.mem_append.mp hx with hx | hx
      · exact hi.forth.peer x hx env henv
      · rw [List.mem_singleton.mp hx] at henv
        cases henv
        obtain ⟨y, hy, hp⟩ := (Option.any_eq_true _ _).mp (hpeer (turn_starts ht rfl hflag))
        rw [of_decide_eq_true hp, hn B y hy]
  | handles _ hchain =>
      rw [hchain] at hx
      rcases List.mem_append.mp hx with hx | hx
      · exact hi.forth.peer x hx env henv
      · rw [List.mem_singleton.mp hx] at henv
        exact nomatch henv

/-- Only an offer that is started adds to what is on its way. -/
theorem quiet_weight : weight n' A ≤ weight n A ∨
    starts n A e = true ∧ weight n' A ≤ weight n A + 1 := by
  have hr := page_reachable A hreach
  have hturned := turned hr ht.step ht.line
  have hinc := hturned.sublist.length_le
  obtain ⟨-, hsus⟩ := step_suspends hr ht.civil ht.step hne
  rw [weight, weight, quiet_out hreach ht hne]
  cases hsus with
  | fewer hsub =>
      have hlen := hsub.length_le
      exact Or.inl (by omega)
  | offers hflag hchain =>
      refine Or.inr ⟨turn_starts ht rfl hflag, ?_⟩
      rw [hchain, List.length_append, List.length_singleton]
      omega
  | handles hh hchain =>
      -- what is handed over leaves the inbox
      cases hturned with
      | same _ hflush =>
          rw [hflush rfl] at hh
          exact nomatch hh
      | handed _ _ hbefore hafter =>
          have hlen : (incoming n' A).length + 1 ≤ (incoming n A).length := by
            rw [hbefore, hafter, List.length_cons, List.length_append]
            omega
          refine Or.inl ?_
          rw [hchain, List.length_append, List.length_singleton]
          omega

include hAB hi in
theorem sides_quiet (hn : Named ids n) (hpeer : starts n A e = true → peers n A B = true)
    (hclear : starts n A e = true → load A B n = 0) : Sides ids A B n' := by
  have hr := page_reachable A hreach
  obtain ⟨hpB, houtB, hincB⟩ := turn_other hAB ht
  have hrem := turn_remembers hreach ht hne
  have hinc := (turned hr ht.step ht.line).sublist
  refine ⟨?_, ⟨fun j hj => ?_, fun j hj => ?_, fun x hx => ?_, fun x hx env henv => ?_⟩,
    ⟨fun j hj => ?_, fun j hj => ?_, fun x hx => ?_, fun x hx => ?_⟩, ?_⟩
  · have hB : weight n' B = weight n B := by rw [weight, weight, hpB, houtB, hincB]
    have hle := hi.load
    rw [load] at hle ⊢
    rcases quiet_weight hreach ht hne with hw | ⟨hs, hw⟩
    · omega
    · have hzero := hclear hs
      rw [load] at hzero
      omega
  · rw [quiet_out hreach ht hne] at hj
    obtain ⟨f, hf, hfits⟩ := hi.forth.out j hj
    exact ⟨f, hf, hfits.later hrem⟩
  · rw [hincB] at hj
    obtain ⟨f, hf, hfits⟩ := hi.forth.inc j hj
    exact ⟨f, hf, hfits.later hrem⟩
  · rw [hpB] at hx
    exact (hi.forth.calls x hx).later hrem
  · exact quiet_peer hreach ht hi hne hn hpeer hx henv
  · rw [houtB] at hj
    obtain ⟨f, hf, hfits⟩ := hi.back.out j hj
    exact ⟨f, hf, hfits.later hrem⟩
  · obtain ⟨f, hf, hfits⟩ := hi.back.inc j (hinc.subset hj)
    exact ⟨f, hf, hfits.later hrem⟩
  · exact (quiet_calls hreach ht hi hne hx).later hrem
  · rw [hpB] at hx
    exact hi.back.peer x hx
  · rw [hpB]
    exact hi.agree.quiet hr ht.step hne

end Quiet

/-! ### Operations that are performed -/

section Performed

variable {sdp : String} {sections : List RtcSignaling.Kind} {pc pc' : Pc} {op : PcOp Json}
  {call : Call} {rest : List (PcOp Json × Call)} {states : List RtcSignaling.SignalingState}
  (hful : Fulfilled (n.page A) (n'.page A) sdp sections pc pc' op call rest states)

include hful hi

omit hreach ht in
/-- There is nothing else. -/
theorem performed_alone : rest = [] ∧ outgoing n A = [] ∧ incoming n A = [] ∧
    outgoing n B = [] ∧ incoming n B = [] ∧ (n.page B).chain = [] := by
  have hload := hi.load
  rw [load, weight, weight, hful.chain, List.length_cons] at hload
  refine ⟨?_, ?_, ?_, ?_, ?_, ?_⟩ <;> refine List.eq_nil_of_length_eq_zero ?_ <;> omega

include hAB in
/-- Afterwards there is what the call goes on with, or sends. -/
theorem sides_sole
    (hsend : ∀ j ∈ frames call, ∃ f : Frame, j = f.json ∧ Fits ids A B n'.page f)
    (hcalls : ∀ x ∈ followUp sdp call, CallFits ids B A n'.page x.2)
    (hagree : Agree (n'.page A) (n.page B)) : Sides ids A B n' := by
  obtain ⟨rfl, houtA, hincA, houtB, hincB, hchainB⟩ := performed_alone hi hful
  obtain ⟨hpB, houtB', hincB'⟩ := turn_other hAB ht
  rw [houtB] at houtB'
  rw [hincB] at hincB'
  have hl : l = frames call := List.append_cancel_left (ht.sent.symm.trans hful.sent)
  have hsub : (outgoing n' A).Sublist (frames call) := by
    rw [ht.out, houtA, hl, List.nil_append]
    split
    · exact List.nil_sublist _
    · exact List.Sublist.refl _
  have hinc : incoming n' A = [] := by
    have hsub := (turned (page_reachable A hreach) ht.step ht.line).sublist
    rw [hincA] at hsub
    exact List.sublist_nil.mp hsub
  have hchain : (n'.page A).chain = followUp sdp call := hful.rest
  refine ⟨?_, ⟨fun j hj => hsend j (hsub.subset hj), fun j hj => ?_, fun x hx => ?_,
    fun x hx env henv => ?_⟩,
    ⟨fun j hj => ?_, fun j hj => ?_, fun x hx => ?_, fun x hx => ?_⟩, ?_⟩
  · have hle := followUp_frames sdp call
    have hlen := hsub.length_le
    rw [load, weight, weight, hpB, houtB', hincB', hchainB, hinc, hchain]
    simp only [List.length_nil]
    omega
  · rw [hincB'] at hj
    exact nomatch hj
  · rw [hpB, hchainB] at hx
    exact nomatch hx
  · rw [hchain] at hx
    refine hi.forth.peer (op, call) ?_ env ?_
    · rw [hful.chain]
      exact List.mem_cons_self ..
    · rw [← henv]
      exact (offerEnv_followUp hx).symm
  · rw [houtB'] at hj
    exact nomatch hj
  · rw [hinc] at hj
    exact nomatch hj
  · rw [hchain] at hx
    exact hcalls x hx
  · rw [hpB, hchainB] at hx
    exact nomatch hx
  · rw [hpB]
    exact hagree

end Performed

section Kinds

variable {sdp : String} {sections : List RtcSignaling.Kind} {pc pc' : Pc} {op : PcOp Json}
  {env : Vars} {m : Received} {o : Desc} {call : Call} {rest : List (PcOp Json × Call)}
  {states : List RtcSignaling.SignalingState} (htrust : Trusty ids n)

include hAB hi

/-- An operation that leaves the connection alone. -/
theorem performed_idle
    (hful : Fulfilled (n.page A) (n'.page A) sdp sections pc pc op call rest states)
    (hsend : frames call = [])
    (hcalls : ∀ x ∈ followUp sdp call, CallFits ids B A n'.page x.2) : Sides ids A B n' := by
  refine sides_sole hAB hreach ht hi hful (fun j hj => ?_) hcalls
    (hi.agree.of_eq (hful.after.trans hful.before.symm))
  rw [hsend] at hj
  exact nomatch hj

include htrust in
/-- The offer is set and sent. -/
theorem performed_offer (hty : o.type = .offer) (htext : ∃ t : String, o.sdp = t)
    (hful : Fulfilled (n.page A) (n'.page A) sdp sections pc pc' (.setLocalDescription o)
      (.offerApplied env o) rest states) : Sides ids A B n' := by
  have hmem : (.setLocalDescription o, .offerApplied env o) ∈ (n.page A).chain := by
    rw [hful.chain]
    exact List.mem_cons_self ..
  obtain ⟨hstate, hpend, -⟩ := RtcSignaling.perform_localOffer hty hful.perform
  have hnot : pc'.signalingState ≠ .stable := by
    rw [hstate]
    exact fun h => (nomatch h)
  refine sides_sole hAB hreach ht hi hful (fun j hj => ?_) (fun x hx => (nomatch hx))
    (agree_unstable hful.after hnot)
  obtain ⟨f, hsender, rfl, ⟨_, _, hcall, rfl, hpeer⟩ | ⟨_, _, _, hcall, -⟩⟩ :=
    frames_of_good ((htrust.pages A).calls _ hmem) (.offerApplied hty htext) hj
  · cases hcall
    have hdest := hi.forth.peer _ hmem env rfl
    rw [hpeer] at hdest
    refine ⟨f, rfl, hsender, Json.text_inj hdest, fun _ _ => ⟨pc', hful.after, hstate, hpend⟩,
      fun hans => ?_⟩
    rw [hty] at hans
    exact nomatch hans
  · exact nomatch hcall

/-- The offer of the other page is set. -/
theorem performed_remoteOffer {f : Frame} (hm : m.data = f.json)
    (hfits : Fits ids B A n.page f) (hty : f.desc.type = .offer)
    (hful : Fulfilled (n.page A) (n'.page A) sdp sections pc pc'
      (.setRemoteDescription f.desc) (.remoteApplied env m true) rest states) :
    Sides ids A B n' := by
  obtain ⟨hstate, hpend, -⟩ := RtcSignaling.perform_remoteOffer hty hful.perform
  have hnot : pc'.signalingState ≠ .stable := by
    rw [hstate]
    exact fun h => (nomatch h)
  refine sides_sole hAB hreach ht hi hful (fun j hj => (nomatch hj)) (fun x hx => ?_)
    (agree_unstable hful.after hnot)
  cases List.mem_singleton.mp hx
  refine ⟨f, hm, hty, ⟨hfits.sender, hfits.dest, fun h => ?_, fun hans => ?_⟩,
    fun _ => ⟨pc', hful.after, hstate, hpend⟩⟩
  · rw [(turn_other hAB ht).1]
    exact hfits.offer h
  · rw [hty] at hans
    exact nomatch hans

/-- The answer is set, and ends the negotiation. -/
theorem performed_remoteAnswer {f : Frame} (hfits : Fits ids B A n.page f)
    (hty : f.desc.type = .answer)
    (hful : Fulfilled (n.page A) (n'.page A) sdp sections pc pc'
      (.setRemoteDescription f.desc) (.remoteApplied env m false) rest states) :
    Sides ids A B n' := by
  obtain ⟨rfl, -, -⟩ := RtcSignaling.perform_remoteAnswer hty hful.perform
  obtain ⟨o, hoff, hend⟩ := hfits.answer hty
  -- the offer that is outstanding here is the one it answers
  obtain ⟨pc₁, hpc₁, -, hpend⟩ := hoff hful.mounted
  cases hpc₁.symm.trans hful.before
  exact sides_sole hAB hreach ht hi hful (fun j hj => (nomatch hj)) (fun x hx => (nomatch hx))
    (agree_ended (page_reachable B hreach) hful.after ⟨rfl, hpend, rfl⟩ hend)

include htrust in
/-- The answer to the offer of the other page is set and sent. -/
theorem performed_answer {f : Frame} (hm : m.data = f.json) (hfits : Fits ids B A n.page f)
    (hoff : f.desc.type = .offer) (hhas : Has (Offered f.desc) (n.page A))
    (hty : o.type = .answer) (htext : ∃ t : String, o.sdp = t)
    (hid : truthy env.clientId = true)
    (hful : Fulfilled (n.page A) (n'.page A) sdp sections pc pc' (.setLocalDescription o)
      (.answerApplied env m o) rest states) : Sides ids A B n' := by
  have hmem : (.setLocalDescription o, .answerApplied env m o) ∈ (n.page A).chain := by
    rw [hful.chain]
    exact List.mem_cons_self ..
  obtain ⟨rfl, -, -⟩ := RtcSignaling.perform_localAnswer hty hful.perform
  obtain ⟨pc₁, hpc₁, -, hpend⟩ := hhas hful.mounted
  cases hpc₁.symm.trans hful.before
  have hoffers := hfits.offer hoff
  refine sides_sole hAB hreach ht hi hful (fun j hj => ?_) (fun x hx => (nomatch hx))
    (agree_offers (page_reachable B hreach) hoffers)
  obtain ⟨g, hsender, rfl, ⟨_, _, hcall, -⟩ | ⟨_, _, _, hcall, rfl, hfrom⟩⟩ :=
    frames_of_good ((htrust.pages A).calls _ hmem) (.answerApplied hty htext hid) hj
  · exact nomatch hcall
  · cases hcall
    have hdest : f.sender = g.dest := by
      rw [hm, f.json_from] at hfrom
      exact Json.text_inj (Option.some.inj hfrom)
    refine ⟨g, rfl, hsender, by rw [← hdest]; exact hfits.sender, fun hoff' => ?_,
      fun _ => ⟨f.desc, ?_, fun _ => ⟨_, hful.after, rfl, rfl, hpend⟩⟩⟩
    · rw [hty] at hoff'
      exact nomatch hoff'
    · rw [(turn_other hAB ht).1]
      exact hoffers

include htrust in
theorem sides_performed
    (hful : Fulfilled (n.page A) (n'.page A) sdp sections pc pc' op call rest states) :
    Sides ids A B n' := by
  have hmem : (op, call) ∈ (n.page A).chain := by
    rw [hful.chain]
    exact List.mem_cons_self ..
  have hcall := hi.back.calls _ hmem
  have hpB := (turn_other hAB ht).1
  cases (matched_reachable (page_reachable A hreach)).calls _ hmem with
  | offerCreated =>
      obtain ⟨rfl, -⟩ := RtcSignaling.perform_createOffer hful.perform
      refine performed_idle hAB hreach ht hi hful rfl (fun x hx => ?_)
      cases List.mem_singleton.mp hx
      trivial
  | offerApplied hty htext => exact performed_offer hAB hreach ht hi htrust hty htext hful
  | remoteApplied hsdp hd _ =>
      obtain ⟨f, hm, hfits⟩ := hcall
      rw [sdpOf_frame f hm] at hsdp
      cases hsdp
      rw [RTCSessionDescription_descJson] at hd
      cases hd
      rw [isOfferSdp_descJson] at hful
      rcases f.kind with hty | hty
      · rw [decide_eq_true hty] at hful
        exact performed_remoteOffer hAB hreach ht hi hm hfits hty hful
      · rw [decide_eq_false (by rw [hty]; exact fun h => (nomatch h))] at hful
        exact performed_remoteAnswer hAB hreach ht hi hfits hty hful
  | answerCreated _ =>
      obtain ⟨rfl, -⟩ := RtcSignaling.perform_createAnswer hful.perform
      refine performed_idle hAB hreach ht hi hful rfl (fun x hx => ?_)
      cases List.mem_singleton.mp hx
      -- the connection is that of before
      obtain ⟨f, hm, hty, hfits, hhas⟩ := hcall
      obtain ⟨pc₁, hpc₁, hoffered⟩ := hhas hful.mounted
      cases hpc₁.symm.trans hful.before
      refine ⟨f, hm, hty, ⟨hfits.sender, hfits.dest, fun h => ?_, fun hans => ?_⟩,
        fun _ => ⟨_, hful.after, hoffered⟩⟩
      · rw [hpB]
        exact hfits.offer h
      · rw [hty] at hans
        exact nomatch hans
  | answerApplied hty htext hid =>
      obtain ⟨f, hm, hoff, hfits, hhas⟩ := hcall
      exact performed_answer hAB hreach ht hi htrust hm hfits hoff hhas hty htext hid hful
  | candidateAdded =>
      obtain ⟨rfl, -⟩ := RtcSignaling.perform_addIceCandidate hful.perform
      exact performed_idle hAB hreach ht hi hful rfl (fun x hx => (nomatch hx))

end Kinds

end Turns

/-! ## Runs -/

/-- Two pages, and whoever starts an offer has the other as its peer. -/
def between (A B : Addr) (n : Net) (e : Event) : Bool :=
  (address e = A || address e = B) && (!starts n A e || peers n A B) &&
    (!starts n B e || peers n B A)

/-- An offer is started only when nothing is on its way between the pages, and no handler
    is suspended. -/
def unhurried (A B : Addr) (n : Net) (e : Event) : Bool :=
  !(starts n A e || starts n B e) || load A B n = 0

section Run

variable {from_str : String → Option Message} {C : Net → Event → Prop}
  {ids : Addr → String} {A B : Addr} {n n' : Net} {e : Event}

/-- One step, at the first page. -/
theorem sides_step (hAB : A ≠ B) (hB : ∀ c, ids c = ids B → c = B)
    (hreach : ReachVia (net everyone from_str) C n) (hn : Named ids n) (htrust : Trusty ids n)
    (hmoves : Moves ids n e n') (he : address e = A)
    (hpeer : starts n A e = true → peers n A B = true)
    (hclear : starts n A e = true → load A B n = 0) (hi : Sides ids A B n) :
    Sides ids A B n' := by
  by_cases hturn : ∃ a d l, Turn ids n e a d l n'
  · obtain ⟨a, d, l, ht⟩ := hturn
    obtain rfl : a = A := by
      rcases ht.event with ⟨hev, -⟩ | ⟨hev, -⟩
      · rw [hev] at he
        exact he
      · rw [hev] at he
        exact he
    by_cases hd : ∃ sdp sections, d = .settle (.fulfilled sdp sections)
    · obtain ⟨sdp, sections, rfl⟩ := hd
      obtain ⟨_, _, _, _, _, _, hful⟩ := step_fulfilled ht.step
      exact sides_performed hAB hreach ht hi htrust hful
    · exact sides_quiet hAB hreach ht hi (fun sdp sections h => hd ⟨sdp, sections, h⟩) hn
        hpeer hclear
  · exact sides_carried hAB hB hmoves (fun a d l ht => hturn ⟨a, d, l, ht⟩) he hi

theorem sides_reachVia (hdec : DecodesFrames from_str) (hAB : A ≠ B)
    (hA : ∀ c, ids c = ids A → c = A) (hB : ∀ c, ids c = ids B → c = B)
    (h : ReachVia (net everyone from_str)
      (fun n e => between A B n e = true ∧ unhurried A B n e = true) n)
    (hn : Named ids n) : Sides ids A B n := by
  refine ReachVia.invariant (I := fun n => Named ids n → Sides ids A B n)
    (fun n h0 _ => ?_) (fun n e n' hr hi hc hst hn' => ?_) h hn
  · subst h0
    exact sides_initial ids A B
  · have hstep := CamNet.step_cases hst
    have hbefore := hn'.before hstep
    have htrust := trusty_reachVia (fun _ _ _ _ hs => closed_everyone hs) hr hbefore
    have hmoves := step_moves hr hdec hbefore (closed_everyone hst) htrust hstep
    obtain ⟨hbetween, hunhurried⟩ := hc
    simp only [between, Bool.and_eq_true, Bool.or_eq_true, decide_eq_true_eq,
      Bool.not_eq_true'] at hbetween
    simp only [unhurried, Bool.or_eq_true, Bool.not_eq_true', Bool.or_eq_false_iff,
      decide_eq_true_eq] at hunhurried
    obtain ⟨⟨haddr, hpeerA⟩, hpeerB⟩ := hbetween
    have hpeer : ∀ {p q}, starts n p e = false ∨ peers n p q = true →
        starts n p e = true → peers n p q = true := by
      rintro p q (hno | hyes) hs
      · rw [hno] at hs
        exact nomatch hs
      · exact hyes
    have hclear : starts n A e = true ∨ starts n B e = true → load A B n = 0 := by
      intro hs
      rcases hunhurried with ⟨hnoA, hnoB⟩ | hzero
      · rw [hnoA, hnoB] at hs
        rcases hs with hs | hs <;> exact nomatch hs
      · exact hzero
    -- the pages are alike
    rcases haddr with he | he
    · exact sides_step hAB hB hr hbefore htrust hmoves he (hpeer hpeerA)
        (fun hs => hclear (Or.inl hs)) (hi hbefore)
    · refine (sides_step (Ne.symm hAB) hA hr hbefore htrust hmoves he (hpeer hpeerB)
        (fun hs => ?_) (hi hbefore).symm).symm
      rw [load_comm]
      exact hclear (Or.inr hs)

end Run

/-- A stable connection of a page has nothing pending. -/
theorem settled_reachable {s : Page} (h : Reachable CamPage.page s) :
    ∀ pc, s.peerConnectionRef = some pc → pc.Settled := by
  refine pc_reachable (fun pc pc' hsig hi => ?_) (fun _ => ⟨rfl, rfl⟩) (fun pc _ hs => ?_)
    (fun _ _ _ _ _ => RtcSignaling.perform_settled) h
  · rw [hsig]
    exact hi
  · exact nomatch hs

/-- **THE TWO PAGES AGREE** in every run in which an offer is started only when nothing is
    on its way between them and no handler is suspended: whenever both connections are
    stable, and negotiated, the local description of each is the remote description of
    the other. -/
theorem descriptions_agree {from_str : String → Option Message}
    (hdec : DecodesFrames from_str) {A B : Addr} (hAB : A ≠ B) {n : Net}
    (h : ReachVia (net everyone from_str)
      (fun n e => between A B n e = true ∧ unhurried A B n e = true) n)
    {x y : WebSocketSession} (hx : n.relay.actor A = some x) (hy : n.relay.actor B = some y)
    {pc pc' : Pc} (hpc : (n.page A).peerConnectionRef = some pc)
    (hpc' : (n.page B).peerConnectionRef = some pc') (hs : pc.signalingState = .stable)
    (hs' : pc'.signalingState = .stable) {l r l' r' : Desc}
    (hl : pc.localDescription = some l) (hr : pc.remoteDescription = some r)
    (hl' : pc'.localDescription = some l') (hr' : pc'.remoteDescription = some r') :
    l = r' ∧ l' = r := by
  have hn : Named (fun a => (session n.relay a).id) n := by
    intro a z hz
    show z.id = (session n.relay a).id
    rw [session_some hz]
  have hsides := sides_reachVia hdec hAB (id_unique h.reachable hx) (id_unique h.reachable hy)
    h hn
  obtain ⟨hp, hq⟩ := settled_reachable (page_reachable A h) pc hpc hs
  obtain ⟨hp', hq'⟩ := settled_reachable (page_reachable B h) pc' hpc' hs'
  rw [Pc.localDescription, hp] at hl
  rw [Pc.remoteDescription, hq] at hr
  rw [Pc.localDescription, hp'] at hl'
  rw [Pc.remoteDescription, hq'] at hr'
  exact hsides.agree pc pc' hpc hpc' hs hs' l r l' r' hl hr hl' hr'

/-! ## Two runs -/

/-- State and descriptions of the connection of a page. -/
def outcome (s : Page) : Option (RtcSignaling.SignalingState × Option Desc × Option Desc) :=
  s.peerConnectionRef.map (fun pc =>
    (pc.signalingState, pc.localDescription, pc.remoteDescription))

/-- The page renders, and the effects that are due run. -/
def restRun (a : Addr) : List Event := [.browser a .render, .browser a .flushEffects]

/-- Both pages offer, each drops its own offer for the other's and answers, and both
    answers come too late. -/
def glareRun : List Event :=
  meetRun ++ [.browser 0 .press] ++ setRun 0 "by 0" ++ [.browser 1 .press] ++ setRun 1 "by 1" ++
    carryRun 0 1 ++ carryRun 1 0 ++ replyRun 0 "to 1" ++ replyRun 1 "to 0" ++ carryRun 0 1 ++
    carryRun 1 0 ++ [.browser 0 (.settle .rejected), .browser 1 (.settle .rejected)] ++
    restRun 0 ++ restRun 1

/-- Everything is at rest, both connections are stable, and each has its own answer to
    the offer that the other has dropped. -/
theorem glare_disagrees :
    ∃ n : Net, ReachVia (net everyone CamWire.from_str) (fun n e => between 0 1 n e = true) n ∧
      Quiescent n ∧
      outcome (n.page 0) = some (.stable, some ⟨.answer, "to 1"⟩, some ⟨.offer, "by 1"⟩) ∧
      outcome (n.page 1) = some (.stable, some ⟨.answer, "to 0"⟩, some ⟨.offer, "by 0"⟩) := by
  have hrun : (execVia (net everyone CamWire.from_str) (between 0 1) .initial glareRun).any
      (fun n => (List.range 2).all (atRest n) &&
        decide (outcome (n.page 0)
          = some (.stable, some ⟨.answer, "to 1"⟩, some ⟨.offer, "by 1"⟩)) &&
        decide (outcome (n.page 1)
          = some (.stable, some ⟨.answer, "to 0"⟩, some ⟨.offer, "by 0"⟩))) = true := by
    decide +kernel
  obtain ⟨n, hexec, hreach, hcheck⟩ := ReachVia.of_check (fun _ _ h => h) rfl hrun
  simp only [Bool.and_eq_true, decide_eq_true_eq] at hcheck
  obtain ⟨⟨hrest, h₀⟩, h₁⟩ := hcheck
  exact ⟨n, hreach, quiescent_of_run hexec (by decide) hrest, h₀, h₁⟩

/-- Page 0 calls, page 1 answers, and the answer is set. -/
def agreedRun : List Event :=
  meetRun ++ [.browser 0 .press] ++ calledRun ++ [.browser 0 (.settle (.fulfilled "" []))] ++
    restRun 0

theorem outcome_some {s : Page} {st : RtcSignaling.SignalingState} {l r : Desc}
    (h : outcome s = some (st, some l, some r)) :
    ∃ pc, s.peerConnectionRef = some pc ∧ pc.signalingState = st ∧
      pc.localDescription = some l ∧ pc.remoteDescription = some r := by
  obtain ⟨pc, hpc, heq⟩ := Option.map_eq_some_iff.mp h
  obtain ⟨hs, hd⟩ := Prod.mk.inj heq
  obtain ⟨hl, hr⟩ := Prod.mk.inj hd
  exact ⟨pc, hpc, hs, hl, hr⟩

theorem descriptions_agree_sample :
    ∃ n : Net, ReachVia (net everyone CamWire.from_str)
        (fun n e => between 0 1 n e = true ∧ unhurried 0 1 n e = true) n ∧
      ∃ l r l' r', outcome (n.page 0) = some (.stable, some l, some r) ∧
        outcome (n.page 1) = some (.stable, some l', some r') ∧ l = r' ∧ l' = r := by
  -- the run, evaluated
  have hrun : (execVia (net everyone CamWire.from_str)
      (fun n e => between 0 1 n e && unhurried 0 1 n e) .initial agreedRun).any (fun n =>
        (n.relay.actor 0).isSome && (n.relay.actor 1).isSome &&
        decide (outcome (n.page 0)
          = some (.stable, some ⟨.offer, "offer"⟩, some ⟨.answer, "answer"⟩)) &&
        decide (outcome (n.page 1)
          = some (.stable, some ⟨.answer, "answer"⟩, some ⟨.offer, "offer"⟩))) = true := by
    decide +kernel
  obtain ⟨n, -, hreach, hcheck⟩ :=
    ReachVia.of_check (fun _ _ h => Bool.and_eq_true_iff.mp h) rfl hrun
  simp only [Bool.and_eq_true, decide_eq_true_eq] at hcheck
  obtain ⟨⟨⟨hx, hy⟩, ho⟩, ho'⟩ := hcheck
  obtain ⟨x, hx⟩ := Option.isSome_iff_exists.mp hx
  obtain ⟨y, hy⟩ := Option.isSome_iff_exists.mp hy
  obtain ⟨pc, hpc, hs, hl, hr⟩ := outcome_some ho
  obtain ⟨pc', hpc', hs', hl', hr'⟩ := outcome_some ho'
  exact ⟨n, hreach, _, _, _, _, ho, ho', descriptions_agree decodesFrames_from_str
    (by decide) hreach hx hy hpc hpc' hs hs' hl hr hl' hr'⟩

end CamAgree
