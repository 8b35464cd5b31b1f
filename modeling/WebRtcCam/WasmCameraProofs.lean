import Mathlib.Data.List.Perm.Basic
import WebRtcCam.LtsRunProofs
import WebRtcCam.WasmMemoryProofs

/-! # Calls of `start_camera` through the memory of the module

    `start_camera` is an asynchronous function of the module that JavaScript calls with the
    id of a video element.  The glue writes the id into the memory of the module; the call
    keeps that block until it is over, and looks the element up when it gets there, in
    `lib.rs` after the user was asked for the camera: `getElementById` gets the id as the
    glue reads it back then.  Meanwhile other calls, and Rust itself, use the same memory.

    What the function does is a parameter, a `Body`.  That of `wasm/src/lib.rs` is
    `lib_start_camera`; the module in `webrtc/src/wasm` was built from another version of
    it, which asks for the camera without constraints and panics where this one returns a
    text.

    `Call.video_id` is what JavaScript passed.  No step reads it; the theorem compares it
    with what is read from the memory.

    * `start_camera` — the system without a memory, where a call simply has its id;
    * `camera` — the system with the memory and the glue;
    * `memory_hidden` — every run of the second is a run of the first. -/

namespace WasmCamera

open LtsRun Utf16 WasmMemory

/-! ## The function -/

/-- What an asynchronous call can be rejected with: a text of the function, or what the
    browser has thrown. -/
inductive CameraError where
  | text (s : String)
  | thrown
  deriving DecidableEq, Repr

/-- An element of the document: its id, whether it is a video, whether `srcObject` can be
    set, and what it is. -/
structure Element where
  id : List UInt16
  isVideo : Bool
  settable : Bool
  srcObject : Option Nat
  deriving DecidableEq, Repr

/-- `document.getElementById(id)`: no element has the empty id. -/
def getElementById (document : List Element) (id : List UInt16) : Option Nat :=
  document.findIdx? (fun e => decide (e.id = id ∧ id ≠ []))

/-- The body of an asynchronous function of one string, with which it does nothing but
    look the element up; `ρ` is what the browser can reply to other imports, or what a
    promise settles with. -/
inductive Body (ρ : Type) where
  /-- `Ok(())` or an error; the string is dropped. -/
  | returns (error : Option CameraError)
  /-- A trap, which drops nothing. -/
  | panics
  /-- What goes on depends on a reply; `none` if it is none to this question. -/
  | asks (k : ρ → Option (Body ρ))
  /-- The element is looked up, and the document may be changed. -/
  | looksUp (k : List Element → Option Nat → List Element × Body ρ)

/-! ## The function of `lib.rs` -/

/-- What the browser has to offer when a call begins: whether there is a window and a
    document, and whether `mediaDevices` and `getUserMedia` return. -/
structure Realm where
  window : Bool
  document : Bool
  mediaDevices : Bool
  getUserMedia : Bool
  deriving DecidableEq, Repr

/-- How the promise of `getUserMedia` settles: with a stream, with something else, or with
    an error. -/
inductive Settled where
  | stream (id : Nat)
  | other
  | rejected
  deriving DecidableEq, Repr

inductive Reply where
  | realm (realm : Realm)
  | settled (outcome : Settled)
  deriving DecidableEq, Repr

/-- `start_camera`, up to the promise of `getUserMedia`: what it fails with, if it does. -/
def begun (realm : Realm) : Option CameraError :=
  if !realm.window then some (.text "No global `window` exists")
  else if !realm.document then some (.text "Failed to get document")
  else if !realm.mediaDevices || !realm.getUserMedia then some .thrown
  else none

/-- `dyn_into::<MediaStream>()` on what the promise has settled with. -/
def streamOf : Settled → Except CameraError Nat
  | .stream id => .ok id
  | .other => .error (.text "Failed to cast stream to MediaStream")
  | .rejected => .error .thrown

/-- The rest of `start_camera`: the stream gets into the element that was looked up. -/
def shown (stream : Nat) (document : List Element) (found : Option Nat) :
    List Element × Body Reply :=
  match found.bind (fun k => document[k]?.map (fun e => (k, e))) with
  | none => (document, .returns (some (.text "Failed to find video element")))
  | some (k, e) =>
      if !e.isVideo then
        (document, .returns (some (.text "Failed to cast element to HtmlVideoElement")))
      else if !e.settable then
        (document, .returns (some (.text "Failed to set video srcObject")))
      else (document.set k { e with srcObject := some stream }, .returns none)

/-- `start_camera` from its `await` on. -/
def awaited : Body Reply :=
  .asks (fun
    | .settled outcome =>
        match streamOf outcome with
        | .ok stream => some (.looksUp (shown stream))
        | .error e => some (.returns (some e))
    | .realm _ => none)

/-- `start_camera` of `wasm/src/lib.rs`. -/
def lib_start_camera : Body Reply :=
  .asks (fun
    | .realm realm =>
        match begun realm with
        | none => some awaited
        | some e => some (.returns (some e))
    | .settled _ => none)

/-! ## Calls that have their id -/

/-- Where a call is: at what is left of the function, over with `Ok(())` or an error, or
    stopped by a panic, or lost in an exception of the glue. -/
inductive Phase (ρ : Type) where
  | running (rest : Body ρ)
  | over (error : Option CameraError)
  | panicked
  | lost

/-- What happens to the calls and the document: a call goes on, with a reply if it waits
    for one. -/
inductive Act (ρ : Type) where
  | start (video_id : List UInt16)
  | go (i : Nat) (reply : ρ)
  | change (document : List Element)

structure Show (ρ : Type) where
  calls : List (List UInt16 × Phase ρ)
  document : List Element

section Functions

variable {ρ : Type} (body : Body ρ)

/-- The call gets to a phase. -/
def Show.enter (s : Show ρ) (i : Nat) (id : List UInt16) (phase : Phase ρ) : Show ρ :=
  { s with calls := s.calls.set i (id, phase) }

/-- Call `i` with this id goes on with what is left. -/
def Show.go (i : Nat) (id : List UInt16) (reply : ρ) (s : Show ρ) : Body ρ → Option (Show ρ)
  | .returns error => some (s.enter i id (.over error))
  | .panics => some (s.enter i id .panicked)
  | .asks k => (k reply).map (fun rest => s.enter i id (.running rest))
  | .looksUp k =>
      let r := k s.document (getElementById s.document id)
      some ({ s with document := r.1 }.enter i id (.running r.2))

def Show.step (s : Show ρ) : Act ρ → Option (Show ρ)
  | .start video_id =>
      some { s with calls := s.calls ++ [(encode (scalars video_id), .running body)] }
  | .go i reply =>
      match s.calls[i]? with
      | some (id, .running rest) => s.go i id reply rest
      | _ => none
  | .change document => some { s with document }

/-- `start_camera`, with no memory: a call has its id, without lone surrogates. -/
def start_camera : Lts (Show ρ) (Act ρ) where
  init := fun s => s.calls = []
  step := Show.step body

end Functions

/-! ## Calls that have their id in the memory -/

structure Call (ρ : Type) where
  video_id : List UInt16
  ptr : Nat
  len : Nat
  phase : Phase ρ

/-- The call holds its block: it is not over, or ended without a drop. -/
def Phase.holds {ρ : Type} : Phase ρ → Bool
  | .over _ => false
  | _ => true

def Call.block {ρ : Type} (c : Call ρ) : Nat × Nat := (c.ptr, c.len)

structure Cam (ρ : Type) where
  glue : Glue
  /-- The other blocks that Rust has. -/
  owned : List (Nat × Nat)
  calls : List (Call ρ)
  document : List Element

/-- What happens to the calls, and what else happens to the memory: Rust allocates, drops
    and writes in blocks of its own, and the glue looks at the memory. -/
inductive Event (ρ : Type) where
  | act (a : Act ρ)
  | alloc (n : Nat)
  | drop (p n : Nat)
  | store (p n offset : Nat) (bytes : List UInt8)
  | look

section System

variable {ρ : Type} (A : Allocator) (enc : TextEncoder) (body : Body ρ)

def Cam.enter (s : Cam ρ) (i : Nat) (c : Call ρ) (phase : Phase ρ) : Cam ρ :=
  { s with calls := s.calls.set i { c with phase } }

@[simps] def Cam.setWasm (w : Instance) (s : Cam ρ) : Cam ρ :=
  { s with glue := { s.glue with wasm := w } }

/-- `start_camera` of the glue. -/
def start (video_id : List UInt16) (s : Cam ρ) : Option (Cam ρ) :=
  match passStringToWasm0 A enc true video_id s.glue with
  | .ok (ptr0, glue) => some { s with
      glue
      calls := s.calls ++ [⟨video_id, ptr0, glue.WASM_VECTOR_LEN, .running body⟩] }
  | .error _ => none

/-- The call goes on.  The import `getElementById` has the glue read the id; an exception
    there is not one that Rust can catch. -/
def go (i : Nat) (c : Call ρ) (reply : ρ) (s : Cam ρ) : Body ρ → Option (Cam ρ)
  | .returns error =>
      (A.drop s.glue.wasm c.ptr c.len).map (fun w => (s.setWasm w).enter i c (.over error))
  | .panics => some (s.enter i c .panicked)
  | .asks k => (k reply).map (fun rest => s.enter i c (.running rest))
  | .looksUp k =>
      match getStringFromWasm0 true c.ptr c.len s.glue with
      | .error _ => some (s.enter i c .lost)
      | .ok (id, glue) =>
          let r := k s.document (getElementById s.document id)
          some ({ s with glue, document := r.1 }.enter i c (.running r.2))

/-- One step.  The ids are short enough for three bytes a unit to be counted in 32 bits;
    anything may happen between two imports of a call. -/
def Cam.step (s : Cam ρ) : Event ρ → Option (Cam ρ)
  | .act (.start video_id) =>
      if 3 * video_id.length < 2 ^ 32 then start A enc body video_id s else none
  | .act (.go i reply) =>
      match s.calls[i]? with
      | some c =>
          match c.phase with
          | .running rest => go A i c reply s rest
          | _ => none
      | none => none
  | .act (.change document) => some { s with document }
  | .alloc n =>
      (A.malloc s.glue.wasm (toUint32 n) 1).map (fun r =>
        { s.setWasm r.2 with owned := (toUint32 r.1, toUint32 n) :: s.owned })
  | .drop p n =>
      if (p, n) ∈ s.owned then
        (A.drop s.glue.wasm p n).map (fun w =>
          { s.setWasm w with owned := s.owned.erase (p, n) })
      else none
  | .store p n offset bytes =>
      if (p, n) ∈ s.owned ∧ offset + bytes.length ≤ n then
        some (s.setWasm (s.glue.wasm.write (p + offset) bytes))
      else none
  | .look => some { s with glue := (getUint8ArrayMemory0 s.glue).2 }

/-- The system; at first there are no calls, and the allocator is in order. -/
def camera (I : Instance → Prop) : Lts (Cam ρ) (Event ρ) where
  init := fun s => s.calls = [] ∧ I s.glue.wasm ∧ s.glue.Sane ∧ s.glue.wasm.blocks.Perm s.owned
  step := Cam.step A enc body

end System

section Abstraction

variable {ρ : Type}

/-- A call as one that has its id. -/
def Call.shown (c : Call ρ) : List UInt16 × Phase ρ := (encode (scalars c.video_id), c.phase)

/-- The system without its memory. -/
def Cam.abs (s : Cam ρ) : Show ρ := ⟨s.calls.map Call.shown, s.document⟩

/-- What happens without the memory. -/
def Event.act? : Event ρ → Option (Act ρ)
  | .act a => some a
  | _ => none

end Abstraction

/-! ## The blocks of the calls -/

section Blocks

variable {ρ : Type}

/-- The blocks that calls hold. -/
def blocksOf (calls : List (Call ρ)) : List (Nat × Nat) :=
  (calls.filter (fun c => c.phase.holds)).map Call.block

variable {calls : List (Call ρ)} {i : Nat} {c : Call ρ}

theorem mem_blocksOf (hc : c ∈ calls) (hh : c.phase.holds = true) :
    c.block ∈ blocksOf calls :=
  List.mem_map_of_mem (List.mem_filter.mpr ⟨hc, hh⟩)

@[simp] theorem blocksOf_append (l₁ l₂ : List (Call ρ)) :
    blocksOf (l₁ ++ l₂) = blocksOf l₁ ++ blocksOf l₂ := by
  simp [blocksOf]

/-- The calls around one of them. -/
theorem around (hi : calls[i]? = some c) (c' : Call ρ) :
    ∃ l₁ l₂, calls = l₁ ++ c :: l₂ ∧ calls.set i c' = l₁ ++ c' :: l₂ := by
  obtain ⟨hlt, rfl⟩ := List.getElem?_eq_some_iff.mp hi
  have hset : ∃ l₁ l₂, calls = l₁ ++ calls[i] :: l₂ ∧ l₁.length = i ∧
      calls.set i c' = l₁ ++ c' :: l₂ := List.exists_of_set hlt
  obtain ⟨l₁, l₂, hcalls, -, hset⟩ := hset
  exact ⟨l₁, l₂, hcalls, hset⟩

theorem blocksOf_cons (c : Call ρ) (l : List (Call ρ)) :
    blocksOf (c :: l) = if c.phase.holds then c.block :: blocksOf l else blocksOf l := by
  rw [blocksOf, List.filter_cons]
  split <;> rfl

/-- A call that goes on holds what it held. -/
theorem blocksOf_goes (hi : calls[i]? = some c) (hc : c.phase.holds = true) {phase : Phase ρ}
    (hphase : phase.holds = true) :
    blocksOf (calls.set i { c with phase }) = blocksOf calls := by
  obtain ⟨l₁, l₂, hcalls, hset⟩ := around hi { c with phase }
  rw [hset, hcalls, blocksOf_append, blocksOf_append, blocksOf_cons, blocksOf_cons,
    if_pos hphase, if_pos hc]
  rfl

/-- A call that is over has let go of its block. -/
theorem blocksOf_ends (hi : calls[i]? = some c) (hc : c.phase.holds = true)
    (error : Option CameraError) :
    (blocksOf calls).Perm (c.block :: blocksOf (calls.set i { c with phase := .over error })) := by
  obtain ⟨l₁, l₂, hcalls, hset⟩ := around hi { c with phase := .over error }
  have hno : ¬((.over error : Phase ρ).holds = true) := Bool.false_ne_true
  rw [hset, hcalls, blocksOf_append, blocksOf_append, blocksOf_cons, blocksOf_cons, if_neg hno,
    if_pos hc]
  exact List.perm_middle

end Blocks

/-! ## One step -/

/-- Every call that goes on finds its id where it was put. -/
structure Intact {ρ : Type} (I : Instance → Prop) (s : Cam ρ) : Prop where
  valid : I s.glue.wasm
  sane : s.glue.Sane
  blocks : s.glue.wasm.blocks.Perm (blocksOf s.calls ++ s.owned)
  addr : ∀ c ∈ s.calls, c.ptr < 2 ^ 32
  bytes : ∀ c ∈ s.calls, c.phase.holds = true →
    s.glue.wasm.read c.ptr c.len = utf8 (scalars c.video_id)
  found : ∀ c ∈ s.calls, c.phase ≠ .lost

section Steps

variable {ρ : Type} {A : Allocator} {enc : TextEncoder} {body : Body ρ} {I : Instance → Prop}
  {s s' : Cam ρ}

theorem mem_set_cases {calls : List (Call ρ)} {i : Nat} {c d : Call ρ}
    (h : d ∈ calls.set i c) : d ∈ calls ∨ d = c := List.mem_or_eq_of_mem_set h

/-- A call that goes on, or is stopped, keeps everything in place. -/
theorem Intact.enter (h : Intact I s) {i : Nat} {c : Call ρ} (hi : s.calls[i]? = some c)
    (hc : c.phase.holds = true) {phase : Phase ρ} (hphase : phase.holds = true)
    (hfound : phase ≠ .lost) : Intact I (s.enter i c phase) := by
  have hmem : c ∈ s.calls := List.mem_of_getElem? hi
  refine ⟨h.valid, h.sane, ?_, fun d hd => ?_, fun d hd hh => ?_, fun d hd => ?_⟩
  · show s.glue.wasm.blocks.Perm (blocksOf (s.calls.set i _) ++ s.owned)
    rw [blocksOf_goes hi hc hphase]
    exact h.blocks
  · rcases mem_set_cases hd with hd | rfl
    · exact h.addr d hd
    · exact h.addr c hmem
  · rcases mem_set_cases hd with hd | rfl
    · exact h.bytes d hd hh
    · exact h.bytes c hmem hc
  · rcases mem_set_cases hd with hd | rfl
    · exact h.found d hd
    · exact hfound

/-- A call that ends drops its own block and no other. -/
theorem Intact.finish (hA : A.Sound I) (h : Intact I s) {i : Nat} {c : Call ρ}
    (hi : s.calls[i]? = some c) (hc : c.phase.holds = true) {error : Option CameraError}
    {w : Instance} (hdrop : A.drop s.glue.wasm c.ptr c.len = some w) :
    Intact I ((s.setWasm w).enter i c (.over error)) := by
  have hends := blocksOf_ends hi hc error
  have hmem : (c.ptr, c.len) ∈ s.glue.wasm.blocks :=
    h.blocks.mem_iff.mpr (List.mem_append_left _ (mem_blocksOf (List.mem_of_getElem? hi) hc))
  obtain ⟨hvalid, hkeeps, hblocks⟩ := hA.drop h.valid hmem hdrop
  have hrest : (s.glue.wasm.blocks.erase (c.ptr, c.len)).Perm
      (blocksOf (s.calls.set i { c with phase := .over error }) ++ s.owned) := by
    have hperm := (h.blocks.trans (hends.append_right s.owned)).erase (c.ptr, c.len)
    rw [List.cons_append] at hperm
    exact hperm.trans (List.Perm.of_eq (List.erase_cons_head ..))
  refine ⟨hvalid, h.sane.after hkeeps.buffer, ?_, fun d hd => ?_, fun d hd hh => ?_,
    fun d hd => ?_⟩
  · show w.blocks.Perm _
    rw [hblocks]
    exact hrest
  · rcases mem_set_cases hd with hd | rfl
    · exact h.addr d hd
    · exact h.addr c (List.mem_of_getElem? hi)
  · have hblock : d.block ∈ s.glue.wasm.blocks.erase (c.ptr, c.len) :=
      hrest.mem_iff.mpr (List.mem_append_left _ (mem_blocksOf hd hh))
    have hold : d ∈ s.calls := by
      rcases mem_set_cases hd with hd | rfl
      · exact hd
      · exact absurd hh Bool.false_ne_true
    exact (hkeeps.bytes _ hblock).trans (h.bytes d hold hh)
  · rcases mem_set_cases hd with hd | rfl
    · exact h.found d hd
    · exact fun hlost => nomatch hlost

theorem Intact.start (hA : A.Sound I) (h : Intact I s) {video_id : List UInt16}
    (hlen : 3 * video_id.length < 2 ^ 32) (hst : start A enc body video_id s = some s') :
    Intact I s' ∧ s'.abs
      = { s.abs with calls := s.abs.calls ++ [(encode (scalars video_id), .running body)] } := by
  rw [WasmCamera.start] at hst
  split at hst
  · next ptr0 glue hpass =>
      cases hst
      have hp : Passed I video_id s.glue ptr0 glue := by
        have hends : Ends (fun r => Passed I video_id s.glue r.1 r.2) (Throws enc true video_id)
            (passStringToWasm0 A enc true video_id s.glue) :=
          passStringToWasm0_ends hA true h.valid h.sane hlen
        rw [hpass] at hends
        exact hends
      refine ⟨⟨hp.beside.valid, hp.sane, ?_, fun d hd => ?_, fun d hd hh => ?_, fun d hd => ?_⟩,
        ?_⟩
      · show glue.wasm.blocks.Perm (blocksOf (s.calls ++ [_]) ++ s.owned)
        rw [hp.beside.blocks, blocksOf_append, List.append_assoc]
        exact (h.blocks.cons _).trans List.perm_middle.symm
      · rcases List.mem_append.mp hd with hd | hd
        · exact h.addr d hd
        · cases List.mem_singleton.mp hd
          exact hp.addr
      · rcases List.mem_append.mp hd with hd | hd
        · have hblock : d.block ∈ s.glue.wasm.blocks :=
            h.blocks.mem_iff.mpr (List.mem_append_left _ (mem_blocksOf hd hh))
          exact (hp.beside.kept _ hblock).trans (h.bytes d hd hh)
        · cases List.mem_singleton.mp hd
          exact hp.bytes
      · rcases List.mem_append.mp hd with hd | hd
        · exact h.found d hd
        · cases List.mem_singleton.mp hd
          exact fun hlost => nomatch hlost
      · show (⟨(s.calls ++ [_]).map Call.shown, s.document⟩ : Show ρ) = _
        rw [List.map_append]
        rfl
  · cases hst

theorem abs_enter (s : Cam ρ) (i : Nat) (c : Call ρ) (phase : Phase ρ) :
    (s.enter i c phase).abs = s.abs.enter i (encode (scalars c.video_id)) phase := by
  show (⟨(s.calls.set i _).map Call.shown, s.document⟩ : Show ρ) = _
  rw [List.map_set]
  rfl

theorem abs_call {i : Nat} {c : Call ρ} (hi : s.calls[i]? = some c) :
    s.abs.calls[i]? = some (encode (scalars c.video_id), c.phase) := by
  show (s.calls.map Call.shown)[i]? = _
  rw [List.getElem?_map, hi]
  rfl

/-- The glue reads the id that the call was given. -/
theorem Intact.reads (hA : A.Sound I) (h : Intact I s) {i : Nat} {c : Call ρ}
    (hi : s.calls[i]? = some c) (hc : c.phase.holds = true) :
    ∃ kept, getStringFromWasm0 true c.ptr c.len s.glue
        = .ok (encode (scalars c.video_id), { s.glue with cachedUint8ArrayMemory0 := kept }) ∧
      ({ s.glue with cachedUint8ArrayMemory0 := kept } : Glue).Sane := by
  have hmem : c ∈ s.calls := List.mem_of_getElem? hi
  have haddr : toUint32 ((c.ptr : Nat) : Int) = c.ptr := toUint32_of_lt (h.addr c hmem)
  have hin : c.ptr + c.len ≤ s.glue.wasm.byteLength :=
    (hA.heap h.valid).inside c.block (h.blocks.mem_iff.mpr
      (List.mem_append_left _ (mem_blocksOf hmem hc)))
  exact string_returns h.sane (by rw [haddr]; exact hin) (by rw [haddr]; exact h.bytes c hmem hc)

/-- **A CALL GOES ON** as one that has its id, whatever is next in its body. -/
theorem Intact.go (hA : A.Sound I) (h : Intact I s) {i : Nat} {c : Call ρ} {reply : ρ}
    {rest : Body ρ} (hi : s.calls[i]? = some c) (hphase : c.phase = .running rest)
    (hst : WasmCamera.go A i c reply s rest = some s') :
    Intact I s' ∧ s.abs.go i (encode (scalars c.video_id)) reply rest = some s'.abs := by
  have hc : c.phase.holds = true := by
    rw [hphase]
    rfl
  cases rest with
  | returns error =>
      obtain ⟨w, hdrop, rfl⟩ := Option.map_eq_some_iff.mp hst
      refine ⟨h.finish hA hi hc hdrop, ?_⟩
      rw [abs_enter]
      rfl
  | panics =>
      cases hst
      refine ⟨h.enter hi hc rfl (fun hlost => nomatch hlost), ?_⟩
      rw [abs_enter]
      rfl
  | asks k =>
      obtain ⟨rest, hk, rfl⟩ := Option.map_eq_some_iff.mp hst
      refine ⟨h.enter hi hc rfl (fun hlost => nomatch hlost), ?_⟩
      rw [abs_enter, Show.go, hk]
      rfl
  | looksUp k =>
      obtain ⟨kept, hread, hsane⟩ := h.reads hA hi hc
      rw [WasmCamera.go, hread] at hst
      cases hst
      have hi' : Intact I { s with
          glue := { s.glue with cachedUint8ArrayMemory0 := kept }
          document := (k s.document
            (getElementById s.document (encode (scalars c.video_id)))).1 } :=
        ⟨h.valid, hsane, h.blocks, h.addr, h.bytes, h.found⟩
      refine ⟨hi'.enter hi hc rfl (fun hlost => nomatch hlost), ?_⟩
      rw [abs_enter]
      rfl

/-- The bytes of the calls are kept when those of their blocks are. -/
theorem Intact.memory (h : Intact I s) {w : Instance} {owned : List (Nat × Nat)}
    (hvalid : I w) (hblocks : w.blocks.Perm (blocksOf s.calls ++ owned))
    (hbuf : s.glue.wasm.buffer < w.buffer ∨
      w.buffer = s.glue.wasm.buffer ∧ w.byteLength = s.glue.wasm.byteLength)
    (hread : ∀ b ∈ blocksOf s.calls, w.read b.1 b.2 = s.glue.wasm.read b.1 b.2) :
    Intact I { s.setWasm w with owned } :=
  ⟨hvalid, h.sane.after hbuf, hblocks, h.addr,
    fun c hc hh => (hread _ (mem_blocksOf hc hh)).trans (h.bytes c hc hh), h.found⟩

theorem Intact.alloc (hA : A.Sound I) (h : Intact I s) {n : Nat}
    (hst : Cam.step A enc body s (.alloc n) = some s') : Intact I s' ∧ s'.abs = s.abs := by
  obtain ⟨⟨r, w⟩, hr, rfl⟩ := Option.map_eq_some_iff.mp hst
  obtain ⟨hvalid, hkeeps, hblocks⟩ := hA.malloc h.valid hr
  refine ⟨h.memory hvalid ?_ hkeeps.buffer (fun b hb => hkeeps.bytes b ?_), rfl⟩
  · show w.blocks.Perm _
    rw [hblocks]
    exact (h.blocks.cons _).trans List.perm_middle.symm
  · exact h.blocks.mem_iff.mpr (List.mem_append_left _ hb)

theorem Intact.drop (hA : A.Sound I) (h : Intact I s) {p n : Nat}
    (hst : Cam.step A enc body s (.drop p n) = some s') : Intact I s' ∧ s'.abs = s.abs := by
  obtain ⟨hown, hst⟩ := Option.ite_none_right_eq_some.mp hst
  obtain ⟨w, hdrop, rfl⟩ := Option.map_eq_some_iff.mp hst
  obtain ⟨hvalid, hkeeps, hblocks⟩ := hA.drop h.valid
    (h.blocks.mem_iff.mpr (List.mem_append_right _ hown)) hdrop
  have hrest : (s.glue.wasm.blocks.erase (p, n)).Perm
      (blocksOf s.calls ++ s.owned.erase (p, n)) := by
    have hperm : s.glue.wasm.blocks.Perm ((p, n) :: (blocksOf s.calls ++ s.owned.erase (p, n))) :=
      h.blocks.trans (((List.perm_cons_erase hown).append_left _).trans List.perm_middle)
    exact (hperm.erase (p, n)).trans (List.Perm.of_eq (List.erase_cons_head ..))
  refine ⟨h.memory hvalid ?_ hkeeps.buffer (fun b hb => hkeeps.bytes b ?_), rfl⟩
  · rw [hblocks]
    exact hrest
  · exact hrest.mem_iff.mpr (List.mem_append_left _ hb)

theorem Intact.store (hA : A.Sound I) (h : Intact I s) {p n offset : Nat} {bytes : List UInt8}
    (hst : Cam.step A enc body s (.store p n offset bytes) = some s') :
    Intact I s' ∧ s'.abs = s.abs := by
  obtain ⟨⟨hown, hfit⟩, hst⟩ := Option.ite_none_right_eq_some.mp hst
  cases hst
  have honly : OnlyIn (p, n) s.glue.wasm (s.glue.wasm.write (p + offset) bytes) :=
    onlyIn_write (Nat.le_add_right _ _) (by dsimp only; omega)
  have hmem : (p, n) ∈ s.glue.wasm.blocks :=
    h.blocks.mem_iff.mpr (List.mem_append_right _ hown)
  have hapart : (blocksOf s.calls ++ s.owned).Pairwise Apart :=
    (h.blocks.pairwise_iff Apart.symm).mp (hA.heap h.valid).apart
  refine ⟨h.memory (hA.frame h.valid hmem honly) h.blocks (Or.inr ⟨rfl, rfl⟩)
    (fun b hb => honly.read (Apart.symm ?_)), rfl⟩
  exact (List.pairwise_append.mp hapart).2.2 b hb (p, n) hown

/-- **ONE STEP** leaves every id in place, and is a step without the memory, or none. -/
theorem intact_step (hA : A.Sound I) (h : Intact I s) {e : Event ρ}
    (hst : Cam.step A enc body s e = some s') :
    Intact I s' ∧ (∀ a, e.act? = some a → s.abs.step body a = some s'.abs) ∧
      (e.act? = none → s'.abs = s.abs) := by
  cases e with
  | act a =>
      have hact : Intact I s' ∧ s.abs.step body a = some s'.abs := by
        cases a with
        | start video_id =>
            obtain ⟨hlen, hst⟩ := Option.ite_none_right_eq_some.mp hst
            obtain ⟨hi, habs⟩ := h.start hA hlen hst
            exact ⟨hi, by rw [habs]; rfl⟩
        | go i reply =>
            rw [Cam.step] at hst
            split at hst
            · next c hi =>
                split at hst
                · next rest hphase =>
                    obtain ⟨his, habs⟩ := h.go hA hi hphase hst
                    refine ⟨his, ?_⟩
                    rw [Show.step, abs_call hi, hphase]
                    exact habs
                · cases hst
            · cases hst
        | change document =>
            cases hst
            exact ⟨⟨h.valid, h.sane, h.blocks, h.addr, h.bytes, h.found⟩, rfl⟩
      refine ⟨hact.1, fun b hb => ?_, fun hno => nomatch hno⟩
      cases hb
      exact hact.2
  | alloc n =>
      obtain ⟨hi, habs⟩ := h.alloc hA hst
      exact ⟨hi, fun _ ha => (nomatch ha), fun _ => habs⟩
  | drop p n =>
      obtain ⟨hi, habs⟩ := h.drop hA hst
      exact ⟨hi, fun _ ha => (nomatch ha), fun _ => habs⟩
  | store p n offset bytes =>
      obtain ⟨hi, habs⟩ := h.store hA hst
      exact ⟨hi, fun _ ha => (nomatch ha), fun _ => habs⟩
  | look =>
      cases hst
      obtain ⟨kept, hview, hkept⟩ := getUint8ArrayMemory0_eq h.sane
      refine ⟨?_, fun _ ha => (nomatch ha), fun _ => rfl⟩
      rw [hview]
      exact ⟨h.valid, hkept, h.blocks, h.addr, h.bytes, h.found⟩

end Steps

/-! ## Runs -/

/-- **THE MEMORY DOES NOT SHOW.**  Whatever the function does besides, whatever calls of
    `start_camera` overlap, in whatever order they go on and end, and whatever else happens
    to the memory meanwhile, growth included: each call looks up the id it was given, with
    U+FFFD for lone surrogates, and the document and the results are those of calls that
    simply have their id.  None is lost in an exception of the glue. -/
theorem memory_hidden {ρ : Type} {A : Allocator} {enc : TextEncoder} {I : Instance → Prop}
    (hA : A.Sound I) (body : Body ρ) {es : List (Event ρ)} {s₀ s : Cam ρ}
    (h0 : (camera A enc body I).init s₀) (h : exec (camera A enc body I) s₀ es = some s) :
    exec (start_camera body) s₀.abs (es.filterMap Event.act?) = some s.abs ∧
      ∀ c ∈ s.calls, c.phase ≠ .lost := by
  obtain ⟨hcalls, hvalid, hsane, hperm⟩ := h0
  have hi : Intact I s₀ := by
    refine ⟨hvalid, hsane, ?_, ?_, ?_, ?_⟩
    · rw [hcalls]
      exact hperm
    · rw [hcalls]
      exact fun _ hc => nomatch hc
    · rw [hcalls]
      exact fun _ hc => nomatch hc
    · rw [hcalls]
      exact fun _ hc => nomatch hc
  obtain ⟨hs, hrun⟩ := exec_refines (N := start_camera body) Cam.abs Event.act?
    (fun _ _ _ hi hst => intact_step hA hi hst) es hi h
  exact ⟨hrun, hs.found⟩

/-- A browser that has everything. -/
def able : Reply := .realm ⟨true, true, true, true⟩

/-- Two calls overlap; between them and their ends the memory grows, and Rust writes into a
    block of its own. -/
def overlapRun : List (Event Reply) :=
  [.act (.start [0x61]), .look, .act (.start [0xE9, 0x62]), .alloc 100000,
    .store 1036 100000 5 [1, 2, 3], .act (.go 0 able), .act (.go 1 able),
    .act (.go 1 (.settled (.stream 7))), .look, .act (.go 1 able), .act (.go 1 able),
    .act (.go 0 (.settled (.stream 8))), .act (.go 0 able), .act (.go 0 able)]

/-- Two videos, and nothing in the memory. -/
def twoVideos : Cam Reply :=
  ⟨freshGlue, [], [], [⟨[0x61], true, true, none⟩, ⟨[0xE9, 0x62], true, true, none⟩]⟩

theorem memory_hidden_sample :
    ∃ s, exec (camera bump .encodeInto lib_start_camera Heap) twoVideos overlapRun = some s ∧
      exec (start_camera lib_start_camera) twoVideos.abs
        (overlapRun.filterMap Event.act?) = some s.abs ∧
      s.abs.document.map (·.srcObject) = [some 8, some 7] ∧ s.glue.wasm.buffer = 1 ∧
      blocksOf s.calls = [] := by
  have hrun : (exec (camera bump .encodeInto lib_start_camera Heap) twoVideos overlapRun).any
      (fun s => decide (s.document.map (·.srcObject) = [some 8, some 7]) &&
        decide (s.glue.wasm.buffer = 1) && decide (blocksOf s.calls = [])) = true := by
    decide +kernel
  obtain ⟨s, hs, hcheck⟩ := (Option.any_eq_true _ _).mp hrun
  obtain ⟨hcheck, hblocks⟩ := Bool.and_eq_true_iff.mp hcheck
  obtain ⟨hdoc, hbuf⟩ := Bool.and_eq_true_iff.mp hcheck
  have hheap : Heap freshGlue.wasm := ⟨fun _ hb => (nomatch hb), .nil, by decide⟩
  have hinit : (camera bump .encodeInto lib_start_camera Heap).init twoVideos :=
    ⟨rfl, hheap, fun _ hv => (nomatch hv), .refl _⟩
  exact ⟨s, hs, (memory_hidden bump_sound lib_start_camera hinit hs).1, of_decide_eq_true hdoc,
    of_decide_eq_true hbuf, of_decide_eq_true hblocks⟩

end WasmCamera
