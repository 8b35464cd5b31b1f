import Mathlib.Data.List.TakeWhile
import WebRtcCam.Utf16Proofs

/-! # Strings in the memory of the WebAssembly module

    `webrtc/src/wasm/web_rtccam.js` hands strings to the module and takes them back.  The
    module's allocator finds room; the glue writes UTF-8 through a view of the memory, an
    ASCII unit at a time for as long as it can, and with `encodeInto` from there on.  The
    allocator may grow the memory, and then every view is dead.

    The allocator is compiled Rust: it is a parameter here, with what the glue relies on
    (`Allocator.Sound`).

    * `getUint8ArrayMemory0_eq` — the view in use is of the present memory;
    * `passStringToWasm0_passes` — a string that is passed lies in a block of its own, and
      nothing else has changed;
    * `string_returns` — it comes back as it was, lone surrogates apart. -/

namespace WasmMemory

open Utf16

/-! ## The memory -/

/-- The instance, as the glue sees it: the bytes of its memory and how many they are, the
    number of the `ArrayBuffer` that `wasm.memory.buffer` is at present, and the live
    blocks of the allocator, each with its address and size. -/
structure Instance where
  bytes : Nat → UInt8
  byteLength : Nat
  buffer : Nat
  blocks : List (Nat × Nat)

/-- The `n` bytes from `a` on. -/
def Instance.read (w : Instance) (a n : Nat) : List UInt8 :=
  (List.range n).map (fun i => w.bytes (a + i))

/-- These bytes, from `a` on. -/
def Instance.write (w : Instance) (a : Nat) (bs : List UInt8) : Instance :=
  { w with bytes := fun i => if a ≤ i then bs[i - a]?.getD (w.bytes i) else w.bytes i }

/-- A number of JavaScript as an unsigned 32-bit integer: `n >>> 0`, and the parameter of
    an export. -/
def toUint32 (n : Int) : Nat := (n % 4294967296).toNat

/-- What can go wrong: the allocator traps, there is no `TextEncoder` or `TextDecoder`,
    bytes are not UTF-8, or a view cannot be set. -/
inductive Failure where
  | trap | noEncoder | noDecoder | invalid | typeError | rangeError
  deriving DecidableEq, Repr

def orFail {α : Type} (f : Failure) : Option α → Except Failure α
  | some a => .ok a
  | none => .error f

/-- `Uint8Array`, a part of one `ArrayBuffer`. -/
structure View where
  buffer : Nat
  start : Nat
  length : Nat
  deriving DecidableEq, Repr

namespace View

variable (v : View) (w : Instance)

/-- `view.byteLength`: growing the memory detaches the buffer it had. -/
def byteLength : Nat := if v.buffer = w.buffer then v.length else 0

/-- `view[i] = b`; out of range, nothing is written. -/
def put (i : Nat) (b : UInt8) : Instance :=
  if i < v.byteLength w then w.write (v.start + i) [b] else w

/-- `view.subarray(begin, end)`. -/
def subarray (b e : Nat) : View :=
  ⟨v.buffer, v.start + min b (v.byteLength w),
    min e (v.byteLength w) - min b (v.byteLength w)⟩

/-- `view.set(buf)`: an exception when the buffer is detached or too short. -/
def set (buf : List UInt8) : Except Failure Instance :=
  if v.buffer ≠ w.buffer then .error .typeError
  else if v.length < buf.length then .error .rangeError
  else .ok (w.write v.start buf)

/-- The bytes of a view. -/
def toList : List UInt8 := w.read v.start (v.byteLength w)

end View

/-! ## The allocator -/

/-- `__wbindgen_malloc(size, align)`, `__wbindgen_realloc(ptr, old, new, align)`, and what
    Rust does when it drops a boxed string or slice.  An address comes as a signed 32-bit
    integer, and `none` is a trap. -/
structure Allocator where
  malloc : Instance → Nat → Nat → Option (Int × Instance)
  realloc : Instance → Nat → Nat → Nat → Nat → Option (Int × Instance)
  drop : Instance → Nat → Nat → Option Instance

/-- An address lies in a block. -/
def Within (b : Nat × Nat) (i : Nat) : Prop := b.1 ≤ i ∧ i < b.1 + b.2

/-- Two blocks share no byte. -/
def Apart (b c : Nat × Nat) : Prop := ∀ i, Within b i → ¬Within c i

theorem Apart.symm {b c : Nat × Nat} (h : Apart b c) : Apart c b :=
  fun i hc hb => h i hb hc

/-- The live blocks lie in the memory, apart from each other, and addresses have 32 bits. -/
structure Heap (w : Instance) : Prop where
  inside : ∀ b ∈ w.blocks, b.1 + b.2 ≤ w.byteLength
  apart : w.blocks.Pairwise Apart
  small : w.byteLength ≤ 2 ^ 32

/-- Nothing has changed but bytes of one block. -/
structure OnlyIn (b : Nat × Nat) (w w' : Instance) : Prop where
  byteLength : w'.byteLength = w.byteLength
  buffer : w'.buffer = w.buffer
  blocks : w'.blocks = w.blocks
  bytes : ∀ i, ¬Within b i → w'.bytes i = w.bytes i

/-- What allocation keeps: the bytes of these blocks.  The memory has a new buffer when it
    has grown. -/
structure Keeps (bs : List (Nat × Nat)) (w w' : Instance) : Prop where
  bytes : ∀ b ∈ bs, w'.read b.1 b.2 = w.read b.1 b.2
  buffer : w.buffer < w'.buffer ∨ w'.buffer = w.buffer ∧ w'.byteLength = w.byteLength

/-- What the glue relies on, as long as the allocator's own bookkeeping is in order: that is
    `I`, which does not look into live blocks.  Sizes given to `realloc` are positive. -/
structure Allocator.Sound (A : Allocator) (I : Instance → Prop) : Prop where
  heap : ∀ {w : Instance}, I w → Heap w
  frame : ∀ {w w' : Instance} {b : Nat × Nat}, I w → b ∈ w.blocks → OnlyIn b w w' → I w'
  malloc : ∀ {w w' : Instance} {n : Nat} {r : Int}, I w →
    A.malloc w n 1 = some (r, w') →
      I w' ∧ Keeps w.blocks w w' ∧ w'.blocks = (toUint32 r, n) :: w.blocks
  realloc : ∀ {w w' : Instance} {p n m : Nat} {r : Int}, I w → 0 < n → 0 < m →
    (p, n) ∈ w.blocks → A.realloc w p n m 1 = some (r, w') →
      I w' ∧ Keeps (w.blocks.erase (p, n)) w w' ∧
        w'.blocks = (toUint32 r, m) :: w.blocks.erase (p, n) ∧
        w'.read (toUint32 r) (min n m) = w.read p (min n m)
  drop : ∀ {w w' : Instance} {p n : Nat}, I w → (p, n) ∈ w.blocks →
    A.drop w p n = some w' →
      I w' ∧ Keeps (w.blocks.erase (p, n)) w w' ∧ w'.blocks = w.blocks.erase (p, n)

/-! ## The glue -/

/-- The variables of the glue. -/
structure Glue where
  wasm : Instance
  cachedUint8ArrayMemory0 : Option View
  WASM_VECTOR_LEN : Nat

/-- `new Uint8Array(wasm.memory.buffer)`. -/
def memoryView (w : Instance) : View := ⟨w.buffer, 0, w.byteLength⟩

/-- `getUint8ArrayMemory0`. -/
def getUint8ArrayMemory0 (g : Glue) : View × Glue :=
  match g.cachedUint8ArrayMemory0 with
  | some v =>
      if v.byteLength g.wasm = 0 then
        (memoryView g.wasm, { g with cachedUint8ArrayMemory0 := some (memoryView g.wasm) })
      else (v, g)
  | none => (memoryView g.wasm, { g with cachedUint8ArrayMemory0 := some (memoryView g.wasm) })

/-- What there is of `TextEncoder`: nothing, or without or with `encodeInto`. -/
inductive TextEncoder where
  | absent | encode | encodeInto
  deriving DecidableEq, Repr

/-- `cachedTextEncoder.encode(arg)`. -/
def TextEncoder.encoded (enc : TextEncoder) (arg : List UInt16) :
    Except Failure (List UInt8) :=
  if enc = .absent then .error .noEncoder else .ok (utf8 (scalars arg))

/-- `encodeString(arg, view)`: the number of bytes written. -/
def encodeString (enc : TextEncoder) (arg : List UInt16) (view : View) (w : Instance) :
    Except Failure (Nat × Instance) :=
  if enc = .encodeInto then
    let bytes := (fill (pieces arg) (view.byteLength w)).2
    .ok (bytes.length, w.write view.start bytes)
  else do
    let buf ← enc.encoded arg
    let w ← view.set w buf
    .ok (buf.length, w)

/-- The first loop: units are copied up to the first that is not ASCII.  The result is the
    offset it stops at. -/
def copyAscii (mem : View) (ptr : Nat) : List UInt16 → Nat → Instance → Nat × Instance
  | [], offset, w => (offset, w)
  | code :: rest, offset, w =>
      if code.toNat > 0x7F then (offset, w)
      else copyAscii mem ptr rest (offset + 1) (mem.put w (ptr + offset) code.toUInt8)

section Strings

variable (A : Allocator) (enc : TextEncoder)

/-- The rest of a string, from `offset` on, into a larger block that is then cut to size. -/
def passRest (arg : List UInt16) (ptr offset : Nat) (g : Glue) :
    Except Failure (Nat × Glue) := do
  let len := offset + (arg.drop offset).length * 3
  let r ← orFail .trap (A.realloc g.wasm ptr (toUint32 arg.length) (toUint32 len) 1)
  let ptr := toUint32 r.1
  let m := getUint8ArrayMemory0 { g with wasm := r.2 }
  let view := m.1.subarray m.2.wasm (ptr + offset) (ptr + len)
  let ret ← encodeString enc (arg.drop offset) view m.2.wasm
  let r ← orFail .trap
    (A.realloc ret.2 ptr (toUint32 len) (toUint32 ((offset + ret.1 : Nat) : Int)) 1)
  .ok (toUint32 r.1, { m.2 with wasm := r.2, WASM_VECTOR_LEN := offset + ret.1 })

/-- `passStringToWasm0(arg, malloc, realloc)`, with `realloc` or without. -/
def passStringToWasm0 (realloc : Bool) (arg : List UInt16) (g : Glue) :
    Except Failure (Nat × Glue) :=
  if realloc then do
    let r ← orFail .trap (A.malloc g.wasm (toUint32 arg.length) 1)
    let ptr := toUint32 r.1
    let m := getUint8ArrayMemory0 { g with wasm := r.2 }
    let c := copyAscii m.1 ptr arg 0 m.2.wasm
    if c.1 = arg.length then
      .ok (ptr, { m.2 with wasm := c.2, WASM_VECTOR_LEN := c.1 })
    else passRest A enc arg ptr c.1 { m.2 with wasm := c.2 }
  else do
    let buf ← enc.encoded arg
    let r ← orFail .trap (A.malloc g.wasm (toUint32 buf.length) 1)
    let ptr := toUint32 r.1
    let m := getUint8ArrayMemory0 { g with wasm := r.2 }
    let w ← (m.1.subarray m.2.wasm ptr (ptr + buf.length)).set m.2.wasm buf
    .ok (ptr, { m.2 with wasm := w, WASM_VECTOR_LEN := buf.length })

/-- `getStringFromWasm0(ptr, len)`. -/
def getStringFromWasm0 (decoder : Bool) (ptr : Int) (len : Nat) (g : Glue) :
    Except Failure (List UInt16 × Glue) := do
  let ptr := toUint32 ptr
  let m := getUint8ArrayMemory0 g
  let bytes := (m.1.subarray m.2.wasm ptr (ptr + len)).toList m.2.wasm
  let cs ← if decoder then orFail .invalid (decode bytes) else .error .noDecoder
  .ok (encode cs, m.2)

end Strings

/-! ## Reading and writing -/

section Bytes

variable {w w' : Instance} {a b n m : Nat} {bs : List UInt8}

@[simp] theorem read_length : (w.read a n).length = n := by
  simp [Instance.read]

theorem read_congr (h : ∀ i, i < n → w'.bytes (a + i) = w.bytes (a + i)) :
    w'.read a n = w.read a n := by
  rw [Instance.read, Instance.read]
  exact List.map_congr_left (fun i hi => h i (List.mem_range.mp hi))

theorem read_add : w.read a (n + m) = w.read a n ++ w.read (a + n) m := by
  simp [Instance.read, List.range_add, Nat.add_assoc]

/-- The first of the bytes that are there. -/
theorem read_front (h : w'.read b n = w.read a n) (hm : m ≤ n) :
    w'.read b m = w.read a m := by
  obtain ⟨k, rfl⟩ := Nat.exists_eq_add_of_le hm
  rw [read_add, read_add] at h
  exact (List.append_inj h (by simp)).1

theorem write_bytes_of_outside {i : Nat} (h : i < a ∨ a + bs.length ≤ i) :
    (w.write a bs).bytes i = w.bytes i := by
  show (if a ≤ i then bs[i - a]?.getD (w.bytes i) else w.bytes i) = w.bytes i
  split
  · rw [List.getElem?_eq_none (by omega)]
    rfl
  · rfl

/-- What was written is read. -/
theorem read_write : (w.write a bs).read a bs.length = bs := by
  refine List.ext_getElem (by simp) (fun i h₁ h₂ => ?_)
  simp only [Instance.read, List.getElem_map, List.getElem_range]
  show (if a ≤ a + i then bs[a + i - a]?.getD _ else _) = bs[i]
  rw [if_pos (by omega), Nat.add_sub_cancel_left, List.getElem?_eq_getElem h₂]
  rfl

theorem write_nil : w.write a [] = w := by
  rw [Instance.write]
  congr 1
  funext i
  split <;> rfl

/-- Two parts, one behind the other. -/
theorem write_append {cs : List UInt8} :
    (w.write a bs).write (a + bs.length) cs = w.write a (bs ++ cs) := by
  refine congrArg (fun f => { w with bytes := f }) (funext (fun i => ?_))
  show (if a + bs.length ≤ i then cs[i - (a + bs.length)]?.getD ((w.write a bs).bytes i)
    else (w.write a bs).bytes i) = _
  by_cases hb : a + bs.length ≤ i
  · rw [if_pos hb, if_pos (by omega), List.getElem?_append_right (by omega),
      write_bytes_of_outside (Or.inr hb), Nat.sub_add_eq]
  · rw [if_neg hb]
    by_cases ha : a ≤ i
    · rw [if_pos ha, List.getElem?_append_left (by omega)]
      exact if_pos ha
    · rw [if_neg ha]
      exact if_neg ha

theorem onlyIn_write {c : Nat × Nat} (hlo : c.1 ≤ a) (hhi : a + bs.length ≤ c.1 + c.2) :
    OnlyIn c w (w.write a bs) := by
  refine ⟨rfl, rfl, rfl, fun i hi => write_bytes_of_outside ?_⟩
  by_contra hno
  exact hi ⟨by omega, by omega⟩

/-- Bytes that the block does not have are kept. -/
theorem OnlyIn.read {c d : Nat × Nat} (h : OnlyIn c w w') (hd : Apart c d) :
    w'.read d.1 d.2 = w.read d.1 d.2 :=
  read_congr (fun i hi => h.bytes _ (fun hc => hd _ hc ⟨by omega, by omega⟩))

theorem OnlyIn.heap {c : Nat × Nat} (h : OnlyIn c w w') (hw : Heap w) : Heap w' :=
  ⟨by rw [h.blocks, h.byteLength]; exact hw.inside, by rw [h.blocks]; exact hw.apart,
    by rw [h.byteLength]; exact hw.small⟩

end Bytes

theorem toUint32_of_lt {n : Nat} (h : n < 2 ^ 32) : toUint32 n = n := by
  rw [toUint32]
  omega

theorem toUint32_lt (n : Int) : toUint32 n < 2 ^ 32 := by
  rw [toUint32]
  omega

/-! ## Views -/

/-- The view that is kept is of the present memory, or dead. -/
def Glue.Sane (g : Glue) : Prop :=
  ∀ v, g.cachedUint8ArrayMemory0 = some v → v.start = 0 ∧ v.buffer ≤ g.wasm.buffer ∧
    (v.buffer = g.wasm.buffer → v.length = g.wasm.byteLength)

section Views

variable {g : Glue} {w w' : Instance}

theorem memoryView_byteLength : (memoryView w).byteLength w = w.byteLength := if_pos rfl

/-- **THE PRESENT MEMORY**: whatever view was kept, the one in use is of the memory as it
    is. -/
theorem getUint8ArrayMemory0_eq (h : g.Sane) :
    ∃ kept, getUint8ArrayMemory0 g
        = (memoryView g.wasm, { g with cachedUint8ArrayMemory0 := kept }) ∧
      ({ g with cachedUint8ArrayMemory0 := kept } : Glue).Sane := by
  have hfresh : ({ g with cachedUint8ArrayMemory0 := some (memoryView g.wasm) } : Glue).Sane := by
    intro v hv
    cases hv
    exact ⟨rfl, Nat.le_refl _, fun _ => rfl⟩
  rw [getUint8ArrayMemory0]
  split
  · next v hv =>
      split
      · exact ⟨_, rfl, hfresh⟩
      · next hlive =>
          have hbuf : v.buffer = g.wasm.buffer := by
            by_contra hne
            exact hlive (if_neg hne)
          obtain ⟨hstart, -, hlen⟩ := h v hv
          have hview : v = memoryView g.wasm := by
            rw [memoryView, ← hbuf, ← hlen hbuf, ← hstart]
          refine ⟨g.cachedUint8ArrayMemory0, ?_, h⟩
          rw [← hview]
  · exact ⟨_, rfl, hfresh⟩

/-- A view that was sane is sane after the memory has been used. -/
theorem Glue.Sane.after (h : g.Sane)
    (hbuf : g.wasm.buffer < w'.buffer ∨
      w'.buffer = g.wasm.buffer ∧ w'.byteLength = g.wasm.byteLength) :
    ({ g with wasm := w' } : Glue).Sane := by
  intro v hv
  obtain ⟨hstart, hle, hlen⟩ := h v hv
  refine ⟨hstart, ?_, fun heq => ?_⟩
  · show v.buffer ≤ w'.buffer
    rcases hbuf with hbuf | hbuf <;> omega
  · show v.length = w'.byteLength
    have heq : v.buffer = w'.buffer := heq
    rcases hbuf with hbuf | ⟨hbuf, hsize⟩
    · omega
    · rw [hsize]
      exact hlen (heq.trans hbuf)

theorem Glue.Sane.onlyIn {b : Nat × Nat} (h : g.Sane) (ho : OnlyIn b g.wasm w') :
    ({ g with wasm := w' } : Glue).Sane :=
  h.after (Or.inr ⟨ho.buffer, ho.byteLength⟩)

theorem subarray_memoryView {b e : Nat} (hb : b ≤ e) (he : e ≤ w.byteLength) :
    (memoryView w).subarray w b e = ⟨w.buffer, b, e - b⟩ := by
  rw [View.subarray, memoryView_byteLength, Nat.min_eq_left he,
    Nat.min_eq_left (Nat.le_trans hb he)]
  show (⟨w.buffer, 0 + b, e - b⟩ : View) = _
  rw [Nat.zero_add]

/-- A view that lies in the memory can be set. -/
theorem set_eq {b n : Nat} {buf : List UInt8} (hfit : buf.length ≤ n) :
    (⟨w.buffer, b, n⟩ : View).set w buf = .ok (w.write b buf) := by
  rw [View.set, if_neg (not_not_intro rfl)]
  exact if_neg (Nat.not_lt.mpr hfit)

end Views

/-! ## What is written -/

/-- What a string begins with in ASCII. -/
def front (arg : List UInt16) : List UInt16 := arg.takeWhile (fun u => decide (u.toNat ≤ 0x7F))

theorem front_ascii {arg : List UInt16} {u : UInt16} (h : u ∈ front arg) : u.toNat ≤ 0x7F := by
  have hu := List.mem_takeWhile_imp (p := fun u : UInt16 => decide (u.toNat ≤ 0x7F)) h
  exact of_decide_eq_true hu

theorem front_append (arg : List UInt16) : front arg ++ arg.drop (front arg).length = arg := by
  have h := List.takeWhile_append_dropWhile
    (p := fun u : UInt16 => decide (u.toNat ≤ 0x7F)) (l := arg)
  have hdrop : arg.drop (front arg).length
      = arg.dropWhile (fun u => decide (u.toNat ≤ 0x7F)) := by
    conv => lhs; arg 2; rw [← h]
    exact List.drop_left
  rw [hdrop]
  exact h

/-- The bytes of a string: its ASCII front as it is, and the rest encoded. -/
theorem utf8_front (arg : List UInt16) : utf8 (scalars arg)
    = (front arg).map (·.toUInt8) ++ utf8 (scalars (arg.drop (front arg).length)) := by
  conv => lhs; rw [← front_append arg]
  exact utf8_ascii_append (fun _ hu => front_ascii hu) _

section Written

variable {w : Instance} {enc : TextEncoder}

/-- The first loop copies the ASCII front. -/
theorem copyAscii_eq (arg : List UInt16) {ptr offset : Nat}
    (h : ptr + offset + arg.length ≤ w.byteLength) :
    copyAscii (memoryView w) ptr arg offset w
      = (offset + (front arg).length,
        w.write (ptr + offset) ((front arg).map (·.toUInt8))) := by
  induction arg generalizing offset w with
  | nil =>
      show (offset, w) = (offset + 0, w.write (ptr + offset) [])
      rw [write_nil, Nat.add_zero]
  | cons code rest ih =>
      rw [List.length_cons] at h
      rw [copyAscii]
      by_cases hcode : code.toNat > 0x7F
      · have hfront : front (code :: rest) = [] := by
          rw [front, List.takeWhile_cons_of_neg (by simpa using hcode)]
        rw [if_pos hcode, hfront]
        show _ = (offset + 0, w.write (ptr + offset) [])
        rw [write_nil, Nat.add_zero]
      · have hfront : front (code :: rest) = code :: front rest := by
          rw [front, List.takeWhile_cons_of_pos (by simpa using hcode)]
          rfl
        have hput : (memoryView w).put w (ptr + offset) code.toUInt8
            = w.write (ptr + offset) [code.toUInt8] := by
          rw [View.put, memoryView_byteLength, if_pos (by omega)]
          show w.write (0 + (ptr + offset)) _ = _
          rw [Nat.zero_add]
        have hnext : ptr + (offset + 1) = ptr + offset + [code.toUInt8].length := by
          rw [List.length_singleton, Nat.add_assoc]
        rw [if_neg hcode, hput, hfront]
        show copyAscii (memoryView (w.write (ptr + offset) [code.toUInt8])) _ _ _ _ = _
        rw [ih (by show ptr + (offset + 1) + rest.length ≤ w.byteLength; omega), hnext,
          write_append, List.length_cons, List.map_cons, Nat.add_assoc offset 1,
          Nat.add_comm 1]
        rfl

/-- With room for three bytes a unit, the encoder writes the whole string. -/
theorem encodeString_eq {arg : List UInt16} {b n : Nat} (henc : enc ≠ .absent)
    (hn : (utf8 (scalars arg)).length ≤ n) :
    encodeString enc arg ⟨w.buffer, b, n⟩ w
      = .ok ((utf8 (scalars arg)).length, w.write b (utf8 (scalars arg))) := by
  rw [encodeString]
  by_cases hinto : enc = .encodeInto
  · have hlen : (⟨w.buffer, b, n⟩ : View).byteLength w = n := if_pos rfl
    rw [if_pos hinto, hlen, fill_all arg hn]
  · rw [if_neg hinto, TextEncoder.encoded, if_neg henc]
    show (View.set _ w _ >>= _) = _
    rw [set_eq hn]
    rfl

end Written

/-! ## Strings that are passed -/

/-- The block `(p, n)` is new beside the blocks of `w₀`, which are as they were. -/
structure Beside (I : Instance → Prop) (w₀ : Instance) (p n : Nat) (w : Instance) : Prop where
  valid : I w
  blocks : w.blocks = (p, n) :: w₀.blocks
  kept : ∀ b ∈ w₀.blocks, w.read b.1 b.2 = w₀.read b.1 b.2

section Beside

variable {A : Allocator} {I : Instance → Prop} {w₀ w w' : Instance} {p n m : Nat} {r : Int}

theorem Beside.mem (h : Beside I w₀ p n w) : (p, n) ∈ w.blocks := by
  rw [h.blocks]
  exact List.mem_cons_self ..

theorem Beside.inside (hA : A.Sound I) (h : Beside I w₀ p n w) : p + n ≤ w.byteLength :=
  (hA.heap h.valid).inside (p, n) h.mem

/-- Its own bytes may change. -/
theorem Beside.onlyIn (hA : A.Sound I) (h : Beside I w₀ p n w) (ho : OnlyIn (p, n) w w') :
    Beside I w₀ p n w' := by
  refine ⟨hA.frame h.valid h.mem ho, ho.blocks.trans h.blocks, fun b hb => ?_⟩
  have hapart := (hA.heap h.valid).apart
  rw [h.blocks] at hapart
  rw [ho.read ((List.pairwise_cons.mp hapart).1 b hb)]
  exact h.kept b hb

theorem beside_malloc (hA : A.Sound I) (hw : I w₀) (h : A.malloc w₀ n 1 = some (r, w)) :
    Beside I w₀ (toUint32 r) n w ∧
      (w₀.buffer < w.buffer ∨ w.buffer = w₀.buffer ∧ w.byteLength = w₀.byteLength) := by
  obtain ⟨hvalid, hkeeps, hblocks⟩ := hA.malloc hw h
  exact ⟨⟨hvalid, hblocks, hkeeps.bytes⟩, hkeeps.buffer⟩

/-- The block gets another size, and its first bytes with it. -/
theorem beside_realloc (hA : A.Sound I) (hw : Beside I w₀ p n w) (hn : 0 < n) (hm : 0 < m)
    (h : A.realloc w p n m 1 = some (r, w')) :
    Beside I w₀ (toUint32 r) m w' ∧ w'.read (toUint32 r) (min n m) = w.read p (min n m) ∧
      (w.buffer < w'.buffer ∨ w'.buffer = w.buffer ∧ w'.byteLength = w.byteLength) := by
  obtain ⟨hvalid, hkeeps, hblocks, hread⟩ := hA.realloc hw.valid hn hm hw.mem h
  have herase : w.blocks.erase (p, n) = w₀.blocks := by
    rw [hw.blocks]
    exact List.erase_cons_head ..
  rw [herase] at hkeeps hblocks
  exact ⟨⟨hvalid, hblocks, fun b hb => (hkeeps.bytes b hb).trans (hw.kept b hb)⟩, hread,
    hkeeps.buffer⟩

end Beside

/-- A string has been passed: its bytes lie in a new block of just their length. -/
structure Passed (I : Instance → Prop) (arg : List UInt16) (g : Glue) (ptr : Nat)
    (g' : Glue) : Prop where
  beside : Beside I g.wasm ptr g'.WASM_VECTOR_LEN g'.wasm
  addr : ptr < 2 ^ 32
  sane : g'.Sane
  bytes : g'.wasm.read ptr g'.WASM_VECTOR_LEN = utf8 (scalars arg)

/-- A result, by what it is when all goes well and when not. -/
def Ends {α : Type} (P : α → Prop) (Q : Failure → Prop) : Except Failure α → Prop
  | .ok a => P a
  | .error f => Q f

section Ends

variable {α β : Type} {P : α → Prop} {R : β → Prop} {Q : Failure → Prop}

theorem Ends.bind {x : Except Failure α} {k : α → Except Failure β} (hx : Ends P Q x)
    (hk : ∀ a, P a → Ends R Q (k a)) : Ends R Q (x >>= k) := by
  cases x with
  | ok a => exact hk a hx
  | error f => exact hx

theorem ends_orFail {f : Failure} {o : Option α} (h : ∀ a, o = some a → P a) (hf : Q f) :
    Ends P Q (orFail f o) := by
  cases o with
  | none => exact hf
  | some a => exact h a rfl

end Ends

section Passing

variable {A : Allocator} {I : Instance → Prop} {enc : TextEncoder} {arg : List UInt16}
  {g g₀ : Glue}

/-- What may keep a string from being passed. -/
def Throws (enc : TextEncoder) (realloc : Bool) (arg : List UInt16) (f : Failure) : Prop :=
  f = .trap ∨ f = .noEncoder ∧ enc = .absent ∧
    (realloc = true → ∃ u ∈ arg, 0x7F < u.toNat)

theorem drop_front_length (arg : List UInt16) :
    (front arg).length + (arg.drop (front arg).length).length = arg.length := by
  rw [← List.length_append, front_append]

theorem beyond_ascii (h : (front arg).length ≠ arg.length) : ∃ u ∈ arg, 0x7F < u.toNat := by
  by_contra hno
  refine h ?_
  rw [front, List.takeWhile_eq_self_iff.mpr]
  intro u hu
  refine decide_eq_true (Nat.not_lt.mp (fun hlt => hno ⟨u, hu, hlt⟩))

/-- The front of a string is in its block; the rest is encoded behind it. -/
theorem passRest_passes (hA : A.Sound I) {ptr : Nat}
    (hb : Beside I g₀.wasm ptr arg.length g.wasm) (hsane : g.Sane)
    (hfront : g.wasm.read ptr (front arg).length = (front arg).map (·.toUInt8))
    (hne : (front arg).length ≠ arg.length) (hlen : 3 * arg.length < 2 ^ 32) :
    Ends (fun r => Passed I arg g₀ r.1 r.2) (Throws enc true arg)
      (passRest A enc arg ptr (front arg).length g) := by
  have hsum := drop_front_length arg
  generalize hk : (front arg).length = k at *
  have hrest : arg.drop k ≠ [] := by
    intro hno
    rw [hno, List.length_nil] at hsum
    exact hne (by omega)
  have hpos := utf8_length_pos hrest
  have hroom := utf8_length_le (arg.drop k)
  have hlt : 0 < (arg.drop k).length := List.length_pos_iff.mpr hrest
  rw [passRest, toUint32_of_lt (by omega), toUint32_of_lt (by omega)]
  refine Ends.bind (P := fun r => Beside I g₀.wasm (toUint32 r.1)
      (k + (arg.drop k).length * 3) r.2 ∧
      r.2.read (toUint32 r.1) k = (front arg).map (·.toUInt8) ∧
      ({ g with wasm := r.2 } : Glue).Sane) ?_ ?_
  · refine ends_orFail (fun r hr => ?_) (Or.inl rfl)
    obtain ⟨hb', hread, hbuf⟩ := beside_realloc hA hb (by omega) (by omega) hr
    exact ⟨hb', (read_front hread (by omega)).trans hfront, hsane.after hbuf⟩
  · rintro ⟨r, w⟩ ⟨hb', hread, hsane'⟩
    obtain ⟨kept, hview, hkept⟩ := getUint8ArrayMemory0_eq hsane'
    have hin := hb'.inside hA
    dsimp only at hview hin ⊢
    rw [hview]
    dsimp only
    rw [subarray_memoryView (Nat.add_le_add_left (Nat.le_add_right _ _) _) hin]
    refine Ends.bind (P := fun ret => ret = ((utf8 (scalars (arg.drop k))).length,
      w.write (toUint32 r + k) (utf8 (scalars (arg.drop k))))) ?_ ?_
    · by_cases henc : enc = .absent
      · rw [encodeString, if_neg (by rw [henc]; decide), TextEncoder.encoded, if_pos henc]
        exact Or.inr ⟨rfl, henc, fun _ => beyond_ascii (by rw [hk]; exact hne)⟩
      · rw [encodeString_eq henc (by omega)]
        rfl
    · rintro ⟨t, w'⟩ heq
      cases heq
      have honly : OnlyIn (toUint32 r, k + (arg.drop k).length * 3) w
          (w.write (toUint32 r + k) (utf8 (scalars (arg.drop k)))) :=
        onlyIn_write (Nat.le_add_right _ _) (by dsimp only; omega)
      have hbytes : (w.write (toUint32 r + k) (utf8 (scalars (arg.drop k)))).read
          (toUint32 r) (k + (utf8 (scalars (arg.drop k))).length)
            = utf8 (scalars arg) := by
        rw [read_add, read_write, read_congr (w := w) (fun i hi =>
          write_bytes_of_outside (Or.inl (by omega))), hread, utf8_front arg, hk]
      rw [toUint32_of_lt (by omega)]
      refine Ends.bind (P := fun r' => Passed I arg g₀ (toUint32 r'.1)
        { g with
          wasm := r'.2
          cachedUint8ArrayMemory0 := kept
          WASM_VECTOR_LEN := k + (utf8 (scalars (arg.drop k))).length }) ?_ (fun r' h => ?_)
      · refine ends_orFail (fun r' hr' => ?_) (Or.inl rfl)
        obtain ⟨hb'', hread', hbuf'⟩ := beside_realloc hA (hb'.onlyIn hA honly) (by omega)
          (by omega) hr'
        rw [Nat.min_eq_right (by omega)] at hread'
        exact ⟨hb'', toUint32_lt _, (hkept.onlyIn honly).after hbuf', hread'.trans hbytes⟩
      · exact h

/-- Whatever is passed is passed well, and whatever is thrown is one of the three. -/
theorem passStringToWasm0_ends (hA : A.Sound I) (realloc : Bool) (hvalid : I g.wasm)
    (hsane : g.Sane) (hlen : 3 * arg.length < 2 ^ 32) :
    Ends (fun r => Passed I arg g r.1 r.2) (Throws enc realloc arg)
      (passStringToWasm0 A enc realloc arg g) := by
  rw [passStringToWasm0]
  cases realloc with
  | true =>
      rw [if_pos rfl, toUint32_of_lt (by omega)]
      refine Ends.bind (P := fun r => Beside I g.wasm (toUint32 r.1) arg.length r.2 ∧
        ({ g with wasm := r.2 } : Glue).Sane) ?_ ?_
      · refine ends_orFail (fun r hr => ?_) (Or.inl rfl)
        obtain ⟨hb, hbuf⟩ := beside_malloc hA hvalid hr
        exact ⟨hb, hsane.after hbuf⟩
      · rintro ⟨r, w⟩ ⟨hb, hsane'⟩
        obtain ⟨kept, hview, hkept⟩ := getUint8ArrayMemory0_eq hsane'
        have hin := hb.inside hA
        have hsum := drop_front_length arg
        dsimp only at hview hb hin ⊢
        rw [hview]
        dsimp only
        rw [copyAscii_eq arg (by omega), Nat.zero_add, Nat.add_zero]
        have honly : OnlyIn (toUint32 r, arg.length) w
            (w.write (toUint32 r) ((front arg).map (·.toUInt8))) :=
          onlyIn_write (Nat.le_refl _) (by rw [List.length_map]; dsimp only; omega)
        have hread : (w.write (toUint32 r) ((front arg).map (·.toUInt8))).read (toUint32 r)
            (front arg).length = (front arg).map (·.toUInt8) := by
          have hfull : _ = (front arg).map (·.toUInt8) := read_write (w := w) (a := toUint32 r)
          rwa [List.length_map] at hfull
        by_cases hall : (front arg).length = arg.length
        · rw [if_pos hall]
          refine ⟨?_, toUint32_lt _, hkept.onlyIn honly, hread.trans ?_⟩
          · show Beside _ _ _ (front arg).length _
            rw [hall]
            exact hb.onlyIn hA honly
          · rw [utf8_front arg, hall, List.drop_length]
            exact (List.append_nil _).symm
        · rw [if_neg hall]
          exact passRest_passes hA (hb.onlyIn hA honly) (hkept.onlyIn honly) hread hall hlen
  | false =>
      have hroom := utf8_length_le arg
      rw [if_neg Bool.false_ne_true]
      refine Ends.bind (P := fun buf => buf = utf8 (scalars arg)) ?_ ?_
      · by_cases henc : enc = .absent
        · rw [TextEncoder.encoded, if_pos henc]
          exact Or.inr ⟨rfl, henc, fun h => nomatch h⟩
        · rw [TextEncoder.encoded, if_neg henc]
          rfl
      · rintro buf rfl
        rw [toUint32_of_lt (by omega)]
        refine Ends.bind (P := fun r =>
          Beside I g.wasm (toUint32 r.1) (utf8 (scalars arg)).length r.2 ∧
            ({ g with wasm := r.2 } : Glue).Sane) ?_ ?_
        · refine ends_orFail (fun r hr => ?_) (Or.inl rfl)
          obtain ⟨hb, hbuf⟩ := beside_malloc hA hvalid hr
          exact ⟨hb, hsane.after hbuf⟩
        · rintro ⟨r, w⟩ ⟨hb, hsane'⟩
          obtain ⟨kept, hview, hkept⟩ := getUint8ArrayMemory0_eq hsane'
          have hin := hb.inside hA
          dsimp only at hview hb hin ⊢
          rw [hview]
          dsimp only
          rw [subarray_memoryView (Nat.le_add_right _ _) hin, set_eq (by omega)]
          have honly : OnlyIn (toUint32 r, (utf8 (scalars arg)).length) w
              (w.write (toUint32 r) (utf8 (scalars arg))) :=
            onlyIn_write (Nat.le_refl _) (Nat.le_refl _)
          exact ⟨hb.onlyIn hA honly, toUint32_lt _, hkept.onlyIn honly, read_write⟩

/-- **A STRING IS PASSED** the same way with `realloc` and without: into a new block that
    holds its UTF-8 and no more, with every other block, and every view that is kept, as
    good as before.  Nothing but a trap of the allocator or a missing `TextEncoder` can
    prevent it, and an ASCII string needs no `TextEncoder` when there is `realloc`.  Three
    bytes for every unit have to be counted in 32 bits. -/
theorem passStringToWasm0_passes (hA : A.Sound I) (realloc : Bool) (hvalid : I g.wasm)
    (hsane : g.Sane) (hlen : 3 * arg.length < 2 ^ 32) :
    (∀ ptr g', passStringToWasm0 A enc realloc arg g = .ok (ptr, g') → Passed I arg g ptr g') ∧
      ∀ f, passStringToWasm0 A enc realloc arg g = .error f → Throws enc realloc arg f := by
  have hends : Ends (fun r => Passed I arg g r.1 r.2) (Throws enc realloc arg)
      (passStringToWasm0 A enc realloc arg g) :=
    passStringToWasm0_ends hA realloc hvalid hsane hlen
  constructor
  · intro ptr g' h
    rw [h] at hends
    exact hends
  · intro f h
    rw [h] at hends
    exact hends

end Passing

/-! ## Strings that come back -/

/-- **AND COMES BACK**: as long as its block is as it was, the glue reads the string off it,
    with U+FFFD for a surrogate that was alone. -/
theorem string_returns {g : Glue} {arg : List UInt16} {ptr : Int} {len : Nat} (hsane : g.Sane)
    (hin : toUint32 ptr + len ≤ g.wasm.byteLength)
    (hbytes : g.wasm.read (toUint32 ptr) len = utf8 (scalars arg)) :
    ∃ kept, getStringFromWasm0 true ptr len g
        = .ok (encode (scalars arg), { g with cachedUint8ArrayMemory0 := kept }) ∧
      ({ g with cachedUint8ArrayMemory0 := kept } : Glue).Sane := by
  obtain ⟨kept, hview, hkept⟩ := getUint8ArrayMemory0_eq hsane
  refine ⟨kept, ?_, hkept⟩
  have hlist : (⟨g.wasm.buffer, toUint32 ptr, toUint32 ptr + len - toUint32 ptr⟩ : View).toList
      g.wasm = utf8 (scalars arg) := by
    rw [View.toList, Nat.add_sub_cancel_left, View.byteLength, if_pos rfl]
    exact hbytes
  rw [getStringFromWasm0]
  dsimp only
  rw [hview]
  dsimp only
  rw [subarray_memoryView (Nat.le_add_right _ _) hin, hlist, if_pos rfl,
    decode_eq_some.mpr rfl]
  rfl

/-! ## An allocator -/

/-- The end of the last block; below 1024 there is static data. -/
def top (w : Instance) : Nat := w.blocks.foldr (fun b n => max (b.1 + b.2) n) 1024

/-- `memory.grow`, by whole pages. -/
def grow (w : Instance) (n : Nat) : Instance :=
  if n ≤ w.byteLength then w
  else { w with byteLength := (n + 65535) / 65536 * 65536, buffer := w.buffer + 1 }

/-- The allocator that takes every block behind the last one. -/
def bump : Allocator where
  malloc w n _ :=
    if top w + n < 2 ^ 31 then
      some (top w, { grow w (top w + n) with blocks := (top w, n) :: w.blocks })
    else none
  realloc w p n m _ :=
    if top w + m < 2 ^ 31 then
      some (top w, { (grow w (top w + m)).write (top w) (w.read p (min n m)) with
        blocks := (top w, m) :: w.blocks.erase (p, n) })
    else none
  drop w p n := some { w with blocks := w.blocks.erase (p, n) }

section Bump

variable {w : Instance} {n : Nat}

theorem le_top {b : Nat × Nat} (h : b ∈ w.blocks) : b.1 + b.2 ≤ top w := by
  have hfold : ∀ bs : List (Nat × Nat), b ∈ bs →
      b.1 + b.2 ≤ bs.foldr (fun b n => max (b.1 + b.2) n) 1024 := by
    intro bs
    induction bs with
    | nil => exact fun h => nomatch h
    | cons c bs ih =>
        intro h
        rcases List.mem_cons.mp h with rfl | h
        · exact Nat.le_max_left _ _
        · exact Nat.le_trans (ih h) (Nat.le_max_right _ _)
  exact hfold _ h

theorem grow_spec (hw : w.byteLength ≤ 2 ^ 32) (hn : n < 2 ^ 31) :
    n ≤ (grow w n).byteLength ∧ w.byteLength ≤ (grow w n).byteLength ∧
      (grow w n).byteLength ≤ 2 ^ 32 ∧ (grow w n).bytes = w.bytes ∧
      (w.buffer < (grow w n).buffer ∨
        (grow w n).buffer = w.buffer ∧ (grow w n).byteLength = w.byteLength) := by
  rw [grow]
  split
  · exact ⟨‹_›, Nat.le_refl _, hw, rfl, Or.inr ⟨rfl, rfl⟩⟩
  · refine ⟨?_, ?_, ?_, rfl, Or.inl (Nat.lt_succ_self _)⟩
    · show n ≤ (n + 65535) / 65536 * 65536
      omega
    · show w.byteLength ≤ (n + 65535) / 65536 * 65536
      omega
    · show (n + 65535) / 65536 * 65536 ≤ 2 ^ 32
      omega

/-- A block behind the last one, beside some of the others. -/
theorem heap_top (hw : Heap w) {bs : List (Nat × Nat)} (hbs : bs.Sublist w.blocks)
    {w' : Instance} (hn : top w + n ≤ w'.byteLength) (hle : w.byteLength ≤ w'.byteLength)
    (hsmall : w'.byteLength ≤ 2 ^ 32) (hblocks : w'.blocks = (top w, n) :: bs) : Heap w' := by
  refine ⟨?_, ?_, hsmall⟩
  · rw [hblocks]
    intro b hb
    rcases List.mem_cons.mp hb with rfl | hb
    · exact hn
    · exact Nat.le_trans (hw.inside b (hbs.subset hb)) hle
  · rw [hblocks]
    refine List.pairwise_cons.mpr ⟨fun b hb i hi hc => ?_, hw.apart.sublist hbs⟩
    have htop := le_top (hbs.subset hb)
    have hlo : top w ≤ i := hi.1
    have hhi := hc.2
    omega

/-- **THERE IS SUCH AN ALLOCATOR.** -/
theorem bump_sound : bump.Sound Heap := by
  refine ⟨id, fun hw _ ho => ho.heap hw, ?_, ?_, ?_⟩
  · intro w w' n r hw h
    obtain ⟨hlt, h⟩ := Option.ite_none_right_eq_some.mp h
    cases h
    obtain ⟨hn, hle, hsmall, hbytes, hbuf⟩ := grow_spec hw.small hlt
    have haddr : toUint32 ((top w : Nat) : Int) = top w := toUint32_of_lt (by omega)
    rw [haddr]
    refine ⟨heap_top hw (List.Sublist.refl _) hn hle hsmall rfl, ⟨fun b _ => ?_, hbuf⟩, rfl⟩
    refine read_congr (fun i _ => ?_)
    exact congrFun hbytes _
  · intro w w' p n m r hw _ _ hp h
    obtain ⟨hlt, h⟩ := Option.ite_none_right_eq_some.mp h
    cases h
    obtain ⟨hn, hle, hsmall, hbytes, hbuf⟩ := grow_spec hw.small hlt
    have haddr : toUint32 ((top w : Nat) : Int) = top w := toUint32_of_lt (by omega)
    have hsub : (w.blocks.erase (p, n)).Sublist w.blocks := List.erase_sublist
    rw [haddr]
    refine ⟨heap_top hw hsub hn hle hsmall rfl, ⟨fun b hb => ?_, hbuf⟩, rfl, ?_⟩
    · refine read_congr (fun i hi => ?_)
      have htop := le_top (hsub.subset hb)
      exact (write_bytes_of_outside (Or.inl (by omega))).trans (congrFun hbytes _)
    · have hlen : (w.read p (min n m)).length = min n m := read_length
      have hread : _ = w.read p (min n m) :=
        read_write (w := grow w (top w + m)) (a := top w)
      rw [hlen] at hread
      exact hread
  · intro w w' p n hw _ h
    cases h
    have hsub : (w.blocks.erase (p, n)).Sublist w.blocks := List.erase_sublist
    exact ⟨⟨fun b hb => hw.inside b (hsub.subset hb), hw.apart.sublist hsub, hw.small⟩,
      ⟨fun _ _ => rfl, Or.inr ⟨rfl, rfl⟩⟩, rfl⟩

end Bump

/-- A module whose memory has one page, and nothing on its heap. -/
def freshGlue : Glue := ⟨⟨fun _ => 0, 65536, 0, []⟩, none, 0⟩

/-- Four units, of which the last two are one scalar value. -/
def sampleUnits : List UInt16 := [0x61, 0xE9, 0xD83D, 0xDE00]

/-- They take seven bytes. -/
theorem passStringToWasm0_passes_sample :
    ∃ ptr g', passStringToWasm0 bump .encodeInto true sampleUnits freshGlue = .ok (ptr, g') ∧
      Passed Heap sampleUnits freshGlue ptr g' ∧
      g'.wasm.read ptr g'.WASM_VECTOR_LEN = [0x61, 0xC3, 0xA9, 0xF0, 0x9F, 0x98, 0x80] := by
  have hheap : Heap freshGlue.wasm := ⟨fun _ hb => (nomatch hb), .nil, by decide⟩
  have hsane : freshGlue.Sane := fun _ hv => nomatch hv
  have hlen : 3 * sampleUnits.length < 2 ^ 32 := by decide
  cases h : passStringToWasm0 bump .encodeInto true sampleUnits freshGlue with
  | ok r =>
      have hpassed := (passStringToWasm0_passes bump_sound true hheap hsane hlen).1 r.1 r.2 h
      refine ⟨r.1, r.2, rfl, hpassed, ?_⟩
      rw [hpassed.bytes]
      decide +kernel
  | error f =>
      have hok : (passStringToWasm0 bump .encodeInto true sampleUnits freshGlue).isOk = true := by
        decide +kernel
      rw [h] at hok
      cases hok

end WasmMemory
