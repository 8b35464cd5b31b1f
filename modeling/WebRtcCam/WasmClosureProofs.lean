import WebRtcCam.LtsRunProofs

/-! # Closures of Rust that JavaScript calls

    `makeMutClosure` of `webrtc/src/wasm/web_rtccam.js` wraps a closure of Rust for
    JavaScript.  Its environment lies on the heap of the module, at `state.a`; whoever runs
    it has it exclusively, and somebody has to free it: Rust, when it drops the closure and
    nobody runs it; the last call that returns after that; or, when Rust has given the
    closure away, the finalizer, once JavaScript cannot reach it any more.

    A call takes the address out of `state.a` and puts it back when it returns.  So the
    address is like a token: it is in `state.a` or with the outermost call, until the
    environment is freed, and then nowhere.

    * `kept_step` — one event, at the closure it is about;
    * `freed_once` — no run frees an environment twice, or while it is used; and none
      leaves one behind. -/

namespace WasmClosure

open LtsRun

/-- What Rust has done with its handle: it has it, has dropped it, or has given it away for
    good (`forget`). -/
inductive Hold where
  | held | dropped | forgotten
  deriving DecidableEq, Repr

/-- What the handle counts for, given away or not, until it is dropped. -/
def Hold.count : Hold → Int
  | .held => 1
  | .dropped => 0
  | .forgotten => 1

/-- The `state` of `makeMutClosure`, with what there is around it: the address that the
    closure was made with, whether the finalizer is registered, what Rust has done with its
    handle, whether JavaScript has lost the function, and how often the environment has
    been freed. -/
structure Closure where
  a : Nat
  b : Nat
  cnt : Int
  arg0 : Nat
  registered : Bool
  hold : Hold
  collected : Bool
  freed : Nat
  deriving DecidableEq, Repr

/-- The closures, and the calls that run, the innermost first: each with its closure and
    the address it was given. -/
structure Glue where
  closures : List Closure
  frames : List (Nat × Nat)
  deriving DecidableEq, Repr

inductive Event where
  /-- `makeMutClosure(arg0, arg1, dtor, f)`. -/
  | make (arg0 arg1 : Nat)
  /-- `real(...args)`, up to the call of `f`. -/
  | call (i : Nat)
  /-- The innermost `f` returns or throws. -/
  | leave
  /-- `__wbindgen_cb_drop`: Rust drops its handle. -/
  | drop (i : Nat)
  | forget (i : Nat)
  /-- JavaScript has lost the function; the finalizer runs if it is registered. -/
  | collect (i : Nat)
  deriving DecidableEq, Repr

/-- `wasm.__wbindgen_export_3.get(state.dtor)(a, b)`: a null pointer is ignored. -/
def dtor (a : Nat) (c : Closure) : Closure :=
  if a = 0 then c else { c with freed := c.freed + 1 }

/-- `real`, up to the call of `f`. -/
def entered (c : Closure) : Closure := { c with cnt := c.cnt + 1, a := 0 }

/-- The `finally` of `real`. -/
def left (a : Nat) (c : Closure) : Closure :=
  if c.cnt - 1 = 0 then dtor a { c with cnt := c.cnt - 1, registered := false }
  else { c with cnt := c.cnt - 1, a }

/-- `__wbindgen_cb_drop`; where it returns `true`, Rust frees the environment. -/
def dropped (c : Closure) : Closure :=
  if c.cnt = 1 then { c with cnt := c.cnt - 1, a := 0, hold := .dropped, freed := c.freed + 1 }
  else { c with cnt := c.cnt - 1, hold := .dropped }

/-- The finalizer. -/
def finalized (c : Closure) : Closure :=
  if c.registered then dtor c.a { c with collected := true } else { c with collected := true }

/-- The addresses with the calls of one closure. -/
def savedOf (g : Glue) (i : Nat) : List Nat :=
  (g.frames.filter (fun f => decide (f.1 = i))).map Prod.snd

/-- One closure has changed. -/
def Glue.put (g : Glue) (i : Nat) (c : Closure) : Glue :=
  { g with closures := g.closures.set i c }

/-- An event at one closure, if it is possible there. -/
def Glue.at (g : Glue) (i : Nat) (possible : Closure → Bool) (f : Closure → Closure) :
    Option Glue :=
  (g.closures[i]?).bind (fun c => if possible c then some (g.put i (f c)) else none)

/-- One step.  The finalizer is registered if there is a `FinalizationRegistry`; it runs
    when neither Rust nor a call has the function. -/
def step (registry : Bool) (g : Glue) : Event → Option Glue
  | .make arg0 arg1 =>
      if arg0 = 0 then none
      else some { g with
        closures := g.closures ++ [⟨arg0, arg1, 1, arg0, registry, .held, false, 0⟩] }
  | .call i =>
      (g.closures[i]?).bind (fun c =>
        if c.collected then none
        else some { g.put i (entered c) with frames := (i, c.a) :: g.frames })
  | .leave =>
      match g.frames with
      | [] => none
      | f :: rest =>
          (g.closures[f.1]?).map (fun c => { g.put f.1 (left f.2 c) with frames := rest })
  | .drop i => g.at i (fun c => decide (c.hold = .held)) dropped
  | .forget i => g.at i (fun c => decide (c.hold = .held)) (fun c => { c with hold := .forgotten })
  | .collect i =>
      g.at i (fun c => decide (c.hold ≠ .held ∧ savedOf g i = []) && !c.collected) finalized

/-- Any number of closures, and any order of events. -/
def closures (registry : Bool) : Lts Glue Event where
  init := fun g => g = ⟨[], []⟩
  step := step registry

/-! ## The token -/

/-- The address, until the environment has been freed. -/
def token (c : Closure) : Nat := if c.freed = 0 then c.arg0 else 0

/-- Where the token is, beside calls that were given these addresses. -/
inductive Token (c : Closure) : List Nat → Prop where
  | idle : c.a = token c → Token c []
  | running {inner : List Nat} : (∀ x ∈ inner, x = 0) → c.a = 0 → Token c (inner ++ [token c])
  | lost : c.collected = true → Token c []

/-- The state of a closure, beside its calls. -/
structure Kept (registry : Bool) (c : Closure) (saved : List Nat) : Prop where
  arg0 : c.arg0 ≠ 0
  cnt : c.cnt = saved.length + c.hold.count
  token : Token c saved
  freed : c.freed ≤ 1
  alive : c.hold ≠ .dropped → c.collected = false → c.freed = 0
  dropped : c.hold = .dropped → saved = [] → c.freed = 1
  registered : registry = true → c.hold ≠ .dropped → c.collected = false →
    c.registered = true
  collected : c.collected = true →
    saved = [] ∧ c.hold ≠ .held ∧ (registry = true → c.freed = 1)

section Closures

variable {registry : Bool} {c : Closure} {saved : List Nat}

theorem kept_new {arg0 : Nat} (arg1 : Nat) (h : arg0 ≠ 0) :
    Kept registry ⟨arg0, arg1, 1, arg0, registry, .held, false, 0⟩ [] where
  arg0 := h
  cnt := rfl
  token := .idle rfl
  freed := Nat.zero_le _
  alive := fun _ _ => rfl
  dropped := fun h => nomatch h
  registered := fun h _ _ => h
  collected := fun h => nomatch h

/-- A call takes the token, if it is there. -/
theorem kept_call (h : Kept registry c saved) (hc : c.collected = false) :
    Kept registry (entered c) (c.a :: saved) := by
  refine ⟨h.arg0, ?_, ?_, h.freed, h.alive, fun _ hno => (nomatch hno), h.registered,
    fun hno => ?_⟩
  · have hcnt := h.cnt
    show c.cnt + 1 = ((saved.length + 1 : Nat) : Int) + c.hold.count
    omega
  · cases h.token with
    | idle ha =>
        have hsaved : [c.a] = [] ++ [token (entered c)] := congrArg (fun x => [x]) ha
        rw [hsaved]
        exact .running (fun _ hx => nomatch hx) rfl
    | running hinner ha =>
        rw [ha]
        have hall : ∀ x ∈ 0 :: _, x = 0 := List.forall_mem_cons.mpr ⟨rfl, hinner⟩
        exact .running (c := entered c) hall rfl
    | lost hl =>
        rw [hc] at hl
        cases hl
  · rw [show (entered c).collected = c.collected from rfl, hc] at hno
    cases hno

/-- Whoever has the token hands it back; the last one, once Rust has dropped the closure,
    frees the environment with it. -/
theorem kept_leave {x : Nat} (h : Kept registry c (x :: saved)) :
    Kept registry (left x c) saved := by
  have hcol : c.collected = false := by
    cases hc : c.collected with
    | false => rfl
    | true => exact nomatch (h.collected hc).1
  have hcnt := h.cnt
  rw [List.length_cons] at hcnt
  obtain ⟨inner, hinner, ha, hsaved⟩ : ∃ inner, (∀ y ∈ inner, y = 0) ∧ c.a = 0 ∧
      x :: saved = inner ++ [token c] := by
    generalize hl : x :: saved = l at h
    cases h.token with
    | idle => cases hl
    | running hinner ha => exact ⟨_, hinner, ha, rfl⟩
    | lost hlost =>
        rw [hcol] at hlost
        cases hlost
  cases inner with
  | cons y inner =>
      -- an inner call: it was given nothing, and the outermost still runs
      obtain ⟨rfl, rfl⟩ := List.cons.inj hsaved
      have hx : x = 0 := hinner x (List.mem_cons_self ..)
      have hlen : 0 < (inner ++ [token c]).length :=
        List.length_pos_iff.mpr (List.append_ne_nil_of_right_ne_nil _ (List.cons_ne_nil _ _))
      have hne : c.cnt - 1 ≠ 0 := by
        have hpos : 0 ≤ c.hold.count := by cases c.hold <;> decide
        have hcnt : c.cnt = (((inner ++ [token c]).length + 1 : Nat) : Int) + c.hold.count := hcnt
        omega
      rw [left, if_neg hne]
      refine ⟨h.arg0, ?_, ?_, h.freed, h.alive, fun _ hno => ?_, h.registered, fun hno => ?_⟩
      · show c.cnt - 1 = ((inner ++ [token c]).length : Int) + c.hold.count
        have hcnt : c.cnt = (((inner ++ [token c]).length + 1 : Nat) : Int) + c.hold.count := hcnt
        omega
      · exact .running (fun z hz => hinner z (List.mem_cons_of_mem _ hz)) hx
      · exact absurd hno (List.append_ne_nil_of_right_ne_nil _ (List.cons_ne_nil _ _))
      · exact absurd (hcol.symm.trans hno) Bool.false_ne_true
  | nil =>
      obtain ⟨rfl, rfl⟩ := List.cons.inj hsaved
      have hcnt : c.cnt = 1 + c.hold.count := hcnt
      by_cases hd : c.hold = .dropped
      · -- nobody else has the environment
        have hzero : c.cnt - 1 = 0 := by
          rw [hd] at hcnt
          have hcnt : c.cnt = 1 + 0 := hcnt
          omega
        have hcount : c.cnt - 1 = (([] : List Nat).length : Int) + c.hold.count := by
          rw [hzero, hd]
          rfl
        rw [left, if_pos hzero, dtor]
        by_cases hf : c.freed = 0
        · have htok : token c = c.arg0 := if_pos hf
          rw [if_neg (by rw [htok]; exact h.arg0)]
          refine ⟨h.arg0, hcount, .idle (ha.trans (if_neg (Nat.succ_ne_zero _)).symm), ?_,
            fun hno => absurd hd hno, fun _ _ => ?_, fun _ hno => absurd hd hno,
            fun hno => ?_⟩
          · show c.freed + 1 ≤ 1
            omega
          · show c.freed + 1 = 1
            omega
          · exact absurd (hcol.symm.trans hno) Bool.false_ne_true
        · have htok : token c = 0 := if_neg hf
          have hone : c.freed = 1 := by
            have := h.freed
            omega
          rw [if_pos htok]
          refine ⟨h.arg0, hcount, .idle (ha.trans htok.symm), h.freed,
            fun hno => absurd hd hno, fun _ _ => hone, fun _ hno => absurd hd hno,
            fun hno => ?_⟩
          · exact absurd (hcol.symm.trans hno) Bool.false_ne_true
      · have hpos : c.hold.count = 1 := by
          cases hh : c.hold with
          | held => rfl
          | dropped => exact absurd hh hd
          | forgotten => rfl
        have hne : c.cnt - 1 ≠ 0 := by omega
        rw [left, if_neg hne]
        refine ⟨h.arg0, ?_, .idle rfl, h.freed, h.alive, fun hno => absurd hno hd,
          h.registered, fun hno => ?_⟩
        · show c.cnt - 1 = 0 + c.hold.count
          omega
        · exact absurd (hcol.symm.trans hno) Bool.false_ne_true

/-- Rust drops its handle, and frees the environment if nobody runs it. -/
theorem kept_drop (h : Kept registry c saved) (hh : c.hold = .held) :
    Kept registry (dropped c) saved := by
  have hcol : c.collected = false := by
    cases hc : c.collected with
    | false => rfl
    | true => exact absurd hh (h.collected hc).2.1
  have hfree : c.freed = 0 := h.alive (by rw [hh]; decide) hcol
  have hcnt : c.cnt = saved.length + 1 := by
    have := h.cnt
    rwa [hh] at this
  rw [dropped]
  by_cases hone : c.cnt = 1
  · have hsaved : saved = [] := List.length_eq_zero_iff.mp (by omega)
    rw [if_pos hone, hsaved]
    refine ⟨h.arg0, ?_, .idle ?_, ?_, fun hno => absurd rfl hno, fun _ _ => ?_,
      fun _ hno => absurd rfl hno, fun hno => ?_⟩
    · show c.cnt - 1 = 0 + 0
      omega
    · exact (if_neg (Nat.succ_ne_zero _)).symm
    · show c.freed + 1 ≤ 1
      omega
    · show c.freed + 1 = 1
      omega
    · exact absurd (hcol.symm.trans hno) Bool.false_ne_true
  · rw [if_neg hone]
    refine ⟨h.arg0, ?_, ?_, h.freed, fun hno => absurd rfl hno, fun _ hno => ?_,
      fun _ hno => absurd rfl hno, fun hno => ?_⟩
    · show c.cnt - 1 = saved.length + 0
      omega
    · cases h.token with
      | idle ha => exact .idle ha
      | running hinner ha => exact .running (c := { c with cnt := _, hold := _ }) hinner ha
      | lost hl => exact .lost hl
    · rw [hno] at hcnt
      exact absurd hcnt hone
    · exact absurd (hcol.symm.trans hno) Bool.false_ne_true

/-- Rust gives its handle away. -/
theorem kept_forget (h : Kept registry c saved) (hh : c.hold = .held) :
    Kept registry { c with hold := .forgotten } saved := by
  have hcol : c.collected = false := by
    cases hc : c.collected with
    | false => rfl
    | true => exact absurd hh (h.collected hc).2.1
  have hheld : c.hold ≠ .dropped := by
    rw [hh]
    decide
  have hcnt := h.cnt
  rw [hh] at hcnt
  refine ⟨h.arg0, hcnt, ?_, h.freed, fun _ => h.alive hheld, fun hno => (nomatch hno),
    fun hr _ => h.registered hr hheld, fun hno => ?_⟩
  · cases h.token with
    | idle ha => exact .idle ha
    | running hinner ha => exact .running (c := { c with hold := _ }) hinner ha
    | lost hl => exact .lost hl
  · exact absurd (hcol.symm.trans hno) Bool.false_ne_true

/-- Nobody has the function: the finalizer frees the environment, if nobody has. -/
theorem kept_collect (h : Kept registry c []) (hh : c.hold ≠ .held)
    (hc : c.collected = false) : Kept registry (finalized c) [] := by
  have ha : c.a = token c := by
    generalize hl : ([] : List Nat) = l at h
    cases h.token with
    | idle ha => exact ha
    | running => exact absurd hl.symm (List.append_ne_nil_of_right_ne_nil _ (List.cons_ne_nil _ _))
    | lost hlost => exact absurd (hc.symm.trans hlost) Bool.false_ne_true
  rw [finalized]
  by_cases hr : c.registered = true
  · rw [if_pos hr, dtor]
    by_cases hf : c.freed = 0
    · have htok : token c = c.arg0 := if_pos hf
      rw [if_neg (by rw [ha, htok]; exact h.arg0)]
      refine ⟨h.arg0, h.cnt, .lost rfl, ?_, fun _ hno => (nomatch hno), fun hd _ => ?_,
        fun _ _ hno => (nomatch hno), fun _ => ⟨rfl, hh, fun _ => ?_⟩⟩
      · show c.freed + 1 ≤ 1
        omega
      · exact absurd ((h.dropped hd rfl).symm.trans hf) (by decide)
      · show c.freed + 1 = 1
        omega
    · have hone : c.freed = 1 := by
        have := h.freed
        omega
      rw [if_pos (by rw [ha]; exact if_neg hf)]
      exact ⟨h.arg0, h.cnt, .lost rfl, h.freed, fun _ hno => (nomatch hno), h.dropped,
        fun _ _ hno => (nomatch hno), fun _ => ⟨rfl, hh, fun _ => hone⟩⟩
  · rw [if_neg hr]
    refine ⟨h.arg0, h.cnt, .lost rfl, h.freed, fun _ hno => (nomatch hno), h.dropped,
      fun _ _ hno => (nomatch hno), fun _ => ⟨rfl, hh, fun hreg => ?_⟩⟩
    -- the finalizer is missing only after the last call has freed the environment
    by_cases hd : c.hold = .dropped
    · exact h.dropped hd rfl
    · exact absurd (h.registered hreg hd hc) hr

end Closures

/-! ## Runs -/

section Runs

variable {registry : Bool} {g g' : Glue}

/-- Every closure is kept beside its own calls; every call is one of a closure. -/
structure Sound (registry : Bool) (g : Glue) : Prop where
  kept : ∀ i c, g.closures[i]? = some c → Kept registry c (savedOf g i)
  frames : ∀ f ∈ g.frames, f.1 < g.closures.length

/-- A closure has changed, and maybe its calls. -/
theorem Sound.put (h : Sound registry g) {i : Nat} {c' : Closure} {frames : List (Nat × Nat)}
    (hlt : i < g.closures.length)
    (hself : Kept registry c' (savedOf { g with frames } i))
    (hothers : ∀ j, j ≠ i → savedOf { g with frames } j = savedOf g j)
    (hframes : ∀ f ∈ frames, f.1 < g.closures.length) :
    Sound registry { g.put i c' with frames } := by
  refine ⟨fun j c hj => ?_, fun f hf => ?_⟩
  · by_cases hji : j = i
    · subst hji
      have heq : (g.closures.set j c')[j]? = some c' := List.getElem?_set_self hlt
      cases heq.symm.trans hj
      exact hself
    · have heq : (g.closures.set i c')[j]? = g.closures[j]? :=
        List.getElem?_set_ne (Ne.symm hji)
      have hj : g.closures[j]? = some c := heq.symm.trans hj
      show Kept registry c (savedOf { g with frames } j)
      rw [hothers j hji]
      exact h.kept j c hj
  · show f.1 < (g.closures.set i c').length
    rw [List.length_set]
    exact hframes f hf

theorem savedOf_cons_self (i a : Nat) (frames : List (Nat × Nat)) :
    savedOf { g with frames := (i, a) :: frames } i = a :: savedOf { g with frames } i := by
  simp [savedOf]

theorem savedOf_cons_ne {i j a : Nat} (hne : j ≠ i) (frames : List (Nat × Nat)) :
    savedOf { g with frames := (i, a) :: frames } j = savedOf { g with frames } j := by
  simp [savedOf, Ne.symm hne]

/-- What an event at one closure is. -/
theorem at_cases {i : Nat} {possible : Closure → Bool} {f : Closure → Closure}
    (h : g.at i possible f = some g') :
    ∃ c, g.closures[i]? = some c ∧ possible c = true ∧ g' = g.put i (f c) := by
  obtain ⟨c, hc, h⟩ := Option.bind_eq_some_iff.mp h
  obtain ⟨hp, h⟩ := Option.ite_none_right_eq_some.mp h
  cases h
  exact ⟨c, hc, hp, rfl⟩

/-- **ONE EVENT** keeps every closure and its calls in order. -/
theorem kept_step (h : Sound registry g) {e : Event} (hst : step registry g e = some g') :
    Sound registry g' := by
  have hlt : ∀ {i c}, g.closures[i]? = some c → i < g.closures.length := fun hc =>
    (List.getElem?_eq_some_iff.mp hc).1
  -- an event that is no call and no return
  have hat : ∀ {i possible f}, g.at i possible f = some g' →
      (∀ c, possible c = true → Kept registry c (savedOf g i) →
        Kept registry (f c) (savedOf g i)) → Sound registry g' := by
    intro i possible f hst hf
    obtain ⟨c, hc, hp, rfl⟩ := at_cases hst
    exact h.put (hlt hc) (hf c hp (h.kept i c hc)) (fun _ _ => rfl) h.frames
  cases e with
  | make arg0 arg1 =>
      obtain ⟨hne, hst⟩ := Option.ite_none_left_eq_some.mp hst
      cases hst
      refine ⟨fun i c hc => ?_, fun f hf => ?_⟩
      · by_cases hi : i < g.closures.length
        · have hc : g.closures[i]? = some c := (List.getElem?_append_left hi).symm.trans hc
          exact h.kept i c hc
        · have hnone : savedOf g i = [] := by
            rw [savedOf, List.map_eq_nil_iff, List.filter_eq_nil_iff]
            intro f hf
            have := h.frames f hf
            simp only [decide_eq_true_eq]
            omega
          have hc : [_][i - g.closures.length]? = some c :=
            (List.getElem?_append_right (Nat.not_lt.mp hi)).symm.trans hc
          have hmem := List.mem_of_getElem? hc
          cases List.mem_singleton.mp hmem
          show Kept registry _ (savedOf g i)
          rw [hnone]
          exact kept_new arg1 hne
      · show f.1 < (g.closures ++ [_]).length
        rw [List.length_append]
        exact Nat.lt_add_right _ (h.frames f hf)
  | call i =>
      obtain ⟨c, hc, hst⟩ := Option.bind_eq_some_iff.mp hst
      obtain ⟨hcol, hst⟩ := Option.ite_none_left_eq_some.mp hst
      cases hst
      refine h.put (hlt hc) ?_ (fun j hj => savedOf_cons_ne hj g.frames) (fun f hf => ?_)
      · rw [savedOf_cons_self]
        exact kept_call (h.kept i c hc) (by simpa using hcol)
      · rcases List.mem_cons.mp hf with rfl | hf
        · exact hlt hc
        · exact h.frames f hf
  | leave =>
      rw [step] at hst
      split at hst
      · cases hst
      · next f rest hframes =>
          obtain ⟨c, hc, rfl⟩ := Option.map_eq_some_iff.mp hst
          have hg : g = { g with frames := (f.1, f.2) :: rest } := by rw [← hframes]
          have hkept := h.kept f.1 c hc
          rw [hg, savedOf_cons_self] at hkept
          refine h.put (hlt hc) (kept_leave hkept) (fun j hj => ?_) (fun k hk => ?_)
          · conv => rhs; rw [hg]
            exact (savedOf_cons_ne hj rest).symm
          · exact h.frames k (by rw [hframes]; exact List.mem_cons_of_mem _ hk)
  | drop i => exact hat hst (fun c hp hk => kept_drop hk (of_decide_eq_true hp))
  | forget i => exact hat hst (fun c hp hk => kept_forget hk (of_decide_eq_true hp))
  | collect i =>
      refine hat hst (fun c hp hk => ?_)
      obtain ⟨hp, hcol⟩ := Bool.and_eq_true_iff.mp hp
      obtain ⟨hh, hsaved⟩ := of_decide_eq_true hp
      rw [hsaved] at hk ⊢
      exact kept_collect hk hh (by simpa using hcol)

theorem sound_reachable (h : Reachable (closures registry) g) : Sound registry g := by
  refine ReachVia.invariant (I := Sound registry) (fun g hg => ?_)
    (fun g e g' _ hi _ hst => kept_step hi hst) h
  cases hg
  exact ⟨fun i c hc => (nomatch hc), fun f hf => (nomatch hf)⟩

/-- **FREED ONCE, AND NOT BEFORE ITS TIME.**  Whatever order closures are made, called, from
    inside their own calls too, dropped, given away and lost in: the environment of a
    closure is freed at most once; at most one of its calls has its address, and the next
    call gets it only when no other call runs; once it is freed no call has it, nor will
    any get it; and it has been freed when Rust has dropped the closure and no call runs,
    or the finalizer has had its turn. -/
theorem freed_once (h : Reachable (closures registry) g) {i : Nat} {c : Closure}
    (hc : g.closures[i]? = some c) :
    c.freed ≤ 1 ∧ ((savedOf g i).filter (fun x => decide (x ≠ 0))).length ≤ 1 ∧
      (c.a ≠ 0 → savedOf g i = []) ∧
      (c.freed = 1 → (∀ x ∈ savedOf g i, x = 0) ∧ (c.a = 0 ∨ c.collected = true)) ∧
      (c.hold = .dropped → savedOf g i = [] → c.freed = 1) ∧
      (registry = true → c.collected = true → c.freed = 1) := by
  have hk := (sound_reachable h).kept i c hc
  generalize savedOf g i = saved at hk ⊢
  refine ⟨hk.freed, ?_, fun ha => ?_, fun hf => ?_, hk.dropped,
    fun hr hcol => (hk.collected hcol).2.2 hr⟩
  · cases hk.token with
    | idle => exact Nat.zero_le _
    | running hinner =>
        rw [List.filter_append, List.filter_eq_nil_iff.mpr
          (fun x hx => by simp [hinner x hx]), List.nil_append]
        exact List.length_filter_le _ _
    | lost => exact Nat.zero_le _
  · cases hk.token with
    | idle => rfl
    | running _ hzero => exact absurd hzero ha
    | lost => rfl
  · have htok : token c = 0 := by
      rw [token, hf]
      rfl
    cases hk.token with
    | idle ha => exact ⟨fun _ hx => (nomatch hx), Or.inl (ha.trans htok)⟩
    | running hinner ha =>
        refine ⟨fun x hx => ?_, Or.inl ha⟩
        rcases List.mem_append.mp hx with hx | hx
        · exact hinner x hx
        · rw [List.mem_singleton.mp hx]
          exact htok
    | lost hl => exact ⟨fun _ hx => (nomatch hx), Or.inr hl⟩

/-- A closure is dropped while a call inside its own call runs, and called once more after
    its environment has been freed. -/
theorem freed_once_sample :
    ∃ g c, Reachable (closures true) g ∧ g.closures[0]? = some c ∧ c.freed ≤ 1 ∧
      c.freed = 1 ∧ c.collected = true := by
  have hrun : (exec (closures true) ⟨[], []⟩ [.make 1048 5, .call 0, .call 0, .drop 0, .leave,
      .leave, .call 0, .leave, .collect 0]).any (fun g => (g.closures[0]?).any (fun c =>
        decide (c.freed = 1) && c.collected)) = true := by
    decide +kernel
  obtain ⟨g, -, hreach, hcheck⟩ := ReachVia.of_check (fun _ _ _ => trivial) rfl hrun
  obtain ⟨c, hc, hcheck⟩ := (Option.any_eq_true _ _).mp hcheck
  obtain ⟨hf, hcol⟩ := Bool.and_eq_true_iff.mp hcheck
  exact ⟨g, c, hreach, hc, (freed_once hreach hc).1, of_decide_eq_true hf, hcol⟩

end Runs

end WasmClosure
