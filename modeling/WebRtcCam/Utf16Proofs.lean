import Mathlib.Algebra.GroupWithZero.Nat
import Mathlib.Data.List.Basic

/-! # Strings as UTF-16, scalar values and UTF-8

    A string of JavaScript is a list of 16-bit units.  Whoever encodes it reads scalar
    values off it, a pair of surrogates as one and a surrogate that is alone as U+FFFD,
    and writes each in one to four bytes.  Where no surrogate is alone, nothing is lost,
    and the string is a text: `JsString` keeps the two kinds of strings apart.

    * `scalars_encode` — what was encoded is read back;
    * `units_ofUnits`, `ofUnits_units` — a `JsString` is a list of units, and no more;
    * `utf8_length_le` — three bytes for each unit are enough;
    * `fill_all` — an encoder that stops where the room ends, with room enough;
    * `decode_eq_some` — the bytes that can be decoded are those that were encoded. -/

namespace Utf16

/-! ## Units and scalar values -/

/-- A leading surrogate. -/
def isLead (u : UInt16) : Bool := decide (0xD800 ≤ u.toNat ∧ u.toNat ≤ 0xDBFF)

/-- A trailing surrogate. -/
def isTrail (u : UInt16) : Bool := decide (0xDC00 ≤ u.toNat ∧ u.toNat ≤ 0xDFFF)

/-- The scalar value of a pair of surrogates. -/
def pair (lead trail : UInt16) : Char :=
  Char.ofNat (0x10000 + (lead.toNat - 0xD800) * 0x400 + (trail.toNat - 0xDC00))

/-- The scalar value of a unit that is not part of a pair. -/
def alone (u : UInt16) : Char :=
  if isLead u || isTrail u then Char.ofNat 0xFFFD else Char.ofNat u.toNat

/-- The scalar values of a string, each with the number of units it is read from. -/
def pieces : List UInt16 → List (Char × Nat)
  | [] => []
  | [u] => [(alone u, 1)]
  | u :: v :: rest =>
      if isLead u && isTrail v then (pair u v, 2) :: pieces rest
      else (alone u, 1) :: pieces (v :: rest)

/-- The scalar values of a string. -/
def scalars (s : List UInt16) : List Char := (pieces s).map Prod.fst

/-- The units of a scalar value. -/
def units (c : Char) : List UInt16 :=
  if c.toNat < 0x10000 then [UInt16.ofNat c.toNat]
  else [UInt16.ofNat (0xD800 + (c.toNat - 0x10000) / 0x400),
    UInt16.ofNat (0xDC00 + (c.toNat - 0x10000) % 0x400)]

/-- The string with these scalar values. -/
def encode (cs : List Char) : List UInt16 := cs.flatMap units

theorem toNat_ofNat {n : Nat} (h : n.isValidChar) : (Char.ofNat n).toNat = n := by
  rw [Char.ofNat, dif_pos h]
  rfl

theorem toNat_valid (c : Char) : c.toNat < 0xD800 ∨ 0xDFFF < c.toNat ∧ c.toNat < 0x110000 :=
  c.valid

theorem toNat_unit {n : Nat} (h : n < 0x10000) : (UInt16.ofNat n).toNat = n :=
  UInt16.toNat_ofNat_of_lt' h

/-- A scalar value is one unit that is no surrogate, or a pair. -/
theorem units_cases (c : Char) :
    (∃ u, units c = [u] ∧ isLead u = false ∧ isTrail u = false ∧ Char.ofNat u.toNat = c) ∨
      ∃ u v, units c = [u, v] ∧ isLead u = true ∧ isTrail v = true ∧ pair u v = c := by
  have hvalid := toNat_valid c
  by_cases hc : c.toNat < 0x10000
  · have hu : (UInt16.ofNat c.toNat).toNat = c.toNat := toNat_unit hc
    refine Or.inl ⟨UInt16.ofNat c.toNat, by rw [units, if_pos hc], ?_, ?_, ?_⟩
    · rw [isLead, hu]
      exact decide_eq_false (by omega)
    · rw [isTrail, hu]
      exact decide_eq_false (by omega)
    · rw [hu]
      exact Char.ofNat_toNat c
  · have hl : (UInt16.ofNat (0xD800 + (c.toNat - 0x10000) / 0x400)).toNat
        = 0xD800 + (c.toNat - 0x10000) / 0x400 := toNat_unit (by omega)
    have ht : (UInt16.ofNat (0xDC00 + (c.toNat - 0x10000) % 0x400)).toNat
        = 0xDC00 + (c.toNat - 0x10000) % 0x400 := toNat_unit (by omega)
    refine Or.inr ⟨_, _, by rw [units, if_neg hc], ?_, ?_, ?_⟩
    · rw [isLead, hl]
      exact decide_eq_true (by omega)
    · rw [isTrail, ht]
      exact decide_eq_true (by omega)
    · have hn : 0x10000 + (0xD800 + (c.toNat - 0x10000) / 0x400 - 0xD800) * 0x400
          + (0xDC00 + (c.toNat - 0x10000) % 0x400 - 0xDC00) = c.toNat := by omega
      rw [pair, hl, ht, hn]
      exact Char.ofNat_toNat c

theorem alone_plain {u : UInt16} (hlead : isLead u = false) (htrail : isTrail u = false) :
    alone u = Char.ofNat u.toNat := by
  rw [alone, hlead, htrail]
  rfl

/-- A unit that leads no pair is read by itself. -/
theorem pieces_alone {u : UInt16} (hlead : isLead u = false) (s : List UInt16) :
    pieces (u :: s) = (alone u, 1) :: pieces s := by
  cases s with
  | nil => rfl
  | cons v rest =>
      rw [pieces, hlead]
      rfl

/-- The units of a scalar value are read as that value, whatever follows. -/
theorem pieces_units (c : Char) (s : List UInt16) :
    pieces (units c ++ s) = (c, (units c).length) :: pieces s := by
  rcases units_cases c with ⟨u, hunits, hlead, htrail, hc⟩ | ⟨u, v, hunits, hu, hv, hc⟩
  · rw [hunits]
    show pieces (u :: s) = (c, 1) :: pieces s
    rw [pieces_alone hlead, alone_plain hlead htrail, hc]
  · rw [hunits]
    show pieces (u :: v :: s) = (c, 2) :: pieces s
    rw [pieces, if_pos (Bool.and_eq_true_iff.mpr ⟨hu, hv⟩), hc]

/-- **WHAT WAS ENCODED IS READ BACK.** -/
theorem scalars_encode (cs : List Char) : scalars (encode cs) = cs := by
  induction cs with
  | nil => rfl
  | cons c cs ih =>
      show (pieces (units c ++ encode cs)).map Prod.fst = _
      rw [pieces_units, List.map_cons]
      exact congrArg (c :: ·) ih

/-- A pair of surrogates is written as the pair it was read from. -/
theorem units_pair {u v : UInt16} (hu : isLead u = true) (hv : isTrail v = true) :
    units (pair u v) = [u, v] := by
  obtain ⟨hu₁, hu₂⟩ := of_decide_eq_true hu
  obtain ⟨hv₁, hv₂⟩ := of_decide_eq_true hv
  have hn : (pair u v).toNat
      = 0x10000 + (u.toNat - 0xD800) * 0x400 + (v.toNat - 0xDC00) :=
    toNat_ofNat (Or.inr ⟨by omega, by omega⟩)
  have hlead : UInt16.ofNat (0xD800 + ((pair u v).toNat - 0x10000) / 0x400) = u := by
    apply UInt16.toNat_inj.mp
    rw [toNat_unit (by omega)]
    omega
  have htrail : UInt16.ofNat (0xDC00 + ((pair u v).toNat - 0x10000) % 0x400) = v := by
    apply UInt16.toNat_inj.mp
    rw [toNat_unit (by omega)]
    omega
  rw [units, if_neg (by omega), hlead, htrail]

/-- A unit that is no surrogate is written as itself. -/
theorem units_plain {u : UInt16} (hlead : isLead u = false) (htrail : isTrail u = false) :
    units (Char.ofNat u.toNat) = [u] := by
  have hlt := u.toNat_lt
  have hu := of_decide_eq_false hlead
  have hu' := of_decide_eq_false htrail
  have hn : (Char.ofNat u.toNat).toNat = u.toNat :=
    toNat_ofNat (by show _ < 55296 ∨ 57343 < _ ∧ _ < 1114112; omega)
  rw [units, hn, if_pos (by omega), UInt16.ofNat_toNat]

/-- The pieces cover the string. -/
theorem pieces_sum (s : List UInt16) : ((pieces s).map Prod.snd).sum = s.length := by
  induction s using pieces.induct with
  | case1 => rfl
  | case2 u => rfl
  | case3 u v rest h ih =>
      rw [pieces, if_pos h, List.map_cons, List.sum_cons, ih]
      simp only [List.length_cons]
      omega
  | case4 u v rest h ih =>
      rw [pieces, if_neg h, List.map_cons, List.sum_cons, ih]
      simp only [List.length_cons]
      omega

/-- An ASCII unit is read by itself, as the character of that code. -/
theorem pieces_ascii {u : UInt16} (hu : u.toNat ≤ 0x7F) (s : List UInt16) :
    pieces (u :: s) = (Char.ofNat u.toNat, 1) :: pieces s := by
  have hlead : isLead u = false := decide_eq_false (by omega)
  have htrail : isTrail u = false := decide_eq_false (by omega)
  rw [pieces_alone hlead, alone_plain hlead htrail]

/-! ## Texts and other strings -/

/-- No surrogate is alone. -/
def isText (s : List UInt16) : Bool := decide (encode (scalars s) = s)

theorem isText_encode (cs : List Char) : isText (encode cs) = true :=
  decide_eq_true (congrArg encode (scalars_encode cs))

/-- A string of JavaScript: a text, or units with a surrogate among them that is alone. -/
inductive JsString where
  | text (s : String)
  | unpaired (s : List UInt16) (h : isText s = false)
  deriving DecidableEq, Repr

namespace JsString

instance : Coe String JsString := ⟨text⟩

/-- The units of a string. -/
def units : JsString → List UInt16
  | text s => encode s.toList
  | unpaired s _ => s

/-- The string with these units. -/
def ofUnits (s : List UInt16) : JsString :=
  if h : isText s = true then text (String.ofList (scalars s))
  else unpaired s (Bool.eq_false_iff.mpr h)

instance : Append JsString := ⟨fun s t => ofUnits (s.units ++ t.units)⟩

/-- The text, of a string that is one. -/
def text? : JsString → Option String
  | text s => some s
  | unpaired _ _ => none

@[simp] theorem text?_text (s : String) : (text s).text? = some s := rfl

@[simp] theorem units_ofUnits (s : List UInt16) : (ofUnits s).units = s := by
  rw [ofUnits]
  split
  · next h =>
      show encode (String.ofList (scalars s)).toList = s
      rw [String.toList_ofList]
      exact of_decide_eq_true h
  · rfl

@[simp] theorem ofUnits_units (s : JsString) : ofUnits s.units = s := by
  cases s with
  | text s =>
      rw [ofUnits, units, dif_pos (isText_encode _), scalars_encode, String.ofList_toList]
  | unpaired s h =>
      rw [ofUnits, units, dif_neg (by rw [h]; exact Bool.false_ne_true)]

end JsString

/-! ## Bytes -/

/-- The scalar values in UTF-8. -/
def utf8 (cs : List Char) : List UInt8 := cs.flatMap String.utf8EncodeChar

@[simp] theorem utf8_cons (c : Char) (cs : List Char) :
    utf8 (c :: cs) = String.utf8EncodeChar c ++ utf8 cs := rfl

/-- An ASCII unit is its own byte. -/
theorem utf8EncodeChar_ascii {u : UInt16} (hu : u.toNat ≤ 0x7F) :
    String.utf8EncodeChar (Char.ofNat u.toNat) = [u.toUInt8] := by
  have hval : (Char.ofNat u.toNat).val.toNat = u.toNat := toNat_ofNat (Or.inl (by omega))
  have hsize : (Char.ofNat u.toNat).utf8Size = 1 := by
    rw [Char.utf8Size_eq_one_iff, UInt32.le_iff_toNat_le, hval]
    exact hu
  rw [String.utf8EncodeChar_eq_singleton hsize]
  congr 1
  apply UInt8.toNat_inj.mp
  rw [UInt32.toNat_toUInt8, hval, UInt16.toNat_toUInt8]

/-- What a string begins with in ASCII is written byte for byte. -/
theorem utf8_ascii_append {front : List UInt16} (h : ∀ u ∈ front, u.toNat ≤ 0x7F)
    (s : List UInt16) :
    utf8 (scalars (front ++ s)) = front.map (·.toUInt8) ++ utf8 (scalars s) := by
  induction front with
  | nil => rfl
  | cons u front ih =>
      have hu := h u (List.mem_cons_self ..)
      have hrest := ih (fun v hv => h v (List.mem_cons_of_mem _ hv))
      rw [scalars, List.cons_append, pieces_ascii hu, List.map_cons, utf8_cons,
        utf8EncodeChar_ascii hu]
      exact congrArg (u.toUInt8 :: ·) hrest

/-- A piece takes at most three bytes for each unit it is read from. -/
theorem piece_size {s : List UInt16} {p : Char × Nat} (hp : p ∈ pieces s) :
    p.1.utf8Size ≤ 3 * p.2 := by
  -- a unit by itself never needs a fourth byte
  have halone : ∀ u : UInt16, (alone u).utf8Size ≤ 3 := by
    intro u
    by_contra hno
    have hfour : (alone u).utf8Size = 4 := by
      have := Char.utf8Size_le_four (alone u)
      omega
    rw [Char.utf8Size_eq_four_iff, UInt32.lt_iff_toNat_lt] at hfour
    have hlt : (alone u).toNat ≤ 0xFFFF := by
      rw [alone]
      split
      · decide
      · next hsur =>
          have hu := u.toNat_lt
          simp only [isLead, isTrail, Bool.or_eq_true, decide_eq_true_eq, not_or] at hsur
          rw [toNat_ofNat (by show _ < 55296 ∨ 57343 < _ ∧ _ < 1114112; omega)]
          omega
    exact absurd hlt (by exact Nat.not_le.mpr hfour)
  induction s using pieces.induct with
  | case1 => cases hp
  | case2 u =>
      cases List.mem_singleton.mp hp
      exact halone u
  | case3 u v rest h ih =>
      rw [pieces, if_pos h] at hp
      rcases List.mem_cons.mp hp with rfl | hp
      · exact Nat.le_trans (Char.utf8Size_le_four _) (Nat.le_add_right 4 2)
      · exact ih hp
  | case4 u v rest h ih =>
      rw [pieces, if_neg h] at hp
      rcases List.mem_cons.mp hp with rfl | hp
      · exact halone u
      · exact ih hp

/-- **THREE BYTES FOR EACH UNIT ARE ENOUGH.** -/
theorem utf8_length_le (s : List UInt16) : (utf8 (scalars s)).length ≤ 3 * s.length := by
  have hpieces : ∀ ps : List (Char × Nat), (∀ p ∈ ps, p.1.utf8Size ≤ 3 * p.2) →
      (utf8 (ps.map Prod.fst)).length ≤ 3 * (ps.map Prod.snd).sum := by
    intro ps
    induction ps with
    | nil => exact fun _ => Nat.le_refl _
    | cons p ps ih =>
        intro h
        have hp := h p (List.mem_cons_self ..)
        have hps := ih (fun q hq => h q (List.mem_cons_of_mem _ hq))
        rw [List.map_cons, utf8_cons, List.length_append, String.length_utf8EncodeChar,
          List.map_cons, List.sum_cons]
        omega
  have h := hpieces (pieces s) (fun p hp => piece_size hp)
  rw [pieces_sum] at h
  exact h

/-- Something is written for a string that is not empty. -/
theorem utf8_length_pos {s : List UInt16} (h : s ≠ []) : 0 < (utf8 (scalars s)).length := by
  have hne : pieces s ≠ [] := by
    intro hno
    have hsum := pieces_sum s
    rw [hno] at hsum
    exact h (List.length_eq_zero_iff.mp hsum.symm)
  obtain ⟨p, ps, hps⟩ := List.exists_cons_of_ne_nil hne
  rw [scalars, hps, List.map_cons, utf8_cons, List.length_append,
    String.length_utf8EncodeChar]
  exact Nat.lt_of_lt_of_le (Char.utf8Size_pos _) (Nat.le_add_right _ _)

/-! ## An encoder with limited room -/

/-- Scalar values are written as long as the next one fits: the units read, and the bytes
    written. -/
def fill : List (Char × Nat) → Nat → Nat × List UInt8
  | [], _ => (0, [])
  | (c, n) :: rest, room =>
      if c.utf8Size ≤ room then
        let r := fill rest (room - c.utf8Size)
        (n + r.1, String.utf8EncodeChar c ++ r.2)
      else (0, [])

/-- **WITH ROOM ENOUGH, EVERYTHING**: all units are read, and all bytes written. -/
theorem fill_all (s : List UInt16) {room : Nat} (h : (utf8 (scalars s)).length ≤ room) :
    fill (pieces s) room = (s.length, utf8 (scalars s)) := by
  have hfill : ∀ (ps : List (Char × Nat)) (room : Nat),
      (utf8 (ps.map Prod.fst)).length ≤ room →
        fill ps room = ((ps.map Prod.snd).sum, utf8 (ps.map Prod.fst)) := by
    intro ps
    induction ps with
    | nil => exact fun _ _ => rfl
    | cons p ps ih =>
        intro room h
        rw [List.map_cons, utf8_cons, List.length_append, String.length_utf8EncodeChar] at h
        rw [fill, if_pos (by omega), ih _ (by omega)]
        rfl
  rw [hfill _ _ h, pieces_sum]
  rfl

/-! ## Decoding -/

/-- The scalar values of these bytes; `none` unless they are UTF-8. -/
def decodeWithin : Nat → List UInt8 → Option (List Char)
  | _, [] => some []
  | 0, _ :: _ => none
  | fuel + 1, b :: bs =>
      ((b :: bs).toByteArray.utf8DecodeChar? 0).bind (fun c =>
        (decodeWithin fuel ((b :: bs).drop c.utf8Size)).map (c :: ·))

def decode (bytes : List UInt8) : Option (List Char) := decodeWithin bytes.length bytes

theorem decodeWithin_utf8 {fuel : Nat} (cs : List Char) (h : (utf8 cs).length ≤ fuel) :
    decodeWithin fuel (utf8 cs) = some cs := by
  induction cs generalizing fuel with
  | nil => cases fuel <;> rfl
  | cons c cs ih =>
      have hpos := Char.utf8Size_pos c
      rw [utf8_cons, List.length_append, String.length_utf8EncodeChar] at h
      have hhead : (utf8 (c :: cs)).toByteArray.utf8DecodeChar? 0 = some c := by
        rw [utf8_cons, List.toByteArray_append]
        exact ByteArray.utf8DecodeChar?_utf8EncodeChar_append
      have hrest : (utf8 (c :: cs)).drop c.utf8Size = utf8 cs := by
        rw [utf8_cons, ← String.length_utf8EncodeChar c, List.drop_left]
      obtain ⟨fuel, rfl⟩ : ∃ k, fuel = k + 1 := ⟨fuel - 1, by omega⟩
      cases hbytes : utf8 (c :: cs) with
      | nil =>
          have hlen := congrArg List.length hbytes
          rw [utf8_cons, List.length_append, String.length_utf8EncodeChar, List.length_nil]
            at hlen
          omega
      | cons b bs =>
          rw [decodeWithin, ← hbytes, hhead, Option.bind_some, hrest, ih (by omega)]
          rfl

/-- **WHAT CAN BE DECODED WAS ENCODED**, and comes back. -/
theorem decode_eq_some {bytes : List UInt8} {cs : List Char} :
    decode bytes = some cs ↔ bytes = utf8 cs := by
  have hsound : ∀ (fuel : Nat) (bytes : List UInt8) (cs : List Char),
      decodeWithin fuel bytes = some cs → bytes = utf8 cs := by
    intro fuel
    induction fuel with
    | zero =>
        intro bytes cs h
        cases bytes with
        | nil =>
            cases h
            rfl
        | cons b bs => cases h
    | succ fuel ih =>
        intro bytes cs h
        cases bytes with
        | nil =>
            cases h
            rfl
        | cons b bs =>
            obtain ⟨c, hc, h⟩ := Option.bind_eq_some_iff.mp h
            obtain ⟨cs', hcs', rfl⟩ := Option.map_eq_some_iff.mp h
            obtain ⟨l, hl⟩ := ByteArray.exists_of_utf8DecodeChar?_eq_some hc
            have hlist : b :: bs = String.utf8EncodeChar c ++ l.data.toList := by
              have := congrArg (fun a => a.data.toList) hl
              simpa using this
            rw [hlist, ← String.length_utf8EncodeChar c, List.drop_left] at hcs'
            rw [hlist, utf8_cons, ih _ _ hcs']
  constructor
  · exact hsound _ _ _
  · rintro rfl
    exact decodeWithin_utf8 cs (Nat.le_refl _)

end Utf16
