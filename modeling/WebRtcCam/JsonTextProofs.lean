import Mathlib.Data.List.TakeWhile
import WebRtcCam.Utf16Proofs

/-! # JSON values and their texts (RFC 8259)

    `Json` is the value a JSON text denotes, with an object kept as its list of
    members in text order: a decoder that rejects repeated members and one that
    lets the last one win can both be written over it.  Strings are those of
    JavaScript: a text may escape a surrogate that has no partner, and only some
    decoders mind.  A number is kept as its literal, and written as it was read;
    `NumLit.isZero` says whether zero is the double it denotes.  `render` writes a
    value without insignificant whitespace, `parse` reads any text of the grammar.

    The headline is `parse_render`: reading back a written value gives the
    value, for every value.  The route:

    * string bodies (`parseChars_escape`): one unit or pair at a time;
    * numbers (`parseNumber_lit`): a literal is delimited by the first character
      that no number contains, and after a value the writer never puts one;
    * values, elements and members together, by recursion on the value, with
      fuel bounded by the length of the text (`size_le_length`). -/

namespace JsonText

open Utf16

/-- The grammar states of an RFC 8259 number. -/
inductive NumState where
  | start | minus | zero | int | point | frac | e | esign | exp | bad
  deriving DecidableEq, Repr

/-- One character of a number. -/
def NumState.next (c : Char) : NumState → NumState
  | .start => if c = '-' then .minus else if c = '0' then .zero
      else if c.isDigit then .int else .bad
  | .minus => if c = '0' then .zero else if c.isDigit then .int else .bad
  | .zero => if c = '.' then .point else if c = 'e' ∨ c = 'E' then .e else .bad
  | .int => if c.isDigit then .int else if c = '.' then .point
      else if c = 'e' ∨ c = 'E' then .e else .bad
  | .point => if c.isDigit then .frac else .bad
  | .frac => if c.isDigit then .frac else if c = 'e' ∨ c = 'E' then .e else .bad
  | .e => if c = '+' ∨ c = '-' then .esign else if c.isDigit then .exp else .bad
  | .esign => if c.isDigit then .exp else .bad
  | .exp => if c.isDigit then .exp else .bad
  | .bad => .bad

/-- Does a character list spell an RFC 8259 number? -/
def isNumber (cs : List Char) : Bool :=
  match cs.foldl (fun st c => st.next c) NumState.start with
  | .zero | .int | .frac | .exp => true
  | _ => false

/-- A number is kept as its literal, so that no precision is lost. -/
structure NumLit where
  chars : List Char
  valid : isNumber chars = true
  deriving DecidableEq

/-- The number that the digits among these characters spell. -/
def digits (cs : List Char) : Nat :=
  cs.foldl (fun n c => if c.isDigit then 10 * n + (c.toNat - 48) else n) 0

/-- The characters before the exponent. -/
def NumLit.mantissa (n : NumLit) : List Char :=
  n.chars.takeWhile (fun c => c ≠ 'e' ∧ c ≠ 'E')

/-- The power of ten that the digits of the mantissa are multiplied with. -/
def NumLit.scale (n : NumLit) : Int :=
  let exponent := n.chars.drop n.mantissa.length
  (if '-' ∈ exponent then -(digits exponent : Int) else digits exponent)
    - (n.mantissa.dropWhile (fun c => c ≠ '.')).tail.length

/-- The double that is closest is zero: half of the least positive one, 2^-1074, is not
    exceeded. -/
def NumLit.isZero (n : NumLit) : Bool :=
  digits n.mantissa * 2 ^ 1075 * 10 ^ n.scale.toNat ≤ 10 ^ (-n.scale).toNat

/-- A JSON value. -/
inductive Json where
  | null
  | bool (b : Bool)
  | num (n : NumLit)
  | str (s : JsString)
  | arr (xs : List Json)
  | obj (ms : List (JsString × Json))

/-- The members of an object. -/
abbrev Members := List (JsString × Json)

theorem Json.text_inj {s t : String} (h : Json.str s = .str t) : s = t :=
  JsString.text.inj (Json.str.inj h)

mutual

/-- Structural equality test. -/
def Json.beq : Json → Json → Bool
  | .null, .null => true
  | .bool a, .bool b => a = b
  | .num a, .num b => a = b
  | .str a, .str b => a = b
  | .arr a, .arr b => beqElems a b
  | .obj a, .obj b => beqMembers a b
  | _, _ => false

def beqElems : List Json → List Json → Bool
  | [], [] => true
  | x :: xs, y :: ys => x.beq y && beqElems xs ys
  | _, _ => false

def beqMembers : Members → Members → Bool
  | [], [] => true
  | (k, v) :: ms, (l, w) :: ns => decide (k = l) && v.beq w && beqMembers ms ns
  | _, _ => false

end

mutual

theorem Json.beq_iff : ∀ a b : Json, a.beq b = true ↔ a = b
  | .null, b => by cases b <;> simp [Json.beq]
  | .bool _, b => by cases b <;> simp [Json.beq]
  | .num _, b => by cases b <;> simp [Json.beq]
  | .str _, b => by cases b <;> simp [Json.beq]
  | .arr xs, b => by
      cases b <;> simp [Json.beq]
      exact beqElems_iff xs _
  | .obj ms, b => by
      cases b <;> simp [Json.beq]
      exact beqMembers_iff ms _

theorem beqElems_iff : ∀ a b : List Json, beqElems a b = true ↔ a = b
  | [], b => by cases b <;> simp [beqElems]
  | x :: xs, b => by
      cases b with
      | nil => simp [beqElems]
      | cons y ys => simp [beqElems, Json.beq_iff x y, beqElems_iff xs ys]

theorem beqMembers_iff :
    ∀ a b : Members, beqMembers a b = true ↔ a = b
  | [], b => by cases b <;> simp [beqMembers]
  | (k, v) :: ms, b => by
      cases b with
      | nil => simp [beqMembers]
      | cons m ns =>
          obtain ⟨l, w⟩ := m
          simp [beqMembers, Json.beq_iff v w, beqMembers_iff ms ns]

end

instance : DecidableEq Json := fun a b =>
  decidable_of_iff (a.beq b = true) (Json.beq_iff a b)

/-! ## Member access -/

/-- The value of a member, the last one winning when it is repeated; `none`
    when there is none. -/
def lookup (k : String) : Members → Option Json
  | [] => none
  | (k', v) :: ms =>
      match lookup k ms with
      | some w => some w
      | none => if k' = JsString.text k then some v else none

/-- Property access on a parsed value: only objects have members. -/
def Json.get (k : String) : Json → Option Json
  | .obj ms => lookup k ms
  | _ => none

@[simp] theorem lookup_nil (k : String) : lookup k [] = none := rfl

theorem lookup_append (k : String) (l₁ l₂ : Members) :
    lookup k (l₁ ++ l₂) = (lookup k l₂).or (lookup k l₁) := by
  induction l₁ with
  | nil =>
      show lookup k l₂ = (lookup k l₂).or none
      rw [Option.or_none]
  | cons m l₁ ih =>
      show (match lookup k (l₁ ++ l₂) with
        | some w => some w
        | none => if m.1 = JsString.text k then some m.2 else none) = _
      rw [ih]
      cases h₂ : lookup k l₂ with
      | some w => rfl
      | none =>
          rw [Option.none_or, Option.none_or]
          rfl

@[simp] theorem Json.get_obj (k : String) (ms : Members) :
    (Json.obj ms).get k = lookup k ms := rfl

/-! ## Values of texts only -/

mutual

/-- Every string in the value is a text. -/
def Json.isText : Json → Bool
  | .str s => s.text?.isSome
  | .arr xs => isTextElems xs
  | .obj ms => isTextMembers ms
  | _ => true

def isTextElems : List Json → Bool
  | [] => true
  | x :: xs => x.isText && isTextElems xs

def isTextMembers : Members → Bool
  | [] => true
  | (k, v) :: ms => k.text?.isSome && v.isText && isTextMembers ms

end

/-! ## Writing -/

/-- A hexadecimal digit. -/
def hexDigit (n : Nat) : Char :=
  if n < 10 then Char.ofNat (48 + n) else Char.ofNat (87 + n)

/-- The escape of a unit by its number. -/
def unicodeEscape (n : Nat) : List Char :=
  ['\\', 'u', hexDigit (n / 4096 % 16), hexDigit (n / 256 % 16), hexDigit (n / 16 % 16),
    hexDigit (n % 16)]

/-- One character of a string body. -/
def escape (c : Char) : List Char :=
  if c = '"' then ['\\', '"']
  else if c = '\\' then ['\\', '\\']
  else if c = '\x08' then ['\\', 'b']
  else if c = '\t' then ['\\', 't']
  else if c = '\n' then ['\\', 'n']
  else if c = '\x0c' then ['\\', 'f']
  else if c = '\r' then ['\\', 'r']
  else if c.toNat < 32 then unicodeEscape c.toNat
  else [c]

/-- A unit that is not part of a pair. -/
def escapeAlone (u : UInt16) : List Char :=
  if isLead u || isTrail u then unicodeEscape u.toNat else escape (Char.ofNat u.toNat)

/-- A string body. -/
def escapeUnits : List UInt16 → List Char
  | [] => []
  | [u] => escapeAlone u
  | u :: v :: rest =>
      if isLead u && isTrail v then escape (pair u v) ++ escapeUnits rest
      else escapeAlone u ++ escapeUnits (v :: rest)

/-- A quoted string. -/
def renderString (s : JsString) : List Char := '"' :: (escapeUnits s.units ++ ['"'])

mutual

/-- The text of a value. -/
def renderValue : Json → List Char
  | .null => ['n', 'u', 'l', 'l']
  | .bool true => ['t', 'r', 'u', 'e']
  | .bool false => ['f', 'a', 'l', 's', 'e']
  | .num n => n.chars
  | .str s => renderString s
  | .arr [] => ['[', ']']
  | .arr (x :: xs) => '[' :: (renderValue x ++ renderElems xs)
  | .obj [] => ['\x7b', '\x7d']
  | .obj ((k, v) :: ms) =>
      '\x7b' :: (renderString k ++ ':' :: (renderValue v ++ renderMembers ms))

/-- The elements after the first, and the closing bracket. -/
def renderElems : List Json → List Char
  | [] => [']']
  | x :: xs => ',' :: (renderValue x ++ renderElems xs)

/-- The members after the first, and the closing brace. -/
def renderMembers : Members → List Char
  | [] => ['\x7d']
  | (k, v) :: ms =>
      ',' :: (renderString k ++ ':' :: (renderValue v ++ renderMembers ms))

end

/-- The text of a value. -/
def render (j : Json) : String := String.ofList (renderValue j)

/-! ## Reading -/

/-- Insignificant whitespace. -/
def isWs (c : Char) : Bool := c = ' ' || c = '\n' || c = '\t' || c = '\r'

def skipWs (cs : List Char) : List Char := cs.dropWhile isWs

/-- The value of a hexadecimal digit. -/
def hexValue (c : Char) : Option Nat :=
  if '0' ≤ c ∧ c ≤ '9' then some (c.toNat - 48)
  else if 'a' ≤ c ∧ c ≤ 'f' then some (c.toNat - 87)
  else if 'A' ≤ c ∧ c ≤ 'F' then some (c.toNat - 55)
  else none

/-- The rest of a text after the literal `lit`. -/
def after : List Char → List Char → Option (List Char)
  | [], cs => some cs
  | _ :: _, [] => none
  | l :: ls, c :: cs => if c = l then after ls cs else none

/-- Four hexadecimal digits. -/
def hex4 : List Char → Option (Nat × List Char)
  | a :: b :: c :: d :: rest => do
      let w ← hexValue a
      let x ← hexValue b
      let y ← hexValue c
      let z ← hexValue d
      pure (4096 * w + 256 * x + 16 * y + z, rest)
  | _ => none

/-- The escape after a backslash; four digits are any unit, surrogates included. -/
def unescape : List Char → Option (List UInt16 × List Char)
  | [] => none
  | c :: rest =>
      if c = '"' then some (units '"', rest)
      else if c = '\\' then some (units '\\', rest)
      else if c = '/' then some (units '/', rest)
      else if c = 'b' then some (units '\x08', rest)
      else if c = 'f' then some (units '\x0c', rest)
      else if c = 'n' then some (units '\n', rest)
      else if c = 'r' then some (units '\r', rest)
      else if c = 't' then some (units '\t', rest)
      else if c = 'u' then do
        let (n, rest') ← hex4 rest
        pure ([UInt16.ofNat n], rest')
      else none

/-- The units of a string body up to its closing quote. -/
def parseChars : Nat → List Char → Option (List UInt16 × List Char)
  | 0, _ => none
  | _ + 1, [] => none
  | n + 1, c :: cs =>
      if c = '"' then some ([], cs)
      else if c = '\\' then do
        let (us, rest) ← unescape cs
        let (vs, rest') ← parseChars n rest
        pure (us ++ vs, rest')
      else if c.toNat < 32 then none
      else do
        let (vs, rest') ← parseChars n cs
        pure (units c ++ vs, rest')

/-- Characters that occur in numbers. -/
def isNumChar (c : Char) : Bool :=
  c.isDigit || c = '-' || c = '+' || c = '.' || c = 'e' || c = 'E'

/-- A number: the longest run of number characters, if it spells one. -/
def parseNumber (cs : List Char) : Option (Json × List Char) :=
  if h : isNumber (cs.takeWhile isNumChar) = true then
    some (.num ⟨cs.takeWhile isNumChar, h⟩, cs.dropWhile isNumChar)
  else none

mutual

/-- A value, with any whitespace before it. -/
def parseValue : Nat → List Char → Option (Json × List Char)
  | 0, _ => none
  | n + 1, cs =>
      match skipWs cs with
      | [] => none
      | c :: rest =>
          if c = '"' then do
            let (s, r) ← parseChars (rest.length + 1) rest
            pure (.str (.ofUnits s), r)
          else if c = '[' then
            match after [']'] (skipWs rest) with
            | some r => some (.arr [], r)
            | none => do
                let (xs, r) ← parseElems n rest
                pure (.arr xs, r)
          else if c = '\x7b' then
            match after ['\x7d'] (skipWs rest) with
            | some r => some (.obj [], r)
            | none => do
                let (ms, r) ← parseMembers n rest
                pure (.obj ms, r)
          else if c = 'n' then do
            pure (.null, ← after ['u', 'l', 'l'] rest)
          else if c = 't' then do
            pure (.bool true, ← after ['r', 'u', 'e'] rest)
          else if c = 'f' then do
            pure (.bool false, ← after ['a', 'l', 's', 'e'] rest)
          else parseNumber (c :: rest)

/-- One element and what follows it. -/
def parseElems : Nat → List Char → Option (List Json × List Char)
  | 0, _ => none
  | n + 1, cs => do
      let (v, r) ← parseValue n cs
      match after [','] (skipWs r) with
      | some r' => do
          let (vs, r'') ← parseElems n r'
          pure (v :: vs, r'')
      | none => do
          pure ([v], ← after [']'] (skipWs r))

/-- One member and what follows it. -/
def parseMembers : Nat → List Char → Option (Members × List Char)
  | 0, _ => none
  | n + 1, cs => do
      let r ← after ['"'] (skipWs cs)
      let (k, r1) ← parseChars (r.length + 1) r
      let (v, r2) ← parseValue n (← after [':'] (skipWs r1))
      match after [','] (skipWs r2) with
      | some r3 => do
          let (ms, r4) ← parseMembers n r3
          pure ((.ofUnits k, v) :: ms, r4)
      | none => do
          pure ([(.ofUnits k, v)], ← after ['\x7d'] (skipWs r2))

end

/-- The value of a text: one value, with whitespace around it. -/
def parse (text : String) : Option Json :=
  match parseValue (text.toList.length + 1) text.toList with
  | some (v, rest) => if skipWs rest = [] then some v else none
  | none => none

/-! ## Reading back what was written -/

theorem hexValue_hexDigit : ∀ n < 16, hexValue (hexDigit n) = some n := by
  decide

/-- A unit comes back from its escape. -/
theorem unescape_unicode (u : UInt16) (rest : List Char) :
    unescape ((unicodeEscape u.toNat).tail ++ rest) = some ([u], rest) := by
  have hlt := u.toNat_lt
  have hdigit : ∀ n : Nat, hexValue (hexDigit (n % 16)) = some (n % 16) :=
    fun n => hexValue_hexDigit _ (Nat.mod_lt _ (by decide))
  have hsum : 4096 * (u.toNat / 4096 % 16) + 256 * (u.toNat / 256 % 16)
      + 16 * (u.toNat / 16 % 16) + u.toNat % 16 = u.toNat := by omega
  have hhex : hex4 (hexDigit (u.toNat / 4096 % 16) :: hexDigit (u.toNat / 256 % 16)
      :: hexDigit (u.toNat / 16 % 16) :: hexDigit (u.toNat % 16) :: rest)
      = some (u.toNat, rest) := by
    simp only [hex4, hdigit, Option.bind_eq_bind, Option.bind_some, Option.pure_def, hsum]
  show (hex4 (hexDigit (u.toNat / 4096 % 16) :: hexDigit (u.toNat / 256 % 16)
    :: hexDigit (u.toNat / 16 % 16) :: hexDigit (u.toNat % 16) :: rest)).bind
      (fun p => some ([UInt16.ofNat p.1], p.2)) = _
  rw [hhex, Option.bind_some, UInt16.ofNat_toNat]

/-- An escape that `unescape` inverts is read in one step. -/
theorem parseChars_backslash {e rest : List Char} {us : List UInt16} (n : Nat)
    (he : unescape (e ++ rest) = some (us, rest)) :
    parseChars (n + 1) ('\\' :: e ++ rest)
      = (parseChars n rest).map (fun p => (us ++ p.1, p.2)) := by
  have hne : ('\\' : Char) ≠ '"' := by decide
  show parseChars (n + 1) ('\\' :: (e ++ rest)) = _
  rw [parseChars, if_neg hne, if_pos rfl, he]
  simp only [Option.bind_eq_bind, Option.bind_some]
  cases parseChars n rest <;> rfl

/-- One escaped character is read in one step. -/
theorem parseChars_escape_cons (c : Char) (n : Nat) (rest : List Char) :
    parseChars (n + 1) (escape c ++ rest)
      = (parseChars n rest).map (fun p => (units c ++ p.1, p.2)) := by
  rw [escape]
  split
  · next h => exact parseChars_backslash (e := ['"']) n (by rw [h]; rfl)
  · next h₁ =>
      split
      · next h => exact parseChars_backslash (e := ['\\']) n (by rw [h]; rfl)
      · next h₂ =>
          split
          · next h => exact parseChars_backslash (e := ['b']) n (by rw [h]; rfl)
          · split
            · next h => exact parseChars_backslash (e := ['t']) n (by rw [h]; rfl)
            · split
              · next h => exact parseChars_backslash (e := ['n']) n (by rw [h]; rfl)
              · split
                · next h => exact parseChars_backslash (e := ['f']) n (by rw [h]; rfl)
                · split
                  · next h => exact parseChars_backslash (e := ['r']) n (by rw [h]; rfl)
                  · split
                    · next hc =>
                        have hu := unescape_unicode (UInt16.ofNat c.toNat) rest
                        rw [toNat_unit (by omega)] at hu
                        rw [units, if_pos (by omega)]
                        exact parseChars_backslash n hu
                    · next hc =>
                        show parseChars (n + 1) (c :: rest) = _
                        rw [parseChars, if_neg h₁, if_neg h₂, if_neg hc]
                        cases parseChars n rest <;> rfl

theorem parseChars_escapeAlone (u : UInt16) (n : Nat) (rest : List Char) :
    parseChars (n + 1) (escapeAlone u ++ rest)
      = (parseChars n rest).map (fun p => (u :: p.1, p.2)) := by
  rw [escapeAlone]
  split
  · exact parseChars_backslash n (unescape_unicode u rest)
  · next h =>
      obtain ⟨hlead, htrail⟩ := Bool.or_eq_false_iff.mp (Bool.eq_false_iff.mpr h)
      rw [parseChars_escape_cons, units_plain hlead htrail]
      rfl

/-- **STRING BODIES** come back. -/
theorem parseChars_escape (us : List UInt16) :
    ∀ (n : Nat) (rest : List Char), (pieces us).length < n →
      parseChars n (escapeUnits us ++ '"' :: rest) = some (us, rest) := by
  induction us using pieces.induct with
  | case1 =>
      intro n rest hn
      obtain ⟨k, rfl⟩ : ∃ k, n = k + 1 := ⟨n - 1, by simp [pieces] at hn; omega⟩
      show parseChars (k + 1) ('"' :: rest) = _
      rw [parseChars, if_pos rfl]
  | case2 u =>
      intro n rest hn
      obtain ⟨k, rfl⟩ : ∃ k, n = k + 1 + 1 := ⟨n - 2, by simp [pieces] at hn; omega⟩
      rw [escapeUnits, parseChars_escapeAlone, parseChars, if_pos rfl]
      rfl
  | case3 u v us h ih =>
      intro n rest hn
      rw [pieces, if_pos h, List.length_cons] at hn
      obtain ⟨k, rfl⟩ : ∃ k, n = k + 1 := ⟨n - 1, by omega⟩
      obtain ⟨hu, hv⟩ := Bool.and_eq_true_iff.mp h
      rw [escapeUnits, if_pos h, List.append_assoc, parseChars_escape_cons,
        ih k rest (by omega), units_pair hu hv]
      rfl
  | case4 u v us h ih =>
      intro n rest hn
      rw [pieces, if_neg h, List.length_cons] at hn
      obtain ⟨k, rfl⟩ : ∃ k, n = k + 1 := ⟨n - 1, by omega⟩
      rw [escapeUnits, if_neg h, List.append_assoc, parseChars_escapeAlone,
        ih k rest (by omega)]
      rfl

/-! ### Numbers -/

/-- Only number characters keep the grammar going. -/
theorem isNumChar_of_next {c : Char} {st : NumState} (h : st.next c ≠ .bad) :
    isNumChar c = true := by
  rw [isNumChar]
  by_contra hc
  simp only [Bool.or_eq_true, decide_eq_true_eq, not_or] at hc
  obtain ⟨⟨⟨⟨⟨hd, hm⟩, hp⟩, hdot⟩, he⟩, hE⟩ := hc
  have hz : c ≠ '0' := by
    rintro rfl
    exact hd (by decide)
  cases st <;> simp [NumState.next, hd, hm, hp, hdot, he, hE, hz] at h

theorem foldl_bad (cs : List Char) :
    cs.foldl (fun st c => NumState.next c st) .bad = .bad := by
  induction cs with
  | nil => rfl
  | cons c cs ih => exact ih

theorem isNumChar_of_foldl (cs : List Char) :
    ∀ st : NumState, cs.foldl (fun st c => NumState.next c st) st ≠ .bad →
      ∀ c ∈ cs, isNumChar c = true := by
  induction cs with
  | nil => intro st _ c hc; exact nomatch hc
  | cons d cs ih =>
      intro st h c hc
      rw [List.foldl_cons] at h
      rcases List.mem_cons.mp hc with rfl | hc
      · have hgood : NumState.next c st ≠ .bad := by
          intro hbad
          rw [hbad] at h
          exact h (foldl_bad cs)
        exact isNumChar_of_next hgood
      · exact ih _ h c hc

theorem isNumber_chars {cs : List Char} (h : isNumber cs = true) :
    ∀ c ∈ cs, isNumChar c = true := by
  refine isNumChar_of_foldl cs .start (fun hbad => ?_)
  rw [isNumber, hbad] at h
  exact nomatch h

/-- What follows a value does not continue a number. -/
def Ends (rest : List Char) : Prop := ∀ c cs, rest = c :: cs → isNumChar c = false

theorem ends_nil : Ends [] := fun _ _ h => (nomatch h)

theorem ends_cons {c : Char} (h : isNumChar c = false) (cs : List Char) :
    Ends (c :: cs) := by
  intro d ds heq
  cases heq
  exact h

/-- **NUMBERS** come back. -/
theorem parseNumber_lit (n : NumLit) {rest : List Char} (hr : Ends rest) :
    parseNumber (n.chars ++ rest) = some (.num n, rest) := by
  have hall := isNumber_chars n.valid
  have htake : (n.chars ++ rest).takeWhile isNumChar = n.chars := by
    rw [List.takeWhile_append_of_pos hall]
    cases rest with
    | nil => simp
    | cons c cs => simp [hr c cs rfl]
  have hdrop : (n.chars ++ rest).dropWhile isNumChar = rest := by
    rw [List.dropWhile_append_of_pos hall]
    cases rest with
    | nil => rfl
    | cons c cs => simp [hr c cs rfl]
  rw [parseNumber]
  simp only [htake, hdrop]
  rw [dif_pos n.valid]

/-- A number starts with a digit or a minus sign. -/
theorem numLit_head (n : NumLit) :
    ∃ c cs, n.chars = c :: cs ∧ (c = '-' ∨ c.isDigit = true) := by
  have hv := n.valid
  cases hn : n.chars with
  | nil =>
      rw [hn] at hv
      exact nomatch hv
  | cons c cs =>
      refine ⟨c, cs, rfl, ?_⟩
      by_contra hc
      rw [not_or] at hc
      have hz : c ≠ '0' := by
        rintro rfl
        exact hc.2 (by decide)
      have hbad : NumState.next c .start = .bad := by
        simp [NumState.next, hc.1, hz, hc.2]
      rw [hn, isNumber, List.foldl_cons, hbad, foldl_bad] at hv
      exact nomatch hv

/-! ### Values -/

mutual

/-- The fuel that reading a written value takes. -/
def size : Json → Nat
  | .arr xs => 1 + sizeElems xs
  | .obj ms => 1 + sizeMembers ms
  | _ => 1

def sizeElems : List Json → Nat
  | [] => 0
  | x :: xs => 1 + size x + sizeElems xs

def sizeMembers : Members → Nat
  | [] => 0
  | (_, v) :: ms => 1 + size v + sizeMembers ms

end

theorem skipWs_cons {c : Char} (h : isWs c = false) (cs : List Char) :
    skipWs (c :: cs) = c :: cs := by
  simp [skipWs, h]

theorem after_singleton (c : Char) (cs : List Char) : after [c] (c :: cs) = some cs := by
  simp [after]

theorem after_ne {c d : Char} (h : d ≠ c) (cs : List Char) :
    after [c] (d :: cs) = none := by
  simp [after, h]

/-- Nothing is written with nothing. -/
theorem length_le_escape (us : List UInt16) :
    (pieces us).length ≤ (escapeUnits us).length := by
  have hchar : ∀ c : Char, 1 ≤ (escape c).length := by
    intro c
    rw [escape]
    split_ifs <;> simp [unicodeEscape]
  have halone : ∀ u : UInt16, 1 ≤ (escapeAlone u).length := by
    intro u
    rw [escapeAlone]
    split
    · simp [unicodeEscape]
    · exact hchar _
  induction us using pieces.induct with
  | case1 => exact Nat.le_refl _
  | case2 u => exact halone u
  | case3 u v us h ih =>
      have hpair := hchar (pair u v)
      rw [pieces, if_pos h, escapeUnits, if_pos h, List.length_append, List.length_cons]
      omega
  | case4 u v us h ih =>
      have hu := halone u
      rw [pieces, if_neg h, escapeUnits, if_neg h, List.length_append, List.length_cons]
      omega

/-- A quoted string comes back. -/
theorem parseChars_renderString (s : JsString) (rest : List Char) :
    ∃ body, renderString s ++ rest = '"' :: body ∧
      parseChars (body.length + 1) body = some (s.units, rest) := by
  refine ⟨escapeUnits s.units ++ '"' :: rest, ?_, ?_⟩
  · simp [renderString]
  · refine parseChars_escape s.units _ rest ?_
    have hlen := length_le_escape s.units
    rw [List.length_append]
    omega

/-- A member name is read, with the colon after it. -/
theorem parseMembers_step {n : Nat} {k : JsString} {v : Json} {tail r : List Char}
    (hv : parseValue n tail = some (v, r)) :
    parseMembers (n + 1) (renderString k ++ ':' :: tail) =
      match after [','] (skipWs r) with
      | some r3 => (parseMembers n r3).map (fun p => ((k, v) :: p.1, p.2))
      | none => (after ['\x7d'] (skipWs r)).map (fun r4 => ([(k, v)], r4)) := by
  obtain ⟨body, hbody, hparse⟩ := parseChars_renderString k (':' :: tail)
  rw [hbody, parseMembers, skipWs_cons (by decide), after_singleton]
  simp only [Option.bind_eq_bind, Option.bind_some, hparse]
  rw [skipWs_cons (by decide), after_singleton]
  simp only [Option.bind_some, hv, JsString.ofUnits_units]
  cases after [','] (skipWs r) with
  | none => cases after ['\x7d'] (skipWs r) <;> rfl
  | some r3 =>
      dsimp only
      cases parseMembers n r3 <;> rfl

theorem parseElems_step {n : Nat} {v : Json} {cs r : List Char}
    (hv : parseValue n cs = some (v, r)) :
    parseElems (n + 1) cs =
      match after [','] (skipWs r) with
      | some r' => (parseElems n r').map (fun p => (v :: p.1, p.2))
      | none => (after [']'] (skipWs r)).map (fun r' => ([v], r')) := by
  rw [parseElems, hv]
  simp only [Option.bind_eq_bind, Option.bind_some]
  cases after [','] (skipWs r) with
  | none => cases after [']'] (skipWs r) <;> rfl
  | some r' =>
      dsimp only
      cases parseElems n r' <;> rfl

/-- Fuel for one more step. -/
theorem exists_succ {m n : Nat} (h : 1 + m ≤ n) : ∃ k, n = k + 1 ∧ m ≤ k :=
  ⟨n - 1, by omega, by omega⟩

theorem ends_elems (xs : List Json) (rest : List Char) : Ends (renderElems xs ++ rest) := by
  cases xs with
  | nil => exact ends_cons (by decide) _
  | cons x xs => exact ends_cons (by decide) _

theorem ends_members (ms : Members) (rest : List Char) :
    Ends (renderMembers ms ++ rest) := by
  cases ms with
  | nil => exact ends_cons (by decide) _
  | cons m ms => exact ends_cons (by decide) _

/-- No value starts like the end of an array. -/
theorem renderValue_head (j : Json) (rest : List Char) :
    ∃ c cs, renderValue j ++ rest = c :: cs ∧ isWs c = false ∧ c ≠ ']' := by
  cases j with
  | null => exact ⟨'n', _, rfl, by decide, by decide⟩
  | bool b =>
      cases b
      · exact ⟨'f', _, rfl, by decide, by decide⟩
      · exact ⟨'t', _, rfl, by decide, by decide⟩
  | num n =>
      obtain ⟨c, cs, hn, hc⟩ := numLit_head n
      refine ⟨c, cs ++ rest, by rw [renderValue, hn]; rfl, ?_, ?_⟩
      · rcases hc with rfl | hc
        · decide
        · by_contra hw
          simp only [isWs, Bool.not_eq_false, Bool.or_eq_true, decide_eq_true_eq] at hw
          rcases hw with ((rfl | rfl) | rfl) | rfl <;> exact absurd hc (by decide)
      · rcases hc with rfl | hc
        · decide
        · rintro rfl
          exact absurd hc (by decide)
  | str s => exact ⟨'"', _, rfl, by decide, by decide⟩
  | arr xs =>
      cases xs with
      | nil => exact ⟨'[', _, rfl, by decide, by decide⟩
      | cons x xs => exact ⟨'[', _, rfl, by decide, by decide⟩
  | obj ms =>
      cases ms with
      | nil => exact ⟨'\x7b', _, rfl, by decide, by decide⟩
      | cons m ms => exact ⟨'\x7b', _, rfl, by decide, by decide⟩

/-- Which reader a first character calls. -/
theorem parseValue_number {n : Nat} {c : Char} {cs : List Char}
    (hc : c = '-' ∨ c.isDigit = true) :
    parseValue (n + 1) (c :: cs) = parseNumber (c :: cs) := by
  have hne : ∀ d : Char, d.isDigit = false → d ≠ '-' → c ≠ d := by
    rintro d hd hm rfl
    rcases hc with h | h
    · exact hm h
    · rw [hd] at h
      exact nomatch h
  have hw : isWs c = false := by
    by_contra hw
    simp only [isWs, Bool.not_eq_false, Bool.or_eq_true, decide_eq_true_eq] at hw
    rcases hw with ((h | h) | h) | h <;> exact absurd h (hne _ (by decide) (by decide))
  rw [parseValue, skipWs_cons hw]
  dsimp only
  rw [if_neg (hne _ (by decide) (by decide)), if_neg (hne _ (by decide) (by decide)),
    if_neg (hne _ (by decide) (by decide)), if_neg (hne _ (by decide) (by decide)),
    if_neg (hne _ (by decide) (by decide)), if_neg (hne _ (by decide) (by decide))]

mutual

/-- **VALUES** come back, given the fuel. -/
theorem parseValue_render :
    ∀ (j : Json) (n : Nat) (rest : List Char), size j ≤ n → Ends rest →
      parseValue n (renderValue j ++ rest) = some (j, rest)
  | .null, n, rest, hn, hr => by
      obtain ⟨k, rfl, -⟩ := exists_succ (m := 0) hn
      simp [renderValue, parseValue, skipWs, isWs, after]
  | .bool true, n, rest, hn, hr => by
      obtain ⟨k, rfl, -⟩ := exists_succ (m := 0) hn
      simp [renderValue, parseValue, skipWs, isWs, after]
  | .bool false, n, rest, hn, hr => by
      obtain ⟨k, rfl, -⟩ := exists_succ (m := 0) hn
      simp [renderValue, parseValue, skipWs, isWs, after]
  | .num x, n, rest, hn, hr => by
      obtain ⟨k, rfl, -⟩ := exists_succ (m := 0) hn
      obtain ⟨c, cs, hx, hc⟩ := numLit_head x
      have hlit := parseNumber_lit x hr
      rw [hx, List.cons_append] at hlit
      rw [renderValue, hx, List.cons_append, parseValue_number hc, hlit]
  | .str s, n, rest, hn, hr => by
      obtain ⟨k, rfl, -⟩ := exists_succ (m := 0) hn
      obtain ⟨body, hbody, hparse⟩ := parseChars_renderString s rest
      rw [renderValue, hbody, parseValue, skipWs_cons (by decide)]
      dsimp only
      rw [if_pos rfl, hparse]
      simp
  | .arr [], n, rest, hn, hr => by
      obtain ⟨k, rfl, -⟩ := exists_succ (m := 0) hn
      simp [renderValue, parseValue, skipWs, isWs, after]
  | .arr (x :: xs), n, rest, hn, hr => by
      obtain ⟨k, rfl, hk⟩ := exists_succ hn
      have hx := parseElems_render x xs k rest hk
      obtain ⟨c, cs, hhead, hw, hne⟩ := renderValue_head x (renderElems xs ++ rest)
      rw [List.append_assoc, hhead] at hx
      rw [renderValue, List.cons_append, List.append_assoc, hhead, parseValue,
        skipWs_cons (by decide)]
      dsimp only
      rw [if_neg (by decide), if_pos rfl, skipWs_cons hw, after_ne hne]
      dsimp only
      rw [hx]
      rfl
  | .obj [], n, rest, hn, hr => by
      obtain ⟨k, rfl, -⟩ := exists_succ (m := 0) hn
      simp [renderValue, parseValue, skipWs, isWs, after]
  | .obj ((k, v) :: ms), n, rest, hn, hr => by
      obtain ⟨i, rfl, hi⟩ := exists_succ hn
      have hms := parseMembers_render k v ms i rest hi
      rw [renderValue, List.cons_append, parseValue, skipWs_cons (by decide)]
      dsimp only
      rw [if_neg (by decide), if_neg (by decide), if_pos rfl]
      have hquote : skipWs (renderString k ++ ':' :: (renderValue v ++ renderMembers ms)
          ++ rest) = '"' :: (escapeUnits k.units ++ ['"'] ++ ':' :: (renderValue v
          ++ renderMembers ms) ++ rest) := skipWs_cons (by decide) _
      rw [hquote, after_ne (by decide)]
      dsimp only
      rw [hms]
      rfl
termination_by _ n => n

theorem parseElems_render :
    ∀ (x : Json) (xs : List Json) (n : Nat) (rest : List Char),
      sizeElems (x :: xs) ≤ n →
      parseElems n (renderValue x ++ renderElems xs ++ rest) = some (x :: xs, rest)
  | x, [], n, rest, hn => by
      obtain ⟨k, rfl, hk⟩ := exists_succ (m := size x + 0) (by simpa [sizeElems] using hn)
      have hx := parseValue_render x k (renderElems [] ++ rest) hk (ends_elems [] rest)
      rw [List.append_assoc, parseElems_step hx]
      have hend : skipWs (renderElems [] ++ rest) = ']' :: rest :=
        skipWs_cons (by decide) _
      rw [hend, after_ne (by decide), after_singleton]
      rfl
  | x, y :: ys, n, rest, hn => by
      obtain ⟨k, rfl, hk⟩ := exists_succ (m := size x + sizeElems (y :: ys)) (n := n)
        (by rw [sizeElems] at hn; omega)
      have hx := parseValue_render x k (renderElems (y :: ys) ++ rest) (by omega)
        (ends_elems _ rest)
      have hys := parseElems_render y ys k rest (by omega)
      rw [List.append_assoc, parseElems_step hx]
      have hcomma : skipWs (renderElems (y :: ys) ++ rest)
          = ',' :: (renderValue y ++ renderElems ys ++ rest) := by
        rw [renderElems]
        exact skipWs_cons (by decide) _
      rw [hcomma, after_singleton]
      dsimp only
      rw [hys]
      rfl
termination_by _ _ n => n

theorem parseMembers_render :
    ∀ (k : JsString) (v : Json) (ms : Members) (n : Nat) (rest : List Char),
      sizeMembers ((k, v) :: ms) ≤ n →
      parseMembers n (renderString k ++ ':' :: (renderValue v ++ renderMembers ms) ++ rest)
        = some ((k, v) :: ms, rest)
  | k, v, [], n, rest, hn => by
      obtain ⟨i, rfl, hi⟩ := exists_succ (m := size v + 0) (by simpa [sizeMembers] using hn)
      have hv := parseValue_render v i (renderMembers [] ++ rest) hi (ends_members [] rest)
      rw [List.append_assoc, List.cons_append, List.append_assoc, parseMembers_step hv]
      have hend : skipWs (renderMembers [] ++ rest) = '\x7d' :: rest :=
        skipWs_cons (by decide) _
      rw [hend, after_ne (by decide), after_singleton]
      rfl
  | k, v, (l, w) :: ms, n, rest, hn => by
      obtain ⟨i, rfl, hi⟩ := exists_succ (m := size v + sizeMembers ((l, w) :: ms)) (n := n)
        (by rw [sizeMembers] at hn; omega)
      have hv := parseValue_render v i (renderMembers ((l, w) :: ms) ++ rest) (by omega)
        (ends_members _ rest)
      have hms := parseMembers_render l w ms i rest (by omega)
      rw [List.append_assoc, List.cons_append, List.append_assoc, parseMembers_step hv]
      have hcomma : skipWs (renderMembers ((l, w) :: ms) ++ rest)
          = ',' :: (renderString l ++ ':' :: (renderValue w ++ renderMembers ms)
            ++ rest) := by
        rw [renderMembers]
        exact skipWs_cons (by decide) _
      rw [hcomma, after_singleton]
      dsimp only
      rw [hms]
      rfl
termination_by _ _ _ n => n

end

mutual

/-- A text is long enough to be its own fuel. -/
theorem size_le_length : ∀ j : Json, size j ≤ (renderValue j).length
  | .null => by simp [size, renderValue]
  | .bool true => by simp [size, renderValue]
  | .bool false => by simp [size, renderValue]
  | .num n => by
      obtain ⟨c, cs, hn, -⟩ := numLit_head n
      simp [size, renderValue, hn]
  | .str s => by simp [size, renderValue, renderString]
  | .arr [] => by simp [size, sizeElems, renderValue]
  | .arr (x :: xs) => by
      have hx := size_le_length x
      have hxs := sizeElems_le_length xs
      simp only [size, sizeElems, renderValue, List.length_cons, List.length_append]
      omega
  | .obj [] => by simp [size, sizeMembers, renderValue]
  | .obj ((k, v) :: ms) => by
      have hv := size_le_length v
      have hms := sizeMembers_le_length ms
      simp only [size, sizeMembers, renderValue, List.length_cons, List.length_append]
      omega

theorem sizeElems_le_length : ∀ xs : List Json,
    1 + sizeElems xs ≤ (renderElems xs).length
  | [] => by simp [sizeElems, renderElems]
  | x :: xs => by
      have hx := size_le_length x
      have hxs := sizeElems_le_length xs
      simp only [sizeElems, renderElems, List.length_cons, List.length_append]
      omega

theorem sizeMembers_le_length : ∀ ms : Members,
    1 + sizeMembers ms ≤ (renderMembers ms).length
  | [] => by simp [sizeMembers, renderMembers]
  | (k, v) :: ms => by
      have hv := size_le_length v
      have hms := sizeMembers_le_length ms
      simp only [sizeMembers, renderMembers, List.length_cons, List.length_append]
      omega

end

/-- **ROUND TRIP**: reading back a written value gives the value. -/
theorem parse_render (j : Json) : parse (render j) = some j := by
  have hread := parseValue_render j ((renderValue j).length + 1) []
    ((size_le_length j).trans (Nat.le_succ _)) ends_nil
  rw [List.append_nil] at hread
  rw [parse]
  rw [render, String.toList_ofList, hread]
  rfl

/-- Distinct values have distinct texts. -/
theorem render_injective {j k : Json} (h : render j = render k) : j = k := by
  have hj := parse_render j
  rw [h, parse_render k] at hj
  exact (Option.some.inj hj).symm

/-- The body of a text is escaped character by character. -/
theorem escapeUnits_encode (cs : List Char) : escapeUnits (encode cs) = cs.flatMap escape := by
  have hone : ∀ (c : Char) (us : List UInt16),
      escapeUnits (units c ++ us) = escape c ++ escapeUnits us := by
    intro c us
    rcases units_cases c with ⟨u, hunits, hlead, htrail, hc⟩ | ⟨u, v, hunits, hu, hv, hc⟩
    · have halone : escapeAlone u = escape c := by
        rw [escapeAlone, hlead, htrail, hc]
        rfl
      rw [hunits, ← halone]
      cases us with
      | nil => exact (List.append_nil _).symm
      | cons v us =>
          show escapeUnits (u :: v :: us) = _
          rw [escapeUnits, hlead]
          rfl
    · rw [hunits, ← hc]
      show escapeUnits (u :: v :: us) = _
      rw [escapeUnits, if_pos (Bool.and_eq_true_iff.mpr ⟨hu, hv⟩)]
  induction cs with
  | nil => rfl
  | cons c cs ih =>
      show escapeUnits (units c ++ encode cs) = _
      rw [hone, ih]
      rfl

/-- Characters beyond the quote that are no backslash are written as they are. -/
theorem escape_plain {c : Char} (hlow : 35 ≤ c.toNat) (hback : c ≠ '\\') :
    escape c = [c] := by
  have hne : ∀ d : Char, d.toNat < 35 → c ≠ d := by
    rintro d hd rfl
    omega
  rw [escape]
  rw [if_neg (hne _ (by decide)), if_neg hback, if_neg (hne _ (by decide)),
    if_neg (hne _ (by decide)), if_neg (hne _ (by decide)), if_neg (hne _ (by decide)),
    if_neg (hne _ (by decide)), if_neg (by omega)]

/-! ### Whitespace between the members -/

theorem parseValue_space (n : Nat) (cs : List Char) :
    parseValue n (' ' :: cs) = parseValue n cs := by
  cases n with
  | zero => rfl
  | succ n =>
      have hskip : skipWs (' ' :: cs) = skipWs cs := by simp [skipWs, isWs]
      rw [parseValue, parseValue, hskip]

theorem parseMembers_space (n : Nat) (cs : List Char) :
    parseMembers n (' ' :: cs) = parseMembers n cs := by
  cases n with
  | zero => rfl
  | succ n =>
      have hskip : skipWs (' ' :: cs) = skipWs cs := by simp [skipWs, isWs]
      rw [parseMembers, parseMembers, hskip]

end JsonText
