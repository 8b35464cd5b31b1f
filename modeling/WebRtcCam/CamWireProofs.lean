import Mathlib.Logic.Function.Basic
import WebRtcCam.JsonTextProofs

/-! # The signaling wire format, as each end reads it

    Three descriptions of one format: the Rust `Message` struct with its derived
    decoder (`signaling/src/main.rs`), the welcome text the server writes, and
    the type guards of `types/signaling.ts` that the page dispatches on.

    The browser reads and writes texts with `JSON.parse` and `JSON.stringify`, here
    `JsonText.parse` and `JsonText.render`.  The server's `serde_json::from_str` is a
    parameter wherever it occurs; `from_str` is the decoder by the book. -/

namespace CamWire

open Utf16 JsonText

/-- A JavaScript value that came out of `JSON.parse`, or `undefined`. -/
abbrev Js := Option Json

/-- Truthiness of a JavaScript value: `undefined`, `null`, `false`, zero and
    the empty string are falsy. -/
def truthy : Js → Bool
  | none => false
  | some .null => false
  | some (.bool b) => b
  | some (.num n) => !n.isZero
  | some (.str s) => s ≠ .text ""
  | some (.arr _) => true
  | some (.obj _) => true

@[simp] theorem truthy_null : truthy (some .null) = false := rfl

@[simp] theorem truthy_str (s : String) :
    truthy (some (.str s)) = true ↔ s ≠ "" := by
  simp [truthy]

/-! ## The Rust side -/

/-- `struct Message`. -/
structure Message where
  «from» : String
  «to» : String
  sdp : Option Json
  candidate : Option Json
  deriving DecidableEq

/-- A `String` field: no surrogate in it may be alone. -/
def stringField : Json → Option String
  | .str s => s.text?
  | _ => none

/-- An `Option<Value>` field: `null` is `None`, and the strings in a value are such as
    `String` can hold. -/
def valueField : Json → Option (Option Json)
  | .null => some none
  | v => if v.isText then some (some v) else none

/-- The fields seen so far by the derived `visit_map`. -/
structure Fields where
  «from» : Option String
  «to» : Option String
  sdp : Option (Option Json)
  candidate : Option (Option Json)

/-- One member of `visit_map`: a name that is a text, a known field at most once and of
    its type, any other member ignored, whatever is in it. -/
def visitMember (f : Fields) (m : JsString × Json) : Option Fields :=
  match m.1 with
  | .unpaired _ _ => none
  | .text k =>
      if k = "from" then
        match f.from, stringField m.2 with
        | none, some s => some { f with «from» := some s }
        | _, _ => none
      else if k = "to" then
        match f.to, stringField m.2 with
        | none, some s => some { f with «to» := some s }
        | _, _ => none
      else if k = "sdp" then
        match f.sdp, valueField m.2 with
        | none, some v => some { f with sdp := some v }
        | _, _ => none
      else if k = "candidate" then
        match f.candidate, valueField m.2 with
        | none, some v => some { f with candidate := some v }
        | _, _ => none
      else some f

/-- The derived `Deserialize`: an object with `from` and `to`, or the array of
    the four fields in order. -/
def Message.deserialize : Json → Option Message
  | .obj ms => do
      let f ← ms.foldlM visitMember ⟨none, none, none, none⟩
      let sender ← f.from
      let dest ← f.to
      pure ⟨sender, dest, f.sdp.join, f.candidate.join⟩
  | .arr [a, b, c, d] => do
      let sender ← stringField a
      let dest ← stringField b
      let sdp ← valueField c
      let candidate ← valueField d
      pure ⟨sender, dest, sdp, candidate⟩
  | _ => none

/-- `serde_json::from_str::<Message>`, by the book: an RFC 8259 text of the derived
    shape. -/
def from_str (text : String) : Option Message :=
  (parse text).bind Message.deserialize

theorem stringField_eq_some {v : Json} {s : String} (h : stringField v = some s) :
    v = .str s := by
  cases v with
  | str t =>
      cases t with
      | text t =>
          cases h
          rfl
      | unpaired t ht => cases h
  | _ => cases h

@[simp] theorem stringField_text (s : String) : stringField (.str s) = some s := rfl

theorem valueField_isText {v : Json} (h : v.isText = true) :
    valueField v = some (if v = .null then none else some v) := by
  cases v with
  | null => rfl
  | _ => simp [valueField, h]

/-- A member named `from` is read once, as a string; no other touches the sender. -/
theorem visitMember_from {f g : Fields} {k : JsString} {v : Json}
    (h : visitMember f (k, v) = some g) :
    (k = .text "from" ∧ f.from = none ∧ ∃ s : String, v = .str s ∧ g.from = some s) ∨
      (k ≠ .text "from" ∧ g.from = f.from) := by
  cases k with
  | unpaired k hk => cases h
  | text k =>
      rw [visitMember] at h
      dsimp only at h
      split at h
      · next hk =>
          refine Or.inl ⟨congrArg _ hk, ?_⟩
          split at h
          · next hf hs =>
              cases h
              exact ⟨hf, _, stringField_eq_some hs, rfl⟩
          · cases h
      · next hk =>
          refine Or.inr ⟨fun hno => hk (JsString.text.inj hno), ?_⟩
          repeat' split at h
          all_goals cases h
          all_goals rfl

/-- The sender the decoder has read is the member a property access finds. -/
theorem visitMembers_from {ms : Members} :
    ∀ {f g : Fields}, ms.foldlM visitMember f = some g →
      (g.from = f.from ∧ lookup "from" ms = none) ∨
        (f.from = none ∧ ∃ s : String, lookup "from" ms = some (.str s) ∧
          g.from = some s) := by
  induction ms with
  | nil =>
      intro f g h
      cases h
      exact Or.inl ⟨rfl, rfl⟩
  | cons kv ms ih =>
      intro f g h
      obtain ⟨k, v⟩ := kv
      obtain ⟨f₁, hvisit, hrest⟩ := Option.bind_eq_some_iff.mp h
      have hcons : lookup "from" ((k, v) :: ms)
          = (lookup "from" ms).or (lookup "from" [(k, v)]) := lookup_append "from" [(k, v)] ms
      rcases visitMember_from hvisit with ⟨rfl, hf, s, rfl, hf₁⟩ | ⟨hk, hf₁⟩
      · rcases ih hrest with ⟨hg, hnone⟩ | ⟨hnone, -⟩
        · refine Or.inr ⟨hf, s, ?_, hg.trans hf₁⟩
          rw [hcons, hnone, Option.none_or]
          rfl
        · rw [hf₁] at hnone
          cases hnone
      · rcases ih hrest with ⟨hg, hnone⟩ | ⟨hnone, s, hs, hg⟩
        · refine Or.inl ⟨hg.trans hf₁, ?_⟩
          rw [hcons, hnone, Option.none_or]
          exact if_neg hk
        · refine Or.inr ⟨hf₁.symm.trans hnone, s, ?_, hg⟩
          rw [hcons, hs, Option.some_or]

/-- **THE SENDER OF WHAT IS ACCEPTED** is a string, or, in an array, none at all. -/
theorem deserialize_from {j : Json} {m : Message} (h : Message.deserialize j = some m) :
    j.get "from" = some (.str m.from) ∨ j.get "from" = none := by
  cases j with
  | obj ms =>
      obtain ⟨g, hg, h⟩ := Option.bind_eq_some_iff.mp h
      obtain ⟨sender, hsender, h⟩ := Option.bind_eq_some_iff.mp h
      obtain ⟨dest, -, h⟩ := Option.bind_eq_some_iff.mp h
      cases h
      rcases visitMembers_from hg with ⟨hfrom, -⟩ | ⟨-, s, hs, hfrom⟩
      · rw [hsender] at hfrom
        cases hfrom
      · rw [hsender] at hfrom
        cases hfrom
        exact Or.inl hs
  | _ => exact Or.inr rfl

/-- The text `started` writes: `{"type": "welcome", "id": "<id>"}`. -/
def welcomeText (id : String) : String :=
  "\x7b\"type\": \"welcome\", \"id\": \"" ++ id ++ "\"\x7d"

/-- The message that text is. -/
def welcomeJson (id : String) : Json := .obj [("type", .str "welcome"), ("id", .str id)]

/-- What `Uuid::new_v4().to_string()` is made of: hexadecimal digits and
    hyphens, and at least one of them. -/
def isUuid (id : String) : Bool :=
  id ≠ "" && id.toList.all (fun c => c.isDigit || ('a' ≤ c && c ≤ 'f') || c = '-')

/-! ## The TypeScript side -/

/-- `message.type === t`. -/
def hasType (t : String) (message : Json) : Bool :=
  message.get "type" = some (.str t)

/-- `isWelcomeMessage`. -/
def isWelcomeMessage (message : Json) : Bool := hasType "welcome" message

/-- `isSDPMessage`. -/
def isSDPMessage (message : Json) : Bool :=
  hasType "offer" message || hasType "answer" message

/-- `isICECandidateMessage`. -/
def isICECandidateMessage (message : Json) : Bool := hasType "candidate" message

/-- The guards exclude each other. -/
theorem hasType_inj {t u : String} {j : Json} (ht : hasType t j = true)
    (hu : hasType u j = true) : t = u := by
  simp only [hasType, decide_eq_true_eq] at ht hu
  rw [ht] at hu
  simpa using hu

theorem not_sdp_of_welcome {j : Json} (h : isWelcomeMessage j = true) :
    isSDPMessage j = false := by
  by_contra hs
  have hs' : isSDPMessage j = true := by simpa using hs
  rcases Bool.or_eq_true_iff.mp hs' with ho | ha
  · exact absurd (hasType_inj h ho) (by decide)
  · exact absurd (hasType_inj h ha) (by decide)

/-- Nothing in a session id needs escaping. -/
theorem uuid_plain {id : String} (h : isUuid id = true) :
    renderString id = '"' :: (id.toList ++ ['"']) := by
  have hall : ∀ c ∈ id.toList, escape c = [c] := by
    intro c hc
    have hu := List.all_eq_true.mp (Bool.and_eq_true_iff.mp h).2 c hc
    simp only [Bool.or_eq_true, Bool.and_eq_true, decide_eq_true_eq, Char.isDigit,
      Char.le_def, ge_iff_le, UInt32.le_iff_toNat_le] at hu
    refine escape_plain ?_ ?_
    · rcases hu with (⟨h₁, -⟩ | ⟨h₁, -⟩) | rfl
      · exact Nat.le_trans (by decide) h₁
      · exact Nat.le_trans (by decide) h₁
      · decide
    · rintro rfl
      rcases hu with (⟨-, h₁⟩ | ⟨h₁, -⟩) | h₁
      · exact absurd h₁ (by decide)
      · exact absurd h₁ (by decide)
      · exact nomatch h₁
  have hbody : id.toList.flatMap escape = id.toList := by
    rw [List.flatMap_def, List.map_congr_left hall, ← List.flatMap_def]
    exact List.flatMap_singleton' _
  rw [renderString, JsString.units, escapeUnits_encode, hbody]

/-- The welcome text, spelled out: a blank after each colon and comma. -/
theorem welcomeText_toList {id : String} (h : isUuid id = true) :
    (welcomeText id).toList
      = '\x7b' :: (renderString "type" ++ ':' :: ' ' :: (renderString "welcome" ++ ',' ::
        ' ' :: (renderString "id" ++ ':' :: ' ' :: (renderString id ++ ['\x7d'])))) := by
  have hhead : ("\x7b\"type\": \"welcome\", \"id\": \"" : String).toList
      = '\x7b' :: (renderString "type" ++ ':' :: ' ' :: (renderString "welcome" ++ ',' ::
        ' ' :: (renderString "id" ++ [':', ' ', '"']))) := by decide +kernel
  have hlast : ("\"\x7d" : String).toList = ['"', '\x7d'] := by decide +kernel
  have happ : (welcomeText id).toList
      = ("\x7b\"type\": \"welcome\", \"id\": \"" : String).toList
        ++ id.toList ++ ("\"\x7d" : String).toList := by
    unfold welcomeText
    simp only [String.toList_append]
  rw [hhead, hlast] at happ
  rw [happ, uuid_plain h]
  simp only [List.append_assoc, List.cons_append, List.nil_append]

/-- **THE WELCOME** is read as what it says. -/
theorem parse_welcome {id : String} (h : isUuid id = true) :
    parse (welcomeText id) = some (welcomeJson id) := by
  have hread : ∀ n, parseMembers (n + 3) (renderString "type" ++ ':' :: ' ' ::
      (renderString "welcome" ++ ',' :: ' ' :: (renderString "id" ++ ':' :: ' ' ::
        (renderString id ++ ['\x7d']))))
      = some ([(.text "type", .str "welcome"), (.text "id", .str id)], []) := by
    intro n
    have hstr : ∀ (t : String) (k : Nat) (rest : List Char), Ends rest →
        parseValue (k + 1) (' ' :: (renderString t ++ rest)) = some (.str t, rest) := by
      intro t k rest hr
      rw [parseValue_space]
      exact parseValue_render (.str t) (k + 1) rest (Nat.le_add_left _ _) hr
    rw [parseMembers_step (hstr "welcome" _ _ (ends_cons (by decide) _)),
      skipWs_cons (by decide), after_singleton]
    dsimp only
    rw [parseMembers_space,
      parseMembers_step (hstr id _ _ (ends_cons (by decide) _)), skipWs_cons (by decide),
      after_ne (by decide), after_singleton]
    rfl
  rw [parse]
  rw [welcomeText_toList h]
  generalize hrest : renderString "type" ++ ':' :: ' ' :: (renderString "welcome" ++ ',' ::
    ' ' :: (renderString "id" ++ ':' :: ' ' :: (renderString id ++ ['\x7d']))) = rest
    at hread ⊢
  have hlen : 3 ≤ rest.length := by
    rw [← hrest]
    simp only [List.length_append, List.length_cons]
    omega
  have hquote : ∃ cs, rest = '"' :: cs := ⟨_, hrest.symm⟩
  obtain ⟨cs, hcs⟩ := hquote
  obtain ⟨n, hn⟩ : ∃ n, rest.length = n + 3 := ⟨rest.length - 3, by omega⟩
  have hval : parseValue (('\x7b' :: rest).length + 1) ('\x7b' :: rest)
      = some (welcomeJson id, []) := by
    rw [parseValue, skipWs_cons (by decide)]
    dsimp only
    rw [if_neg (by decide), if_neg (by decide), if_pos rfl, List.length_cons, hn]
    have hskip : skipWs rest = '"' :: cs := by rw [hcs]; exact skipWs_cons (by decide) _
    rw [hskip, after_ne (by decide)]
    dsimp only
    rw [hread (n + 1)]
    rfl
  rw [hval]
  rfl

end CamWire
