import Mathlib.Tactic

/-!
# UTF-8

`String::from_utf8` accepts exactly the encodings of strings.
`String::from_utf8_lossy` replaces each maximal prefix of an ill-formed
sequence.
-/

namespace Rust

def fromUtf8 (bytes : List UInt8) : Option String := String.fromUTF8? ⟨bytes.toArray⟩

def utf8 (text : String) : List UInt8 := text.toByteArray.data.toList

theorem fromUtf8_utf8 (text : String) : fromUtf8 (utf8 text) = some text := by
  change String.fromUTF8? text.toByteArray = some text
  exact dif_pos text.isValidUTF8

def isContinuation (b : UInt8) : Bool := b &&& 0xC0 == 0x80

/-- Bytes that may follow a lead byte of three. -/
def secondOfThree (lead b : UInt8) : Bool :=
  if lead = 0xE0 then 0xA0 ≤ b && b ≤ 0xBF
  else if lead = 0xED then 0x80 ≤ b && b ≤ 0x9F
  else isContinuation b

/-- Bytes that may follow a lead byte of four. -/
def secondOfFour (lead b : UInt8) : Bool :=
  if lead = 0xF0 then 0x90 ≤ b && b ≤ 0xBF
  else if lead = 0xF4 then 0x80 ≤ b && b ≤ 0x8F
  else isContinuation b

def codePoint (lead : UInt8) (bits : Nat) (rest : List UInt8) : Char :=
  Char.ofNat <| rest.foldl (fun acc b => acc * 64 + b.toNat % 64) (lead.toNat % 2 ^ bits)

/-- The next character, and how many of the bytes after `lead` it takes. -/
def lossyStep (lead : UInt8) (bytes : List UInt8) : Char × Nat :=
  let replacement := Char.ofNat 0xFFFD
  let next (i : Nat) : UInt8 := bytes.getD i 0
  if lead < 0x80 then (Char.ofNat lead.toNat, 0)
  else if 0xC2 ≤ lead && lead ≤ 0xDF then
    if !isContinuation (next 0) then (replacement, 0)
    else (codePoint lead 5 (bytes.take 1), 1)
  else if 0xE0 ≤ lead && lead ≤ 0xEF then
    if !secondOfThree lead (next 0) then (replacement, 0)
    else if !isContinuation (next 1) then (replacement, 1)
    else (codePoint lead 4 (bytes.take 2), 2)
  else if 0xF0 ≤ lead && lead ≤ 0xF4 then
    if !secondOfFour lead (next 0) then (replacement, 0)
    else if !isContinuation (next 1) then (replacement, 1)
    else if !isContinuation (next 2) then (replacement, 2)
    else (codePoint lead 3 (bytes.take 3), 3)
  else (replacement, 0)

/-- `skip` counts bytes of the last character that are still to come. -/
def lossyChars : (skip : Nat) → List UInt8 → List Char
  | _, [] => []
  | skip + 1, _ :: bytes => lossyChars skip bytes
  | 0, lead :: bytes =>
    let (c, taken) := lossyStep lead bytes
    c :: lossyChars taken bytes

def fromUtf8Lossy (bytes : List UInt8) : String := String.ofList (lossyChars 0 bytes)

example : fromUtf8Lossy [0x61, 0xE2, 0x82, 0xAC, 0xE2, 0x82, 0x62, 0xFF] =
    String.ofList ['a', Char.ofNat 0x20AC, Char.ofNat 0xFFFD, 'b', Char.ofNat 0xFFFD] := by
  decide

/-! ### Decoding of encoded strings -/

theorem toNat_payload {n mark : Nat} (small : n + mark < 256) :
    (UInt8.ofNat (n + mark)).toNat = n + mark := by
  rw [UInt8.toNat_ofNat', Nat.mod_eq_of_lt small]

theorem isContinuation_payload (n : Nat) : isContinuation (UInt8.ofNat (n % 64 + 0x80)) = true := by
  have each : ∀ i : Fin 64, isContinuation (UInt8.ofNat (i + 0x80)) = true := by decide
  exact each ⟨n % 64, Nat.mod_lt n (by decide)⟩

section Steps

variable {lead first second third : UInt8} {rest : List UInt8}

theorem lossyStep_one (low : lead.toNat < 0x80) :
    lossyStep lead rest = (Char.ofNat lead.toNat, 0) :=
  if_pos (UInt8.lt_iff_toNat_lt.mpr low)

theorem lossyStep_two (low : 0xC2 ≤ lead.toNat) (high : lead.toNat ≤ 0xDF)
    (continues : isContinuation first = true) :
    lossyStep lead (first :: rest) = (codePoint lead 5 [first], 1) := by
  have start : ¬ lead.toNat < 0x80 := by omega
  simp [lossyStep, UInt8.lt_iff_toNat_lt, UInt8.le_iff_toNat_le, start, low, high, continues]

theorem lossyStep_three (low : 0xE0 ≤ lead.toNat) (high : lead.toNat ≤ 0xEF)
    (follows : secondOfThree lead first = true) (continues : isContinuation second = true) :
    lossyStep lead (first :: second :: rest) = (codePoint lead 4 [first, second], 2) := by
  have start : ¬ lead.toNat < 0x80 := by omega
  have two : ¬ lead.toNat ≤ 0xDF := by omega
  simp [lossyStep, UInt8.lt_iff_toNat_lt, UInt8.le_iff_toNat_le, start, two, low, high, follows,
    continues]

theorem lossyStep_four (low : 0xF0 ≤ lead.toNat) (high : lead.toNat ≤ 0xF4)
    (follows : secondOfFour lead first = true) (continues : isContinuation second = true)
    (ends : isContinuation third = true) :
    lossyStep lead (first :: second :: third :: rest) =
      (codePoint lead 3 [first, second, third], 3) := by
  have start : ¬ lead.toNat < 0x80 := by omega
  have two : ¬ lead.toNat ≤ 0xDF := by omega
  have three : ¬ lead.toNat ≤ 0xEF := by omega
  simp [lossyStep, UInt8.lt_iff_toNat_lt, UInt8.le_iff_toNat_le, start, two, three, low, high,
    follows, continues, ends]

end Steps

section Encodings

variable {v : Nat} (rest : List UInt8)

theorem lossyStep_encoding_one (small : v ≤ 0x7F) :
    lossyStep (.ofNat v) rest = (Char.ofNat v, 0) := by
  have lead : (UInt8.ofNat v).toNat = v := @toNat_payload v 0 (by omega)
  rw [lossyStep_one (by omega), lead]

theorem lossyStep_encoding_two (above : 0x7F < v) (small : v ≤ 0x7FF) :
    lossyStep (.ofNat (v / 64 % 0x20 + 0xC0)) (.ofNat (v % 0x40 + 0x80) :: rest) =
      (Char.ofNat v, 1) := by
  have lead := @toNat_payload (v / 64 % 0x20) 0xC0 (by omega)
  have last := @toNat_payload (v % 0x40) 0x80 (by omega)
  rw [lossyStep_two (by omega) (by omega) (isContinuation_payload v)]
  unfold codePoint
  simp only [List.foldl_cons, List.foldl_nil, lead, last]
  congr 2
  omega

theorem lossyStep_encoding_three (above : 0x7FF < v) (small : v ≤ 0xFFFF)
    (valid : v < 0xD800 ∨ 0xDFFF < v) :
    lossyStep (.ofNat (v / 4096 % 0x10 + 0xE0))
        (.ofNat (v / 64 % 0x40 + 0x80) :: .ofNat (v % 0x40 + 0x80) :: rest) = (Char.ofNat v, 2) := by
  have lead := @toNat_payload (v / 4096 % 0x10) 0xE0 (by omega)
  have middle := @toNat_payload (v / 64 % 0x40) 0x80 (by omega)
  have last := @toNat_payload (v % 0x40) 0x80 (by omega)
  -- no overlong encoding, and no surrogate
  have follows : secondOfThree (.ofNat (v / 4096 % 0x10 + 0xE0)) (.ofNat (v / 64 % 0x40 + 0x80)) =
      true := by
    unfold secondOfThree
    simp only [← UInt8.toNat_inj, UInt8.le_iff_toNat_le, lead, middle, UInt8.reduceToNat]
    split
    · simp only [Bool.and_eq_true, decide_eq_true_eq]
      omega
    split
    · simp only [Bool.and_eq_true, decide_eq_true_eq]
      omega
    · exact isContinuation_payload _
  rw [lossyStep_three (by omega) (by omega) follows (isContinuation_payload v)]
  unfold codePoint
  simp only [List.foldl_cons, List.foldl_nil, lead, middle, last]
  congr 2
  omega

theorem lossyStep_encoding_four (above : 0xFFFF < v) (small : v < 0x110000) :
    lossyStep (.ofNat (v / 262144 % 0x08 + 0xF0))
        (.ofNat (v / 4096 % 0x40 + 0x80) :: .ofNat (v / 64 % 0x40 + 0x80) ::
          .ofNat (v % 0x40 + 0x80) :: rest) = (Char.ofNat v, 3) := by
  have lead := @toNat_payload (v / 262144 % 0x08) 0xF0 (by omega)
  have high := @toNat_payload (v / 4096 % 0x40) 0x80 (by omega)
  have middle := @toNat_payload (v / 64 % 0x40) 0x80 (by omega)
  have last := @toNat_payload (v % 0x40) 0x80 (by omega)
  -- no overlong encoding, and nothing above the last code point
  have follows : secondOfFour (.ofNat (v / 262144 % 0x08 + 0xF0)) (.ofNat (v / 4096 % 0x40 + 0x80)) =
      true := by
    unfold secondOfFour
    simp only [← UInt8.toNat_inj, UInt8.le_iff_toNat_le, lead, high, UInt8.reduceToNat]
    split
    · simp only [Bool.and_eq_true, decide_eq_true_eq]
      omega
    split
    · simp only [Bool.and_eq_true, decide_eq_true_eq]
      omega
    · exact isContinuation_payload _
  rw [lossyStep_four (by omega) (by omega) follows (isContinuation_payload _)
    (isContinuation_payload v)]
  unfold codePoint
  simp only [List.foldl_cons, List.foldl_nil, lead, high, middle, last]
  congr 2
  omega

end Encodings

/-- The bytes of a character are decoded to it, whatever follows them. -/
theorem lossyStep_encodeChar (c : Char) (rest : List UInt8) :
    ∃ lead bytes, String.utf8EncodeChar c = lead :: bytes ∧
      lossyStep lead (bytes ++ rest) = (c, bytes.length) := by
  have valid : c.val.toNat < 0xD800 ∨ 0xDFFF < c.val.toNat ∧ c.val.toNat < 0x110000 := c.valid
  have self : Char.ofNat c.val.toNat = c := Char.ofNat_toNat c
  unfold String.utf8EncodeChar
  dsimp only
  generalize c.val.toNat = v at valid self ⊢
  subst self
  split
  · next small => exact ⟨_, _, rfl, lossyStep_encoding_one rest small⟩
  split
  · next above small => exact ⟨_, _, rfl, lossyStep_encoding_two rest (by omega) small⟩
  split
  · next above small =>
    exact ⟨_, _, rfl, lossyStep_encoding_three rest (by omega) small (by omega)⟩
  · next above => exact ⟨_, _, rfl, lossyStep_encoding_four rest (by omega) (by omega)⟩

theorem lossyChars_skip (bytes rest : List UInt8) :
    lossyChars bytes.length (bytes ++ rest) = lossyChars 0 rest := by
  induction bytes with
  | nil => rfl
  | cons byte bytes ih => exact ih

theorem lossyChars_encodeChars (chars : List Char) :
    lossyChars 0 (chars.flatMap String.utf8EncodeChar) = chars := by
  induction chars with
  | nil => rfl
  | cons c chars ih =>
    obtain ⟨lead, bytes, encoded, decoded⟩ :=
      lossyStep_encodeChar c (chars.flatMap String.utf8EncodeChar)
    rw [List.flatMap_cons, encoded, List.cons_append, lossyChars, decoded]
    dsimp only
    rw [lossyChars_skip, ih]

theorem fromUtf8Lossy_utf8 (text : String) : fromUtf8Lossy (utf8 text) = text := by
  have bytes : utf8 text = text.toList.flatMap String.utf8EncodeChar := by
    rw [utf8, ← String.utf8Encode_toList, List.utf8Encode, List.toList_data_toByteArray]
  rw [fromUtf8Lossy, bytes, lossyChars_encodeChars, String.ofList_toList]

end Rust
