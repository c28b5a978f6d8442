import AnotherPs4.Rust.Bytes
import AnotherPs4.Rust.Word

/-!
# Encodings

Byte strings at their places in a file. A record is a list of fields, each with
its width in bytes and its value, and a field that fits its width is read back
as a word. A table is read back record by record.
-/

namespace Rust

theorem leNat_leBytes {n value : Nat} (fits : value < 256 ^ n) : leNat (leBytes n value) = value := by
  induction n generalizing value with
  | zero =>
    rw [pow_zero] at fits
    exact (Nat.lt_one_iff.mp fits).symm
  | succ n ih =>
    have rest : value / 256 < 256 ^ n := Nat.div_lt_of_lt_mul (by rwa [← Nat.pow_succ'])
    have byte : (UInt8.ofNat value).toNat = value % 256 := UInt8.toNat_ofNat'
    rw [leBytes, leNat, ih rest, byte]
    exact Nat.mod_add_div value 256

theorem unsigned_lt (width : Nat) (z : Int) : unsigned width z < 2 ^ width := by
  have positive : (0 : Int) < 2 ^ width := by positivity
  have below := Int.emod_lt_of_pos z positive
  have nonneg := Int.emod_nonneg z positive.ne'
  unfold unsigned
  zify
  omega

theorem signed_unsigned {width : Nat} {z : Int} (low : -2 ^ width ≤ 2 * z) (high : 2 * z < 2 ^ width) :
    signed width (unsigned width z) = z := by
  have positive : (0 : Int) < 2 ^ width := by positivity
  have nonneg := Int.emod_nonneg z positive.ne'
  unfold signed unsigned
  rw [Int.toNat_of_nonneg nonneg]
  have modulus : ((2 ^ width : Nat) : Int) = 2 ^ width := by push_cast; rfl
  rw [← modulus, Int.emod_bmod]
  exact Int.bmod_eq_of_le_mul_two (by push_cast; omega) (by push_cast; omega)

def Holds (data : List UInt8) (pos : Nat) (bytes : List UInt8) : Prop :=
  bytesAt data pos bytes.length = bytes

instance (data : List UInt8) (pos : Nat) (bytes : List UInt8) : Decidable (Holds data pos bytes) :=
  inferInstanceAs (Decidable (_ = _))

namespace Holds

variable {data bytes more : List UInt8} {pos : Nat}

theorem bytesAt_eq (holds : Holds data pos bytes) : bytesAt data pos bytes.length = bytes := holds

theorem fits (holds : Holds data pos bytes) : bytes = [] ∨ pos + bytes.length ≤ data.length := by
  have length := congrArg List.length holds.bytesAt_eq
  rw [bytesAt, List.length_take, List.length_drop] at length
  rw [← List.length_eq_zero_iff]
  omega

theorem append : Holds data pos (bytes ++ more) ↔
    Holds data pos bytes ∧ Holds data (pos + bytes.length) more := by
  have split : bytesAt data pos (bytes ++ more).length =
      bytesAt data pos bytes.length ++ bytesAt data (pos + bytes.length) more.length := by
    rw [List.length_append, bytesAt, List.take_add, List.drop_drop]
    rfl
  constructor
  · intro holds
    have inside : (bytesAt data pos bytes.length).length = bytes.length := by
      have fits := holds.fits
      rw [List.append_eq_nil_iff, List.length_append] at fits
      refine length_bytesAt (fits.imp (fun empty => ?_) (by omega))
      rw [empty.1, List.length_nil]
    exact List.append_inj (split.symm.trans holds.bytesAt_eq) inside
  · rintro ⟨first, second⟩
    exact split.trans (congrArg₂ _ first.bytesAt_eq second.bytesAt_eq)

theorem word_eq {n value : Nat} (holds : Holds data pos (leBytes n value)) (fits : value < 256 ^ n) :
    word data pos n = value := by
  have bytes := holds.bytesAt_eq
  rw [length_leBytes] at bytes
  rw [word, bytes, leNat_leBytes fits]

theorem within {part : List UInt8} {off : Nat} (holds : Holds data pos bytes)
    (inner : Holds bytes off part) : Holds data (pos + off) part := by
  have outer : (data.drop pos).take bytes.length = bytes := holds
  have taken : (bytes.drop off).take part.length = part := inner
  have room : part.length ≤ bytes.length - off := by
    have short := congrArg List.length taken
    rw [List.length_take, List.length_drop] at short
    omega
  rw [← outer, List.drop_take, List.drop_drop, List.take_take, Nat.min_eq_left room] at taken
  exact taken

theorem record {α : Type} {encode : α → List UInt8} {size : Nat} {records : List α} {record : α}
    {i : Nat} (sized : ∀ record, (encode record).length = size)
    (holds : Holds data pos (records.flatMap encode)) (found : records[i]? = some record) :
    Holds data (pos + i * size) (encode record) := by
  induction records generalizing pos i with
  | nil => cases found
  | cons first records inductionHypothesis =>
    rw [List.flatMap_cons, append, sized] at holds
    cases i with
    | zero =>
      cases found
      rw [Nat.zero_mul]
      exact holds.1
    | succ i =>
      rw [Nat.add_one_mul, Nat.add_comm (i * size), ← Nat.add_assoc]
      exact inductionHypothesis holds.2 found

theorem table {α : Type} {encode : α → List UInt8} {decode : List UInt8 → Nat → α} {size : Nat}
    {records : List α} (sized : ∀ record, (encode record).length = size)
    (decodes : ∀ record ∈ records, ∀ pos, Holds data pos (encode record) → decode data pos = record)
    (holds : Holds data pos (records.flatMap encode)) :
    (List.range records.length).map (fun i => decode data (pos + i * size)) = records := by
  induction records generalizing pos with
  | nil => rfl
  | cons record records inductionHypothesis =>
    rw [List.flatMap_cons, append, sized] at holds
    have rest := inductionHypothesis (fun other member => decodes other (.tail _ member)) holds.2
    rw [List.length_cons, List.range_succ_eq_map, List.map_cons, List.map_map, Nat.zero_mul,
      Nat.add_zero, decodes record (.head _) pos holds.1]
    refine congrArg (record :: ·) (Eq.trans (List.map_congr_left fun i _ => ?_) rest)
    rw [Function.comp, Nat.succ_eq_add_one, Nat.add_one_mul, Nat.add_assoc, Nat.add_comm size]

theorem table_fits {α : Type} {encode : α → List UInt8} {size : Nat} {records : List α}
    (sized : ∀ record, (encode record).length = size) (holds : Holds data pos (records.flatMap encode)) :
    records.length * size = 0 ∨ pos + records.length * size ≤ data.length := by
  have length : (records.flatMap encode).length = records.length * size := by
    simp [List.length_flatMap, sized]
  have inside := holds.fits
  rwa [← List.length_eq_zero_iff, length] at inside

theorem nulTerminated {text : List UInt8} (holds : Holds data pos (text ++ [0])) (nulFree : 0 ∉ text) :
    0 ∈ data.drop pos ∧ (data.drop pos).takeWhile (· ≠ 0) = text := by
  have split : data.drop pos = text ++ 0 :: (data.drop pos).drop (text ++ [0]).length := by
    have taken : (data.drop pos).take (text ++ [0]).length = text ++ [0] := holds
    have whole := List.take_append_drop (text ++ [0]).length (data.drop pos)
    rw [taken, List.append_assoc, List.singleton_append] at whole
    exact whole.symm
  rw [split]
  refine ⟨by simp, ?_⟩
  have nonNull : ∀ byte ∈ text, decide (byte ≠ 0) = true := fun byte member =>
    decide_eq_true fun nul => nulFree (nul ▸ member)
  rw [List.takeWhile_append_of_pos nonNull]
  simp

end Holds

/-! ### Fields -/

def encodeFields (fields : List (Nat × Nat)) : List UInt8 :=
  fields.flatMap fun field => leBytes field.1 field.2

def FieldsFit (fields : List (Nat × Nat)) : Prop := ∀ field ∈ fields, field.2 < 256 ^ field.1

instance (fields : List (Nat × Nat)) : Decidable (FieldsFit fields) :=
  inferInstanceAs (Decidable (∀ field ∈ fields, _))

def FieldsAt (data : List UInt8) : Nat → List (Nat × Nat) → Prop
  | _, [] => True
  | pos, (width, value) :: fields => word data pos width = value ∧ FieldsAt data (pos + width) fields

theorem length_encodeFields (fields : List (Nat × Nat)) :
    (encodeFields fields).length = (fields.map Prod.fst).sum := by
  simp [encodeFields, List.length_flatMap]

theorem Holds.fieldsAt {data : List UInt8} {pos : Nat} {fields : List (Nat × Nat)}
    (holds : Holds data pos (encodeFields fields)) (fit : FieldsFit fields) :
    FieldsAt data pos fields := by
  induction fields generalizing pos with
  | nil => trivial
  | cons field fields inductionHypothesis =>
    obtain ⟨width, value⟩ := field
    obtain ⟨first, rest⟩ := Holds.append.mp holds
    rw [length_leBytes] at rest
    exact ⟨first.word_eq (fit _ (.head _)),
      inductionHypothesis rest fun other member => fit other (.tail _ member)⟩

end Rust
