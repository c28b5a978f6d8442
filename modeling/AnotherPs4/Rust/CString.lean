import Mathlib.Tactic

/-!
# C strings

A string in memory is what a stream of bytes holds before its first NUL. The
stream is the memory from some address on.
-/

namespace Rust

def firstBytes (stream : Nat → UInt8) (n : Nat) : List UInt8 := (List.range n).map stream

@[simp] theorem length_firstBytes (stream : Nat → UInt8) (n : Nat) :
    (firstBytes stream n).length = n := by
  simp [firstBytes]

@[simp] theorem getElem_firstBytes {stream : Nat → UInt8} {n k : Nat}
    (inside : k < (firstBytes stream n).length) : (firstBytes stream n)[k] = stream k := by
  simp [firstBytes]

theorem firstBytes_succ (stream : Nat → UInt8) (n : Nat) :
    firstBytes stream (n + 1) = firstBytes stream n ++ [stream n] := by
  simp [firstBytes, List.range_succ]

theorem firstBytes_succ' (stream : Nat → UInt8) (n : Nat) :
    firstBytes stream (n + 1) = stream 0 :: firstBytes (fun k => stream (k + 1)) n := by
  simp [firstBytes, List.range_succ_eq_map, Function.comp_def]

@[simp] theorem firstBytes_zero (stream : Nat → UInt8) : firstBytes stream 0 = [] := rfl

@[simp] theorem firstBytes_one (stream : Nat → UInt8) : firstBytes stream 1 = [stream 0] := rfl

theorem firstBytes_congr {stream other : Nat → UInt8} {n : Nat}
    (same : ∀ k < n, stream k = other k) : firstBytes stream n = firstBytes other n :=
  List.map_congr_left fun k member => same k (List.mem_range.mp member)

/-- The stream holds the text and a NUL behind it. -/
structure HoldsText (stream : Nat → UInt8) (text : List UInt8) : Prop where
  bytes : ∀ k (inside : k < text.length), stream k = text[k]
  ended : stream text.length = 0
  nulFree : 0 ∉ text

namespace HoldsText

variable {stream other : Nat → UInt8} {text : List UInt8}

theorem nil (ended : stream 0 = 0) : HoldsText stream [] := ⟨nofun, ended, nofun⟩

theorem cons_iff {byte : UInt8} : HoldsText stream (byte :: text) ↔
    stream 0 = byte ∧ byte ≠ 0 ∧ HoldsText (fun k => stream (k + 1)) text := by
  constructor
  · intro holds
    have nonzero := List.ne_of_not_mem_cons holds.nulFree
    refine ⟨holds.bytes 0 (by simp), nonzero.symm, fun k inside => ?_, holds.ended,
      List.not_mem_of_not_mem_cons holds.nulFree⟩
    exact holds.bytes (k + 1) (by simpa using inside)
  · rintro ⟨first, nonzero, rest⟩
    refine ⟨fun k inside => ?_, rest.ended, by simp [nonzero.symm, rest.nulFree]⟩
    cases k with
    | zero => exact first
    | succ k => exact rest.bytes k (by simpa using inside)

theorem ne_zero (holds : HoldsText stream text) {k : Nat} (inside : k < text.length) :
    stream k ≠ 0 := by
  rw [holds.bytes k inside]
  exact fun zero => holds.nulFree (zero ▸ List.getElem_mem inside)

theorem isLeast (holds : HoldsText stream text) :
    IsLeast { k | stream k = 0 } text.length := by
  refine ⟨holds.ended, fun k zero => ?_⟩
  by_contra before
  exact holds.ne_zero (not_le.mp before) zero

theorem firstBytes_eq (holds : HoldsText stream text) {n : Nat} (le : n ≤ text.length) :
    firstBytes stream n = text.take n := by
  have length : (firstBytes stream n).length = (text.take n).length := by
    rw [length_firstBytes, List.length_take, Nat.min_eq_left le]
  apply List.ext_getElem length
  intro k inside _
  rw [getElem_firstBytes, List.getElem_take]
  rw [length_firstBytes] at inside
  exact holds.bytes k (inside.trans_le le)

theorem unique {text' : List UInt8} (holds : HoldsText stream text)
    (holds' : HoldsText stream text') : text = text' := by
  have length := holds.isLeast.unique holds'.isLeast
  apply List.ext_getElem length
  intro k inside inside'
  rw [← holds.bytes k inside, ← holds'.bytes k inside']

theorem congr (holds : HoldsText stream text) (same : ∀ k ≤ text.length, other k = stream k) :
    HoldsText other text where
  bytes k inside := (same k inside.le).trans (holds.bytes k inside)
  ended := (same _ le_rfl).trans holds.ended
  nulFree := holds.nulFree

end HoldsText

def scanText : (fuel : Nat) → (Nat → UInt8) → Option (List UInt8)
  | 0, _ => none
  | fuel + 1, stream =>
    if stream 0 = 0 then some []
    else (scanText fuel fun k => stream (k + 1)).map (stream 0 :: ·)

theorem scanText_eq_some_iff {fuel : Nat} {stream : Nat → UInt8} {text : List UInt8} :
    scanText fuel stream = some text ↔ HoldsText stream text ∧ text.length < fuel := by
  induction fuel generalizing stream text with
  | zero => simp [scanText]
  | succ fuel inductionHypothesis =>
    by_cases ended : stream 0 = 0
    · rw [scanText, if_pos ended, Option.some.injEq]
      constructor
      · rintro rfl
        exact ⟨.nil ended, Nat.succ_pos fuel⟩
      · exact fun ⟨holds, _⟩ => (HoldsText.nil ended).unique holds
    · rw [scanText, if_neg ended, Option.map_eq_some_iff]
      constructor
      · rintro ⟨rest, scanned, rfl⟩
        obtain ⟨holds, short⟩ := inductionHypothesis.mp scanned
        exact ⟨HoldsText.cons_iff.mpr ⟨rfl, ended, holds⟩, Nat.succ_lt_succ short⟩
      · rintro ⟨holds, short⟩
        cases text with
        | nil => exact absurd holds.ended ended
        | cons byte rest =>
          obtain ⟨rfl, -, holds⟩ := HoldsText.cons_iff.mp holds
          exact ⟨rest, inductionHypothesis.mpr ⟨holds, Nat.lt_of_succ_lt_succ short⟩, rfl⟩

/-- The bytes up to and with the first NUL, or all of them. -/
def throughNul : List UInt8 → List UInt8
  | [] => []
  | byte :: rest => if byte = 0 then [byte] else byte :: throughNul rest

@[simp] theorem throughNul_singleton (byte : UInt8) : throughNul [byte] = [byte] := by
  rw [throughNul]
  split <;> rfl

theorem throughNul_of_nulFree {bytes : List UInt8} (nulFree : 0 ∉ bytes) :
    throughNul bytes = bytes := by
  induction bytes with
  | nil => rfl
  | cons byte rest inductionHypothesis =>
    rw [throughNul, if_neg (List.ne_of_not_mem_cons nulFree).symm,
      inductionHypothesis (List.not_mem_of_not_mem_cons nulFree)]

theorem HoldsText.throughNul {stream : Nat → UInt8} {text : List UInt8}
    (holds : HoldsText stream text) {n : Nat} (long : text.length < n) :
    Rust.throughNul (firstBytes stream n) = text ++ [0] := by
  induction text generalizing stream n with
  | nil =>
    obtain ⟨n, rfl⟩ := Nat.exists_eq_add_one_of_ne_zero (Nat.ne_zero_of_lt long)
    have ended : stream 0 = 0 := holds.ended
    rw [firstBytes_succ', Rust.throughNul, if_pos ended, ended]
    rfl
  | cons byte text inductionHypothesis =>
    obtain ⟨n, rfl⟩ := Nat.exists_eq_add_one_of_ne_zero (Nat.ne_zero_of_lt long)
    obtain ⟨rfl, nonzero, holds⟩ := HoldsText.cons_iff.mp holds
    rw [firstBytes_succ', Rust.throughNul, if_neg nonzero,
      inductionHypothesis holds (Nat.lt_of_succ_lt_succ long)]
    rfl

end Rust
