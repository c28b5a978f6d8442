import AnotherPs4.Rust.Outcome

/-!
# Machine words

Unsigned integers are naturals below a power of two. This module has the
bitwise complement and the rounding that masks with a power-of-two alignment
perform.
-/

namespace Rust

def complement (width n : Nat) : Nat := 2 ^ width - 1 - n

theorem land_complement_low {width x k : Nat} (bounded : x < 2 ^ width) (hk : k ≤ width) :
    x &&& complement width (2 ^ k - 1) = x / 2 ^ k * 2 ^ k := by
  have small : 2 ^ k - 1 < 2 ^ width :=
    lt_of_lt_of_le (Nat.sub_lt (Nat.two_pow_pos k) Nat.one_pos) (Nat.pow_le_pow_right (by omega) hk)
  have mask : complement width (2 ^ k - 1) = 2 ^ width - (2 ^ k - 1 + 1) := by
    unfold complement
    omega
  apply Nat.eq_of_testBit_eq
  intro i
  rw [Nat.testBit_and, mask, Nat.testBit_two_pow_sub_succ small, Nat.testBit_two_pow_sub_one,
    Nat.testBit_mul_two_pow, Nat.testBit_div_two_pow]
  by_cases low : i < k
  · simp [low]
  · have shifted : i - k + k = i := by omega
    by_cases high : i < width
    · simp [low, high, shifted, Nat.le_of_not_lt low]
    · have zero : x.testBit i = false :=
        Nat.testBit_lt_two_pow (lt_of_lt_of_le bounded (Nat.pow_le_pow_right (by omega) (by omega)))
      simp [high, zero, shifted]

theorem land_add_land_complement {width x m : Nat} (word : x < 2 ^ width) (mask : m < 2 ^ width) :
    (x &&& m) + (x &&& complement width m) = x := by
  have whole : (BitVec.ofNat width x &&& BitVec.ofNat width m) +
      (BitVec.ofNat width x &&& ~~~BitVec.ofNat width m) = BitVec.ofNat width x := by
    have parts : BitVec.ofNat width x &&& BitVec.ofNat width m &&&
        (BitVec.ofNat width x &&& ~~~BitVec.ofNat width m) = BitVec.ofNat width 0 := by
      ext i
      simp only [BitVec.getElem_and, BitVec.getElem_not, BitVec.getElem_zero]
      grind
    rw [BitVec.add_eq_or_of_and_eq_zero _ _ parts]
    ext i
    simp only [BitVec.getElem_and, BitVec.getElem_or, BitVec.getElem_not]
    grind
  have sum := congrArg BitVec.toNat whole
  simp only [BitVec.toNat_add, BitVec.toNat_and, BitVec.toNat_not, BitVec.toNat_ofNat,
    Nat.mod_eq_of_lt word, Nat.mod_eq_of_lt mask] at sum
  have left : x &&& m ≤ x := Nat.and_le_left
  have right : x &&& complement width m ≤ x := Nat.and_le_left
  unfold complement at *
  by_cases wraps : (x &&& m) + (x &&& 2 ^ width - 1 - m) < 2 ^ width
  · rwa [Nat.mod_eq_of_lt wraps] at sum
  · rw [Nat.mod_eq_sub_mod (by omega), Nat.mod_eq_of_lt (by omega)] at sum
    omega

/-- Rounding by a mask. For a power of two it goes to the next multiple. -/
def maskUp (width value alignment : Nat) : Nat :=
  (value + (alignment - 1)) &&& complement width (alignment - 1)

theorem le_maskUp {width value alignment : Nat} (fits : value + (alignment - 1) < 2 ^ width) :
    value ≤ maskUp width value alignment := by
  have split := land_add_land_complement fits (lt_of_le_of_lt (Nat.le_add_left _ value) fits)
  have low : (value + (alignment - 1)) &&& (alignment - 1) ≤ alignment - 1 := Nat.and_le_right
  unfold maskUp
  omega

def roundUp (value alignment : Nat) : Nat := (value + (alignment - 1)) / alignment * alignment

theorem dvd_roundUp (value alignment : Nat) : alignment ∣ roundUp value alignment :=
  Nat.dvd_mul_left _ _

theorem le_roundUp {value alignment : Nat} (positive : 0 < alignment) :
    value ≤ roundUp value alignment := by
  have split := Nat.div_add_mod (value + (alignment - 1)) alignment
  have small := Nat.mod_lt (value + (alignment - 1)) positive
  rw [Nat.mul_comm] at split
  unfold roundUp
  omega

theorem roundUp_le {value alignment bound : Nat} (positive : 0 < alignment)
    (aligned : alignment ∣ bound) (above : value ≤ bound) : roundUp value alignment ≤ bound := by
  obtain ⟨count, rfl⟩ := aligned
  rw [roundUp, Nat.mul_comm alignment count]
  apply Nat.mul_le_mul_right _
  rw [Nat.div_le_iff_le_mul_add_pred positive]
  omega

theorem roundUp_eq_self {value alignment : Nat} (positive : 0 < alignment)
    (aligned : alignment ∣ value) : roundUp value alignment = value :=
  le_antisymm (roundUp_le positive aligned le_rfl) (le_roundUp positive)

theorem isLeast_roundUp {alignment : Nat} (positive : 0 < alignment) (value : Nat) :
    IsLeast { m | alignment ∣ m ∧ value ≤ m } (roundUp value alignment) := by
  refine ⟨⟨dvd_roundUp value alignment, le_roundUp positive⟩, ?_⟩
  rintro m ⟨aligned, above⟩
  exact roundUp_le positive aligned above

def roundDown (value alignment : Nat) : Nat := value / alignment * alignment

theorem isGreatest_roundDown {alignment : Nat} (positive : 0 < alignment) (value : Nat) :
    IsGreatest { m | alignment ∣ m ∧ m ≤ value } (roundDown value alignment) := by
  refine ⟨⟨Nat.dvd_mul_left _ _, Nat.div_mul_le_self value alignment⟩, ?_⟩
  rintro _ ⟨⟨count, rfl⟩, below⟩
  rw [roundDown, Nat.mul_comm alignment count]
  apply Nat.mul_le_mul_right _
  rw [Nat.le_div_iff_mul_le positive, Nat.mul_comm]
  exact below

section Laws

variable {alignment value other : Nat}

theorem roundUp_mono (positive : 0 < alignment) (ordered : value ≤ other) :
    roundUp value alignment ≤ roundUp other alignment := by
  apply (isLeast_roundUp positive other).mono (isLeast_roundUp positive value)
  rintro m ⟨aligned, above⟩
  exact ⟨aligned, ordered.trans above⟩

theorem roundDown_mono (positive : 0 < alignment) (ordered : value ≤ other) :
    roundDown value alignment ≤ roundDown other alignment := by
  apply (isGreatest_roundDown positive value).mono (isGreatest_roundDown positive other)
  rintro m ⟨aligned, below⟩
  exact ⟨aligned, below.trans ordered⟩

theorem roundUp_eq_self_iff (positive : 0 < alignment) :
    roundUp value alignment = value ↔ alignment ∣ value := by
  refine ⟨fun same => ?_, roundUp_eq_self positive⟩
  rw [← same]
  exact dvd_roundUp value alignment

theorem roundDown_eq_self_iff : roundDown value alignment = value ↔ alignment ∣ value := by
  refine ⟨fun same => ?_, Nat.div_mul_cancel⟩
  rw [← same]
  exact Nat.dvd_mul_left _ _

theorem roundUp_le_add (value alignment : Nat) :
    roundUp value alignment ≤ value + (alignment - 1) :=
  Nat.div_mul_le_self _ _

/-- Rounding up stays in the range in which it can be done again, since the range
ends at a multiple. -/
theorem roundUp_add_lt {bound : Nat} (positive : 0 < alignment) (whole : alignment ∣ bound)
    (fits : value + (alignment - 1) < bound) :
    roundUp value alignment + (alignment - 1) < bound := by
  obtain ⟨count, same⟩ := dvd_roundUp value alignment
  obtain ⟨total, rfl⟩ := whole
  have below : roundUp value alignment < alignment * total :=
    lt_of_le_of_lt (roundUp_le_add value alignment) fits
  rw [same] at below ⊢
  have next : alignment * (count + 1) ≤ alignment * total :=
    Nat.mul_le_mul_left _ (Nat.lt_of_mul_lt_mul_left below)
  rw [Nat.mul_add, Nat.mul_one] at next
  omega

end Laws

theorem maskUp_two_pow {width value k : Nat} (hk : k ≤ width)
    (fits : value + (2 ^ k - 1) < 2 ^ width) : maskUp width value (2 ^ k) = roundUp value (2 ^ k) :=
  land_complement_low fits hk

/-- Two's-complement reading of a word. -/
def signed (width n : Nat) : Int := Int.bmod n (2 ^ width)

/-- Two's-complement encoding of an integer. -/
def unsigned (width : Nat) (z : Int) : Nat := (z % 2 ^ width).toNat

end Rust
