import AnotherPs4.Common.Types

/-!
# Alignment is rounding

The alignment functions add and mask words. For an alignment that is a power of
two they round to its multiples, as long as the sum of the value and the mask is
a word.
-/

namespace AnotherPs4

open Rust

/-- The alignment functions round the words in range to the multiples of an
alignment. -/
structure TrueRounding (p : Profile) (alignment : Nat) : Prop where
  up : ∀ value, value + (alignment - 1) < 2 ^ 64 →
    ∃ up, (alignUp p value alignment : Outcome Empty Nat) = .ok up ∧
      IsLeast { m | alignment ∣ m ∧ value ≤ m } up
  down : ∀ value < 2 ^ 64,
    ∃ down, (alignDown p value alignment : Outcome Empty Nat) = .ok down ∧
      IsGreatest { m | alignment ∣ m ∧ m ≤ value } down
  aligned : ∀ value < 2 ^ 64,
    ∃ aligned, (isAligned p value alignment : Outcome Empty Bool) = .ok aligned ∧
      (aligned = true ↔ alignment ∣ value)
  aligned_iff_up : ∀ value, value + (alignment - 1) < 2 ^ 64 →
    ((isAligned p value alignment : Outcome Empty Bool) = .ok true ↔
      (alignUp p value alignment : Outcome Empty Nat) = .ok value)
  aligned_iff_down : ∀ value < 2 ^ 64,
    ((isAligned p value alignment : Outcome Empty Bool) = .ok true ↔
      (alignDown p value alignment : Outcome Empty Nat) = .ok value)
  up_mono : ∀ value other up up', value ≤ other → other + (alignment - 1) < 2 ^ 64 →
    (alignUp p value alignment : Outcome Empty Nat) = .ok up →
    (alignUp p other alignment : Outcome Empty Nat) = .ok up' → up ≤ up'
  down_mono : ∀ value other down down', value ≤ other → other < 2 ^ 64 →
    (alignDown p value alignment : Outcome Empty Nat) = .ok down →
    (alignDown p other alignment : Outcome Empty Nat) = .ok down' → down ≤ down'
  up_idempotent : ∀ value up, value + (alignment - 1) < 2 ^ 64 →
    (alignUp p value alignment : Outcome Empty Nat) = .ok up →
    (alignUp p up alignment : Outcome Empty Nat) = .ok up
  down_idempotent : ∀ value down, value < 2 ^ 64 →
    (alignDown p value alignment : Outcome Empty Nat) = .ok down →
    (alignDown p down alignment : Outcome Empty Nat) = .ok down

section PowerOfTwo

variable {p : Profile} {alignment : Nat}

/-- In range, the functions compute the rounding of the naturals. -/
structure Rounds (p : Profile) (alignment : Nat) : Prop where
  positive : 0 < alignment
  whole : alignment ∣ 2 ^ 64
  up : ∀ {value}, value + (alignment - 1) < 2 ^ 64 →
    (alignUp p value alignment : Outcome Empty Nat) = .ok (roundUp value alignment)
  down : ∀ {value}, value < 2 ^ 64 →
    (alignDown p value alignment : Outcome Empty Nat) = .ok (roundDown value alignment)
  aligned : ∀ {value},
    (isAligned p value alignment : Outcome Empty Bool) = .ok (decide (alignment ∣ value))

theorem rounds_of_isPowerOfTwo (power : alignment.isPowerOfTwo) (word : alignment < 2 ^ 64) :
    Rounds p alignment := by
  obtain ⟨k, rfl⟩ := power
  have hk : k ≤ 64 := le_of_lt ((Nat.pow_lt_pow_iff_right Nat.one_lt_two).mp word)
  exact
    { positive := Nat.two_pow_pos k
      whole := Nat.pow_dvd_pow 2 hk
      up := alignUp_two_pow hk
      down := alignDown_two_pow p hk
      aligned := isAligned_two_pow p _ k }

theorem Rounds.aligned_iff (rounds : Rounds p alignment) {value : Nat} :
    (isAligned p value alignment : Outcome Empty Bool) = .ok true ↔ alignment ∣ value := by
  rw [rounds.aligned, Outcome.ok.injEq, decide_eq_true_iff]

/-- For every power of two the masks round. -/
theorem align_trueRounding (p : Profile) (power : alignment.isPowerOfTwo)
    (word : alignment < 2 ^ 64) : TrueRounding p alignment := by
  have rounds : Rounds p alignment := rounds_of_isPowerOfTwo power word
  constructor
  case up =>
    intro value fits
    exact ⟨_, rounds.up fits, isLeast_roundUp rounds.positive value⟩
  case down =>
    intro value word
    exact ⟨_, rounds.down word, isGreatest_roundDown rounds.positive value⟩
  case aligned =>
    intro value _
    exact ⟨_, rounds.aligned, decide_eq_true_iff⟩
  case aligned_iff_up =>
    intro value fits
    rw [rounds.aligned_iff, rounds.up fits, Outcome.ok.injEq, roundUp_eq_self_iff rounds.positive]
  case aligned_iff_down =>
    intro value word
    rw [rounds.aligned_iff, rounds.down word, Outcome.ok.injEq, roundDown_eq_self_iff]
  case up_mono =>
    intro value other up up' ordered fits rounded rounded'
    have fitsBelow : value + (alignment - 1) < 2 ^ 64 :=
      lt_of_le_of_lt (Nat.add_le_add_right ordered _) fits
    rw [rounds.up fitsBelow] at rounded
    rw [rounds.up fits] at rounded'
    cases rounded
    cases rounded'
    exact roundUp_mono rounds.positive ordered
  case down_mono =>
    intro value other down down' ordered word rounded rounded'
    rw [rounds.down (lt_of_le_of_lt ordered word)] at rounded
    rw [rounds.down word] at rounded'
    cases rounded
    cases rounded'
    exact roundDown_mono rounds.positive ordered
  case up_idempotent =>
    intro value up fits rounded
    rw [rounds.up fits] at rounded
    cases rounded
    rw [rounds.up (roundUp_add_lt rounds.positive rounds.whole fits),
      roundUp_eq_self rounds.positive (dvd_roundUp value alignment)]
  case down_idempotent =>
    intro value down word rounded
    rw [rounds.down word] at rounded
    cases rounded
    have below : roundDown value alignment ≤ value :=
      (isGreatest_roundDown rounds.positive value).1.2
    rw [rounds.down (lt_of_le_of_lt below word),
      roundDown_eq_self_iff.mpr (isGreatest_roundDown rounds.positive value).1.1]

theorem align_trueRounding_page : TrueRounding .dev pageSize :=
  align_trueRounding .dev ⟨14, rfl⟩ (by decide)

end PowerOfTwo

end AnotherPs4
