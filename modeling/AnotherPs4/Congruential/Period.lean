import Mathlib.Algebra.BigOperators.Intervals
import Mathlib.Data.Finset.Dedup
import Mathlib.Data.Nat.ModEq
import Mathlib.Tactic

/-!
# Linear congruential generators

Modulo a power of two a generator runs through all its states if its increment
is odd and its factor is one more than a multiple of four. Its high bits are
then balanced over each period.
-/

namespace Congruential

open Finset

def step (a c k x : Nat) : Nat := (x * a + c) % 2 ^ k

section Sum

variable {a : Nat} (four : a % 4 = 1)

include four

theorem one_add_pow (m : Nat) : ∃ q, 1 + a ^ m = 2 * (2 * q + 1) := by
  have remainder : a ^ m % 4 = 1 := by rw [Nat.pow_mod, four, Nat.one_pow]
  exact ⟨a ^ m / 4, by omega⟩

/-- The sum of the powers below `n` has the factors 2 that `n` has. -/
theorem two_pow_dvd_sum_iff (k n : Nat) : 2 ^ k ∣ ∑ i ∈ range n, a ^ i ↔ 2 ^ k ∣ n := by
  induction k generalizing n with
  | zero => simp
  | succ k inductionHypothesis =>
    obtain ⟨m, rfl | rfl⟩ := Nat.even_or_odd' n
    · obtain ⟨q, twice⟩ := one_add_pow four m
      have halves : ∑ i ∈ range (2 * m), a ^ i = 2 * ((∑ i ∈ range m, a ^ i) * (2 * q + 1)) := by
        rw [two_mul, sum_range_add]
        simp only [pow_add, ← mul_sum]
        calc (∑ i ∈ range m, a ^ i) + a ^ m * ∑ i ∈ range m, a ^ i
            = (∑ i ∈ range m, a ^ i) * (1 + a ^ m) := by ring
          _ = 2 * ((∑ i ∈ range m, a ^ i) * (2 * q + 1)) := by rw [twice]; ring
      have coprime : Nat.Coprime (2 ^ k) (2 * q + 1) :=
        Nat.Coprime.pow_left k (by rw [Nat.coprime_two_left]; exact ⟨q, rfl⟩)
      rw [halves, pow_succ', Nat.mul_dvd_mul_iff_left two_pos, Nat.mul_dvd_mul_iff_left two_pos,
        coprime.dvd_mul_right, inductionHypothesis]
    · have odd : (∑ i ∈ range (2 * m + 1), a ^ i) % 2 = 1 := by
        have each : ∀ i, a ^ i % 2 = 1 := fun i => by
          rw [Nat.pow_mod, (by omega : a % 2 = 1), Nat.one_pow]
        rw [sum_nat_mod, sum_congr rfl fun i _ => each i, sum_const, card_range, smul_eq_mul]
        omega
      have even : 2 ∣ 2 ^ (k + 1) := ⟨2 ^ k, by rw [pow_succ']⟩
      refine iff_of_false (fun divides => ?_) (fun divides => ?_)
      · have := even.trans divides
        omega
      · have := even.trans divides
        omega

end Sum

section Orbit

variable {a c k x : Nat}

theorem step_lt (a c k x : Nat) : step a c k x < 2 ^ k := Nat.mod_lt _ (Nat.two_pow_pos k)

theorem iterate_lt (small : x < 2 ^ k) (n : Nat) : (step a c k)^[n] x < 2 ^ k := by
  cases n with
  | zero => exact small
  | succ n =>
    rw [Function.iterate_succ_apply']
    exact step_lt a c k _

theorem iterate_modEq (n : Nat) :
    (step a c k)^[n] x ≡ a ^ n * x + c * ∑ i ∈ range n, a ^ i [MOD 2 ^ k] := by
  induction n with
  | zero => simp [Nat.ModEq]
  | succ n inductionHypothesis =>
    have geometric : ∑ i ∈ range (n + 1), a ^ i = a * (∑ i ∈ range n, a ^ i) + 1 := by
      rw [sum_range_succ', pow_zero, mul_sum]
      simp only [pow_succ']
    have next : a ^ (n + 1) * x + c * ∑ i ∈ range (n + 1), a ^ i =
        (a ^ n * x + c * ∑ i ∈ range n, a ^ i) * a + c := by
      rw [geometric]
      ring
    rw [Function.iterate_succ_apply', step, next]
    exact (Nat.mod_modEq _ _).trans ((inductionHypothesis.mul_right a).add_right c)

variable (four : a % 4 = 1) (odd : c % 2 = 1)

include four

theorem iterate_shift (n : Nat) :
    (step a c k)^[n] x ≡ x + (∑ i ∈ range n, a ^ i) * (4 * (a / 4) * x + c) [MOD 2 ^ k] := by
  have power : a ^ n = 4 * (a / 4) * (∑ i ∈ range n, a ^ i) + 1 := by
    have factor : a = 4 * (a / 4) + 1 := by omega
    induction n with
    | zero => simp
    | succ n inductionHypothesis =>
      rw [sum_range_succ, pow_succ, mul_add, add_right_comm, ← inductionHypothesis]
      calc a ^ n * a = a ^ n * (4 * (a / 4) + 1) := by rw [← factor]
        _ = a ^ n + 4 * (a / 4) * a ^ n := by ring
  have same : x + (∑ i ∈ range n, a ^ i) * (4 * (a / 4) * x + c) =
      a ^ n * x + c * ∑ i ∈ range n, a ^ i := by
    rw [power]
    ring
  rw [same]
  exact iterate_modEq n

include odd

theorem iterate_eq_iff (small : x < 2 ^ k) (n : Nat) : (step a c k)^[n] x = x ↔ 2 ^ k ∣ n := by
  have coprime : Nat.Coprime (2 ^ k) (4 * (a / 4) * x + c) := by
    apply Nat.Coprime.pow_left k
    rw [Nat.coprime_two_left, Nat.odd_iff, mul_assoc]
    omega
  have moved := iterate_shift (c := c) (k := k) (x := x) four n
  rw [← two_pow_dvd_sum_iff four, ← coprime.dvd_mul_right, ← Nat.add_modEq_left_iff]
  constructor
  · intro same
    rw [same] at moved
    exact moved.symm
  · intro same
    exact (moved.trans same).eq_of_lt_of_lt (iterate_lt small n) small

/-- Over one period the generator takes each state once. -/
theorem orbit_perm (small : x < 2 ^ k) :
    ((List.range (2 ^ k)).map fun n => (step a c k)^[n] x).Perm (List.range (2 ^ k)) := by
  have injective : ∀ i < 2 ^ k, ∀ j < 2 ^ k, (step a c k)^[i] x = (step a c k)^[j] x → i ≤ j →
      i = j := by
    intro i _ j inside same le
    obtain ⟨d, rfl⟩ := Nat.exists_eq_add_of_le le
    rw [Nat.add_comm, Function.iterate_add_apply] at same
    have divides := (iterate_eq_iff four odd (iterate_lt small i) d).mp same.symm
    have zero : d = 0 := Nat.eq_zero_of_dvd_of_lt divides (by omega)
    omega
  have nodup : ((List.range (2 ^ k)).map fun n => (step a c k)^[n] x).Nodup := by
    apply List.nodup_range.map_on
    intro i member j member' same
    rw [List.mem_range] at member member'
    rcases Nat.le_total i j with le | le
    · exact injective i member j member' same le
    · exact (injective j member' i member same.symm le).symm
  refine (List.subperm_of_subset nodup fun y member => ?_).perm_of_length_le (by simp)
  obtain ⟨n, -, rfl⟩ := List.mem_map.mp member
  exact List.mem_range.mpr (iterate_lt small n)

end Orbit

/-! ### High bits -/

theorem count_div (b d v : Nat) (inside : v < d) :
    ((List.range (b * d)).map (· / b)).count v = b := by
  have outside : ∀ d ≤ v, ((List.range (b * d)).map (· / b)).count v = 0 := by
    intro d le
    apply List.count_eq_zero.mpr
    intro member
    obtain ⟨x, below, same⟩ := List.mem_map.mp member
    have := Nat.div_lt_of_lt_mul (List.mem_range.mp below)
    omega
  induction d with
  | zero => exact absurd inside (Nat.not_lt_zero v)
  | succ d inductionHypothesis =>
    have last : ((List.range b).map (b * d + ·)).map (· / b) = List.replicate b d := by
      refine List.eq_replicate_iff.mpr ⟨by simp, fun quotient member => ?_⟩
      obtain ⟨_, shifted, rfl⟩ := List.mem_map.mp member
      obtain ⟨i, below, rfl⟩ := List.mem_map.mp shifted
      have small := List.mem_range.mp below
      rw [Nat.mul_add_div (by omega), Nat.div_eq_of_lt small, Nat.add_zero]
    rw [Nat.mul_succ, List.range_add, List.map_append, List.count_append, last]
    rcases Nat.lt_succ_iff_lt_or_eq.mp inside with early | rfl
    · rw [inductionHypothesis early, List.count_replicate, if_neg (by simpa using by omega),
        Nat.add_zero]
    · rw [outside v le_rfl, List.count_replicate_self, Nat.zero_add]

section HighBits

variable {a c b h x : Nat} (four : a % 4 = 1) (odd : c % 2 = 1) (small : x < 2 ^ (b + h))

include four odd small

/-- Over one period the bits above the lowest `b` take each value equally often. -/
theorem count_highBits (v : Nat) (inside : v < 2 ^ h) :
    ((List.range (2 ^ (b + h))).map fun n => (step a c (b + h))^[n] x / 2 ^ b).count v = 2 ^ b := by
  have counted := ((orbit_perm four odd small).map (· / 2 ^ b)).count_eq v
  rw [List.map_map] at counted
  apply counted.trans
  rw [pow_add]
  exact count_div (2 ^ b) (2 ^ h) v inside

/-- Half a period flips the highest bit. -/
theorem iterate_half (positive : 0 < h) :
    (step a c (b + h))^[2 ^ (b + h - 1)] x / 2 ^ b ≠ x / 2 ^ b := by
  obtain ⟨g, rfl⟩ : ∃ g, h = g + 1 := ⟨h - 1, by omega⟩
  have top : b + (g + 1) - 1 = b + g := by omega
  have double : 2 ^ (b + (g + 1)) = 2 * 2 ^ (b + g) := by rw [← pow_succ', Nat.add_assoc]
  have blocks : 2 ^ (b + g) = 2 ^ b * 2 ^ g := pow_add 2 b g
  have nonzero : 0 < 2 ^ g := Nat.two_pow_pos g
  have unit : 0 < 2 ^ b := Nat.two_pow_pos b
  have moved := iterate_shift (c := c) (k := b + (g + 1)) (x := x) four (2 ^ (b + g))
  -- the shift is an odd multiple of half the modulus
  obtain ⟨r, sum⟩ : 2 ^ (b + g) ∣ ∑ i ∈ range (2 ^ (b + g)), a ^ i :=
    (two_pow_dvd_sum_iff four _ _).mpr dvd_rfl
  have single : r % 2 = 1 := by
    by_contra even
    have divides : 2 ^ (b + (g + 1)) ∣ ∑ i ∈ range (2 ^ (b + g)), a ^ i := by
      rw [sum, double, Nat.mul_comm 2]
      exact Nat.mul_dvd_mul_left _ (by omega)
    have le := Nat.le_of_dvd (by omega) ((two_pow_dvd_sum_iff four _ _).mp divides)
    omega
  obtain ⟨q, shift⟩ : ∃ q, r * (4 * (a / 4) * x + c) = 2 * q + 1 := by
    refine ⟨r * (4 * (a / 4) * x + c) / 2, ?_⟩
    have factor : (4 * (a / 4) * x + c) % 2 = 1 := by
      rw [mul_assoc]
      omega
    have product : r * (4 * (a / 4) * x + c) % 2 = 1 := by rw [Nat.mul_mod, single, factor]
    omega
  have half : (step a c (b + (g + 1)))^[2 ^ (b + g)] x ≡ x + 2 ^ (b + g) [MOD 2 ^ (b + (g + 1))] := by
    apply moved.trans
    have whole : x + (∑ i ∈ range (2 ^ (b + g)), a ^ i) * (4 * (a / 4) * x + c) =
        x + 2 ^ (b + g) + 2 ^ (b + (g + 1)) * q := by
      rw [sum, mul_assoc, shift, double]
      ring
    rw [whole]
    exact Nat.add_modEq_left_iff.mpr (dvd_mul_right _ _)
  have below := iterate_lt (a := a) (c := c) small (2 ^ (b + g))
  rw [top]
  rw [Nat.ModEq, Nat.mod_eq_of_lt below] at half
  rw [half, double]
  rw [double] at small
  by_cases low : x < 2 ^ (b + g)
  · rw [Nat.mod_eq_of_lt (by omega), blocks, Nat.add_mul_div_left x _ unit]
    omega
  · obtain ⟨y, rfl⟩ := Nat.exists_eq_add_of_le (not_lt.mp low)
    have wrapped : (2 ^ (b + g) + y + 2 ^ (b + g)) % (2 * 2 ^ (b + g)) = y := by
      rw [show 2 ^ (b + g) + y + 2 ^ (b + g) = y + 2 * 2 ^ (b + g) by omega, Nat.add_mod_right,
        Nat.mod_eq_of_lt (by omega)]
    rw [wrapped, blocks, Nat.add_comm, Nat.add_mul_div_left y _ unit]
    omega

theorem highBits_periodic_iff (positive : 0 < h) (d : Nat) :
    Function.Periodic (fun n => (step a c (b + h))^[n] x / 2 ^ b) d ↔ 2 ^ (b + h) ∣ d := by
  have whole : ∀ {y m}, y < 2 ^ (b + h) → 2 ^ (b + h) ∣ m → (step a c (b + h))^[m] y = y :=
    fun inside => (iterate_eq_iff four odd inside _).mpr
  constructor
  · intro periodic
    by_contra other
    have nonzero : d ≠ 0 := by
      rintro rfl
      exact other (dvd_zero _)
    obtain ⟨j, _, ⟨i, rfl⟩, rfl⟩ := Nat.exists_eq_two_pow_mul_odd nonzero
    have low : j < b + h := by
      by_contra high
      exact other (Dvd.dvd.mul_right (pow_dvd_pow 2 (by omega)) _)
    -- a multiple of the period is half the modulus and some periods
    have multiple := periodic.nat_mul (2 ^ (b + h - 1 - j)) 0
    have split : 2 ^ (b + h - 1 - j) * (2 ^ j * (2 * i + 1)) =
        2 ^ (b + h - 1) + 2 ^ (b + h) * i := by
      have power : 2 ^ (b + h - 1 - j) * 2 ^ j = 2 ^ (b + h - 1) := by
        rw [← pow_add, Nat.sub_add_cancel (by omega)]
      have double : 2 ^ (b + h) = 2 * 2 ^ (b + h - 1) := by
        rw [← pow_succ', Nat.sub_add_cancel (by omega)]
      rw [← mul_assoc, power, double]
      ring
    simp only [Nat.cast_id, zero_add, split, Function.iterate_add_apply, Function.iterate_zero,
      id_eq] at multiple
    rw [whole small (dvd_mul_right _ _)] at multiple
    exact iterate_half four odd small positive multiple
  · rintro divides n
    simp only
    rw [Function.iterate_add_apply, whole small divides]

end HighBits

end Congruential
