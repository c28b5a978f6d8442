import AnotherPs4.Rust.Word

/-!
# Address types and alignment

Virtual and physical addresses and sizes are 64-bit words.
-/

namespace AnotherPs4

open Rust

variable {ε : Type}

def pageSize : Nat := 16 * 1024

/-- Documented as the limit of 40 bits. -/
def maxGpuAddress : Nat := 0x1000000000

def systemManagedSize : Nat := 512 * 1024 * 1024

def systemReservedSize : Nat := 3232 * 1024 * 1024

def userSize : Nat := 128 * 1024 * 1024 * 1024

def alignUp (p : Profile) (value alignment : Nat) : Outcome ε Nat := do
  let mask ← p.sub 64 alignment 1
  let raised ← p.add 64 value mask
  return raised &&& complement 64 mask

def alignDown (p : Profile) (value alignment : Nat) : Outcome ε Nat := do
  let mask ← p.sub 64 alignment 1
  return value &&& complement 64 mask

def isAligned (p : Profile) (value alignment : Nat) : Outcome ε Bool := do
  let mask ← p.sub 64 alignment 1
  return value &&& mask == 0

theorem isAligned_two_pow (p : Profile) (value k : Nat) :
    (isAligned p value (2 ^ k) : Outcome ε Bool) = .ok (decide (2 ^ k ∣ value)) := by
  rw [isAligned, Profile.sub_of_le Nat.one_le_two_pow, Outcome.ok_bind,
    Nat.and_two_pow_sub_one_eq_mod]
  exact congrArg _ (decide_eq_decide.mpr (Nat.dvd_iff_mod_eq_zero ..).symm)

theorem isAligned_page (p : Profile) (value : Nat) :
    (isAligned p value pageSize : Outcome ε Bool) = .ok (decide (pageSize ∣ value)) :=
  isAligned_two_pow p value 14

theorem alignDown_two_pow (p : Profile) {value k : Nat} (hk : k ≤ 64) (word : value < 2 ^ 64) :
    (alignDown p value (2 ^ k) : Outcome ε Nat) = .ok (roundDown value (2 ^ k)) := by
  rw [alignDown, Profile.sub_of_le Nat.one_le_two_pow, Outcome.ok_bind, roundDown,
    land_complement_low word hk]
  rfl

/-- With overflow checks, the mask rounds or the sum panics, whatever the alignment. -/
theorem alignUp_dev_mask (value : Nat) {alignment : Nat} (positive : 1 ≤ alignment) :
    (alignUp .dev value alignment : Outcome ε Nat) =
      if value + (alignment - 1) < 2 ^ 64 then .ok (maskUp 64 value alignment)
      else .panic .overflow := by
  rw [alignUp, Profile.sub_of_le positive, Outcome.ok_bind, Profile.add_dev]
  split <;> rfl

theorem alignUp_two_pow {p : Profile} {value k : Nat} (hk : k ≤ 64)
    (fits : value + (2 ^ k - 1) < 2 ^ 64) :
    (alignUp p value (2 ^ k) : Outcome ε Nat) = .ok (roundUp value (2 ^ k)) := by
  rw [← maskUp_two_pow hk fits, alignUp, Profile.sub_of_le Nat.one_le_two_pow, Outcome.ok_bind,
    Profile.add_of_lt fits]
  rfl

theorem alignUp_page {p : Profile} {value : Nat} (fits : value + (pageSize - 1) < 2 ^ 64) :
    (alignUp p value pageSize : Outcome ε Nat) = .ok (roundUp value pageSize) :=
  alignUp_two_pow (k := 14) (by omega) fits

theorem alignUp_eq_ok {p : Profile} {value k aligned : Nat} (hk : k ≤ 64)
    (returned : (alignUp p value (2 ^ k) : Outcome ε Nat) = .ok aligned) :
    aligned = roundDown ((value + (2 ^ k - 1)) % 2 ^ 64) (2 ^ k) := by
  rw [alignUp, Profile.sub_of_le Nat.one_le_two_pow, Outcome.ok_bind,
    Outcome.bind_eq_ok] at returned
  obtain ⟨raised, added, masked⟩ := returned
  cases masked
  rw [Profile.add_eq_ok added]
  exact land_complement_low (Nat.mod_lt _ (Nat.two_pow_pos 64)) hk

theorem pageSize_pos : 0 < pageSize := by decide

example : (alignUp .dev 100 pageSize : Outcome Empty Nat) = .ok pageSize := by decide

end AnotherPs4
