import AnotherPs4.Linker.Ram
import AnotherPs4.Rust.Outcome

/-!
# Patching system calls

The patch turns `SYSCALL`, which is `0F 05`, into `UD2`, which is `0F 0B`. The
bytes it writes start no pair, so the scan changes exactly the second bytes of
the pairs that were there before.
-/

namespace AnotherPs4

open Rust

namespace Ram

def IsSyscall (ram : Ram) (addr : Nat) : Prop := ram addr = 0x0F ∧ ram (addr + 1) = 0x05

def IsUd2 (ram : Ram) (addr : Nat) : Prop := ram addr = 0x0F ∧ ram (addr + 1) = 0x0B

instance (ram : Ram) (addr : Nat) : Decidable (ram.IsSyscall addr) :=
  inferInstanceAs (Decidable (_ ∧ _))

instance (ram : Ram) (addr : Nat) : Decidable (ram.IsUd2 addr) :=
  inferInstanceAs (Decidable (_ ∧ _))

end Ram

/-- The scan from `offset` on, up to `last`. -/
def patchSyscallsFrom (p : Profile) (memoryBase last offset : Nat) (ram : Ram)
    (patchedCount : Nat) : Outcome Empty (Ram × Nat) :=
  if offset < last then
    if ram.IsSyscall (memoryBase + offset) then do
      let patchedCount ← p.add 32 patchedCount 1
      patchSyscallsFrom p memoryBase last (offset + 1)
        (ram.write (memoryBase + offset + 1) [0x0B]) patchedCount
    else patchSyscallsFrom p memoryBase last (offset + 1) ram patchedCount
  else .ok (ram, patchedCount)
termination_by last - offset

/-- The memory after the patch, and the number of instructions it replaced. -/
def patchSyscalls (p : Profile) (memoryBase size : Nat) (ram : Ram) :
    Outcome Empty (Ram × Nat) := do
  let last ← p.sub 64 size 1
  patchSyscallsFrom p memoryBase last 0 ram 0

namespace Ram

def patched (ram : Ram) (base size : Nat) : Ram := fun x =>
  if base < x ∧ x < base + size ∧ ram.IsSyscall (x - 1) then 0x0B else ram x

def syscallsFrom (ram : Ram) (base last offset : Nat) : Nat :=
  (List.range' offset (last - offset)).countP fun k => ram.IsSyscall (base + k)

def syscallCount (ram : Ram) (base size : Nat) : Nat := ram.syscallsFrom base (size - 1) 0

variable {ram : Ram} {base size x : Nat}

theorem write_byte {dest : Nat} {byte : UInt8} (inside : dest < 2 ^ 64) (word : x < 2 ^ 64) :
    ram.write dest [byte] x = if x = dest then byte else ram x := by
  by_cases same : x = dest
  · have length : 0 < [byte].length := Nat.zero_lt_one
    rw [if_pos same, same]
    exact write_inside inside length
  · rw [if_neg same]
    exact write_outside inside word (by rw [List.length_singleton]; omega)

theorem isSyscall_write {addr : Nat} (here : ram.IsSyscall addr) (behind : addr < x)
    (word : x + 1 < 2 ^ 64) :
    (ram.write (addr + 1) [0x0B]).IsSyscall x ↔ ram.IsSyscall x := by
  unfold IsSyscall
  rw [write_byte (x := x) (by omega) (by omega), write_byte (by omega) word,
    if_neg (c := x + 1 = _) (by omega)]
  by_cases next : x = addr + 1
  · have second : ram x = 0x05 := next ▸ here.2
    rw [if_pos next, second]
    exact iff_of_false (fun both => absurd both.1 (by decide)) fun both => absurd both.1 (by decide)
  · rw [if_neg next]

theorem syscallsFrom_write {last offset : Nat} (here : ram.IsSyscall (base + offset))
    (bounded : base + last < 2 ^ 64) :
    (ram.write (base + offset + 1) [0x0B]).syscallsFrom base last (offset + 1) =
      ram.syscallsFrom base last (offset + 1) := by
  apply List.countP_congr
  intro k member
  obtain ⟨low, high⟩ := List.mem_range'_1.mp member
  simp only [decide_eq_true_eq]
  exact isSyscall_write here (by omega) (by omega)

theorem syscallCount_lt {bound : Nat} (nonempty : 0 < size) (small : size ≤ bound) :
    ram.syscallCount base size < bound := by
  have count : ram.syscallCount base size ≤ size - 1 := by
    apply List.countP_le_length.trans
    rw [List.length_range']
    omega
  omega

theorem syscallsFrom_done {last offset : Nat} (done : last ≤ offset) :
    ram.syscallsFrom base last offset = 0 := by
  unfold syscallsFrom
  rw [Nat.sub_eq_zero_of_le done]
  rfl

theorem syscallsFrom_succ {last offset : Nat} (more : offset < last) :
    ram.syscallsFrom base last offset =
      ram.syscallsFrom base last (offset + 1) + if ram.IsSyscall (base + offset) then 1 else 0 := by
  unfold syscallsFrom
  have steps : last - offset = (last - (offset + 1)) + 1 := by omega
  rw [steps, List.range'_succ, List.countP_cons]
  simp only [decide_eq_true_eq]

end Ram

theorem patchSyscallsFrom_eq_ok {p : Profile} {memoryBase last offset patchedCount : Nat}
    {ram : Ram} {result : Ram × Nat} (bounded : memoryBase + last < 2 ^ 64)
    (returned : patchSyscallsFrom p memoryBase last offset ram patchedCount = .ok result)
    {x : Nat} (word : x < 2 ^ 64) :
    result.1 x = if memoryBase + offset < x ∧ x ≤ memoryBase + last ∧ ram.IsSyscall (x - 1)
      then 0x0B else ram x := by
  induction offset, ram, patchedCount using patchSyscallsFrom.induct memoryBase last with
  | case1 offset ram patchedCount more here ih =>
    rw [patchSyscallsFrom, if_pos more, if_pos here] at returned
    obtain ⟨count, -, returned⟩ := Outcome.bind_eq_ok.mp returned
    rw [ih count returned, Ram.write_byte (by omega) word]
    rcases Nat.lt_trichotomy x (memoryBase + offset + 1) with before | same | behind
    · rw [if_neg (by omega), if_neg (by omega), if_neg (by omega)]
    · have first : x - 1 = memoryBase + offset := by omega
      rw [if_neg (by omega), if_pos same, if_pos ⟨by omega, by omega, first ▸ here⟩]
    · have kept := Ram.isSyscall_write here (x := x - 1) (by omega) (by omega)
      rw [if_neg (c := x = _) (by omega)]
      exact if_congr (and_congr (by omega) (and_congr_right' kept)) rfl rfl
  | case2 offset ram patchedCount more other ih =>
    rw [patchSyscallsFrom, if_pos more, if_neg other] at returned
    rw [ih returned]
    refine if_congr ⟨fun ⟨_, rest⟩ => ⟨by omega, rest⟩, fun ⟨above, rest⟩ => ⟨?_, rest⟩⟩ rfl rfl
    by_contra first
    have same : x - 1 = memoryBase + offset := by omega
    exact other (same ▸ rest.2)
  | case3 offset ram patchedCount done =>
    rw [patchSyscallsFrom, if_neg done] at returned
    cases returned
    exact (if_neg (by omega)).symm

theorem patchSyscallsFrom_count {p : Profile} {memoryBase last offset patchedCount : Nat}
    {ram : Ram} {result : Ram × Nat} (bounded : memoryBase + last < 2 ^ 64)
    (small : patchedCount < 2 ^ 32)
    (returned : patchSyscallsFrom p memoryBase last offset ram patchedCount = .ok result) :
    result.2 = (patchedCount + ram.syscallsFrom memoryBase last offset) % 2 ^ 32 := by
  induction offset, ram, patchedCount using patchSyscallsFrom.induct memoryBase last with
  | case1 offset ram patchedCount more here ih =>
    rw [patchSyscallsFrom, if_pos more, if_pos here] at returned
    obtain ⟨count, added, returned⟩ := Outcome.bind_eq_ok.mp returned
    have next : count = (patchedCount + 1) % 2 ^ 32 := Profile.add_eq_ok added
    rw [ih count (by omega) returned, Ram.syscallsFrom_write here bounded,
      Ram.syscallsFrom_succ more, if_pos here]
    omega
  | case2 offset ram patchedCount more other ih =>
    rw [patchSyscallsFrom, if_pos more, if_neg other] at returned
    rw [ih small returned, Ram.syscallsFrom_succ more, if_neg other]
    rfl
  | case3 offset ram patchedCount done =>
    rw [patchSyscallsFrom, if_neg done] at returned
    cases returned
    rw [Ram.syscallsFrom_done (Nat.le_of_not_lt done), Nat.add_zero, Nat.mod_eq_of_lt small]

/-- Only the count of the replaced instructions can stop the scan. -/
theorem patchSyscallsFrom_returns {p : Profile} {memoryBase last offset patchedCount : Nat}
    {ram : Ram} (bounded : memoryBase + last < 2 ^ 64) (small : patchedCount < 2 ^ 32) :
    (patchSyscallsFrom p memoryBase last offset ram patchedCount).Returns ↔
      (p = .dev → patchedCount + ram.syscallsFrom memoryBase last offset < 2 ^ 32) := by
  induction offset, ram, patchedCount using patchSyscallsFrom.induct memoryBase last with
  | case1 offset ram patchedCount more here ih =>
    rw [patchSyscallsFrom, if_pos more, if_pos here, Ram.syscallsFrom_succ more, if_pos here]
    cases p with
    | release =>
      rw [Profile.add_release, Outcome.ok_bind, ih _ (Nat.mod_lt _ (Nat.two_pow_pos 32))]
      exact iff_of_true nofun nofun
    | dev =>
      rw [Profile.add_dev]
      by_cases fits : patchedCount + 1 < 2 ^ 32
      · rw [if_pos fits, Outcome.ok_bind, ih _ fits, Ram.syscallsFrom_write here bounded,
          Nat.add_right_comm, Nat.add_assoc]
      · rw [if_neg fits]
        apply iff_of_false (Outcome.not_returns_panic _)
        intro all
        have := all rfl
        omega
  | case2 offset ram patchedCount more other ih =>
    rw [patchSyscallsFrom, if_pos more, if_neg other, ih small, Ram.syscallsFrom_succ more,
      if_neg other]
    exact Iff.rfl
  | case3 offset ram patchedCount done =>
    rw [patchSyscallsFrom, if_neg done]
    have none : ram.syscallsFrom memoryBase _ offset = 0 :=
      Ram.syscallsFrom_done (Nat.le_of_not_lt done)
    exact iff_of_true (Outcome.returns_ok _) fun _ => by omega

section Whole

variable {p : Profile} {memoryBase size : Nat} {ram : Ram} (nonempty : 0 < size)
  (bounded : memoryBase + size ≤ 2 ^ 64)

include nonempty bounded

/-- The patch changes exactly the second bytes of the pairs in the range. -/
theorem patchSyscalls_eq_ok {result : Ram × Nat}
    (returned : patchSyscalls p memoryBase size ram = .ok result) {x : Nat} (word : x < 2 ^ 64) :
    result.1 x = ram.patched memoryBase size x := by
  rw [patchSyscalls, Profile.sub_of_le nonempty, Outcome.ok_bind] at returned
  rw [patchSyscallsFrom_eq_ok (by omega) returned word]
  exact if_congr (and_congr (by omega) (and_congr_left' (by omega))) rfl rfl

theorem patchSyscalls_count {result : Ram × Nat}
    (returned : patchSyscalls p memoryBase size ram = .ok result) :
    result.2 = ram.syscallCount memoryBase size % 2 ^ 32 := by
  rw [patchSyscalls, Profile.sub_of_le nonempty, Outcome.ok_bind] at returned
  rw [patchSyscallsFrom_count (by omega) (Nat.two_pow_pos 32) returned, Nat.zero_add]
  rfl

theorem patchSyscalls_returns : (patchSyscalls p memoryBase size ram).Returns ↔
    (p = .dev → ram.syscallCount memoryBase size < 2 ^ 32) := by
  rw [patchSyscalls, Profile.sub_of_le nonempty, Outcome.ok_bind,
    patchSyscallsFrom_returns (by omega) (Nat.two_pow_pos 32), Nat.zero_add]
  rfl

end Whole

namespace Ram

variable {ram : Ram} {base size x : Nat}

theorem patched_first : ram.patched base size x = 0x0F ↔ ram x = 0x0F := by
  unfold patched
  split
  · next changed =>
    obtain ⟨above, -, -, second⟩ := changed
    rw [Nat.sub_add_cancel (by omega)] at second
    rw [second]
    decide
  · rfl

theorem patched_second : ram.patched base size (x + 1) =
    if base < x + 1 ∧ x + 1 < base + size ∧ ram.IsSyscall x then 0x0B else ram (x + 1) := by
  unfold patched
  rw [Nat.add_sub_cancel]

theorem patched_isUd2 : (ram.patched base size).IsUd2 x ↔
    ram.IsUd2 x ∨ ram.IsSyscall x ∧ base ≤ x ∧ x + 1 < base + size := by
  unfold IsUd2
  rw [patched_first, patched_second]
  by_cases changed : base < x + 1 ∧ x + 1 < base + size ∧ ram.IsSyscall x
  · rw [if_pos changed]
    exact iff_of_true ⟨changed.2.2.1, rfl⟩ (.inr ⟨changed.2.2, by omega, changed.2.1⟩)
  · rw [if_neg changed]
    refine ⟨.inl, fun now => now.resolve_right fun ⟨pair, low, high⟩ => ?_⟩
    exact changed ⟨by omega, high, pair⟩

/-- The pairs that are left lie outside the range, or across its end. -/
theorem patched_isSyscall : (ram.patched base size).IsSyscall x ↔
    ram.IsSyscall x ∧ ¬ (base ≤ x ∧ x + 1 < base + size) := by
  conv_lhs => unfold IsSyscall
  rw [patched_first, patched_second]
  by_cases changed : base < x + 1 ∧ x + 1 < base + size ∧ ram.IsSyscall x
  · rw [if_pos changed]
    exact iff_of_false (fun both => absurd both.2 (by decide))
      fun both => both.2 ⟨by omega, changed.2.1⟩
  · rw [if_neg changed]
    refine ⟨fun pair => ⟨pair, fun inside => ?_⟩, And.left⟩
    exact changed ⟨by omega, inside.2, pair⟩

theorem patched_ne : ram.patched base size x ≠ ram x ↔
    base < x ∧ x < base + size ∧ ram.IsSyscall (x - 1) := by
  unfold patched
  split
  · next changed =>
    have second := changed.2.2.2
    rw [Nat.sub_add_cancel (by omega)] at second
    rw [second]
    exact iff_of_true (by decide) changed
  · next unchanged => exact iff_of_false (fun ne => ne rfl) unchanged

end Ram

end AnotherPs4
