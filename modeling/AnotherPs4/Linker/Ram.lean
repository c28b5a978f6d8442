import AnotherPs4.Rust.Encoding

/-!
# Memory cells

The emulator writes guest memory through raw pointers. A write changes exactly
the cells from its address on.
-/

namespace AnotherPs4

open Rust

/-- Contents of the host memory by address. -/
abbrev Ram := Nat → UInt8

/-- Addresses wrap around at the end of the address space. -/
def Ram.write (ram : Ram) (dest : Nat) (bytes : List UInt8) : Ram := fun addr =>
  bytes[(addr + 2 ^ 64 - dest) % 2 ^ 64]?.getD (ram addr)

def Ram.write64 (ram : Ram) (dest value : Nat) : Ram := ram.write dest (leBytes 8 value)

/-- Fresh pages hold zeros. -/
def Ram.zero (ram : Ram) (addr size : Nat) : Ram := fun x =>
  if addr ≤ x ∧ x < addr + size then 0 else ram x

def Ram.writeAll (ram : Ram) (blocks : List (Nat × List UInt8)) : Ram :=
  blocks.foldl (fun ram block => ram.write block.1 block.2) ram

namespace Ram

variable {ram : Ram} {dest x : Nat} {bytes : List UInt8}

theorem write_inside (fits : dest + bytes.length ≤ 2 ^ 64) {k : Nat} (inside : k < bytes.length) :
    ram.write dest bytes (dest + k) = bytes[k] := by
  have offset : (dest + k + 2 ^ 64 - dest) % 2 ^ 64 = k := by omega
  rw [write, offset, List.getElem?_eq_getElem inside, Option.getD_some]

theorem write_outside (fits : dest + bytes.length ≤ 2 ^ 64) (word : x < 2 ^ 64)
    (outside : ¬ (dest ≤ x ∧ x < dest + bytes.length)) : ram.write dest bytes x = ram x := by
  have beyond : bytes.length ≤ (x + 2 ^ 64 - dest) % 2 ^ 64 := by omega
  rw [write, List.getElem?_eq_none beyond, Option.getD_none]

theorem write64_outside (fits : dest + 8 ≤ 2 ^ 64) (word : x < 2 ^ 64) {value : Nat}
    (outside : ¬ (dest ≤ x ∧ x < dest + 8)) : ram.write64 dest value x = ram x :=
  write_outside (by simpa using fits) word (by simpa using outside)

theorem write_wrapped (word : dest < 2 ^ 64) {k : Nat} (inside : k < bytes.length)
    (short : bytes.length ≤ 2 ^ 64) : ram.write dest bytes ((dest + k) % 2 ^ 64) = bytes[k] := by
  have offset : ((dest + k) % 2 ^ 64 + 2 ^ 64 - dest) % 2 ^ 64 = k := by omega
  rw [write, offset, List.getElem?_eq_getElem inside, Option.getD_some]

theorem write64_other {addr : Nat} (word : x < 2 ^ 64) (destWord : addr < 2 ^ 64) {value : Nat}
    (other : ∀ l < 8, (addr + l) % 2 ^ 64 ≠ x) : ram.write64 addr value x = ram x := by
  have beyond : 8 ≤ (x + 2 ^ 64 - addr) % 2 ^ 64 := by
    by_contra near
    exact other _ (not_le.mp near) (by omega)
  rw [write64, write, List.getElem?_eq_none (by rwa [length_leBytes]), Option.getD_none]

/-- The eight cells from an address on, around the end if need be, hold a word. -/
def HoldsWord (ram : Ram) (addr value : Nat) : Prop :=
  ∀ k < 8, (leBytes 8 value)[k]? = some (ram ((addr + k) % 2 ^ 64))

theorem holdsWord_write64 (word : dest < 2 ^ 64) (value : Nat) :
    (ram.write64 dest value).HoldsWord dest value := by
  intro k inside
  rw [← length_leBytes 8 value] at inside
  rw [write64, write_wrapped word inside (by simp), List.getElem?_eq_getElem inside]

theorem HoldsWord.unique {a b : Nat} (ha : a < 2 ^ 64) (hb : b < 2 ^ 64)
    (first : ram.HoldsWord dest a) (second : ram.HoldsWord dest b) : a = b := by
  have same : leBytes 8 a = leBytes 8 b := by
    apply List.ext_getElem?
    intro k
    by_cases inside : k < 8
    · rw [first k inside, second k inside]
    · rw [List.getElem?_eq_none (by simpa using inside),
        List.getElem?_eq_none (by simpa using inside)]
  rw [← leNat_leBytes (n := 8) ha, same, leNat_leBytes hb]

theorem zero_inside {size : Nat} (inside : dest ≤ x ∧ x < dest + size) :
    ram.zero dest size x = 0 :=
  if_pos inside

theorem zero_outside {size : Nat} (outside : ¬ (dest ≤ x ∧ x < dest + size)) :
    ram.zero dest size x = ram x :=
  if_neg outside

def Holds (block : Nat × List UInt8) (x : Nat) : Prop :=
  block.1 ≤ x ∧ x < block.1 + block.2.length

section Blocks

variable {blocks : List (Nat × List UInt8)}
  (fits : ∀ block ∈ blocks, block.1 + block.2.length ≤ 2 ^ 64)

include fits

theorem writeAll_outside (word : x < 2 ^ 64) (outside : ∀ block ∈ blocks, ¬ Holds block x) :
    ram.writeAll blocks x = ram x := by
  induction blocks generalizing ram with
  | nil => rfl
  | cons block rest ih =>
    have first : ram.write block.1 block.2 x = ram x :=
      write_outside (fits block (by simp)) word (outside block (by simp))
    rw [← first]
    exact ih (fun b member => fits b (List.mem_cons_of_mem _ member))
      fun b member => outside b (List.mem_cons_of_mem _ member)

/-- A cell ends up with the byte all blocks have for it. -/
theorem writeAll_of_agree (word : x < 2 ^ 64) {byte : UInt8}
    (agree : ∀ block ∈ blocks, ∀ k, block.1 + k = x → ∀ inside : k < block.2.length,
      block.2[k] = byte)
    (covered : ram x = byte ∨ ∃ block ∈ blocks, Holds block x) : ram.writeAll blocks x = byte := by
  induction blocks generalizing ram with
  | nil =>
    exact covered.resolve_right (by simp)
  | cons first rest ih =>
    refine ih (fun b member => fits b (List.mem_cons_of_mem _ member))
      (fun b member => agree b (List.mem_cons_of_mem _ member)) ?_
    by_cases here : Holds first x
    · obtain ⟨k, rfl⟩ := Nat.exists_eq_add_of_le here.1
      have inside : k < first.2.length := Nat.lt_of_add_lt_add_left here.2
      exact .inl ((write_inside (fits first (by simp)) inside).trans
        (agree first (by simp) k rfl inside))
    · have kept : ram.write first.1 first.2 x = ram x :=
        write_outside (fits first (by simp)) word here
      dsimp only
      rw [kept]
      refine covered.imp_right fun ⟨block, member, there⟩ => ⟨block, ?_, there⟩
      rcases List.mem_cons.mp member with rfl | member
      · exact absurd there here
      · exact member

end Blocks

end Ram

end AnotherPs4
