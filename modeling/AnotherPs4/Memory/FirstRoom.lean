import AnotherPs4.Memory.Fragmentation
import AnotherPs4.Memory.LiveAreas

/-!
# The first room

A request that leaves the address to the manager goes to the lowest page with
room in one free area, if the host maps it there. A second request that needs
no less room goes behind the first.
-/

namespace AnotherPs4

open Rust RangeMap

/-- The first room from `start` on is at `addr`, and the host maps there. -/
def Host.MapsFirst (host : Host) (mm : MemoryManager) (start size addr : Nat) : Prop :=
  IsLeast {x | start ≤ x ∧ mm.RoomAt x size} addr ∧ host.mmapFixed addr size false = true

namespace MemoryManager

variable {mm : MemoryManager}

theorem RoomAt.shorter {addr size shorter : Nat} (room : mm.RoomAt addr size)
    (le : shorter ≤ size) : mm.RoomAt addr shorter := by
  obtain ⟨page, a, ⟨k, vma, stored, ⟨low, high⟩, same⟩, isFree⟩ := room
  exact ⟨page, a, ⟨k, vma, stored, ⟨low, le_trans (Nat.add_le_add_left le addr) high⟩, same⟩, isFree⟩

theorem isLeast_room (wf : mm.vmaMap.WellFormed) {size : Nat} {vma : VirtualMemoryArea}
    (stored : mm.vmaMap[vma.base]? = some vma) (room : HasRoom size vma)
    (lowest : ∀ other : VirtualMemoryArea, mm.vmaMap[other.base]? = some other →
      HasRoom size other → vma.base ≤ other.base) :
    IsLeast {x | 0 ≤ x ∧ mm.RoomAt x size} (roundUp vma.base pageSize) := by
  constructor
  · exact ⟨Nat.zero_le _, dvd_roundUp _ _, vma.toVMAAttributes,
      ⟨vma.base, vma, stored, ⟨le_roundUp pageSize_pos, room.2⟩, rfl⟩, room.1⟩
  · rintro x ⟨-, page, a, ⟨k, other, stored', ⟨low, high⟩, rfl⟩, isFree⟩
    obtain rfl : other.base = k := wf.separated.keyed stored'
    have first : roundUp other.base pageSize ≤ x := roundUp_le pageSize_pos page low
    have room' : HasRoom size other := ⟨isFree, le_trans (Nat.add_le_add_right first size) high⟩
    have below : vma.base ≤ x := (lowest other stored' room').trans low
    exact roundUp_le pageSize_pos page below

end MemoryManager

namespace MapRequest

variable {p : Profile} {host : Host} {mm mm' : MemoryManager} {r : MapRequest} {addr : Nat}

theorem call_iff_mapsFirst (lawful : host.Lawful) (wf : mm.vmaMap.WellFormed)
    (word : r.size < 2 ^ 64) (free : ¬ r.fixed) (plain : r.prot.contains .cpuExec = false) :
    (∃ mm', r.call p host mm = .ok (.ok addr, mm')) ↔
      host.MapsFirst mm 0 (roundUp r.size pageSize) addr := by
  constructor
  · rintro ⟨mm', returned⟩
    obtain ⟨vma, stored, room, rfl, lowest⟩ := (MemoryCall.map lawful word returned).lowest wf free
    obtain ⟨-, accepted, -⟩ := call_eq_ok lawful word returned
    rw [plain] at accepted
    exact ⟨MemoryManager.isLeast_room wf stored room lowest, accepted⟩
  · rintro ⟨least, accepted⟩
    obtain ⟨other, stored', room'⟩ := (MemoryManager.exists_roomAt_iff wf).mp ⟨addr, least.1.2⟩
    have bounded : roundUp r.size pageSize ≤ hostLimit :=
      (Nat.le_add_left _ _).trans (room'.2.trans (wf.within stored'))
    rcases MemoryManager.findFreeRegion_cases (ε := Empty) p wf bounded with
      ⟨-, none⟩ | ⟨vma, stored, room, -, lowest⟩
    · exact absurd room' (none other stored')
    have first := MemoryManager.isLeast_room wf stored room lowest
    rw [← plain, least.unique first] at accepted
    rw [least.unique first]
    exact call_of_lowest lawful wf free stored room lowest accepted

section Mapped

variable (lawful : host.Lawful) (wf : mm.vmaMap.WellFormed) (word : r.size < 2 ^ 64)
  (returned : r.call p host mm = .ok (.ok addr, mm')) (inUse : r.vmaType ≠ .free)

include lawful wf word returned inUse

theorem roomAt_after_call {x size : Nat} (nonempty : 0 < size) :
    mm'.RoomAt x size ↔
      mm.RoomAt x size ∧ (x + size ≤ addr ∨ addr + roundUp r.size pageSize ≤ x) := by
  obtain ⟨-, -, positive, bounded, replaced⟩ := call_eq_ok lawful word returned
  have spans := fun b =>
    MemoryManager.replaceVma_spans (x := x) (b := b) wf positive bounded replaced nonempty
  constructor
  · rintro ⟨page, b, found, isFree⟩
    rcases (spans b).mp found with ⟨-, rfl⟩ | ⟨old, outside⟩
    · exact absurd isFree inUse
    · exact ⟨⟨page, b, old, isFree⟩, outside⟩
  · rintro ⟨⟨page, b, old, isFree⟩, outside⟩
    exact ⟨page, b, (spans b).mpr (.inr ⟨old, outside⟩), isFree⟩

/-- What needs no less room than the mapping goes behind it. -/
theorem mapsFirst_after_call (free : ¬ r.fixed) (plain : r.prot.contains .cpuExec = false)
    {size : Nat} (longer : roundUp r.size pageSize ≤ size) (next : Host) {x : Nat} :
    next.MapsFirst mm' 0 size x ↔
      next.MapsFirst mm (addr + roundUp r.size pageSize) size x := by
  obtain ⟨-, -, positive, -⟩ := call_eq_ok lawful word returned
  have least := ((call_iff_mapsFirst lawful wf word free plain).mp ⟨mm', returned⟩).1
  have same : {x | 0 ≤ x ∧ mm'.RoomAt x size} =
      {x | addr + roundUp r.size pageSize ≤ x ∧ mm.RoomAt x size} := by
    ext y
    change 0 ≤ y ∧ mm'.RoomAt y size ↔ addr + roundUp r.size pageSize ≤ y ∧ mm.RoomAt y size
    rw [roomAt_after_call lawful wf word returned inUse (by omega)]
    constructor
    · rintro ⟨-, room, before | behind⟩
      · have above : addr ≤ y := least.2 ⟨Nat.zero_le y, room.shorter longer⟩
        omega
      · exact ⟨behind, room⟩
    · rintro ⟨behind, room⟩
      exact ⟨Nat.zero_le y, room, .inr behind⟩
  rw [Host.MapsFirst, Host.MapsFirst, same]

end Mapped

end MapRequest

end AnotherPs4
