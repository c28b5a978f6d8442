import AnotherPs4.Hle.DirectMemory
import AnotherPs4.Kernel.MemorySyscalls
import AnotherPs4.Memory.Fragmentation

/-!
# Two allocators of one name

The kernel's `sceKernelAllocateDirectMemory` searches the physical areas, and
its error constants are not the codes they are documented as. The export maps
pages of the user region. The guest gets the same code from both exactly where
both succeed.
-/

namespace AnotherPs4

open Rust RangeMap

theorem PhysicalMemoryManager.carveArea_new {p : Profile} {total addr size stop : Nat}
    (bounded : total < 2 ^ 64) (sum : (p.add 64 addr size : Outcome Empty Nat) = .ok stop) :
    (carveArea p (new total).areas addr size : Outcome Empty AreaMap).Returns := by
  have entries : (new total).areas.toList =
    [(0, { base := 0, size := total, memoryType := 0, dmaType := .free })] := rfl
  have stored : (new total).areas[0]? =
      some { base := 0, size := total, memoryType := 0, dmaType := .free } := rfl
  have whole : (p.add 64 0 total : Outcome Empty Nat) = .ok total := by
    rw [Profile.add_of_lt (by omega), Nat.zero_add]
  have before : (p.sub 64 addr 0 : Outcome Empty Nat) = .ok addr := Profile.sub_of_le (Nat.zero_le _)
  unfold carveArea
  by_cases inside : addr < total
  · simp only [entries, findContaining, PhysicalMemoryArea.areaEnd, Nat.zero_le, if_true, whole,
      Outcome.ok_bind, inside, stored, before, sum]
    by_cases rest : stop < total
    · have after : (p.sub 64 total stop : Outcome Empty Nat) = .ok (total - stop) :=
        Profile.sub_of_le rest.le
      by_cases above : 0 < addr <;> simp [above, rest, after]
    · by_cases above : 0 < addr <;> simp [above, rest]
  · simp [entries, findContaining, PhysicalMemoryArea.areaEnd, whole, inside]

theorem PhysicalMemoryManager.new_call_iff (p : Profile) {total : Nat} (bounded : total < 2 ^ 64)
    (r : AllocRequest) :
    (∃ addr m, r.call p (.new total) = .ok (some addr, m)) ↔
      ∃ addr stop, (alignUp p r.searchStart r.effective : Outcome Empty Nat) = .ok addr ∧
        (p.add 64 addr r.size : Outcome Empty Nat) = .ok stop ∧ stop ≤ total ∧
        stop ≤ r.searchEnd := by
  have entries : (PhysicalMemoryManager.new total).areas.toList =
    [(0, { base := 0, size := total, memoryType := 0, dmaType := .free })] := rfl
  have effective : max r.alignment pageSize = r.effective := rfl
  have whole : (p.add 64 0 total : Outcome Empty Nat) = .ok total := by
    rw [Profile.add_of_lt (by omega), Nat.zero_add]
  unfold AllocRequest.call allocate
  simp only [entries, effective, List.map_cons, List.map_nil, findFit, Nat.zero_max, ne_eq,
    not_true_eq_false, if_false, PhysicalMemoryArea.areaEnd, whole, Outcome.ok_bind, Nat.zero_le,
    ge_iff_le, if_true]
  constructor
  · rintro ⟨addr, m, returned⟩
    obtain ⟨found, searched, returned⟩ := Outcome.bind_eq_ok.mp returned
    obtain ⟨start, aligned, searched⟩ := Outcome.bind_eq_ok.mp searched
    obtain ⟨stop, sum, searched⟩ := Outcome.bind_eq_ok.mp searched
    split at searched
    next fits => exact ⟨start, stop, aligned, sum, fits⟩
    next =>
      cases searched
      cases returned
  · rintro ⟨addr, stop, aligned, sum, fits⟩
    obtain ⟨areas, carved⟩ := carveArea_new bounded sum
    simp only [aligned, sum, fits, Outcome.ok_bind, and_self, if_true, carved, Outcome.pure_eq_ok]
    exact ⟨_, _, rfl⟩

def kernelCode (p : Profile) (mm : MemoryManager) (r : DirectRequest) : Outcome Empty Nat :=
  (fun result => unsigned 32 result.1) <$> sceKernelAllocateDirectMemory p mm r

def exportCode (p : Profile) (host : Host) (mm : MemoryManager) (r : DirectRequest)
    (physAddrOut : Option Nat) : Outcome Empty Nat :=
  (fun result => result.1 % 2 ^ 32) <$> hleAllocateDirectMemory p host (initializeExports mm)
    r.searchStart r.searchEnd r.len r.alignment r.memoryType physAddrOut

namespace DirectRequest

def ValidLen (r : DirectRequest) : Prop := r.len ≠ 0 ∧ pageSize ∣ r.len

/-- An aligned block of the direct memory lies in the search window. -/
def FitsWindow (r : DirectRequest) : Prop :=
  ∃ addr, (r.alignment ≠ 0 → r.alignment ∣ addr) ∧ r.searchStart ≤ addr ∧
    addr + r.len ≤ r.searchEnd ∧ addr + r.len ≤ hleGetDirectMemorySize

def Agrees (p : Profile) (host : Host) (mm mm' : MemoryManager) (physAddrOut : Option Nat)
    (r : DirectRequest) : Prop :=
  ∃ code, exportCode p host mm r physAddrOut = .ok code ∧ kernelCode p mm' r = .ok code ∧
    (code = 0x80020016 ↔ ¬ r.ValidLen) ∧
    (code = 0x8002000C ↔ r.ValidLen ∧ hleGetDirectMemorySize < r.len) ∧
    (r.ValidLen → r.FitsWindow → code = 0)

/-- The length is valid, and the block at the rounded start of the window ends in
the window and the memory, by the sums of the build. -/
def Placeable (p : Profile) (r : DirectRequest) : Prop :=
  r.ValidLen ∧ r.len ≤ hleGetDirectMemorySize ∧ ∃ addr stop,
    (alignUp p r.searchStart (max r.alignment pageSize) : Outcome Empty Nat) = .ok addr ∧
      (p.add 64 addr r.len : Outcome Empty Nat) = .ok stop ∧ stop ≤ hleGetDirectMemorySize ∧
      stop ≤ r.searchEnd

end DirectRequest

section Codes

variable {p : Profile} {mm : MemoryManager} {r : DirectRequest}

theorem kernelCode_of_invalid (invalid : ¬ r.ValidLen) : kernelCode p mm r = .ok 0x8001FFEA := by
  have refused : r.len = 0 ∨ ¬ pageSize ∣ r.len := by
    unfold DirectRequest.ValidLen at invalid
    tauto
  rw [kernelCode, sceKernelAllocateDirectMemory_refused p mm refused]
  rfl

/-- For a valid length the code is that of the search, and never a documented error. -/
theorem kernelCode_of_valid (valid : r.ValidLen) {code : Nat} :
    kernelCode p mm r = .ok code ↔
      (code = 0 ∧ ∃ addr m, r.toAlloc.call p mm.physical = .ok (some addr, m)) ∨
        (code = 0x8001FFF4 ∧ ∃ m, r.toAlloc.call p mm.physical = .ok (none, m)) := by
  rw [kernelCode, Outcome.map_eq_ok, sceKernelAllocateDirectMemory_paged p mm valid.1 valid.2]
  simp only [Outcome.bind_eq_ok]
  constructor
  · rintro ⟨result, ⟨⟨_ | addr, m⟩, called, returned⟩, rfl⟩
    · cases returned
      exact .inr ⟨rfl, m, called⟩
    · cases returned
      exact .inl ⟨rfl, addr, m, called⟩
  · rintro (⟨rfl, addr, m, called⟩ | ⟨rfl, m, called⟩)
    · exact ⟨_, ⟨_, called, rfl⟩, rfl⟩
    · exact ⟨_, ⟨_, called, rfl⟩, rfl⟩

theorem exportCode_cases {host : Host} {physAddrOut : Option Nat} (lawful : host.Lawful)
    {code : Nat} (returned : exportCode p host mm r physAddrOut = .ok code) :
    code = 0 ∨ code = 0x8002000C := by
  obtain ⟨result, called, rfl⟩ := Outcome.map_eq_ok.mp returned
  rcases allocatePhys_cases lawful r.words.2.2.1 called with rfl | ⟨_, _, _, _, _, rfl⟩
  · exact .inr rfl
  · exact .inl rfl

end Codes

theorem MemoryManager.new_roomAt {boot : HostBoot} {mm : MemoryManager} (booted : new boot = .ok mm)
    {size : Nat} (small : size ≤ hleGetDirectMemorySize) : ∃ addr, mm.RoomAt addr size := by
  obtain ⟨-, -, -, areas⟩ := new_eq_ok booted
  let region : VirtualMemoryArea :=
    { freeAttributes with base := mm.addressSpace.userBase, size := userSize }
  have stored : mm.vmaMap[region.base]? = some region := by
    rw [areas, getElem?_insert, if_pos rfl]
  have start : roundUp region.base pageSize ≤ region.base + (pageSize - 1) :=
    roundUp_le_add _ _
  have spare : hleGetDirectMemorySize + (pageSize - 1) ≤ region.size :=
    (by decide : hleGetDirectMemorySize + (pageSize - 1) ≤ userSize)
  have low : region.base ≤ roundUp region.base pageSize := le_roundUp pageSize_pos
  have high : roundUp region.base pageSize + size ≤ region.base + region.size := by omega
  exact ⟨roundUp region.base pageSize, dvd_roundUp _ _, freeAttributes,
    ⟨region.base, region, stored, ⟨low, high⟩, rfl⟩, rfl⟩

/-- The export ignores everything but the length. -/
theorem exportCode_of_valid {p : Profile} {boot : HostBoot} (lawful : boot.Lawful)
    {mm : MemoryManager} (booted : MemoryManager.new boot = .ok mm) {host : Host}
    (answers : host.Lawful)
    (maps : ∀ addr size executable, 0 < size → mm.addressSpace.InUser addr size →
      host.mmapFixed addr size executable = true)
    {r : DirectRequest} (valid : r.ValidLen) (small : r.len ≤ hleGetDirectMemorySize)
    (physAddrOut : Option Nat) : exportCode p host mm r physAddrOut = .ok 0 := by
  obtain ⟨wf, -⟩ := MemoryManager.new_wellFormed lawful booted
  have serves := Host.serves_of_inUser wf (MemoryManager.new_freeInUser lawful booted) maps
  have rounded : roundUp r.len pageSize = r.len := roundUp_eq_self pageSize_pos valid.2
  obtain ⟨addr, mm', called⟩ :
      (MapRequest.directPhys "direct_phys" r.len).Succeeds p host mm := by
    refine (MapRequest.succeeds_iff answers wf serves r.words.2.2.1 (fun fixed => fixed.1 rfl)).mpr
      ⟨?_, ?_⟩
    · exact rounded.symm ▸ Nat.pos_of_ne_zero valid.1
    · exact rounded.symm ▸ MemoryManager.new_roomAt booted small
  rw [exportCode, hleAllocateDirectMemory, allocatePhys]
  simp only [initializeExports, called, Outcome.ok_bind]
  rfl

/-- On fresh managers the two calls agree exactly where both find their block. -/
theorem allocators_agree_iff (p : Profile) {boot boot' : HostBoot} (lawful : boot.Lawful)
    {mm mm' : MemoryManager} (booted : MemoryManager.new boot = .ok mm)
    (booted' : MemoryManager.new boot' = .ok mm') {host : Host} (answers : host.Lawful)
    (maps : ∀ addr size executable, 0 < size → mm.addressSpace.InUser addr size →
      host.mmapFixed addr size executable = true)
    (r : DirectRequest) (physAddrOut : Option Nat) :
    r.Agrees p host mm mm' physAddrOut ↔ r.Placeable p := by
  have fresh : mm'.physical = .new hleGetDirectMemorySize := (MemoryManager.new_eq_ok booted').2.2.1
  have search := PhysicalMemoryManager.new_call_iff p
    (show hleGetDirectMemorySize < 2 ^ 64 by decide) r.toAlloc
  constructor
  · rintro ⟨code, exported, called, invalid, large, -⟩
    have valid : r.ValidLen := by
      by_contra refused
      rw [kernelCode_of_invalid refused] at called
      cases called
      exact absurd (invalid.mpr refused) (by decide)
    rcases (kernelCode_of_valid valid).mp called with ⟨rfl, found⟩ | ⟨rfl, -⟩
    · refine ⟨valid, ?_, search.mp (fresh ▸ found)⟩
      by_contra above
      exact absurd (large.mpr ⟨valid, by omega⟩) (by decide)
    · rcases exportCode_cases answers exported with impossible | impossible <;> cases impossible
  · rintro ⟨valid, small, place⟩
    refine ⟨0, exportCode_of_valid lawful booted answers maps valid small physAddrOut, ?_, ?_, ?_,
      fun _ _ => rfl⟩
    · exact (kernelCode_of_valid valid).mpr (.inl ⟨rfl, fresh ▸ search.mpr place⟩)
    · exact iff_of_false (by decide) (not_not.mpr valid)
    · exact iff_of_false (by decide) fun above => absurd above.2 (by omega)

theorem Host.roomy_maps_booted (addr size : Nat) (executable : Bool) (nonempty : 0 < size)
    (inside : MemoryManager.booted.addressSpace.InUser addr size) :
    Host.roomy.mmapFixed addr size executable = true := by
  have limit : 0x1000000000 + userSize ≤ hostLimit := by decide
  exact decide_eq_true ⟨nonempty, inside.2.trans limit⟩

theorem allocators_agree_iff_onePage :
    DirectRequest.onePage.Agrees .dev .roomy .booted .booted (some 0) := by
  refine (allocators_agree_iff .dev HostBoot.low_lawful MemoryManager.new_low MemoryManager.new_low
    Host.roomy_lawful Host.roomy_maps_booted .onePage (some 0)).mpr ?_
  exact ⟨⟨by decide, by decide⟩, by decide, 0, 0x4000, by decide, by decide, by decide, by decide⟩

def DirectRequest.empty : DirectRequest := { DirectRequest.onePage with len := 0, words := by decide }

def DirectRequest.noWindow : DirectRequest :=
  { DirectRequest.onePage with searchEnd := 0, words := by decide }

/-- No bytes: two different errors, neither of them the documented one. No
window: an error of the kernel and a block of the export. -/
theorem allocators_disagree :
    ∃ mm, MemoryManager.new .low = .ok mm ∧
      exportCode .dev .roomy mm .empty (some 0) = .ok 0x8002000C ∧
      kernelCode .dev mm .empty = .ok 0x8001FFEA ∧
      ¬ DirectRequest.empty.Agrees .dev .roomy mm mm (some 0) ∧
      exportCode .dev .roomy mm .noWindow (some 0) = .ok 0 ∧
      kernelCode .dev mm .noWindow = .ok 0x8001FFF4 ∧
      ¬ DirectRequest.noWindow.Agrees .dev .roomy mm mm (some 0) := by
  have refused : kernelCode .dev .booted .empty = .ok 0x8001FFEA := by decide +kernel
  have unfit : kernelCode .dev .booted .noWindow = .ok 0x8001FFF4 := by decide +kernel
  have mapped : exportCode .dev .roomy .booted .noWindow (some 0) = .ok 0 := by decide +kernel
  refine ⟨.booted, rfl, by decide +kernel, refused, ?_, mapped, unfit, ?_⟩
  · rintro ⟨code, -, called, invalid, -⟩
    obtain rfl := Outcome.ok.inj (refused.symm.trans called)
    exact absurd (invalid.mpr fun valid => valid.1 rfl) (by decide)
  · rintro ⟨code, exported, called, -⟩
    obtain rfl := Outcome.ok.inj (unfit.symm.trans called)
    cases mapped.symm.trans exported

end AnotherPs4
