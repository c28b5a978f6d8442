import AnotherPs4.Memory.UserRegion

/-!
# Addresses for the GPU

The GPU addresses the lower 1 TiB, but the constant the manager compares with is
64 GiB, which is where the user region is requested. So a mapping counts as
valid only where the search finds room far below the region's usual place.
-/

namespace AnotherPs4

open Rust RangeMap Transition

variable {ε : Type}

/-- The lower 40 bits, which the GPU can address. -/
def gpuLimit : Nat := 2 ^ 40

namespace MemoryManager

def isValidGpuMapping (p : Profile) (_mm : MemoryManager) (virtualAddr size : Nat) :
    Outcome ε Bool := do
  let stop ← p.add 64 virtualAddr size
  return decide (stop < maxGpuAddress)

/-- A free area has room for the request that ends below `limit`. -/
def RoomBelow (mm : MemoryManager) (limit size : Nat) : Prop :=
  ∃ vma : VirtualMemoryArea, mm.vmaMap[vma.base]? = some vma ∧ HasRoom size vma ∧
    roundUp vma.base pageSize + size < limit

theorem isValidGpuMapping_eq (p : Profile) (mm : MemoryManager) {addr size : Nat}
    (fits : addr + size < 2 ^ 64) :
    (mm.isValidGpuMapping p addr size : Outcome ε Bool) =
      .ok (decide (addr + size < maxGpuAddress)) := by
  rw [isValidGpuMapping, Profile.add_of_lt fits]
  rfl

/-- The check agrees with the documented limit for ranges that end below the
constant, and for those that end past the limit: in the address space, or in a
build without overflow checks so far past it that the wrapped end is not below
the constant. -/
theorem isValidGpuMapping_exact_iff (p : Profile) (mm : MemoryManager) {addr size : Nat}
    (word : addr < 2 ^ 64) (word' : size < 2 ^ 64) :
    (mm.isValidGpuMapping p addr size : Outcome ε Bool) = .ok (decide (addr + size ≤ gpuLimit)) ↔
      addr + size < maxGpuAddress ∨ gpuLimit < addr + size ∧ addr + size < 2 ^ 64 ∨
        p = .release ∧ 2 ^ 64 + maxGpuAddress ≤ addr + size := by
  have below : maxGpuAddress < gpuLimit := by decide
  have small : gpuLimit < 2 ^ 64 := by decide
  by_cases fits : addr + size < 2 ^ 64
  · rw [isValidGpuMapping_eq p mm fits, Outcome.ok.injEq, decide_eq_decide]
    omega
  · cases p with
    | dev =>
      rw [isValidGpuMapping, Profile.add_dev, if_neg fits]
      simp only [Outcome.panic_bind, reduceCtorEq, false_and, or_false, false_iff]
      omega
    | release =>
      have wrapped : (addr + size) % 2 ^ 64 = addr + size - 2 ^ 64 := by omega
      rw [isValidGpuMapping, Profile.add_release, wrapped]
      simp only [Outcome.ok_bind, Outcome.pure_eq_ok, Outcome.ok.injEq, decide_eq_decide, true_and]
      omega

end MemoryManager

/-- The range of a mapping the manager placed is valid for the GPU exactly if
some free area had room for it below the constant. -/
theorem MemoryCall.valid_iff {p : Profile} {mm mm' : MemoryManager} {r : MapRequest} {addr : Nat}
    (wf : mm.vmaMap.WellFormed) (free : ¬ r.fixed)
    (call : MemoryCall p mm (.map r (.ok addr)) mm') :
    (mm'.isValidGpuMapping p addr (roundUp r.size pageSize) : Outcome Empty Bool) = .ok true ↔
      mm.RoomBelow maxGpuAddress (roundUp r.size pageSize) := by
  obtain ⟨vma, stored, room, rfl, lowest⟩ := call.lowest wf free
  have within : vma.base + vma.size ≤ hostLimit := wf.within stored
  have fits : roundUp vma.base pageSize + roundUp r.size pageSize < 2 ^ 64 := by
    have := room.2
    unfold hostLimit at within
    omega
  rw [MemoryManager.isValidGpuMapping_eq p mm' fits, Outcome.ok.injEq, decide_eq_true_eq]
  constructor
  · exact fun below => ⟨vma, stored, room, below⟩
  · rintro ⟨other, stored', room', below⟩
    have ordered : roundUp vma.base pageSize ≤ roundUp other.base pageSize :=
      roundUp_le pageSize_pos (dvd_roundUp _ _)
        ((lowest other stored' room').trans (le_roundUp pageSize_pos))
    omega

/-- What the manager places in a run, and what the check says about any range,
fits the GPU's limit exactly in these cases. -/
theorem gpuMapping_iff (p : Profile) {boot : HostBoot} (lawful : boot.Lawful)
    {mm₀ mm : MemoryManager} (booted : MemoryManager.new boot = .ok mm₀)
    {events : List MemoryEvent} (run : Trace (MemoryCall p) mm₀ events mm) :
    (∀ r addr mm', ¬ r.fixed → MemoryCall p mm (.map r (.ok addr)) mm' →
      ((mm'.isValidGpuMapping p addr (roundUp r.size pageSize) : Outcome Empty Bool) = .ok true ↔
        mm.RoomBelow maxGpuAddress (roundUp r.size pageSize))) ∧
    ∀ addr size, addr < 2 ^ 64 → size < 2 ^ 64 →
      ((mm.isValidGpuMapping p addr size : Outcome Empty Bool) =
          .ok (decide (addr + size ≤ gpuLimit)) ↔
        addr + size < maxGpuAddress ∨ gpuLimit < addr + size ∧ addr + size < 2 ^ 64 ∨
          p = .release ∧ 2 ^ 64 + maxGpuAddress ≤ addr + size) := by
  have wf := MemoryCall.run_wellFormed lawful booted run
  exact ⟨fun r addr mm' free call => call.valid_iff wf free, fun addr size word word' =>
    mm.isValidGpuMapping_exact_iff p word word'⟩

/-- The user region where the layout of the module's documentation has it. -/
def HostBoot.documented : HostBoot := { HostBoot.low with user := some 0x200000000 }

namespace MemoryManager

def bootedLow : MemoryManager :=
  { booted with
    addressSpace := { booted.addressSpace with userBase := 0x200000000 }
    vmaMap := (∅ : VMAMap).insert 0x200000000
      { freeAttributes with base := 0x200000000, size := userSize } }

def withStackLow : MemoryManager :=
  { bootedLow with
    vmaMap := ((∅ : VMAMap).insert 0x200004000
      { freeAttributes with base := 0x200004000, size := userSize - pageSize }).insert
      0x200000000 { MapRequest.stack.attributes with base := 0x200000000, size := pageSize } }

end MemoryManager

theorem gpuMapping_iff_documented :
    (MemoryManager.withStackLow.isValidGpuMapping .dev 0x200000000 (roundUp 100 pageSize) :
        Outcome Empty Bool) = .ok true ∧
      (MemoryManager.bootedLow.isValidGpuMapping .dev gpuLimit 1 : Outcome Empty Bool) =
        .ok (decide (gpuLimit + 1 ≤ gpuLimit)) := by
  have lawful : HostBoot.documented.Lawful := by
    rintro _ ⟨rfl⟩
    decide
  have booted : MemoryManager.new .documented = .ok .bootedLow := rfl
  have mapped : MapRequest.stack.call .dev .roomy .bootedLow =
      .ok (.ok 0x200000000, .withStackLow) := by decide +kernel
  let region : VirtualMemoryArea :=
    { MemoryManager.freeAttributes with base := 0x200000000, size := userSize }
  have stored : MemoryManager.bootedLow.vmaMap[region.base]? = some region := by decide +kernel
  have limits := gpuMapping_iff .dev lawful booted .nil
  refine ⟨(limits.1 _ _ _ (by decide) (.map Host.roomy_lawful (by decide) mapped)).mpr
    ⟨region, stored, by decide, by decide⟩, ?_⟩
  exact (limits.2 gpuLimit 1 (by decide) (by decide)).mpr (by decide)

/-- Where the user region is requested, nothing the manager places is valid. -/
theorem MemoryManager.Regional.invalid {p : Profile} {space : AddressSpace} {mm mm' : MemoryManager}
    (regional : mm.Regional space) (high : maxGpuAddress ≤ space.userBase) {r : MapRequest}
    {addr : Nat} (free : ¬ r.fixed) (call : MemoryCall p mm (.map r (.ok addr)) mm') :
    (mm'.isValidGpuMapping p addr (roundUp r.size pageSize) : Outcome Empty Bool) ≠ .ok true := by
  obtain ⟨wf, inside, rfl⟩ := regional
  rw [Ne, call.valid_iff wf free]
  rintro ⟨vma, stored, room, below⟩
  have region := inside stored room.1
  have above : vma.base ≤ roundUp vma.base pageSize := le_roundUp pageSize_pos
  unfold AddressSpace.InUser at region
  omega

/-- The first mapping of the booted manager is far below 1 TiB, and not valid. -/
theorem gpuMapping_rejects_user_region :
    ∃ mm addr mm', MemoryManager.new .low = .ok mm ∧
      mm.addressSpace.userBase + mm.addressSpace.userSize ≤ gpuLimit ∧
      ¬ MapRequest.stack.fixed ∧
      MapRequest.stack.call .dev .roomy mm = .ok (.ok addr, mm') ∧
      addr + pageSize ≤ gpuLimit ∧
      (mm'.isValidGpuMapping .dev addr pageSize : Outcome Empty Bool) = .ok false :=
  ⟨.booted, 0x1000000000, .withStack, rfl, by decide, by decide, MapRequest.stack_call, by decide,
    rfl⟩

end AnotherPs4
