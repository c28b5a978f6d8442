import AnotherPs4.Memory.FirstFit
import AnotherPs4.Memory.PhysicalRuns
import AnotherPs4.Memory.VirtualRuns

/-!
# Direct memory system call

The call checks the length only. What it promises holds exactly for the requests
that overflow no sum up to the first free area with room, and whose place there
is a multiple of the alignment.
-/

namespace AnotherPs4

open Rust RangeMap Transition

namespace OrbisError

def ok : Int := 0

def einval : Int := -0x7FFE_0016

def enomem : Int := -0x7FFE_000C

end OrbisError

def MemoryManager.allocateDirectMemory (p : Profile) (mm : MemoryManager)
    (searchStart searchEnd size alignment : Nat) (_memoryType : Int) :
    Outcome Empty (Option Nat × MemoryManager) := do
  let alignedSize ← alignUp p size pageSize
  let (addr, physical) ← mm.physical.allocate p searchStart searchEnd alignedSize alignment
  return (addr, { mm with physical })

/-- The arguments of the guest, words but for the memory type. `physAddrOut` is
what the guest's variable holds before the call. -/
structure DirectRequest where
  searchStart : Nat
  searchEnd : Nat
  len : Nat
  alignment : Nat
  memoryType : Int
  physAddrOut : Nat
  words : searchStart < 2 ^ 64 ∧ searchEnd < 2 ^ 64 ∧ len < 2 ^ 64 ∧ alignment < 2 ^ 64

/-- The error code, the guest's variable and the manager after the call. -/
def sceKernelAllocateDirectMemory (p : Profile) (mm : MemoryManager) (r : DirectRequest) :
    Outcome Empty (Int × Nat × MemoryManager) := do
  if r.len = 0 ∨ !(← isAligned p r.len pageSize) then
    return (OrbisError.einval, r.physAddrOut, mm)
  match ← mm.allocateDirectMemory p r.searchStart r.searchEnd r.len r.alignment r.memoryType with
  | (some addr, mm) => return (OrbisError.ok, addr, mm)
  | (none, mm) => return (OrbisError.enomem, r.physAddrOut, mm)

namespace DirectRequest

def toAlloc (r : DirectRequest) : AllocRequest where
  searchStart := r.searchStart
  searchEnd := r.searchEnd
  size := r.len
  alignment := r.alignment

/-- What the call promises about its result. -/
inductive Promised (mm : MemoryManager) (r : DirectRequest) : Int × Nat × MemoryManager → Prop where
  | failed {code mm'} : code ≠ OrbisError.ok → mm'.physical.areas = mm.physical.areas →
      Promised mm r (code, r.physAddrOut, mm')
  | allocated {addr mm'} : (r.alignment ≠ 0 → r.alignment ∣ addr) → r.searchStart ≤ addr →
      addr + r.len ≤ r.searchEnd → addr + r.len ≤ mm.physical.totalSize →
      (∀ x, addr ≤ x → x < addr + r.len →
        ∃ memoryType, attrAt mm.physical.areas x = some (memoryType, .free)) →
      Tiles mm'.physical.areas mm.physical.totalSize →
      Promised mm r (OrbisError.ok, addr, mm')

/-- The call returns in both builds, so no sum overflows, and keeps its promise. -/
def Contract (mm : MemoryManager) (r : DirectRequest) : Prop :=
  ∃ result, (∀ p, sceKernelAllocateDirectMemory p mm r = .ok result) ∧ Promised mm r result

/-- The length is refused; or no free area up to the first one with room makes a
sum overflow, and the place there is a multiple of the alignment. -/
def Safe (mm : MemoryManager) (r : DirectRequest) : Prop :=
  r.len = 0 ∨ ¬ pageSize ∣ r.len ∨
    ∀ area, mm.physical.areas[area.base]? = some area → area.dmaType = .free →
      (∀ below, mm.physical.areas[below.base]? = some below → below.base < area.base →
        ¬ r.toAlloc.FitsIn below) →
      r.toAlloc.SumsFit area ∧
        (r.toAlloc.FitsIn area → r.alignment ≠ 0 → r.alignment ∣ r.toAlloc.placeIn area)

theorem Promised.aligned {mm : MemoryManager} {r : DirectRequest} {result : Int × Nat × MemoryManager}
    (promised : Promised mm r result) (success : result.1 = OrbisError.ok)
    (some_alignment : r.alignment ≠ 0) : r.alignment ∣ result.2.1 := by
  cases promised with
  | failed error => exact absurd success error
  | allocated aligned => exact aligned some_alignment

theorem Promised.tiles {mm : MemoryManager} {r : DirectRequest} {result : Int × Nat × MemoryManager}
    (promised : Promised mm r result) (tiles : Tiles mm.physical.areas mm.physical.totalSize) :
    Tiles result.2.2.physical.areas mm.physical.totalSize := by
  cases promised with
  | failed _ same => exact same ▸ tiles
  | allocated _ _ _ _ _ tiles => exact tiles

end DirectRequest

/-- The areas tile a memory of less than 2^64 bytes. -/
structure MemoryManager.DirectTiled (mm : MemoryManager) : Prop where
  tiles : Tiles mm.physical.areas mm.physical.totalSize
  small : mm.physical.totalSize < 2 ^ 64

section Call

variable {p : Profile} {mm : MemoryManager} {r : DirectRequest}

theorem sceKernelAllocateDirectMemory_refused (p : Profile) (mm : MemoryManager)
    (refused : r.len = 0 ∨ ¬ pageSize ∣ r.len) :
    sceKernelAllocateDirectMemory p mm r = .ok (OrbisError.einval, r.physAddrOut, mm) := by
  unfold sceKernelAllocateDirectMemory
  rw [isAligned_page, Outcome.ok_bind, if_pos (by simpa using refused)]
  rfl

theorem sceKernelAllocateDirectMemory_paged (p : Profile) (mm : MemoryManager)
    (nonempty : r.len ≠ 0) (paged : pageSize ∣ r.len) :
    sceKernelAllocateDirectMemory p mm r = (do
      match ← r.toAlloc.call p mm.physical with
      | (some addr, physical) => return (OrbisError.ok, addr, { mm with physical })
      | (none, physical) => return (OrbisError.enomem, r.physAddrOut, { mm with physical })) := by
  have page : pageSize = 16384 := rfl
  have fits : r.len + (pageSize - 1) < 2 ^ 64 := by
    have word := r.words.2.2.1
    obtain ⟨pages, eq⟩ := paged
    rw [page] at eq ⊢
    omega
  unfold sceKernelAllocateDirectMemory MemoryManager.allocateDirectMemory
  rw [isAligned_page, Outcome.ok_bind, if_neg (by simp [nonempty, paged]), alignUp_page fits,
    roundUp_eq_self pageSize_pos paged, Outcome.ok_bind, bind_assoc]
  apply bind_congr
  intro result
  obtain ⟨addr, physical⟩ := result
  cases addr <;> rfl

theorem DirectRequest.safe_iff_quiet (tiled : mm.DirectTiled) (nonempty : r.len ≠ 0)
    (paged : pageSize ∣ r.len) :
    r.Safe mm ↔ r.toAlloc.Quiet mm.physical.areaList ∧
      ∀ area, mm.physical.areaList.find? (fun area => r.toAlloc.FitsIn area) = some area →
        r.alignment ≠ 0 → r.alignment ∣ r.toAlloc.placeIn area := by
  have sorted := PhysicalMemoryManager.areaList_sorted tiled.tiles
  simp only [Safe, nonempty, paged, not_true_eq_false, false_or,
    AllocRequest.quiet_iff sorted, AllocRequest.find?_fitsIn_iff sorted,
    PhysicalMemoryManager.mem_areaList tiled.tiles]
  constructor
  · intro safe
    exact ⟨fun area stored isFree first => (safe area stored isFree first).1,
      fun area ⟨stored, fits, first⟩ => (safe area stored fits.1 first).2 fits⟩
  · rintro ⟨quiet, aligned⟩ area stored isFree first
    exact ⟨quiet area stored isFree first, fun fits => aligned area ⟨stored, fits, first⟩⟩

theorem DirectRequest.promised_of_fit (tiled : mm.DirectTiled) (nonempty : r.len ≠ 0)
    {area : PhysicalMemoryArea} (stored : mm.physical.areas[area.base]? = some area)
    (sums : r.toAlloc.SumsFit area) (fits : r.toAlloc.FitsIn area)
    (aligned : r.alignment ≠ 0 → r.alignment ∣ r.toAlloc.placeIn area) :
    Promised mm r (OrbisError.ok, r.toAlloc.placeIn area,
      { mm with physical := mm.physical.placed r.toAlloc area }) := by
  obtain ⟨isFree, room, window⟩ := fits
  have sep := tiled.tiles.separated
  have low : area.base ≤ r.toAlloc.placeIn area := le_trans (le_max_left _ _) sums.low
  have within : area.base + area.size ≤ mm.physical.totalSize := tiled.tiles.within stored
  refine .allocated aligned (le_trans (le_max_right _ _) sums.low) window (room.trans within) ?_ ?_
  · intro x above below
    refine ⟨area.memoryType, (attrAt_eq_some sep).mpr ⟨area.base, area, stored, ?_, ?_⟩⟩
    · exact ⟨low.trans above, lt_of_lt_of_le below room⟩
    · rw [← isFree]
      rfl
  · exact PhysicalMemoryManager.tiles_taken tiled.tiles stored (Nat.pos_of_ne_zero nonempty) low
      room

/-- In a tiled memory the call keeps its promise exactly for the safe requests. -/
theorem DirectRequest.contract_iff_safe (tiled : mm.DirectTiled) : r.Contract mm ↔ r.Safe mm := by
  by_cases refused : r.len = 0 ∨ ¬ pageSize ∣ r.len
  · refine iff_of_true ⟨_, fun p => sceKernelAllocateDirectMemory_refused p mm refused,
      .failed (by decide) rfl⟩ ?_
    exact refused.imp_right .inl
  · obtain ⟨nonempty, unpaged⟩ := not_or.mp refused
    have paged := not_not.mp unpaged
    have positive : 0 < r.toAlloc.size := Nat.pos_of_ne_zero nonempty
    have paged_call (p : Profile) := sceKernelAllocateDirectMemory_paged p mm nonempty paged
    have sorted := PhysicalMemoryManager.areaList_sorted tiled.tiles
    rw [safe_iff_quiet tiled nonempty paged]
    by_cases quiet : r.toAlloc.Quiet mm.physical.areaList
    · cases found : mm.physical.areaList.find? fun area => r.toAlloc.FitsIn area with
      | none =>
        refine iff_of_true ⟨(OrbisError.enomem, r.physAddrOut, mm), fun p => ?_,
          .failed (by decide) rfl⟩ ⟨quiet, nofun⟩
        rw [paged_call, PhysicalMemoryManager.call_of_no_fit tiled.tiles tiled.small p quiet found]
        rfl
      | some area =>
        obtain ⟨member, fits, first⟩ := (AllocRequest.find?_fitsIn_iff sorted).mp found
        have stored := (PhysicalMemoryManager.mem_areaList tiled.tiles).mp member
        have sums := (AllocRequest.quiet_iff sorted).mp quiet area member fits.1 first
        have returned (p : Profile) : sceKernelAllocateDirectMemory p mm r =
            .ok (OrbisError.ok, r.toAlloc.placeIn area,
              { mm with physical := mm.physical.placed r.toAlloc area }) := by
          rw [paged_call, PhysicalMemoryManager.call_of_fit tiled.tiles tiled.small p positive
            quiet sums found]
          rfl
        constructor
        · rintro ⟨result, called, promised⟩
          refine ⟨quiet, fun other same => ?_⟩
          cases same
          have result_eq := Outcome.ok.inj ((returned .dev).symm.trans (called .dev))
          rw [← result_eq] at promised
          exact promised.aligned rfl
        · rintro ⟨-, aligned⟩
          exact ⟨_, returned, promised_of_fit tiled nonempty stored sums fits (aligned area rfl)⟩
    · refine iff_of_false ?_ fun safe => quiet safe.1
      rintro ⟨result, called, -⟩
      have overflows := called .dev
      rw [paged_call, PhysicalMemoryManager.call_of_not_quiet tiled.tiles tiled.small quiet]
        at overflows
      cases overflows

theorem AllocRequest.call_totalSize {r : AllocRequest} {m m' : PhysicalMemoryManager}
    {addr : Option Nat} (returned : r.call p m = .ok (addr, m')) : m'.totalSize = m.totalSize := by
  unfold AllocRequest.call PhysicalMemoryManager.allocate at returned
  obtain ⟨found, -, returned⟩ := Outcome.bind_eq_ok.mp returned
  cases found with
  | none =>
    cases returned
    rfl
  | some addr =>
    obtain ⟨areas, -, returned⟩ := Outcome.bind_eq_ok.mp returned
    cases returned
    rfl

theorem sceKernelAllocateDirectMemory_totalSize {code : Int} {out : Nat} {mm' : MemoryManager}
    (returned : sceKernelAllocateDirectMemory p mm r = .ok (code, out, mm')) :
    mm'.physical.totalSize = mm.physical.totalSize := by
  by_cases refused : r.len = 0 ∨ ¬ pageSize ∣ r.len
  · rw [sceKernelAllocateDirectMemory_refused p mm refused] at returned
    cases returned
    rfl
  · obtain ⟨nonempty, unpaged⟩ := not_or.mp refused
    rw [sceKernelAllocateDirectMemory_paged p mm nonempty (not_not.mp unpaged)] at returned
    obtain ⟨⟨addr, physical⟩, called, returned⟩ := Outcome.bind_eq_ok.mp returned
    cases addr <;> cases returned <;> exact AllocRequest.call_totalSize called

def DirectStep (p : Profile) (mm : MemoryManager) (r : DirectRequest) (mm' : MemoryManager) : Prop :=
  ∃ code out, sceKernelAllocateDirectMemory p mm r = .ok (code, out, mm')

theorem DirectStep.tiled {mm' : MemoryManager} (tiled : mm.DirectTiled) (safe : r.Safe mm)
    (step : DirectStep p mm r mm') : mm'.DirectTiled := by
  obtain ⟨code, out, returned⟩ := step
  obtain ⟨result, called, promised⟩ := (DirectRequest.contract_iff_safe tiled).mpr safe
  have result_eq := Outcome.ok.inj (returned.symm.trans (called p))
  rw [← result_eq] at promised
  have total := sceKernelAllocateDirectMemory_totalSize returned
  refine ⟨?_, total ▸ tiled.small⟩
  rw [total]
  exact promised.tiles tiled.tiles

/-- Requests with a power-of-two alignment, or none, are safe but for huge numbers. -/
theorem DirectRequest.safe_of_small (tiled : mm.DirectTiled)
    (aligned : r.alignment = 0 ∨ ∃ k < 64, r.alignment = 2 ^ k)
    (small : max mm.physical.totalSize r.searchStart + max r.alignment pageSize + r.len ≤ 2 ^ 64) :
    r.Safe mm := by
  refine .inr (.inr fun area stored _ _ => ?_)
  have within : area.base + area.size ≤ mm.physical.totalSize := tiled.tiles.within stored
  have effective : r.toAlloc.effective = max r.alignment pageSize := rfl
  have page : 0 < pageSize := pageSize_pos
  have raised : max area.base r.toAlloc.searchStart + (r.toAlloc.effective - 1) < 2 ^ 64 := by
    rw [effective]
    have start : r.toAlloc.searchStart = r.searchStart := rfl
    omega
  have place : r.toAlloc.placeIn area ≤
      max area.base r.toAlloc.searchStart + (r.toAlloc.effective - 1) :=
    Nat.and_le_left
  have sums : r.toAlloc.SumsFit area := by
    refine ⟨raised, ?_⟩
    have start : r.toAlloc.searchStart = r.searchStart := rfl
    have length : r.toAlloc.size = r.len := rfl
    omega
  exact ⟨sums, fun _ => AllocRequest.alignment_dvd_placeIn aligned sums⟩

end Call

theorem MemoryManager.new_directTiled {boot : HostBoot} {mm : MemoryManager}
    (booted : MemoryManager.new boot = .ok mm) : mm.DirectTiled := by
  obtain ⟨-, -, physical, -⟩ := MemoryManager.new_eq_ok booted
  exact ⟨physical ▸ PhysicalMemoryManager.new_tiles _, by rw [physical]; decide⟩

/-- After any run of safe calls the areas tile the memory, and the next call keeps
its promise exactly if it is safe. -/
theorem allocateDirectMemory_contract_iff {boot : HostBoot} {start mm : MemoryManager}
    (p : Profile) (booted : MemoryManager.new boot = .ok start) {requests : List DirectRequest}
    (run : Trace (fun mm r mm' => r.Safe mm ∧ DirectStep p mm r mm') start requests mm)
    (r : DirectRequest) :
    Tiles mm.physical.areas mm.physical.totalSize ∧ (r.Contract mm ↔ r.Safe mm) := by
  have tiled : mm.DirectTiled :=
    run.invariant (MemoryManager.new_directTiled booted) fun tiled ⟨safe, step⟩ =>
      step.tiled tiled safe
  exact ⟨tiled.tiles, DirectRequest.contract_iff_safe tiled⟩

def DirectRequest.onePage : DirectRequest where
  searchStart := 0
  searchEnd := 0x160000000
  len := 0x4000
  alignment := 0x10000
  memoryType := 0
  physAddrOut := 0
  words := by decide

/-- The second of two such requests. -/
theorem allocateDirectMemory_contract_iff_onePage :
    ∃ mm, DirectStep .dev .booted .onePage mm ∧ DirectRequest.onePage.Contract mm := by
  have tiled := MemoryManager.new_directTiled MemoryManager.new_low
  have aligned : DirectRequest.onePage.alignment = 0 ∨
      ∃ k < 64, DirectRequest.onePage.alignment = 2 ^ k := .inr ⟨16, by decide, by decide⟩
  have safe : DirectRequest.onePage.Safe .booted :=
    DirectRequest.safe_of_small tiled aligned (by decide)
  obtain ⟨⟨code, out, mm⟩, called, -⟩ := (DirectRequest.contract_iff_safe tiled).mpr safe
  have step : DirectStep .dev .booted .onePage mm := ⟨code, out, called .dev⟩
  refine ⟨mm, step, (allocateDirectMemory_contract_iff .dev MemoryManager.new_low
    (.snoc .nil ⟨safe, step⟩) .onePage).2.mpr ?_⟩
  apply DirectRequest.safe_of_small (step.tiled tiled safe) aligned
  rw [sceKernelAllocateDirectMemory_totalSize (called .dev)]
  decide

/-- 24 KiB is no power of two, and the mask does not round to its multiples. -/
def DirectRequest.misaligned : DirectRequest where
  searchStart := 0x4000
  searchEnd := 0x160000000
  len := 0x4000
  alignment := 0x6000
  memoryType := 0
  physAddrOut := 0
  words := by decide

def DirectRequest.atTheEnd : DirectRequest where
  searchStart := 0xFFFF_FFFF_FFFF_FFFF
  searchEnd := 0xFFFF_FFFF_FFFF_FFFF
  len := 0x4000
  alignment := 0
  memoryType := 0
  physAddrOut := 0
  words := by decide

/-- In the first state, an address that is not aligned and a panic. -/
theorem allocateDirectMemory_breaks_contract :
    (fun result => (result.1, result.2.1)) <$>
        sceKernelAllocateDirectMemory .dev .booted .misaligned = .ok (OrbisError.ok, 0x8000) ∧
      ¬ DirectRequest.misaligned.Contract .booted ∧
      (sceKernelAllocateDirectMemory .dev .booted .atTheEnd).Panics ∧
      ¬ DirectRequest.atTheEnd.Contract .booted := by
  have returned : (fun result => (result.1, result.2.1)) <$>
      sceKernelAllocateDirectMemory .dev .booted .misaligned = .ok (OrbisError.ok, 0x8000) := by
    decide +kernel
  have panics : (sceKernelAllocateDirectMemory .dev .booted .atTheEnd).Panics := by
    decide +kernel
  refine ⟨returned, ?_, panics, ?_⟩
  · rintro ⟨result, called, promised⟩
    rw [called .dev] at returned
    obtain ⟨success, addr⟩ := Prod.mk.inj (Outcome.ok.inj returned)
    have aligned := promised.aligned success (by decide)
    rw [addr] at aligned
    exact absurd aligned (by decide)
  · rintro ⟨result, called, -⟩
    rw [called .dev] at panics
    exact panics

end AnotherPs4
