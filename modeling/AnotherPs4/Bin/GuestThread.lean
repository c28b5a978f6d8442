import AnotherPs4.Hle.Patching
import AnotherPs4.Linker.Areas
import AnotherPs4.Linker.Stores

/-!
# The guest thread

From the executable to the jump into the guest: loading with all dependencies,
relocation, the patch of system calls, and memory for the main thread.
-/

namespace AnotherPs4

open Rust RangeMap Transition

/-- Why the thread ends before it enters the guest. -/
inductive GuestThreadError where
  | notFound (path : Path)
  | load (error : LinkError)
  | memory (error : MemoryError)
  deriving DecidableEq, Repr

def tcbSize : Nat := 4096

def stackSize : Nat := 2 * 1024 * 1024

/-- What the guest is entered with. -/
structure GuestEntry where
  linker : Linker
  stubs : Option StubAllocator
  tcbBase : Nat
  entryPoint : Nat
  rsp : Nat

def patchBinary (p : Profile) (linker : Linker) : Outcome Empty Linker :=
  match linker.codeVma with
  | none => .panic .unwrapNone
  | some vma => do
    let (ram, _) ← patchSyscalls p vma.base vma.size linker.guest.ram
    return { linker with guest := { linker.guest with ram } }

def mapThreadMemory (p : Profile) (sys : Sys) (linker : Linker) (size : Nat) (name : String) :
    Outcome Empty (Except MemoryError Nat × Linker) := do
  let (mapped, guest) ←
    linker.guest.mapMemory p sys size (MemoryProt.cpuRead.union .cpuWrite) .threadData name
  return (mapped, { linker with guest })

def push (p : Profile) (stack : Nat × Ram) (value : Nat) : Outcome Empty (Nat × Ram) := do
  let rsp ← p.sub 64 stack.1 8
  return (rsp, stack.2.write64 rsp value)

/-- The terminators of the auxiliary vector, the environment and the arguments,
the argument pointer and `argc`, then the alignment. -/
def setUpStack (p : Profile) (stackEnd : Nat) (ram : Ram) : Outcome Empty (Nat × Ram) := do
  let (rsp, ram) ← [0, 0, 0, 0, 0].foldlM (push p) (stackEnd, ram)
  return (rsp &&& complement 64 0xF, ram)

def enterGuest (p : Profile) (linker : Linker) (stubs : Option StubAllocator)
    (tcbBase stackBase : Nat) : Outcome Empty GuestEntry := do
  let stackEnd ← p.add 64 stackBase stackSize
  let (rsp, ram) ← setUpStack p stackEnd linker.guest.ram
  match ← linker.entryPoint p with
  | none => .panic .unwrapNone
  | some entryPoint =>
    let guest := { linker.guest with ram := ram.write64 tcbBase tcbBase }
    return { linker := { linker with guest }, stubs, tcbBase, entryPoint, rsp }

def startThread (p : Profile) (sys : Sys) (linker : Linker) (stubs : Option StubAllocator) :
    Outcome Empty (Except GuestThreadError GuestEntry) := do
  let (tcb, linker) ← mapThreadMemory p sys linker tcbSize "Main Thread TCB"
  match tcb with
  | .error e => return .error (.memory e)
  | .ok tcbBase =>
    let (stack, linker) ← mapThreadMemory p sys linker stackSize "Main Thread Stack"
    match stack with
    | .error e => return .error (.memory e)
    | .ok stackBase => return .ok (← enterGuest p linker stubs tcbBase stackBase)

/-- The thread once the executable and its dependencies are loaded. -/
def startGuest (p : Profile) (sys : Sys) (linker : Linker) (stubs : Option StubAllocator) :
    Outcome Empty (Except GuestThreadError GuestEntry) := do
  let (linker, stubs) ← linker.relocateAll p stubs
  -- only logged here
  let _ ← linker.entryPoint p
  let linker ← patchBinary p linker
  startThread p sys linker stubs

def runEmulatorGuestThread (p : Profile) (sys : Sys) (fuel : Nat) (executable : Path)
    (linker : Linker) (stubs : Option StubAllocator) :
    Outcome OutOfFuel (Except GuestThreadError GuestEntry) :=
  if !sys.pathExists executable then .ok (.error (.notFound executable))
  else do
    match ← Linker.loadModule p sys fuel executable linker with
    | (.error e, _) => return .error (.load e)
    | (.ok _, linker) => (startGuest p sys linker stubs).widen

section Patch

variable {p : Profile} {sys : Sys} {space : AddressSpace} {linker : Linker}
  (running : Linker.Running p sys space linker) (areas : linker.AreasOfModules)

include running areas

theorem Linker.relocateAll_running {linker' : Linker} {stubs stubs' : Option StubAllocator}
    (returned : linker.relocateAll p stubs = .ok (linker', stubs')) :
    linker'.modules = linker.modules ∧ Linker.Running p sys space linker' ∧ linker'.AreasOfModules := by
  obtain ⟨same, -⟩ := Linker.relocateAll_eq_ok returned
  generalize linker.guest.ram.storeAll (linker.stores p stubs) = ram at same
  obtain ⟨⟨regional, blocks, names, loaded⟩, fixedSize, bounded⟩ := running
  subst same
  exact ⟨rfl, ⟨⟨regional, blocks, names, loaded⟩, fixedSize, bounded⟩, areas⟩

/-- The patch changes the pairs in the region of the module named `eboot.bin`. -/
theorem patchBinary_eq_ok {patched : Linker} (returned : patchBinary p linker = .ok patched) :
    ∃ binary ∈ linker.modules, binary.name = "eboot.bin" ∧
      patched = { linker with guest := { linker.guest with ram := patched.guest.ram } } ∧
      ∀ x < 2 ^ 64, patched.guest.ram x =
        linker.guest.ram.patched binary.baseVirtualAddr binary.alignedBaseSize x := by
  unfold patchBinary at returned
  cases found : linker.codeVma with
  | none =>
    rw [found] at returned
    cases returned
  | some vma =>
    rw [found] at returned
    obtain ⟨result, scanned, same⟩ := Outcome.bind_eq_ok.mp returned
    cases same
    obtain ⟨binary, listed, name, rfl⟩ :=
      (Linker.codeVma_eq_some areas running.sound.names).mp found
    have bounded : binary.baseVirtualAddr + binary.alignedBaseSize ≤ 2 ^ 64 :=
      (running.bounded_module listed).trans (by decide)
    exact ⟨binary, listed, name, rfl, fun x word =>
      patchSyscalls_eq_ok (running.nonempty_module listed) bounded scanned word⟩

theorem patchBinary_returns : (patchBinary p linker).Returns ↔
    ∃ binary ∈ linker.modules, binary.name = "eboot.bin" ∧ (p = .dev →
      linker.guest.ram.syscallCount binary.baseVirtualAddr binary.alignedBaseSize < 2 ^ 32) := by
  have vma : ∀ {binary : Module}, binary ∈ linker.modules → binary.name = "eboot.bin" →
      linker.codeVma = some binary.area ∧
        ((patchBinary p linker).Returns ↔ (p = .dev →
          linker.guest.ram.syscallCount binary.baseVirtualAddr binary.alignedBaseSize < 2 ^ 32)) := by
    intro binary listed name
    have found := (Linker.codeVma_eq_some areas running.sound.names).mpr
      ⟨binary, listed, name, rfl⟩
    have bounded : binary.baseVirtualAddr + binary.alignedBaseSize ≤ 2 ^ 64 :=
      (running.bounded_module listed).trans (by decide)
    refine ⟨found, ?_⟩
    unfold patchBinary
    rw [found, ← patchSyscalls_returns (running.nonempty_module listed) bounded]
    exact Outcome.returns_bind_of_forall fun _ => Outcome.returns_ok _
  constructor
  · rintro ⟨patched, returned⟩
    obtain ⟨binary, listed, name, -, -⟩ := patchBinary_eq_ok running areas returned
    exact ⟨binary, listed, name, (vma listed name).2.mp ⟨patched, returned⟩⟩
  · rintro ⟨binary, listed, name, counted⟩
    exact (vma listed name).2.mpr counted

end Patch

namespace Ram

/-- Nothing outside the blocks has changed. -/
def Frame (blocks : List Block) (ram ram' : Ram) : Prop :=
  ∀ x < 2 ^ 64, (∀ b ∈ blocks, ¬ b.Contains x) → ram' x = ram x

namespace Frame

variable {blocks : List Block} {ram ram' ram'' : Ram}

theorem refl : Frame blocks ram ram := fun _ _ _ => rfl

theorem trans (first : Frame blocks ram ram') (second : Frame blocks ram' ram'') :
    Frame blocks ram ram'' :=
  fun x word outside => (second x word outside).trans (first x word outside)

theorem mono {blocks' : List Block} (frame : Frame blocks ram ram')
    (more : ∀ b ∈ blocks, b ∈ blocks') : Frame blocks' ram ram' :=
  fun x word outside => frame x word fun b member => outside b (more b member)

theorem zero {b : Block} (member : b ∈ blocks) : Frame blocks ram (ram.zero b.1 b.2) :=
  fun _ _ outside => Ram.zero_outside (outside b member)

theorem write64 {b : Block} (member : b ∈ blocks) {dest value : Nat}
    (inside : b.1 ≤ dest ∧ dest + 8 ≤ b.1 + b.2) (bounded : b.1 + b.2 ≤ 2 ^ 64) :
    Frame blocks ram (ram.write64 dest value) := by
  intro x word outside
  have apart := outside b member
  unfold Block.Contains at apart
  exact Ram.write64_outside (by omega) word (by omega)

end Frame

end Ram

section Thread

variable {p : Profile} {sys : Sys} {space : AddressSpace} {linker : Linker}

theorem push_run {b : Block} (bounded : b.1 + b.2 ≤ 2 ^ 64) (values : List Nat) {rsp : Nat}
    {ram : Ram} (room : b.1 + 8 * values.length ≤ rsp) (top : rsp ≤ b.1 + b.2) :
    ∃ result, values.foldlM (push p) (rsp, ram) = .ok result ∧ Ram.Frame [b] ram result.2 := by
  induction values generalizing rsp ram with
  | nil => exact ⟨_, rfl, .refl⟩
  | cons value rest ih =>
    rw [List.length_cons] at room
    have tail : ∃ result,
        rest.foldlM (push p) (rsp - 8, ram.write64 (rsp - 8) value) = .ok result ∧
          Ram.Frame [b] (ram.write64 (rsp - 8) value) result.2 :=
      ih (by omega) (by omega)
    obtain ⟨result, pushed, frame⟩ := tail
    refine ⟨result, ?_, Ram.Frame.trans (.write64 (by simp) (by omega) bounded) frame⟩
    rw [List.foldlM_cons, push, Profile.sub_of_le (by omega)]
    exact pushed

theorem mapThreadMemory_eq_ok {size : Nat} {name : String} {mapped : Except MemoryError Nat}
    {linker' : Linker} (returned : mapThreadMemory p sys linker size name = .ok (mapped, linker')) :
    linker' = { linker with guest := linker'.guest } ∧
      linker.guest.mapMemory p sys size (MemoryProt.cpuRead.union .cpuWrite) .threadData name =
        .ok (mapped, linker'.guest) := by
  obtain ⟨⟨result, guest⟩, call, same⟩ := Outcome.bind_eq_ok.mp returned
  cases same
  exact ⟨rfl, call⟩

theorem mapThreadMemory_returns (lawful : sys.Lawful) (wf : linker.guest.memory.vmaMap.WellFormed)
    {size : Nat} (bounded : size ≤ hostLimit) (name : String) :
    (mapThreadMemory p sys linker size name).Returns := by
  let request :=
    Guest.request size (MemoryProt.cpuRead.union .cpuWrite) .threadData name
  have call : (request.call p (sys.kernel linker.guest.mapCalls) linker.guest.memory).Returns := by
    rcases MemoryManager.mapMemory_spec p (lawful _) wf (r := request) bounded with
      ⟨e, failed⟩ | ⟨addr, map, mapped, -⟩
    · exact ⟨_, failed⟩
    · exact ⟨_, mapped⟩
  obtain ⟨⟨result, memory⟩, call⟩ := call
  unfold mapThreadMemory Guest.mapMemory
  change (((request.call p (sys.kernel linker.guest.mapCalls) linker.guest.memory) >>= _) >>= _).Returns
  rw [call]
  cases result <;> exact ⟨_, rfl⟩

theorem mapThreadMemory_region (lawful : sys.Lawful)
    (regional : linker.guest.memory.Regional space) {size base : Nat} {name : String}
    {linker' : Linker} (word : size < 2 ^ 64)
    (returned : mapThreadMemory p sys linker size name = .ok (.ok base, linker')) :
    Module.MapsRegion space base (roundUp size pageSize) linker.guest linker'.guest :=
  Module.mapMemory_mapsRegion lawful regional (by decide) word (mapThreadMemory_eq_ok returned).2

theorem Linker.entryPoint_returns : (linker.entryPoint p).Returns ↔
    ∀ main, linker.mainModule = some main →
      p.SumFits main.baseVirtualAddr main.elf.entryPoint := by
  unfold entryPoint
  cases linker.mainModule with
  | none => exact iff_of_true (Outcome.returns_ok _) nofun
  | some main =>
    dsimp only
    refine (Outcome.returns_bind_of_forall fun _ => Outcome.returns_ok _).trans
      (Profile.add_returns.trans ?_)
    exact ⟨fun fits _ same => Option.some.inj same ▸ fits, fun fits => fits main rfl⟩

section Enter

variable {stubs : Option StubAllocator} {tcbBase stackBase : Nat}

theorem setUpStack_run {b : Block} (bounded : b.1 + b.2 ≤ 2 ^ 64) (room : 40 ≤ b.2) (ram : Ram) :
    ∃ result, setUpStack p (b.1 + b.2) ram = .ok result ∧ Ram.Frame [b] ram result.2 := by
  have pushes : ∃ result, [0, 0, 0, 0, 0].foldlM (push p) (b.1 + b.2, ram) = .ok result ∧
      Ram.Frame [b] ram result.2 :=
    push_run bounded [0, 0, 0, 0, 0] (Nat.add_le_add_left room _) le_rfl
  obtain ⟨⟨rsp, ram'⟩, pushed, frame⟩ := pushes
  refine ⟨(rsp &&& complement 64 0xF, ram'), ?_, frame⟩
  unfold setUpStack
  rw [pushed]
  rfl

theorem enterGuest_returns (bounded : stackBase + stackSize < 2 ^ 64) {main : Module}
    (isMain : linker.mainModule = some main)
    (fits : p.SumFits main.baseVirtualAddr main.elf.entryPoint) :
    (enterGuest p linker stubs tcbBase stackBase).Returns := by
  have room : 40 ≤ stackSize := by decide
  obtain ⟨result, stack, -⟩ := setUpStack_run (p := p) (b := (stackBase, stackSize)) bounded.le
    room linker.guest.ram
  obtain ⟨entryPoint, added⟩ : (p.add 64 main.baseVirtualAddr main.elf.entryPoint :
    Outcome Empty Nat).Returns := Profile.add_returns.mpr fits
  unfold enterGuest Linker.entryPoint
  rw [Profile.add_of_lt bounded, Outcome.ok_bind, stack, Outcome.ok_bind, isMain]
  dsimp only
  rw [added]
  exact Outcome.returns_ok _

theorem enterGuest_eq_ok {entry : GuestEntry} (bounded : stackBase + stackSize < 2 ^ 64)
    (tcbBounded : tcbBase + pageSize ≤ 2 ^ 64)
    (returned : enterGuest p linker stubs tcbBase stackBase = .ok entry) :
    entry.linker.modules = linker.modules ∧
      Ram.Frame [(stackBase, stackSize), (tcbBase, pageSize)] linker.guest.ram
        entry.linker.guest.ram := by
  have room : 40 ≤ stackSize := by decide
  obtain ⟨⟨rsp, ram⟩, stack, frame⟩ := setUpStack_run (p := p) (b := (stackBase, stackSize))
    bounded.le room linker.guest.ram
  have tcb : Ram.Frame [(stackBase, stackSize), (tcbBase, pageSize)] ram
      (ram.write64 tcbBase tcbBase) :=
    .write64 (b := (tcbBase, pageSize)) (by simp)
      ⟨le_rfl, Nat.add_le_add_left (by decide : 8 ≤ pageSize) _⟩ tcbBounded
  unfold enterGuest at returned
  rw [Profile.add_of_lt bounded, Outcome.ok_bind, stack, Outcome.ok_bind] at returned
  obtain ⟨found, -, returned⟩ := Outcome.bind_eq_ok.mp returned
  have modules : ∀ guest, ({ linker with guest } : Linker).modules = linker.modules :=
    fun _ => rfl
  cases found with
  | none => cases returned
  | some entryPoint =>
    cases returned
    exact ⟨modules _, .trans (frame.mono (by simp)) tcb⟩

end Enter

theorem tcbSize_rounded : roundUp tcbSize pageSize = pageSize := by decide

theorem stackSize_rounded : roundUp stackSize pageSize = stackSize := by decide

theorem startThread_maps {stubs : Option StubAllocator} {entry : GuestEntry}
    (returned : startThread p sys linker stubs = .ok (.ok entry)) :
    ∃ tcbBase linker₁ stackBase linker₂,
      mapThreadMemory p sys linker tcbSize "Main Thread TCB" = .ok (.ok tcbBase, linker₁) ∧
      mapThreadMemory p sys linker₁ stackSize "Main Thread Stack" = .ok (.ok stackBase, linker₂) ∧
      enterGuest p linker₂ stubs tcbBase stackBase = .ok entry := by
  obtain ⟨⟨tcb, linker₁⟩, mapped, returned⟩ := Outcome.bind_eq_ok.mp returned
  cases tcb with
  | error e => cases returned
  | ok tcbBase =>
    obtain ⟨⟨stack, linker₂⟩, mapped', returned⟩ := Outcome.bind_eq_ok.mp returned
    cases stack with
    | error e => cases returned
    | ok stackBase =>
      obtain ⟨entry', entered, same⟩ := Outcome.bind_eq_ok.mp returned
      cases same
      exact ⟨tcbBase, linker₁, stackBase, linker₂, mapped, mapped', entered⟩

section Start

variable {stubs : Option StubAllocator} (lawful : sys.Lawful)
  (regional : linker.guest.memory.Regional space) (fixedSize : space.userSize = userSize)
  (bounded : space.userBase + userSize ≤ hostLimit)

include lawful regional fixedSize bounded

theorem startThread_returns {main : Module} (isMain : linker.mainModule = some main)
    (fits : p.SumFits main.baseVirtualAddr main.elf.entryPoint) :
    (startThread p sys linker stubs).Returns := by
  obtain ⟨⟨tcb, linker₁⟩, mapped⟩ := mapThreadMemory_returns (p := p) lawful regional.wf
    (by decide : tcbSize ≤ hostLimit) "Main Thread TCB"
  unfold startThread
  rw [mapped, Outcome.ok_bind]
  cases tcb with
  | error e => exact Outcome.returns_ok _
  | ok tcbBase =>
    have region := mapThreadMemory_region lawful regional (by decide) mapped
    obtain ⟨same, -⟩ := mapThreadMemory_eq_ok mapped
    obtain ⟨⟨stack, linker₂⟩, mapped'⟩ := mapThreadMemory_returns (p := p) lawful
      region.regional.wf (by decide : stackSize ≤ hostLimit) "Main Thread Stack"
    dsimp only
    rw [mapped', Outcome.ok_bind]
    cases stack with
    | error e => exact Outcome.returns_ok _
    | ok stackBase =>
      have region' := mapThreadMemory_region lawful region.regional (by decide) mapped'
      rw [stackSize_rounded] at region'
      obtain ⟨same', -⟩ := mapThreadMemory_eq_ok mapped'
      have below : stackBase + stackSize < 2 ^ 64 :=
        lt_of_le_of_lt (region'.bounded fixedSize bounded) (by decide)
      have isMain' : linker₂.mainModule = some main := by
        rw [same', same]
        exact isMain
      exact (Outcome.returns_bind_of_forall fun _ => Outcome.returns_ok _).mpr
        (enterGuest_returns below isMain' fits)

/-- The memory of the thread is apart from all that was mapped before. -/
theorem startThread_eq_ok {entry : GuestEntry}
    (returned : startThread p sys linker stubs = .ok (.ok entry)) :
    entry.linker.modules = linker.modules ∧ ∀ live,
      LiveBlocks live (attrAt linker.guest.memory.vmaMap) → ∀ b ∈ live, ∀ x < 2 ^ 64,
        b.Contains x → entry.linker.guest.ram x = linker.guest.ram x := by
  obtain ⟨tcbBase, linker₁, stackBase, linker₂, mapped, mapped', entered⟩ :=
    startThread_maps returned
  have region := mapThreadMemory_region lawful regional (by decide) mapped
  have region' := mapThreadMemory_region lawful region.regional (by decide) mapped'
  rw [tcbSize_rounded] at region
  rw [stackSize_rounded] at region'
  obtain ⟨modules, frame⟩ := enterGuest_eq_ok
    (lt_of_le_of_lt (region'.bounded fixedSize bounded) (by decide))
    ((region.bounded fixedSize bounded).trans (by decide)) entered
  rw [(mapThreadMemory_eq_ok mapped').1, (mapThreadMemory_eq_ok mapped).1] at modules
  refine ⟨modules, fun live blocks b member x word inside => ?_⟩
  have apart := List.pairwise_cons.mp (region'.live (region.live blocks)).apart
  have apartTcb := List.pairwise_cons.mp apart.2
  have zeros : Ram.Frame [(stackBase, stackSize), (tcbBase, pageSize)] linker.guest.ram
      linker₂.guest.ram := by
    rw [region'.zeros, region.zeros]
    exact .trans (.zero (b := (tcbBase, pageSize)) (by simp))
      (.zero (b := (stackBase, stackSize)) (by simp))
  apply zeros.trans frame x word
  intro c own there
  rcases List.mem_cons.mp own with rfl | own
  · exact (apart.1 b (List.mem_cons_of_mem _ member)).not_contains there inside
  · obtain rfl := List.mem_singleton.mp own
    exact (apartTcb.1 b member).not_contains there inside

end Start

end Thread

end AnotherPs4
