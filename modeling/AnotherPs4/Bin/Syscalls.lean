import AnotherPs4.Bin.PatchedData

/-!
# System calls of the guest

The guest is entered after one region was patched, that of the module named
`eboot.bin`. Without such a module the thread panics before, and the other
modules are entered as they were relocated.
-/

namespace AnotherPs4

open Rust RangeMap Transition

/-- An executable segment has the bytes of `SYSCALL` somewhere it is mapped. -/
def Module.HasSyscall (module : Module) (ram : Ram) : Prop :=
  ∃ ph ∈ module.elf.loadSegments, ph.flags.contains .execute = true ∧
    ∃ x, module.InSegment ph x ∧ module.InSegment ph (x + 1) ∧
      module.block.Contains x ∧ module.block.Contains (x + 1) ∧ ram.IsSyscall x

/-- No system call of the guest reaches the host, and the thread does not panic. -/
structure Contained (p : Profile) (sys : Sys) (fuel : Nat) (executable : Path) (linker : Linker)
    (stubs : Option StubAllocator) : Prop where
  starts : ¬ (runEmulatorGuestThread p sys fuel executable linker stubs).Panics
  free : ∀ entry, runEmulatorGuestThread p sys fuel executable linker stubs = .ok (.ok entry) →
    ∀ module ∈ entry.linker.modules, ¬ module.HasSyscall entry.linker.guest.ram

def Linker.relocatedRam (p : Profile) (linker : Linker) (stubs : Option StubAllocator) : Ram :=
  linker.guest.ram.storeAll (linker.stores p stubs)

/-- Nothing that is done with the loaded modules stops the thread: each slot can
be stored to, there is a module to be patched, and the sums and counts fit. -/
structure Linker.Starts (p : Profile) (linker : Linker) (stubs : Option StubAllocator) : Prop where
  relocations : ∀ job ∈ linker.worklist, job.Lands p linker.guest.writable
  entryPoint : ∀ main, linker.mainModule = some main →
    p.SumFits main.baseVirtualAddr main.elf.entryPoint
  binary : ∃ binary ∈ linker.modules, binary.name = "eboot.bin" ∧ (p = .dev →
    (linker.relocatedRam p stubs).syscallCount binary.baseVirtualAddr binary.alignedBaseSize < 2 ^ 32)

def Guest.MapsThread (p : Profile) (sys : Sys) (guest : Guest) : Prop :=
  ∃ tcbBase mapped stackBase mapped',
    guest.mapMemory p sys tcbSize (MemoryProt.cpuRead.union .cpuWrite) .threadData
      "Main Thread TCB" = .ok (.ok tcbBase, mapped) ∧
    mapped.mapMemory p sys stackSize (MemoryProt.cpuRead.union .cpuWrite) .threadData
      "Main Thread Stack" = .ok (.ok stackBase, mapped')

variable {p : Profile} {sys : Sys}

theorem Guest.MapsThread.withRam {guest : Guest} (maps : guest.MapsThread p sys) (ram : Ram) :
    ({ guest with ram } : Guest).MapsThread p sys := by
  obtain ⟨tcbBase, mapped, stackBase, mapped', tcb, stack⟩ := maps
  obtain ⟨ram', tcb⟩ := Guest.mapMemory_withRam ram tcb
  obtain ⟨ram'', stack⟩ := Guest.mapMemory_withRam ram' stack
  exact ⟨tcbBase, _, stackBase, _, tcb, stack⟩

section Run

variable {space : AddressSpace} {linker : Linker} {stubs : Option StubAllocator}

theorem mapThreadMemory_eq {size addr : Nat} {name : String} {mapped : Guest}
    (call : linker.guest.mapMemory p sys size (MemoryProt.cpuRead.union .cpuWrite) .threadData name =
      .ok (.ok addr, mapped)) :
    mapThreadMemory p sys linker size name = .ok (.ok addr, { linker with guest := mapped }) := by
  unfold mapThreadMemory
  rw [call]
  rfl

theorem startThread_enters_iff (returns : (startThread p sys linker stubs).Returns) :
    (∃ entry, startThread p sys linker stubs = .ok (.ok entry)) ↔
      linker.guest.MapsThread p sys := by
  constructor
  · rintro ⟨entry, returned⟩
    obtain ⟨tcbBase, linker₁, stackBase, linker₂, mapped, mapped', -⟩ := startThread_maps returned
    exact ⟨tcbBase, linker₁.guest, stackBase, linker₂.guest,
      (mapThreadMemory_eq_ok mapped).2, (mapThreadMemory_eq_ok mapped').2⟩
  · rintro ⟨tcbBase, mapped, stackBase, mapped', tcb, stack⟩
    obtain ⟨result, returned⟩ := returns
    rw [returned]
    cases result with
    | ok entry => exact ⟨entry, rfl⟩
    | error e =>
      have first := mapThreadMemory_eq tcb
      have second : mapThreadMemory p sys { linker with guest := mapped } _ _ = _ :=
        mapThreadMemory_eq stack
      unfold startThread at returned
      rw [first, Outcome.ok_bind] at returned
      dsimp only at returned
      rw [second, Outcome.ok_bind] at returned
      obtain ⟨entry, -, same⟩ := Outcome.bind_eq_ok.mp returned
      cases same

theorem Linker.relocateAll_ram {relocated : Linker} {stubs' : Option StubAllocator}
    (returned : linker.relocateAll p stubs = .ok (relocated, stubs')) :
    relocated = { linker with guest := { linker.guest with ram := linker.relocatedRam p stubs } } :=
  (Linker.relocateAll_eq_ok returned).1

variable (running : Linker.Running p sys space linker)

include running

/-- The executable segments lie where they are mapped, so they hold the same
bytes in two memories that agree there. -/
theorem hasSyscall_congr {ram ram' : Ram} {module : Module} (listed : module ∈ linker.modules)
    (same : ∀ x < 2 ^ 64, module.block.Contains x → ram' x = ram x) :
    module.HasSyscall ram' ↔ module.HasSyscall ram := by
  have bounded := (running.bounded_module listed).trans (by decide : hostLimit ≤ 2 ^ 64)
  unfold Module.HasSyscall
  refine exists_congr fun ph => and_congr_right fun _ => and_congr_right fun _ =>
    exists_congr fun x => and_congr_right fun _ => and_congr_right fun _ =>
    and_congr_right fun inside => and_congr_right fun inside' => ?_
  have below : x + 1 < 2 ^ 64 := inside'.2.trans_le bounded
  unfold Ram.IsSyscall
  rw [same x (by omega) inside, same (x + 1) below inside']

variable (areas : linker.AreasOfModules)

include areas

theorem hasSyscall_patched {patched : Linker} (returned : patchBinary p linker = .ok patched)
    {module : Module} (listed : module ∈ linker.modules) :
    module.HasSyscall patched.guest.ram ↔
      module.name ≠ "eboot.bin" ∧ module.HasSyscall linker.guest.ram := by
  obtain ⟨binary, listed', name, -, bytes⟩ := patchBinary_eq_ok running areas returned
  have bounded := (running.bounded_module listed).trans (by decide : hostLimit ≤ 2 ^ 64)
  have pairs : ∀ x, module.block.Contains x → module.block.Contains (x + 1) →
      (patched.guest.ram.IsSyscall x ↔
        module.name ≠ "eboot.bin" ∧ linker.guest.ram.IsSyscall x) := by
    rintro x ⟨low, -⟩ ⟨-, high⟩
    have below : x + 1 < 2 ^ 64 := high.trans_le bounded
    have now : patched.guest.ram.IsSyscall x ↔
        (linker.guest.ram.patched binary.baseVirtualAddr binary.alignedBaseSize).IsSyscall x := by
      unfold Ram.IsSyscall
      rw [bytes x (by omega), bytes (x + 1) below]
    rw [now, Ram.patched_isSyscall, and_comm]
    apply and_congr_left'
    by_cases same : module.name = "eboot.bin"
    · obtain rfl := List.inj_on_of_nodup_map running.sound.names listed listed'
        (same.trans name.symm)
      exact iff_of_false (fun outside => outside ⟨low, high⟩) fun other => other same
    · refine iff_of_true (fun inside => ?_) same
      obtain ⟨i, found⟩ := List.mem_iff_getElem?.mp listed
      obtain ⟨j, found'⟩ := List.mem_iff_getElem?.mp listed'
      have other : i ≠ j := by
        rintro rfl
        exact same (Option.some.inj (found.symm.trans found') ▸ name)
      exact (running.sound.block_apart found found' other).not_contains
        ⟨low, (Nat.lt_succ_self x).trans high⟩ ⟨inside.1, (Nat.lt_succ_self x).trans inside.2⟩
  unfold Module.HasSyscall
  constructor
  · rintro ⟨ph, member, executable, x, first, second, inside, inside', pair⟩
    obtain ⟨other, pair⟩ := (pairs x inside inside').mp pair
    exact ⟨other, ph, member, executable, x, first, second, inside, inside', pair⟩
  · rintro ⟨other, ph, member, executable, x, first, second, inside, inside', pair⟩
    exact ⟨ph, member, executable, x, first, second, inside, inside',
      (pairs x inside inside').mpr ⟨other, pair⟩⟩

theorem startGuest_eq_ok {result : Except GuestThreadError GuestEntry}
    (returned : startGuest p sys linker stubs = .ok result) :
    ∃ relocated patched stubs', linker.relocateAll p stubs = .ok (relocated, stubs') ∧
      patchBinary p relocated = .ok patched ∧
      patched = { relocated with guest := { relocated.guest with ram := patched.guest.ram } } ∧
      startThread p sys patched stubs' = .ok result := by
  obtain ⟨⟨relocated, stubs'⟩, relocate, returned⟩ := Outcome.bind_eq_ok.mp returned
  obtain ⟨entryPoint, -, returned⟩ := Outcome.bind_eq_ok.mp returned
  obtain ⟨patched, patch, returned⟩ := Outcome.bind_eq_ok.mp returned
  obtain ⟨-, running', areas'⟩ := Linker.relocateAll_running running areas relocate
  obtain ⟨-, -, -, kept, -⟩ := patchBinary_eq_ok running' areas' patch
  exact ⟨relocated, patched, stubs', relocate, patch, kept, returned⟩

variable (lawful : sys.Lawful)

include lawful

/-- Nothing stops the thread before the guest is entered, exactly if `Starts` holds. -/
theorem startGuest_returns : (startGuest p sys linker stubs).Returns ↔ linker.Starts p stubs := by
  unfold startGuest
  constructor
  · rintro ⟨result, returned⟩
    obtain ⟨⟨relocated, stubs'⟩, relocate, returned⟩ := Outcome.bind_eq_ok.mp returned
    obtain ⟨entryPoint, entered, returned⟩ := Outcome.bind_eq_ok.mp returned
    obtain ⟨patched, patch, -⟩ := Outcome.bind_eq_ok.mp returned
    obtain ⟨-, running', areas'⟩ := Linker.relocateAll_running running areas relocate
    have fits := Linker.entryPoint_returns.mp ⟨_, entered⟩
    have binary := (patchBinary_returns running' areas').mp ⟨_, patch⟩
    rw [Linker.relocateAll_ram relocate] at fits binary
    exact ⟨Linker.relocateAll_returns.mp ⟨_, relocate⟩, fits, binary⟩
  · intro starts
    have relocates : (linker.relocateAll p stubs).Returns :=
      Linker.relocateAll_returns.mpr starts.relocations
    obtain ⟨⟨relocated, stubs'⟩, relocate⟩ := relocates
    obtain ⟨modules, running', areas'⟩ := Linker.relocateAll_running running areas relocate
    have same := Linker.relocateAll_ram relocate
    obtain ⟨entryPoint, entered⟩ : (relocated.entryPoint p).Returns := by
      rw [same]
      exact Linker.entryPoint_returns.mpr starts.entryPoint
    obtain ⟨patched, patch⟩ : (patchBinary p relocated).Returns := by
      apply (patchBinary_returns running' areas').mpr
      rw [same]
      exact starts.binary
    obtain ⟨binary, member, -⟩ := starts.binary
    obtain ⟨main, rest, listed⟩ := List.exists_cons_of_ne_nil (List.ne_nil_of_mem member)
    have isMain : linker.mainModule = some main := by
      rw [Linker.mainModule, listed]
      rfl
    obtain ⟨-, -, -, kept, -⟩ := patchBinary_eq_ok running' areas' patch
    rw [relocate, Outcome.ok_bind]
    dsimp only
    rw [entered, Outcome.ok_bind, patch, Outcome.ok_bind]
    refine startThread_returns lawful ?_ running.fixedSize running.bounded ?_
      (starts.entryPoint main isMain)
    · rw [kept]
      exact running'.sound.regional
    · rw [kept]
      rw [Linker.mainModule] at isMain ⊢
      rw [← isMain, ← modules]

/-- The guest is entered with the pairs of all modules but `eboot.bin`. -/
theorem startGuest_hasSyscall {entry : GuestEntry}
    (entered : startGuest p sys linker stubs = .ok (.ok entry)) :
    entry.linker.modules = linker.modules ∧ ∀ module ∈ linker.modules,
      (module.HasSyscall entry.linker.guest.ram ↔
        module.name ≠ "eboot.bin" ∧ module.HasSyscall (linker.relocatedRam p stubs)) := by
  obtain ⟨relocated, patched, stubs', relocate, patch, kept, start⟩ :=
    startGuest_eq_ok running areas entered
  obtain ⟨modules, running', areas'⟩ := Linker.relocateAll_running running areas relocate
  have memory : patched.guest.memory = relocated.guest.memory := by rw [kept]
  have modules' : patched.modules = relocated.modules := by rw [kept]
  obtain ⟨modules'', bytes⟩ := startThread_eq_ok lawful (memory ▸ running'.sound.regional)
    running.fixedSize running.bounded start
  refine ⟨modules''.trans (modules'.trans modules), fun module listed => ?_⟩
  have listed' : module ∈ relocated.modules := modules ▸ listed
  have ram : relocated.guest.ram = linker.relocatedRam p stubs := by
    rw [Linker.relocateAll_ram relocate]
  rw [← ram, ← hasSyscall_patched running' areas' patch listed']
  apply hasSyscall_congr running listed
  intro x word inside
  exact bytes _ (memory ▸ running'.sound.blocks) module.block
    (List.mem_reverse.mpr (List.mem_map_of_mem listed')) x word inside

theorem startGuest_enters_iff (starts : linker.Starts p stubs) :
    (∃ entry, startGuest p sys linker stubs = .ok (.ok entry)) ↔
      linker.guest.MapsThread p sys := by
  obtain ⟨result, returned⟩ := (startGuest_returns running areas lawful).mpr starts
  obtain ⟨relocated, patched, stubs', relocate, patch, kept, start⟩ :=
    startGuest_eq_ok running areas returned
  have same : patched.guest = { linker.guest with ram := patched.guest.ram } := by
    rw [kept, Linker.relocateAll_ram relocate]
  have enters := startThread_enters_iff ⟨result, start⟩
  rw [start] at enters
  rw [returned]
  refine enters.trans ⟨fun maps => ?_, fun maps => same ▸ maps.withRam patched.guest.ram⟩
  have back := maps.withRam linker.guest.ram
  rw [same] at back
  exact back

end Run

section Thread

variable {boot : HostBoot} {guest : Guest} {hleSymbols : SymbolResolver} {fuel i : Nat}
  {executable : Path} {loaded : Linker}

theorem runEmulatorGuestThread_eq (stubs : Option StubAllocator)
    (present : sys.pathExists executable = true)
    (call : Linker.loadModule p sys fuel executable (Linker.registered guest hleSymbols) =
      .ok (.ok i, loaded)) :
    runEmulatorGuestThread p sys fuel executable (Linker.registered guest hleSymbols) stubs =
      (startGuest p sys loaded stubs).widen := by
  unfold runEmulatorGuestThread
  rw [present, call]
  rfl

variable (lawful : sys.Lawful) (bootLawful : boot.Lawful)
  (booted : MemoryManager.new boot = .ok guest.memory) (stubs : Option StubAllocator)
  (present : sys.pathExists executable = true)
  (call : Linker.loadModule p sys fuel executable (Linker.registered guest hleSymbols) =
    .ok (.ok i, loaded))

include lawful bootLawful booted call

theorem loaded_running :
    Linker.Running p sys guest.memory.addressSpace loaded ∧ loaded.AreasOfModules := by
  have calls : Trace (Linker.LoadCall p sys) (Linker.registered guest hleSymbols)
      [(executable, .ok i)] loaded := .snoc .nil ⟨fuel, call⟩
  exact ⟨Linker.Running.calls lawful bootLawful booted calls,
    Linker.areasOfModules lawful bootLawful booted calls⟩

include present

theorem runEmulatorGuestThread_not_panics :
    ¬ (runEmulatorGuestThread p sys fuel executable (Linker.registered guest hleSymbols)
      stubs).Panics ↔ loaded.Starts p stubs := by
  obtain ⟨running, areas⟩ := loaded_running lawful bootLawful booted call
  rw [runEmulatorGuestThread_eq stubs present call, ← startGuest_returns running areas lawful]
  exact Outcome.not_panics_widen

theorem runEmulatorGuestThread_stops (stops : ¬ loaded.Starts p stubs) :
    (∃ cause, runEmulatorGuestThread p sys fuel executable (Linker.registered guest hleSymbols)
      stubs = .panic cause) ∧
    ¬ Contained p sys fuel executable (Linker.registered guest hleSymbols) stubs := by
  have starts := runEmulatorGuestThread_not_panics lawful bootLawful booted stubs present call
  exact ⟨Outcome.panics_iff.mp (not_not.mp (mt starts.mp stops)),
    fun contained => stops (starts.mp contained.starts)⟩

end Thread

/-- The guest is contained exactly if the thread gets through with `eboot.bin`
and, where it enters the guest, the other modules have no system call. -/
theorem runEmulatorGuestThread_contained_iff (p : Profile) {sys : Sys} (lawful : sys.Lawful)
    {boot : HostBoot} (bootLawful : boot.Lawful) {guest : Guest}
    (booted : MemoryManager.new boot = .ok guest.memory) {hleSymbols : SymbolResolver}
    {fuel i : Nat} {executable : Path} {loaded : Linker} (stubs : Option StubAllocator)
    (present : sys.pathExists executable = true)
    (call : Linker.loadModule p sys fuel executable (Linker.registered guest hleSymbols) =
      .ok (.ok i, loaded)) :
    Contained p sys fuel executable (Linker.registered guest hleSymbols) stubs ↔
      loaded.Starts p stubs ∧ (loaded.guest.MapsThread p sys → ∀ module ∈ loaded.modules,
        module.name ≠ "eboot.bin" → ¬ module.HasSyscall (loaded.relocatedRam p stubs)) := by
  have panics := runEmulatorGuestThread_not_panics lawful bootLawful booted stubs present call
  have run := runEmulatorGuestThread_eq stubs present call
  obtain ⟨running, areas⟩ := loaded_running lawful bootLawful booted call
  constructor
  · rintro ⟨starts, free⟩
    have starts := panics.mp starts
    refine ⟨starts, fun maps module listed other pair => ?_⟩
    obtain ⟨entry, entered⟩ := (startGuest_enters_iff running areas lawful starts).mpr maps
    obtain ⟨modules, left⟩ := startGuest_hasSyscall running areas lawful entered
    rw [run] at free
    exact free entry (Outcome.widen_eq_ok.mpr entered) module (modules ▸ listed)
      ((left module listed).mpr ⟨other, pair⟩)
  · rintro ⟨starts, free⟩
    refine ⟨panics.mpr starts, fun entry entered module listed pair => ?_⟩
    rw [run, Outcome.widen_eq_ok] at entered
    obtain ⟨modules, left⟩ := startGuest_hasSyscall running areas lawful entered
    rw [modules] at listed
    obtain ⟨other, pair⟩ := (left module listed).mp pair
    exact free ((startGuest_enters_iff running areas lawful starts).mp ⟨entry, entered⟩) module
      listed other pair

def Guest.threadBases (p : Profile) (sys : Sys) (guest : Guest) : Option (Nat × Nat) :=
  match guest.mapMemory p sys tcbSize (MemoryProt.cpuRead.union .cpuWrite) .threadData
      "Main Thread TCB" with
  | .ok (.ok tcbBase, mapped) =>
    match mapped.mapMemory p sys stackSize (MemoryProt.cpuRead.union .cpuWrite) .threadData
        "Main Thread Stack" with
    | .ok (.ok stackBase, _) => some (tcbBase, stackBase)
    | _ => none
  | _ => none

theorem Guest.threadBases_eq_some {guest : Guest} {bases : Nat × Nat}
    (found : guest.threadBases p sys = some bases) : guest.MapsThread p sys := by
  unfold threadBases at found
  split at found
  · next tcb =>
    split at found
    · next stack => exact ⟨_, _, _, _, tcb, stack⟩
    · cases found
  · cases found

/-- A game whose executable has a system call, with a library beside it. -/
theorem runEmulatorGuestThread_contained_iff_game :
    ∃ loaded main lib, Linker.loadModule .dev (gameHost 0x10) 2 (.new "eboot.bin")
        (Linker.registered .booted .new) = .ok (.ok 0, loaded) ∧
      loaded.modules = [main, lib] ∧ main.HasSyscall (loaded.relocatedRam .dev none) ∧
      (∃ entry, runEmulatorGuestThread .dev (gameHost 0x10) 2 (.new "eboot.bin")
        (Linker.registered .booted .new) none = .ok (.ok entry)) ∧
      Contained .dev (gameHost 0x10) 2 (.new "eboot.bin") (Linker.registered .booted .new) none := by
  obtain ⟨main, lib, loaded, call, modules, game, ram, loads, pair, guest⟩ :=
    @exists_game 0x10 (by decide +kernel)
  obtain ⟨returns, stores⟩ := game_relocates game modules (by decide)
  have lawful := gameHost_lawful 0x10
  have present : (gameHost 0x10).pathExists (.new "eboot.bin") = true := by
    simp [gameHost, Sys.files]
  have maps : loaded.guest.MapsThread .dev (gameHost 0x10) := by
    have bases : (loadPair (gameHost 0x10)).bind (fun loads =>
        loads.2.2.1.threadBases .dev (gameHost 0x10)) = some (0x1000008000, 0x100000C000) := by
      decide +kernel
    rw [pair] at bases
    rw [guest]
    exact (Guest.threadBases_eq_some bases).withRam loaded.guest.ram
  obtain ⟨⟨mainName, mainBlock, mainLow, entry, segments⟩, ⟨-, libBlock, libLow, libSegments⟩, -⟩ :=
    game
  obtain ⟨base, size⟩ := Prod.mk.inj mainBlock
  have starts : loaded.Starts .dev none := by
    refine ⟨Linker.relocateAll_returns.mp returns, fun other isMain => ?_, main, ?_, mainName,
      fun _ => ?_⟩
    · rw [Linker.mainModule, modules] at isMain
      obtain rfl := Option.some.inj isMain
      rw [base, entry]
      exact fun _ => by decide
    · rw [modules]
      exact List.mem_cons_self
    · rw [size]
      exact Ram.syscallCount_lt (by decide) (by decide)
  have contained := (runEmulatorGuestThread_contained_iff .dev lawful HostBoot.low_lawful
    MemoryManager.new_low none present call).mpr ⟨starts, fun _ module member other => ?_⟩
  · obtain ⟨running, areas⟩ := loaded_running lawful HostBoot.low_lawful MemoryManager.new_low call
    obtain ⟨entry, entered⟩ := (startGuest_enters_iff running areas lawful starts).mpr maps
    refine ⟨loaded, main, lib, call, modules, ?_, ⟨entry, ?_⟩, contained⟩
    · obtain ⟨code, rest, listed, shape, -⟩ := List.map_eq_cons_iff.mp segments
      simp only [Prod.mk.injEq] at shape
      refine ⟨code, by rw [listed]; exact List.mem_cons_self, shape.1, 0x1000000000, ?_, ?_, ?_⟩
      · unfold Module.InSegment
        rw [base, mainLow, shape.2.1, shape.2.2]
        decide
      · unfold Module.InSegment
        rw [base, mainLow, shape.2.1, shape.2.2]
        decide
      · rw [mainBlock, Linker.relocatedRam, stores, Ram.storeAll_singleton]
        exact ⟨⟨by decide, by decide⟩, ⟨by decide, by decide⟩, ram.call⟩
    · rw [runEmulatorGuestThread_eq none present call, entered]
      rfl
  · rw [modules, List.mem_cons, List.mem_singleton] at member
    rcases member with rfl | rfl
    · exact absurd mainName other
    · rintro ⟨ph, listed, executable, x, first, second, -⟩
      obtain ⟨code, rest, only, shape, others⟩ := List.map_eq_cons_iff.mp libSegments
      obtain rfl := List.map_eq_nil_iff.mp others
      rw [only, List.mem_singleton] at listed
      subst listed
      simp only [Prod.mk.injEq] at shape
      unfold Module.InSegment at first second
      rw [libLow, shape.2.1, shape.2.2] at first second
      omega

/-- An executable of another name is loaded, and then the thread panics. -/
theorem runEmulatorGuestThread_panics_elf :
    ∃ i loaded cause, Linker.loadModule .dev (.single (codeImage 0 [0x90, 0xC3])) 3
        (.new "game.elf") (Linker.registered .booted .new) = .ok (.ok i, loaded) ∧
      runEmulatorGuestThread .dev (.single (codeImage 0 [0x90, 0xC3])) 3 (.new "game.elf")
        (Linker.registered .booted .new) none = .panic cause ∧
      ¬ Contained .dev (.single (codeImage 0 [0x90, 0xC3])) 3 (.new "game.elf")
        (Linker.registered .booted .new) none := by
  have facts : (Linker.afterLoad .dev (.single (codeImage 0 [0x90, 0xC3])) (.new "game.elf")).map
      (fun linker => linker.modules.map (·.name)) = some ["game.elf"] := by decide +kernel
  obtain ⟨loaded, found, names⟩ := Option.map_eq_some_iff.mp facts
  obtain ⟨i, call⟩ := Linker.afterLoad_eq_some_iff.mp found
  have stops : ¬ loaded.Starts .dev none := by
    rintro ⟨-, -, binary, member, name, -⟩
    have named : binary.name ∈ ["game.elf"] := names ▸ List.mem_map_of_mem member
    rw [name] at named
    exact absurd named (by decide)
  obtain ⟨⟨cause, panicked⟩, exposed⟩ := runEmulatorGuestThread_stops (fun _ => Host.roomy_lawful)
    HostBoot.low_lawful MemoryManager.new_low none rfl call stops
  exact ⟨i, loaded, cause, call, panicked, exposed⟩

end AnotherPs4
