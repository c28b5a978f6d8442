import AnotherPs4.Bin.GuestThread
import AnotherPs4.Linker.CodePatches
import AnotherPs4.Linker.Identity

/-!
# Data under the patch of system calls

The patch runs over the whole region of `eboot.bin`, after relocation. It leaves
data alone exactly if no pair of bytes in that region ends in data.
-/

namespace AnotherPs4

open Rust Patterns Transition

namespace Module

/-- The address lies in a segment of the module, as it is loaded. -/
def InSegment (module : Module) (ph : ProgramHeader) (x : Nat) : Prop :=
  module.baseVirtualAddr + ph.vaddr ≤ x + module.minAddr ∧
    x + module.minAddr < module.baseVirtualAddr + ph.vaddr + ph.memsz

/-- The address lies in a segment that is executable, or in one that is not. -/
def InSegmentWith (module : Module) (executable : Bool) (x : Nat) : Prop :=
  ∃ ph ∈ module.elf.loadSegments, ph.flags.contains .execute = executable ∧ module.InSegment ph x

end Module

namespace Store

def Covers (store : Store) (x : Nat) : Prop := ∃ k < 8, x = (store.addr + k) % 2 ^ 64

def HeldIn (store : Store) (ram : Ram) : Prop :=
  ∀ k < 8, ram ((store.addr + k) % 2 ^ 64) = (leBytes 8 store.value).getD k 0

end Store

/-- The address is none of an instruction: it is outside the executable segments,
in another segment, or in the slot of a relocation. -/
def Module.IsData (main : Module) (stores : List (Option Store)) (x : Nat) : Prop :=
  ¬ main.InSegmentWith true x ∨ main.InSegmentWith false x ∨
    ∃ store, some store ∈ stores ∧ store.Covers x

/-- The data of a module is the same in both memories. -/
structure SparesData (main : Module) (stores : List (Option Store)) (ram ram' : Ram) : Prop where
  data : ∀ x < 2 ^ 64, main.IsData stores x → ram' x = ram x
  slots : ∀ store, some store ∈ stores → store.HeldIn ram → store.HeldIn ram'

variable {main : Module} {stores : List (Option Store)} {ram ram' : Ram}

theorem sparesData_iff_data :
    SparesData main stores ram ram' ↔ ∀ x < 2 ^ 64, main.IsData stores x → ram' x = ram x := by
  refine ⟨SparesData.data, fun data => ⟨data, fun store applied held k inside => ?_⟩⟩
  have slot : main.IsData stores ((store.addr + k) % 2 ^ 64) :=
    .inr (.inr ⟨store, applied, k, inside, rfl⟩)
  rw [data _ (Nat.mod_lt _ (by decide)) slot]
  exact held k inside

/-- The patch spares what no pair of its range ends in. -/
theorem patched_sparesData_iff {base size : Nat} (bounded : base + size ≤ 2 ^ 64)
    (patched : ∀ x < 2 ^ 64, ram' x = ram.patched base size x) :
    SparesData main stores ram ram' ↔
      ∀ x, base ≤ x → x + 1 < base + size → ram.IsSyscall x → ¬ main.IsData stores (x + 1) := by
  rw [sparesData_iff_data]
  constructor
  · intro kept x low high pair data
    have changed : ram.patched base size (x + 1) ≠ ram (x + 1) :=
      Ram.patched_ne.mpr ⟨by omega, high, pair⟩
    exact changed ((patched _ (by omega)).symm.trans (kept _ (by omega) data))
  · intro spared x word data
    by_contra changed
    rw [patched x word] at changed
    obtain ⟨low, high, pair⟩ := Ram.patched_ne.mp changed
    have next : x - 1 + 1 = x := by omega
    exact spared (x - 1) (by omega) (by omega) pair (next ▸ data)

/-- Patching after relocation spares the data of the main module exactly if, in
the region of `eboot.bin`, no pair that relocation left ends in data. -/
theorem patchBinary_sparesData_iff (p : Profile) {sys : Sys} (lawful : sys.Lawful)
    {boot : HostBoot} (bootLawful : boot.Lawful) {guest : Guest}
    (booted : MemoryManager.new boot = .ok guest.memory) {hleSymbols : SymbolResolver}
    {calls : List (Path × Except LinkError Nat)} {linker relocated patched : Linker}
    (run : Trace (Linker.LoadCall p sys) (Linker.registered guest hleSymbols) calls linker)
    {stubs stubs' : Option StubAllocator}
    (returned : linker.relocateAll p stubs = .ok (relocated, stubs'))
    (returned' : patchBinary p relocated = .ok patched) (main : Module)
    (_ : linker.mainModule = some main) :
    SparesData main (linker.stores p stubs) relocated.guest.ram patched.guest.ram ↔
      ∀ binary ∈ linker.modules, binary.name = "eboot.bin" →
        ∀ x, binary.baseVirtualAddr ≤ x →
          x + 1 < binary.baseVirtualAddr + binary.alignedBaseSize →
          relocated.guest.ram.IsSyscall x → ¬ main.IsData (linker.stores p stubs) (x + 1) := by
  have running := Linker.Running.calls lawful bootLawful booted run
  have areas := Linker.areasOfModules lawful bootLawful booted run
  obtain ⟨modules, running', areas'⟩ := Linker.relocateAll_running running areas returned
  obtain ⟨binary, listed, name, -, bytes⟩ := patchBinary_eq_ok running' areas' returned'
  rw [modules] at listed
  have bounded := (running.bounded_module listed).trans (by decide : hostLimit ≤ 2 ^ 64)
  rw [patched_sparesData_iff bounded bytes]
  refine ⟨fun spared other member named => ?_, fun spared => spared binary listed name⟩
  rw [List.inj_on_of_nodup_map running.sound.names member listed (named.trans name.symm)]
  exact spared

/-- A load segment for data, without bytes in the file. -/
def dataHeaderBytes (vaddr memsz : Nat) : List UInt8 :=
  leBytes 4 1 ++ leBytes 4 6 ++ leBytes 8 0 ++ leBytes 8 vaddr ++ leBytes 8 vaddr ++ leBytes 8 0 ++
    leBytes 8 memsz ++ leBytes 8 pageSize

/-- An image with a system call, a data segment with a pointer to relocate, and a dependency. -/
def gameImage (addend : Nat) : List UInt8 :=
  let names := nameBytes ["lib.prx"]
  let relocations := relocationBytes 0x1000 0 rX86_64Relative addend
  let entries := dynlibEntries 0 names.length relocations.length ++ [(1, 1)]
  entryHeaderBytes 0 4 ++ loadHeaderBytes 288 0 2 0x1000 ++ dataHeaderBytes 0x1000 0x3000 ++
    tableHeaderBytes 2 290 (16 * entries.length) ++
    tableHeaderBytes 0x61000000 (290 + 16 * entries.length) (names ++ relocations).length ++
    [0x0F, 0x05] ++ entries.flatMap (fun entry => leBytes 8 entry.1 ++ leBytes 8 entry.2) ++
    names ++ relocations

/-- A host with a game: its executable, and a library of one instruction. -/
def gameHost (addend : Nat) : Sys :=
  .files [(.new "eboot.bin", gameImage addend), (.new "lib.prx", codeImage 0 [0xC3])]

theorem gameHost_lawful (addend : Nat) : (gameHost addend).Lawful := fun _ => Host.roomy_lawful

def loadPair (sys : Sys) : Option ((Module × Guest × Nat) × Module × Guest × Nat) :=
  match Module.load .dev sys (.new "eboot.bin") .booted 0 with
  | .ok (.ok main, guest, tls) =>
    match Module.load .dev sys (.new "lib.prx") guest tls with
    | .ok (.ok lib, guest', tls') => some ((main, guest, tls), lib, guest', tls')
    | _ => none
  | _ => none

theorem loadPair_eq_some {sys : Sys} {main lib : Module} {guest guest' : Guest} {tls tls' : Nat}
    (loaded : loadPair sys = some ((main, guest, tls), lib, guest', tls')) :
    Module.load .dev sys (.new "eboot.bin") .booted 0 = .ok (.ok main, guest, tls) ∧
      Module.load .dev sys (.new "lib.prx") guest tls = .ok (.ok lib, guest', tls') := by
  unfold loadPair at loaded
  split at loaded
  · next first =>
    split at loaded
    · next second =>
      cases loaded
      exact ⟨first, second⟩
    · cases loaded
  · cases loaded

def gameRelocation (addend : Nat) : ParsedRelocation :=
  ⟨0x1000, rX86_64Relative, addend, "", 0, 0, false⟩

/-- The loaded game: what its modules are called, where they are, what their segments are and
hold, and what they ask for. -/
def Game (addend : Nat) (main lib : Module) (guest : Guest) : Prop :=
  (main.name = "eboot.bin" ∧ main.block = (0x1000000000, 0x4000) ∧ main.minAddr = 0 ∧
    main.elf.entryPoint = 0 ∧
    main.elf.loadSegments.map (fun ph => (ph.flags.contains .execute, ph.vaddr, ph.memsz)) =
      [(true, 0, 0x1000), (false, 0x1000, 0x3000)]) ∧
  (lib.name = "lib.prx" ∧ lib.block = (0x1000004000, 0x4000) ∧ lib.minAddr = 0 ∧
    lib.elf.loadSegments.map (fun ph => (ph.flags.contains .execute, ph.vaddr, ph.memsz)) =
      [(true, 0, 1)]) ∧
  (Module.loadContents .dev main.elf = [(0, [0x0F, 0x05])] ∧
    Module.loadContents .dev lib.elf = [(0, [0xC3])]) ∧
  (main.elf.neededModules .dev = (.ok ["lib.prx"] : Outcome Empty _) ∧
    lib.elf.neededModules .dev = (.ok [] : Outcome Empty _)) ∧
  (main.relocations = [gameRelocation addend] ∧
    lib.relocations = []) ∧
  SlotAllowed .dev guest.writable 0x1000001000

instance (addend : Nat) (main lib : Module) (guest : Guest) :
    Decidable (Game addend main lib guest) :=
  inferInstanceAs (Decidable (_ ∧ _ ∧ _ ∧ _ ∧ _ ∧ _))

theorem Module.load_ram {sys : Sys} {path : Path} {guest guest' : Guest} {tls tls' base size : Nat}
    {module : Module} {bytes : List UInt8} (word : base < 2 ^ 64)
    (loaded : Module.load .dev sys path guest tls = .ok (.ok module, guest', tls'))
    (block : module.block = (base, size)) (lowest : module.minAddr = 0)
    (contents : Module.loadContents .dev module.elf = [(0, bytes)]) :
    guest'.ram = (guest.ram.zero base (roundUp size pageSize)).write base bytes := by
  obtain ⟨rfl, rfl⟩ := Prod.mk.inj block
  have start : module.cell 0 = module.baseVirtualAddr := by
    rw [Module.cell, Module.cellAt, lowest]
    omega
  rw [((Module.oneBias_iff_minAddr loaded).mpr lowest).segments, contents, List.map_singleton]
  dsimp only
  rw [start]
  rfl

section Sample

variable {addend : Nat} {main lib : Module} {linker : Linker}

/-- The memory of the game: its two instructions, and nothing else in its region. -/
structure GameRam (ram : Ram) : Prop where
  first : ram 0x1000000000 = 0x0F
  second : ram 0x1000000001 = 0x05
  zeros : ∀ x, 0x1000000002 ≤ x → x < 0x1000004000 → ram x = 0

theorem GameRam.congr {ram ram' : Ram} (game : GameRam ram)
    (same : ∀ x < 0x1000004000, ram' x = ram x) : GameRam ram' where
  first := (same _ (by decide)).trans game.first
  second := (same _ (by decide)).trans game.second
  zeros x low high := (same x high).trans (game.zeros x low high)

theorem GameRam.no_trap {ram : Ram} (game : GameRam ram) (a : Nat) :
    ¬ OccursAt ram Linker.trapPattern 0x1000000000 0x4000 a := by
  rintro ⟨low, high, spelled⟩
  have letter : ram a = 0x85 := spelled 0 (by decide)
  rcases Nat.lt_or_ge a 0x1000000002 with early | late
  · obtain rfl | rfl : a = 0x1000000000 ∨ a = 0x1000000001 := by omega
    · exact absurd (game.first.symm.trans letter) (by decide)
    · exact absurd (game.second.symm.trans letter) (by decide)
  · rw [game.zeros a late ((Nat.lt_add_of_pos_right (by decide)).trans_le high)] at letter
    exact absurd letter (by decide)

theorem gameRam_loaded : GameRam
    ((Guest.booted.ram.zero 0x1000000000 (roundUp 0x4000 pageSize)).write 0x1000000000
      [0x0F, 0x05]) where
  first := Ram.write_inside (k := 0) (by decide) (by decide)
  second := Ram.write_inside (k := 1) (by decide) (by decide)
  zeros x low high := by
    rw [Ram.write_outside (by decide) (by omega) fun inside => absurd inside.2 (not_lt.mpr low)]
    unfold Ram.zero
    split
    · rfl
    · rfl

theorem exists_game (facts : (loadPair (gameHost addend)).any (fun loads =>
    decide (Game addend loads.1.1 loads.2.1 loads.2.2.1)) = true) :
    ∃ main lib linker, Linker.loadModule .dev (gameHost addend) 2 (.new "eboot.bin")
        (Linker.registered .booted .new) = .ok (.ok 0, linker) ∧
      linker.modules = [main, lib] ∧ Game addend main lib linker.guest ∧
      GameRam linker.guest.ram ∧ ∃ loads, loadPair (gameHost addend) = some loads ∧
        linker.guest = { loads.2.2.1 with ram := linker.guest.ram } := by
  obtain ⟨⟨⟨main, guest, tls⟩, lib, guest', tls'⟩, loaded, game⟩ :=
    (Option.any_eq_true _ _).mp facts
  obtain ⟨loadMain, loadLib⟩ := loadPair_eq_some loaded
  have game : Game addend main lib guest' := of_decide_eq_true game
  obtain ⟨⟨mainName, mainBlock, mainLow, -⟩, ⟨libName, libBlock, libLow, -⟩,
    ⟨mainBytes, libBytes⟩, ⟨mainNeeds, libNeeds⟩, -⟩ := id game
  have start : GameRam guest.ram := by
    rw [Module.load_ram (by decide) loadMain mainBlock mainLow mainBytes]
    exact gameRam_loaded
  obtain ⟨base, size⟩ := Prod.mk.inj mainBlock
  obtain ⟨ram, patched, kept⟩ := (patchTraps_replaces (p := .dev) (by decide)).of_none start.no_trap
  obtain ⟨ram', loadLib'⟩ := Module.load_withRam loadLib ram
  have after := Module.load_ram (by decide) loadLib' libBlock libLow libBytes
  let middle : Linker := { Linker.registered { guest with ram } .new with
    modules := [main], maxTlsIndex := tls }
  let final : Linker := { Linker.registered { guest' with ram := ram' } .new with
    modules := [main, lib], maxTlsIndex := tls' }
  have patchMain : Linker.patchModule .dev main.name 0
      { Linker.registered guest .new with modules := [main], maxTlsIndex := tls } =
      .ok ((), middle) := by
    unfold Linker.patchModule
    rw [if_pos mainName]
    dsimp only [List.getElem?_cons_zero, Linker.registered, Linker.new]
    rw [base, size, patched]
    rfl
  have patchLib : Linker.patchModule .dev lib.name 1 final = .ok ((), final) := by
    unfold Linker.patchModule
    rw [if_neg (by rw [libName]; decide)]
  have fresh : middle.loadedIndex (.new "lib.prx") = none := by
    have other : moduleName (.new "lib.prx") = "lib.prx" := by decide +kernel
    simp [Linker.loadedIndex, middle, mainName, other]
  have callLib : Linker.loadModule .dev (gameHost addend) 1 (.new "lib.prx") middle =
      .ok (.ok 1, final) :=
    Linker.loadModule_new fresh loadLib' libNeeds patchLib rfl
  have found : Linker.dependencyPath (gameHost addend)
      ((Path.new "eboot.bin").parent.getD .empty) "lib.prx" = some (.new "lib.prx") := by
    have beside : ((Path.new "eboot.bin").parent.getD .empty).join (.new "lib.prx") =
        .new "lib.prx" := by decide +kernel
    have present : (gameHost addend).pathExists (.new "lib.prx") = true := by
      simp [gameHost, Sys.files]
    unfold Linker.dependencyPath
    rw [beside]
    exact if_pos present
  have dependencies : Linker.loadDependencies (gameHost addend)
      (Linker.loadModule .dev (gameHost addend) 1) ((Path.new "eboot.bin").parent.getD .empty)
      ["lib.prx"] middle = .ok ((), final) := by
    unfold Linker.loadDependencies Linker.loadDependency
    rw [found]
    refine LoadM.bind_eq_ok.mpr ⟨(), final, ?_, rfl⟩
    exact LoadM.bind_eq_ok.mpr ⟨.ok 1, final, callLib, rfl⟩
  refine ⟨main, lib, final, Linker.loadModule_new rfl loadMain mainNeeds patchMain dependencies,
    rfl, game, ?_, _, loaded, rfl⟩
  refine (start.congr fun x _ => kept x (by omega)).congr fun x below => ?_
  change ram' x = ram x
  dsimp only at after
  rw [after, Ram.write_outside (by decide) (by omega) fun inside => absurd inside.1 (by omega),
    Ram.zero_outside fun inside => absurd inside.1 (by omega)]

def gamePointer (addend : Nat) : Store := ⟨0x1000001000, 0x1000000000 + addend⟩

theorem game_relocates (game : Game addend main lib linker.guest)
    (modules : linker.modules = [main, lib]) (small : addend < 2 ^ 32) :
    (linker.relocateAll .dev none).Returns ∧
      linker.stores .dev none = [some (gamePointer addend)] := by
  obtain ⟨⟨-, block, -⟩, -, -, -, ⟨mainRelocs, libRelocs⟩, allowed⟩ := game
  obtain ⟨base, -⟩ := Prod.mk.inj block
  have work : linker.worklist = [(main, gameRelocation addend)] := by
    simp [Linker.worklist, modules, mainRelocs, libRelocs]
  have lands : Job.Lands .dev linker.guest.writable
      (main, gameRelocation addend) := by
    refine ⟨fun _ => ?_, fun _ => ?_⟩
    · rw [base]
      exact (by decide : 0x1000000000 + 0x1000 < 2 ^ 64)
    · rw [Job.slot, base]
      exact allowed
  refine ⟨Linker.relocateAll_returns.mpr (by rw [work]; simpa using lands), ?_⟩
  have value : unsigned 64 (gameRelocation addend).addend = addend := by
    change ((addend : Int) % (2 ^ 64 : Nat)).toNat = addend
    omega
  obtain ⟨stubs', stored, -⟩ := @checkedStore_of_lands _ linker.hleSymbols _ _ lands none
  unfold Linker.stores
  rw [work]
  unfold storesOf
  rw [stored]
  unfold ParsedRelocation.storeAt gamePointer
  rw [if_pos (by rfl)]
  dsimp only
  rw [base, value, Nat.mod_eq_of_lt (by omega : 0x1000000000 + addend < 2 ^ 64)]
  rfl

theorem exists_patched (facts : (loadPair (gameHost addend)).any (fun loads =>
    decide (Game addend loads.1.1 loads.2.1 loads.2.2.1)) = true) (small : addend < 2 ^ 32) :
    ∃ calls linker relocated stubs' patched main lib,
      Trace (Linker.LoadCall .dev (gameHost addend)) (Linker.registered .booted .new) calls linker ∧
      linker.relocateAll .dev none = .ok (relocated, stubs') ∧
      patchBinary .dev relocated = .ok patched ∧ linker.modules = [main, lib] ∧
      Game addend main lib linker.guest ∧ GameRam linker.guest.ram ∧
      linker.stores .dev none = [some (gamePointer addend)] ∧
      relocated.guest.ram = linker.guest.ram.store (gamePointer addend) ∧
      ∀ x < 2 ^ 64, patched.guest.ram x = relocated.guest.ram.patched 0x1000000000 0x4000 x := by
  obtain ⟨main, lib, linker, call, modules, game, ram, -⟩ := exists_game facts
  have run : Trace (Linker.LoadCall .dev (gameHost addend)) (Linker.registered .booted .new)
      [(.new "eboot.bin", .ok 0)] linker := .snoc .nil ⟨2, call⟩
  have lawful := gameHost_lawful addend
  have running := Linker.Running.calls lawful HostBoot.low_lawful MemoryManager.new_low run
  have areas := Linker.areasOfModules lawful HostBoot.low_lawful MemoryManager.new_low run
  obtain ⟨⟨⟨relocated, stubs'⟩, returned⟩, stores⟩ := game_relocates game modules small
  obtain ⟨memory, -⟩ := Linker.relocateAll_eq_ok returned
  obtain ⟨moved, running', areas'⟩ := Linker.relocateAll_running running areas returned
  have member : main ∈ linker.modules := by simp [modules]
  have block := game.1.2.1
  obtain ⟨base, size⟩ := Prod.mk.inj block
  obtain ⟨patched, returned'⟩ := (patchBinary_returns running' areas').mpr
    ⟨main, moved ▸ member, game.1.1, fun _ =>
      Ram.syscallCount_lt (running.nonempty_module member) (by rw [size]; decide)⟩
  obtain ⟨binary, listed, name, -, bytes⟩ := patchBinary_eq_ok running' areas' returned'
  obtain rfl := List.inj_on_of_nodup_map running'.sound.names listed (moved ▸ member)
    (name.trans game.1.1.symm)
  rw [base, size] at bytes
  refine ⟨_, linker, relocated, stubs', patched, binary, lib, run, returned, returned', modules,
    game, ram, stores, ?_, bytes⟩
  rw [memory, stores, Ram.storeAll_singleton]

theorem gamePointer_cell (ram : Ram) {k : Nat} (inside : k < 8) :
    ram.store (gamePointer addend) (0x1000001000 + k) =
      (leBytes 8 (0x1000000000 + addend)).getD k 0 := by
  have length := length_leBytes 8 (0x1000000000 + addend)
  have within : k < (leBytes 8 (0x1000000000 + addend)).length := by rwa [length]
  rw [List.getD_eq_getElem?_getD, List.getElem?_eq_getElem within, Option.getD_some]
  have placed : ram.store (gamePointer addend) = ram.write64 0x1000001000 (0x1000000000 + addend) :=
    rfl
  rw [placed]
  exact Ram.write_inside (by rw [length]; decide) within

theorem gamePointer_other (ram : Ram) {x : Nat} (word : x < 2 ^ 64)
    (outside : ¬ (0x1000001000 ≤ x ∧ x < 0x1000001000 + 8)) :
    ram.store (gamePointer addend) x = ram x :=
  Ram.write64_outside (show 0x1000001000 + 8 ≤ 2 ^ 64 by decide) word outside

theorem GameRam.call {ram : Ram} (game : GameRam ram) :
    (ram.store (gamePointer addend)).IsSyscall 0x1000000000 := by
  constructor
  · rw [gamePointer_other ram (by decide) (by decide)]
    exact game.first
  · rw [gamePointer_other ram (by decide) (by decide)]
    exact game.second

end Sample

/-- A game with a system call, and a pointer that has no 5 in it. -/
theorem patchBinary_sparesData_iff_game :
    ∃ calls linker relocated stubs' patched main,
      Trace (Linker.LoadCall .dev (gameHost 0x10)) (Linker.registered .booted .new) calls linker ∧
      linker.relocateAll .dev none = .ok (relocated, stubs') ∧
      patchBinary .dev relocated = .ok patched ∧ linker.mainModule = some main ∧
      linker.stores .dev none = [some ⟨0x1000001000, 0x1000000010⟩] ∧
      relocated.guest.ram.IsSyscall 0x1000000000 ∧ patched.guest.ram.IsUd2 0x1000000000 ∧
      main.IsData (linker.stores .dev none) 0x1000001000 ∧
      SparesData main (linker.stores .dev none) relocated.guest.ram patched.guest.ram := by
  obtain ⟨calls, linker, relocated, stubs', patched, main, lib, run, returned, returned', modules,
    game, ram, stores, memory, bytes⟩ := @exists_patched 0x10 (by decide +kernel) (by decide)
  have isMain : linker.mainModule = some main := by rw [Linker.mainModule, modules]; rfl
  obtain ⟨⟨-, block, lowest, -, segments⟩, ⟨libName, -⟩, -⟩ := game
  obtain ⟨base, size⟩ := Prod.mk.inj block
  obtain ⟨code, rest, listed, shape, segments⟩ := List.map_eq_cons_iff.mp segments
  obtain ⟨data, rest, rfl, shape', segments⟩ := List.map_eq_cons_iff.mp segments
  obtain rfl := List.map_eq_nil_iff.mp segments
  simp only [Prod.mk.injEq] at shape shape'
  have call : relocated.guest.ram.IsSyscall 0x1000000000 := by
    rw [memory]
    exact ram.call
  have only : ∀ x, 0x1000000002 ≤ x → x < 0x1000004000 → relocated.guest.ram x ≠ 0x05 := by
    intro x low high
    rw [memory]
    by_cases slot : 0x1000001000 ≤ x ∧ x < 0x1000001000 + 8
    · obtain ⟨k, rfl⟩ := Nat.exists_eq_add_of_le slot.1
      have inside : k < 8 := by omega
      rw [gamePointer_cell _ inside]
      exact (by decide : ∀ k < 8, (leBytes 8 (0x1000000000 + 0x10)).getD k 0 ≠ 0x05) k inside
    · rw [gamePointer_other _ (by omega) slot, ram.zeros x low high]
      decide
  have inData : main.InSegment data 0x1000001000 := by
    unfold Module.InSegment
    rw [base, lowest, shape'.2.1, shape'.2.2]
    decide
  refine ⟨calls, linker, relocated, stubs', patched, main, run, returned, returned', isMain, stores,
    call, ?_, .inr (.inl ⟨data, by simp [listed], shape'.1, inData⟩),
    (patchBinary_sparesData_iff .dev (gameHost_lawful _) HostBoot.low_lawful MemoryManager.new_low
      run returned returned' main isMain).mpr ?_⟩
  · have ud2 : (relocated.guest.ram.patched 0x1000000000 0x4000).IsUd2 0x1000000000 :=
      ⟨Ram.patched_first.mpr call.1, if_pos ⟨by decide, by decide, call⟩⟩
    exact ⟨(bytes _ (by decide)).trans ud2.1, (bytes _ (by decide)).trans ud2.2⟩
  · intro binary member name x low high pair isData
    rw [modules, List.mem_cons, List.mem_singleton] at member
    rcases member with rfl | rfl
    · rw [base] at low high
      rw [size] at high
      have isFirst : x = 0x1000000000 := by
        by_contra other
        exact only (x + 1) (by omega) (by omega) pair.2
      subst isFirst
      rcases isData with outside | ⟨ph, listed', executable, inside⟩ | ⟨store, applied, covers⟩
      · refine outside ⟨code, by simp [listed], shape.1, ?_⟩
        unfold Module.InSegment
        rw [base, lowest, shape.2.1, shape.2.2]
        decide
      · rw [listed, List.mem_cons, List.mem_singleton] at listed'
        rcases listed' with rfl | rfl
        · rw [shape.1] at executable
          cases executable
        · unfold Module.InSegment at inside
          rw [base, lowest, shape'.2.1, shape'.2.2] at inside
          exact absurd inside (by decide)
      · rw [stores, List.mem_singleton] at applied
        cases applied
        obtain ⟨k, small, same⟩ := covers
        change 0x1000000000 + 1 = (0x1000001000 + k) % 2 ^ 64 at same
        rw [Nat.mod_eq_of_lt (by omega)] at same
        omega
    · rw [libName] at name
      exact absurd name (by decide)

/-- The patch changes the second byte of a pointer that ends in 0F 05. -/
theorem patched_pointer_cell {ram : Ram}
    (slot : ∀ k < 8, ram (0x1000001000 + k) = (leBytes 8 0x100000050F).getD k 0) {k : Nat}
    (inside : k < 8) : ram.patched 0x1000000000 0x4000 (0x1000001000 + k) =
      if k = 1 then 0x0B else (leBytes 8 0x100000050F).getD k 0 := by
  have pair : ram.IsSyscall 0x1000001000 := ⟨slot 0 (by decide), slot 1 (by decide)⟩
  rw [Ram.patched, ← slot k inside]
  refine if_congr ⟨fun patched => ?_, fun same => ?_⟩ rfl rfl
  · obtain ⟨-, -, -, second⟩ := patched
    rw [Nat.sub_add_cancel (by omega), slot k inside] at second
    exact (by decide : ∀ k < 8, (leBytes 8 0x100000050F).getD k 0 = 0x05 → k = 1) k inside second
  · subst same
    exact ⟨by decide, by decide, pair⟩

/-- A pointer that relocation stored as 0x100000050F is 0x1000000B0F after the patch. -/
theorem patchBinary_sparesData_fails_pointer :
    ∃ calls linker relocated stubs' patched main,
      Trace (Linker.LoadCall .dev (gameHost 0x50F)) (Linker.registered .booted .new) calls linker ∧
      linker.relocateAll .dev none = .ok (relocated, stubs') ∧
      patchBinary .dev relocated = .ok patched ∧ linker.mainModule = some main ∧
      linker.stores .dev none = [some ⟨0x1000001000, 0x100000050F⟩] ∧
      Store.HeldIn ⟨0x1000001000, 0x1000000B0F⟩ patched.guest.ram ∧
      ¬ SparesData main (linker.stores .dev none) relocated.guest.ram patched.guest.ram := by
  obtain ⟨calls, linker, relocated, stubs', patched, main, lib, run, returned, returned', modules,
    -, -, stores, memory, bytes⟩ := @exists_patched 0x50F (by decide +kernel) (by decide)
  have slot : ∀ k < 8, relocated.guest.ram (0x1000001000 + k) =
      (leBytes 8 0x100000050F).getD k 0 := by
    intro k inside
    rw [memory]
    exact gamePointer_cell _ inside
  have now : ∀ k < 8, patched.guest.ram (0x1000001000 + k) =
      if k = 1 then 0x0B else (leBytes 8 0x100000050F).getD k 0 := by
    intro k inside
    rw [bytes _ (by omega), patched_pointer_cell slot inside]
  refine ⟨calls, linker, relocated, stubs', patched, main, run, returned, returned',
    by rw [Linker.mainModule, modules]; rfl, stores, fun k inside => ?_, fun spares => ?_⟩
  · rw [Nat.mod_eq_of_lt (by dsimp only; omega), now k inside]
    exact (by decide : ∀ k < 8, (if k = 1 then 0x0B else (leBytes 8 0x100000050F).getD k 0) =
      (leBytes 8 0x1000000B0F).getD k 0) k inside
  · have kept := spares.data 0x1000001001 (by decide)
      (.inr (.inr ⟨gamePointer 0x50F, by rw [stores]; simp, 1, by decide, rfl⟩))
    have second : relocated.guest.ram 0x1000001001 = 0x05 := slot 1 (by decide)
    have changed : patched.guest.ram 0x1000001001 = 0x0B := now 1 (by decide)
    rw [second, changed] at kept
    exact absurd kept (by decide)

end AnotherPs4
