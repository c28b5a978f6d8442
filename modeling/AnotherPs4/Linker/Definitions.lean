import AnotherPs4.Linker.Identity

/-!
# Definitions of symbols

A symbol is defined in the module that refers to it or in another one, and its
value is what the definition says. The value is dropped when the relocations are
parsed, so a relocation stores the address of its definition only where the
lookup by name happens to give that address.
-/

namespace AnotherPs4

open Rust Transition

namespace Module

def entries (p : Profile) (module : Module) : List RelocationEntry :=
  match relocationEntries p module.elf with
  | .ok entries => entries
  | .panic _ => []

theorem relocations_eq_entries {p : Profile} {module : Module}
    (parsed : parseRelocations p module.elf = .ok module.relocations) :
    module.relocations = (module.entries p).map (·.parsed) := by
  obtain ⟨entries, read, same⟩ := parseRelocations_eq_ok.mp parsed
  rw [same, Module.entries, read]

def Exports (p : Profile) (module : Module) (name : String) (value : Nat) : Prop :=
  ∃ symtabOff symtabSz strtabOff strtabSz symIdx sym,
    module.elf.dynamicValue dtSceSymtab = some symtabOff ∧
    module.elf.dynamicValue dtSceSymtabSz = some symtabSz ∧
    module.elf.dynamicValue dtSceStrtab = some strtabOff ∧
    module.elf.dynamicValue dtSceStrsz = some strtabSz ∧
    symbolAt p module.elf.dynlibData symtabOff symtabSz strtabOff strtabSz symIdx =
      .ok (some (sym, name)) ∧
    sym.shndx ≠ 0 ∧ sym.value = value

theorem cell_lt (module : Module) (vaddr : Nat) : module.cell vaddr < 2 ^ 64 :=
  Nat.mod_lt _ (Nat.two_pow_pos 64)

end Module

namespace Linker

def entryJobs (p : Profile) (linker : Linker) : List (Module × RelocationEntry) :=
  linker.modules.flatMap fun module => (module.entries p).map (module, ·)

/-- Run-time addresses of the definitions of an entry's symbol: in its own
module, or for an undefined and unregistered name in another one. -/
inductive Defines (p : Profile) (linker : Linker) (module : Module) (entry : RelocationEntry) :
    Nat → Prop where
  | own {sym name} : entry.symbol = some (sym, name) → sym.shndx ≠ 0 →
      Defines p linker module entry (module.cell sym.value)
  | other {sym name definer value} : entry.symbol = some (sym, name) → sym.shndx = 0 →
      name ≠ "" → hleAddress linker.hleSymbols name = none → definer ∈ linker.modules →
      definer.name ≠ module.name → definer.Exports p name value →
      Defines p linker module entry (definer.cell value)

/-- Symbol relocations with a definition store its address. -/
def BindsDefinitions (p : Profile) (linker : Linker) (stubs : Option StubAllocator) : Prop :=
  ∀ (i : Nat) (module : Module) (entry : RelocationEntry),
    (linker.entryJobs p)[i]? = some (module, entry) → entry.parsed.isSymbolic = true →
    (∃ addr, linker.Defines p module entry addr) → ∃ addr, linker.Defines p module entry addr ∧
      (linker.stores p stubs)[i]? = some (some
        ⟨(module.baseVirtualAddr + entry.rel.offset) % 2 ^ 64,
          (addr + unsigned 64 entry.rel.addend) % 2 ^ 64⟩)

/-- The registered address of the symbol, its stub, or 0 if it has no name, is
the address of its definition. -/
def LooksUpDefinitions (p : Profile) (linker : Linker) (stubs : Option StubAllocator) : Prop :=
  ∀ (i : Nat) (module : Module) (entry : RelocationEntry),
    (linker.entryJobs p)[i]? = some (module, entry) → entry.parsed.isSymbolic = true →
    (∃ addr, linker.Defines p module entry addr) → linker.Defines p module entry
      (importAddr linker.hleSymbols stubs (linker.stubsBefore i) entry.parsed.symbolName)

/-- A relocation asks for a symbol that is defined at the address. -/
def Definition (p : Profile) (linker : Linker) (addr : Nat) : Prop :=
  ∃ job ∈ linker.entryJobs p, job.2.parsed.isSymbolic = true ∧ linker.Defines p job.1 job.2 addr

/-- No definition lies where a lookup by name leads: modules are neither loaded over the
functions of the emulator and its stubs nor at null. -/
structure DefinitionsApart (p : Profile) (linker : Linker) (stubs : Option StubAllocator) :
    Prop where
  notNull : ¬ linker.Definition p 0
  registered : ∀ name addr, linker.hleSymbols.resolve name = some addr → ¬ linker.Definition p addr
  stubs : ∀ k, ¬ linker.Definition p (slotAddr stubs k)

variable {p : Profile} {sys : Sys} {space : AddressSpace} {linker : Linker}
  {stubs : Option StubAllocator}

theorem worklist_eq_entryJobs (sound : linker.Sound p sys space) :
    linker.worklist = (linker.entryJobs p).map fun job => (job.1, job.2.parsed) := by
  unfold worklist entryJobs
  rw [List.map_flatMap]
  apply List.flatMap_congr
  intro module listed
  rw [Module.relocations_eq_entries (sound.loaded module listed).relocations, List.map_map,
    List.map_map]
  rfl

theorem Defines.lt {module : Module} {entry : RelocationEntry} {addr : Nat}
    (defines : linker.Defines p module entry addr) : addr < 2 ^ 64 := by
  cases defines with
  | own => exact Module.cell_lt _ _
  | other => exact Module.cell_lt _ _

theorem DefinitionsApart.importAddr_apart (apart : DefinitionsApart p linker stubs)
    (before : Nat) (symbolName : String) :
    ¬ linker.Definition p (importAddr linker.hleSymbols stubs before symbolName) := by
  unfold importAddr
  split
  · exact apart.notNull
  · cases found : hleAddress linker.hleSymbols symbolName with
    | none => exact apart.stubs before
    | some addr =>
      rcases Option.or_eq_some_iff.mp found with found | ⟨-, found⟩
      · exact apart.registered _ _ found
      · exact apart.registered _ _ found

section Returned

variable (sound : linker.Sound p sys space) {result : Linker × Option StubAllocator}
  (returned : linker.relocateAll p stubs = .ok result)

include sound returned

theorem stores_entryJobs {i : Nat} {module : Module} {entry : RelocationEntry}
    (found : (linker.entryJobs p)[i]? = some (module, entry))
    (symbolic : entry.parsed.isSymbolic = true) :
    (linker.stores p stubs)[i]? = some (some
      ⟨(module.baseVirtualAddr + entry.rel.offset) % 2 ^ 64,
        (importAddr linker.hleSymbols stubs (linker.stubsBefore i) entry.parsed.symbolName +
          unsigned 64 entry.rel.addend) % 2 ^ 64⟩) := by
  have listed : (linker.reached p)[i]? = some (module, entry.parsed) := by
    rw [reached_eq_of_returned returned, worklist_eq_entryJobs sound, List.getElem?_map, found]
    rfl
  rw [stores_getElem? stubs listed, storeAt_symbolic symbolic]
  rfl

theorem bindsDefinitions_iff_looksUp (words : linker.hleSymbols.Words)
    (mapped : ∀ alloc, stubs = some alloc → alloc.Mapped) :
    linker.BindsDefinitions p stubs ↔ linker.LooksUpDefinitions p stubs := by
  refine forall₅_congr fun i module entry found symbolic => imp_congr_right fun defined => ?_
  rw [stores_entryJobs sound returned found symbolic]
  have small := importAddr_lt mapped words (linker.stubsBefore i) entry.parsed.symbolName
  constructor
  · rintro ⟨addr, defines, same⟩
    have word := defines.lt
    simp only [Option.some.injEq, Store.mk.injEq, true_and] at same
    have equal : addr = importAddr linker.hleSymbols stubs (linker.stubsBefore i)
      entry.parsed.symbolName := by omega
    exact equal ▸ defines
  · intro defines
    exact ⟨_, defines, rfl⟩

end Returned

/-- Symbol relocations store the address of the definition of their symbol exactly if no
symbol that is relocated has a definition: a lookup by name never leads to one. -/
theorem bindsDefinitions_iff (p : Profile) {sys : Sys} (lawful : sys.Lawful) {boot : HostBoot}
    (bootLawful : boot.Lawful) {guest : Guest}
    (booted : MemoryManager.new boot = .ok guest.memory) {hleSymbols : SymbolResolver}
    {calls : List (Path × Except LinkError Nat)} {linker : Linker}
    (run : Trace (LoadCall p sys) (registered guest hleSymbols) calls linker)
    (words : linker.hleSymbols.Words) {stubs : Option StubAllocator}
    (mapped : ∀ alloc, stubs = some alloc → alloc.Mapped)
    (apart : linker.DefinitionsApart p stubs)
    {result : Linker × Option StubAllocator} (returned : linker.relocateAll p stubs = .ok result) :
    linker.BindsDefinitions p stubs ↔ ∀ addr, ¬ linker.Definition p addr := by
  have running := Running.calls lawful bootLawful booted run
  rw [bindsDefinitions_iff_looksUp running.sound returned words mapped]
  constructor
  · rintro looksUp addr ⟨job, member, symbolic, defines⟩
    obtain ⟨i, found⟩ := List.mem_iff_getElem?.mp member
    have lookup := looksUp i job.1 job.2 found symbolic ⟨addr, defines⟩
    exact apart.importAddr_apart _ _ ⟨job, member, symbolic, lookup⟩
  · intro undefined i module entry found symbolic defined
    obtain ⟨addr, defines⟩ := defined
    exact absurd ⟨_, List.mem_of_getElem? found, symbolic, defines⟩ (undefined addr)

/-- In the only module of a linker, a symbol has no definition but its own. -/
theorem Defines.own_of_single {module : Module} {entry : RelocationEntry} {addr : Nat}
    (single : linker.modules = [module]) (defines : linker.Defines p module entry addr) :
    ∃ sym name, entry.symbol = some (sym, name) ∧ sym.shndx ≠ 0 ∧
      addr = module.cell sym.value := by
  cases defines with
  | own symbol defined => exact ⟨_, _, symbol, defined, rfl⟩
  | other _ _ _ _ listed different =>
    rw [single, List.mem_singleton] at listed
    exact absurd (congrArg Module.name listed) different

/-- An image with one slot for a symbol. -/
def slotFor (shndx value : Nat) : List UInt8 :=
  symbolImage [0x90, 0xC3] (symbolBytes 0 0 0 ++ symbolBytes 1 shndx value) (nameBytes ["f"])
    (relocationBytes 0 1 rX86_64JumpSlot 0)

def slotSymbol (shndx value : Nat) : ElfSymbol := ⟨1, 0x12, 0, shndx, value, 0⟩

def slotFacts (value : Nat) (linker : Linker) : List Bool × List Nat × List RelocationEntry :=
  (linker.worklist.map fun job => decide (job.Lands .dev linker.guest.writable),
    linker.modules.map (·.cell value), (linker.entryJobs .dev).map (·.2))

def slotEntry (shndx value : Nat) : RelocationEntry :=
  ⟨⟨0, 2 ^ 32 + rX86_64JumpSlot, 0⟩, some (slotSymbol shndx value, "f"), false⟩

theorem exists_run_of_slotFor (shndx value : Nat)
    (evaluated : (afterLoad .dev (.single (slotFor shndx value)) (.new "libc.prx")).map
      (slotFacts value) = some ([true], [0x1000000000 + value], [slotEntry shndx value])) :
    ∃ calls linker result module, Trace (LoadCall .dev (.single (slotFor shndx value)))
        (registered .booted .new) calls linker ∧ linker.hleSymbols = .new ∧
      linker.relocateAll .dev (some freshStubs) = .ok result ∧ linker.modules = [module] ∧
      module.cell value = 0x1000000000 + value ∧
      linker.entryJobs .dev = [(module, slotEntry shndx value)] := by
  obtain ⟨calls, linker, run, hle, same⟩ := exists_run_of_afterLoad evaluated
  simp only [slotFacts, Prod.mk.injEq] at same
  obtain ⟨lands, cells, entries⟩ := same
  have allLand : ∀ job ∈ linker.worklist, job.Lands .dev linker.guest.writable := by
    intro job member
    have listed := List.mem_map_of_mem
      (f := fun job : Job => decide (job.Lands .dev linker.guest.writable)) member
    rw [lands] at listed
    exact of_decide_eq_true (List.mem_singleton.mp listed)
  obtain ⟨result, returned⟩ : (linker.relocateAll .dev (some freshStubs)).Returns :=
    relocateAll_returns.mpr allLand
  obtain ⟨module, rest, modules, cell, nil⟩ := List.map_eq_cons_iff.mp cells
  obtain rfl := List.map_eq_nil_iff.mp nil
  obtain ⟨job, rest, jobs, entry, nil⟩ := List.map_eq_cons_iff.mp entries
  obtain rfl := List.map_eq_nil_iff.mp nil
  have own : job.1 = module := by
    have listed : job ∈ linker.entryJobs .dev := jobs ▸ List.mem_singleton_self job
    unfold entryJobs at listed
    obtain ⟨m, member, inner⟩ := List.mem_flatMap.mp listed
    obtain ⟨e, -, rfl⟩ := List.mem_map.mp inner
    rwa [modules, List.mem_singleton] at member
  refine ⟨calls, linker, result, module, run, hle, returned, modules, cell, ?_⟩
  rw [jobs, ← own, ← entry]

theorem definition_slotFor {linker : Linker} {module : Module} {shndx value addr : Nat}
    (single : linker.modules = [module])
    (jobs : linker.entryJobs .dev = [(module, slotEntry shndx value)]) :
    linker.Definition .dev addr ↔ shndx ≠ 0 ∧ addr = module.cell value := by
  constructor
  · rintro ⟨job, member, -, defines⟩
    rw [jobs, List.mem_singleton] at member
    obtain rfl := member
    obtain ⟨sym, name, symbol, defined, address⟩ := defines.own_of_single single
    cases symbol
    exact ⟨defined, address⟩
  · rintro ⟨defined, rfl⟩
    have own : linker.Defines .dev module (slotEntry shndx value) (module.cell value) :=
      Defines.own rfl (show (slotSymbol shndx value).shndx ≠ 0 from defined)
    have symbolic : (slotEntry shndx value).parsed.isSymbolic = true := by
      change (slotEntry 0 0).parsed.isSymbolic = true
      decide
    exact ⟨_, jobs ▸ List.mem_singleton_self _, symbolic, own⟩

theorem slotFor_definitionsApart {linker : Linker} {module : Module} {shndx value : Nat}
    (single : linker.modules = [module])
    (jobs : linker.entryJobs .dev = [(module, slotEntry shndx value)])
    (hle : linker.hleSymbols = .new) (low : 0 < module.cell value)
    (high : module.cell value < freshStubs.base) :
    linker.DefinitionsApart .dev (some freshStubs) where
  notNull definition := by
    obtain ⟨-, same⟩ := (definition_slotFor single jobs).mp definition
    exact absurd same low.ne
  registered name addr found := by
    rw [hle, SymbolResolver.resolve_new] at found
    cases found
  stubs k definition := by
    obtain ⟨-, same⟩ := (definition_slotFor single jobs).mp definition
    have lookup : slotAddr (some freshStubs) k = 0 ∨
        freshStubs.base ≤ slotAddr (some freshStubs) k := by
      unfold slotAddr
      dsimp only
      split
      · exact .inr (Nat.le_add_right _ _)
      · exact .inl rfl
    omega

/-- The slot of an undefined symbol is bound as it should be, that of a defined one is not. -/
theorem bindsDefinitions_iff_slots :
    (∃ calls linker result, Trace (LoadCall .dev (.single (slotFor 0 0)))
        (registered .booted .new) calls linker ∧
      linker.relocateAll .dev (some freshStubs) = .ok result ∧
      linker.BindsDefinitions .dev (some freshStubs)) ∧
    ∃ calls linker result, Trace (LoadCall .dev (.single (slotFor 1 0x10)))
        (registered .booted .new) calls linker ∧
      linker.relocateAll .dev (some freshStubs) = .ok result ∧
      linker.Definition .dev 0x1000000010 ∧
      linker.DefinitionsApart .dev (some freshStubs) ∧
      ¬ linker.BindsDefinitions .dev (some freshStubs) := by
  constructor
  · obtain ⟨calls, linker, result, module, run, hle, returned, single, cell, jobs⟩ :=
      exists_run_of_slotFor 0 0 (by decide +kernel)
    have apart := slotFor_definitionsApart single jobs hle (by rw [cell]; decide)
      (by rw [cell]; decide)
    refine ⟨calls, linker, result, run, returned, (bindsDefinitions_iff .dev
      (fun _ => Host.roomy_lawful) HostBoot.low_lawful MemoryManager.new_low run
      (hle ▸ SymbolResolver.new_words) freshStubs_mapped apart returned).mpr ?_⟩
    exact fun addr definition => ((definition_slotFor single jobs).mp definition).1 rfl
  · obtain ⟨calls, linker, result, module, run, hle, returned, single, cell, jobs⟩ :=
      exists_run_of_slotFor 1 0x10 (by decide +kernel)
    have apart := slotFor_definitionsApart single jobs hle (by rw [cell]; decide)
      (by rw [cell]; decide)
    have definition : linker.Definition .dev 0x1000000010 :=
      (definition_slotFor single jobs).mpr ⟨by decide, cell.symm⟩
    refine ⟨calls, linker, result, run, returned, definition, apart, fun binds => ?_⟩
    exact (bindsDefinitions_iff .dev (fun _ => Host.roomy_lawful) HostBoot.low_lawful
      MemoryManager.new_low run (hle ▸ SymbolResolver.new_words) freshStubs_mapped apart
      returned).mp binds _ definition

/-- The slot of a function that the module itself defines gets a stub. -/
theorem bindsDefinitions_fails_own :
    ∃ calls linker result module store, Trace (LoadCall .dev (.single (slotFor 1 0x10)))
        (registered .booted .new) calls linker ∧
      linker.relocateAll .dev (some freshStubs) = .ok result ∧
      linker.entryJobs .dev = [(module, slotEntry 1 0x10)] ∧
      linker.Defines .dev module (slotEntry 1 0x10) 0x1000000010 ∧
      (linker.stores .dev (some freshStubs))[0]? = some (some store) ∧
      store.value = 0x7f1000000000 ∧ ¬ linker.BindsDefinitions .dev (some freshStubs) := by
  obtain ⟨calls, linker, result, module, run, hle, returned, single, cell, jobs⟩ :=
    exists_run_of_slotFor 1 0x10 (by decide +kernel)
  have sound := (Running.calls (fun _ => Host.roomy_lawful) HostBoot.low_lawful
    MemoryManager.new_low run).sound
  have found : (linker.entryJobs .dev)[0]? = some (module, slotEntry 1 0x10) := by rw [jobs]; rfl
  have symbolic : (slotEntry 1 0x10).parsed.isSymbolic = true := by decide
  have lookup : importAddr linker.hleSymbols (some freshStubs) (linker.stubsBefore 0)
      (slotEntry 1 0x10).parsed.symbolName = 0x7f1000000000 :=
    importAddr_of_none (by decide) (hle ▸ hleAddress_new _)
  have stored := stores_entryJobs sound returned found symbolic
  have defines : linker.Defines .dev module (slotEntry 1 0x10) 0x1000000010 := by
    have own : linker.Defines .dev module (slotEntry 1 0x10) (module.cell 0x10) :=
      Defines.own rfl (by decide : (slotSymbol 1 0x10).shndx ≠ 0)
    rwa [cell] at own
  refine ⟨calls, linker, result, module, _, run, returned, jobs, defines, stored, ?_, fun binds => ?_⟩
  · rw [lookup]
    rfl
  · have looksUp := (bindsDefinitions_iff_looksUp sound returned (hle ▸ SymbolResolver.new_words)
      freshStubs_mapped).mp binds 0 module _ found symbolic ⟨_, defines⟩
    obtain ⟨sym, name, symbol, -, address⟩ := looksUp.own_of_single single
    cases symbol
    rw [lookup, slotSymbol, cell] at address
    exact absurd address (by decide)

end Linker

end AnotherPs4
