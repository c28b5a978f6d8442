import AnotherPs4.Linker.Stores
import AnotherPs4.Linker.Tables
import AnotherPs4.Linker.Termination

/-!
# Where relocations store

A relocation stores at its offset from the base of its module, and nothing
checks the offset. The store lies in the module exactly if the offset leaves
room for it there.
-/

namespace AnotherPs4

open Rust RangeMap Transition

def Job.InModule (job : Job) : Prop := job.2.offset + 8 ≤ job.1.alignedBaseSize

instance (job : Job) : Decidable job.InModule :=
  inferInstanceAs (Decidable (job.2.offset + 8 ≤ job.1.alignedBaseSize))

def Module.Includes (module : Module) (store : Store) : Prop :=
  module.baseVirtualAddr ≤ store.addr ∧
    store.addr + 8 ≤ module.baseVirtualAddr + module.alignedBaseSize

theorem Job.includes_iff {job : Job} {store : Store} {resolvedAddr : Nat}
    (word : job.2.offset < 2 ^ 64)
    (bounded : job.1.baseVirtualAddr + job.1.alignedBaseSize ≤ 2 ^ 64)
    (stored : job.2.storeAt job.1.baseVirtualAddr resolvedAddr = some store) :
    job.1.Includes store ↔ job.InModule := by
  have addr := ParsedRelocation.storeAt_addr stored
  unfold Module.Includes Job.InModule
  omega

namespace Linker

def StoresInside (p : Profile) (linker : Linker) (stubs : Option StubAllocator) : Prop :=
  ∀ (i : Nat) (job : Job) (store : Store), linker.worklist[i]? = some job →
    (linker.stores p stubs)[i]? = some (some store) → job.1.Includes store

variable {linker : Linker}

theorem mem_worklist {job : Job} :
    job ∈ linker.worklist ↔ job.1 ∈ linker.modules ∧ job.2 ∈ job.1.relocations := by
  obtain ⟨module, reloc⟩ := job
  simp [worklist]

/-- The stores of `relocate_all` stay inside the modules exactly if every
relocation of a known type that it gets to has room for its slot. -/
theorem storesInside_iff (p : Profile) {sys : Sys} (lawful : sys.Lawful) {boot : HostBoot}
    (bootLawful : boot.Lawful) {guest : Guest}
    (booted : MemoryManager.new boot = .ok guest.memory) {hleSymbols : SymbolResolver}
    {calls : List (Path × Except LinkError Nat)} {linker : Linker}
    (run : Trace (LoadCall p sys) (registered guest hleSymbols) calls linker)
    (stubs : Option StubAllocator) :
    linker.StoresInside p stubs ↔
      ∀ job ∈ linker.reached p, job.2.isKnown = true → job.InModule := by
  have running := Running.calls lawful bootLawful booted run
  have facts : ∀ job ∈ linker.worklist, job.2.offset < 2 ^ 64 ∧
      job.1.baseVirtualAddr + job.1.alignedBaseSize ≤ 2 ^ 64 := by
    intro job member
    obtain ⟨listed, reloc⟩ := mem_worklist.mp member
    exact ⟨Module.parseRelocations_offset (running.sound.loaded _ listed).relocations _ reloc,
      (running.bounded_module listed).trans (by decide)⟩
  constructor
  · intro inside job member known
    obtain ⟨i, found⟩ := List.mem_iff_getElem?.mp member
    have stored := stores_getElem? stubs found
    obtain ⟨store, same⟩ := Option.isSome_iff_exists.mp (ParsedRelocation.storeAt_isSome.trans known)
    obtain ⟨word, bounded⟩ := facts job (List.mem_of_getElem? (reached_getElem? found))
    exact (Job.includes_iff word bounded same).mp
      (inside i job store (reached_getElem? found) (stored.trans (congrArg some same)))
  · intro room i job store found stored
    obtain ⟨word, bounded⟩ := facts job (List.mem_of_getElem? found)
    have bound : i < (linker.reached p).length := by
      rw [reached, ← storesOf_length stubs]
      exact (List.getElem?_eq_some_iff.mp stored).1
    have got := List.getElem?_eq_getElem bound
    obtain rfl := Option.some.inj ((reached_getElem? got).symm.trans found)
    have same := Option.some.inj ((stores_getElem? stubs got).symm.trans stored)
    refine (Job.includes_iff word bounded same).mpr (room _ (List.mem_of_getElem? got) ?_)
    rw [← ParsedRelocation.storeAt_isSome, same]
    rfl

end Linker

namespace Linker

/-- The linker after a first call, if that returned an index. -/
def afterLoad (p : Profile) (sys : Sys) (path : Path) (hleSymbols : SymbolResolver := .new) :
    Option Linker :=
  match loadModule p sys 3 path (registered .booted hleSymbols) with
  | .ok (.ok _, linker) => some linker
  | _ => none

theorem afterLoad_eq_some_iff {p : Profile} {sys : Sys} {path : Path} {hleSymbols : SymbolResolver}
    {linker : Linker} : afterLoad p sys path hleSymbols = some linker ↔
      ∃ i, loadModule p sys 3 path (registered .booted hleSymbols) = .ok (.ok i, linker) := by
  unfold afterLoad
  split
  · next i loaded returned =>
    rw [returned, Option.some.injEq]
    exact ⟨fun same => ⟨i, by rw [same]⟩, fun ⟨_, same⟩ => by cases same; rfl⟩
  · next other =>
    apply iff_of_false nofun
    rintro ⟨i, returned⟩
    exact other i linker returned

theorem afterLoad_eq_some {p : Profile} {sys : Sys} {path : Path} {hleSymbols : SymbolResolver}
    {linker : Linker} (found : afterLoad p sys path hleSymbols = some linker) :
    ∃ calls, Trace (LoadCall p sys) (registered .booted hleSymbols) calls linker := by
  obtain ⟨i, returned⟩ := afterLoad_eq_some_iff.mp found
  exact ⟨[(path, .ok i)], .snoc .nil ⟨3, returned⟩⟩

/-- An image whose only relocation has its slot at `offset`. -/
def slotImage (offset : Nat) : List UInt8 :=
  symbolImage [0x90, 0xC3] [] [] (relocationBytes offset 0 rX86_64Relative 0x10)

theorem storesInside_iff_first_slot :
    ∃ calls linker,
      Trace (LoadCall .dev (.single (slotImage 0))) (registered .booted .new) calls linker ∧
      linker.StoresInside .dev none ∧ linker.stores .dev none = [some ⟨0x1000000000, 0x1000000010⟩] := by
  have facts : (afterLoad .dev (.single (slotImage 0)) (.new "libc.prx")).map (fun linker =>
      (linker.stores .dev none,
        (linker.reached .dev).all fun job => !job.2.isKnown || job.InModule)) =
      some ([some ⟨0x1000000000, 0x1000000010⟩], true) := by decide +kernel
  obtain ⟨linker, loaded, same⟩ := Option.map_eq_some_iff.mp facts
  obtain ⟨stores, room⟩ := Prod.mk.inj same
  obtain ⟨calls, run⟩ := afterLoad_eq_some loaded
  refine ⟨calls, linker, run, (storesInside_iff .dev (fun _ => Host.roomy_lawful)
    HostBoot.low_lawful MemoryManager.new_low run none).mpr (fun job member known => ?_), stores⟩
  simpa [known] using List.all_eq_true.mp room job member

/-- A host with a module of one page whose only slot lies in the page of the next module. -/
def strayHost : Sys := .files [
  (.new "main.prx", symbolImage [0x90, 0xC3] [] (nameBytes ["lib.prx"])
    (relocationBytes 0x4000 0 rX86_64Relative 0x10) [1]),
  (.new "lib.prx", codeImage 0 [0x90, 0xC3])]

/-- A relocation of the first module changes the code of the second. -/
theorem storesInside_fails_behind :
    ∃ calls linker linker' stubs',
      Trace (LoadCall .dev strayHost) (registered .booted .new) calls linker ∧
      linker.modules.map Module.block = [(0x1000000000, 0x4000), (0x1000004000, 0x4000)] ∧
      linker.relocateAll .dev none = .ok (linker', stubs') ∧
      linker.guest.ram 0x1000004000 = 0x90 ∧
      linker'.guest.ram.HoldsWord 0x1000004000 0x1000000010 ∧
      ¬ linker.StoresInside .dev none := by
  have facts : (afterLoad .dev strayHost (.new "main.prx")).map (fun linker =>
      (linker.modules.map Module.block, linker.worklist.map (·.1.block), linker.stores .dev none,
        linker.worklist.all (·.Lands .dev linker.guest.writable) &&
          linker.guest.ram 0x1000004000 == 0x90)) =
      some ([(0x1000000000, 0x4000), (0x1000004000, 0x4000)], [(0x1000000000, 0x4000)],
        [some ⟨0x1000004000, 0x1000000010⟩], true) := by decide +kernel
  obtain ⟨linker, loaded, same⟩ := Option.map_eq_some_iff.mp facts
  simp only [Prod.mk.injEq, Bool.and_eq_true, beq_iff_eq, List.all_eq_true,
    decide_eq_true_eq] at same
  obtain ⟨blocks, jobs, stores, lands, code⟩ := same
  obtain ⟨calls, run⟩ := afterLoad_eq_some loaded
  obtain ⟨⟨linker', stubs'⟩, returned⟩ : (linker.relocateAll .dev none).Returns :=
    relocateAll_returns.mpr lands
  refine ⟨calls, linker, linker', stubs', run, blocks, returned, code, ?_, fun inside => ?_⟩
  · have ram : linker'.guest.ram = linker.guest.ram.write64 0x1000004000 0x1000000010 := by
      rw [(relocateAll_eq_ok returned).1, stores, Ram.storeAll, List.foldl_cons, List.foldl_nil,
        Option.elim_some, Ram.store]
    rw [ram]
    exact Ram.holdsWord_write64 (by decide) _
  · obtain ⟨job, rest, listed, block, -⟩ := List.map_eq_cons_iff.mp jobs
    have found : linker.worklist[0]? = some job := by rw [listed]; rfl
    obtain ⟨-, high⟩ := inside 0 job _ found (by rw [stores]; rfl)
    obtain ⟨base, size⟩ := Prod.mk.inj block
    rw [base, size] at high
    exact absurd high (by decide)

end Linker

end AnotherPs4
