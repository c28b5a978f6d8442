import AnotherPs4.Hle.Stubs
import AnotherPs4.Linker.Module
import AnotherPs4.Loader.Symbols

/-!
# Relocations

Applying the relocations of a module to the memory it is loaded in.
-/

namespace AnotherPs4

open Rust

/-- The address of a symbol: a registered function, or else a new stub. -/
def resolveSymbol (symbolName : String) (hleSymbols : SymbolResolver)
    (stubs : Option StubAllocator) : Nat × Option StubAllocator :=
  if symbolName.isEmpty then (0, stubs)
  else match hleSymbols.resolve (baseName symbolName) with
    | some addr => (addr, stubs)
    | none => match hleSymbols.resolve symbolName with
      | some addr => (addr, stubs)
      | none => allocateStub stubs ((lookupKnownNid (baseName symbolName)).getD symbolName)

/-- A 64-bit word to be written. -/
structure Store where
  addr : Nat
  value : Nat
  deriving DecidableEq, Repr

def Ram.store (ram : Ram) (store : Store) : Ram := ram.write64 store.addr store.value

namespace ParsedRelocation

def isRelative (reloc : ParsedRelocation) : Bool := reloc.relType == rX86_64Relative

def isSymbolic (reloc : ParsedRelocation) : Bool :=
  reloc.relType == rX86_64_64 || reloc.relType == rX86_64GlobDat ||
    reloc.relType == rX86_64JumpSlot

def isModuleId (reloc : ParsedRelocation) : Bool := reloc.relType == rX86_64Dtpmod64

def isKnown (reloc : ParsedRelocation) : Bool :=
  reloc.isRelative || reloc.isSymbolic || reloc.isModuleId

end ParsedRelocation

/-- What a relocation stores and where, nothing for an unknown type. -/
def relocationStore (p : Profile) (reloc : ParsedRelocation) (base : Nat)
    (hleSymbols : SymbolResolver) (stubs : Option StubAllocator) :
    Outcome Empty (Option Store × Option StubAllocator) := do
  let targetAddr ← p.add 64 base reloc.offset
  let addend := unsigned 64 reloc.addend
  if reloc.isRelative then return (some ⟨targetAddr, (base + addend) % 2 ^ 64⟩, stubs)
  else if reloc.isSymbolic then
    let (resolvedAddr, stubs) := resolveSymbol reloc.symbolName hleSymbols stubs
    return (some ⟨targetAddr, (resolvedAddr + addend) % 2 ^ 64⟩, stubs)
  else if reloc.isModuleId then return (some ⟨targetAddr, 1⟩, stubs)
  else return (none, stubs)

/-- The checks a store passes before the memory changes: a `dev` build wants the pointer
aligned, and the host wants its cells writable. -/
def Store.check (p : Profile) (writable : Nat → Bool) (store : Store) : Outcome Empty Unit := do
  p.debugCheck .misaligned (store.addr % 8 == 0)
  if (List.range 8).all fun k => writable ((store.addr + k) % 2 ^ 64) then .ok ()
  else .panic .fault

/-- The store of a relocation where it happens. -/
def checkedStore (p : Profile) (reloc : ParsedRelocation) (base : Nat)
    (hleSymbols : SymbolResolver) (writable : Nat → Bool) (stubs : Option StubAllocator) :
    Outcome Empty (Option Store × Option StubAllocator) := do
  let (store, stubs) ← relocationStore p reloc base hleSymbols stubs
  store.elim (.ok ()) (Store.check p writable)
  return (store, stubs)

def applyRelocation (p : Profile) (reloc : ParsedRelocation) (base : Nat)
    (hleSymbols : SymbolResolver) (writable : Nat → Bool) (ram : Ram)
    (stubs : Option StubAllocator) : Outcome Empty (Ram × Option StubAllocator) := do
  let (store, stubs) ← checkedStore p reloc base hleSymbols writable stubs
  return (store.elim ram ram.store, stubs)

def relocateModule (p : Profile) (module : Module) (hleSymbols : SymbolResolver)
    (writable : Nat → Bool) (memory : Ram × Option StubAllocator) :
    Outcome Empty (Ram × Option StubAllocator) :=
  module.relocations.foldlM (fun memory reloc =>
    applyRelocation p reloc module.baseVirtualAddr hleSymbols writable memory.1 memory.2) memory

end AnotherPs4
