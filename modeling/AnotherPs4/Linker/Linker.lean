import AnotherPs4.Linker.Relocation
import AnotherPs4.Rust.Cursor

/-!
# The linker

Modules are loaded together with the modules they need, as far as these are on
disk. The recursion follows names found in files, so it runs on fuel here; an
`Outcome` without a result stands for a call that ran out of it.
-/

namespace AnotherPs4

open Rust

inductive OutOfFuel where
  | outOfFuel
  deriving DecidableEq, Repr

/-- The linker, the memory behind its lock, and the dependencies it warned
about. -/
structure Linker where
  modules : List Module
  hleSymbols : SymbolResolver
  guest : Guest
  maxTlsIndex : Nat
  warnings : List (Path × LinkError)

abbrev LoadM := StateT Linker (Outcome OutOfFuel)

namespace Linker

def new (guest : Guest) : Linker where
  modules := []
  hleSymbols := .new
  guest := guest
  maxTlsIndex := 0
  warnings := []

/-- `test eax, eax; jne +2; int 0x41` -/
def trapPattern : List UInt8 := [0x85, 0xC0, 0x75, 0x02, 0xCD, 0x41]

/-- `mov eax, 0x0A; nop` -/
def trapPatch : List UInt8 := [0xB8, 0x0A, 0x00, 0x00, 0x00, 0x90]

end Linker

/-- The scan of `load_module` for assertion traps, with the counter that it logs. -/
def patchTrapsFrom (p : Profile) (base codeSize i : Nat) (ram : Ram) (patched : Nat) :
    Outcome Empty (Ram × Nat) :=
  if i + 5 < codeSize then
    if (List.range 6).map (fun k => ram (base + i + k)) = Linker.trapPattern then do
      let patched ← p.add 32 patched 1
      patchTrapsFrom p base codeSize (i + 6) (ram.write (base + i) Linker.trapPatch) patched
    else patchTrapsFrom p base codeSize (i + 1) ram patched
  else .ok (ram, patched)
termination_by codeSize - i

/-- The pass of `load_module` over the executable. -/
def patchTraps (p : Profile) (base size : Nat) (ram : Ram) : Outcome Empty (Ram × Nat) :=
  patchTrapsFrom p base size 0 ram 0

namespace Linker

def loadFile (p : Profile) (sys : Sys) (path : Path) : LoadM (Except LinkError Module) :=
  fun linker => do
    let (result, guest, maxTlsIndex) ←
      (Module.load p sys path linker.guest linker.maxTlsIndex).widen
    return (result, { linker with guest, maxTlsIndex })

def push (module : Module) : LoadM Unit :=
  modify fun linker => { linker with modules := linker.modules ++ [module] }

def patchModule (p : Profile) (name : String) (index : Nat) : LoadM Unit := fun linker =>
  if name = "eboot.bin" then
    match linker.modules[index]? with
    | none => .panic .indexBounds
    | some module => do
      let (ram, _) ←
        (patchTraps p module.baseVirtualAddr module.alignedBaseSize linker.guest.ram).widen
      return ((), { linker with guest := { linker.guest with ram } })
  else .ok ((), linker)

/-- Load one module, add it to the list and patch it. Returns its index, as
`u32`, and the names of the modules it needs. -/
def install (p : Profile) (sys : Sys) (path : Path) :
    LoadM (Except LinkError (Nat × List String)) := do
  match ← loadFile p sys path with
  | .error e => return .error e
  | .ok module =>
    let index := (← get).modules.length % 2 ^ 32
    let needed ← ((module.elf.neededModules p).widen : Outcome OutOfFuel _)
    push module
    patchModule p module.name index
    return .ok (index, needed)

/-- Position of the loaded module with the file name of a path. -/
def loadedIndex (linker : Linker) (path : Path) : Option Nat :=
  linker.modules.findIdx? (·.name == moduleName path)

/-- Where a dependency is looked for: beside the module, then in `sce_module`. -/
def dependencyPath (sys : Sys) (parentDir : Path) (dep : String) : Option Path :=
  let depPath := parentDir.join (.new dep)
  let depSce := (parentDir.join (.new "sce_module")).join (.new dep)
  if sys.pathExists depPath then some depPath
  else if sys.pathExists depSce then some depSce
  else none

def loadDependency (sys : Sys) (load : Path → LoadM (Except LinkError Nat)) (parentDir : Path)
    (dep : String) : LoadM Unit :=
  match dependencyPath sys parentDir dep with
  | none => pure ()
  | some path => do
    match ← load path with
    | .ok _ => pure ()
    | .error e => modify fun linker => { linker with warnings := linker.warnings ++ [(path, e)] }

def loadDependencies (sys : Sys) (load : Path → LoadM (Except LinkError Nat))
    (parentDir : Path) : List String → LoadM Unit
  | [] => pure ()
  | dep :: rest => do
    loadDependency sys load parentDir dep
    loadDependencies sys load parentDir rest

def loadModule (p : Profile) (sys : Sys) : (fuel : Nat) → Path → LoadM (Except LinkError Nat)
  | 0, _ => fun _ => .err .outOfFuel
  | fuel + 1, path => do
    match (← get).loadedIndex path with
    | some idx => return .ok (idx % 2 ^ 32)
    | none =>
      match ← install p sys path with
      | .error e => return .error e
      | .ok (index, needed) =>
        loadDependencies sys (loadModule p sys fuel) (path.parent.getD .empty) needed
        return .ok index

def mainModule (linker : Linker) : Option Module := linker.modules.head?

def relocateAll (p : Profile) (linker : Linker) (stubs : Option StubAllocator) :
    Outcome Empty (Linker × Option StubAllocator) := do
  let (ram, stubs) ← linker.modules.foldlM
    (fun memory module => relocateModule p module linker.hleSymbols linker.guest.writable memory)
    (linker.guest.ram, stubs)
  return ({ linker with guest := { linker.guest with ram } }, stubs)

def entryPoint (p : Profile) (linker : Linker) : Outcome Empty (Option Nat) :=
  match linker.mainModule with
  | none => .ok none
  | some module => do return some (← p.add 64 module.baseVirtualAddr module.elf.entryPoint)

end Linker

end AnotherPs4
