import AnotherPs4.Linker.Ram
import AnotherPs4.Loader.Dynamic
import AnotherPs4.Memory.VirtualMemory

/-!
# Modules

Loading an ELF file into guest memory. The file system and the answers of the
host kernel are parameters; guest addresses are host addresses, so the bytes of
a module are written straight into the cells at its base.
-/

namespace AnotherPs4

open Rust

/-- The host as seen by the linker: its file system, and the kernel at each
call of `map_memory`. -/
structure Sys where
  read : Path → Except IoError (List UInt8)
  pathExists : Path → Bool
  kernel : Nat → Host

/-- The memory manager and the cells of the process. Of the cells outside all areas,
`ownWritable` are those that the emulator itself has mapped for writing. -/
structure Guest where
  memory : MemoryManager
  ram : Ram
  mapCalls : Nat
  ownWritable : Nat → Bool := fun _ => false

/-- The host lets the process write the cell. Every call of `map_memory` makes its range
writable, whatever its `prot` says, and a free area is reserved or unmapped. -/
def Guest.writable (guest : Guest) (x : Nat) : Bool :=
  match RangeMap.attrAt guest.memory.vmaMap x with
  | some attributes => attributes.vmaType != .free
  | none => guest.ownWritable x

/-- `map_memory` without a hint for the address. -/
def Guest.mapMemory (p : Profile) (sys : Sys) (guest : Guest) (size : Nat) (prot : MemoryProt)
    (vmaType : VMAType) (name : String) : Outcome Empty (Except MemoryError Nat × Guest) := do
  let request : MapRequest :=
    { virtualAddr := 0, size, prot, flags := MemoryMapFlags.anonymous.union .priv, vmaType, name }
  let (mapped, memory) ← request.call p (sys.kernel guest.mapCalls) guest.memory
  let guest := { guest with memory, mapCalls := guest.mapCalls + 1 }
  match mapped with
  | .error e => return (.error e, guest)
  | .ok addr =>
    return (.ok addr, { guest with ram := guest.ram.zero addr (roundUp size pageSize) })

/-- A relocation with the name of its target symbol. -/
structure ParsedRelocation where
  offset : Nat
  relType : Nat
  addend : Int
  symbolName : String
  symbolBinding : Nat
  symbolType : Nat
  isJmpRel : Bool
  deriving DecidableEq, Repr

/-- An entry of a relocation table, with its symbol and the symbol's name. -/
structure RelocationEntry where
  rel : ElfRelocation
  symbol : Option (ElfSymbol × String)
  isJmpRel : Bool
  deriving DecidableEq, Repr

def RelocationEntry.parsed (entry : RelocationEntry) : ParsedRelocation where
  offset := entry.rel.offset
  relType := entry.rel.relType
  addend := entry.rel.addend
  symbolName := entry.symbol.elim "" (·.2)
  symbolBinding := entry.symbol.elim 0 (·.1.binding)
  symbolType := entry.symbol.elim 0 (·.1.symType)
  isJmpRel := entry.isJmpRel

structure Module where
  name : String
  file : Path
  elf : Elf
  baseVirtualAddr : Nat
  alignedBaseSize : Nat
  procParamAddr : Nat
  ehFrameHdrAddr : Nat
  ehFrameHdrSize : Nat
  relocations : List ParsedRelocation
  tlsIndex : Nat
  tlsImageAddr : Nat
  tlsImageSize : Nat
  tlsSize : Nat
  tlsAlign : Nat
  minAddr : Nat
  initArrayAddr : Nat
  initArraySize : Nat
  initAddr : Nat
  deriving DecidableEq, Repr

inductive LinkError where
  | elf (error : ElfError)
  | memory (error : MemoryError)
  | noLoadSegments (name : String)
  deriving DecidableEq, Repr

/-- File name of a path, as `load` and `load_module` compute it. -/
def moduleName (path : Path) : String := path.fileName.elim "unknown" fromUtf8Lossy

namespace Module

/-- `base_virtual_addr + vaddr - min_addr` -/
def translate (p : Profile) (base minAddr vaddr : Nat) : Outcome Empty Nat := do
  p.sub 64 (← p.add 64 base vaddr) minAddr

def loadRange (p : Profile) (segments : List ProgramHeader) : Outcome Empty (Nat × Nat) :=
  segments.foldlM (fun (minAddr, maxAddr) ph => do
    let segEnd ← p.add 64 ph.vaddr ph.memsz
    return (min minAddr ph.vaddr, max maxAddr segEnd)) (2 ^ 64 - 1, 0)

def copySegment (p : Profile) (elf : Elf) (base minAddr : Nat) (ram : Ram)
    (entry : ProgramHeader × Nat) : Outcome Empty Ram := do
  let (ph, phIdx) := entry
  if ph.phdrType ≠ .load then return ram
  else
    let destAddr ← translate p base minAddr ph.vaddr
    let srcOffset ← elf.resolveFileOffset p phIdx ph
    if ph.filesz > 0 then
      let stop ← p.add 64 srcOffset ph.filesz
      if stop ≤ elf.data.length then
        let src ← slice elf.data srcOffset stop
        return ram.write destAddr src
      else return ram
    else return ram

section Relocations

variable (p : Profile) (data : List UInt8) (symtabOff symtabSz strtabOff strtabSz : Nat)

def getString (offset : Nat) : Outcome Empty String :=
  if offset ≥ strtabSz then .ok ""
  else do
    let start ← p.add 64 strtabOff offset
    return fromUtf8Lossy (← slice data start (stringEnd data start))

def symbolAt (symIdx : Nat) : Outcome Empty (Option (ElfSymbol × String)) :=
  if symIdx ≠ 0 ∧ symIdx * 24 < symtabSz then do
    let start ← p.add 64 symtabOff (symIdx * 24)
    let symBytes ← slice data start data.length
    match ElfSymbol.fromBytes symBytes with
    | some sym => return some (sym, ← getString p data strtabOff strtabSz sym.nameOffset)
    | none => return none
  else .ok none

/-- The entry at index `i` of a table, unless it is cut off. -/
def readEntry (isJmpRel : Bool) (tableOff i : Nat) : Outcome Empty (Option RelocationEntry) := do
  let start ← p.add 64 tableOff (i * 24)
  let bytes ← slice data start data.length
  match ElfRelocation.fromBytes bytes with
  | none => return none
  | some rel =>
    let symbol ← symbolAt p data symtabOff symtabSz strtabOff strtabSz rel.symbol
    return some { rel, symbol, isJmpRel }

def readTable (isJmpRel : Bool) (tableOff : Nat) :
    (count i : Nat) → Outcome Empty (List RelocationEntry)
  | 0, _ => .ok []
  | count + 1, i => do
    let entry ← readEntry p data symtabOff symtabSz strtabOff strtabSz isJmpRel tableOff i
    return entry.toList ++ (← readTable isJmpRel tableOff count (i + 1))

def readTableAt (isJmpRel : Bool) (off sz : Option Nat) : Outcome Empty (List RelocationEntry) :=
  match off, sz with
  | some off, some sz =>
    readTable p data symtabOff symtabSz strtabOff strtabSz isJmpRel off (sz / 24) 0
  | _, _ => .ok []

end Relocations

def relocationEntries (p : Profile) (elf : Elf) : Outcome Empty (List RelocationEntry) :=
  match elf.dynamicValue dtSceSymtab, elf.dynamicValue dtSceSymtabSz,
    elf.dynamicValue dtSceStrtab, elf.dynamicValue dtSceStrsz with
  | some symtabOff, some symtabSz, some strtabOff, some strtabSz => do
    let table := readTableAt p elf.dynlibData symtabOff symtabSz strtabOff strtabSz
    let rela ← table false (elf.dynamicValue dtSceRela) (elf.dynamicValue dtSceRelaSz)
    let jmprel ← table true (elf.dynamicValue dtSceJmprel) (elf.dynamicValue dtScePltrelSz)
    return rela ++ jmprel
  | _, _, _, _ => .ok []

def parseRelocations (p : Profile) (elf : Elf) : Outcome Empty (List ParsedRelocation) := do
  return (← relocationEntries p elf).map (·.parsed)

/-- An address in the image if there is one, or 0. -/
def translateOr0 (p : Profile) (base minAddr : Nat) (vaddr : Option Nat) : Outcome Empty Nat :=
  vaddr.elim (.ok 0) (translate p base minAddr)

/-- `load` once the memory is mapped at `base`. -/
def place (p : Profile) (path : Path) (elf : Elf) (base alignedBaseSize minAddr : Nat)
    (ram : Ram) (maxTlsIndex : Nat) : Outcome Empty (Module × Ram × Nat) := do
  let ram ← elf.programHeaders.zipIdx.foldlM (copySegment p elf base minAddr) ram
  let procParamAddr ← translateOr0 p base minAddr (elf.procParamHeader.map (·.vaddr))
  let ehFrameHdrAddr ← translateOr0 p base minAddr (elf.ehFrameHeader.map (·.vaddr))
  let relocations ← parseRelocations p elf
  let tlsIndex ← elf.tlsHeader.elim (.ok 0) fun _ => p.add 32 maxTlsIndex 1
  let tlsImageAddr ← translateOr0 p base minAddr (elf.tlsHeader.map (·.vaddr))
  let initArrayAddr ← translateOr0 p base minAddr (elf.dynamicValue dtInitArray)
  let initAddr ← translateOr0 p base minAddr (elf.dynamicValue dtInit)
  -- the names are only logged here
  let _ ← elf.neededModules p
  return ({
    name := moduleName path
    file := path
    elf
    baseVirtualAddr := base
    alignedBaseSize
    procParamAddr
    ehFrameHdrAddr
    ehFrameHdrSize := elf.ehFrameHeader.elim 0 fun ph => ph.filesz % 2 ^ 32
    relocations
    tlsIndex
    tlsImageAddr
    tlsImageSize := elf.tlsHeader.elim 0 fun ph => ph.filesz % 2 ^ 32
    tlsSize := elf.tlsHeader.elim 0 fun ph => ph.memsz % 2 ^ 32
    tlsAlign := elf.tlsHeader.elim 0 fun ph => ph.align % 2 ^ 32
    minAddr
    initArrayAddr
    initArraySize := (elf.dynamicValue dtInitArraySz).getD 0
    initAddr }, ram, if elf.tlsHeader.isSome then tlsIndex else maxTlsIndex)

/-- `load` once the file is parsed. -/
def loadElf (p : Profile) (sys : Sys) (path : Path) (elf : Elf) (guest : Guest)
    (maxTlsIndex : Nat) : Outcome Empty (Except LinkError Module × Guest × Nat) := do
  let name := moduleName path
  let (minAddr, maxAddr) ← loadRange p elf.loadSegments
  if minAddr = 2 ^ 64 - 1 then return (.error (.noLoadSegments name), guest, maxTlsIndex)
  else
    let alignedBaseSize ← alignUp p (← p.sub 64 maxAddr minAddr) pageSize
    let prot := (MemoryProt.cpuRead.union .cpuWrite).union .cpuExec
    let (mapped, guest) ← guest.mapMemory p sys alignedBaseSize prot .code name
    match mapped with
    | .error e => return (.error (.memory e), guest, maxTlsIndex)
    | .ok base =>
      let (module, ram, maxTlsIndex) ←
        place p path elf base alignedBaseSize minAddr guest.ram maxTlsIndex
      return (.ok module, { guest with ram }, maxTlsIndex)

def load (p : Profile) (sys : Sys) (path : Path) (guest : Guest) (maxTlsIndex : Nat) :
    Outcome Empty (Except LinkError Module × Guest × Nat) :=
  match Elf.openBytes p (sys.read path) with
  | .ok elf => loadElf p sys path elf guest maxTlsIndex
  | .err e => .ok (.error (.elf e), guest, maxTlsIndex)
  | .panic cause => .panic cause

end Module

end AnotherPs4
