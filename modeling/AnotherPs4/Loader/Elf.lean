import AnotherPs4.Rust.Cursor
import AnotherPs4.Rust.Slice

/-!
# ELF and SELF files

A SELF file wraps an ELF image: its header and segment table come first, and
its blocked segments hold the contents of program headers at other offsets than
the image says.
-/

namespace AnotherPs4

open Rust Rust.CursorM

variable {ε : Type}

def selfMagic : Nat := 0x1D3D154F

/-- SELF file header (32 bytes). -/
structure SelfHeader where
  magic : Nat
  version : Nat
  mode : Nat
  endian : Nat
  attributes : Nat
  category : Nat
  programType : Nat
  padding1 : Nat
  headerSize : Nat
  metaSize : Nat
  fileSize : Nat
  padding2 : Nat
  segmentCount : Nat
  unknown1a : Nat
  padding3 : Nat
  deriving DecidableEq, Repr

/-- SELF segment header (32 bytes). -/
structure SelfSegmentHeader where
  flags : Nat
  fileOffset : Nat
  fileSize : Nat
  memorySize : Nat
  deriving DecidableEq, Repr

namespace SelfSegmentHeader

def isBlocked (seg : SelfSegmentHeader) : Bool := seg.flags &&& 0x800 != 0

def getId (seg : SelfSegmentHeader) : Nat := (seg.flags >>> 20) &&& 0xFFF

end SelfSegmentHeader

def elfMagic : List UInt8 := [0x7F, 0x45, 0x4C, 0x46]

inductive ElfType where
  | none
  | relocatable
  | executable
  | sharedObject
  | core
  | sceExec
  | sceStubLib
  | sceDynExec
  | sceDynamic
  | unknown (value : Nat)
  deriving DecidableEq, Repr

def ElfType.ofU16 : Nat → ElfType
  | 0x0 => none
  | 0x1 => relocatable
  | 0x2 => executable
  | 0x3 => sharedObject
  | 0x4 => core
  | 0xFE00 => sceExec
  | 0xFE0C => sceStubLib
  | 0xFE10 => sceDynExec
  | 0xFE18 => sceDynamic
  | other => unknown other

/-- The first 16 bytes. -/
structure ElfIdent where
  magic : List UInt8
  class_ : Nat
  data : Nat
  version : Nat
  osAbi : Nat
  abiVersion : Nat
  padding : List UInt8
  deriving DecidableEq, Repr

/-- ELF64 file header (64 bytes). -/
structure ElfHeader where
  ident : ElfIdent
  elfType : ElfType
  machine : Nat
  version : Nat
  entry : Nat
  phoff : Nat
  shoff : Nat
  flags : Nat
  ehsize : Nat
  phentsize : Nat
  phnum : Nat
  shentsize : Nat
  shnum : Nat
  shstrndx : Nat
  deriving DecidableEq, Repr

inductive ProgramType where
  | null
  | load
  | dynamic
  | interp
  | note
  | phdr
  | tls
  | sceRela
  | sceDynlibData
  | sceProcParam
  | sceModuleParam
  | sceRelro
  | gnuEhFrame
  | gnuStack
  | gnuRelro
  | sceComment
  | sceLibVersion
  | unknown (value : Nat)
  deriving DecidableEq, Repr

def ProgramType.ofU32 : Nat → ProgramType
  | 0x0 => null
  | 0x1 => load
  | 0x2 => dynamic
  | 0x3 => interp
  | 0x4 => note
  | 0x6 => phdr
  | 0x7 => tls
  | 0x60000000 => sceRela
  | 0x61000000 => sceDynlibData
  | 0x61000001 => sceProcParam
  | 0x61000002 => sceModuleParam
  | 0x61000010 => sceRelro
  | 0x6474E550 => gnuEhFrame
  | 0x6474E551 => gnuStack
  | 0x6474E552 => gnuRelro
  | 0x6FFFFF00 => sceComment
  | 0x6FFFFF01 => sceLibVersion
  | other => unknown other

/-- Execute, write and read bits. -/
structure ProgramFlags where
  bits : Nat
  deriving DecidableEq, Repr

namespace ProgramFlags

def execute : ProgramFlags := ⟨1⟩

def write : ProgramFlags := ⟨2⟩

def read : ProgramFlags := ⟨4⟩

def contains (flags other : ProgramFlags) : Bool := flags.bits &&& other.bits == other.bits

def fromBitsTruncate (bits : Nat) : ProgramFlags := ⟨bits &&& 0x7⟩

end ProgramFlags

/-- ELF64 program header (56 bytes). -/
structure ProgramHeader where
  phdrType : ProgramType
  flags : ProgramFlags
  offset : Nat
  vaddr : Nat
  paddr : Nat
  filesz : Nat
  memsz : Nat
  align : Nat
  deriving DecidableEq, Repr

structure DynamicEntry where
  tag : Int
  value : Nat
  deriving DecidableEq, Repr

inductive ElfError where
  | io (error : IoError)
  | notElf
  | not64Bit (class_ : Nat)
  | notLittleEndian (data : Nat)
  | notX86_64 (machine : Nat)
  deriving DecidableEq, Repr

instance : FromIo ElfError := ⟨.io⟩

/-- A parsed file. -/
structure Elf where
  isSelf : Bool
  selfHeader : Option SelfHeader
  selfSegments : List SelfSegmentHeader
  header : ElfHeader
  programHeaders : List ProgramHeader
  dynamicEntries : List DynamicEntry
  dynlibData : List UInt8
  data : List UInt8
  deriving DecidableEq, Repr

namespace Elf

def readSelfHeader : CursorM ElfError SelfHeader := do
  return {
    magic := ← readU32
    version := ← readU8
    mode := ← readU8
    endian := ← readU8
    attributes := ← readU8
    category := ← readU8
    programType := ← readU8
    padding1 := ← readU16
    headerSize := ← readU16
    metaSize := ← readU16
    fileSize := ← readU32
    padding2 := ← readU32
    segmentCount := ← readU16
    unknown1a := ← readU16
    padding3 := ← readU32 }

def readSelfSegment : CursorM ElfError SelfSegmentHeader := do
  return {
    flags := ← readU64
    fileOffset := ← readU64
    fileSize := ← readU64
    memorySize := ← readU64 }

def readElfHeader : CursorM ElfError ElfHeader := do
  let magic ← readExact 4
  failIf (magic ≠ elfMagic) .notElf
  let class_ ← readU8
  failIf (class_ ≠ 2) (.not64Bit class_)
  let data ← readU8
  failIf (data ≠ 1) (.notLittleEndian data)
  let version ← readU8
  let osAbi ← readU8
  let abiVersion ← readU8
  let padding ← readExact 7
  let elfTypeRaw ← readU16
  let machine ← readU16
  failIf (machine ≠ 62) (.notX86_64 machine)
  return {
    ident := { magic, class_, data, version, osAbi, abiVersion, padding }
    elfType := .ofU16 elfTypeRaw
    machine := machine
    version := ← readU32
    entry := ← readU64
    phoff := ← readU64
    shoff := ← readU64
    flags := ← readU32
    ehsize := ← readU16
    phentsize := ← readU16
    phnum := ← readU16
    shentsize := ← readU16
    shnum := ← readU16
    shstrndx := ← readU16 }

def readProgramHeader : CursorM ElfError ProgramHeader := do
  let typeRaw ← readU32
  let flagsRaw ← readU32
  return {
    phdrType := .ofU32 typeRaw
    flags := .fromBitsTruncate flagsRaw
    offset := ← readU64
    vaddr := ← readU64
    paddr := ← readU64
    filesz := ← readU64
    memsz := ← readU64
    align := ← readU64 }

/-- Case 2 of the resolution: the first blocked segment whose program header's
range contains the target offset. -/
def resolveInParent (p : Profile) (programHeaders : List ProgramHeader) (targetOffset : Nat) :
    List SelfSegmentHeader → Outcome ε (Option Nat)
  | [] => .ok none
  | seg :: rest =>
    if !seg.isBlocked then resolveInParent p programHeaders targetOffset rest
    else match programHeaders[seg.getId]? with
      | none => resolveInParent p programHeaders targetOffset rest
      | some parentPh =>
        if targetOffset ≥ parentPh.offset then do
          let parentEnd ← p.add 64 parentPh.offset parentPh.filesz
          if targetOffset < parentEnd then do
            let real ← p.add 64 seg.fileOffset (targetOffset - parentPh.offset)
            return some real
          else resolveInParent p programHeaders targetOffset rest
        else resolveInParent p programHeaders targetOffset rest

def resolveFileOffsetInternal (p : Profile) (isSelf : Bool)
    (selfSegments : List SelfSegmentHeader) (programHeaders : List ProgramHeader)
    (phdrIdx : Nat) (phdr : ProgramHeader) (elfOffset : Nat) : Outcome ε Nat :=
  if !isSelf then .ok phdr.offset
  else match selfSegments.find? fun seg => seg.isBlocked && seg.getId == phdrIdx with
    | some seg => .ok seg.fileOffset
    | none => do
      match ← resolveInParent p programHeaders phdr.offset selfSegments with
      | some real => return real
      | none => p.add 64 elfOffset phdr.offset

def lastOfType (type : ProgramType) (programHeaders : List ProgramHeader) : Option Nat :=
  programHeaders.zipIdx.foldl
    (fun found (ph, idx) => if ph.phdrType = type then some idx else found) none

/-- What `k` makes of the last program header of a type, or an empty vector. -/
def onLastOfType {β : Type} (type : ProgramType) (programHeaders : List ProgramHeader)
    (k : Nat → ProgramHeader → Outcome ε (List β)) : Outcome ε (List β) :=
  match lastOfType type programHeaders with
  | none => .ok []
  | some idx => match programHeaders[idx]? with
    | none => .panic .indexBounds
    | some ph => k idx ph

def readDynamicEntries : Nat → Cursor → List DynamicEntry
  | 0, _ => []
  | numEntries + 1, c =>
    match (readI64 : CursorM ElfError Int) c with
    | .ok (tag, c) =>
      match (readU64 : CursorM ElfError Nat) c with
      | .ok (value, c) => if tag = 0 then [] else ⟨tag, value⟩ :: readDynamicEntries numEntries c
      | _ => []
    | _ => []

def dynamicEntriesAt (data : List UInt8) (realOffset filesz : Nat) : List DynamicEntry :=
  if realOffset < data.length then readDynamicEntries (filesz / 16) ⟨data, realOffset⟩ else []

/-- `&data[start..end]`, or what there is of it. -/
def dynlibDataAt (p : Profile) (data : List UInt8) (realOffset filesz : Nat) :
    Outcome ε (List UInt8) := do
  let stop ← p.add 64 realOffset filesz
  if stop ≤ data.length then slice data realOffset stop
  else if realOffset < data.length then slice data realOffset data.length
  else return []

/-- Start of the ELF image, read off the SELF header and segment table. -/
def readPrelude : CursorM ElfError
    (Bool × Option SelfHeader × List SelfSegmentHeader × Nat) := do
  let firstU32 ← readU32
  seek 0
  if firstU32 = selfMagic then
    let sh ← readSelfHeader
    let segments ← readMany readSelfSegment sh.segmentCount
    let elfOff ← position
    return (true, some sh, segments, elfOff)
  else return (false, none, [], 0)

def parseFrom (p : Profile) (data : List UInt8) : CursorM ElfError Elf := do
  let (isSelf, selfHeader, selfSegments, elfOffset) ← readPrelude
  seek elfOffset
  let header ← readElfHeader
  seek (← lift (p.add 64 elfOffset header.phoff))
  let programHeaders ← readMany readProgramHeader header.phnum
  let resolve (phdrIdx : Nat) (phdr : ProgramHeader) : Outcome ElfError Nat :=
    resolveFileOffsetInternal p isSelf selfSegments programHeaders phdrIdx phdr elfOffset
  let dynamicEntries ← lift (onLastOfType .dynamic programHeaders fun dynIdx dynPh => do
    return dynamicEntriesAt data (← resolve dynIdx dynPh) dynPh.filesz)
  let dynlibData ← lift (onLastOfType .sceDynlibData programHeaders fun dlIdx dlPh => do
    dynlibDataAt p data (← resolve dlIdx dlPh) dlPh.filesz)
  return { isSelf, selfHeader, selfSegments, header, programHeaders, dynamicEntries, dynlibData,
           data }

def parse (p : Profile) (data : List UInt8) : Outcome ElfError Elf :=
  (parseFrom p data).run' ⟨data, 0⟩

def elfOffset (elf : Elf) : Nat :=
  if elf.isSelf then elf.selfHeader.elim 0 fun sh => 32 + sh.segmentCount * 32 else 0

def resolveFileOffset (p : Profile) (elf : Elf) (phdrIdx : Nat) (phdr : ProgramHeader) :
    Outcome ε Nat :=
  resolveFileOffsetInternal p elf.isSelf elf.selfSegments elf.programHeaders phdrIdx phdr
    elf.elfOffset

end Elf

end AnotherPs4
