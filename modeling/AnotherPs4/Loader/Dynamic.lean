import AnotherPs4.Loader.Elf
import AnotherPs4.Rust.Path

/-!
# The dynamic section

Program headers found by type, values of dynamic entries, and the strings,
symbols and relocations in the dynlib data.
-/

namespace AnotherPs4

open Rust

variable {ε : Type}

def dtNeeded : Int := 0x00000001

def dtInit : Int := 0x0000000C

def dtInitArray : Int := 0x00000019

def dtInitArraySz : Int := 0x0000001B

def dtSceImportLib : Int := 0x61000015

def dtSceJmprel : Int := 0x61000029

def dtScePltrelSz : Int := 0x6100002D

def dtSceRela : Int := 0x6100002F

def dtSceRelaSz : Int := 0x61000031

def dtSceStrtab : Int := 0x61000035

def dtSceStrsz : Int := 0x61000037

def dtSceSymtab : Int := 0x61000039

def dtSceSymtabSz : Int := 0x6100003F

/-- Where the loop over the bytes of a string stops: at a null byte or at the end. -/
def stringEnd (data : List UInt8) (start : Nat) : Nat :=
  start + ((data.drop start).takeWhile (· ≠ 0)).length

/-- Symbol table entry (24 bytes). -/
structure ElfSymbol where
  nameOffset : Nat
  info : Nat
  other : Nat
  shndx : Nat
  value : Nat
  size : Nat
  deriving DecidableEq, Repr

namespace ElfSymbol

def fromBytes (bytes : List UInt8) : Option ElfSymbol :=
  if bytes.length < 24 then none
  else some {
    nameOffset := word bytes 0 4
    info := word bytes 4 1
    other := word bytes 5 1
    shndx := word bytes 6 2
    value := word bytes 8 8
    size := word bytes 16 8 }

def binding (sym : ElfSymbol) : Nat := sym.info >>> 4

def symType (sym : ElfSymbol) : Nat := sym.info &&& 0xF

end ElfSymbol

def rX86_64_64 : Nat := 1

def rX86_64GlobDat : Nat := 6

def rX86_64JumpSlot : Nat := 7

def rX86_64Relative : Nat := 8

def rX86_64Dtpmod64 : Nat := 16

/-- Relocation entry with addend (24 bytes). -/
structure ElfRelocation where
  offset : Nat
  info : Nat
  addend : Int
  deriving DecidableEq, Repr

namespace ElfRelocation

def fromBytes (bytes : List UInt8) : Option ElfRelocation :=
  if bytes.length < 24 then none
  else some {
    offset := word bytes 0 8
    info := word bytes 8 8
    addend := signed 64 (word bytes 16 8) }

def symbol (rel : ElfRelocation) : Nat := rel.info >>> 32

def relType (rel : ElfRelocation) : Nat := rel.info &&& 0xFFFFFFFF

end ElfRelocation

namespace Elf

variable (p : Profile) (elf : Elf)

def openBytes (read : Except IoError (List UInt8)) : Outcome ElfError Elf :=
  match read with
  | .error e => .err (.io e)
  | .ok data => parse p data

def loadSegments : List ProgramHeader := elf.programHeaders.filter (·.phdrType == .load)

def tlsHeader : Option ProgramHeader := elf.programHeaders.find? (·.phdrType == .tls)

def procParamHeader : Option ProgramHeader :=
  elf.programHeaders.find? (·.phdrType == .sceProcParam)

def ehFrameHeader : Option ProgramHeader := elf.programHeaders.find? (·.phdrType == .gnuEhFrame)

def entryPoint : Nat := elf.header.entry

def dynamicValue (tag : Int) : Option Nat :=
  (elf.dynamicEntries.find? (·.tag == tag)).map (·.value)

def getDynamicString (offset : Nat) : Outcome ε String :=
  match elf.dynamicValue dtSceStrtab, elf.dynamicValue dtSceStrsz with
  | some strtabOff, some strtabSz =>
    if offset ≥ strtabSz then .ok ""
    else do
      let start ← p.add 64 strtabOff offset
      if start ≥ elf.dynlibData.length then return ""
      else return fromUtf8Lossy (← slice elf.dynlibData start (stringEnd elf.dynlibData start))
  | _, _ => .ok ""

def neededModules : Outcome ε (List String) :=
  elf.dynamicEntries.foldlM (fun modules entry => do
    if entry.tag = dtNeeded ∨ entry.tag = dtSceImportLib then
      let name ← getDynamicString p elf entry.value
      return if name.isEmpty then modules else modules ++ [name]
    else return modules) []

end Elf

end AnotherPs4
