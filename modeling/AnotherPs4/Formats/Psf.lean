import AnotherPs4.Rust.Cursor
import AnotherPs4.Rust.Utf8
import Std.Data.HashMap.Lemmas

/-!
# PARAM.SFO files

Key-value metadata of a game: a header, an index table of fixed-size records,
and keys and values found by seeking into two tables.
-/

namespace AnotherPs4

open Rust Rust.CursorM

inductive PsfError where
  | io (error : IoError)
  | invalidMagic (magic : Nat)
  | unknownFormat (format : Nat)
  | invalidUtf8
  deriving DecidableEq, Repr

instance : FromIo PsfError := ⟨.io⟩

inductive PsfEntryFormat where
  | binary
  | text
  | integer
  deriving DecidableEq, Repr

def PsfEntryFormat.fromU16 : Nat → Option PsfEntryFormat
  | 0x0004 => some .binary
  | 0x0204 => some .text
  | 0x0404 => some .integer
  | _ => none

inductive PsfValue where
  | binary (bytes : List UInt8)
  | text (text : String)
  | integer (value : Int)
  deriving DecidableEq, Repr

structure Psf where
  version : Nat
  entries : Std.HashMap String PsfValue

/-- Index table entry (16 bytes). -/
structure RawIndexEntry where
  keyOffset : Nat
  paramFmt : Nat
  paramLen : Nat
  paramMaxLen : Nat
  dataOffset : Nat
  deriving DecidableEq, Repr

namespace Psf

def psfMagic : Nat := 0x00505346

def readIndexEntry : CursorM PsfError RawIndexEntry := do
  return {
    keyOffset := ← readU16
    paramFmt := ← readU16
    paramLen := ← readU32
    paramMaxLen := ← readU32
    dataOffset := ← readU32 }

def readKeyBytes (data : List UInt8) (pos : Nat) (keyBytes : List UInt8) :
    Outcome PsfError (List UInt8 × Cursor) :=
  if inside : pos < data.length then
    if data[pos] = 0 then .ok (keyBytes, ⟨data, pos + 1⟩)
    else readKeyBytes data (pos + 1) (keyBytes ++ [data[pos]])
  else .err (.io .unexpectedEof)
termination_by data.length - pos

def readValue (paramLen : Nat) : PsfEntryFormat → CursorM PsfError PsfValue
  | .binary => do return .binary (← readExact paramLen)
  | .text => do
    -- the length includes the terminator
    let strLen := if paramLen > 0 then paramLen - 1 else 0
    let buf ← readExact strLen
    return .text (← okOr .invalidUtf8 (fromUtf8 buf))
  | .integer => do return .integer (← readI32)

def readEntry (p : Profile) (keyTableOffset dataTableOffset : Nat)
    (entries : Std.HashMap String PsfValue) (raw : RawIndexEntry) :
    CursorM PsfError (Std.HashMap String PsfValue) := do
  let keyStart ← lift (p.add 64 keyTableOffset raw.keyOffset)
  seek keyStart
  let keyBytes ← fun c => readKeyBytes c.data c.pos []
  let key ← okOr .invalidUtf8 (fromUtf8 keyBytes)
  let dataStart ← lift (p.add 64 dataTableOffset raw.dataOffset)
  seek dataStart
  let fmt ← okOr (.unknownFormat raw.paramFmt) (PsfEntryFormat.fromU16 raw.paramFmt)
  let value ← readValue raw.paramLen fmt
  return entries.insert key value

def parseFrom (p : Profile) : CursorM PsfError Psf := do
  let magic ← readU32
  failIf (magic ≠ psfMagic ∧ swapBytes magic ≠ psfMagic) (.invalidMagic magic)
  let version ← readU32
  let keyTableOffset ← readU32
  let dataTableOffset ← readU32
  let indexEntries ← readU32
  let rawEntries ← readMany readIndexEntry indexEntries
  let entries ← rawEntries.foldlM (readEntry p keyTableOffset dataTableOffset) ∅
  return { version, entries }

def parse (p : Profile) (data : List UInt8) : Outcome PsfError Psf :=
  (parseFrom p).run' ⟨data, 0⟩

end Psf

end AnotherPs4
