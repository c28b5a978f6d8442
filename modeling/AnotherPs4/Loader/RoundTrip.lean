import AnotherPs4.Loader.Wrapping
import AnotherPs4.Rust.Encoding

/-!
# Encoding of ELF images

An image is written as its header, its program header table, its dynamic entries
and its dynlib data, each at the offset that says where it is. `parse` of a file
with these parts in place returns them.
-/

namespace AnotherPs4

open Rust

/-! ### Type codes -/

namespace ElfType

def code : ElfType → Nat
  | none => 0x0
  | relocatable => 0x1
  | executable => 0x2
  | sharedObject => 0x3
  | core => 0x4
  | sceExec => 0xFE00
  | sceStubLib => 0xFE0C
  | sceDynExec => 0xFE10
  | sceDynamic => 0xFE18
  | unknown value => value

def named : List ElfType :=
  [none, relocatable, executable, sharedObject, core, sceExec, sceStubLib, sceDynExec, sceDynamic]

/-- A 16-bit type, which is unknown only when no named type has its code. -/
def Canonical : ElfType → Prop
  | unknown value => value < 2 ^ 16 ∧ value ∉ named.map code
  | _ => True

theorem ofU16_code {type : ElfType} (canonical : type.Canonical) : ofU16 type.code = type := by
  cases type with
  | unknown value =>
    have unnamed := canonical.2
    simp only [named, List.map_cons, List.map_nil, code, List.mem_cons, List.not_mem_nil, or_false,
      not_or] at unnamed
    unfold code ofU16
    split <;> simp_all
  | _ => rfl

end ElfType

namespace ProgramType

def code : ProgramType → Nat
  | null => 0x0
  | load => 0x1
  | dynamic => 0x2
  | interp => 0x3
  | note => 0x4
  | phdr => 0x6
  | tls => 0x7
  | sceRela => 0x60000000
  | sceDynlibData => 0x61000000
  | sceProcParam => 0x61000001
  | sceModuleParam => 0x61000002
  | sceRelro => 0x61000010
  | gnuEhFrame => 0x6474E550
  | gnuStack => 0x6474E551
  | gnuRelro => 0x6474E552
  | sceComment => 0x6FFFFF00
  | sceLibVersion => 0x6FFFFF01
  | unknown value => value

def named : List ProgramType :=
  [null, load, dynamic, interp, note, phdr, tls, sceRela, sceDynlibData, sceProcParam,
    sceModuleParam, sceRelro, gnuEhFrame, gnuStack, gnuRelro, sceComment, sceLibVersion]

/-- A 32-bit type, which is unknown only when no named type has its code. -/
def Canonical : ProgramType → Prop
  | unknown value => value < 2 ^ 32 ∧ value ∉ named.map code
  | _ => True

theorem ofU32_code {type : ProgramType} (canonical : type.Canonical) : ofU32 type.code = type := by
  cases type with
  | unknown value =>
    have unnamed := canonical.2
    simp only [named, List.map_cons, List.map_nil, code, List.mem_cons, List.not_mem_nil, or_false,
      not_or] at unnamed
    unfold code ofU32
    split <;> simp_all
  | _ => rfl

end ProgramType

/-! ### Records -/

def ElfIdent.fields (ident : ElfIdent) : List (Nat × Nat) :=
  [(1, ident.class_), (1, ident.data), (1, ident.version), (1, ident.osAbi), (1, ident.abiVersion)]

def ElfIdent.encode (ident : ElfIdent) : List UInt8 :=
  ident.magic ++ (encodeFields ident.fields ++ ident.padding)

namespace ElfHeader

def fields (header : ElfHeader) : List (Nat × Nat) :=
  [(2, header.elfType.code), (2, header.machine), (4, header.version), (8, header.entry),
    (8, header.phoff), (8, header.shoff), (4, header.flags), (2, header.ehsize),
    (2, header.phentsize), (2, header.phnum), (2, header.shentsize), (2, header.shnum),
    (2, header.shstrndx)]

def encode (header : ElfHeader) : List UInt8 := header.ident.encode ++ encodeFields header.fields

/-- A header of a little-endian x86-64 ELF64 image. -/
structure Plain (header : ElfHeader) : Prop where
  magic : header.ident.magic = elfMagic
  class_ : header.ident.class_ = 2
  endian : header.ident.data = 1
  identFit : FieldsFit header.ident.fields
  padding : header.ident.padding.length = 7
  elfType : header.elfType.Canonical
  machine : header.machine = 62
  fit : FieldsFit header.fields

/-- The encoding of a header is read back and passes all checks. -/
theorem encode_decodes {header : ElfHeader} (plain : header.Plain) {data : List UInt8} {pos : Nat}
    (holds : Holds data pos header.encode) :
    Elf.elfHeaderAt data pos = header ∧ Elf.HeaderFields data pos := by
  obtain ⟨identHolds, fieldsHold⟩ := Holds.append.mp holds
  obtain ⟨magicHolds, rest⟩ := Holds.append.mp identHolds
  obtain ⟨identFields, paddingHolds⟩ := Holds.append.mp rest
  have magicLength : header.ident.magic.length = 4 := by
    rw [plain.magic]
    rfl
  have identLength : (encodeFields header.ident.fields).length = 5 := length_encodeFields _
  have length : header.ident.encode.length = 16 := by
    simp only [ElfIdent.encode, List.length_append, magicLength, identLength, plain.padding]
  have magic : bytesAt data pos 4 = header.ident.magic := by
    rw [← magicLength]
    exact magicHolds
  have padding : bytesAt data (pos + 9) 7 = header.ident.padding := by
    rw [magicLength, identLength] at paddingHolds
    rw [← plain.padding]
    exact paddingHolds
  have identWords := identFields.fieldsAt plain.identFit
  have words := fieldsHold.fieldsAt plain.fit
  rw [magicLength] at identWords
  rw [length] at words
  simp only [ElfIdent.fields, FieldsAt, Nat.add_assoc, Nat.reduceAdd, and_true] at identWords
  simp only [fields, FieldsAt, Nat.add_assoc, Nat.reduceAdd, and_true] at words
  obtain ⟨class_, endian, version, osAbi, abiVersion⟩ := identWords
  obtain ⟨elfType, machine, words⟩ := words
  refine ⟨?_, magic.trans plain.magic, class_.trans plain.class_, endian.trans plain.endian,
    machine.trans plain.machine⟩
  simp only [Elf.elfHeaderAt, magic, class_, endian, version, osAbi, abiVersion, padding, elfType,
    ElfType.ofU16_code plain.elfType, machine, words]

theorem length_encode {header : ElfHeader} (plain : header.Plain) : header.encode.length = 64 := by
  simp [encode, ElfIdent.encode, length_encodeFields, ElfIdent.fields, fields, plain.magic,
    plain.padding, elfMagic]

end ElfHeader

namespace ProgramHeader

def fields (ph : ProgramHeader) : List (Nat × Nat) :=
  [(4, ph.phdrType.code), (4, ph.flags.bits), (8, ph.offset), (8, ph.vaddr), (8, ph.paddr),
    (8, ph.filesz), (8, ph.memsz), (8, ph.align)]

def encode (ph : ProgramHeader) : List UInt8 := encodeFields ph.fields

/-- A program header with no flag beyond execute, write and read. -/
structure Plain (ph : ProgramHeader) : Prop where
  phdrType : ph.phdrType.Canonical
  flags : ph.flags.bits < 8
  fit : FieldsFit ph.fields

@[simp] theorem length_encode (ph : ProgramHeader) : ph.encode.length = 56 := length_encodeFields _

theorem encode_decodes {ph : ProgramHeader} (plain : ph.Plain) {data : List UInt8} {pos : Nat}
    (holds : Holds data pos ph.encode) : Elf.programHeaderAt data pos = ph := by
  have words := holds.fieldsAt plain.fit
  simp only [fields, FieldsAt, Nat.add_assoc, Nat.reduceAdd, and_true] at words
  obtain ⟨type, flags, words⟩ := words
  have bits : ph.flags.bits &&& 0x7 = ph.flags.bits := by
    rw [show 0x7 = 2 ^ 3 - 1 by rfl, Nat.and_two_pow_sub_one_eq_mod, Nat.mod_eq_of_lt plain.flags]
  simp only [Elf.programHeaderAt, type, ProgramType.ofU32_code plain.phdrType, flags,
    ProgramFlags.fromBitsTruncate, bits, words]

end ProgramHeader

namespace DynamicEntry

def fields (entry : DynamicEntry) : List (Nat × Nat) := [(8, unsigned 64 entry.tag), (8, entry.value)]

def encode (entry : DynamicEntry) : List UInt8 := encodeFields entry.fields

/-- A 64-bit tag and value. -/
structure Words (entry : DynamicEntry) : Prop where
  tagLow : -2 ^ 63 ≤ entry.tag
  tagHigh : entry.tag < 2 ^ 63
  value : entry.value < 2 ^ 64

@[simp] theorem length_encode (entry : DynamicEntry) : entry.encode.length = 16 :=
  length_encodeFields _

theorem encode_decodes {entry : DynamicEntry} (entryWords : entry.Words) {data : List UInt8}
    {pos : Nat} (holds : Holds data pos entry.encode) :
    signed 64 (word data pos 8) = entry.tag ∧ word data (pos + 8) 8 = entry.value := by
  have fit : FieldsFit entry.fields := by
    intro field member
    rcases List.mem_cons.mp member with rfl | member
    · exact unsigned_lt 64 _
    · cases List.mem_singleton.mp member
      exact entryWords.value
  obtain ⟨tag, value, -⟩ := holds.fieldsAt fit
  have low := entryWords.tagLow
  have high := entryWords.tagHigh
  exact ⟨by rw [tag, signed_unsigned (by omega) (by omega)], value⟩

end DynamicEntry

namespace Elf

/-! ### Files -/

/-- The contents of an image, with every field in its range. -/
structure Image where
  header : ElfHeader
  programHeaders : List ProgramHeader
  dynamicEntries : List DynamicEntry
  dynlibData : List UInt8
  plain : header.Plain
  count : header.phnum = programHeaders.length
  headersPlain : ∀ ph ∈ programHeaders, ph.Plain
  entriesWords : ∀ entry ∈ dynamicEntries, entry.Words
  entriesNonNull : ∀ entry ∈ dynamicEntries, entry.tag ≠ 0

/-- Dynamic entries stand where a program header says, and end with its size or
with a null entry. -/
structure DynamicTable (data : List UInt8) (ph : ProgramHeader) (entries : List DynamicEntry) :
    Prop where
  stand : Holds data ph.offset (entries.flatMap DynamicEntry.encode)
  ended : entries.length = ph.filesz / 16 ∨ entries.length < ph.filesz / 16 ∧
    ∃ value < 2 ^ 64, Holds data (ph.offset + entries.length * 16) (DynamicEntry.encode ⟨0, value⟩)

/-- The parts of an image stand in a file at the offsets that its headers name.
What else is in the file, and whether parts share bytes, does not matter. -/
structure Image.PlacedIn (image : Image) (data : List UInt8) : Prop where
  /-- The limit of a `Vec`. -/
  length : data.length < 2 ^ 63
  header : Holds data 0 image.header.encode
  table : Holds data image.header.phoff (image.programHeaders.flatMap ProgramHeader.encode)
  dynamic : ∀ ph ∈ image.programHeaders, ph.phdrType = .dynamic →
    DynamicTable data ph image.dynamicEntries
  noDynamic : (∀ ph ∈ image.programHeaders, ph.phdrType ≠ .dynamic) → image.dynamicEntries = []
  dynlib : ∀ ph ∈ image.programHeaders, ph.phdrType = .sceDynlibData →
    Holds data ph.offset image.dynlibData ∧ ph.filesz = image.dynlibData.length
  noDynlib : (∀ ph ∈ image.programHeaders, ph.phdrType ≠ .sceDynlibData) → image.dynlibData = []

variable {data : List UInt8}

theorem readDynamicEntries_encode {pos numEntries : Nat} {entries : List DynamicEntry}
    (words : ∀ entry ∈ entries, entry.Words) (nonNull : ∀ entry ∈ entries, entry.tag ≠ 0)
    (holds : Holds data pos (entries.flatMap DynamicEntry.encode))
    (ended : entries.length = numEntries ∨ entries.length < numEntries ∧
      ∃ value < 2 ^ 64, Holds data (pos + entries.length * 16) (DynamicEntry.encode ⟨0, value⟩)) :
    readDynamicEntries numEntries ⟨data, pos⟩ = entries := by
  induction entries generalizing pos numEntries with
  | nil =>
    rcases ended with rfl | ⟨more, value, valueWord, null⟩
    · rfl
    · obtain ⟨rest, rfl⟩ := Nat.exists_eq_add_one_of_ne_zero (Nat.ne_zero_of_lt more)
      rw [List.length_nil, Nat.zero_mul, Nat.add_zero] at null
      have tag := (DynamicEntry.encode_decodes ⟨by simp, by simp, valueWord⟩ null).1
      rw [readDynamicEntries_succ, if_pos tag, ite_self]
  | cons entry entries inductionHypothesis =>
    rw [List.flatMap_cons, Holds.append, DynamicEntry.length_encode] at holds
    obtain ⟨first, rest⟩ := holds
    obtain ⟨remaining, rfl⟩ : ∃ remaining, numEntries = remaining + 1 :=
      Nat.exists_eq_add_one_of_ne_zero (by rw [List.length_cons] at ended; omega)
    have inside : pos + 16 ≤ data.length := by
      simpa using first.fits.resolve_left
        (List.ne_nil_of_length_pos (by rw [DynamicEntry.length_encode]; decide))
    obtain ⟨tag, value⟩ := DynamicEntry.encode_decodes (words entry (.head _)) first
    rw [readDynamicEntries_succ, if_pos inside, tag, value, if_neg (nonNull entry (.head _)),
      inductionHypothesis (fun other member => words other (.tail _ member))
        (fun other member => nonNull other (.tail _ member)) rest]
    rw [List.length_cons, Nat.add_one_mul] at ended
    refine ended.imp (by omega) fun ⟨more, value, valueWord, null⟩ => ⟨by omega, value, valueWord, ?_⟩
    rwa [Nat.add_assoc, Nat.add_comm 16]

theorem DynamicTable.dynamicEntriesAt_eq {ph : ProgramHeader} {entries : List DynamicEntry}
    (placed : DynamicTable data ph entries) (words : ∀ entry ∈ entries, entry.Words)
    (nonNull : ∀ entry ∈ entries, entry.tag ≠ 0) :
    dynamicEntriesAt data ph.offset ph.filesz = entries := by
  unfold dynamicEntriesAt
  split
  · exact readDynamicEntries_encode words nonNull placed.stand placed.ended
  · next beyond =>
    -- nothing stands beyond the end of the file, so there are no entries
    cases entries with
    | nil => rfl
    | cons entry entries =>
      have inside := placed.stand.table_fits DynamicEntry.length_encode
      rw [List.length_cons] at inside
      omega

namespace Image.PlacedIn

variable {image : Image} (placed : image.PlacedIn data)

include placed

theorem headerFields : HeaderFields data 0 :=
  (image.header.encode_decodes image.plain placed.header).2

theorem isSelfFile_eq : isSelfFile data = false := by
  rw [isSelfFile, word, placed.headerFields.magic]
  decide

theorem imageStart_eq : imageStart data = 0 := by
  rw [imageStart, placed.isSelfFile_eq]
  rfl

theorem imageHeader_eq : imageHeader data = image.header := by
  rw [imageHeader, placed.imageStart_eq]
  exact (image.header.encode_decodes image.plain placed.header).1

theorem opens : Opens data := by
  have length := image.header.length_encode image.plain
  have inside := placed.header.fits.resolve_left (List.ne_nil_of_length_pos (by omega))
  exact ⟨by rwa [placed.imageStart_eq, ← length], by rw [placed.imageStart_eq]; exact placed.headerFields⟩

theorem tableStart_eq : tableStart data = image.header.phoff := by
  rw [tableStart, placed.imageStart_eq, placed.imageHeader_eq, Nat.zero_add]

theorem exactHeaders_eq : exactHeaders data = image.programHeaders := by
  rw [exactHeaders, programTable, placed.tableStart_eq, placed.imageHeader_eq, image.count]
  exact placed.table.table ProgramHeader.length_encode fun ph member pos holds =>
    ph.encode_decodes (image.headersPlain ph member) holds

theorem tablePresent : TablePresent data (tableStart data) := by
  have inside := placed.table.table_fits ProgramHeader.length_encode
  rw [TablePresent, placed.tableStart_eq, placed.imageHeader_eq, image.count]
  exact inside.imp_left (by omega)

theorem exactOffset_eq (idx : Nat) (ph : ProgramHeader) : exactOffset data idx ph = ph.offset := by
  rw [exactOffset, realOffset, placed.isSelfFile_eq]
  rfl

theorem offsetFits (idx : Nat) (ph : ProgramHeader) : OffsetFits data idx ph := by
  rw [OffsetFits, SumsFit, placed.isSelfFile_eq]
  simp

theorem lastHeader_mem {type : ProgramType} {idx : Nat} {ph : ProgramHeader}
    (last : lastHeader type (exactHeaders data) = some (idx, ph)) :
    ph ∈ image.programHeaders ∧ ph.phdrType = type := by
  rw [placed.exactHeaders_eq] at last
  obtain ⟨entry, isType⟩ := lastHeader_eq_some last
  exact ⟨List.mem_of_getElem? entry, isType⟩

theorem offsetsFit : OffsetsFit data where
  table _ := by
    rw [placed.tableStart_eq]
    exact image.plain.fit (8, image.header.phoff) (by simp [ElfHeader.fields])
  dynamic _ _ idx ph _ := placed.offsetFits idx ph
  dynlib _ _ idx ph last := by
    refine ⟨placed.offsetFits idx ph, ?_⟩
    obtain ⟨member, isType⟩ := placed.lastHeader_mem last
    obtain ⟨stands, size⟩ := placed.dynlib ph member isType
    have offset : ph.offset < 2 ^ 64 :=
      (image.headersPlain ph member).fit (8, ph.offset) (by simp [ProgramHeader.fields])
    have limit := placed.length
    have inside := stands.fits
    rw [← List.length_eq_zero_iff] at inside
    rw [placed.exactOffset_eq, size]
    omega

theorem exactDynamic_eq : exactDynamic data = image.dynamicEntries := by
  unfold exactDynamic
  cases last : lastHeader .dynamic (exactHeaders data) with
  | none =>
    rw [placed.exactHeaders_eq] at last
    exact (placed.noDynamic (lastHeader_eq_none last)).symm
  | some found =>
    obtain ⟨member, isType⟩ := placed.lastHeader_mem last
    simp only [Option.elim_some, placed.exactOffset_eq]
    exact (placed.dynamic found.2 member isType).dynamicEntriesAt_eq image.entriesWords
      image.entriesNonNull

theorem exactDynlib_eq : exactDynlib data = image.dynlibData := by
  unfold exactDynlib
  cases last : lastHeader .sceDynlibData (exactHeaders data) with
  | none =>
    rw [placed.exactHeaders_eq] at last
    exact (placed.noDynlib (lastHeader_eq_none last)).symm
  | some found =>
    obtain ⟨member, isType⟩ := placed.lastHeader_mem last
    obtain ⟨stands, size⟩ := placed.dynlib found.2 member isType
    simp only [Option.elim_some, placed.exactOffset_eq, size]
    exact stands

end Image.PlacedIn

/-- Decoding undoes encoding: `parse` returns exactly the image that a file holds. -/
theorem parse_encodedImage (p : Profile) {image : Image} (placed : image.PlacedIn data) :
    parse p data = .ok
      { isSelf := false
        selfHeader := none
        selfSegments := []
        header := image.header
        programHeaders := image.programHeaders
        dynamicEntries := image.dynamicEntries
        dynlibData := image.dynlibData
        data := data } := by
  refine (parse_of_fits p placed.offsetsFit).mpr ⟨⟨placed.opens, placed.tablePresent⟩, ?_⟩
  simp only [exactElf, segmentTable, placed.isSelfFile_eq, placed.imageHeader_eq,
    placed.exactHeaders_eq, placed.exactDynamic_eq, placed.exactDynlib_eq, Bool.false_eq_true,
    if_false]

/-- An image with an unknown program header, two dynamic entries and three bytes of
dynlib data. -/
def smallImage : Image where
  header :=
    { ident := { magic := elfMagic, class_ := 2, data := 1, version := 1, osAbi := 9, abiVersion := 3,
                 padding := [1, 2, 3, 4, 5, 6, 7] }
      elfType := .unknown 0xFE0D
      machine := 62
      version := 1
      entry := 0x1122334455667788
      phoff := 65
      shoff := 2 ^ 64 - 1
      flags := 0xA1B2C3D4
      ehsize := 64
      phentsize := 56
      phnum := 3
      shentsize := 0x1234
      shnum := 0x5678
      shstrndx := 0x9ABC }
  programHeaders :=
    [⟨.dynamic, ⟨4⟩, 234, 0x4000, 0x5000, 64, 64, 8⟩,
      ⟨.unknown 0x70000001, ⟨7⟩, 2 ^ 64 - 1, 1, 2, 3, 4, 5⟩,
      ⟨.sceDynlibData, ⟨0⟩, 282, 0, 0, 3, 0, 0x10⟩]
  dynamicEntries := [⟨0x61000009, 0x1234⟩, ⟨-1, 2 ^ 64 - 1⟩]
  dynlibData := [0xAA, 0, 0xBB]
  plain := ⟨rfl, rfl, rfl, by decide, rfl, ⟨by decide, by decide⟩, rfl, by decide⟩
  count := rfl
  headersPlain := by
    simp only [List.forall_mem_cons, List.not_mem_nil, false_imp_iff, implies_true, and_true]
    exact ⟨⟨trivial, by decide, by decide⟩, ⟨⟨by decide, by decide⟩, by decide, by decide⟩,
      ⟨trivial, by decide, by decide⟩⟩
  entriesWords := by
    simp only [List.forall_mem_cons, List.not_mem_nil, false_imp_iff, implies_true, and_true]
    exact ⟨⟨by decide, by decide, by decide⟩, ⟨by decide, by decide, by decide⟩⟩
  entriesNonNull := by decide

/-- Its parts one after the other, with a byte of filler before the program headers and
before the dynamic entries. -/
def smallFile : List UInt8 :=
  smallImage.header.encode ++ [0xFF] ++ smallImage.programHeaders.flatMap ProgramHeader.encode ++
    [0xFF] ++ smallImage.dynamicEntries.flatMap DynamicEntry.encode ++ DynamicEntry.encode ⟨0, 7⟩ ++
    smallImage.dynlibData

theorem parse_encodedImage_small : smallImage.PlacedIn smallFile ∧
    parse .dev smallFile = .ok ⟨false, none, [], smallImage.header, smallImage.programHeaders,
      smallImage.dynamicEntries, smallImage.dynlibData, smallFile⟩ := by
  have placed : smallImage.PlacedIn smallFile := {
    length := by decide +kernel
    header := by decide +kernel
    table := by decide +kernel
    dynamic := by
      have ended : smallImage.dynamicEntries.length < 64 / 16 ∧ ∃ value < 2 ^ 64,
          Holds smallFile (234 + smallImage.dynamicEntries.length * 16)
            (DynamicEntry.encode ⟨0, value⟩) := ⟨by decide, 7, by decide, by decide +kernel⟩
      simp only [smallImage, List.forall_mem_cons, List.not_mem_nil, false_imp_iff, implies_true,
        and_true, reduceCtorEq]
      exact fun _ => ⟨by decide +kernel, .inr ended⟩
    noDynamic := fun none => absurd rfl (none _ (.head _))
    dynlib := by
      simp only [smallImage, List.forall_mem_cons, List.not_mem_nil, false_imp_iff, implies_true,
        and_true, true_and, reduceCtorEq]
      exact fun _ => ⟨by decide +kernel, rfl⟩
    noDynlib := fun none => absurd rfl (none _ (.tail _ (.tail _ (.head _)))) }
  exact ⟨placed, parse_encodedImage .dev placed⟩

end Elf

end AnotherPs4
