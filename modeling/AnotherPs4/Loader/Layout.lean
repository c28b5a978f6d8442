import AnotherPs4.Loader.Elf

/-!
# Layout of ELF and SELF files

Where the parts of a file are, and what the readers make of them: each record
is decoded by position, and `parse` is the composition of four such parts.
-/

namespace AnotherPs4

open Rust Rust.CursorM

namespace Elf

/-! ### Records by position -/

def selfHeaderAt (data : List UInt8) (pos : Nat) : SelfHeader where
  magic := word data pos 4
  version := word data (pos + 4) 1
  mode := word data (pos + 5) 1
  endian := word data (pos + 6) 1
  attributes := word data (pos + 7) 1
  category := word data (pos + 8) 1
  programType := word data (pos + 9) 1
  padding1 := word data (pos + 10) 2
  headerSize := word data (pos + 12) 2
  metaSize := word data (pos + 14) 2
  fileSize := word data (pos + 16) 4
  padding2 := word data (pos + 20) 4
  segmentCount := word data (pos + 24) 2
  unknown1a := word data (pos + 26) 2
  padding3 := word data (pos + 28) 4

def selfSegmentAt (data : List UInt8) (pos : Nat) : SelfSegmentHeader where
  flags := word data pos 8
  fileOffset := word data (pos + 8) 8
  fileSize := word data (pos + 16) 8
  memorySize := word data (pos + 24) 8

def elfHeaderAt (data : List UInt8) (pos : Nat) : ElfHeader where
  ident :=
    { magic := bytesAt data pos 4
      class_ := word data (pos + 4) 1
      data := word data (pos + 5) 1
      version := word data (pos + 6) 1
      osAbi := word data (pos + 7) 1
      abiVersion := word data (pos + 8) 1
      padding := bytesAt data (pos + 9) 7 }
  elfType := .ofU16 (word data (pos + 16) 2)
  machine := word data (pos + 18) 2
  version := word data (pos + 20) 4
  entry := word data (pos + 24) 8
  phoff := word data (pos + 32) 8
  shoff := word data (pos + 40) 8
  flags := word data (pos + 48) 4
  ehsize := word data (pos + 52) 2
  phentsize := word data (pos + 54) 2
  phnum := word data (pos + 56) 2
  shentsize := word data (pos + 58) 2
  shnum := word data (pos + 60) 2
  shstrndx := word data (pos + 62) 2

def programHeaderAt (data : List UInt8) (pos : Nat) : ProgramHeader where
  phdrType := .ofU32 (word data pos 4)
  flags := .fromBitsTruncate (word data (pos + 4) 4)
  offset := word data (pos + 8) 8
  vaddr := word data (pos + 16) 8
  paddr := word data (pos + 24) 8
  filesz := word data (pos + 32) 8
  memsz := word data (pos + 40) 8
  align := word data (pos + 48) 8

theorem readSelfHeader_reads : Reads readSelfHeader 32 selfHeaderAt :=
  (readUInt_reads 4).bind fun _ => (readUInt_reads 1).bind fun _ => (readUInt_reads 1).bind fun _ =>
    (readUInt_reads 1).bind fun _ => (readUInt_reads 1).bind fun _ =>
    (readUInt_reads 1).bind fun _ => (readUInt_reads 1).bind fun _ =>
    (readUInt_reads 2).bind fun _ => (readUInt_reads 2).bind fun _ =>
    (readUInt_reads 2).bind fun _ => (readUInt_reads 4).bind fun _ =>
    (readUInt_reads 4).bind fun _ => (readUInt_reads 2).bind fun _ =>
    (readUInt_reads 2).bind fun _ => (readUInt_reads 4).bind fun _ => .pure _

theorem readSelfSegment_reads : Reads readSelfSegment 32 selfSegmentAt :=
  (readUInt_reads 8).bind fun _ => (readUInt_reads 8).bind fun _ => (readUInt_reads 8).bind fun _ =>
    (readUInt_reads 8).bind fun _ => .pure _

theorem readProgramHeader_reads : Reads readProgramHeader 56 programHeaderAt :=
  (readUInt_reads 4).bind fun _ => (readUInt_reads 4).bind fun _ => (readUInt_reads 8).bind fun _ =>
    (readUInt_reads 8).bind fun _ => (readUInt_reads 8).bind fun _ =>
    (readUInt_reads 8).bind fun _ => (readUInt_reads 8).bind fun _ =>
    (readUInt_reads 8).bind fun _ => .pure _

/-- The fields of the ELF header at `pos` that are checked have the expected values. -/
structure HeaderFields (data : List UInt8) (pos : Nat) : Prop where
  magic : bytesAt data pos 4 = elfMagic
  class_ : word data (pos + 4) 1 = 2
  endian : word data (pos + 5) 1 = 1
  machine : word data (pos + 18) 2 = 62

theorem readElfHeader_accepts : Accepts readElfHeader 64 HeaderFields elfHeaderAt := by
  refine Accepts.congr ((readExact_reads 4).accepts.bind fun _ => (failIf_accepts _ _).bind fun _ =>
    (readUInt_reads 1).accepts.bind fun _ => (failIf_accepts _ _).bind fun _ =>
    (readUInt_reads 1).accepts.bind fun _ => (failIf_accepts _ _).bind fun _ =>
    (readUInt_reads 1).accepts.bind fun _ => (readUInt_reads 1).accepts.bind fun _ =>
    (readUInt_reads 1).accepts.bind fun _ => (readExact_reads 7).accepts.bind fun _ =>
    (readUInt_reads 2).accepts.bind fun _ => (readUInt_reads 2).accepts.bind fun _ =>
    (failIf_accepts _ _).bind fun _ => Reads.accepts <|
    (readUInt_reads 4).bind fun _ => (readUInt_reads 8).bind fun _ =>
    (readUInt_reads 8).bind fun _ => (readUInt_reads 8).bind fun _ =>
    (readUInt_reads 4).bind fun _ => (readUInt_reads 2).bind fun _ =>
    (readUInt_reads 2).bind fun _ => (readUInt_reads 2).bind fun _ =>
    (readUInt_reads 2).bind fun _ => (readUInt_reads 2).bind fun _ =>
    (readUInt_reads 2).bind fun _ => .pure _) fun data pos => ⟨fun checked => ?_, fun fields => ?_⟩
  · obtain ⟨-, magic, -, class_, -, endian, -, -, -, -, -, -, machine, -⟩ := checked
    exact ⟨not_not.mp magic, not_not.mp class_, not_not.mp endian, not_not.mp machine⟩
  · simp [fields.magic, fields.class_, fields.endian, fields.machine]

section Copies

variable {data data' : List UInt8} {pos pos' : Nat}

theorem elfHeaderAt_copy (same : SameBytes data pos data' pos' 64) :
    elfHeaderAt data pos = elfHeaderAt data' pos' := by
  have magic : bytesAt data pos 4 = bytesAt data' pos' 4 := (same.sub (show 0 + 4 ≤ 64 by omega)).bytesAt_eq
  have padding := (same.sub (show 9 + 7 ≤ 64 by omega)).bytesAt_eq
  simp (disch := omega) only [elfHeaderAt, magic, padding, same.word_eq]

theorem headerFields_copy (same : SameBytes data pos data' pos' 64) :
    HeaderFields data pos ↔ HeaderFields data' pos' := by
  have ident : elfHeaderAt data pos = elfHeaderAt data' pos' := elfHeaderAt_copy same
  have fields (data : List UInt8) (pos : Nat) : HeaderFields data pos ↔
      (elfHeaderAt data pos).ident.magic = elfMagic ∧ (elfHeaderAt data pos).ident.class_ = 2 ∧
      (elfHeaderAt data pos).ident.data = 1 ∧ (elfHeaderAt data pos).machine = 62 :=
    ⟨fun ⟨magic, class_, endian, machine⟩ => ⟨magic, class_, endian, machine⟩,
      fun ⟨magic, class_, endian, machine⟩ => ⟨magic, class_, endian, machine⟩⟩
  rw [fields, fields, ident]

theorem programHeaderAt_copy (same : SameBytes data pos data' pos' 56) :
    programHeaderAt data pos = programHeaderAt data' pos' := by
  have type : word data pos 4 = word data' pos' 4 := same.word_eq (show 0 + 4 ≤ 56 by omega)
  simp (disch := omega) only [programHeaderAt, type, same.word_eq]

end Copies

/-! ### Files by position -/

def isSelfFile (data : List UInt8) : Bool := word data 0 4 == selfMagic

def imageStart (data : List UInt8) : Nat :=
  if isSelfFile data then 32 + word data 24 2 * 32 else 0

def segmentTable (data : List UInt8) : List SelfSegmentHeader :=
  if isSelfFile data then (List.range (word data 24 2)).map fun i => selfSegmentAt data (32 + i * 32)
  else []

def imageHeader (data : List UInt8) : ElfHeader := elfHeaderAt data (imageStart data)

def programTable (data : List UInt8) (tableStart : Nat) : List ProgramHeader :=
  (List.range (imageHeader data).phnum).map fun i => programHeaderAt data (tableStart + i * 56)

/-- The headers are there and of the expected kind. -/
structure Opens (data : List UInt8) : Prop where
  present : imageStart data + 64 ≤ data.length
  fields : HeaderFields data (imageStart data)

def TablePresent (data : List UInt8) (tableStart : Nat) : Prop :=
  (imageHeader data).phnum = 0 ∨ tableStart + (imageHeader data).phnum * 56 ≤ data.length

instance (data : List UInt8) (tableStart : Nat) : Decidable (TablePresent data tableStart) :=
  inferInstanceAs (Decidable (_ ∨ _))

def assemble (p : Profile) (data : List UInt8) (tableStart : Nat) : Outcome ElfError Elf :=
  if TablePresent data tableStart then do
    let programHeaders := programTable data tableStart
    let resolve (phdrIdx : Nat) (phdr : ProgramHeader) : Outcome ElfError Nat :=
      resolveFileOffsetInternal p (isSelfFile data) (segmentTable data) programHeaders phdrIdx phdr
        (imageStart data)
    let dynamicEntries ← onLastOfType .dynamic programHeaders fun dynIdx dynPh => do
      return dynamicEntriesAt data (← resolve dynIdx dynPh) dynPh.filesz
    let dynlibData ← onLastOfType .sceDynlibData programHeaders fun dlIdx dlPh => do
      dynlibDataAt p data (← resolve dlIdx dlPh) dlPh.filesz
    return {
      isSelf := isSelfFile data
      selfHeader := if isSelfFile data then some (selfHeaderAt data 0) else none
      selfSegments := segmentTable data
      header := imageHeader data
      programHeaders, dynamicEntries, dynlibData, data }
  else .err (.io .unexpectedEof)

theorem readPrelude_eq (data : List UInt8) :
    (readPrelude ⟨data, 0⟩ = .ok ((isSelfFile data,
        if isSelfFile data then some (selfHeaderAt data 0) else none, segmentTable data,
        imageStart data), ⟨data, imageStart data⟩)) ∨
      ¬ imageStart data + 64 ≤ data.length ∧ ∃ e, readPrelude ⟨data, 0⟩ = .err e := by
  unfold readPrelude
  rw [readU32_bind]
  by_cases first : 0 + 4 ≤ data.length
  · rw [if_pos first, bind_apply, seek_apply, Outcome.ok_bind]
    by_cases self : word data 0 4 = selfMagic
    · have isSelf : isSelfFile data = true := by simpa [isSelfFile] using self
      have start : imageStart data = 32 + word data 24 2 * 32 := by simp [imageStart, isSelf]
      have segments := readSelfSegment_reads.readMany (word data 24 2) ⟨data, 32⟩
      rw [if_pos self, readSelfHeader_reads.bind_eq (by omega)]
      by_cases header : 0 + 32 ≤ data.length
      · rw [if_pos header, bind_apply]
        change _ ∨ _ ∧ ∃ e, ((readMany readSelfSegment (word data 24 2) ⟨data, 32⟩) >>= _) = .err e
        change (readMany readSelfSegment (word data 24 2) ⟨data, 32⟩) >>= _ = _ ∨ _
        by_cases table : word data 24 2 * 32 = 0 ∨ 32 + word data 24 2 * 32 ≤ data.length
        · rw [if_pos table] at segments
          rw [segments, isSelf, start]
          refine .inl ?_
          simp [segmentTable, isSelf]
        · rw [if_neg table] at segments
          rw [segments]
          exact .inr ⟨by omega, _, rfl⟩
      · rw [if_neg header]
        exact .inr ⟨by omega, _, rfl⟩
    · have plain : isSelfFile data = false := by simpa [isSelfFile] using self
      rw [if_neg self]
      refine .inl ?_
      simp [plain, segmentTable, imageStart]
  · rw [if_neg first]
    exact .inr ⟨by omega, _, rfl⟩

/-- `parse` reads the headers, finds the program header table and assembles the
result from it. -/
theorem parse_cases (data : List UInt8) :
    (Opens data ∧ ∀ p, parse p data =
        p.add 64 (imageStart data) (imageHeader data).phoff >>= assemble p data) ∨
      ¬ Opens data ∧ ∃ e, ∀ p, parse p data = .err e := by
  have run (p : Profile) : parse p data = parseFrom p data ⟨data, 0⟩ >>= fun r => .ok r.1 := rfl
  rcases readPrelude_eq data with prelude | ⟨short, e, failed⟩
  · rcases readElfHeader_accepts ⟨data, imageStart data⟩ with ⟨accepted, header⟩ |
      ⟨rejected, e, failed⟩
    · refine .inl ⟨⟨by simpa using accepted.1, accepted.2⟩, fun p => ?_⟩
      rw [run, parseFrom, bind_apply, prelude, Outcome.ok_bind]
      change (readElfHeader ⟨data, imageStart data⟩ >>= _) >>= _ = _
      rw [header, Outcome.ok_bind]
      change (lift _ >>= _) (⟨data, _⟩ : Cursor) >>= _ = _
      rw [lift_bind, bind_assoc]
      congr 1
      funext tableStart
      have table := readProgramHeader_reads.readMany (imageHeader data).phnum ⟨data, tableStart⟩
      change (readMany readProgramHeader (imageHeader data).phnum ⟨data, tableStart⟩ >>= _) >>= _ = _
      unfold assemble
      by_cases present : TablePresent data tableStart
      · rw [if_pos (present.imp (by simp [·]) id)] at table
        rw [if_pos present, table, Outcome.ok_bind]
        change (lift _ >>= _) (_ : Cursor) >>= _ = _
        rw [lift_bind, bind_assoc]
        refine congrArg (Outcome.bind _) (funext fun dynamicEntries => ?_)
        rw [lift_bind, bind_assoc]
        rfl
      · rw [if_neg (fun fits => present (fits.imp (by simp) id))] at table
        rw [if_neg present, table]
        rfl
    · refine .inr ⟨fun opens => rejected ⟨.inr opens.present, opens.fields⟩, e, fun p => ?_⟩
      rw [run, parseFrom, bind_apply, prelude, Outcome.ok_bind]
      change (readElfHeader ⟨data, imageStart data⟩ >>= _) >>= _ = _
      rw [failed]
      rfl
  · refine .inr ⟨fun opens => short opens.present, e, fun p => ?_⟩
    rw [run, parseFrom, bind_apply, failed]
    rfl

end Elf

end AnotherPs4
