import AnotherPs4.Linker.Tables
import AnotherPs4.Loader.RoundTrip

/-!
# Encoding of relocation tables

Relocations refer to symbols by index, and symbols to names by offset. Reading
the tables of a file follows both, and returns what was encoded.
-/

namespace AnotherPs4

open Rust

theorem word_drop (data : List UInt8) (pos off n : Nat) :
    word (data.drop pos) off n = word data (pos + off) n := by
  rw [word, word, bytesAt, bytesAt, List.drop_drop]

namespace ElfSymbol

def fields (sym : ElfSymbol) : List (Nat × Nat) :=
  [(4, sym.nameOffset), (1, sym.info), (1, sym.other), (2, sym.shndx), (8, sym.value), (8, sym.size)]

def encode (sym : ElfSymbol) : List UInt8 := encodeFields sym.fields

@[simp] theorem length_encode (sym : ElfSymbol) : sym.encode.length = 24 := length_encodeFields _

theorem fromBytes_encode {sym : ElfSymbol} (fit : FieldsFit sym.fields) {data : List UInt8}
    {pos : Nat} (holds : Holds data pos sym.encode) : fromBytes (data.drop pos) = some sym := by
  have words := holds.fieldsAt fit
  have inside := holds.fits
  rw [← List.length_eq_zero_iff, length_encode] at inside
  have long : ¬ (data.drop pos).length < 24 := by
    rw [List.length_drop]
    omega
  simp only [fields, FieldsAt, Nat.add_assoc, Nat.reduceAdd, and_true] at words
  simp only [fromBytes, if_neg long, word_drop, Nat.add_zero, words]

end ElfSymbol

namespace ElfRelocation

def fields (rel : ElfRelocation) : List (Nat × Nat) :=
  [(8, rel.offset), (8, rel.info), (8, unsigned 64 rel.addend)]

def encode (rel : ElfRelocation) : List UInt8 := encodeFields rel.fields

/-- A 64-bit offset, info and addend. -/
structure Words (rel : ElfRelocation) : Prop where
  offset : rel.offset < 2 ^ 64
  info : rel.info < 2 ^ 64
  addendLow : -2 ^ 63 ≤ rel.addend
  addendHigh : rel.addend < 2 ^ 63

@[simp] theorem length_encode (rel : ElfRelocation) : rel.encode.length = 24 :=
  length_encodeFields _

theorem fromBytes_encode {rel : ElfRelocation} (relWords : rel.Words) {data : List UInt8}
    {pos : Nat} (holds : Holds data pos rel.encode) : fromBytes (data.drop pos) = some rel := by
  have fit : FieldsFit rel.fields := by
    simp only [FieldsFit, fields, List.forall_mem_cons, List.not_mem_nil, false_imp_iff,
      implies_true, and_true]
    exact ⟨relWords.offset, relWords.info, unsigned_lt 64 _⟩
  have words := holds.fieldsAt fit
  have inside := holds.fits
  rw [← List.length_eq_zero_iff, length_encode] at inside
  have long : ¬ (data.drop pos).length < 24 := by
    rw [List.length_drop]
    omega
  have low := relWords.addendLow
  have high := relWords.addendHigh
  simp only [fields, FieldsAt, Nat.add_assoc, Nat.reduceAdd, and_true] at words
  simp only [fromBytes, if_neg long, word_drop, Nat.add_zero, words]
  rw [signed_unsigned (by omega) (by omega)]

end ElfRelocation

/-- Relocations, symbols with their names, and the strings that hold the names. -/
structure RelocationTables where
  rela : List ElfRelocation
  jmprel : List ElfRelocation
  symbols : List (ElfSymbol × String)
  strings : List UInt8
  relocationWords : ∀ rel ∈ rela ++ jmprel, rel.Words
  indices : ∀ rel ∈ rela ++ jmprel, rel.info / 2 ^ 32 < symbols.length
  symbolsFit : ∀ symbol ∈ symbols, FieldsFit symbol.1.fields
  nulFree : ∀ symbol ∈ symbols, 0 ∉ utf8 symbol.2
  named : ∀ symbol ∈ symbols, Holds strings symbol.1.nameOffset (utf8 symbol.2 ++ [0])

/-- Two dynamic entries say where bytes of the dynlib data stand, and how many. -/
def Elf.Describes (elf : Elf) (offTag sizeTag : Int) (bytes : List UInt8) : Prop :=
  ∃ off, elf.dynamicValue offTag = some off ∧ elf.dynamicValue sizeTag = some bytes.length ∧
    Holds elf.dynlibData off bytes

namespace RelocationTables

/-- The tables stand in the dynlib data of a file. What else is there, and whether
tables share bytes, does not matter. -/
structure PlacedIn (tables : RelocationTables) (elf : Elf) : Prop where
  /-- The limit of a `Vec`. -/
  length : elf.dynlibData.length < 2 ^ 63
  rela : elf.Describes dtSceRela dtSceRelaSz (tables.rela.flatMap ElfRelocation.encode)
  jmprel : elf.Describes dtSceJmprel dtScePltrelSz (tables.jmprel.flatMap ElfRelocation.encode)
  symbols : elf.Describes dtSceSymtab dtSceSymtabSz (tables.symbols.flatMap (·.1.encode))
  strings : elf.Describes dtSceStrtab dtSceStrsz tables.strings

def symbolOf (tables : RelocationTables) (rel : ElfRelocation) : Option (ElfSymbol × String) :=
  if rel.info / 2 ^ 32 = 0 then none else tables.symbols[rel.info / 2 ^ 32]?

def relocation (tables : RelocationTables) (isJmpRel : Bool) (rel : ElfRelocation) :
    ParsedRelocation where
  offset := rel.offset
  relType := rel.info % 2 ^ 32
  addend := rel.addend
  symbolName := (tables.symbolOf rel).elim "" (·.2)
  symbolBinding := (tables.symbolOf rel).elim 0 (·.1.info / 16)
  symbolType := (tables.symbolOf rel).elim 0 (·.1.info % 16)
  isJmpRel

end RelocationTables

namespace Module

section Entries

variable {p : Profile} {data : List UInt8} {symtabOff symtabSz strtabOff strtabSz : Nat}

theorem slice_record {ε α : Type} {bytes : List UInt8} {off i : Nat} {f : List UInt8 → Outcome ε α}
    (length : data.length < 2 ^ 63) (holds : Holds data (off + i * 24) bytes)
    (size : bytes.length = 24) :
    (do let start ← p.add 64 off (i * 24); f (← slice data start data.length)) =
      f (data.drop (off + i * 24)) := by
  have inside := holds.fits
  rw [← List.length_eq_zero_iff, size] at inside
  have start : (p.add 64 off (i * 24) : Outcome ε Nat) = .ok (off + i * 24) :=
    Profile.add_of_lt (by omega)
  rw [start, Outcome.ok_bind, slice_of_le (by omega) le_rfl, Outcome.ok_bind, List.take_length]

theorem getString_encode {strings : List UInt8} {offset : Nat} {name : String}
    (length : data.length < 2 ^ 63) (stand : Holds data strtabOff strings)
    (named : Holds strings offset (utf8 name ++ [0])) (nulFree : 0 ∉ utf8 name) :
    getString p data strtabOff strings.length offset = .ok name := by
  have within : offset < strings.length := by
    have inside := named.fits
    rw [← List.length_eq_zero_iff, List.length_append, List.length_singleton] at inside
    omega
  have stands := stand.within named
  have inside := stands.fits
  rw [← List.length_eq_zero_iff, List.length_append, List.length_singleton] at inside
  have start : (p.add 64 strtabOff offset : Outcome Empty Nat) = .ok (strtabOff + offset) :=
    Profile.add_of_lt (by omega)
  rw [getString, if_neg (Nat.not_le.mpr within), start, Outcome.ok_bind,
    slice_stringEnd (by omega), Outcome.ok_bind, (stands.nulTerminated nulFree).2,
    fromUtf8Lossy_utf8]
  rfl

theorem readTable_encode {isJmpRel : Bool} {tableOff : Nat} {entry : ElfRelocation → RelocationEntry}
    {rels : List ElfRelocation} {i : Nat}
    (each : ∀ k rel, rels[k]? = some rel →
      readEntry p data symtabOff symtabSz strtabOff strtabSz isJmpRel tableOff (i + k) =
        .ok (some (entry rel))) :
    readTable p data symtabOff symtabSz strtabOff strtabSz isJmpRel tableOff rels.length i =
      .ok (rels.map entry) := by
  induction rels generalizing i with
  | nil => rfl
  | cons rel rels inductionHypothesis =>
    have first := each 0 rel rfl
    have rest := inductionHypothesis (i := i + 1) fun k other found => by
      rw [Nat.add_assoc, Nat.add_comm 1]
      exact each (k + 1) other found
    rw [Nat.add_zero] at first
    rw [List.length_cons, readTable, first, Outcome.ok_bind, rest]
    rfl

end Entries

variable {p : Profile} {elf : Elf} {tables : RelocationTables}

theorem symbolAt_encode {data : List UInt8} {symtabOff strtabOff : Nat} {rel : ElfRelocation}
    (length : data.length < 2 ^ 63)
    (symbols : Holds data symtabOff (tables.symbols.flatMap (·.1.encode)))
    (strings : Holds data strtabOff tables.strings) (member : rel ∈ tables.rela ++ tables.jmprel) :
    symbolAt p data symtabOff (tables.symbols.flatMap (·.1.encode)).length strtabOff
      tables.strings.length (rel.info / 2 ^ 32) = .ok (tables.symbolOf rel) := by
  have size : (tables.symbols.flatMap (·.1.encode)).length = tables.symbols.length * 24 := by
    simp [List.length_flatMap]
  have below := tables.indices rel member
  have found := List.getElem?_eq_getElem below
  have listed := List.getElem_mem below
  unfold RelocationTables.symbolOf symbolAt
  rw [size, found]
  generalize tables.symbols[rel.info / 2 ^ 32] = symbol at found listed
  by_cases zero : rel.info / 2 ^ 32 = 0
  · rw [if_neg fun inTable => inTable.1 zero, if_pos zero]
  · have stands : Holds data (symtabOff + rel.info / 2 ^ 32 * 24) symbol.1.encode :=
      @Holds.record _ _ _ (·.1.encode) 24 _ _ _ (by simp) symbols found
    rw [if_pos ⟨zero, by omega⟩, if_neg zero,
      slice_record length stands (ElfSymbol.length_encode _),
      ElfSymbol.fromBytes_encode (tables.symbolsFit _ listed) stands]
    dsimp only
    rw [getString_encode length strings (tables.named _ listed) (tables.nulFree _ listed)]
    rfl

def entryOf (tables : RelocationTables) (isJmpRel : Bool) (rel : ElfRelocation) : RelocationEntry where
  rel
  symbol := tables.symbolOf rel
  isJmpRel

theorem entryOf_parsed (isJmpRel : Bool) (rel : ElfRelocation) :
    (entryOf tables isJmpRel rel).parsed = tables.relocation isJmpRel rel := by
  have low : rel.info &&& 0xFFFFFFFF = rel.info % 2 ^ 32 := Nat.and_two_pow_sub_one_eq_mod _ 32
  have binding (sym : ElfSymbol) : sym.info >>> 4 = sym.info / 16 := Nat.shiftRight_eq_div_pow _ 4
  have type (sym : ElfSymbol) : sym.info &&& 0xF = sym.info % 16 :=
    Nat.and_two_pow_sub_one_eq_mod _ 4
  simp only [RelocationEntry.parsed, entryOf, RelocationTables.relocation, ElfRelocation.relType,
    ElfSymbol.binding, ElfSymbol.symType, low, binding, type]

/-- A table of relocations is read entry by entry. -/
theorem readTableAt_encode {symtabOff strtabOff tableOff : Nat} {isJmpRel : Bool}
    {rels : List ElfRelocation} (length : elf.dynlibData.length < 2 ^ 63)
    (symbols : Holds elf.dynlibData symtabOff (tables.symbols.flatMap (·.1.encode)))
    (strings : Holds elf.dynlibData strtabOff tables.strings)
    (stand : Holds elf.dynlibData tableOff (rels.flatMap ElfRelocation.encode))
    (members : ∀ rel ∈ rels, rel ∈ tables.rela ++ tables.jmprel) :
    readTableAt p elf.dynlibData symtabOff (tables.symbols.flatMap (·.1.encode)).length strtabOff
      tables.strings.length isJmpRel (some tableOff)
      (some (rels.flatMap ElfRelocation.encode).length) = .ok (rels.map (entryOf tables isJmpRel)) := by
  have size : (rels.flatMap ElfRelocation.encode).length / 24 = rels.length := by
    simp [List.length_flatMap]
  rw [readTableAt, size]
  apply readTable_encode
  intro i rel found
  have member := members rel (List.mem_of_getElem? found)
  have stands := stand.record ElfRelocation.length_encode found
  have high : rel.symbol = rel.info / 2 ^ 32 := Nat.shiftRight_eq_div_pow _ 32
  rw [Nat.zero_add, readEntry, slice_record length stands (ElfRelocation.length_encode _),
    ElfRelocation.fromBytes_encode (tables.relocationWords rel member) stands]
  dsimp only
  rw [high, symbolAt_encode length symbols strings member]
  rfl

/-- Decoding undoes encoding: the relocations of a file are those that its tables
hold, each with the data of its symbol. -/
theorem parseRelocations_encodedTables (p : Profile) {tables : RelocationTables} {elf : Elf}
    (placed : tables.PlacedIn elf) :
    parseRelocations p elf =
      .ok (tables.rela.map (tables.relocation false) ++ tables.jmprel.map (tables.relocation true)) := by
  obtain ⟨symtabOff, symtab, symtabSz, symbols⟩ := placed.symbols
  obtain ⟨strtabOff, strtab, strtabSz, strings⟩ := placed.strings
  obtain ⟨relaOff, rela, relaSz, relaStand⟩ := placed.rela
  obtain ⟨jmprelOff, jmprel, pltrelSz, jmprelStand⟩ := placed.jmprel
  have entries : relocationEntries p elf =
      .ok (tables.rela.map (entryOf tables false) ++ tables.jmprel.map (entryOf tables true)) := by
    unfold relocationEntries
    rw [symtab, symtabSz, strtab, strtabSz, rela, relaSz, jmprel, pltrelSz]
    dsimp only
    rw [readTableAt_encode placed.length symbols strings relaStand
        fun rel => List.mem_append_left tables.jmprel,
      readTableAt_encode placed.length symbols strings jmprelStand
        fun rel => List.mem_append_right tables.rela]
    rfl
  have parsed (isJmpRel : Bool) : RelocationEntry.parsed ∘ entryOf tables isJmpRel =
      tables.relocation isJmpRel := funext (entryOf_parsed isJmpRel)
  rw [parseRelocations, entries, Outcome.ok_bind, Outcome.pure_eq_ok, List.map_append, List.map_map,
    List.map_map, parsed, parsed]

def smallRela : List ElfRelocation := [⟨0x10, rX86_64Relative, -8⟩]

def smallJmprel : List ElfRelocation := [⟨0x18, 2 ^ 32 + rX86_64JumpSlot, 0⟩]

def smallSymbols : List (ElfSymbol × String) :=
  [(⟨0, 0, 0, 0, 0, 0⟩, ""), (⟨1, 0x12, 0, 0, 0, 0⟩, "é#")]

theorem smallTables_words : ∀ rel ∈ smallRela ++ smallJmprel, rel.Words := by
  simp only [smallRela, smallJmprel, List.cons_append, List.nil_append, List.forall_mem_cons,
    List.not_mem_nil, false_imp_iff, implies_true, and_true]
  exact ⟨⟨by decide, by decide, by decide, by decide⟩, ⟨by decide, by decide, by decide, by decide⟩⟩

theorem smallTables_indices :
    ∀ rel ∈ smallRela ++ smallJmprel, rel.info / 2 ^ 32 < smallSymbols.length := by decide

theorem smallTables_fit : ∀ symbol ∈ smallSymbols, FieldsFit symbol.1.fields := by decide

theorem smallTables_nulFree : ∀ symbol ∈ smallSymbols, 0 ∉ utf8 symbol.2 := by decide +kernel

theorem smallTables_named : ∀ symbol ∈ smallSymbols,
    Holds (0 :: (utf8 "é#" ++ [0])) symbol.1.nameOffset (utf8 symbol.2 ++ [0]) := by decide +kernel

/-- A relocation without a symbol, and one through the PLT for a symbol with a name of
two characters. -/
def smallTables : RelocationTables where
  rela := smallRela
  jmprel := smallJmprel
  symbols := smallSymbols
  strings := 0 :: (utf8 "é#" ++ [0])
  relocationWords := smallTables_words
  indices := smallTables_indices
  symbolsFit := smallTables_fit
  nulFree := smallTables_nulFree
  named := smallTables_named

/-- A file with these tables, one after the other, in its dynlib data. -/
def smallTablesElf : Elf where
  isSelf := false
  selfHeader := none
  selfSegments := []
  header := Elf.smallImage.header
  programHeaders := []
  dynamicEntries :=
    [⟨dtSceRela, 0⟩, ⟨dtSceRelaSz, 24⟩, ⟨dtSceJmprel, 24⟩, ⟨dtScePltrelSz, 24⟩,
      ⟨dtSceSymtab, 48⟩, ⟨dtSceSymtabSz, 48⟩, ⟨dtSceStrtab, 96⟩, ⟨dtSceStrsz, 5⟩]
  dynlibData :=
    smallTables.rela.flatMap ElfRelocation.encode ++ smallTables.jmprel.flatMap ElfRelocation.encode ++
      smallTables.symbols.flatMap (·.1.encode) ++ smallTables.strings
  data := []

theorem parseRelocations_encodedTables_small :
    smallTables.PlacedIn smallTablesElf ∧
    parseRelocations .dev smallTablesElf =
      .ok [⟨0x10, 8, -8, "", 0, 0, false⟩, ⟨0x18, 7, 0, "é#", 1, 2, true⟩] := by
  have placed : smallTables.PlacedIn smallTablesElf := {
    length := by decide +kernel
    rela := ⟨0, by decide +kernel⟩
    jmprel := ⟨24, by decide +kernel⟩
    symbols := ⟨48, by decide +kernel⟩
    strings := ⟨96, by decide +kernel⟩ }
  exact ⟨placed, parseRelocations_encodedTables .dev placed⟩

end Module

end AnotherPs4
