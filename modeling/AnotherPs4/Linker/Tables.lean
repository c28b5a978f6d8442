import AnotherPs4.Linker.Module

/-!
# Relocation tables

What is read from the relocation tables of a file.
-/

namespace AnotherPs4

open Rust

/-- The addresses in an entry are words. -/
structure RelocationEntry.Words (entry : RelocationEntry) : Prop where
  offset : entry.rel.offset < 2 ^ 64
  value : ∀ sym name, entry.symbol = some (sym, name) → sym.value < 2 ^ 64

theorem ElfRelocation.fromBytes_offset {bytes : List UInt8} {rel : ElfRelocation}
    (found : fromBytes bytes = some rel) : rel.offset < 2 ^ 64 := by
  unfold fromBytes at found
  split at found
  · cases found
  · cases found
    exact word_lt _ _ 8

theorem ElfSymbol.fromBytes_value {bytes : List UInt8} {sym : ElfSymbol}
    (found : fromBytes bytes = some sym) : sym.value < 2 ^ 64 := by
  unfold fromBytes at found
  split at found
  · cases found
  · cases found
    exact word_lt _ _ 8

namespace Module

section Entries

variable {p : Profile} {data : List UInt8} {symtabOff symtabSz strtabOff strtabSz : Nat}

theorem symbolAt_value {symIdx : Nat} {sym : ElfSymbol} {name : String}
    (read : symbolAt p data symtabOff symtabSz strtabOff strtabSz symIdx =
      .ok (some (sym, name))) : sym.value < 2 ^ 64 := by
  unfold symbolAt at read
  split at read
  · obtain ⟨start, -, read⟩ := Outcome.bind_eq_ok.mp read
    obtain ⟨bytes, -, read⟩ := Outcome.bind_eq_ok.mp read
    split at read
    · next found =>
      obtain ⟨name, -, read⟩ := Outcome.bind_eq_ok.mp read
      cases read
      exact ElfSymbol.fromBytes_value found
    · cases read
  · cases read

theorem readEntry_words {isJmpRel : Bool} {tableOff i : Nat} {entry : RelocationEntry}
    (read : readEntry p data symtabOff symtabSz strtabOff strtabSz isJmpRel tableOff i =
      .ok (some entry)) : entry.Words := by
  obtain ⟨start, -, read⟩ := Outcome.bind_eq_ok.mp read
  obtain ⟨bytes, -, read⟩ := Outcome.bind_eq_ok.mp read
  split at read
  · cases read
  · next found =>
    obtain ⟨symbol, named, read⟩ := Outcome.bind_eq_ok.mp read
    cases read
    exact ⟨ElfRelocation.fromBytes_offset found, fun sym name same =>
      symbolAt_value (named.trans (congrArg Outcome.ok same))⟩

theorem readTable_words {isJmpRel : Bool} {tableOff : Nat} (count : Nat) {i : Nat}
    {entries : List RelocationEntry}
    (read : readTable p data symtabOff symtabSz strtabOff strtabSz isJmpRel tableOff count i =
      .ok entries) : ∀ entry ∈ entries, entry.Words := by
  induction count generalizing i entries with
  | zero =>
    cases read
    exact nofun
  | succ count ih =>
    obtain ⟨first, readFirst, read⟩ := Outcome.bind_eq_ok.mp read
    obtain ⟨rest, readRest, read⟩ := Outcome.bind_eq_ok.mp read
    cases read
    intro entry member
    rcases List.mem_append.mp member with member | member
    · obtain rfl := Option.mem_toList.mp member
      exact readEntry_words readFirst
    · exact ih readRest entry member

theorem readTableAt_words {isJmpRel : Bool} {off sz : Option Nat} {entries : List RelocationEntry}
    (read : readTableAt p data symtabOff symtabSz strtabOff strtabSz isJmpRel off sz =
      .ok entries) : ∀ entry ∈ entries, entry.Words := by
  unfold readTableAt at read
  split at read
  · exact readTable_words _ read
  · cases read
    exact nofun

end Entries

variable {p : Profile} {elf : Elf}

theorem relocationEntries_words {entries : List RelocationEntry}
    (read : relocationEntries p elf = .ok entries) : ∀ entry ∈ entries, entry.Words := by
  unfold relocationEntries at read
  split at read
  · obtain ⟨rela, readRela, read⟩ := Outcome.bind_eq_ok.mp read
    obtain ⟨jmprel, readJmprel, read⟩ := Outcome.bind_eq_ok.mp read
    cases read
    intro entry member
    rcases List.mem_append.mp member with member | member
    · exact readTableAt_words readRela entry member
    · exact readTableAt_words readJmprel entry member
  · cases read
    exact nofun

theorem parseRelocations_eq_ok {relocations : List ParsedRelocation} :
    parseRelocations p elf = .ok relocations ↔
      ∃ entries, relocationEntries p elf = .ok entries ∧
        relocations = entries.map (·.parsed) := by
  unfold parseRelocations
  rw [Outcome.bind_eq_ok]
  exact exists_congr fun entries => and_congr_right fun _ => by
    rw [Outcome.pure_eq_ok, Outcome.ok.injEq, eq_comm]

theorem parseRelocations_offset {relocations : List ParsedRelocation}
    (parsed : parseRelocations p elf = .ok relocations) :
    ∀ reloc ∈ relocations, reloc.offset < 2 ^ 64 := by
  obtain ⟨entries, read, rfl⟩ := parseRelocations_eq_ok.mp parsed
  intro reloc member
  obtain ⟨entry, listed, rfl⟩ := List.mem_map.mp member
  exact (relocationEntries_words read entry listed).offset

section Readable

variable (p : Profile) (data : List UInt8) (symtabOff symtabSz strtabOff strtabSz : Nat)

/-- What is at `offset + index` starts in the data. -/
def StartsIn (offset index : Nat) : Prop :=
  p.SumFits offset index ∧ (offset + index) % 2 ^ 64 ≤ data.length

/-- A symbol that is in the table starts in the data, and so does its name. -/
def SymbolReadable (symIdx : Nat) : Prop :=
  symIdx ≠ 0 ∧ symIdx * 24 < symtabSz → StartsIn p data symtabOff (symIdx * 24) ∧
    ∀ sym, ElfSymbol.fromBytes (data.drop ((symtabOff + symIdx * 24) % 2 ^ 64)) = some sym →
      sym.nameOffset < strtabSz → StartsIn p data strtabOff sym.nameOffset

/-- An entry of a relocation table starts in the data, and so does its symbol. -/
def EntryReadable (tableOff i : Nat) : Prop :=
  StartsIn p data tableOff (i * 24) ∧
    ∀ rel, ElfRelocation.fromBytes (data.drop ((tableOff + i * 24) % 2 ^ 64)) = some rel →
      SymbolReadable p data symtabOff symtabSz strtabOff strtabSz rel.symbol

variable {p data symtabOff symtabSz strtabOff strtabSz}

omit p symtabOff symtabSz strtabOff strtabSz in
theorem slice_stringEnd {ε : Type} {start : Nat} (inside : start ≤ data.length) :
    (slice data start (stringEnd data start) : Outcome ε _) =
      .ok ((data.drop start).takeWhile (· ≠ 0)) := by
  have whole : (data.drop start).takeWhile (· ≠ 0) <+: data.drop start := List.takeWhile_prefix _
  have short := whole.length_le
  rw [List.length_drop] at short
  unfold stringEnd
  rw [slice_of_le (Nat.le_add_right _ _) (by omega), List.drop_take, Nat.add_sub_cancel_left,
    ← List.prefix_iff_eq_take.mp whole]

theorem getString_returns {offset : Nat} :
    (getString p data strtabOff strtabSz offset).Returns ↔
      (offset < strtabSz → StartsIn p data strtabOff offset) := by
  unfold getString
  by_cases within : offset < strtabSz
  · rw [if_neg (Nat.not_le.mpr within), Profile.add_bind_returns, Outcome.returns_bind]
    simp only [within, true_imp_iff, Outcome.pure_eq_ok, Outcome.returns_ok, and_true]
    refine and_congr_right fun _ => ⟨?_, fun starts => ⟨_, slice_stringEnd starts⟩⟩
    rintro ⟨bytes, sliced⟩
    obtain ⟨ordered, inside⟩ := (slice_eq_ok.mp sliced).1
    exact ordered.trans inside
  · rw [if_pos (Nat.not_lt.mp within)]
    exact iff_of_true (Outcome.returns_ok _) fun inside => absurd inside within

theorem symbolAt_returns {symIdx : Nat} :
    (symbolAt p data symtabOff symtabSz strtabOff strtabSz symIdx).Returns ↔
      SymbolReadable p data symtabOff symtabSz strtabOff strtabSz symIdx := by
  unfold symbolAt SymbolReadable
  by_cases listed : symIdx ≠ 0 ∧ symIdx * 24 < symtabSz
  · rw [if_pos listed, Profile.add_bind_returns, slice_bind_returns, StartsIn, and_assoc]
    simp only [listed, ne_eq, not_false_eq_true, and_self, true_imp_iff]
    refine and_congr_right fun _ => and_congr_right fun _ => ?_
    cases found : ElfSymbol.fromBytes (data.drop ((symtabOff + symIdx * 24) % 2 ^ 64)) with
    | none => simp
    | some sym =>
      simp only [Option.some.injEq, forall_eq', ← getString_returns, Outcome.returns_bind]
      exact ⟨fun ⟨name, read, _⟩ => ⟨name, read⟩, fun ⟨name, read⟩ => ⟨name, read, _, rfl⟩⟩
  · rw [if_neg listed]
    exact iff_of_true (Outcome.returns_ok _) fun inside => absurd inside listed

theorem readEntry_returns {isJmpRel : Bool} {tableOff i : Nat} :
    (readEntry p data symtabOff symtabSz strtabOff strtabSz isJmpRel tableOff i).Returns ↔
      EntryReadable p data symtabOff symtabSz strtabOff strtabSz tableOff i := by
  unfold readEntry EntryReadable
  rw [Profile.add_bind_returns, slice_bind_returns, StartsIn, and_assoc]
  refine and_congr_right fun _ => and_congr_right fun _ => ?_
  cases found : ElfRelocation.fromBytes (data.drop ((tableOff + i * 24) % 2 ^ 64)) with
  | none => simp
  | some rel =>
    simp only [Option.some.injEq, forall_eq', ← symbolAt_returns, Outcome.returns_bind]
    exact ⟨fun ⟨symbol, read, _⟩ => ⟨symbol, read⟩, fun ⟨symbol, read⟩ => ⟨symbol, read, _, rfl⟩⟩

theorem readTable_returns {isJmpRel : Bool} {tableOff : Nat} (count i : Nat) :
    (readTable p data symtabOff symtabSz strtabOff strtabSz isJmpRel tableOff count i).Returns ↔
      ∀ j, i ≤ j → j < i + count →
        EntryReadable p data symtabOff symtabSz strtabOff strtabSz tableOff j := by
  induction count generalizing i with
  | zero => exact iff_of_true (Outcome.returns_ok _) fun j low high => by omega
  | succ count ih =>
    unfold readTable
    constructor
    · intro returned j low high
      obtain ⟨entry, first, returned⟩ := Outcome.returns_bind.mp returned
      obtain ⟨rest, later, -⟩ := Outcome.returns_bind.mp returned
      rcases Nat.eq_or_lt_of_le low with rfl | above
      · exact readEntry_returns.mp ⟨entry, first⟩
      · exact (ih (i + 1)).mp ⟨rest, later⟩ j above (by omega)
    · intro readable
      obtain ⟨entry, first⟩ := readEntry_returns.mpr (readable i le_rfl (by omega))
      obtain ⟨rest, later⟩ := (ih (i + 1)).mpr fun j low high => readable j (by omega) (by omega)
      rw [first, Outcome.ok_bind, later]
      exact Outcome.returns_ok _

end Readable

def TablesReadable (p : Profile) (elf : Elf) : Prop :=
  ∀ symtabOff symtabSz strtabOff strtabSz,
    elf.dynamicValue dtSceSymtab = some symtabOff → elf.dynamicValue dtSceSymtabSz = some symtabSz →
    elf.dynamicValue dtSceStrtab = some strtabOff → elf.dynamicValue dtSceStrsz = some strtabSz →
    ∀ table ∈ [(dtSceRela, dtSceRelaSz), (dtSceJmprel, dtScePltrelSz)], ∀ off sz,
      elf.dynamicValue table.1 = some off → elf.dynamicValue table.2 = some sz →
      ∀ i < sz / 24,
        EntryReadable p elf.dynlibData symtabOff symtabSz strtabOff strtabSz off i

theorem readTableAt_returns {data : List UInt8} {symtabOff symtabSz strtabOff strtabSz : Nat}
    {isJmpRel : Bool} {off sz : Option Nat} :
    (readTableAt p data symtabOff symtabSz strtabOff strtabSz isJmpRel off sz).Returns ↔
      ∀ o s, off = some o → sz = some s → ∀ i < s / 24,
        EntryReadable p data symtabOff symtabSz strtabOff strtabSz o i := by
  cases off with
  | none => exact iff_of_true (Outcome.returns_ok _) nofun
  | some o =>
    cases sz with
    | none => exact iff_of_true (Outcome.returns_ok _) nofun
    | some s =>
      change (readTable p data symtabOff symtabSz strtabOff strtabSz isJmpRel o (s / 24) 0).Returns ↔ _
      rw [readTable_returns, Nat.zero_add]
      constructor
      · rintro readable _ _ ⟨⟩ ⟨⟩ i small
        exact readable i (Nat.zero_le i) small
      · intro readable i _ small
        exact readable o s rfl rfl i small

theorem relocationEntries_returns : (relocationEntries p elf).Returns ↔ TablesReadable p elf := by
  unfold relocationEntries TablesReadable
  split
  · next symtabOff symtabSz strtabOff strtabSz symtab symtabSize strtab strtabSize =>
    constructor
    · intro returned
      obtain ⟨rela, first, returned⟩ := Outcome.returns_bind.mp returned
      obtain ⟨jmprel, second, -⟩ := Outcome.returns_bind.mp returned
      intro a b c d symtab' symtabSize' strtab' strtabSize' table member
      cases symtab.symm.trans symtab'
      cases symtabSize.symm.trans symtabSize'
      cases strtab.symm.trans strtab'
      cases strtabSize.symm.trans strtabSize'
      rcases List.mem_pair.mp member with rfl | rfl
      · exact readTableAt_returns.mp ⟨rela, first⟩
      · exact readTableAt_returns.mp ⟨jmprel, second⟩
    · intro readable
      have tables := readable _ _ _ _ symtab symtabSize strtab strtabSize
      obtain ⟨rela, first⟩ : (readTableAt p elf.dynlibData symtabOff symtabSz strtabOff strtabSz
          false (elf.dynamicValue dtSceRela) (elf.dynamicValue dtSceRelaSz)).Returns :=
        readTableAt_returns.mpr (tables (dtSceRela, dtSceRelaSz) (by simp))
      obtain ⟨jmprel, second⟩ : (readTableAt p elf.dynlibData symtabOff symtabSz strtabOff strtabSz
          true (elf.dynamicValue dtSceJmprel) (elf.dynamicValue dtScePltrelSz)).Returns :=
        readTableAt_returns.mpr (tables (dtSceJmprel, dtScePltrelSz) (by simp))
      dsimp only
      rw [first, Outcome.ok_bind, second]
      exact Outcome.returns_ok _
  · next missing =>
    apply iff_of_true (Outcome.returns_ok _)
    intro symtabOff symtabSz strtabOff strtabSz symtab symtabSize strtab strtabSize
    exact absurd strtabSize (missing _ _ _ _ symtab symtabSize strtab)

theorem parseRelocations_returns : (parseRelocations p elf).Returns ↔ TablesReadable p elf := by
  unfold parseRelocations
  exact (Outcome.returns_bind_of_forall fun _ => Outcome.returns_ok _).trans
    relocationEntries_returns

/-- The names of needed modules that lie in the string table start at a word. -/
def NamesReadable (p : Profile) (elf : Elf) : Prop :=
  ∀ entry ∈ elf.dynamicEntries, entry.tag = dtNeeded ∨ entry.tag = dtSceImportLib →
    ∀ strtabOff strtabSz, elf.dynamicValue dtSceStrtab = some strtabOff →
      elf.dynamicValue dtSceStrsz = some strtabSz → entry.value < strtabSz →
      p.SumFits strtabOff entry.value

theorem getDynamicString_returns {ε : Type} {offset : Nat} :
    (elf.getDynamicString p offset : Outcome ε String).Returns ↔
      ∀ strtabOff strtabSz, elf.dynamicValue dtSceStrtab = some strtabOff →
        elf.dynamicValue dtSceStrsz = some strtabSz → offset < strtabSz →
        p.SumFits strtabOff offset := by
  unfold Elf.getDynamicString
  split
  · next strtabOff strtabSz strtab strtabSize =>
    rw [strtab, strtabSize]
    by_cases within : offset < strtabSz
    · rw [if_neg (Nat.not_le.mpr within), Profile.add_bind_returns]
      constructor
      · rintro ⟨fits, -⟩ _ _ ⟨⟩ ⟨⟩ -
        exact fits
      · intro fits
        refine ⟨fits _ _ rfl rfl within, ?_⟩
        split
        · exact Outcome.returns_ok _
        · next inside =>
          rw [slice_stringEnd (Nat.not_le.mp inside).le]
          exact Outcome.returns_ok _
    · rw [if_pos (Nat.not_lt.mp within)]
      apply iff_of_true (Outcome.returns_ok _)
      rintro _ _ ⟨⟩ ⟨⟩ inside
      exact absurd inside within
  · next missing =>
    exact iff_of_true (Outcome.returns_ok _) fun a b strtab strtabSize =>
      absurd strtabSize (missing a b strtab)

theorem neededModules_returns {ε : Type} :
    (elf.neededModules p : Outcome ε (List String)).Returns ↔ NamesReadable p elf := by
  refine Outcome.foldlM_returns (fun modules entry _ => ?_) []
  by_cases needed : entry.tag = dtNeeded ∨ entry.tag = dtSceImportLib
  · simp only [needed, if_true, true_imp_iff]
    rw [← getDynamicString_returns (ε := ε), Outcome.returns_bind]
    exact ⟨fun ⟨name, found, _⟩ => ⟨name, found⟩, fun ⟨name, found⟩ => ⟨name, found, _, rfl⟩⟩
  · simp only [needed, if_false, false_imp_iff]
    exact iff_of_true (Outcome.returns_ok _) trivial

end Module

end AnotherPs4
