import AnotherPs4.Loader.Dynamic
import AnotherPs4.Loader.Resolution

/-!
# Files that were opened

What a parsed file says about its bytes, in every build: its tables are read off
the data, so all their fields are machine words.
-/

namespace AnotherPs4

open Rust

namespace Elf

variable {p : Profile} {elf : Elf}

/-- The parsed fields are those in the data, with the program headers at
`tableStart`. -/
structure ReadFrom (elf : Elf) (tableStart : Nat) : Prop where
  isSelf : elf.isSelf = isSelfFile elf.data
  selfSegments : elf.selfSegments = segmentTable elf.data
  header : elf.header = imageHeader elf.data
  programHeaders : elf.programHeaders = programTable elf.data tableStart
  elfOffset : elf.elfOffset = imageStart elf.data

theorem parse_readFrom {data : List UInt8} (parsed : parse p data = .ok elf) :
    elf.data = data ∧ ∃ tableStart, elf.ReadFrom tableStart := by
  rcases parse_cases data with ⟨-, run⟩ | ⟨-, e, failed⟩
  · rw [run, Outcome.bind_eq_ok] at parsed
    obtain ⟨tableStart, -, parsed⟩ := parsed
    unfold assemble at parsed
    split at parsed
    · obtain ⟨dynamicEntries, -, parsed⟩ := Outcome.bind_eq_ok.mp parsed
      obtain ⟨dynlibData, -, parsed⟩ := Outcome.bind_eq_ok.mp parsed
      cases parsed
      refine ⟨rfl, tableStart, rfl, rfl, rfl, rfl, ?_⟩
      unfold elfOffset imageStart
      by_cases self : isSelfFile data <;> simp [self, selfHeaderAt]
    · cases parsed
  · rw [failed] at parsed
    cases parsed

theorem openBytes_readFrom {read : Except IoError (List UInt8)}
    (opened : openBytes p read = .ok elf) :
    read = .ok elf.data ∧ ∃ tableStart, elf.ReadFrom tableStart := by
  cases read with
  | error e => cases opened
  | ok data =>
    obtain ⟨rfl, readFrom⟩ := parse_readFrom opened
    exact ⟨rfl, readFrom⟩

end Elf

/-- The sizes and addresses of a program header are words. -/
structure ProgramHeader.Words (ph : ProgramHeader) : Prop where
  offset : ph.offset < 2 ^ 64
  vaddr : ph.vaddr < 2 ^ 64
  filesz : ph.filesz < 2 ^ 64
  memsz : ph.memsz < 2 ^ 64

namespace Elf.ReadFrom

variable {p : Profile} {elf : Elf} {tableStart : Nat} (readFrom : elf.ReadFrom tableStart)

include readFrom

theorem words {ph : ProgramHeader} (member : ph ∈ elf.programHeaders) : ph.Words := by
  rw [readFrom.programHeaders] at member
  obtain ⟨i, -, rfl⟩ := List.mem_map.mp member
  exact ⟨word_lt _ _ 8, word_lt _ _ 8, word_lt _ _ 8, word_lt _ _ 8⟩

theorem segment_word {seg : SelfSegmentHeader} (member : seg ∈ elf.selfSegments) :
    seg.fileOffset < 2 ^ 64 := by
  rw [readFrom.selfSegments] at member
  unfold segmentTable at member
  split at member
  · obtain ⟨i, -, rfl⟩ := List.mem_map.mp member
    exact word_lt _ _ 8
  · cases member

omit readFrom in
theorem resolveInParent_word {ε : Type} {programHeaders : List ProgramHeader} {target real : Nat}
    {segments : List SelfSegmentHeader}
    (resolved : (resolveInParent p programHeaders target segments : Outcome ε _)
      = .ok (some real)) : real < 2 ^ 64 := by
  induction segments with
  | nil => cases resolved
  | cons seg rest ih =>
    unfold resolveInParent at resolved
    split at resolved
    · exact ih resolved
    · split at resolved
      · exact ih resolved
      · split at resolved
        · obtain ⟨parentEnd, -, resolved⟩ := Outcome.bind_eq_ok.mp resolved
          split at resolved
          · obtain ⟨sum, added, resolved⟩ := Outcome.bind_eq_ok.mp resolved
            cases resolved
            rw [Profile.add_eq_ok added]
            exact Nat.mod_lt _ (by decide)
          · exact ih resolved
        · exact ih resolved

theorem resolved_word {ε : Type} {phdrIdx real : Nat} {phdr : ProgramHeader}
    (member : phdr ∈ elf.programHeaders)
    (resolved : (elf.resolveFileOffset p phdrIdx phdr : Outcome ε Nat) = .ok real) :
    real < 2 ^ 64 := by
  unfold resolveFileOffset resolveFileOffsetInternal at resolved
  split at resolved
  · cases resolved
    exact (readFrom.words member).offset
  · split at resolved
    · next seg found =>
        cases resolved
        exact readFrom.segment_word (List.mem_of_find?_eq_some found)
    · obtain ⟨parent, found, resolved⟩ := Outcome.bind_eq_ok.mp resolved
      cases parent with
      | some inParent =>
        cases resolved
        exact resolveInParent_word found
      | none =>
        rw [Profile.add_eq_ok resolved]
        exact Nat.mod_lt _ (by decide)

end Elf.ReadFrom

end AnotherPs4
