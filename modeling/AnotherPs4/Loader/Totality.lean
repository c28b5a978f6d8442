import AnotherPs4.Loader.Resolution

/-!
# Panics of `Elf::parse`

Offsets come from the file, and sums of them are computed in 64 bits. A checked
build stops where a sum does not fit; a wrapping build goes on with the wrapped
value, which may end a slice before its start. The bytes for which no build
panics are exactly those whose sums fit.
-/

namespace AnotherPs4

open Rust Outcome

namespace Elf

/-! ### The condition -/

section

variable (data : List UInt8)

def tableStart : Nat := imageStart data + (imageHeader data).phoff

def exactHeaders : List ProgramHeader := programTable data (tableStart data)

def exactOffset (phdrIdx : Nat) (phdr : ProgramHeader) : Nat :=
  realOffset (isSelfFile data) (segmentTable data) (exactHeaders data) phdrIdx phdr
    (imageStart data)

def OffsetFits (phdrIdx : Nat) (phdr : ProgramHeader) : Prop :=
  SumsFit (isSelfFile data) (segmentTable data) (exactHeaders data) phdrIdx phdr (imageStart data)

instance (phdrIdx : Nat) (phdr : ProgramHeader) : Decidable (OffsetFits data phdrIdx phdr) :=
  inferInstanceAs (Decidable (SumsFit _ _ _ _ _ _))

/-- Every sum of offsets that the bytes lead to fits in 64 bits. -/
structure OffsetsFit : Prop where
  table : Opens data → tableStart data < 2 ^ 64
  dynamic : Opens data → TablePresent data (tableStart data) → ∀ dynIdx dynPh,
    lastHeader .dynamic (exactHeaders data) = some (dynIdx, dynPh) → OffsetFits data dynIdx dynPh
  dynlib : Opens data → TablePresent data (tableStart data) → ∀ dlIdx dlPh,
    lastHeader .sceDynlibData (exactHeaders data) = some (dlIdx, dlPh) →
      OffsetFits data dlIdx dlPh ∧ exactOffset data dlIdx dlPh + dlPh.filesz < 2 ^ 64

end

/-! ### Checked runs -/

variable {ε β : Type} {data : List UInt8}

theorem dynlibDataAt_of_lt (p : Profile) {start filesz : Nat} (fits : start + filesz < 2 ^ 64) :
    (dynlibDataAt p data start filesz : Outcome ε (List UInt8)) =
      .ok (bytesAt data start filesz) := by
  unfold dynlibDataAt
  rw [Profile.add_of_lt fits, ok_bind]
  by_cases whole : start + filesz ≤ data.length
  · rw [if_pos whole, slice_of_le (by omega) whole, List.drop_take, Nat.add_sub_cancel_left, bytesAt]
  · rw [if_neg whole]
    by_cases part : start < data.length
    · rw [if_pos part, slice_of_le (by omega) le_rfl, List.take_length, bytesAt,
        List.take_of_length_le (by rw [List.length_drop]; omega)]
    · rw [if_neg part, bytesAt, List.drop_eq_nil_of_le (by omega), List.take_nil]
      rfl

theorem dynlibDataAt_stopsUnless (data : List UInt8) (start filesz : Nat) :
    StopsUnless (ε := ε) (start + filesz < 2 ^ 64) (dynlibDataAt .dev data start filesz) := by
  by_cases fits : start + filesz < 2 ^ 64
  · exact .inl ⟨fits, _, dynlibDataAt_of_lt .dev fits⟩
  · refine .inr ⟨fits, ?_⟩
    rw [dynlibDataAt, Profile.add_dev, if_neg fits]
    rfl

theorem programTable_words {start phdrIdx : Nat} {phdr : ProgramHeader}
    (entry : (programTable data start)[phdrIdx]? = some phdr) : phdr.offset < 2 ^ 64 := by
  obtain ⟨i, -, rfl⟩ := List.mem_map.mp (List.mem_of_getElem? entry)
  exact word_lt _ _ 8

theorem resolve_stopsUnless {isSelf : Bool} {segments : List SelfSegmentHeader}
    {start phdrIdx : Nat} {phdr : ProgramHeader}
    (entry : (programTable data start)[phdrIdx]? = some phdr) (elfOffset : Nat) :
    StopsUnless (ε := ε)
      (SumsFit isSelf segments (programTable data start) phdrIdx phdr elfOffset)
      (resolveFileOffsetInternal .dev isSelf segments (programTable data start) phdrIdx phdr
        elfOffset) :=
  (resolveFileOffsetInternal_dev (programTable_words entry)).imp_left
    fun ⟨fits, resolved⟩ => ⟨fits, _, resolved⟩

theorem resolve_eq {isSelf : Bool} {segments : List SelfSegmentHeader}
    {start phdrIdx elfOffset real : Nat} {phdr : ProgramHeader}
    (entry : (programTable data start)[phdrIdx]? = some phdr)
    (resolved : (resolveFileOffsetInternal .dev isSelf segments (programTable data start) phdrIdx
      phdr elfOffset : Outcome ε Nat) = .ok real) :
    real = realOffset isSelf segments (programTable data start) phdrIdx phdr elfOffset := by
  rcases resolveFileOffsetInternal_dev (programTable_words entry) with ⟨-, exact⟩ | ⟨-, stopped⟩
  · exact ok.inj (resolved.symm.trans exact)
  · cases resolved.symm.trans stopped

theorem onLastOfType_stopsUnless {type : ProgramType} {programHeaders : List ProgramHeader}
    {fits : Nat → ProgramHeader → Prop} {k : Nat → ProgramHeader → Outcome ε (List β)}
    (each : ∀ idx ph, programHeaders[idx]? = some ph → StopsUnless (fits idx ph) (k idx ph)) :
    StopsUnless (∀ idx ph, lastHeader type programHeaders = some (idx, ph) → fits idx ph)
      (onLastOfType type programHeaders k) := by
  rw [onLastOfType_eq]
  cases last : lastHeader type programHeaders with
  | none => exact (StopsUnless.ok []).congr (by simp)
  | some found =>
    obtain ⟨idx, ph⟩ := found
    refine (each idx ph (lastHeader_eq_some last).1).congr ⟨?_, fun all => all idx ph rfl⟩
    rintro fit _ _ ⟨rfl, rfl⟩
    exact fit

/-- A checked `assemble` stops exactly when a sum behind it does not fit. -/
theorem assemble_stopsUnless (present : TablePresent data (tableStart data)) :
    StopsUnless
      ((∀ dynIdx dynPh, lastHeader .dynamic (exactHeaders data) = some (dynIdx, dynPh) →
        OffsetFits data dynIdx dynPh) ∧
      ∀ dlIdx dlPh, lastHeader .sceDynlibData (exactHeaders data) = some (dlIdx, dlPh) →
        OffsetFits data dlIdx dlPh ∧ exactOffset data dlIdx dlPh + dlPh.filesz < 2 ^ 64)
      (assemble .dev data (tableStart data)) := by
  unfold assemble
  rw [if_pos present]
  refine (onLastOfType_stopsUnless fun idx ph entry => ?_).bind fun dynamicEntries _ =>
    ((onLastOfType_stopsUnless fun idx ph entry => ?_).bind fun dynlibData _ => .ok _).congr
      (and_iff_left trivial)
  · exact (resolve_stopsUnless entry _).bind (fun _ _ => .ok _) |>.congr (and_iff_left trivial)
  · apply (resolve_stopsUnless entry _).bind
    intro real resolved
    rw [resolve_eq entry resolved]
    exact dynlibDataAt_stopsUnless _ _ _

/-- A checked build panics exactly on the bytes with a sum that does not fit. -/
theorem parse_dev_panics (data : List UInt8) : (parse .dev data).Panics ↔ ¬ OffsetsFit data := by
  rcases parse_cases data with ⟨opens, parsed⟩ | ⟨closed, e, failed⟩
  · rw [parsed]
    by_cases present : TablePresent data (tableStart data)
    · have stops := (add_stopsUnless 64 (imageStart data) (imageHeader data).phoff).bind
        fun start added => by
          rw [Profile.add_eq_ok_dev] at added
          rw [added.2]
          exact assemble_stopsUnless present
      rw [stops.panics_iff, not_iff_not]
      exact ⟨fun ⟨table, dynamic, dynlib⟩ => ⟨fun _ => table, fun _ _ => dynamic, fun _ _ => dynlib⟩,
        fun fit => ⟨fit.table opens, fit.dynamic opens present, fit.dynlib opens present⟩⟩
    · have stops := (add_stopsUnless (ε := ElfError) 64 (imageStart data)
        (imageHeader data).phoff).panics_iff
      have absent (start : Nat) (added : (Profile.dev.add 64 (imageStart data)
          (imageHeader data).phoff : Outcome ElfError Nat) = .ok start) :
          ¬ (assemble .dev data start).Panics := by
        obtain rfl : start = tableStart data := (Profile.add_eq_ok_dev.mp added).2
        rw [assemble, if_neg present]
        exact id
      have noneAfter : ¬ ∃ start, (Profile.dev.add 64 (imageStart data) (imageHeader data).phoff :
          Outcome ElfError Nat) = .ok start ∧ (assemble .dev data start).Panics :=
        fun ⟨start, added, panics⟩ => absent start added panics
      rw [panics_bind, stops, or_iff_left noneAfter, not_iff_not]
      exact ⟨fun table => ⟨fun _ => table, fun _ there => absurd there present,
        fun _ there => absurd there present⟩, fun fit => fit.table opens⟩
  · rw [failed]
    exact iff_of_false id (not_not.mpr ⟨fun opens => absurd opens closed,
      fun opens => absurd opens closed, fun opens => absurd opens closed⟩)

instance (data : List UInt8) : Decidable (OffsetsFit data) :=
  decidable_of_iff (¬ (parse .dev data).Panics) (by rw [parse_dev_panics, not_not])

/-- `parse` returns `Ok` or `Err` on the bytes whose sums of offsets fit, and
panics in some build on all others. -/
theorem parse_total_iff (data : List UInt8) :
    (∀ p, ¬ (parse p data).Panics) ↔ OffsetsFit data := by
  have checked : ¬ (parse .dev data).Panics ↔ OffsetsFit data := by
    rw [parse_dev_panics, not_not]
  refine ⟨fun quiet => checked.mp (quiet .dev), fun fit p => ?_⟩
  have quiet := checked.mpr fit
  cases p with
  | dev => exact quiet
  | release =>
    -- a wrapping build differs only where a checked one stops
    rwa [← (parse_checked data).eq_of_ne fun stopped => quiet (by rw [stopped]; trivial)]

def headerBytes (phnum : Nat) : List UInt8 :=
  elfMagic ++ [2, 1, 1] ++ List.replicate 9 0 ++ leBytes 2 0xFE10 ++ leBytes 2 62 ++ leBytes 4 1 ++
    leBytes 8 0 ++ leBytes 8 64 ++ leBytes 8 0 ++ leBytes 4 0 ++ leBytes 2 64 ++ leBytes 2 56 ++
    leBytes 2 phnum ++ leBytes 2 0 ++ leBytes 2 0 ++ leBytes 2 0

def programHeaderBytes (type offset filesz : Nat) : List UInt8 :=
  leBytes 4 type ++ leBytes 4 4 ++ leBytes 8 offset ++ leBytes 8 0 ++ leBytes 8 0 ++
    leBytes 8 filesz ++ leBytes 8 filesz ++ leBytes 8 0

/-- A plain ELF file whose dynlib data is said to be 16 bytes at `2 ^ 64 - 8`. -/
def wrappingElf : List UInt8 := headerBytes 1 ++ programHeaderBytes 0x61000000 (2 ^ 64 - 8) 16

/-- A checked build stops at the sum, and a wrapping one slices `start..8` with a
start far beyond it. -/
theorem parse_panics : parse .dev wrappingElf = .panic .overflow ∧
    parse .release wrappingElf = .panic .sliceRange := by
  decide +kernel

/-! ### Exact results -/

def exactDynamic (data : List UInt8) : List DynamicEntry :=
  (lastHeader .dynamic (exactHeaders data)).elim [] fun (dynIdx, dynPh) =>
    dynamicEntriesAt data (exactOffset data dynIdx dynPh) dynPh.filesz

def exactDynlib (data : List UInt8) : List UInt8 :=
  (lastHeader .sceDynlibData (exactHeaders data)).elim [] fun (dlIdx, dlPh) =>
    bytesAt data (exactOffset data dlIdx dlPh) dlPh.filesz

/-- What `parse` returns when no sum wraps. -/
def exactElf (data : List UInt8) : Elf where
  isSelf := isSelfFile data
  selfHeader := if isSelfFile data then some (selfHeaderAt data 0) else none
  selfSegments := segmentTable data
  header := imageHeader data
  programHeaders := exactHeaders data
  dynamicEntries := exactDynamic data
  dynlibData := exactDynlib data
  data := data

theorem resolve_of_fits (p : Profile) {phdrIdx : Nat} {phdr : ProgramHeader}
    (entry : (exactHeaders data)[phdrIdx]? = some phdr) (fits : OffsetFits data phdrIdx phdr) :
    (resolveFileOffsetInternal p (isSelfFile data) (segmentTable data) (exactHeaders data) phdrIdx
      phdr (imageStart data) : Outcome ε Nat) = .ok (exactOffset data phdrIdx phdr) := by
  have resolved := (resolveFileOffsetInternal_dev (ε := ε) (programTable_words entry)).resolve_right
    fun stopped => stopped.1 fits
  cases p with
  | dev => exact resolved.2
  | release =>
    rw [← (resolveFileOffsetInternal_checked _ _ _ _ _ _).eq_of_ne (by simp [resolved.2])]
    exact resolved.2

theorem onLastOfType_eq_ok {type : ProgramType} {programHeaders : List ProgramHeader}
    {k : Nat → ProgramHeader → Outcome ε (List β)} {l : Nat × ProgramHeader → List β}
    (each : ∀ idx ph, lastHeader type programHeaders = some (idx, ph) → k idx ph = .ok (l (idx, ph))) :
    onLastOfType type programHeaders k = .ok ((lastHeader type programHeaders).elim [] l) := by
  rw [onLastOfType_eq]
  cases last : lastHeader type programHeaders with
  | none => rfl
  | some found => exact each found.1 found.2 last

/-- If no sum wraps, every build accepts exactly the files whose headers and
program header table are there, and returns the exact result. -/
theorem parse_of_fits (p : Profile) (fit : OffsetsFit data) {elf : Elf} :
    parse p data = .ok elf ↔
      (Opens data ∧ TablePresent data (tableStart data)) ∧ elf = exactElf data := by
  rcases parse_cases data with ⟨opens, parsed⟩ | ⟨closed, e, failed⟩
  · rw [parsed, Profile.add_of_lt (fit.table opens), ok_bind]
    change assemble p data (tableStart data) = _ ↔ _
    by_cases present : TablePresent data (tableStart data)
    · have dynamic : onLastOfType (ε := ElfError) .dynamic (exactHeaders data)
          (fun dynIdx dynPh => do
            let real ← resolveFileOffsetInternal p (isSelfFile data) (segmentTable data)
              (exactHeaders data) dynIdx dynPh (imageStart data)
            return dynamicEntriesAt data real dynPh.filesz) = .ok (exactDynamic data) :=
        onLastOfType_eq_ok fun idx ph last => by
          rw [resolve_of_fits p (lastHeader_eq_some last).1 (fit.dynamic opens present idx ph last)]
          rfl
      have dynlib : onLastOfType (ε := ElfError) .sceDynlibData (exactHeaders data)
          (fun dlIdx dlPh => do
            let real ← resolveFileOffsetInternal p (isSelfFile data) (segmentTable data)
              (exactHeaders data) dlIdx dlPh (imageStart data)
            dynlibDataAt p data real dlPh.filesz) = .ok (exactDynlib data) :=
        onLastOfType_eq_ok fun idx ph last => by
          have fits := fit.dynlib opens present idx ph last
          rw [resolve_of_fits p (lastHeader_eq_some last).1 fits.1, ok_bind,
            dynlibDataAt_of_lt p fits.2]
      have run : assemble p data (tableStart data) = .ok (exactElf data) := by
        rw [assemble, if_pos present]
        exact bind_eq_ok.mpr ⟨_, dynamic, bind_eq_ok.mpr ⟨_, dynlib, rfl⟩⟩
      rw [run]
      exact ⟨fun same => ⟨⟨opens, present⟩, (ok.inj same).symm⟩, fun same => same.2 ▸ rfl⟩
    · rw [assemble, if_neg present]
      exact iff_of_false (by simp) fun accepted => present accepted.1.2
  · rw [failed]
    exact iff_of_false (by simp) fun accepted => closed accepted.1.1

end Elf

end AnotherPs4
