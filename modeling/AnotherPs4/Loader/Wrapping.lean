import AnotherPs4.Loader.Totality

/-!
# Wrapping an ELF file in a SELF file

A SELF file holds copies of the headers of an ELF image and of the contents of
some of its program headers. The loader sees the same image in both.
-/

namespace AnotherPs4

open Rust Rust.CursorM

/-- Offsets of the image that belong to a program header's contents. -/
def ProgramHeader.InFile (ph : ProgramHeader) (x : Nat) : Prop :=
  ph.offset ≤ x ∧ x < ph.offset + ph.filesz

def ProgramHeader.IsRead (ph : ProgramHeader) : Prop :=
  ph.phdrType = .load ∨ ph.phdrType = .dynamic ∨ ph.phdrType = .sceDynlibData

namespace Elf

/-- The SELF file `S` is made from the plain image `E`, and its blocked segments
hold the contents of the program headers in `W`. Contents that `E` does not have
up to their end are missing from the same byte on in `S`. -/
structure Wraps (E S : List UInt8) (W : Set Nat) : Prop where
  plain : isSelfFile E = false
  self : isSelfFile S = true
  header : SameBytes S (imageStart S) E 0 64
  table : SameBytes S (imageStart S + (imageHeader E).phoff) E (imageHeader E).phoff
    ((imageHeader E).phnum * 56)
  disjoint : ∀ i ∈ W, ∀ j ∈ W, i ≠ j → ∀ a b, (exactHeaders E)[i]? = some a →
    (exactHeaders E)[j]? = some b → ∀ x, ¬ (a.InFile x ∧ b.InFile x)
  held : ∀ i ∈ W, ∃ seg ∈ segmentTable S, seg.isBlocked ∧ seg.getId = i
  copies : ∀ seg ∈ segmentTable S, seg.isBlocked → seg.getId ∈ W ∧
    ∃ ph, (exactHeaders E)[seg.getId]? = some ph ∧ SameBytes S seg.fileOffset E ph.offset ph.filesz
  covered : ∀ i ph, (exactHeaders E)[i]? = some ph → ph.IsRead → i ∈ W ∨
    ∃ j ∈ W, ∃ parent, (exactHeaders E)[j]? = some parent ∧ ∀ x, ph.InFile x → parent.InFile x

namespace Wraps

variable {E S : List UInt8} {W : Set Nat}

/-! ### The headers -/

theorem imageStart_plain (wraps : Wraps E S W) : imageStart E = 0 := by
  simp [imageStart, wraps.plain]

theorem imageHeader_eq (wraps : Wraps E S W) : imageHeader S = imageHeader E := by
  rw [imageHeader, imageHeader, wraps.imageStart_plain]
  exact elfHeaderAt_copy wraps.header

theorem opens (wraps : Wraps E S W) (opens : Opens E) : Opens S := by
  obtain ⟨present, fields⟩ := opens
  rw [wraps.imageStart_plain] at present fields
  exact ⟨(wraps.header.fits_iff le_rfl (by omega)).mpr present,
    (headerFields_copy wraps.header).mpr fields⟩

theorem tablePresent (wraps : Wraps E S W) (present : TablePresent E (tableStart E)) :
    TablePresent S (tableStart S) := by
  unfold TablePresent tableStart at *
  rw [wraps.imageHeader_eq]
  rw [wraps.imageStart_plain, Nat.zero_add] at present
  by_cases none : (imageHeader E).phnum = 0
  · exact .inl none
  · exact present.imp_right (wraps.table.fits_iff le_rfl (by omega)).mpr

theorem exactHeaders_eq (wraps : Wraps E S W) : exactHeaders S = exactHeaders E := by
  unfold exactHeaders programTable tableStart
  rw [wraps.imageHeader_eq, wraps.imageStart_plain, Nat.zero_add]
  refine List.map_congr_left fun i member => programHeaderAt_copy (wraps.table.sub ?_)
  have below := List.mem_range.mp member
  omega

/-! ### The contents -/

theorem exactOffset_plain (wraps : Wraps E S W) (i : Nat) (ph : ProgramHeader) :
    exactOffset E i ph = ph.offset := by
  simp [exactOffset, realOffset, wraps.plain]

/-- The contents of every header that is read are at the offset it resolves to. -/
theorem contents (wraps : Wraps E S W) {i : Nat} {ph : ProgramHeader}
    (entry : (exactHeaders E)[i]? = some ph) (isRead : ph.IsRead) :
    SameBytes S (exactOffset S i ph) E ph.offset ph.filesz := by
  unfold exactOffset realOffset
  rw [wraps.self, wraps.exactHeaders_eq]
  cases found : direct (segmentTable S) i with
  | some seg =>
    obtain ⟨⟨member, blocked⟩, rfl⟩ := direct_eq_some found
    obtain ⟨-, held, header, copy⟩ := wraps.copies seg member blocked
    cases entry.symm.trans header
    exact copy
  | none =>
    -- `ph` is not in `W`, so a member of `W` contains it
    have outside : i ∉ W := fun inside => by
      obtain ⟨seg, member, blocked, id⟩ := wraps.held i inside
      simpa [found] using direct_isSome member blocked id
    obtain ⟨j, inW, parent, header, inside⟩ := (wraps.covered i ph entry isRead).resolve_left outside
    intro k below
    have target : parent.InFile ph.offset := inside _ ⟨le_rfl, by omega⟩
    cases cover : covering (segmentTable S) (exactHeaders E) ph.offset with
    | none =>
      obtain ⟨seg, member, blocked, rfl⟩ := wraps.held j inW
      simpa [cover] using covering_isSome member blocked header target
    | some both =>
      obtain ⟨seg, parent'⟩ := both
      obtain ⟨⟨member, blocked⟩, header', contains⟩ := covering_eq_some cover
      obtain ⟨inW', copied, header'', copy⟩ := wraps.copies seg member blocked
      cases header'.symm.trans header''
      have only : seg.getId = j := by
        by_contra distinct
        exact wraps.disjoint _ inW' j inW distinct _ _ header' header _ ⟨contains, target⟩
      rw [only] at header'
      cases header.symm.trans header'
      have last : parent.InFile (ph.offset + k) := inside _ ⟨by omega, by omega⟩
      have copied := copy (ph.offset - parent.offset + k) (by unfold ProgramHeader.InFile at *; omega)
      rwa [← Nat.add_assoc, ← Nat.add_assoc, Nat.add_sub_cancel' target.1] at copied

end Wraps

/-! ### What the loader makes of copies -/

variable {data data' : List UInt8} {pos pos' : Nat}

theorem readDynamicEntries_succ (numEntries : Nat) (data : List UInt8) (pos : Nat) :
    readDynamicEntries (numEntries + 1) ⟨data, pos⟩ =
      if pos + 16 ≤ data.length then
        if signed 64 (word data pos 8) = 0 then []
        else ⟨signed 64 (word data pos 8), word data (pos + 8) 8⟩ ::
          readDynamicEntries numEntries ⟨data, pos + 16⟩
      else [] := by
  rw [readDynamicEntries, readI64_reads]
  by_cases tag : pos + 8 ≤ data.length
  · rw [if_pos (.inr tag)]
    dsimp only
    rw [readU64, readUInt_reads]
    by_cases value : pos + 16 ≤ data.length
    · rw [if_pos (.inr (by simpa using value)), if_pos value]
    · rw [if_neg (by simpa using value), if_neg value]
  · rw [if_neg (by simpa using tag), if_neg (by omega)]

theorem readDynamicEntries_copy {numEntries : Nat}
    (same : SameBytes data pos data' pos' (numEntries * 16)) :
    readDynamicEntries numEntries ⟨data, pos⟩ = readDynamicEntries numEntries ⟨data', pos'⟩ := by
  induction numEntries generalizing pos pos' with
  | zero => rfl
  | succ numEntries ih =>
    have tag : word data pos 8 = word data' pos' 8 :=
      same.word_eq (show 0 + 8 ≤ (numEntries + 1) * 16 by omega)
    have whole := same.fits_iff (show 16 ≤ (numEntries + 1) * 16 by omega) (by omega)
    rw [readDynamicEntries_succ, readDynamicEntries_succ, tag, same.word_eq (by omega),
      ih (same.sub (by omega))]
    simp only [whole]

theorem dynamicEntriesAt_copy {filesz : Nat} (same : SameBytes data pos data' pos' filesz) :
    dynamicEntriesAt data pos filesz = dynamicEntriesAt data' pos' filesz := by
  unfold dynamicEntriesAt
  rcases Nat.eq_zero_or_pos (filesz / 16) with none | some
  · rw [none]
    simp [readDynamicEntries]
  · have starts : pos < data.length ↔ pos' < data'.length :=
      same.fits_iff (show 1 ≤ filesz by omega) (by omega)
    rw [readDynamicEntries_copy (same.mono (Nat.div_mul_le_self filesz 16))]
    simp only [starts]

/-- Wrapping an image in a SELF file preserves what the loader sees: the parsed
headers, dynamic entries and dynlib data, and the bytes of the contents it reads. -/
theorem parse_wrapped (p : Profile) {E S : List UInt8} {W : Set Nat} {image : Elf}
    (wraps : Wraps E S W) (fitE : OffsetsFit E) (fitS : OffsetsFit S)
    (contentsFit : ∀ i ph, (exactHeaders S)[i]? = some ph → ph.IsRead → OffsetFits S i ph)
    (accepted : parse p E = .ok image) :
    ∃ wrapped, parse p S = .ok wrapped ∧ wrapped.header = image.header ∧
      wrapped.programHeaders = image.programHeaders ∧
      wrapped.dynamicEntries = image.dynamicEntries ∧ wrapped.dynlibData = image.dynlibData ∧
      ∀ i ph, wrapped.programHeaders[i]? = some ph → ph.IsRead →
        ∃ offset, (wrapped.resolveFileOffset p i ph : Outcome ElfError Nat) = .ok offset ∧
          ∀ k < ph.filesz, S[offset + k]? = E[ph.offset + k]? := by
  obtain ⟨⟨opens, present⟩, rfl⟩ := (parse_of_fits p fitE).mp accepted
  refine ⟨exactElf S, (parse_of_fits p fitS).mpr
    ⟨⟨wraps.opens opens, wraps.tablePresent present⟩, rfl⟩, wraps.imageHeader_eq,
    wraps.exactHeaders_eq, ?_, ?_, fun i ph entry isRead => ?_⟩
  · change exactDynamic S = exactDynamic E
    unfold exactDynamic
    rw [wraps.exactHeaders_eq]
    cases last : lastHeader .dynamic (exactHeaders E) with
    | none => rfl
    | some found =>
      obtain ⟨entry, isType⟩ := lastHeader_eq_some last
      have copy := wraps.contents entry (.inr (.inl isType))
      rw [← wraps.exactOffset_plain found.1 found.2] at copy
      exact dynamicEntriesAt_copy copy
  · change exactDynlib S = exactDynlib E
    unfold exactDynlib
    rw [wraps.exactHeaders_eq]
    cases last : lastHeader .sceDynlibData (exactHeaders E) with
    | none => rfl
    | some found =>
      obtain ⟨entry, isType⟩ := lastHeader_eq_some last
      have copy := wraps.contents entry (.inr (.inr isType))
      rw [← wraps.exactOffset_plain found.1 found.2] at copy
      exact copy.bytesAt_eq
  · have start : (exactElf S).elfOffset = imageStart S := by
      simp [elfOffset, exactElf, imageStart, wraps.self, selfHeaderAt]
    refine ⟨exactOffset S i ph, ?_, ?_⟩
    · unfold resolveFileOffset
      rw [start]
      exact resolve_of_fits p entry (contentsFit i ph entry isRead)
    · exact wraps.contents (wraps.exactHeaders_eq ▸ entry) isRead

def loadContents : List UInt8 :=
  List.replicate 16 0xCC ++ leBytes 8 1 ++ leBytes 8 7 ++ leBytes 16 0

/-- The headers of an image with a load segment, dynamic entries inside it and
dynlib data. -/
def imageHeaders : List UInt8 :=
  headerBytes 3 ++ programHeaderBytes 1 232 48 ++ programHeaderBytes 2 248 32 ++
    programHeaderBytes 0x61000000 280 4

def plainImage : List UInt8 := imageHeaders ++ loadContents ++ [1, 2, 3, 0]

def segmentBytes (id fileOffset : Nat) : List UInt8 :=
  leBytes 8 (0x800 + id * 2 ^ 20) ++ leBytes 8 fileOffset ++ leBytes 16 0

/-- The same image with the contents the other way around. -/
def wrappedImage : List UInt8 :=
  leBytes 4 selfMagic ++ List.replicate 20 0 ++ leBytes 2 2 ++ List.replicate 6 0 ++
    segmentBytes 2 328 ++ segmentBytes 0 332 ++ imageHeaders ++ [1, 2, 3, 0] ++ loadContents

theorem plainImage_headers : exactHeaders plainImage =
    [⟨.load, ⟨4⟩, 232, 0, 0, 48, 48, 0⟩, ⟨.dynamic, ⟨4⟩, 248, 0, 0, 32, 32, 0⟩,
      ⟨.sceDynlibData, ⟨4⟩, 280, 0, 0, 4, 4, 0⟩] := by
  decide +kernel

theorem wrappedImage_segments : segmentTable wrappedImage =
    [⟨0x200800, 328, 0, 0⟩, ⟨0x800, 332, 0, 0⟩] := by
  decide +kernel

theorem wrappedImage_wraps : Wraps plainImage wrappedImage {0, 2} where
  plain := by decide +kernel
  self := by decide +kernel
  header := .of_bytesAt (by decide +kernel)
  table := .of_bytesAt (by decide +kernel)
  disjoint := by
    rw [plainImage_headers]
    rintro _ (rfl | rfl) _ (rfl | rfl) distinct _ _ ⟨rfl⟩ ⟨rfl⟩ x
    · exact absurd rfl distinct
    · simp only [ProgramHeader.InFile]
      omega
    · simp only [ProgramHeader.InFile]
      omega
    · exact absurd rfl distinct
  held := by
    rw [wrappedImage_segments]
    rintro _ (rfl | rfl) <;> decide
  copies := by
    rw [wrappedImage_segments, plainImage_headers]
    intro seg member blocked
    rcases List.mem_pair.mp member with rfl | rfl
    · exact ⟨.inr rfl, _, rfl, .of_bytesAt (by decide +kernel)⟩
    · exact ⟨.inl rfl, _, rfl, .of_bytesAt (by decide +kernel)⟩
  covered := by
    rw [plainImage_headers]
    rintro (_ | _ | _ | i) ph entry - <;> cases entry
    · exact .inl (.inl rfl)
    · refine .inr ⟨0, .inl rfl, _, rfl, fun x => ?_⟩
      simp only [ProgramHeader.InFile]
      omega
    · exact .inl (.inr rfl)

theorem wrappedImage_contentsFit (i : Nat) (ph : ProgramHeader)
    (entry : (exactHeaders wrappedImage)[i]? = some ph) : OffsetFits wrappedImage i ph := by
  rw [wrappedImage_wraps.exactHeaders_eq, plainImage_headers] at entry
  rcases i with _ | _ | _ | i <;> cases entry <;> decide +kernel

theorem parse_wrapped_image :
    ∃ wrapped, parse .release wrappedImage = .ok wrapped ∧
      wrapped.header = (exactElf plainImage).header ∧
      wrapped.programHeaders = (exactElf plainImage).programHeaders ∧
      wrapped.dynamicEntries = (exactElf plainImage).dynamicEntries ∧
      wrapped.dynlibData = (exactElf plainImage).dynlibData ∧
      ∀ i ph, wrapped.programHeaders[i]? = some ph → ph.IsRead →
        ∃ offset, (wrapped.resolveFileOffset .release i ph : Outcome ElfError Nat) = .ok offset ∧
          ∀ k < ph.filesz, wrappedImage[offset + k]? = plainImage[ph.offset + k]? :=
  parse_wrapped .release wrappedImage_wraps (by decide +kernel) (by decide +kernel)
    (fun i ph entry _ => wrappedImage_contentsFit i ph entry) (by decide +kernel)

end Elf

end AnotherPs4
