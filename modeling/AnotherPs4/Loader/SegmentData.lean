import AnotherPs4.Loader.Opened
import AnotherPs4.Loader.Wrapping

/-!
# Segment data

`segment_data` reads at the offset of a program header in the image. The loader
resolves the offset through the segment table of a SELF file first. Both give the
same bytes exactly if the segment table says so.
-/

namespace AnotherPs4

open Rust

namespace Elf

/-- `segment_data`, with the slice that it borrows. -/
def segmentData (p : Profile) (elf : Elf) (ph : ProgramHeader) : Outcome Empty (List UInt8) := do
  let offset ← p.add 64 elf.elfOffset ph.offset
  let stop ← p.add 64 offset ph.filesz
  if stop ≤ elf.data.length then slice elf.data offset stop
  else return []

def contentsAt (data : List UInt8) (pos n : Nat) : List UInt8 :=
  if pos + n ≤ data.length then bytesAt data pos n else []

/-- `segment_data` returns the bytes that the loader copies. -/
def SegmentDataAgrees (p : Profile) (elf : Elf) (i : Nat) (ph : ProgramHeader) : Prop :=
  ∃ o, (elf.resolveFileOffset p i ph : Outcome Empty Nat) = .ok o ∧
    elf.segmentData p ph = .ok (contentsAt elf.data o ph.filesz)

/-- The place of a program header in the image that the file holds. -/
def imagePlace (elf : Elf) (ph : ProgramHeader) : Nat := (elf.elfOffset + ph.offset) % 2 ^ 64

/-- Where a segment of a SELF file holds the contents of a program header: in its own
segment, or in the first one that covers it. -/
def heldAt (p : Profile) (elf : Elf) (i : Nat) (ph : ProgramHeader) : Option Nat :=
  if elf.isSelf then
    match direct elf.selfSegments i with
    | some seg => some seg.fileOffset
    | none => (coveringIn p elf.selfSegments elf.programHeaders ph.offset).map fun found =>
      (found.1.fileOffset + (ph.offset - found.2.offset)) % 2 ^ 64
  else none

/-- Two ranges are both in the file with the same bytes, or neither is. -/
def SameContents (data : List UInt8) (pos pos' n : Nat) : Prop :=
  n = 0 ∨ (data.length < pos + n ∧ data.length < pos' + n) ∨
    pos + n ≤ data.length ∧ pos' + n ≤ data.length ∧ SameBytes data pos data pos' n

/-- The sums behind both places fit, and where a segment holds the contents, it holds
what is at their place in the image. -/
structure SegmentInPlace (p : Profile) (elf : Elf) (i : Nat) (ph : ProgramHeader) : Prop where
  resolved : p = .dev → SumsFit elf.isSelf elf.selfSegments elf.programHeaders i ph elf.elfOffset
  start : p.SumFits elf.elfOffset ph.offset
  stop : elf.imagePlace ph + ph.filesz < 2 ^ 64 ∨
    p = .release ∧ elf.data.length < (elf.imagePlace ph + ph.filesz) % 2 ^ 64
  held : ∀ o ∈ elf.heldAt p i ph, SameContents elf.data (elf.imagePlace ph) o ph.filesz

variable {p : Profile} {elf : Elf} {i : Nat} {ph : ProgramHeader}

theorem imagePlace_plain (plain : elf.isSelf = false) (word : ph.offset < 2 ^ 64) :
    elf.imagePlace ph = ph.offset := by
  rw [imagePlace, elfOffset, plain, if_neg Bool.false_ne_true, Nat.zero_add, Nat.mod_eq_of_lt word]

theorem sumsFit_iff {elfOffset : Nat} {segments : List SelfSegmentHeader}
    {programHeaders : List ProgramHeader} (absent : direct segments i = none) :
    (p = .dev → SumsFit true segments programHeaders i ph elfOffset) ↔
      match coveringIn p segments programHeaders ph.offset with
      | none => p.SumFits elfOffset ph.offset
      | some found => ParentFits p ph.offset found := by
  cases p with
  | release =>
    apply iff_of_true nofun
    split <;> exact nofun
  | dev =>
    have same : coveringIn .dev segments programHeaders ph.offset =
        covering segments programHeaders ph.offset := rfl
    rw [same]
    simp only [SumsFit, realOffset, absent, Bool.not_true, Bool.false_eq_true, if_false, true_imp_iff]
    cases covering segments programHeaders ph.offset with
    | none => simp [Profile.SumFits]
    | some found => simp [ParentFits]

theorem resolveFileOffset_eq_ok_iff {ε : Type} {o : Nat} (word : ph.offset < 2 ^ 64) :
    (elf.resolveFileOffset p i ph : Outcome ε Nat) = .ok o ↔
      (p = .dev → SumsFit elf.isSelf elf.selfSegments elf.programHeaders i ph elf.elfOffset) ∧
        o = (elf.heldAt p i ph).getD (elf.imagePlace ph) := by
  cases self : elf.isSelf with
  | false =>
    have held : elf.heldAt p i ph = none := by simp [heldAt, self]
    rw [held, imagePlace_plain self word]
    simp [resolveFileOffset, resolveFileOffsetInternal, SumsFit, self, eq_comm]
  | true =>
    unfold resolveFileOffset resolveFileOffsetInternal
    rw [self]
    change (match direct elf.selfSegments i with
      | some seg => Outcome.ok seg.fileOffset
      | none => _) = _ ↔ _
    cases found : direct elf.selfSegments i with
    | some seg => simp [SumsFit, heldAt, self, found, eq_comm]
    | none =>
      rw [sumsFit_iff found, heldAt, self, found, resolveInParent_eq p word]
      dsimp only
      cases coveringIn p elf.selfSegments elf.programHeaders ph.offset with
      | none => exact Profile.add_eq_ok_iff
      | some parent =>
        dsimp only
        by_cases fits : ParentFits p ph.offset parent
        · simp [fits, eq_comm]
        · simp [fits]

theorem segmentData_eq_ok (start : p.SumFits elf.elfOffset ph.offset)
    (fits : elf.imagePlace ph + ph.filesz < 2 ^ 64) :
    elf.segmentData p ph = .ok (contentsAt elf.data (elf.imagePlace ph) ph.filesz) := by
  have offset : (p.add 64 elf.elfOffset ph.offset : Outcome Empty Nat) = .ok (elf.imagePlace ph) :=
    Profile.add_eq_ok_iff.mpr ⟨start, rfl⟩
  have stop : (p.add 64 (elf.imagePlace ph) ph.filesz : Outcome Empty Nat) =
      .ok (elf.imagePlace ph + ph.filesz) := Profile.add_of_lt fits
  rw [segmentData, offset, Outcome.ok_bind, stop, Outcome.ok_bind, contentsAt]
  split
  · next inside =>
    rw [slice_of_le (Nat.le_add_right _ _) inside, List.drop_take, Nat.add_sub_cancel_left]
    rfl
  · rfl

/-- Where the end of the range wraps, nothing or a panic comes of it. -/
theorem segmentData_of_wraps (filesz : ph.filesz < 2 ^ 64)
    (wraps : 2 ^ 64 ≤ elf.imagePlace ph + ph.filesz) {bytes : List UInt8} :
    elf.segmentData p ph = .ok bytes ↔ (p = .release ∧
      elf.data.length < (elf.imagePlace ph + ph.filesz) % 2 ^ 64) ∧ bytes = [] := by
  cases p with
  | dev =>
    refine iff_of_false (fun returned => ?_) (fun holds => nomatch holds.1.1)
    obtain ⟨offset, added, returned⟩ := Outcome.bind_eq_ok.mp returned
    obtain ⟨stop, ended, -⟩ := Outcome.bind_eq_ok.mp returned
    obtain ⟨-, rfl⟩ := Profile.add_eq_ok_iff.mp added
    exact absurd ((Profile.add_eq_ok_iff.mp ended).1 rfl) (Nat.not_lt.mpr wraps)
  | release =>
    have place : elf.imagePlace ph < 2 ^ 64 := Nat.mod_lt _ (Nat.two_pow_pos 64)
    have end_ : (elf.imagePlace ph + ph.filesz) % 2 ^ 64 =
        elf.imagePlace ph + ph.filesz - 2 ^ 64 := by
      rw [Nat.mod_eq_sub_mod wraps, Nat.mod_eq_of_lt (by omega)]
    rw [segmentData, Profile.add_release, Outcome.ok_bind, Profile.add_release, Outcome.ok_bind]
    change (if (elf.imagePlace ph + ph.filesz) % 2 ^ 64 ≤ elf.data.length then
      slice elf.data (elf.imagePlace ph) _ else _) = _ ↔ _
    split
    · next inside =>
      refine iff_of_false (fun returned => ?_) (fun holds => absurd holds.1.2 (Nat.not_lt.mpr inside))
      have ordered : elf.imagePlace ph ≤ (elf.imagePlace ph + ph.filesz) % 2 ^ 64 :=
        (slice_eq_ok.mp returned).1.1
      rw [end_] at ordered
      omega
    · next outside =>
      rw [Outcome.pure_eq_ok, Outcome.ok.injEq, eq_comm]
      exact (and_iff_right ⟨rfl, Nat.not_le.mp outside⟩).symm

theorem sameContents_iff {data : List UInt8} {pos pos' n : Nat} :
    SameContents data pos pos' n ↔ contentsAt data pos n = contentsAt data pos' n := by
  have size {pos : Nat} (inside : pos + n ≤ data.length) : (bytesAt data pos n).length = n :=
    length_bytesAt (.inr inside)
  unfold SameContents contentsAt
  by_cases here : pos + n ≤ data.length <;> by_cases there : pos' + n ≤ data.length
  · rw [if_pos here, if_pos there]
    constructor
    · rintro (rfl | outside | ⟨-, -, same⟩)
      · rfl
      · exact absurd here (Nat.not_le.mpr outside.1)
      · exact same.bytesAt_eq
    · intro same
      exact .inr (.inr ⟨here, there, .of_bytesAt same⟩)
  · rw [if_pos here, if_neg there, ← List.length_eq_zero_iff, size here]
    omega
  · rw [if_neg here, if_pos there, @eq_comm _ [], ← List.length_eq_zero_iff, size there]
    omega
  · rw [if_neg here, if_neg there]
    exact iff_of_true (.inr (.inl ⟨Nat.not_le.mp here, Nat.not_le.mp there⟩)) rfl

/-- `segment_data` agrees with the loader exactly if the sums behind it fit and a segment
that holds the contents holds what is at their place in the image. -/
theorem segmentData_agrees_iff (p : Profile) {file : List UInt8} {elf : Elf} {i : Nat}
    {ph : ProgramHeader} (parsed : parse p file = .ok elf) (length : file.length < 2 ^ 63)
    (entry : elf.programHeaders[i]? = some ph) :
    elf.SegmentDataAgrees p i ph ↔ elf.SegmentInPlace p i ph := by
  obtain ⟨rfl, tableStart, readFrom⟩ := parse_readFrom parsed
  have words := readFrom.words (List.mem_of_getElem? entry)
  have nothing (wraps : 2 ^ 64 ≤ elf.imagePlace ph + ph.filesz) :
      contentsAt elf.data (elf.imagePlace ph) ph.filesz = [] := if_neg (by omega)
  constructor
  · rintro ⟨o, resolved, read⟩
    obtain ⟨sums, rfl⟩ := (resolveFileOffset_eq_ok_iff words.offset).mp resolved
    obtain ⟨offset, added, -⟩ := Outcome.bind_eq_ok.mp read
    have start := (Profile.add_eq_ok_iff.mp added).1
    rcases Nat.lt_or_ge (elf.imagePlace ph + ph.filesz) (2 ^ 64) with fits | wraps
    · rw [segmentData_eq_ok start fits, Outcome.ok.injEq] at read
      refine ⟨sums, start, .inl fits, fun o held => sameContents_iff.mpr ?_⟩
      rwa [held] at read
    · obtain ⟨beyond, empty⟩ := (segmentData_of_wraps words.filesz wraps).mp read
      refine ⟨sums, start, .inr beyond, fun o held => sameContents_iff.mpr ?_⟩
      rw [held, Option.getD_some] at empty
      rw [nothing wraps, empty]
  · rintro ⟨sums, start, stop, held⟩
    refine ⟨_, (resolveFileOffset_eq_ok_iff words.offset).mpr ⟨sums, rfl⟩, ?_⟩
    have same : contentsAt elf.data ((elf.heldAt p i ph).getD (elf.imagePlace ph)) ph.filesz =
        contentsAt elf.data (elf.imagePlace ph) ph.filesz := by
      cases place : elf.heldAt p i ph with
      | none => rfl
      | some o => exact (sameContents_iff.mp (held o place)).symm
    rw [same]
    rcases Nat.lt_or_ge (elf.imagePlace ph + ph.filesz) (2 ^ 64) with fits | wraps
    · exact segmentData_eq_ok start fits
    · exact (segmentData_of_wraps words.filesz wraps).mpr
        ⟨stop.resolve_left (Nat.not_lt.mpr wraps), nothing wraps⟩

/-- The load segment of a plain image. -/
theorem segmentData_agrees_iff_plain :
    ∃ elf, parse .dev plainImage = .ok elf ∧
      elf.SegmentDataAgrees .dev 0 ⟨.load, ⟨4⟩, 232, 0, 0, 48, 48, 0⟩ := by
  have opened : parse .dev plainImage = .ok (exactElf plainImage) := by decide +kernel
  have plain : (exactElf plainImage).isSelf = false := by decide +kernel
  have fits : Profile.SumFits .dev (exactElf plainImage).elfOffset 232 := fun _ => by decide +kernel
  refine ⟨_, opened, (segmentData_agrees_iff .dev opened (by decide +kernel) ?_).mpr ⟨?_, fits, ?_, ?_⟩⟩
  · exact congrArg (·[0]?) plainImage_headers
  · intro _ self
    cases plain.symm.trans self
  · exact .inl (by decide +kernel)
  · intro o held
    rw [heldAt, plain] at held
    cases held

/-- In the SELF file of the same image, the load segment starts four bytes behind its place
in the image. -/
theorem segmentData_agrees_fails_wrapped :
    ∃ elf, parse .dev wrappedImage = .ok elf ∧
      elf.programHeaders[0]? = some ⟨.load, ⟨4⟩, 232, 0, 0, 48, 48, 0⟩ ∧
      (elf.resolveFileOffset .dev 0 ⟨.load, ⟨4⟩, 232, 0, 0, 48, 48, 0⟩ : Outcome Empty Nat) =
        .ok 332 ∧
      elf.segmentData .dev ⟨.load, ⟨4⟩, 232, 0, 0, 48, 48, 0⟩ = .ok (bytesAt wrappedImage 328 48) ∧
      ¬ elf.SegmentDataAgrees .dev 0 ⟨.load, ⟨4⟩, 232, 0, 0, 48, 48, 0⟩ := by
  have opened : parse .dev wrappedImage = .ok (exactElf wrappedImage) := by decide +kernel
  have resolved : ((exactElf wrappedImage).resolveFileOffset .dev 0
      ⟨.load, ⟨4⟩, 232, 0, 0, 48, 48, 0⟩ : Outcome Empty Nat) = .ok 332 := by decide +kernel
  have read : (exactElf wrappedImage).segmentData .dev ⟨.load, ⟨4⟩, 232, 0, 0, 48, 48, 0⟩ =
      .ok (bytesAt wrappedImage 328 48) := by decide +kernel
  refine ⟨_, opened, by decide +kernel, resolved, read, ?_⟩
  rintro ⟨o, same, agrees⟩
  cases resolved.symm.trans same
  rw [read] at agrees
  exact absurd agrees (by decide +kernel)

end Elf

end AnotherPs4
