import AnotherPs4.Loader.Layout

/-!
# Resolution of file offsets

Exact values of the offsets a file describes, and when the sums behind them
fit in 64 bits.
-/

namespace AnotherPs4

open Rust

variable {ε : Type}

namespace Elf

/-- Blocked segments with the program headers they hold. -/
def parents (segments : List SelfSegmentHeader) (programHeaders : List ProgramHeader) :
    List (SelfSegmentHeader × ProgramHeader) :=
  (segments.filter (·.isBlocked)).filterMap fun seg =>
    programHeaders[seg.getId]?.map fun parent => (seg, parent)

def covering (segments : List SelfSegmentHeader) (programHeaders : List ProgramHeader)
    (target : Nat) : Option (SelfSegmentHeader × ProgramHeader) :=
  (parents segments programHeaders).find? fun (_, parent) =>
    parent.offset ≤ target && target < parent.offset + parent.filesz

/-- The blocked segment with a program header's own id. -/
def direct (segments : List SelfSegmentHeader) (phdrIdx : Nat) : Option SelfSegmentHeader :=
  segments.find? fun seg => seg.isBlocked && seg.getId == phdrIdx

section

variable (isSelf : Bool) (segments : List SelfSegmentHeader) (programHeaders : List ProgramHeader)
  (phdrIdx : Nat) (phdr : ProgramHeader) (elfOffset : Nat)

def realOffset : Nat :=
  if !isSelf then phdr.offset
  else match direct segments phdrIdx with
    | some seg => seg.fileOffset
    | none => match covering segments programHeaders phdr.offset with
      | some (seg, parent) => seg.fileOffset + (phdr.offset - parent.offset)
      | none => elfOffset + phdr.offset

def SumsFit : Prop :=
  isSelf = true → direct segments phdrIdx = none →
    (∀ found ∈ covering segments programHeaders phdr.offset,
      found.2.offset + found.2.filesz < 2 ^ 64) ∧
    realOffset isSelf segments programHeaders phdrIdx phdr elfOffset < 2 ^ 64

instance : Decidable (SumsFit isSelf segments programHeaders phdrIdx phdr elfOffset) :=
  inferInstanceAs (Decidable (_ → _ → _ ∧ _))

end

variable {isSelf : Bool} {segments : List SelfSegmentHeader} {programHeaders : List ProgramHeader}
  {phdrIdx : Nat} {phdr : ProgramHeader} {elfOffset target : Nat}

theorem covering_eq_some {seg : SelfSegmentHeader} {parent : ProgramHeader}
    (found : covering segments programHeaders target = some (seg, parent)) :
    (seg ∈ segments ∧ seg.isBlocked) ∧ programHeaders[seg.getId]? = some parent ∧
      parent.offset ≤ target ∧ target < parent.offset + parent.filesz := by
  have contains := List.find?_some found
  obtain ⟨seg', blocked, header⟩ := List.mem_filterMap.mp (List.mem_of_find?_eq_some found)
  obtain ⟨parent', header, same⟩ := Option.map_eq_some_iff.mp header
  cases same
  exact ⟨List.mem_filter.mp blocked, header, by simpa using contains⟩

theorem covering_isSome {seg : SelfSegmentHeader} {parent : ProgramHeader}
    (member : seg ∈ segments) (blocked : seg.isBlocked)
    (header : programHeaders[seg.getId]? = some parent)
    (contains : parent.offset ≤ target ∧ target < parent.offset + parent.filesz) :
    (covering segments programHeaders target).isSome := by
  refine List.find?_isSome.mpr ⟨(seg, parent), List.mem_filterMap.mpr ⟨seg, ?_, ?_⟩, ?_⟩
  · exact List.mem_filter.mpr ⟨member, blocked⟩
  · rw [header, Option.map_some]
  · simpa using contains

theorem direct_eq_some {seg : SelfSegmentHeader} (found : direct segments phdrIdx = some seg) :
    (seg ∈ segments ∧ seg.isBlocked) ∧ seg.getId = phdrIdx := by
  have isDirect := List.find?_some found
  rw [Bool.and_eq_true, beq_iff_eq] at isDirect
  exact ⟨⟨List.mem_of_find?_eq_some found, isDirect.1⟩, isDirect.2⟩

theorem direct_isSome {seg : SelfSegmentHeader} (member : seg ∈ segments) (blocked : seg.isBlocked)
    (id : seg.getId = phdrIdx) : (direct segments phdrIdx).isSome :=
  List.find?_isSome.mpr ⟨seg, member, by simp [blocked, id]⟩

def parentEnd (p : Profile) (parent : ProgramHeader) : Nat :=
  match p with
  | .dev => parent.offset + parent.filesz
  | .release => (parent.offset + parent.filesz) % 2 ^ 64

def coveringIn (p : Profile) (segments : List SelfSegmentHeader)
    (programHeaders : List ProgramHeader) (target : Nat) :
    Option (SelfSegmentHeader × ProgramHeader) :=
  (parents segments programHeaders).find? fun (_, parent) =>
    parent.offset ≤ target && target < parentEnd p parent

/-- A parent that contains the target has an end, and the target has a place. -/
def ParentFits (p : Profile) (target : Nat) (found : SelfSegmentHeader × ProgramHeader) : Prop :=
  p = .dev → found.2.offset + found.2.filesz < 2 ^ 64 ∧
    found.1.fileOffset + (target - found.2.offset) < 2 ^ 64

instance (p : Profile) (target : Nat) (found : SelfSegmentHeader × ProgramHeader) :
    Decidable (ParentFits p target found) :=
  inferInstanceAs (Decidable (_ → _))

section Parent

variable {p : Profile} {seg : SelfSegmentHeader} {parent : ProgramHeader}
  {rest : List SelfSegmentHeader} (word : target < 2 ^ 64) (blocked : seg.isBlocked)
  (header : programHeaders[seg.getId]? = some parent)

include blocked header

theorem resolveInParent_taken (below : parent.offset ≤ target)
    (inside : target < parentEnd p parent) :
    (resolveInParent p programHeaders target (seg :: rest) : Outcome ε (Option Nat)) =
      if ParentFits p target (seg, parent) then
        .ok (some ((seg.fileOffset + (target - parent.offset)) % 2 ^ 64))
      else .panic .overflow := by
  unfold resolveInParent
  cases p with
  | release =>
    have ends : target < (parent.offset + parent.filesz) % 2 ^ 64 := inside
    simp [-Nat.reducePow, Profile.add_release, blocked, header, below, ends, ParentFits]
  | dev =>
    have ends : target < parent.offset + parent.filesz := inside
    by_cases fits : parent.offset + parent.filesz < 2 ^ 64
    · by_cases real : seg.fileOffset + (target - parent.offset) < 2 ^ 64
      · simp [-Nat.reducePow, Profile.add_dev, blocked, header, below, ends, ParentFits, fits, real,
          Nat.mod_eq_of_lt real]
      · simp [-Nat.reducePow, Profile.add_dev, blocked, header, below, ends, ParentFits, fits, real]
    · simp [-Nat.reducePow, Profile.add_dev, blocked, header, below, ParentFits, fits]

include word

theorem resolveInParent_passed (misses : ¬ (parent.offset ≤ target ∧ target < parentEnd p parent)) :
    (resolveInParent p programHeaders target (seg :: rest) : Outcome ε (Option Nat)) =
      resolveInParent p programHeaders target rest := by
  rw [resolveInParent]
  by_cases below : parent.offset ≤ target
  · have ends : ¬ target < parentEnd p parent := fun inside => misses ⟨below, inside⟩
    have added : (p.add 64 parent.offset parent.filesz : Outcome ε Nat) =
        .ok (parentEnd p parent) := by
      cases p with
      | release => exact Profile.add_release 64 _ _
      | dev =>
        change ¬ target < parent.offset + parent.filesz at ends
        exact Profile.add_of_lt (by omega)
    simp [-Nat.reducePow, blocked, header, below, added, ends]
  · simp [-Nat.reducePow, blocked, header, below]

end Parent

/-- Case 2 of the resolution goes to the first covering parent. -/
theorem resolveInParent_eq (p : Profile) (word : target < 2 ^ 64) :
    (resolveInParent p programHeaders target segments : Outcome ε (Option Nat)) =
      match coveringIn p segments programHeaders target with
      | none => .ok none
      | some found =>
        if ParentFits p target found then
          .ok (some ((found.1.fileOffset + (target - found.2.offset)) % 2 ^ 64))
        else .panic .overflow := by
  induction segments with
  | nil => rfl
  | cons seg rest ih =>
    have skip (without : parents (seg :: rest) programHeaders = parents rest programHeaders) :
        coveringIn p (seg :: rest) programHeaders target =
          coveringIn p rest programHeaders target := by
      unfold coveringIn
      rw [without]
    by_cases blocked : seg.isBlocked
    · cases header : programHeaders[seg.getId]? with
      | none =>
        rw [skip (by simp [parents, blocked, header]), resolveInParent]
        simpa [blocked, header] using ih
      | some parent =>
        have head : parents (seg :: rest) programHeaders =
            (seg, parent) :: parents rest programHeaders := by simp [parents, blocked, header]
        by_cases contains : parent.offset ≤ target ∧ target < parentEnd p parent
        · have found : coveringIn p (seg :: rest) programHeaders target = some (seg, parent) := by
            simp [coveringIn, head, contains]
          rw [found]
          exact resolveInParent_taken blocked header contains.1 contains.2
        · have later : coveringIn p (seg :: rest) programHeaders target =
              coveringIn p rest programHeaders target := by
            unfold coveringIn
            rw [head, List.find?_cons_of_neg (by simpa using contains)]
          rw [later, resolveInParent_passed word blocked header contains]
          exact ih
    · rw [skip (by simp [parents, blocked]), resolveInParent]
      simpa [blocked] using ih

theorem resolveInParent_dev (word : target < 2 ^ 64) :
    (resolveInParent .dev programHeaders target segments : Outcome ε (Option Nat)) =
      match covering segments programHeaders target with
      | none => .ok none
      | some (seg, parent) =>
        if parent.offset + parent.filesz < 2 ^ 64 ∧
            seg.fileOffset + (target - parent.offset) < 2 ^ 64 then
          .ok (some (seg.fileOffset + (target - parent.offset)))
        else .panic .overflow := by
  rw [resolveInParent_eq .dev word,
    show coveringIn .dev segments programHeaders target = covering segments programHeaders target from rfl]
  cases covering segments programHeaders target with
  | none => rfl
  | some found =>
    dsimp only
    by_cases fits : found.2.offset + found.2.filesz < 2 ^ 64 ∧
        found.1.fileOffset + (target - found.2.offset) < 2 ^ 64
    · rw [if_pos (show ParentFits .dev target found from fun _ => fits), if_pos fits,
        Nat.mod_eq_of_lt fits.2]
    · rw [if_neg (show ¬ ParentFits .dev target found from fun both => fits (both rfl)), if_neg fits]

theorem resolveFileOffsetInternal_dev (word : phdr.offset < 2 ^ 64) :
    (SumsFit isSelf segments programHeaders phdrIdx phdr elfOffset ∧
      (resolveFileOffsetInternal .dev isSelf segments programHeaders phdrIdx phdr elfOffset :
        Outcome ε Nat) = .ok (realOffset isSelf segments programHeaders phdrIdx phdr elfOffset)) ∨
    (¬ SumsFit isSelf segments programHeaders phdrIdx phdr elfOffset ∧
      (resolveFileOffsetInternal .dev isSelf segments programHeaders phdrIdx phdr elfOffset :
        Outcome ε Nat) = .panic .overflow) := by
  unfold SumsFit realOffset resolveFileOffsetInternal
  change (_ ∧ (if !isSelf then Outcome.ok phdr.offset else match direct segments phdrIdx with
    | some seg => .ok seg.fileOffset
    | none => _) = _) ∨ _ ∧ (if !isSelf then Outcome.ok phdr.offset
      else match direct segments phdrIdx with
    | some seg => .ok seg.fileOffset
    | none => _) = _
  cases isSelf with
  | false => exact .inl ⟨by simp, rfl⟩
  | true =>
    cases found : direct segments phdrIdx with
    | some seg => exact .inl ⟨by simp, rfl⟩
    | none =>
      rw [resolveInParent_dev word]
      cases inside : covering segments programHeaders phdr.offset with
      | none =>
        by_cases raw : elfOffset + phdr.offset < 2 ^ 64
        · exact .inl ⟨by simpa using raw, by simpa using Profile.add_of_lt raw⟩
        · exact .inr ⟨by simpa using raw, by simp [-Nat.reducePow, Profile.add_dev, raw]⟩
      | some found =>
        obtain ⟨seg, parent⟩ := found
        by_cases fits : parent.offset + parent.filesz < 2 ^ 64 ∧
            seg.fileOffset + (phdr.offset - parent.offset) < 2 ^ 64
        · exact .inl ⟨by simpa using fits, by simp [-Nat.reducePow, fits]⟩
        · exact .inr ⟨by simpa using fits, by simp [-Nat.reducePow, fits]⟩

/-! ### The last program header of a type -/

variable {type : ProgramType} {β : Type}

def lastStep (type : ProgramType) (found : Option Nat) (entry : ProgramHeader × Nat) : Option Nat :=
  if entry.1.phdrType = type then some entry.2 else found

theorem lastOfType_eq : lastOfType type programHeaders =
    programHeaders.zipIdx.foldl (lastStep type) none := rfl

theorem foldl_lastStep (entries : List (ProgramHeader × Nat)) (start : Option Nat) :
    (∃ entry ∈ entries, entry.1.phdrType = type ∧
      entries.foldl (lastStep type) start = some entry.2) ∨
    (∀ entry ∈ entries, entry.1.phdrType ≠ type) ∧ entries.foldl (lastStep type) start = start := by
  induction entries generalizing start with
  | nil => exact .inr ⟨by simp, rfl⟩
  | cons entry entries ih =>
    rw [List.foldl_cons]
    rcases ih (lastStep type start entry) with ⟨last, member, isType, result⟩ | ⟨others, result⟩
    · exact .inl ⟨last, .tail _ member, isType, result⟩
    · rw [result, lastStep]
      by_cases isType : entry.1.phdrType = type
      · exact .inl ⟨entry, .head _, isType, if_pos isType⟩
      · exact .inr ⟨List.forall_mem_cons.mpr ⟨isType, others⟩, if_neg isType⟩

theorem lastOfType_getElem? {idx : Nat} (found : lastOfType type programHeaders = some idx) :
    ∃ ph, programHeaders[idx]? = some ph ∧ ph.phdrType = type := by
  rw [lastOfType_eq] at found
  rcases foldl_lastStep programHeaders.zipIdx none with ⟨entry, member, isType, result⟩ | ⟨-, result⟩
  · cases found.symm.trans result
    exact ⟨entry.1, List.mk_mem_zipIdx_iff_getElem?.mp member, isType⟩
  · cases found.symm.trans result

theorem lastOfType_eq_none (absent : lastOfType type programHeaders = none) :
    ∀ ph ∈ programHeaders, ph.phdrType ≠ type := by
  rw [lastOfType_eq] at absent
  rcases foldl_lastStep programHeaders.zipIdx none with ⟨entry, -, -, result⟩ | ⟨others, -⟩
  · cases absent.symm.trans result
  · intro ph member
    obtain ⟨idx, entry⟩ := List.mem_iff_getElem?.mp member
    exact others (ph, idx) (List.mk_mem_zipIdx_iff_getElem?.mpr entry)

def lastHeader (type : ProgramType) (programHeaders : List ProgramHeader) :
    Option (Nat × ProgramHeader) :=
  (lastOfType type programHeaders).bind fun idx => programHeaders[idx]?.map fun ph => (idx, ph)

theorem lastHeader_eq_some {idx : Nat} {ph : ProgramHeader}
    (last : lastHeader type programHeaders = some (idx, ph)) :
    programHeaders[idx]? = some ph ∧ ph.phdrType = type := by
  obtain ⟨idx', found, there⟩ := Option.bind_eq_some_iff.mp last
  obtain ⟨ph', header, same⟩ := Option.map_eq_some_iff.mp there
  cases same
  obtain ⟨ph'', header', isType⟩ := lastOfType_getElem? found
  cases header.symm.trans header'
  exact ⟨header, isType⟩

theorem lastHeader_eq_none (absent : lastHeader type programHeaders = none) :
    ∀ ph ∈ programHeaders, ph.phdrType ≠ type := by
  cases last : lastOfType type programHeaders with
  | none => exact lastOfType_eq_none last
  | some idx =>
    obtain ⟨ph, header, -⟩ := lastOfType_getElem? last
    simp [lastHeader, last, header] at absent

theorem onLastOfType_eq (k : Nat → ProgramHeader → Outcome ε (List β)) :
    onLastOfType type programHeaders k =
      (lastHeader type programHeaders).elim (.ok []) fun last => k last.1 last.2 := by
  unfold onLastOfType lastHeader
  cases last : lastOfType type programHeaders with
  | none => rfl
  | some idx =>
    obtain ⟨ph, header, -⟩ := lastOfType_getElem? last
    simp [header]

/-! ### Overflow checks -/

open Outcome

theorem resolveInParent_checked (programHeaders : List ProgramHeader) (target : Nat)
    (segments : List SelfSegmentHeader) :
    Checked (ε := ε) (resolveInParent .dev programHeaders target segments)
      (resolveInParent .release programHeaders target segments) := by
  induction segments with
  | nil => exact .refl _
  | cons seg rest ih =>
    unfold resolveInParent
    split
    · exact ih
    · split
      · exact ih
      · split
        · apply (checked_add _ _ _).bind
          intro parentEnd
          split
          · exact (checked_add _ _ _).bind fun _ => .refl _
          · exact ih
        · exact ih

theorem resolveFileOffsetInternal_checked (isSelf : Bool) (segments : List SelfSegmentHeader)
    (programHeaders : List ProgramHeader) (phdrIdx : Nat) (phdr : ProgramHeader) (elfOffset : Nat) :
    Checked (ε := ε)
      (resolveFileOffsetInternal .dev isSelf segments programHeaders phdrIdx phdr elfOffset)
      (resolveFileOffsetInternal .release isSelf segments programHeaders phdrIdx phdr elfOffset) := by
  unfold resolveFileOffsetInternal
  split
  · exact .refl _
  · split
    · exact .refl _
    · apply (resolveInParent_checked _ _ _).bind
      intro parent
      split
      · exact .refl _
      · exact checked_add _ _ _

theorem dynlibDataAt_checked (data : List UInt8) (realOffset filesz : Nat) :
    Checked (ε := ε) (dynlibDataAt .dev data realOffset filesz)
      (dynlibDataAt .release data realOffset filesz) :=
  (checked_add _ _ _).bind fun _ => .refl _

theorem onLastOfType_checked (type : ProgramType) (programHeaders : List ProgramHeader)
    {k l : Nat → ProgramHeader → Outcome ε (List β)}
    (each : ∀ idx ph, Checked (k idx ph) (l idx ph)) :
    Checked (onLastOfType type programHeaders k) (onLastOfType type programHeaders l) := by
  unfold onLastOfType
  split
  · exact .refl _
  · split
    · exact .refl _
    · exact each _ _

theorem assemble_checked (data : List UInt8) (tableStart : Nat) :
    Checked (assemble .dev data tableStart) (assemble .release data tableStart) := by
  unfold assemble
  split
  · refine (onLastOfType_checked _ _ fun _ _ => ?_).bind fun dynamicEntries =>
      (onLastOfType_checked _ _ fun _ _ => ?_).bind fun dynlibData => .refl _
    · exact (resolveFileOffsetInternal_checked _ _ _ _ _ _).bind fun _ => .refl _
    · exact (resolveFileOffsetInternal_checked _ _ _ _ _ _).bind fun _ => dynlibDataAt_checked _ _ _
  · exact .refl _

/-- The overflow checks are all that a checked build adds to `parse`. -/
theorem parse_checked (data : List UInt8) : Checked (parse .dev data) (parse .release data) := by
  rcases parse_cases data with ⟨-, parsed⟩ | ⟨-, e, failed⟩
  · rw [parsed, parsed]
    exact (checked_add _ _ _).bind (assemble_checked data)
  · rw [failed, failed]
    exact .refl _

end Elf

end AnotherPs4
