import AnotherPs4.Linker.Bounds

/-!
# Copies of segments

The loop over the load segments copies the bytes of each from the file to its
place in the region. Where the file holds them, the region has room for them
and no two segments disagree, all of them are in memory in the end.
-/

namespace AnotherPs4

open Rust RangeMap Transition

/-- A load segment has this byte in the file for the address `vaddr`. -/
def Elf.SegmentByte (p : Profile) (elf : Elf) (vaddr : Nat) (byte : UInt8) : Prop :=
  ∃ entry ∈ elf.programHeaders.zipIdx, entry.1.phdrType = .load ∧
    ∃ src, (elf.resolveFileOffset p entry.2 entry.1 : Outcome Empty Nat) = .ok src ∧
      ∃ k < entry.1.filesz, vaddr = entry.1.vaddr + k ∧ elf.data[src + k]? = some byte

namespace Module

variable {p : Profile}

/-- The file holds all bytes of its load segments, where their offsets say. -/
def HoldsSegments (p : Profile) (elf : Elf) : Prop :=
  ∀ entry ∈ elf.programHeaders.zipIdx, entry.1.phdrType = .load →
    ∃ src, (elf.resolveFileOffset p entry.2 entry.1 : Outcome Empty Nat) = .ok src ∧
      (0 < entry.1.filesz → src + entry.1.filesz < 2 ^ 64 ∧
        src + entry.1.filesz ≤ elf.data.length)

def Translates (p : Profile) (base minAddr vaddr : Nat) : Prop :=
  p = .dev → base + vaddr < 2 ^ 64 ∧ minAddr ≤ base + vaddr

/-- A load gets through once its memory is mapped at `base`. -/
structure Loadable (p : Profile) (elf : Elf) (base minAddr maxTlsIndex : Nat) : Prop where
  segments : ∀ ph ∈ elf.loadSegments, Translates p base minAddr ph.vaddr
  addresses : ∀ vaddr, elf.procParamHeader.map (·.vaddr) = some vaddr ∨
    elf.ehFrameHeader.map (·.vaddr) = some vaddr ∨ elf.tlsHeader.map (·.vaddr) = some vaddr ∨
    elf.dynamicValue dtInitArray = some vaddr ∨ elf.dynamicValue dtInit = some vaddr →
    Translates p base minAddr vaddr
  tables : TablesReadable p elf
  tlsIndex : elf.tlsHeader.isSome = true → p = .dev → maxTlsIndex + 1 < 2 ^ 32
  names : NamesReadable p elf

theorem translate_returns {base minAddr vaddr : Nat} :
    (translate p base minAddr vaddr).Returns ↔ Translates p base minAddr vaddr := by
  unfold translate Translates
  rw [Profile.add_bind_returns]
  cases p with
  | release =>
    rw [Profile.sub_release (Nat.mod_lt _ (Nat.two_pow_pos 64))]
    simp [Profile.SumFits]
  | dev =>
    unfold Profile.SumFits Profile.sub
    by_cases fits : base + vaddr < 2 ^ 64
    · rw [Nat.mod_eq_of_lt fits]
      by_cases above : minAddr ≤ base + vaddr <;> simp [above]
    · exact iff_of_false (fun both => fits (both.1 rfl)) fun both => fits (both rfl).1

theorem translateOr0_returns {base minAddr : Nat} {found : Option Nat} :
    (translateOr0 p base minAddr found).Returns ↔
      ∀ vaddr, found = some vaddr → Translates p base minAddr vaddr := by
  cases found with
  | none => exact iff_of_true (Outcome.returns_ok _) nofun
  | some vaddr =>
    rw [translateOr0, Option.elim_some, translate_returns]
    exact ⟨fun translates _ same => Option.some.inj same ▸ translates, fun all => all vaddr rfl⟩

theorem copySegment_returns {elf : Elf} (held : HoldsSegments p elf)
    {base minAddr : Nat} (ram : Ram) {entry : ProgramHeader × Nat}
    (member : entry ∈ elf.programHeaders.zipIdx) :
    (copySegment p elf base minAddr ram entry).Returns ↔
      (entry.1.phdrType = .load → Translates p base minAddr entry.1.vaddr) := by
  obtain ⟨ph, phIdx⟩ := entry
  unfold copySegment
  dsimp only
  by_cases load : ph.phdrType = .load
  · obtain ⟨src, resolved, held⟩ := held _ member load
    rw [if_neg (not_not.mpr load)]
    refine (Outcome.returns_bind_of_forall fun destAddr => ?_).trans ?_
    · rw [resolved, Outcome.ok_bind]
      split
      · next nonempty =>
        obtain ⟨word, inFile⟩ := held nonempty
        rw [Profile.add_of_lt word, Outcome.ok_bind, if_pos inFile,
          slice_of_le (Nat.le_add_right _ _) inFile]
        exact Outcome.returns_ok _
      · exact Outcome.returns_ok _
    · rw [translate_returns]
      exact ⟨fun translates _ => translates, fun translates => translates load⟩
  · rw [if_pos load]
    exact iff_of_true (Outcome.returns_ok _) fun isLoad => absurd isLoad load

theorem mem_loadSegments {elf : Elf} {ph : ProgramHeader} :
    ph ∈ elf.loadSegments ↔
      ∃ entry ∈ elf.programHeaders.zipIdx, entry.1.phdrType = .load ∧ entry.1 = ph := by
  unfold Elf.loadSegments
  rw [List.mem_filter, beq_iff_eq]
  constructor
  · rintro ⟨member, load⟩
    obtain ⟨i, found⟩ := List.mem_iff_getElem?.mp member
    exact ⟨(ph, i), List.mk_mem_zipIdx_iff_getElem?.mpr found, load, rfl⟩
  · rintro ⟨entry, member, load, rfl⟩
    exact ⟨List.fst_mem_of_mem_zipIdx member, load⟩

theorem copySegments_returns {elf : Elf} (held : HoldsSegments p elf) (base minAddr : Nat)
    (ram : Ram) :
    (elf.programHeaders.zipIdx.foldlM (copySegment p elf base minAddr) ram).Returns ↔
      ∀ ph ∈ elf.loadSegments, Translates p base minAddr ph.vaddr := by
  have each : ∀ ram, ∀ entry ∈ elf.programHeaders.zipIdx,
      (copySegment p elf base minAddr ram entry).Returns ↔
        (entry.1.phdrType = .load → Translates p base minAddr entry.1.vaddr) :=
    fun ram _ member => copySegment_returns held ram member
  refine (Outcome.foldlM_returns each ram).trans ⟨?_, ?_⟩
  · intro all ph listed
    obtain ⟨entry, member, load, rfl⟩ := mem_loadSegments.mp listed
    exact all entry member load
  · intro all entry member load
    exact all entry.1 (mem_loadSegments.mpr ⟨entry, member, load, rfl⟩)

theorem place_returns {elf : Elf} (held : HoldsSegments p elf) (path : Path)
    (base alignedBaseSize minAddr : Nat) (ram : Ram) (maxTlsIndex : Nat) :
    (place p path elf base alignedBaseSize minAddr ram maxTlsIndex).Returns ↔
      Loadable p elf base minAddr maxTlsIndex := by
  have tls : (elf.tlsHeader.elim (.ok 0) fun _ => p.add 32 maxTlsIndex 1 :
      Outcome Empty Nat).Returns ↔
      (elf.tlsHeader.isSome = true → p = .dev → maxTlsIndex + 1 < 2 ^ 32) := by
    cases elf.tlsHeader with
    | none => exact iff_of_true (Outcome.returns_ok _) nofun
    | some ph =>
      rw [Option.elim_some, Profile.add_returns]
      exact ⟨fun fits _ => fits, fun fits => fits rfl⟩
  have steps : (place p path elf base alignedBaseSize minAddr ram maxTlsIndex).Returns ↔
      (elf.programHeaders.zipIdx.foldlM (copySegment p elf base minAddr) ram).Returns ∧
      (translateOr0 p base minAddr (elf.procParamHeader.map (·.vaddr))).Returns ∧
      (translateOr0 p base minAddr (elf.ehFrameHeader.map (·.vaddr))).Returns ∧
      (parseRelocations p elf).Returns ∧
      (elf.tlsHeader.elim (.ok 0) fun _ => p.add 32 maxTlsIndex 1 : Outcome Empty Nat).Returns ∧
      (translateOr0 p base minAddr (elf.tlsHeader.map (·.vaddr))).Returns ∧
      (translateOr0 p base minAddr (elf.dynamicValue dtInitArray)).Returns ∧
      (translateOr0 p base minAddr (elf.dynamicValue dtInit)).Returns ∧
      (elf.neededModules p : Outcome Empty (List String)).Returns ∧ True := by
    unfold place
    iterate 9 refine Outcome.returns_bind_iff fun _ => ?_
    exact iff_true_intro (Outcome.returns_ok _)
  rw [steps, copySegments_returns held, tls, translateOr0_returns, translateOr0_returns, translateOr0_returns,
    translateOr0_returns, translateOr0_returns, parseRelocations_returns, neededModules_returns]
  constructor
  · rintro ⟨segments, procParam, ehFrame, tables, tlsIndex, tlsImage, initArray, init, names, -⟩
    refine ⟨segments, ?_, tables, tlsIndex, names⟩
    rintro vaddr (found | found | found | found | found)
    · exact procParam vaddr found
    · exact ehFrame vaddr found
    · exact tlsImage vaddr found
    · exact initArray vaddr found
    · exact init vaddr found
  · rintro ⟨segments, addresses, tables, tlsIndex, names⟩
    exact ⟨segments, fun vaddr found => addresses vaddr (.inl found),
      fun vaddr found => addresses vaddr (.inr (.inl found)), tables, tlsIndex,
      fun vaddr found => addresses vaddr (.inr (.inr (.inl found))),
      fun vaddr found => addresses vaddr (.inr (.inr (.inr (.inl found)))),
      fun vaddr found => addresses vaddr (.inr (.inr (.inr (.inr found)))), names, trivial⟩

def segmentBlocks (p : Profile) (elf : Elf) (base minAddr : Nat) : List (Nat × List UInt8) :=
  (loadContents p elf).map fun (vaddr, bytes) => (cellAt base minAddr vaddr, bytes)

section Blocks

variable {elf : Elf} {base minAddr : Nat}

theorem segmentContents_eq_some {entry : ProgramHeader × Nat} {block : Nat × List UInt8} :
    segmentContents p elf entry = some block ↔ entry.1.phdrType = .load ∧ ∃ src,
      (elf.resolveFileOffset p entry.2 entry.1 : Outcome Empty Nat) = .ok src ∧
      (0 < entry.1.filesz ∧ src + entry.1.filesz ≤ elf.data.length) ∧
      block = (entry.1.vaddr, bytesAt elf.data src entry.1.filesz) := by
  obtain ⟨ph, phIdx⟩ := entry
  unfold segmentContents
  dsimp only
  by_cases load : ph.phdrType = .load
  · rw [if_neg (not_not.mpr load)]
    cases resolved : (elf.resolveFileOffset p phIdx ph : Outcome Empty Nat) with
    | ok src =>
      simp only [load, true_and, Outcome.ok.injEq, exists_eq_left']
      by_cases inFile : 0 < ph.filesz ∧ src + ph.filesz ≤ elf.data.length
      · simp only [inFile, if_true, Option.some.injEq, true_and, and_self, eq_comm]
      · simp only [inFile, if_false, reduceCtorEq, false_and]
    | err e => exact e.elim
    | panic cause => simp
  · simp [load]

theorem mem_segmentBlocks_iff {block : Nat × List UInt8} :
    block ∈ segmentBlocks p elf base minAddr ↔ ∃ entry ∈ elf.programHeaders.zipIdx,
      entry.1.phdrType = .load ∧ ∃ src,
        (elf.resolveFileOffset p entry.2 entry.1 : Outcome Empty Nat) = .ok src ∧
        (0 < entry.1.filesz ∧ src + entry.1.filesz ≤ elf.data.length) ∧
        block = (cellAt base minAddr entry.1.vaddr, bytesAt elf.data src entry.1.filesz) := by
  unfold segmentBlocks loadContents
  constructor
  · intro member
    obtain ⟨contents, listed, rfl⟩ := List.mem_map.mp member
    obtain ⟨entry, present, found⟩ := List.mem_filterMap.mp listed
    obtain ⟨load, src, resolved, inFile, rfl⟩ := segmentContents_eq_some.mp found
    exact ⟨entry, present, load, src, resolved, inFile, rfl⟩
  · rintro ⟨entry, present, load, src, resolved, inFile, rfl⟩
    exact List.mem_map_of_mem (f := fun (vaddr, bytes) => (cellAt base minAddr vaddr, bytes))
      (List.mem_filterMap.mpr ⟨entry, present,
        segmentContents_eq_some.mpr ⟨load, src, resolved, inFile, rfl⟩⟩)

end Blocks

/-- The load segments of a file can be copied whole into a region: the file
holds their bytes, the region has room for them, and no two of them disagree on
an address. -/
structure CopiesWhole (p : Profile) (elf : Elf) (minAddr alignedBaseSize : Nat) : Prop where
  held : HoldsSegments p elf
  room : ∀ ph ∈ elf.loadSegments, 0 < ph.filesz → ph.vaddr - minAddr + ph.filesz ≤ alignedBaseSize
  agree : ∀ vaddr a b, elf.SegmentByte p vaddr a → elf.SegmentByte p vaddr b → a = b

theorem cellAt_inside_iff {base minAddr vaddr count size : Nat} (low : minAddr ≤ vaddr)
    (word : vaddr < 2 ^ 64) (bounded : base + size < 2 ^ 64) :
    (∀ k < count, base ≤ (cellAt base minAddr vaddr + k) % 2 ^ 64 ∧
      (cellAt base minAddr vaddr + k) % 2 ^ 64 < base + size) ↔
    (0 < count → vaddr - minAddr + count ≤ size) := by
  unfold cellAt
  constructor
  · intro inside nonempty
    have first := inside 0 nonempty
    by_contra beyond
    have last := inside (size - (vaddr - minAddr)) (by omega)
    omega
  · intro room k below
    have fits := room (by omega)
    omega

section Copied

variable {elf : Elf} {base minAddr alignedBaseSize : Nat}
  (words : ∀ ph ∈ elf.loadSegments, ph.vaddr < 2 ^ 64) (extent : Extent p elf minAddr alignedBaseSize)
  (bounded : base + alignedBaseSize < 2 ^ 64)

include words extent bounded

theorem blocks_inside_iff (held : HoldsSegments p elf) :
    (∀ block ∈ segmentBlocks p elf base minAddr, ∀ k < block.2.length,
      base ≤ (block.1 + k) % 2 ^ 64 ∧ (block.1 + k) % 2 ^ 64 < base + alignedBaseSize) ↔
    ∀ ph ∈ elf.loadSegments, 0 < ph.filesz → ph.vaddr - minAddr + ph.filesz ≤ alignedBaseSize := by
  have cells : ∀ ph ∈ elf.loadSegments,
      (∀ k < ph.filesz, base ≤ (cellAt base minAddr ph.vaddr + k) % 2 ^ 64 ∧
        (cellAt base minAddr ph.vaddr + k) % 2 ^ 64 < base + alignedBaseSize) ↔
      (0 < ph.filesz → ph.vaddr - minAddr + ph.filesz ≤ alignedBaseSize) := by
    intro ph listed
    exact cellAt_inside_iff (extent.min_le listed) (words ph listed) bounded
  constructor
  · intro inside ph listed nonempty
    obtain ⟨entry, present, load, rfl⟩ := mem_loadSegments.mp listed
    obtain ⟨src, resolved, held⟩ := held entry present load
    obtain ⟨-, inFile⟩ := held nonempty
    have copied := inside _ (mem_segmentBlocks_iff.mpr
      ⟨entry, present, load, src, resolved, ⟨nonempty, inFile⟩, rfl⟩)
    dsimp only at copied
    rw [length_bytesAt (.inr inFile)] at copied
    exact (cells _ listed).mp copied nonempty
  · intro room block member
    obtain ⟨entry, present, load, src, -, ⟨-, inFile⟩, rfl⟩ := mem_segmentBlocks_iff.mp member
    have listed := mem_loadSegments.mpr ⟨entry, present, load, rfl⟩
    dsimp only
    rw [length_bytesAt (.inr inFile)]
    exact (cells _ listed).mpr (room _ listed)

section Whole

variable (whole : CopiesWhole p elf minAddr alignedBaseSize)

include whole

theorem CopiesWhole.cellAt_eq {ph : ProgramHeader} (listed : ph ∈ elf.loadSegments)
    (nonempty : 0 < ph.filesz) :
    minAddr ≤ ph.vaddr ∧ cellAt base minAddr ph.vaddr = base + (ph.vaddr - minAddr) ∧
      base + (ph.vaddr - minAddr) + ph.filesz < 2 ^ 64 := by
  have low := extent.min_le listed
  have room := whole.room ph listed nonempty
  have word := words ph listed
  unfold cellAt
  omega

theorem CopiesWhole.block_byte {block : Nat × List UInt8}
    (member : block ∈ segmentBlocks p elf base minAddr) :
    block.1 + block.2.length < 2 ^ 64 ∧ ∀ k (inside : k < block.2.length), ∃ vaddr,
      minAddr ≤ vaddr ∧ block.1 + k = base + (vaddr - minAddr) ∧
      elf.SegmentByte p vaddr block.2[k] := by
  obtain ⟨entry, present, load, src, resolved, ⟨nonempty, inFile⟩, rfl⟩ :=
    mem_segmentBlocks_iff.mp member
  obtain ⟨low, start, fits⟩ := whole.cellAt_eq words extent bounded
    (mem_loadSegments.mpr ⟨entry, present, load, rfl⟩) nonempty
  have length : (bytesAt elf.data src entry.1.filesz).length = entry.1.filesz :=
    length_bytesAt (.inr inFile)
  dsimp only
  refine ⟨by rwa [start, length], fun k inside => ⟨entry.1.vaddr + k, by omega, by omega, ?_⟩⟩
  rw [length] at inside
  refine ⟨entry, present, load, src, resolved, k, inside, rfl, ?_⟩
  rw [← List.getElem?_eq_getElem, getElem?_bytesAt, if_pos inside]

/-- Where the segments fit and agree, all their bytes are in memory in the end. -/
theorem CopiesWhole.present (ram : Ram) {vaddr : Nat} {byte : UInt8}
    (stored : elf.SegmentByte p vaddr byte) :
    ram.writeAll (segmentBlocks p elf base minAddr) (cellAt base minAddr vaddr) = byte := by
  obtain ⟨entry, present, load, src, resolved, k, below, rfl, found⟩ := stored
  obtain ⟨src', resolved', held⟩ := whole.held entry present load
  obtain rfl := Outcome.ok.inj (resolved.symm.trans resolved')
  obtain ⟨-, inFile⟩ := held (by omega)
  obtain ⟨low, start, fits⟩ := whole.cellAt_eq words extent bounded
    (mem_loadSegments.mpr ⟨entry, present, load, rfl⟩) (by omega)
  have here : cellAt base minAddr (entry.1.vaddr + k) = cellAt base minAddr entry.1.vaddr + k := by
    unfold cellAt at start ⊢
    omega
  have member : (cellAt base minAddr entry.1.vaddr, bytesAt elf.data src entry.1.filesz) ∈
      segmentBlocks p elf base minAddr :=
    mem_segmentBlocks_iff.mpr ⟨entry, present, load, src, resolved, ⟨by omega, inFile⟩, rfl⟩
  have covered : Ram.Holds (cellAt base minAddr entry.1.vaddr, bytesAt elf.data src entry.1.filesz)
      (cellAt base minAddr (entry.1.vaddr + k)) := by
    unfold Ram.Holds
    rw [length_bytesAt (.inr inFile), here]
    omega
  refine Ram.writeAll_of_agree (fun block listed =>
    (whole.block_byte words extent bounded listed).1.le) (by omega)
    (fun block listed l same inside => ?_) (.inr ⟨_, member, covered⟩)
  obtain ⟨vaddr, above, cell, stored⟩ :=
    (whole.block_byte words extent bounded listed).2 l inside
  obtain rfl : vaddr = entry.1.vaddr + k := by omega
  exact whole.agree _ _ _ stored ⟨entry, present, load, src, resolved, k, below, rfl, found⟩

end Whole

end Copied

end Module

end AnotherPs4
