import AnotherPs4.Linker.Copies

/-!
# Segments in memory

Where the segments of a file do not overlap, the memory of its module holds
each of them in full, with zeros behind the bytes from the file and between the
segments. A load returns the module unless it trips over a table or an address.
-/

namespace AnotherPs4

open Rust RangeMap Transition

def ProgramHeader.Apart (a b : ProgramHeader) : Prop :=
  ∀ x, ¬ (Block.Contains (a.vaddr, a.memsz) x ∧ Block.Contains (b.vaddr, b.memsz) x)

instance : Std.Symm ProgramHeader.Apart := ⟨fun _ _ apart x both => apart x both.symm⟩

namespace Module

variable {p : Profile}

/-- The load segments are disjoint, hold no more bytes than they have in memory,
and lie in the address space and in the file. -/
structure WellFormedLoads (p : Profile) (elf : Elf) : Prop where
  fileSize : elf.data.length < 2 ^ 64
  disjoint : elf.loadSegments.Pairwise ProgramHeader.Apart
  sizes : ∀ ph ∈ elf.loadSegments, ph.filesz ≤ ph.memsz ∧ ph.vaddr + ph.memsz < 2 ^ 64
  inFile : ∀ entry ∈ elf.programHeaders.zipIdx, entry.1.phdrType = .load →
    ∃ src, (elf.resolveFileOffset p entry.2 entry.1 : Outcome Empty Nat) = .ok src ∧
      src + entry.1.filesz ≤ elf.data.length

theorem WellFormedLoads.holdsSegments {elf : Elf} (wellFormed : WellFormedLoads p elf) :
    HoldsSegments p elf := by
  intro entry member load
  obtain ⟨src, resolved, inFile⟩ := wellFormed.inFile entry member load
  exact ⟨src, resolved, fun _ => ⟨lt_of_le_of_lt inFile wellFormed.fileSize, inFile⟩⟩

/-- The region of a module holds what its program headers say. -/
structure LaidOut (p : Profile) (elf : Elf) (base minAddr alignedBaseSize : Nat)
    (ram ram' : Ram) : Prop where
  segments : ∀ entry ∈ elf.programHeaders.zipIdx, entry.1.phdrType = .load →
    ∀ src, (elf.resolveFileOffset p entry.2 entry.1 : Outcome Empty Nat) = .ok src →
    ∀ k < entry.1.memsz, ram' (base + entry.1.vaddr - minAddr + k) =
      if k < entry.1.filesz then elf.data.getD (src + k) 0 else 0
  gaps : ∀ x, base ≤ x → x < base + alignedBaseSize →
    (∀ ph ∈ elf.loadSegments, ¬ Block.Contains (base + ph.vaddr - minAddr, ph.memsz) x) →
    ram' x = 0
  frame : ∀ x < 2 ^ 64, ¬ (base ≤ x ∧ x < base + alignedBaseSize) → ram' x = ram x

theorem le_foldl_max (segments : List ProgramHeader) (start : Nat) :
    start ≤ segments.foldl (fun high ph => max high ((ph.vaddr + ph.memsz) % 2 ^ 64)) start ∧
      ∀ ph ∈ segments, (ph.vaddr + ph.memsz) % 2 ^ 64 ≤
        segments.foldl (fun high ph => max high ((ph.vaddr + ph.memsz) % 2 ^ 64)) start := by
  induction segments generalizing start with
  | nil => simp
  | cons first rest ih =>
    obtain ⟨above, aboveAll⟩ := ih (max start ((first.vaddr + first.memsz) % 2 ^ 64))
    rw [List.foldl_cons]
    refine ⟨by omega, fun ph member => ?_⟩
    rcases List.mem_cons.mp member with rfl | member
    · omega
    · exact aboveAll ph member

theorem foldl_max_lt (segments : List ProgramHeader) {start : Nat} (word : start < 2 ^ 64) :
    segments.foldl (fun high ph => max high ((ph.vaddr + ph.memsz) % 2 ^ 64)) start < 2 ^ 64 := by
  induction segments generalizing start with
  | nil => exact word
  | cons first rest ih => exact ih (max_lt word (Nat.mod_lt _ (Nat.two_pow_pos 64)))

theorem loadRange_snd {segments : List ProgramHeader} {minAddr maxAddr : Nat}
    (ranged : loadRange p segments = .ok (minAddr, maxAddr)) :
    maxAddr = segments.foldl (fun high ph => max high ((ph.vaddr + ph.memsz) % 2 ^ 64)) 0 := by
  refine Outcome.foldlM_component (g := Prod.snd)
    (h := fun high ph => max high ((ph.vaddr + ph.memsz) % 2 ^ 64)) (fun {s x s'} step => ?_) ranged
  obtain ⟨segEnd, added, returned⟩ := Outcome.bind_eq_ok.mp step
  cases returned
  rw [Profile.add_eq_ok added]

theorem Extent.segment_inside {elf : Elf} {minAddr alignedBaseSize : Nat}
    (extent : Extent p elf minAddr alignedBaseSize) (wellFormed : WellFormedLoads p elf)
    (nonempty : 0 < alignedBaseSize) {ph : ProgramHeader} (listed : ph ∈ elf.loadSegments) :
    minAddr ≤ ph.vaddr ∧ ph.vaddr - minAddr + ph.memsz ≤ alignedBaseSize := by
  obtain ⟨maxAddr, size, ranged, difference, aligned⟩ := extent.range
  have low := extent.min_le listed
  have high : ph.vaddr + ph.memsz ≤ maxAddr := by
    rw [← Nat.mod_eq_of_lt (wellFormed.sizes ph listed).2, loadRange_snd ranged]
    exact (le_foldl_max elf.loadSegments 0).2 ph listed
  have word : maxAddr < 2 ^ 64 := by
    rw [loadRange_snd ranged]
    exact foldl_max_lt _ (Nat.two_pow_pos 64)
  rw [Profile.sub_of_le (by omega)] at difference
  cases difference
  refine ⟨low, ?_⟩
  rcases alignUp_page_cases (by omega) aligned with rfl | rfl
  · cases nonempty
  · have above : maxAddr - minAddr ≤ roundUp (maxAddr - minAddr) pageSize :=
      le_roundUp pageSize_pos
    omega

theorem WellFormedLoads.apart {elf : Elf} (wellFormed : WellFormedLoads p elf)
    {first second : ProgramHeader} {i j : Nat} (here : elf.programHeaders[i]? = some first)
    (there : elf.programHeaders[j]? = some second) (load : first.phdrType = .load)
    (load' : second.phdrType = .load) (different : i ≠ j) : first.Apart second := by
  have headers : elf.programHeaders.Pairwise fun a b =>
      a.phdrType = .load → b.phdrType = .load → a.Apart b := by
    simpa using List.pairwise_filter.mp wellFormed.disjoint
  exact pairwise_getElem? headers (fun earlier later here x both => earlier here later x both.symm)
    here there different load load'

/-- Disjoint segments with no more bytes than they have in memory are copied whole. -/
theorem WellFormedLoads.copiesWhole {elf : Elf} {minAddr alignedBaseSize : Nat}
    (wellFormed : WellFormedLoads p elf) (extent : Extent p elf minAddr alignedBaseSize)
    (nonempty : 0 < alignedBaseSize) : CopiesWhole p elf minAddr alignedBaseSize := by
  refine ⟨wellFormed.holdsSegments, fun ph listed _ => ?_, ?_⟩
  · have inside := (extent.segment_inside wellFormed nonempty listed).2
    have sizes := (wellFormed.sizes ph listed).1
    omega
  · rintro vaddr a b ⟨⟨ph, i⟩, present, load, src, resolved, k, below, rfl, found⟩
      ⟨⟨other, j⟩, present', load', src', resolved', l, below', same, found'⟩
    dsimp only at load below resolved load' below' resolved' same
    have here := List.mk_mem_zipIdx_iff_getElem?.mp present
    have there := List.mk_mem_zipIdx_iff_getElem?.mp present'
    obtain rfl : i = j := by
      by_contra different
      have apart := wellFormed.apart here there load load' different
      have sizes := (wellFormed.sizes ph (mem_loadSegments.mpr ⟨_, present, load, rfl⟩)).1
      have sizes' := (wellFormed.sizes other (mem_loadSegments.mpr ⟨_, present', load', rfl⟩)).1
      refine apart (ph.vaddr + k) ⟨⟨?_, ?_⟩, ?_, ?_⟩ <;> dsimp only <;> omega
    obtain rfl := Option.some.inj (here.symm.trans there)
    obtain rfl := Outcome.ok.inj (resolved.symm.trans resolved')
    obtain rfl := Nat.add_left_cancel same
    exact Option.some.inj (found.symm.trans found')

section Layout

variable {elf : Elf} {base minAddr alignedBaseSize : Nat}

variable (wellFormed : WellFormedLoads p elf) (extent : Extent p elf minAddr alignedBaseSize)
  (nonempty : 0 < alignedBaseSize) (bounded : base + alignedBaseSize < 2 ^ 64)

include wellFormed extent nonempty bounded

theorem cellAt_segment {ph : ProgramHeader} (listed : ph ∈ elf.loadSegments) :
    cellAt base minAddr ph.vaddr = base + ph.vaddr - minAddr ∧ minAddr ≤ ph.vaddr ∧
      base + ph.vaddr - minAddr + ph.memsz ≤ base + alignedBaseSize := by
  obtain ⟨low, room⟩ := extent.segment_inside wellFormed nonempty listed
  have word := (wellFormed.sizes ph listed).2
  unfold cellAt
  omega

theorem mem_segmentBlocks {block : Nat × List UInt8}
    (member : block ∈ segmentBlocks p elf base minAddr) :
    ∃ ph ∈ elf.loadSegments, block.1 = base + ph.vaddr - minAddr ∧
      block.2.length = ph.filesz := by
  obtain ⟨entry, present, load, src, -, ⟨-, inFile⟩, rfl⟩ := mem_segmentBlocks_iff.mp member
  have isLoad := mem_loadSegments.mpr ⟨entry, present, load, rfl⟩
  exact ⟨entry.1, isLoad, (cellAt_segment wellFormed extent nonempty bounded isLoad).1,
    length_bytesAt (.inr inFile)⟩

theorem segmentBlocks_outside {x : Nat}
    (outside : ∀ ph ∈ elf.loadSegments,
      ¬ Block.Contains (base + ph.vaddr - minAddr, ph.filesz) x) :
    ∀ block ∈ segmentBlocks p elf base minAddr, ¬ Ram.Holds block x := by
  intro block member
  obtain ⟨ph, isLoad, start, size⟩ := mem_segmentBlocks wellFormed extent nonempty bounded member
  unfold Ram.Holds
  rw [start, size]
  exact outside ph isLoad

theorem segmentBlocks_fit :
    ∀ block ∈ segmentBlocks p elf base minAddr, block.1 + block.2.length ≤ 2 ^ 64 := by
  intro block member
  obtain ⟨ph, isLoad, start, size⟩ := mem_segmentBlocks wellFormed extent nonempty bounded member
  have inside := (cellAt_segment wellFormed extent nonempty bounded isLoad).2.2
  have sizes := (wellFormed.sizes ph isLoad).1
  omega

theorem segment_laidOut {ram : Ram} {entry : ProgramHeader × Nat}
    (present : entry ∈ elf.programHeaders.zipIdx) (load : entry.1.phdrType = .load) {src : Nat}
    (resolved : (elf.resolveFileOffset p entry.2 entry.1 : Outcome Empty Nat) = .ok src) {k : Nat}
    (below : k < entry.1.memsz) :
    (ram.zero base alignedBaseSize).writeAll (segmentBlocks p elf base minAddr)
        (base + entry.1.vaddr - minAddr + k) =
      if k < entry.1.filesz then elf.data.getD (src + k) 0 else 0 := by
  have isLoad := mem_loadSegments.mpr ⟨entry, present, load, rfl⟩
  obtain ⟨start, low, high⟩ := cellAt_segment wellFormed extent nonempty bounded isLoad
  obtain ⟨src', resolved', inFile⟩ := wellFormed.inFile entry present load
  obtain rfl := Outcome.ok.inj (resolved.symm.trans resolved')
  split
  · next inside =>
    have words : ∀ ph ∈ elf.loadSegments, ph.vaddr < 2 ^ 64 := fun ph listed => by
      have word := (wellFormed.sizes ph listed).2
      omega
    have found : elf.data[src + k]? = some (elf.data.getD (src + k) 0) := by
      rw [List.getD_eq_getElem?_getD, List.getElem?_eq_getElem (by omega), Option.getD_some]
    have cell : cellAt base minAddr (entry.1.vaddr + k) = base + entry.1.vaddr - minAddr + k := by
      have word := words _ isLoad
      unfold cellAt
      omega
    rw [← cell]
    exact (wellFormed.copiesWhole extent nonempty).present words extent bounded _
      ⟨entry, present, load, src, resolved, k, inside, rfl, found⟩
  · next behind =>
    have fits := segmentBlocks_fit wellFormed extent nonempty bounded
    rw [Ram.writeAll_outside fits (by omega) (segmentBlocks_outside wellFormed extent nonempty
      bounded ?_), Ram.zero_inside (by omega)]
    rintro ph isLoad' ⟨above, before⟩
    dsimp only at above before
    by_cases same : ph = entry.1
    · subst same
      omega
    · have low' := (cellAt_segment wellFormed extent nonempty bounded isLoad').2.1
      have sizes' := (wellFormed.sizes ph isLoad').1
      refine wellFormed.disjoint.forall isLoad' isLoad same (entry.1.vaddr + k)
        ⟨⟨?_, ?_⟩, ?_, ?_⟩ <;> dsimp only <;> omega

/-- Memory after the segments are copied to fresh pages. -/
theorem laidOut_of_blocks {ram ram' : Ram}
    (copied : ram' = (ram.zero base alignedBaseSize).writeAll (segmentBlocks p elf base minAddr)) :
    LaidOut p elf base minAddr alignedBaseSize ram ram' := by
  have fits := segmentBlocks_fit wellFormed extent nonempty bounded
  subst copied
  refine ⟨?_, ?_, ?_⟩
  · intro entry present load src resolved k below
    exact segment_laidOut wellFormed extent nonempty bounded present load resolved below
  · intro x above below outside
    rw [Ram.writeAll_outside fits (by omega) (segmentBlocks_outside wellFormed extent nonempty
      bounded ?_), Ram.zero_inside ⟨above, below⟩]
    rintro ph isLoad ⟨high, before⟩
    have sizes := (wellFormed.sizes ph isLoad).1
    exact outside ph isLoad ⟨high, lt_of_lt_of_le before (Nat.add_le_add_left sizes _)⟩
  · intro x word outside
    rw [Ram.writeAll_outside fits word (segmentBlocks_outside wellFormed extent nonempty
      bounded ?_), Ram.zero_outside outside]
    rintro ph isLoad ⟨high, before⟩
    obtain ⟨-, low, inside⟩ := cellAt_segment wellFormed extent nonempty bounded isLoad
    have sizes := (wellFormed.sizes ph isLoad).1
    dsimp only at high before
    omega

end Layout

/-- Once its memory is mapped, a well-formed file is loaded as its program headers
say, exactly if in this build its addresses can be translated, its tables lie in
the dynlib data and there is a TLS index left. -/
theorem load_laidOut_iff (p : Profile) {sys : Sys} (lawful : sys.Lawful) {boot : HostBoot}
    (bootLawful : boot.Lawful) {guest : Guest}
    (booted : MemoryManager.new boot = .ok guest.memory) {hleSymbols : SymbolResolver}
    {calls : List (Path × Except LinkError Nat)} {linker : Linker}
    (run : Trace (Linker.LoadCall p sys) (Linker.registered guest hleSymbols) calls linker)
    {path : Path} {elf : Elf} (opened : Elf.openBytes p (sys.read path) = .ok elf)
    (wellFormed : WellFormedLoads p elf) {minAddr alignedBaseSize base : Nat} {mapped : Guest}
    (extent : Extent p elf minAddr alignedBaseSize)
    (call : linker.guest.mapMemory p sys alignedBaseSize codeProt .code (moduleName path)
      = .ok (.ok base, mapped)) :
    (∃ module guest' tls', load p sys path linker.guest linker.maxTlsIndex =
        .ok (.ok module, guest', tls') ∧ module.baseVirtualAddr = base ∧
      LaidOut p elf base minAddr alignedBaseSize linker.guest.ram guest'.ram) ↔
    Loadable p elf base minAddr linker.maxTlsIndex := by
  have running := Linker.Running.calls lawful bootLawful booted run
  obtain ⟨_, _, -, -, rounded⟩ := extent.range
  have region := mapMemory_region lawful running.sound.regional rounded call
  have bounded : base + alignedBaseSize < 2 ^ 64 :=
    (region.bounded running.fixedSize running.bounded).trans_lt (by decide)
  rw [← place_returns wellFormed.holdsSegments path base alignedBaseSize minAddr mapped.ram]
  unfold load
  rw [opened]
  dsimp only
  rw [loadElf_eq_place extent call]
  constructor
  · rintro ⟨module, guest', tls', loaded, -⟩
    obtain ⟨placed, found, -⟩ := Outcome.bind_eq_ok.mp loaded
    exact ⟨placed, found⟩
  · rintro ⟨⟨module, ram, tls⟩, placed⟩
    rw [placed]
    obtain ⟨-, -, rfl, rfl, rfl, rfl, fields⟩ := place_eq_ok placed
    refine ⟨module, _, tls, rfl, rfl, ?_⟩
    obtain ⟨-, _, readFrom⟩ := Elf.openBytes_readFrom opened
    have copied := copySegments_eq_ok readFrom (fun _ member => List.fst_mem_of_mem_zipIdx member)
      extent.min_word fields.copied
    rw [region.zeros] at copied
    exact laidOut_of_blocks wellFormed extent region.nonempty bounded copied

def codeSegment (offset : Nat) : ProgramHeader :=
  { phdrType := .load, flags := ⟨5⟩, offset, vaddr := 0, paddr := 0, filesz := 2, memsz := 2,
    align := pageSize }

section Single

variable {elf : Elf} {offset : Nat} (single : elf.loadSegments = [codeSegment offset])

include single

theorem WellFormedLoads.of_single (plain : elf.isSelf = false) (small : elf.data.length < 2 ^ 64)
    (inFile : offset + 2 ≤ elf.data.length) : WellFormedLoads p elf := by
  refine ⟨small, by rw [single]; exact List.pairwise_singleton _ _, ?_, ?_⟩
  · intro ph listed
    rw [single, List.mem_singleton] at listed
    subst listed
    exact ⟨le_rfl, (by decide : 0 + 2 < 2 ^ 64)⟩
  · intro entry member load
    have listed := mem_loadSegments.mpr ⟨entry, member, load, rfl⟩
    rw [single, List.mem_singleton] at listed
    refine ⟨offset, ?_, by rw [listed]; exact inFile⟩
    rw [listed]
    simp [Elf.resolveFileOffset, Elf.resolveFileOffsetInternal, plain, codeSegment]

theorem Extent.of_single : Extent .dev elf 0 pageSize := by
  refine ⟨⟨2, 2, ?_, by decide, by decide⟩, by decide⟩
  rw [single]
  rfl

end Single

def codeMapped : MemoryManager :=
  { MemoryManager.booted with
    vmaMap := ((∅ : VMAMap).insert 0x1000004000
      { MemoryManager.freeAttributes with
        base := 0x1000004000, size := userSize - pageSize }).insert 0x1000000000
      { (Guest.request pageSize codeProt .code "libc.prx").attributes with
        base := 0x1000000000, size := pageSize } }

theorem exists_mapped (data : List UInt8) :
    ∃ mapped, Guest.booted.mapMemory .dev (.single data) pageSize codeProt .code
      (moduleName (.new "libc.prx")) = .ok (.ok 0x1000000000, mapped) := by
  have named : moduleName (.new "libc.prx") = "libc.prx" := by decide +kernel
  have returned : (Guest.request pageSize codeProt .code "libc.prx").call .dev .roomy .booted =
      .ok (.ok 0x1000000000, codeMapped) := by decide +kernel
  rw [named]
  unfold Guest.mapMemory
  change ∃ mapped, (Guest.request pageSize codeProt .code "libc.prx").call .dev .roomy .booted >>= _ =
    Outcome.ok (Except.ok 0x1000000000, mapped)
  rw [returned]
  exact ⟨_, rfl⟩

def openedFacts (data : List UInt8) : Option (Bool × Nat × List ProgramHeader × List DynamicEntry) :=
  match Elf.openBytes .dev (.ok data) with
  | .ok elf => some (elf.isSelf, elf.data.length, elf.programHeaders, elf.dynamicEntries)
  | _ => none

theorem openedFacts_eq_some {data : List UInt8} {isSelf : Bool} {size : Nat}
    {programHeaders : List ProgramHeader} {dynamicEntries : List DynamicEntry}
    (found : openedFacts data = some (isSelf, size, programHeaders, dynamicEntries)) :
    ∃ elf, Elf.openBytes .dev (.ok data) = .ok elf ∧ elf.isSelf = isSelf ∧
      elf.data.length = size ∧ elf.programHeaders = programHeaders ∧
      elf.dynamicEntries = dynamicEntries := by
  unfold openedFacts at found
  split at found
  · next elf opened =>
    simp only [Option.some.injEq, Prod.mk.injEq] at found
    exact ⟨elf, opened, found.1, found.2.1, found.2.2.1, found.2.2.2⟩
  · cases found

theorem codeImage_ready :
    ∃ elf mapped, Elf.openBytes .dev (.ok (codeImage 0 [0x90, 0xC3])) = .ok elf ∧
      WellFormedLoads .dev elf ∧ Extent .dev elf 0 pageSize ∧
      Guest.booted.mapMemory .dev (.single (codeImage 0 [0x90, 0xC3])) pageSize codeProt .code
        (moduleName (.new "libc.prx")) = .ok (.ok 0x1000000000, mapped) ∧
      Loadable .dev elf 0x1000000000 0 0 := by
  have facts : openedFacts (codeImage 0 [0x90, 0xC3]) = some (false, 122, [codeSegment 120], []) := by
    decide +kernel
  obtain ⟨elf, opened, plain, size, headers, entries⟩ := openedFacts_eq_some facts
  have single : elf.loadSegments = [codeSegment 120] := by
    rw [Elf.loadSegments, headers]
    rfl
  obtain ⟨mapped, call⟩ := exists_mapped (codeImage 0 [0x90, 0xC3])
  have noValue : ∀ tag, elf.dynamicValue tag = none := fun tag => by
    rw [Elf.dynamicValue, entries]
    rfl
  refine ⟨elf, mapped, opened, .of_single single plain (by omega) (by omega), .of_single single,
    call, fun ph listed _ => ?_, fun vaddr found => ?_, ?_, fun _ _ => by decide, ?_⟩
  · rw [single, List.mem_singleton] at listed
    subst listed
    exact ⟨(by decide : 0x1000000000 + 0 < 2 ^ 64), Nat.zero_le _⟩
  · simp [Elf.procParamHeader, Elf.ehFrameHeader, Elf.tlsHeader, headers, codeSegment, noValue]
      at found
  · intro symtabOff symtabSz strtabOff strtabSz symtab
    rw [noValue] at symtab
    cases symtab
  · intro entry member
    rw [entries] at member
    cases member

theorem load_laidOut_iff_code :
    ∃ elf module guest' tls',
      Elf.openBytes .dev (.ok (codeImage 0 [0x90, 0xC3])) = .ok elf ∧
      load .dev (.single (codeImage 0 [0x90, 0xC3])) (.new "libc.prx") .booted 0 =
        .ok (.ok module, guest', tls') ∧ module.baseVirtualAddr = 0x1000000000 ∧
      LaidOut .dev elf 0x1000000000 0 pageSize Guest.booted.ram guest'.ram := by
  obtain ⟨elf, mapped, opened, wellFormed, extent, call, loadable⟩ := codeImage_ready
  have run : Trace (Linker.LoadCall .dev (.single (codeImage 0 [0x90, 0xC3])))
      (Linker.registered .booted .new) [] (Linker.registered .booted .new) := .nil
  obtain ⟨module, guest', tls', loaded⟩ := (load_laidOut_iff .dev (fun _ => Host.roomy_lawful)
    HostBoot.low_lawful MemoryManager.new_low run opened wellFormed extent call).mpr loadable
  exact ⟨elf, module, guest', tls', opened, loaded⟩

/-- An image whose relocation table starts behind its dynlib data. -/
def strayTableImage : List UInt8 :=
  dynamicImage [0x90, 0xC3] (dynlibEntries 0 8 24) []

/-- Loading it panics once the memory is mapped. -/
theorem load_laidOut_fails_stray_table :
    ∃ elf mapped, Elf.openBytes .dev (.ok strayTableImage) = .ok elf ∧ WellFormedLoads .dev elf ∧
      Extent .dev elf 0 pageSize ∧
      Guest.booted.mapMemory .dev (.single strayTableImage) pageSize codeProt .code
        (moduleName (.new "libc.prx")) = .ok (.ok 0x1000000000, mapped) ∧
      (load .dev (.single strayTableImage) (.new "libc.prx") .booted 0).Panics := by
  have facts : (openedFacts strayTableImage).map (fun found =>
      (found.1, found.2.1, found.2.2.1.filter (·.phdrType == .load))) =
      some (false, 330, [codeSegment 232]) := by decide +kernel
  obtain ⟨found, read, same⟩ := Option.map_eq_some_iff.mp facts
  simp only [Prod.mk.injEq] at same
  obtain ⟨isSelf, size, loads⟩ := same
  obtain ⟨elf, opened, plain, length, headers, -⟩ := openedFacts_eq_some read
  have single : elf.loadSegments = [codeSegment 232] := by rw [Elf.loadSegments, headers, loads]
  have fileSize : elf.data.length = 330 := length.trans size
  obtain ⟨mapped, call⟩ := exists_mapped strayTableImage
  exact ⟨elf, mapped, opened, .of_single single (plain.trans isSelf) (by omega) (by omega),
    .of_single single, call, by decide +kernel⟩

end Module

end AnotherPs4
