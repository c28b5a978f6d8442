import AnotherPs4.Linker.Segments

/-!
# Damaged images

The region of a module is as large as its segments are in memory, but what is
copied into it is what they have in the file. The copy of a segment that is cut
off in the file is skipped, and nothing keeps a copy inside the region.
-/

namespace AnotherPs4

open Rust RangeMap Transition

namespace Module

variable {p : Profile}

/-- The segments are in memory with all their bytes, and all that was copied
went into the region of the module. -/
structure Intact (p : Profile) (module : Module) (ram : Ram) : Prop where
  inFile : ∀ entry ∈ module.elf.programHeaders.zipIdx, entry.1.phdrType = .load →
    0 < entry.1.filesz → ∃ src,
      (module.elf.resolveFileOffset p entry.2 entry.1 : Outcome Empty Nat) = .ok src ∧
      src + entry.1.filesz ≤ module.elf.data.length
  present : ∀ vaddr byte, module.elf.SegmentByte p vaddr byte → ram (module.cell vaddr) = byte
  inside : ∀ block ∈ segmentBlocks p module.elf module.baseVirtualAddr module.minAddr,
    ∀ k < block.2.length, module.baseVirtualAddr ≤ (block.1 + k) % 2 ^ 64 ∧
      (block.1 + k) % 2 ^ 64 < module.baseVirtualAddr + module.alignedBaseSize

/-- A load fails with an error, or with an intact module. -/
inductive EndsIntact (p : Profile) (elf : Elf) :
    Outcome Empty (Except LinkError Module × Guest × Nat) → Prop where
  | refused {e guest tls} : EndsIntact p elf (.ok (.error e, guest, tls))
  | loaded {module guest tls} : module.elf = elf → module.Intact p guest.ram →
      EndsIntact p elf (.ok (.ok module, guest, tls))

/-- The load of a file fails before anything is copied, or finds a file that can
be copied whole and trips over nothing else in it. -/
inductive LoadsIntact (p : Profile) (sys : Sys) (path : Path) (elf : Elf) (guest : Guest)
    (maxTlsIndex : Nat) : Prop where
  | noSegments {maxAddr} : loadRange p elf.loadSegments = .ok (2 ^ 64 - 1, maxAddr) →
      LoadsIntact p sys path elf guest maxTlsIndex
  | noMemory {minAddr alignedBaseSize e mapped} : Extent p elf minAddr alignedBaseSize →
      guest.mapMemory p sys alignedBaseSize codeProt .code (moduleName path)
        = .ok (.error e, mapped) →
      LoadsIntact p sys path elf guest maxTlsIndex
  | mapped {minAddr alignedBaseSize base mapped} : Extent p elf minAddr alignedBaseSize →
      guest.mapMemory p sys alignedBaseSize codeProt .code (moduleName path)
        = .ok (.ok base, mapped) →
      CopiesWhole p elf minAddr alignedBaseSize → Loadable p elf base minAddr maxTlsIndex →
      LoadsIntact p sys path elf guest maxTlsIndex

/-- A segment has a file offset once its copy returned, and bytes in the file do
not wrap around. -/
theorem copySegment_held {elf : Elf} {base minAddr : Nat} {ram ram' : Ram}
    {entry : ProgramHeader × Nat} (load : entry.1.phdrType = .load)
    (word : entry.1.filesz < 2 ^ 64)
    (returned : copySegment p elf base minAddr ram entry = .ok ram') :
    ∃ src, (elf.resolveFileOffset p entry.2 entry.1 : Outcome Empty Nat) = .ok src ∧
      (0 < entry.1.filesz → src + entry.1.filesz ≤ elf.data.length →
        src + entry.1.filesz < 2 ^ 64) := by
  obtain ⟨ph, phIdx⟩ := entry
  unfold copySegment at returned
  dsimp only at load word returned ⊢
  rw [if_neg (not_not.mpr load)] at returned
  obtain ⟨destAddr, -, returned⟩ := Outcome.bind_eq_ok.mp returned
  obtain ⟨src, resolved, returned⟩ := Outcome.bind_eq_ok.mp returned
  refine ⟨src, resolved, fun nonempty inFile => ?_⟩
  rw [if_pos nonempty] at returned
  obtain ⟨stop, added, returned⟩ := Outcome.bind_eq_ok.mp returned
  obtain rfl := Profile.add_eq_ok added
  -- a sum that wraps lies before its start, and slicing panics
  rw [if_pos ((Nat.mod_le _ _).trans inFile)] at returned
  obtain ⟨bytes, sliced, -⟩ := Outcome.bind_eq_ok.mp returned
  obtain ⟨⟨ordered, -⟩, -⟩ := slice_eq_ok.mp sliced
  omega

/-- What a load leaves is intact exactly if the file could be copied whole. -/
theorem Placed.intact_iff {module : Module} {ram ram' : Ram} {tableStart : Nat}
    (placed : Placed p module ram ram') (readFrom : module.elf.ReadFrom tableStart)
    (extent : Extent p module.elf module.minAddr module.alignedBaseSize)
    (bounded : module.baseVirtualAddr + module.alignedBaseSize < 2 ^ 64) :
    module.Intact p ram' ↔ CopiesWhole p module.elf module.minAddr module.alignedBaseSize := by
  have words : ∀ ph ∈ module.elf.loadSegments, ph.vaddr < 2 ^ 64 := fun ph listed =>
    (readFrom.words (List.mem_of_mem_filter listed)).vaddr
  have copied := copySegments_eq_ok readFrom (fun _ member => List.fst_mem_of_mem_zipIdx member)
    extent.min_word placed.copied
  constructor
  · rintro ⟨inFile, present, inside⟩
    have held : HoldsSegments p module.elf := by
      intro entry member load
      obtain ⟨_, _, returned⟩ := Outcome.foldlM_step placed.copied member
      have word := (readFrom.words (List.fst_mem_of_mem_zipIdx member)).filesz
      obtain ⟨src, resolved, straight⟩ := copySegment_held load word returned
      refine ⟨src, resolved, fun nonempty => ?_⟩
      obtain ⟨src', resolved', within⟩ := inFile entry member load nonempty
      obtain rfl := Outcome.ok.inj (resolved.symm.trans resolved')
      exact ⟨straight nonempty within, within⟩
    refine ⟨held, (blocks_inside_iff words extent bounded held).mp inside, ?_⟩
    intro vaddr a b first second
    rw [← present vaddr a first, present vaddr b second]
  · intro whole
    refine ⟨fun entry member load nonempty => ?_, fun vaddr byte stored => ?_,
      (blocks_inside_iff words extent bounded whole.held).mpr whole.room⟩
    · obtain ⟨src, resolved, held⟩ := whole.held entry member load
      exact ⟨src, resolved, (held nonempty).2⟩
    · rw [copied]
      exact whole.present words extent bounded ram stored

section Ends

variable {sys : Sys} {path : Path} {elf : Elf} {guest : Guest} {maxTlsIndex tableStart : Nat}
  (readFrom : elf.ReadFrom tableStart)
  (bounded : ∀ {minAddr alignedBaseSize base mapped}, Extent p elf minAddr alignedBaseSize →
    guest.mapMemory p sys alignedBaseSize codeProt .code (moduleName path)
      = .ok (.ok base, mapped) → base + alignedBaseSize < 2 ^ 64)

include readFrom bounded

theorem EndsIntact.loadsIntact
    (ends : EndsIntact p elf (loadElf p sys path elf guest maxTlsIndex)) :
    LoadsIntact p sys path elf guest maxTlsIndex := by
  generalize result : loadElf p sys path elf guest maxTlsIndex = outcome at ends
  cases ends with
  | refused =>
    obtain ⟨-, ⟨-, maxAddr, ranged⟩ | ⟨minAddr, alignedBaseSize, e, extent, call⟩⟩ :=
      loadElf_eq_error result
    · exact .noSegments ranged
    · exact .noMemory extent call
  | loaded same intact =>
    obtain ⟨extent, mapped, call, -, -, -, fields, -⟩ := loadElf_eq_ok result
    subst same
    have whole := (fields.intact_iff readFrom extent (bounded extent call)).mp intact
    rw [loadElf_eq_place extent call, Outcome.bind_eq_ok] at result
    obtain ⟨placed, found, -⟩ := result
    exact .mapped extent call whole ((place_returns whole.held _ _ _ _ _ _).mp ⟨placed, found⟩)

theorem LoadsIntact.endsIntact (loads : LoadsIntact p sys path elf guest maxTlsIndex) :
    EndsIntact p elf (loadElf p sys path elf guest maxTlsIndex) := by
  cases loads with
  | noSegments ranged =>
    have failed : loadElf p sys path elf guest maxTlsIndex =
        .ok (.error (.noLoadSegments (moduleName path)), guest, maxTlsIndex) := by
      unfold loadElf
      rw [ranged]
      rfl
    rw [failed]
    exact .refused
  | noMemory extent call =>
    rw [loadElf_eq_refused extent call]
    exact .refused
  | mapped extent call whole loadable =>
    rw [loadElf_eq_place extent call]
    obtain ⟨⟨module, ram, tls⟩, placed⟩ := (place_returns whole.held path _ _ _ _ _).mpr loadable
    rw [placed]
    obtain ⟨-, -, rfl, rfl, rfl, rfl, fields⟩ := place_eq_ok placed
    exact .loaded rfl ((fields.intact_iff readFrom extent (bounded extent call)).mpr whole)

end Ends

/-- In any state of the linker, the load of a parsed file fails with an error or
leaves an intact module exactly if it fails before anything is copied, or its
segments can be copied whole and nothing in it makes the load panic. -/
theorem load_endsIntact_iff (p : Profile) {sys : Sys} (lawful : sys.Lawful) {boot : HostBoot}
    (bootLawful : boot.Lawful) {guest : Guest}
    (booted : MemoryManager.new boot = .ok guest.memory) {hleSymbols : SymbolResolver}
    {calls : List (Path × Except LinkError Nat)} {linker : Linker}
    (run : Trace (Linker.LoadCall p sys) (Linker.registered guest hleSymbols) calls linker)
    {path : Path} {elf : Elf} (opened : Elf.openBytes p (sys.read path) = .ok elf) :
    EndsIntact p elf (load p sys path linker.guest linker.maxTlsIndex) ↔
      LoadsIntact p sys path elf linker.guest linker.maxTlsIndex := by
  have running := Linker.Running.calls lawful bootLawful booted run
  obtain ⟨-, tableStart, readFrom⟩ := Elf.openBytes_readFrom opened
  have bounded {minAddr alignedBaseSize base : Nat} {mapped : Guest}
      (extent : Extent p elf minAddr alignedBaseSize)
      (call : linker.guest.mapMemory p sys alignedBaseSize codeProt .code (moduleName path)
        = .ok (.ok base, mapped)) : base + alignedBaseSize < 2 ^ 64 := by
    obtain ⟨_, _, -, -, rounded⟩ := extent.range
    exact ((mapMemory_region lawful running.sound.regional rounded call).bounded running.fixedSize
      running.bounded).trans_lt (by decide)
  unfold load
  rw [opened]
  exact ⟨fun ends => ends.loadsIntact readFrom bounded, fun loads => loads.endsIntact readFrom bounded⟩

theorem load_endsIntact_iff_code :
    ∃ elf, Elf.openBytes .dev (.ok (codeImage 0 [0x90, 0xC3])) = .ok elf ∧
      EndsIntact .dev elf
        (load .dev (.single (codeImage 0 [0x90, 0xC3])) (.new "libc.prx") .booted 0) := by
  obtain ⟨elf, mapped, opened, wellFormed, extent, call, loadable⟩ := codeImage_ready
  have run : Trace (Linker.LoadCall .dev (.single (codeImage 0 [0x90, 0xC3])))
      (Linker.registered .booted .new) [] (Linker.registered .booted .new) := .nil
  exact ⟨elf, opened, (load_endsIntact_iff .dev (fun _ => Host.roomy_lawful)
    HostBoot.low_lawful MemoryManager.new_low run opened).mpr
    (.mapped extent call (wellFormed.copiesWhole extent pageSize_pos) loadable)⟩

/-- An image cut off after two of the four bytes of its segment. -/
def truncatedImage : List UInt8 := entryHeaderBytes 0 1 ++ loadHeaderBytes 120 0 4 4 ++ [0x90, 0xC3]

/-- An image whose second segment has two bytes in the file and none in memory. -/
def overfullImage : List UInt8 :=
  entryHeaderBytes 0 2 ++ loadHeaderBytes 176 0 2 2 ++ loadHeaderBytes 178 0x4000 2 0 ++
    [0x90, 0xC3, 0x0F, 0x0B]

def loadedCell (data : List UInt8) (addr : Nat) : Option UInt8 :=
  match load .dev (.single data) (.new "libc.prx") .booted 0 with
  | .ok (.ok _, guest, _) => some (guest.ram addr)
  | _ => none

theorem not_endsIntact {elf : Elf} {result : Outcome Empty (Except LinkError Module × Guest × Nat)}
    {module : Module} (found : loadedModule result = some module)
    (damaged : ∀ ram, ¬ module.Intact p ram) : ¬ EndsIntact p elf result := by
  obtain ⟨guest, tls, rfl⟩ := loadedModule_eq_some found
  rintro (_ | ⟨-, intact⟩)
  exact damaged _ intact

/-- The first image is loaded without its code, the second one writes behind its
region of one page. -/
theorem load_not_endsIntact :
    (∃ elf, Elf.openBytes .dev (.ok truncatedImage) = .ok elf ∧
      loadedCell truncatedImage 0x1000000000 = some 0 ∧
      ¬ EndsIntact .dev elf (load .dev (.single truncatedImage) (.new "libc.prx") .booted 0)) ∧
    ∃ elf, Elf.openBytes .dev (.ok overfullImage) = .ok elf ∧
      loadedCell overfullImage 0x1000004000 = some 0x0F ∧
      ¬ EndsIntact .dev elf (load .dev (.single overfullImage) (.new "libc.prx") .booted 0) := by
  constructor
  · have facts : (loadedModule (load .dev (.single truncatedImage) (.new "libc.prx") .booted 0)).map
        (fun m => (m.elf.isSelf, m.elf.data.length, m.elf.programHeaders)) =
        some (false, 122, [{ codeSegment 120 with filesz := 4, memsz := 4 }]) := by decide +kernel
    obtain ⟨module, found, same⟩ := Option.map_eq_some_iff.mp facts
    simp only [Prod.mk.injEq] at same
    obtain ⟨plain, size, headers⟩ := same
    obtain ⟨guest, tls, loaded⟩ := loadedModule_eq_some found
    refine ⟨module.elf, (load_eq_ok loaded).1, by decide +kernel, not_endsIntact found ?_⟩
    intro ram intact
    obtain ⟨src, resolved, inFile⟩ := intact.inFile _ (by rw [headers]; exact List.mem_singleton_self _)
      rfl (by decide)
    rw [Elf.resolveFileOffset, Elf.resolveFileOffsetInternal, plain] at resolved
    cases resolved
    rw [size] at inFile
    exact absurd inFile (by decide)
  · have facts : (loadedModule (load .dev (.single overfullImage) (.new "libc.prx") .booted 0)).map
        (fun m => (m.block, segmentBlocks .dev m.elf m.baseVirtualAddr m.minAddr)) =
        some ((0x1000000000, 0x4000),
          [(0x1000000000, [0x90, 0xC3]), (0x1000004000, [0x0F, 0x0B])]) := by decide +kernel
    obtain ⟨module, found, same⟩ := Option.map_eq_some_iff.mp facts
    obtain ⟨block, blocks⟩ := Prod.mk.inj same
    obtain ⟨base, size⟩ := Prod.mk.inj block
    obtain ⟨guest, tls, loaded⟩ := loadedModule_eq_some found
    refine ⟨module.elf, (load_eq_ok loaded).1, by decide +kernel, not_endsIntact found ?_⟩
    intro ram intact
    have written := (intact.inside (0x1000004000, [0x0F, 0x0B]) (by rw [blocks]; simp) 0
      (by decide)).2
    rw [base, size] at written
    exact absurd written (by decide)

end Module

end AnotherPs4
