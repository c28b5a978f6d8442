import AnotherPs4.Linker.Linker
import AnotherPs4.Linker.Loading
import AnotherPs4.Loader.Opened

/-!
# The load bias

An address of the file is loaded at the base of its module minus the lowest
address of its segments. Loading translates every address like that; the entry
point and the relocations only add the base.
-/

namespace AnotherPs4

open Rust

namespace Module

variable {p : Profile}

/-- `base + vaddr - min_addr` modulo 2^64 -/
def cellAt (base minAddr vaddr : Nat) : Nat := (base + vaddr + (2 ^ 64 - minAddr)) % 2 ^ 64

/-- The cell that holds the address `vaddr` of the file. -/
def cell (module : Module) (vaddr : Nat) : Nat :=
  cellAt module.baseVirtualAddr module.minAddr vaddr

theorem translate_eq_ok {base minAddr vaddr addr : Nat} (word : minAddr < 2 ^ 64)
    (returned : translate p base minAddr vaddr = .ok addr) : addr = cellAt base minAddr vaddr := by
  obtain ⟨sum, added, subtracted⟩ := Outcome.bind_eq_ok.mp returned
  obtain rfl := Profile.add_eq_ok added
  rw [Profile.sub_eq_ok (Nat.mod_lt _ (by decide)) subtracted]
  unfold cellAt
  omega

theorem translateOr0_eq_ok {base minAddr vaddr addr : Nat} {found : Option Nat}
    (word : minAddr < 2 ^ 64) (returned : translateOr0 p base minAddr found = .ok addr)
    (present : found = some vaddr) : addr = cellAt base minAddr vaddr := by
  subst present
  exact translate_eq_ok word returned

theorem loadRange_fst {segments : List ProgramHeader} {minAddr maxAddr : Nat}
    (ranged : loadRange p segments = .ok (minAddr, maxAddr)) :
    minAddr = segments.foldl (fun low ph => min low ph.vaddr) (2 ^ 64 - 1) := by
  refine Outcome.foldlM_component (g := Prod.fst) (h := fun low ph => min low ph.vaddr)
    (fun {s x s'} step => ?_) ranged
  obtain ⟨segEnd, -, returned⟩ := Outcome.bind_eq_ok.mp step
  cases returned
  rfl

theorem foldl_min_le (segments : List ProgramHeader) (start : Nat) :
    segments.foldl (fun low ph => min low ph.vaddr) start ≤ start ∧
      ∀ ph ∈ segments, segments.foldl (fun low ph => min low ph.vaddr) start ≤ ph.vaddr := by
  induction segments generalizing start with
  | nil => simp
  | cons first rest ih =>
    obtain ⟨below, belowAll⟩ := ih (min start first.vaddr)
    rw [List.foldl_cons]
    refine ⟨by omega, fun ph member => ?_⟩
    rcases List.mem_cons.mp member with rfl | member
    · omega
    · exact belowAll ph member

theorem foldl_min_eq_zero {segments : List ProgramHeader} {start : Nat} (above : 0 < start) :
    segments.foldl (fun low ph => min low ph.vaddr) start = 0 ↔ ∃ ph ∈ segments, ph.vaddr = 0 := by
  induction segments generalizing start with
  | nil => simpa using above.ne'
  | cons first rest ih =>
    rw [List.foldl_cons]
    simp only [List.mem_cons, exists_eq_or_imp]
    by_cases zero : first.vaddr = 0
    · have below := (foldl_min_le rest (min start first.vaddr)).1
      exact iff_of_true (by omega) (.inl zero)
    · rw [ih (by omega), or_iff_right zero]

theorem Extent.min_eq_zero {elf : Elf} {minAddr alignedBaseSize : Nat}
    (extent : Extent p elf minAddr alignedBaseSize) :
    minAddr = 0 ↔ ∃ ph ∈ elf.loadSegments, ph.vaddr = 0 := by
  obtain ⟨maxAddr, size, ranged, -, -⟩ := extent.range
  rw [loadRange_fst ranged, foldl_min_eq_zero (by decide)]

theorem Extent.min_word {elf : Elf} {minAddr alignedBaseSize : Nat}
    (extent : Extent p elf minAddr alignedBaseSize) : minAddr < 2 ^ 64 := by
  obtain ⟨maxAddr, size, ranged, -, -⟩ := extent.range
  have below := (foldl_min_le elf.loadSegments (2 ^ 64 - 1)).1
  rw [← loadRange_fst ranged] at below
  omega

theorem Extent.min_le {elf : Elf} {minAddr alignedBaseSize : Nat}
    (extent : Extent p elf minAddr alignedBaseSize) {ph : ProgramHeader}
    (listed : ph ∈ elf.loadSegments) : minAddr ≤ ph.vaddr := by
  obtain ⟨maxAddr, size, ranged, -, -⟩ := extent.range
  rw [loadRange_fst ranged]
  exact (foldl_min_le elf.loadSegments _).2 ph listed

/-- Address and bytes of a load segment that the file holds. -/
def segmentContents (p : Profile) (elf : Elf) (entry : ProgramHeader × Nat) :
    Option (Nat × List UInt8) :=
  let (ph, phIdx) := entry
  if ph.phdrType ≠ .load then none
  else match (elf.resolveFileOffset p phIdx ph : Outcome Empty Nat) with
    | .ok src =>
      if 0 < ph.filesz ∧ src + ph.filesz ≤ elf.data.length then
        some (ph.vaddr, bytesAt elf.data src ph.filesz)
      else none
    | _ => none

def loadContents (p : Profile) (elf : Elf) : List (Nat × List UInt8) :=
  elf.programHeaders.zipIdx.filterMap (segmentContents p elf)

theorem copySegment_eq_ok {elf : Elf} {base minAddr tableStart : Nat} {ram ram' : Ram}
    {entry : ProgramHeader × Nat} (readFrom : elf.ReadFrom tableStart)
    (member : entry.1 ∈ elf.programHeaders) (word : minAddr < 2 ^ 64)
    (returned : copySegment p elf base minAddr ram entry = .ok ram') :
    ram' = (segmentContents p elf entry).elim ram fun (vaddr, bytes) =>
      ram.write (cellAt base minAddr vaddr) bytes := by
  obtain ⟨ph, phIdx⟩ := entry
  unfold copySegment segmentContents at *
  dsimp only at returned ⊢
  split at returned
  · next other =>
      cases returned
      rw [if_pos other]
      rfl
  · next load =>
    obtain ⟨destAddr, translated, returned⟩ := Outcome.bind_eq_ok.mp returned
    obtain ⟨src, resolved, returned⟩ := Outcome.bind_eq_ok.mp returned
    have srcWord : src < 2 ^ 64 := readFrom.resolved_word member resolved
    have fileWord : ph.filesz < 2 ^ 64 := (readFrom.words member).filesz
    obtain rfl := translate_eq_ok word translated
    rw [if_neg load, resolved]
    dsimp only
    split at returned
    · next nonempty =>
      obtain ⟨stop, added, returned⟩ := Outcome.bind_eq_ok.mp returned
      have wrapped := Profile.add_eq_ok added
      split at returned
      · next inFile =>
        obtain ⟨bytes, sliced, returned⟩ := Outcome.bind_eq_ok.mp returned
        obtain ⟨⟨ordered, -⟩, rfl⟩ := slice_eq_ok.mp sliced
        obtain rfl : stop = src + ph.filesz := by omega
        cases returned
        rw [if_pos ⟨nonempty, inFile⟩, List.drop_take, Nat.add_sub_cancel_left]
        rfl
      · next beyond =>
        cases returned
        rw [if_neg (by omega)]
        rfl
    · next empty =>
      cases returned
      rw [if_neg (fun both => empty both.1)]
      rfl

theorem copySegments_eq_ok {elf : Elf} {base minAddr tableStart : Nat} {ram ram' : Ram}
    {entries : List (ProgramHeader × Nat)} (readFrom : elf.ReadFrom tableStart)
    (members : ∀ entry ∈ entries, entry.1 ∈ elf.programHeaders) (word : minAddr < 2 ^ 64)
    (returned : entries.foldlM (copySegment p elf base minAddr) ram = .ok ram') :
    ram' = ram.writeAll ((entries.filterMap (segmentContents p elf)).map fun (vaddr, bytes) =>
      (cellAt base minAddr vaddr, bytes)) := by
  induction entries generalizing ram with
  | nil =>
    cases returned
    rfl
  | cons entry rest ih =>
    rw [List.foldlM_cons, Outcome.bind_eq_ok] at returned
    obtain ⟨copied, first, later⟩ := returned
    have here := copySegment_eq_ok readFrom (members entry (by simp)) word first
    have there := ih (fun e member => members e (List.mem_cons_of_mem _ member)) later
    rw [there, here]
    cases contents : segmentContents p elf entry <;> simp [contents, Ram.writeAll]

/-- Everything a load and the linker make of an address of the file is its cell.
The entry point and the relocations are those of any later run, in any build. -/
structure OneBias (p : Profile) (module : Module) (ram ram' : Ram) : Prop where
  segments : ram' = (ram.zero module.baseVirtualAddr (roundUp module.alignedBaseSize pageSize)
    ).writeAll ((loadContents p module.elf).map fun (vaddr, bytes) => (module.cell vaddr, bytes))
  entry : ∀ (q : Profile) (linker : Linker) addr, linker.mainModule = some module →
    linker.entryPoint q = .ok (some addr) → addr = module.cell module.elf.entryPoint
  relocations : ∀ (q : Profile) hleSymbols stubs stubs' store, ∀ reloc ∈ module.relocations,
    relocationStore q reloc module.baseVirtualAddr hleSymbols stubs = .ok (some store, stubs') →
    store.addr = module.cell reloc.offset ∧
      (reloc.isRelative → store.value = module.cell (unsigned 64 reloc.addend))
  initArray : ∀ vaddr, module.elf.dynamicValue dtInitArray = some vaddr →
    module.initArrayAddr = module.cell vaddr
  init : ∀ vaddr, module.elf.dynamicValue dtInit = some vaddr →
    module.initAddr = module.cell vaddr
  procParam : ∀ ph, module.elf.procParamHeader = some ph →
    module.procParamAddr = module.cell ph.vaddr
  ehFrame : ∀ ph, module.elf.ehFrameHeader = some ph → module.ehFrameHdrAddr = module.cell ph.vaddr
  tlsImage : ∀ ph, module.elf.tlsHeader = some ph → module.tlsImageAddr = module.cell ph.vaddr

/-- An address the linker computes is the cell only where the bias is the base. -/
theorem cell_eq_add_base {module : Module} (word : module.minAddr < 2 ^ 64) (vaddr : Nat) :
    (module.baseVirtualAddr + vaddr) % 2 ^ 64 = module.cell vaddr ↔ module.minAddr = 0 := by
  unfold cell cellAt
  omega

theorem relocationStore_addr {reloc : ParsedRelocation} {base : Nat} {hleSymbols : SymbolResolver}
    {stubs stubs' : Option StubAllocator} {store : Store}
    (returned : relocationStore p reloc base hleSymbols stubs = .ok (some store, stubs')) :
    store.addr = (base + reloc.offset) % 2 ^ 64 ∧
      (reloc.isRelative → store.value = (base + unsigned 64 reloc.addend) % 2 ^ 64) := by
  unfold relocationStore at returned
  obtain ⟨targetAddr, added, returned⟩ := Outcome.bind_eq_ok.mp returned
  obtain rfl := Profile.add_eq_ok added
  dsimp only at returned
  split at returned
  · cases returned
    exact ⟨rfl, fun _ => rfl⟩
  · next other =>
    refine ⟨?_, fun relative => absurd relative other⟩
    split at returned
    · cases returned
      rfl
    · split at returned
      · cases returned
        rfl
      · cases returned

theorem oneBias_iff_minAddr {sys : Sys} {path : Path} {guest guest' : Guest} {tls tls' : Nat}
    {module : Module} (loaded : load p sys path guest tls = .ok (.ok module, guest', tls')) :
    OneBias p module guest.ram guest'.ram ↔ module.minAddr = 0 := by
  obtain ⟨opened, returned⟩ := load_eq_ok loaded
  obtain ⟨extent, mapped, call, -, -, -, placed, -⟩ := loadElf_eq_ok returned
  obtain ⟨-, tableStart, readFrom⟩ := Elf.openBytes_readFrom opened
  have word := extent.min_word
  constructor
  · intro oneBias
    let linker : Linker := { Linker.new guest' with modules := [module] }
    have entered : linker.entryPoint .release =
        .ok (some ((module.baseVirtualAddr + module.elf.entryPoint) % 2 ^ 64)) := by
      simp only [linker, Linker.entryPoint, Linker.mainModule, List.head?_cons,
        Profile.add_release, Outcome.ok_bind, Outcome.pure_eq_ok]
    exact (cell_eq_add_base word _).mp (oneBias.entry .release linker _ rfl entered)
  · intro zero
    have added (vaddr : Nat) := (cell_eq_add_base word vaddr).mpr zero
    obtain ⟨-, fresh⟩ := Guest.mapMemory_eq_ok call
    refine {
      segments := ?_
      entry := ?_
      relocations := ?_
      initArray := fun vaddr => translateOr0_eq_ok word placed.initArray
      init := fun vaddr => translateOr0_eq_ok word placed.init
      procParam := fun ph found => translateOr0_eq_ok word placed.procParam (by rw [found]; rfl)
      ehFrame := fun ph found => translateOr0_eq_ok word placed.ehFrame (by rw [found]; rfl)
      tlsImage := fun ph found => translateOr0_eq_ok word placed.tlsImage (by rw [found]; rfl) }
    · have copied := copySegments_eq_ok readFrom (fun entry member => ?_) word placed.copied
      · rw [copied, fresh]
        rfl
      · exact List.fst_mem_of_mem_zipIdx member
    · intro q linker addr main entered
      unfold Linker.entryPoint at entered
      rw [main] at entered
      obtain ⟨sum, addition, returned⟩ := Outcome.bind_eq_ok.mp entered
      cases returned
      rw [Profile.add_eq_ok addition, added]
    · intro q hleSymbols stubs stubs' store reloc _ stored
      obtain ⟨addr, value⟩ := relocationStore_addr stored
      exact ⟨addr.trans (added _), fun relative => (value relative).trans (added _)⟩

/-- One load bias is used everywhere exactly for the files with a load segment
at address 0. -/
theorem oneBias_iff (p : Profile) {sys : Sys} {path : Path} {guest guest' : Guest} {tls tls' : Nat}
    {module : Module} (loaded : load p sys path guest tls = .ok (.ok module, guest', tls')) :
    OneBias p module guest.ram guest'.ram ↔ ∃ ph ∈ module.elf.loadSegments, ph.vaddr = 0 := by
  obtain ⟨-, returned⟩ := load_eq_ok loaded
  obtain ⟨extent, -⟩ := loadElf_eq_ok returned
  rw [oneBias_iff_minAddr loaded, extent.min_eq_zero]

def loadedModule : Outcome Empty (Except LinkError Module × Guest × Nat) → Option Module
  | .ok (.ok module, _) => some module
  | _ => none

theorem loadedModule_eq_some {result : Outcome Empty (Except LinkError Module × Guest × Nat)}
    {module : Module} (found : loadedModule result = some module) :
    ∃ guest tls, result = .ok (.ok module, guest, tls) := by
  unfold loadedModule at found
  split at found
  · next module' rest =>
      cases found
      exact ⟨rest.1, rest.2, rfl⟩
  · cases found

end Module

def entryHeaderBytes (entry phnum : Nat) : List UInt8 :=
  elfMagic ++ [2, 1, 1] ++ List.replicate 9 0 ++ leBytes 2 0xFE10 ++ leBytes 2 62 ++ leBytes 4 1 ++
    leBytes 8 entry ++ leBytes 8 64 ++ leBytes 8 0 ++ leBytes 4 0 ++ leBytes 2 64 ++
    leBytes 2 56 ++ leBytes 2 phnum ++ leBytes 2 0 ++ leBytes 2 0 ++ leBytes 2 0

def loadHeaderBytes (offset vaddr filesz memsz : Nat) : List UInt8 :=
  leBytes 4 1 ++ leBytes 4 5 ++ leBytes 8 offset ++ leBytes 8 vaddr ++ leBytes 8 vaddr ++
    leBytes 8 filesz ++ leBytes 8 memsz ++ leBytes 8 pageSize

def codeImage (vaddr : Nat) (code : List UInt8) : List UInt8 :=
  entryHeaderBytes vaddr 1 ++ loadHeaderBytes 120 vaddr code.length code.length ++ code

def tableHeaderBytes (type offset filesz : Nat) : List UInt8 :=
  leBytes 4 type ++ leBytes 4 4 ++ leBytes 8 offset ++ leBytes 8 0 ++ leBytes 8 0 ++
    leBytes 8 filesz ++ leBytes 8 filesz ++ leBytes 8 8

def dynamicImage (code : List UInt8) (entries : List (Nat × Nat)) (dynlibData : List UInt8) :
    List UInt8 :=
  entryHeaderBytes 0 3 ++ loadHeaderBytes 232 0 code.length code.length ++
    tableHeaderBytes 2 (232 + code.length) (16 * entries.length) ++
    tableHeaderBytes 0x61000000 (232 + code.length + 16 * entries.length) dynlibData.length ++
    code ++ entries.flatMap (fun entry => leBytes 8 entry.1 ++ leBytes 8 entry.2) ++ dynlibData

def dynlibEntries (symtabSz strtabSz relaSz : Nat) : List (Nat × Nat) :=
  [(0x61000039, 0), (0x6100003F, symtabSz), (0x61000035, symtabSz), (0x61000037, strtabSz),
   (0x6100002F, symtabSz + strtabSz), (0x61000031, relaSz)]

def symbolBytes (nameOffset shndx value : Nat) : List UInt8 :=
  leBytes 4 nameOffset ++ [0x12, 0] ++ leBytes 2 shndx ++ leBytes 8 value ++ leBytes 8 0

def relocationBytes (offset symbol relType addend : Nat) : List UInt8 :=
  leBytes 8 offset ++ leBytes 8 (symbol * 2 ^ 32 + relType) ++ leBytes 8 addend

/-- An image with symbols, names, relocations, and needed modules by their names' offsets. -/
def symbolImage (code symbols strings relocations : List UInt8) (needed : List Nat := []) :
    List UInt8 :=
  dynamicImage code
    (dynlibEntries symbols.length strings.length relocations.length ++ needed.map (1, ·))
    (symbols ++ strings ++ relocations)

/-- A string table, with the first name at offset 1. -/
def nameBytes (names : List String) : List UInt8 :=
  0 :: names.flatMap fun name => name.toUTF8.toList ++ [0]

def Sys.single (data : List UInt8) : Sys where
  read _ := .ok data
  pathExists _ := true
  kernel _ := .roomy

def Sys.files (disk : List (Path × List UInt8)) : Sys where
  read path := (disk.lookup path).elim (.error .notFound) .ok
  pathExists path := disk.any (·.1 == path)
  kernel _ := .roomy

def Guest.booted : Guest where
  memory := .booted
  ram := fun _ => 0
  mapCalls := 0

namespace Module

theorem oneBias_iff_at_zero :
    ∃ module guest' tls', load .dev (.single (codeImage 0 [0x90, 0xC3])) (.new "eboot.bin") .booted 0
        = .ok (.ok module, guest', tls') ∧
      OneBias .dev module Guest.booted.ram guest'.ram := by
  let result := load .dev (.single (codeImage 0 [0x90, 0xC3])) (.new "eboot.bin") .booted 0
  have zero : (loadedModule result).map (·.elf.loadSegments.map (·.vaddr)) = some [0] := by
    decide +kernel
  obtain ⟨module, found, segments⟩ := Option.map_eq_some_iff.mp zero
  obtain ⟨guest', tls', loaded⟩ := loadedModule_eq_some found
  refine ⟨module, guest', tls', loaded, (oneBias_iff .dev loaded).mpr ?_⟩
  obtain ⟨ph, member, start⟩ := List.mem_map.mp (segments ▸ List.mem_singleton_self 0)
  exact ⟨ph, member, start⟩

/-- An image linked at 0x4000 is entered a page after its first instruction. -/
theorem oneBias_fails_above_zero :
    ∃ module guest' tls', load .dev (.single (codeImage 0x4000 [0x90, 0xC3])) (.new "eboot.bin")
        .booted 0 = .ok (.ok module, guest', tls') ∧
      { Linker.new guest' with modules := [module] }.entryPoint .dev =
        .ok (some 0x1000004000) ∧
      module.cell module.elf.entryPoint = 0x1000000000 ∧
      ¬ OneBias .dev module Guest.booted.ram guest'.ram := by
  let result := load .dev (.single (codeImage 0x4000 [0x90, 0xC3])) (.new "eboot.bin") .booted 0
  have fields : (loadedModule result).map (fun m =>
      (m.baseVirtualAddr, m.minAddr, m.elf.entryPoint)) = some (0x1000000000, 0x4000, 0x4000) := by
    decide +kernel
  obtain ⟨module, found, same⟩ := Option.map_eq_some_iff.mp fields
  obtain ⟨guest', tls', loaded⟩ := loadedModule_eq_some found
  obtain ⟨base, minAddr, entry⟩ : module.baseVirtualAddr = 0x1000000000 ∧
      module.minAddr = 0x4000 ∧ module.elf.entryPoint = 0x4000 := by simpa using same
  refine ⟨module, guest', tls', loaded, ?_, ?_, ?_⟩
  · have added : (Profile.dev.add 64 0x1000000000 0x4000 : Outcome Empty Nat) =
        .ok 0x1000004000 := by decide
    simp [Linker.entryPoint, Linker.mainModule, base, entry, added]
  · simp [cell, cellAt, base, minAddr, entry]
  · rw [oneBias_iff_minAddr loaded, minAddr]
    decide

end Module

end AnotherPs4
