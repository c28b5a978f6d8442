import AnotherPs4.Linker.Module
import AnotherPs4.Memory.Calls

/-!
# Loads that succeeded

What `Module::load` has done when it returned a module, in terms of the parsed
file and of the memory it was given.
-/

namespace AnotherPs4

open Rust RangeMap

namespace Module

/-- The region of the module holds the segments of its file, and its fields say
what is where. -/
structure Placed (p : Profile) (module : Module) (ram ram' : Ram) : Prop where
  copied : module.elf.programHeaders.zipIdx.foldlM
    (copySegment p module.elf module.baseVirtualAddr module.minAddr) ram
    = (.ok ram' : Outcome Empty Ram)
  procParam : translateOr0 p module.baseVirtualAddr module.minAddr
    (module.elf.procParamHeader.map (·.vaddr)) = (.ok module.procParamAddr : Outcome Empty Nat)
  ehFrame : translateOr0 p module.baseVirtualAddr module.minAddr
    (module.elf.ehFrameHeader.map (·.vaddr)) = (.ok module.ehFrameHdrAddr : Outcome Empty Nat)
  relocations : parseRelocations p module.elf = (.ok module.relocations : Outcome Empty _)
  tlsImage : translateOr0 p module.baseVirtualAddr module.minAddr
    (module.elf.tlsHeader.map (·.vaddr)) = (.ok module.tlsImageAddr : Outcome Empty Nat)
  initArray : translateOr0 p module.baseVirtualAddr module.minAddr
    (module.elf.dynamicValue dtInitArray) = (.ok module.initArrayAddr : Outcome Empty Nat)
  init : translateOr0 p module.baseVirtualAddr module.minAddr
    (module.elf.dynamicValue dtInit) = (.ok module.initAddr : Outcome Empty Nat)
  needed : (module.elf.neededModules p : Outcome Empty _).Returns

theorem place_eq_ok {p : Profile} {path : Path} {elf : Elf} {base alignedBaseSize minAddr : Nat}
    {ram ram' : Ram} {tls tls' : Nat} {module : Module}
    (returned : place p path elf base alignedBaseSize minAddr ram tls
      = (.ok (module, ram', tls') : Outcome Empty _)) :
    module.name = moduleName path ∧ module.file = path ∧ module.elf = elf ∧
      module.baseVirtualAddr = base ∧
      module.alignedBaseSize = alignedBaseSize ∧ module.minAddr = minAddr ∧
      Placed p module ram ram' := by
  unfold place at returned
  obtain ⟨ram₁, copied, returned⟩ := Outcome.bind_eq_ok.mp returned
  obtain ⟨procParamAddr, procParam, returned⟩ := Outcome.bind_eq_ok.mp returned
  obtain ⟨ehFrameHdrAddr, ehFrame, returned⟩ := Outcome.bind_eq_ok.mp returned
  obtain ⟨relocations, parsed, returned⟩ := Outcome.bind_eq_ok.mp returned
  obtain ⟨tlsIndex, -, returned⟩ := Outcome.bind_eq_ok.mp returned
  obtain ⟨tlsImageAddr, tlsImage, returned⟩ := Outcome.bind_eq_ok.mp returned
  obtain ⟨initArrayAddr, initArray, returned⟩ := Outcome.bind_eq_ok.mp returned
  obtain ⟨initAddr, init, returned⟩ := Outcome.bind_eq_ok.mp returned
  obtain ⟨names, needed, returned⟩ := Outcome.bind_eq_ok.mp returned
  cases returned
  exact ⟨rfl, rfl, rfl, rfl, rfl, rfl, copied, procParam, ehFrame, parsed, tlsImage, initArray, init,
    names, needed⟩

def codeProt : MemoryProt := (MemoryProt.cpuRead.union .cpuWrite).union .cpuExec

/-- The region a load maps for a file. -/
structure Extent (p : Profile) (elf : Elf) (minAddr alignedBaseSize : Nat) : Prop where
  range : ∃ maxAddr size, loadRange p elf.loadSegments = (.ok (minAddr, maxAddr) : Outcome Empty _) ∧
    p.sub 64 maxAddr minAddr = (.ok size : Outcome Empty Nat) ∧
    alignUp p size pageSize = (.ok alignedBaseSize : Outcome Empty Nat)
  hasLoad : minAddr ≠ 2 ^ 64 - 1

theorem loadElf_eq_ok {p : Profile} {sys : Sys} {path : Path} {elf : Elf} {guest guest' : Guest}
    {tls tls' : Nat} {module : Module}
    (returned : loadElf p sys path elf guest tls = (.ok (.ok module, guest', tls') : Outcome Empty _)) :
    Extent p elf module.minAddr module.alignedBaseSize ∧ ∃ mapped,
      guest.mapMemory p sys module.alignedBaseSize codeProt .code (moduleName path)
        = (.ok (.ok module.baseVirtualAddr, mapped) : Outcome Empty _) ∧
      module.name = moduleName path ∧ module.file = path ∧ module.elf = elf ∧
      Placed p module mapped.ram guest'.ram ∧
      guest' = { mapped with ram := guest'.ram } := by
  unfold loadElf at returned
  obtain ⟨⟨minAddr, maxAddr⟩, ranged, returned⟩ := Outcome.bind_eq_ok.mp returned
  dsimp only at returned
  split at returned
  · cases returned
  · next hasLoad =>
    obtain ⟨size, difference, returned⟩ := Outcome.bind_eq_ok.mp returned
    obtain ⟨alignedBaseSize, aligned, returned⟩ := Outcome.bind_eq_ok.mp returned
    obtain ⟨⟨result, mapped⟩, call, returned⟩ := Outcome.bind_eq_ok.mp returned
    cases result with
    | error e => cases returned
    | ok base =>
      obtain ⟨⟨module', ram, tls''⟩, placed, returned⟩ := Outcome.bind_eq_ok.mp returned
      cases returned
      obtain ⟨name, file, rfl, rfl, rfl, rfl, fields⟩ := place_eq_ok placed
      exact ⟨⟨⟨maxAddr, size, ranged, difference, aligned⟩, hasLoad⟩, mapped, call, name,
        file, rfl, fields, rfl⟩

theorem load_eq_ok {p : Profile} {sys : Sys} {path : Path} {guest guest' : Guest}
    {tls tls' : Nat} {module : Module}
    (returned : load p sys path guest tls = (.ok (.ok module, guest', tls') : Outcome Empty _)) :
    Elf.openBytes p (sys.read path) = .ok module.elf ∧
    loadElf p sys path module.elf guest tls = (.ok (.ok module, guest', tls') : Outcome Empty _) := by
  unfold load at returned
  split at returned
  · next elf opened =>
    obtain ⟨-, _, -, -, -, rfl, -⟩ := loadElf_eq_ok returned
    exact ⟨opened, returned⟩
  · cases returned
  · cases returned

theorem loadElf_eq_error {p : Profile} {sys : Sys} {path : Path} {elf : Elf} {guest guest' : Guest}
    {tls tls' : Nat} {e : LinkError}
    (returned : loadElf p sys path elf guest tls = (.ok (.error e, guest', tls') : Outcome Empty _)) :
    tls' = tls ∧ ((guest' = guest ∧ ∃ maxAddr,
        loadRange p elf.loadSegments = (.ok (2 ^ 64 - 1, maxAddr) : Outcome Empty _)) ∨
      ∃ minAddr alignedBaseSize e', Extent p elf minAddr alignedBaseSize ∧
        guest.mapMemory p sys alignedBaseSize codeProt .code (moduleName path)
          = (.ok (.error e', guest') : Outcome Empty _)) := by
  unfold loadElf at returned
  obtain ⟨⟨minAddr, maxAddr⟩, ranged, returned⟩ := Outcome.bind_eq_ok.mp returned
  dsimp only at returned
  split at returned
  · next noSegments =>
    cases returned
    exact ⟨rfl, .inl ⟨rfl, maxAddr, noSegments ▸ ranged⟩⟩
  · next hasLoad =>
    obtain ⟨size, difference, returned⟩ := Outcome.bind_eq_ok.mp returned
    obtain ⟨alignedBaseSize, aligned, returned⟩ := Outcome.bind_eq_ok.mp returned
    obtain ⟨⟨result, mapped⟩, call, returned⟩ := Outcome.bind_eq_ok.mp returned
    cases result with
    | error e' =>
      cases returned
      exact ⟨rfl, .inr ⟨minAddr, alignedBaseSize, e',
        ⟨⟨maxAddr, size, ranged, difference, aligned⟩, hasLoad⟩, call⟩⟩
    | ok base =>
      obtain ⟨placed, -, returned⟩ := Outcome.bind_eq_ok.mp returned
      cases returned

theorem load_eq_error {p : Profile} {sys : Sys} {path : Path} {guest guest' : Guest}
    {tls tls' : Nat} {e : LinkError}
    (returned : load p sys path guest tls = (.ok (.error e, guest', tls') : Outcome Empty _)) :
    tls' = tls ∧ (guest' = guest ∨ ∃ size alignedBaseSize e',
      alignUp p size pageSize = (.ok alignedBaseSize : Outcome Empty Nat) ∧
      guest.mapMemory p sys alignedBaseSize codeProt .code (moduleName path)
        = (.ok (.error e', guest') : Outcome Empty _)) := by
  unfold load at returned
  split at returned
  · obtain ⟨counter, ⟨same, -⟩ | ⟨minAddr, alignedBaseSize, e', extent, call⟩⟩ :=
      loadElf_eq_error returned
    · exact ⟨counter, .inl same⟩
    · obtain ⟨maxAddr, size, -, -, aligned⟩ := extent.range
      exact ⟨counter, .inr ⟨size, alignedBaseSize, e', aligned, call⟩⟩
  · cases returned
    exact ⟨rfl, .inl rfl⟩
  · cases returned

end Module

def Guest.request (size : Nat) (prot : MemoryProt) (vmaType : VMAType) (name : String) :
    MapRequest :=
  { virtualAddr := 0, size, prot, flags := MemoryMapFlags.anonymous.union .priv, vmaType, name }

theorem Guest.request_not_fixed (size : Nat) (prot : MemoryProt) (vmaType : VMAType)
    (name : String) : ¬ (request size prot vmaType name).fixed :=
  fun fixed => fixed.1 rfl

def Sys.Lawful (sys : Sys) : Prop := ∀ n, (sys.kernel n).Lawful

theorem Guest.mapMemory_eq_ok {p : Profile} {sys : Sys} {guest guest' : Guest} {size : Nat}
    {prot : MemoryProt} {vmaType : VMAType} {name : String} {result : Except MemoryError Nat}
    (returned : guest.mapMemory p sys size prot vmaType name
      = (.ok (result, guest') : Outcome Empty _)) :
    (request size prot vmaType name).call p (sys.kernel guest.mapCalls) guest.memory
        = .ok (result, guest'.memory) ∧
      guest'.ram = match result with
        | .ok addr => guest.ram.zero addr (roundUp size pageSize)
        | .error _ => guest.ram := by
  unfold mapMemory at returned
  obtain ⟨⟨mapped, memory⟩, call, returned⟩ := Outcome.bind_eq_ok.mp returned
  cases mapped <;> cases returned <;> exact ⟨call, rfl⟩

theorem Guest.mapMemory_withRam {p : Profile} {sys : Sys} {guest guest' : Guest}
    {size addr : Nat} {prot : MemoryProt} {vmaType : VMAType} {name : String} (ram : Ram)
    (call : guest.mapMemory p sys size prot vmaType name = .ok (.ok addr, guest')) :
    ∃ ram', ({ guest with ram } : Guest).mapMemory p sys size prot vmaType name =
      .ok (.ok addr, { guest' with ram := ram' }) := by
  obtain ⟨⟨mapped, memory⟩, called, same⟩ := Outcome.bind_eq_ok.mp call
  cases mapped with
  | error e => cases same
  | ok addr =>
    cases same
    refine ⟨ram.zero addr (roundUp size pageSize), ?_⟩
    unfold mapMemory
    dsimp only at called ⊢
    rw [called]
    rfl

namespace Module

variable {p : Profile}

theorem loadElf_eq_place {sys : Sys} {elf : Elf} {minAddr alignedBaseSize base : Nat}
    {path : Path} {guest mapped : Guest} (extent : Extent p elf minAddr alignedBaseSize)
    (call : guest.mapMemory p sys alignedBaseSize codeProt .code (moduleName path)
      = .ok (.ok base, mapped)) (maxTlsIndex : Nat) :
    loadElf p sys path elf guest maxTlsIndex =
      place p path elf base alignedBaseSize minAddr mapped.ram maxTlsIndex >>=
        fun (module, ram, tls) => .ok (.ok module, { mapped with ram }, tls) := by
  obtain ⟨maxAddr, size, ranged, difference, rounded⟩ := extent.range
  unfold loadElf
  rw [ranged, Outcome.ok_bind]
  dsimp only
  rw [if_neg extent.hasLoad, difference, Outcome.ok_bind, rounded, Outcome.ok_bind]
  change guest.mapMemory p sys alignedBaseSize codeProt .code (moduleName path) >>= _ = _
  rw [call]
  rfl

theorem loadElf_eq_refused {sys : Sys} {elf : Elf} {minAddr alignedBaseSize : Nat} {path : Path}
    {guest mapped : Guest} {e : MemoryError} (extent : Extent p elf minAddr alignedBaseSize)
    (call : guest.mapMemory p sys alignedBaseSize codeProt .code (moduleName path)
      = .ok (.error e, mapped)) (maxTlsIndex : Nat) :
    loadElf p sys path elf guest maxTlsIndex = .ok (.error (.memory e), mapped, maxTlsIndex) := by
  obtain ⟨maxAddr, size, ranged, difference, rounded⟩ := extent.range
  unfold loadElf
  rw [ranged, Outcome.ok_bind]
  dsimp only
  rw [if_neg extent.hasLoad, difference, Outcome.ok_bind, rounded, Outcome.ok_bind]
  change guest.mapMemory p sys alignedBaseSize codeProt .code (moduleName path) >>= _ = _
  rw [call]
  rfl

theorem copySegment_withRam {elf : Elf} {base minAddr : Nat} {ram ram' : Ram}
    {entry : ProgramHeader × Nat} (copied : copySegment p elf base minAddr ram entry = .ok ram')
    (other : Ram) : (copySegment p elf base minAddr other entry).Returns := by
  obtain ⟨ph, phIdx⟩ := entry
  unfold copySegment at copied ⊢
  dsimp only at copied ⊢
  split at copied
  · next skipped =>
    rw [if_pos skipped]
    exact Outcome.returns_ok _
  · next load =>
    obtain ⟨destAddr, dest, copied⟩ := Outcome.bind_eq_ok.mp copied
    obtain ⟨srcOffset, src, copied⟩ := Outcome.bind_eq_ok.mp copied
    rw [if_neg load, dest, Outcome.ok_bind, src, Outcome.ok_bind]
    split at copied
    · next nonempty =>
      obtain ⟨stop, added, copied⟩ := Outcome.bind_eq_ok.mp copied
      rw [if_pos nonempty, added, Outcome.ok_bind]
      split at copied
      · next inFile =>
        obtain ⟨bytes, sliced, -⟩ := Outcome.bind_eq_ok.mp copied
        rw [if_pos inFile, sliced]
        exact Outcome.returns_ok _
      · next beyond =>
        rw [if_neg beyond]
        exact Outcome.returns_ok _
    · next empty =>
      rw [if_neg empty]
      exact Outcome.returns_ok _

theorem copySegments_withRam {elf : Elf} {base minAddr : Nat}
    {entries : List (ProgramHeader × Nat)} {ram ram' : Ram}
    (copied : entries.foldlM (copySegment p elf base minAddr) ram = .ok ram') (other : Ram) :
    (entries.foldlM (copySegment p elf base minAddr) other).Returns := by
  induction entries generalizing ram other with
  | nil => exact Outcome.returns_ok _
  | cons entry rest inductionHypothesis =>
    rw [List.foldlM_cons] at copied ⊢
    obtain ⟨middle, first, later⟩ := Outcome.bind_eq_ok.mp copied
    obtain ⟨middle', first'⟩ := copySegment_withRam first other
    rw [first', Outcome.ok_bind]
    exact inductionHypothesis later middle'

theorem place_withRam {path : Path} {elf : Elf} {base alignedBaseSize minAddr tls tls' : Nat}
    {ram ram' : Ram} {module : Module}
    (placed : place p path elf base alignedBaseSize minAddr ram tls = .ok (module, ram', tls'))
    (other : Ram) : ∃ other', place p path elf base alignedBaseSize minAddr other tls =
      .ok (module, other', tls') := by
  unfold place at placed ⊢
  obtain ⟨ram₁, copied, placed⟩ := Outcome.bind_eq_ok.mp placed
  obtain ⟨other', copied'⟩ := copySegments_withRam copied other
  obtain ⟨procParamAddr, procParam, placed⟩ := Outcome.bind_eq_ok.mp placed
  obtain ⟨ehFrameHdrAddr, ehFrame, placed⟩ := Outcome.bind_eq_ok.mp placed
  obtain ⟨relocations, parsed, placed⟩ := Outcome.bind_eq_ok.mp placed
  obtain ⟨tlsIndex, numbered, placed⟩ := Outcome.bind_eq_ok.mp placed
  obtain ⟨tlsImageAddr, tlsImage, placed⟩ := Outcome.bind_eq_ok.mp placed
  obtain ⟨initArrayAddr, initArray, placed⟩ := Outcome.bind_eq_ok.mp placed
  obtain ⟨initAddr, init, placed⟩ := Outcome.bind_eq_ok.mp placed
  obtain ⟨names, needed, placed⟩ := Outcome.bind_eq_ok.mp placed
  cases placed
  refine ⟨other', ?_⟩
  rw [copied', Outcome.ok_bind, procParam, Outcome.ok_bind, ehFrame, Outcome.ok_bind, parsed,
    Outcome.ok_bind, numbered, Outcome.ok_bind, tlsImage, Outcome.ok_bind, initArray,
    Outcome.ok_bind, init, Outcome.ok_bind, needed]
  rfl

theorem load_withRam {sys : Sys} {path : Path} {guest guest' : Guest} {tls tls' : Nat}
    {module : Module} (loaded : load p sys path guest tls = .ok (.ok module, guest', tls'))
    (ram : Ram) : ∃ ram', load p sys path { guest with ram } tls =
      .ok (.ok module, { guest' with ram := ram' }, tls') := by
  obtain ⟨opened, returned⟩ := load_eq_ok loaded
  obtain ⟨extent, mapped, call, -⟩ := loadElf_eq_ok returned
  rw [loadElf_eq_place extent call] at returned
  obtain ⟨⟨placed, ram₁, tls₁⟩, image, same⟩ := Outcome.bind_eq_ok.mp returned
  cases same
  obtain ⟨fresh, call'⟩ := Guest.mapMemory_withRam ram call
  obtain ⟨ram', image'⟩ := place_withRam image fresh
  refine ⟨ram', ?_⟩
  unfold load
  rw [opened]
  dsimp only
  rw [loadElf_eq_place extent call', image']
  rfl

end Module

end AnotherPs4
