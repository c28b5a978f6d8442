import AnotherPs4.Memory.VirtualRuns

/-!
# Calls with any size

Guests pass sizes of their own choice. A size that rounds past the end of the
word, or past the host address space, never leads to a mapping: the call panics
or fails, and nothing changes.
-/

namespace AnotherPs4

open Rust RangeMap Transition

variable {ε : Type}

theorem alignUp_page_cases {p : Profile} {value aligned : Nat} (word : value < 2 ^ 64)
    (returned : (alignUp p value pageSize : Outcome ε Nat) = .ok aligned) :
    aligned = 0 ∨ aligned = roundUp value pageSize := by
  by_cases fits : value + (pageSize - 1) < 2 ^ 64
  · rw [alignUp_page fits] at returned
    cases returned
    exact .inr rfl
  · have small : (value + (2 ^ 14 - 1)) % 2 ^ 64 < 2 ^ 14 := by
      unfold pageSize at fits
      omega
    have masked : aligned = roundDown ((value + (2 ^ 14 - 1)) % 2 ^ 64) (2 ^ 14) :=
      alignUp_eq_ok (by decide) returned
    rw [roundDown, Nat.div_eq_of_lt small, Nat.zero_mul] at masked
    exact .inl masked

namespace MapRequest

def target (p : Profile) (mm : MemoryManager) (r : MapRequest) (alignedSize : Nat) :
    Outcome Empty (Except MemoryError Nat) :=
  if r.virtualAddr = 0 ∨ !r.flags.contains .fixed then mm.findFreeRegion p alignedSize pageSize
  else .ok (.ok r.virtualAddr)

def range (p : Profile) (mm : MemoryManager) (r : MapRequest) :
    Outcome Empty (Except MemoryError (Nat × Nat)) := do
  let alignedSize ← alignUp p r.size pageSize
  let addr ← r.target p mm alignedSize
  return addr.map fun addr => (addr, alignedSize)

theorem call_eq (p : Profile) (host : Host) (mm : MemoryManager) (r : MapRequest) :
    r.call p host mm = r.range p mm >>= fun
      | .error e => .ok (.error e, mm)
      | .ok (addr, size) => mm.mapAt p host addr size r.attributes := by
  unfold call MemoryManager.mapMemory range target
  simp only [bind_assoc, Outcome.pure_eq_ok]
  apply bind_congr
  intro alignedSize
  split <;>
  · apply bind_congr
    intro chosen
    cases chosen <;> rfl

theorem range_eq_ok {p : Profile} {mm : MemoryManager} {r : MapRequest} {addr size : Nat} :
    r.range p mm = .ok (.ok (addr, size)) ↔
      (alignUp p r.size pageSize : Outcome Empty Nat) = .ok size ∧
        r.target p mm size = .ok (.ok addr) := by
  unfold range
  rw [Outcome.bind_eq_ok]
  constructor
  · rintro ⟨aligned, rounded, chosen⟩
    obtain ⟨found, searched, returned⟩ := Outcome.bind_eq_ok.mp chosen
    cases found <;> cases returned
    exact ⟨rounded, searched⟩
  · rintro ⟨rounded, searched⟩
    exact ⟨size, rounded, by simp [searched, Except.map]⟩

end MapRequest

namespace MemoryManager

theorem size_le_hostLimit {p : Profile} {size aligned addr : Nat} (word : size < 2 ^ 64)
    (rounded : (alignUp p size pageSize : Outcome ε Nat) = .ok aligned)
    (accepted : 0 < aligned ∧ addr + aligned ≤ hostLimit) : size ≤ hostLimit := by
  rcases alignUp_page_cases word rounded with rfl | rfl
  · exact absurd accepted.1 (lt_irrefl 0)
  · have above : size ≤ roundUp size pageSize := le_roundUp pageSize_pos
    omega

theorem mapAt_returned {p : Profile} {host : Host} {mm mm' : MemoryManager}
    {addr size : Nat} {attributes : VMAAttributes} {result : Except MemoryError Nat}
    (returned : (mm.mapAt p host addr size attributes : Outcome ε _) = .ok (result, mm')) :
    ((∃ e, result = .error e) ∧ mm' = mm) ∨
      host.mmapFixed addr size (attributes.prot.contains .cpuExec) = true := by
  unfold mapAt AddressSpace.map at returned
  by_cases accepted : host.mmapFixed addr size (attributes.prot.contains .cpuExec) = true
  · exact .inr accepted
  · simp only [accepted, Bool.false_eq_true, if_false, Outcome.pure_eq_ok, Outcome.ok.injEq,
      Prod.mk.injEq] at returned
    exact .inl ⟨⟨_, returned.1.symm⟩, returned.2.symm⟩

theorem mapMemory_returned {p : Profile} {host : Host} (lawful : host.Lawful)
    {mm mm' : MemoryManager} {r : MapRequest} {result : Except MemoryError Nat}
    (word : r.size < 2 ^ 64) (returned : r.call p host mm = .ok (result, mm')) :
    ((∃ e, result = .error e) ∧ mm' = mm) ∨ r.size ≤ hostLimit := by
  rw [MapRequest.call_eq, Outcome.bind_eq_ok] at returned
  obtain ⟨range, chosen, returned⟩ := returned
  cases range with
  | error e =>
    cases returned
    exact .inl ⟨⟨e, rfl⟩, rfl⟩
  | ok range =>
    rcases mapAt_returned returned with failed | accepted
    · exact .inl failed
    · exact .inr (size_le_hostLimit word (MapRequest.range_eq_ok.mp chosen).1 (lawful.mmapFixed accepted))

theorem unmapMemory_returned {p : Profile} {host : Host} (lawful : host.Lawful)
    {mm mm' : MemoryManager} {virtualAddr size : Nat} {result : Except MemoryError Unit}
    (word : size < 2 ^ 64)
    (returned : (mm.unmapMemory p host virtualAddr size : Outcome Empty _) = .ok (result, mm')) :
    ((∃ e, result = .error e) ∧ mm' = mm) ∨ size ≤ hostLimit := by
  unfold unmapMemory AddressSpace.unmap at returned
  obtain ⟨aligned, rounded, returned⟩ := Outcome.bind_eq_ok.mp returned
  by_cases accepted : host.munmap virtualAddr aligned = true
  · exact .inr (size_le_hostLimit word rounded (lawful.munmap accepted))
  · simp only [accepted, Bool.false_eq_true, if_false, Outcome.pure_eq_ok, Outcome.ok.injEq,
      Prod.mk.injEq] at returned
    exact .inl ⟨⟨_, returned.1.symm⟩, returned.2.symm⟩

end MemoryManager

theorem MapRequest.call_eq_ok {p : Profile} {host : Host} (lawful : host.Lawful)
    {mm mm' : MemoryManager} {r : MapRequest} (word : r.size < 2 ^ 64) {addr : Nat}
    (returned : r.call p host mm = .ok (.ok addr, mm')) :
    r.target p mm (roundUp r.size pageSize) = .ok (.ok addr) ∧
      host.mmapFixed addr (roundUp r.size pageSize) (r.prot.contains .cpuExec) = true ∧
      0 < roundUp r.size pageSize ∧ addr + roundUp r.size pageSize ≤ hostLimit ∧
      (mm.replaceVma p { r.attributes with base := addr, size := roundUp r.size pageSize } :
        Outcome Empty _) = .ok mm' := by
  rw [call_eq, Outcome.bind_eq_ok] at returned
  obtain ⟨range, chosen, returned⟩ := returned
  cases range with
  | error e => cases returned
  | ok range =>
    obtain ⟨start, size⟩ := range
    rcases MemoryManager.mapAt_returned returned with ⟨⟨e, failed⟩, -⟩ | accepted
    · cases failed
    obtain ⟨nonempty, bounded⟩ := lawful.mmapFixed accepted
    simp only [MemoryManager.mapAt, AddressSpace.map, accepted, if_true] at returned
    obtain ⟨_, replaced, same⟩ := Outcome.bind_eq_ok.mp returned
    cases same
    obtain ⟨rounded, found⟩ := range_eq_ok.mp chosen
    rcases alignUp_page_cases word rounded with rfl | rfl
    · exact absurd nonempty (lt_irrefl 0)
    · exact ⟨found, accepted, nonempty, bounded, replaced⟩

/-- One call with any 64-bit size, answered by some lawful host. -/
inductive MemoryCall (p : Profile) : MemoryManager → MemoryEvent → MemoryManager → Prop where
  | map {host mm r result mm'} : host.Lawful → r.size < 2 ^ 64 →
      r.call p host mm = .ok (result, mm') → MemoryCall p mm (.map r result) mm'
  | unmap {host mm virtualAddr size result mm'} : host.Lawful → size < 2 ^ 64 →
      (mm.unmapMemory p host virtualAddr size : Outcome Empty _) = .ok (result, mm') →
      MemoryCall p mm (.unmap virtualAddr size result) mm'

/-- The area the search chose is the lowest with room. -/
theorem MemoryCall.lowest {p : Profile} {mm mm' : MemoryManager} {r : MapRequest} {addr : Nat}
    (wf : mm.vmaMap.WellFormed) (free : ¬ r.fixed)
    (call : MemoryCall p mm (.map r (.ok addr)) mm') :
    ∃ vma : VirtualMemoryArea, mm.vmaMap[vma.base]? = some vma ∧
      MemoryManager.HasRoom (roundUp r.size pageSize) vma ∧ addr = roundUp vma.base pageSize ∧
      ∀ other : VirtualMemoryArea, mm.vmaMap[other.base]? = some other →
        MemoryManager.HasRoom (roundUp r.size pageSize) other → vma.base ≤ other.base := by
  cases call with
  | map lawful word returned =>
    obtain ⟨found, -, -, bounded, -⟩ := MapRequest.call_eq_ok lawful word returned
    rw [MapRequest.target, if_pos (MapRequest.not_fixed.mp free)] at found
    have small : roundUp r.size pageSize ≤ hostLimit := by omega
    rcases MemoryManager.findFreeRegion_cases (ε := Empty) p wf small with
      ⟨none, -⟩ | ⟨vma, stored, room, placed, lowest⟩
    · rw [none] at found
      cases found
    · rw [placed] at found
      cases found
      exact ⟨vma, stored, room, rfl, lowest⟩

theorem MapRequest.call_of_lowest {p : Profile} {host : Host} (lawful : host.Lawful)
    {mm : MemoryManager} (wf : mm.vmaMap.WellFormed) {r : MapRequest} (free : ¬ r.fixed)
    {vma : VirtualMemoryArea} (stored : mm.vmaMap[vma.base]? = some vma)
    (room : MemoryManager.HasRoom (roundUp r.size pageSize) vma)
    (lowest : ∀ other : VirtualMemoryArea, mm.vmaMap[other.base]? = some other →
      MemoryManager.HasRoom (roundUp r.size pageSize) other → vma.base ≤ other.base)
    (accepted : host.mmapFixed (roundUp vma.base pageSize) (roundUp r.size pageSize)
      (r.prot.contains .cpuExec) = true) :
    ∃ mm', r.call p host mm = .ok (.ok (roundUp vma.base pageSize), mm') := by
  have within : vma.base + vma.size ≤ hostLimit := wf.within stored
  have bounded : roundUp r.size pageSize ≤ hostLimit := by
    have := room.2
    omega
  have small : r.size ≤ hostLimit := le_trans (le_roundUp pageSize_pos) bounded
  rcases MemoryManager.findFreeRegion_cases (ε := Empty) p wf bounded with
    ⟨-, none⟩ | ⟨first, stored', room', found, lowest'⟩
  · exact absurd room (none vma stored)
  have same : first.base = vma.base :=
    le_antisymm (lowest' vma stored room) (lowest first stored' room')
  have range : r.range p mm = .ok (.ok (roundUp vma.base pageSize, roundUp r.size pageSize)) := by
    refine range_eq_ok.mpr ⟨alignUp_page_of_le small, ?_⟩
    rw [target, if_pos (not_fixed.mp free), found, same]
  obtain ⟨nonempty, inside⟩ := lawful.mmapFixed accepted
  obtain ⟨map, replaced, -⟩ := MemoryManager.replaceVma_spec (ε := Empty) p wf
    { r.attributes with base := roundUp vma.base pageSize, size := roundUp r.size pageSize }
    nonempty inside
  have executable : r.attributes.prot.contains .cpuExec = r.prot.contains .cpuExec := rfl
  refine ⟨{ mm with vmaMap := map }, ?_⟩
  rw [call_eq, range, Outcome.ok_bind]
  simp [MemoryManager.mapAt, AddressSpace.map, executable, accepted, replaced]

def MemoryEvent.stores : MemoryEvent → Option VirtualMemoryArea
  | .map r (.ok addr) => some { r.attributes with base := addr, size := roundUp r.size pageSize }
  | .unmap virtualAddr size (.ok _) =>
    some { MemoryManager.freeAttributes with base := virtualAddr, size := roundUp size pageSize }
  | .map _ (.error _) | .unmap _ _ (.error _) => none

theorem MapRequest.call_failed {p : Profile} {host : Host} {mm mm' : MemoryManager}
    {r : MapRequest} {e : MemoryError} (returned : r.call p host mm = .ok (.error e, mm')) :
    mm' = mm := by
  rw [MapRequest.call_eq, Outcome.bind_eq_ok] at returned
  obtain ⟨range, -, returned⟩ := returned
  cases range with
  | error e =>
    cases returned
    rfl
  | ok range =>
    rcases MemoryManager.mapAt_returned returned with ⟨-, same⟩ | accepted
    · exact same
    · simp only [MemoryManager.mapAt, AddressSpace.map, accepted, if_true] at returned
      obtain ⟨_, -, impossible⟩ := Outcome.bind_eq_ok.mp returned
      cases impossible

/-- Memory that the host gave up is stored as free, and a failed call changes nothing. -/
theorem MemoryManager.unmapMemory_stored {p : Profile} {host : Host} (lawful : host.Lawful)
    {mm mm' : MemoryManager} {virtualAddr size : Nat} (word : size < 2 ^ 64)
    {result : Except MemoryError Unit}
    (returned : (mm.unmapMemory p host virtualAddr size : Outcome Empty _) = .ok (result, mm')) :
    (∃ e, result = .error e ∧ mm' = mm) ∨
    (result = .ok () ∧ 0 < roundUp size pageSize ∧
      virtualAddr + roundUp size pageSize ≤ hostLimit ∧
      (mm.replaceVma p { freeAttributes with base := virtualAddr, size := roundUp size pageSize } :
        Outcome Empty _) = .ok mm') := by
  unfold unmapMemory AddressSpace.unmap at returned
  obtain ⟨aligned, rounded, returned⟩ := Outcome.bind_eq_ok.mp returned
  by_cases accepted : host.munmap virtualAddr aligned = true
  · simp only [accepted, if_true] at returned
    obtain ⟨_, replaced, same⟩ := Outcome.bind_eq_ok.mp returned
    cases same
    obtain ⟨nonempty, bounded⟩ := lawful.munmap accepted
    rcases alignUp_page_cases word rounded with rfl | rfl
    · exact absurd nonempty (lt_irrefl 0)
    · exact .inr ⟨rfl, nonempty, bounded, replaced⟩
  · simp only [accepted, Bool.false_eq_true, if_false, Outcome.pure_eq_ok, Outcome.ok.injEq,
      Prod.mk.injEq] at returned
    obtain ⟨rfl, rfl⟩ := returned
    exact .inl ⟨_, rfl, rfl⟩

theorem MemoryCall.stored {p : Profile} {mm mm' : MemoryManager} {event : MemoryEvent}
    (call : MemoryCall p mm event mm') :
    match event.stores with
    | none => mm' = mm
    | some vma => 0 < vma.size ∧ vma.base + vma.size ≤ hostLimit ∧
        (mm.replaceVma p vma : Outcome Empty _) = .ok mm' := by
  cases call with
  | @map host _ r result _ lawful word returned =>
    cases result with
    | error e => exact MapRequest.call_failed returned
    | ok addr => exact (MapRequest.call_eq_ok lawful word returned).2.2
  | unmap lawful word returned =>
    rcases MemoryManager.unmapMemory_stored lawful word returned with
      ⟨e, rfl, rfl⟩ | ⟨rfl, stored⟩
    · rfl
    · exact stored

/-- What a call has done when it returned: nothing, or one area was stored. -/
inductive MemoryEffect (mm : MemoryManager) : MemoryEvent → MemoryManager → Prop where
  | failedMap {r e} : MemoryEffect mm (.map r (.error e)) mm
  | failedUnmap {virtualAddr size e} : MemoryEffect mm (.unmap virtualAddr size (.error e)) mm
  | mapped {r addr map} (nonempty : 0 < roundUp r.size pageSize)
      (bytes : attrAt map = overwrite (attrAt mm.vmaMap) addr (addr + roundUp r.size pageSize)
        r.attributes)
      (chosen : if r.fixed then addr = r.virtualAddr
        else pageSize ∣ addr ∧ ∀ x, addr ≤ x → x < addr + roundUp r.size pageSize →
          ∃ a, attrAt mm.vmaMap x = some a ∧ a.vmaType = .free) :
      MemoryEffect mm (.map r (.ok addr)) { mm with vmaMap := map }
  | unmapped {virtualAddr size map} (nonempty : 0 < roundUp size pageSize)
      (bytes : attrAt map = overwrite (attrAt mm.vmaMap) virtualAddr
        (virtualAddr + roundUp size pageSize) MemoryManager.freeAttributes) :
      MemoryEffect mm (.unmap virtualAddr size (.ok ())) { mm with vmaMap := map }

theorem MemoryCall.effect {p : Profile} {mm mm' : MemoryManager} {event : MemoryEvent}
    (wf : mm.vmaMap.WellFormed) (call : MemoryCall p mm event mm') :
    mm'.vmaMap.WellFormed ∧ MemoryEffect mm event mm' := by
  cases call with
  | map lawful word returned =>
    rcases MemoryManager.mapMemory_returned lawful word returned with
      ⟨⟨e, rfl⟩, rfl⟩ | bounded
    · exact ⟨wf, .failedMap⟩
    · rcases MemoryManager.mapMemory_cases lawful wf bounded returned with
        ⟨e, rfl, rfl⟩ | ⟨addr, map, rfl, rfl, wf', nonempty, bytes, chosen⟩
      · exact ⟨wf, .failedMap⟩
      · exact ⟨wf', .mapped nonempty bytes chosen⟩
  | unmap lawful word returned =>
    rcases MemoryManager.unmapMemory_returned lawful word returned with
      ⟨⟨e, rfl⟩, rfl⟩ | bounded
    · exact ⟨wf, .failedUnmap⟩
    · rcases MemoryManager.unmapMemory_cases lawful wf bounded returned with
        ⟨e, rfl, rfl⟩ | ⟨map, rfl, rfl, wf', nonempty, bytes⟩
      · exact ⟨wf, .failedUnmap⟩
      · exact ⟨wf', .unmapped nonempty bytes⟩

theorem MemoryCall.run_wellFormed {p : Profile} {boot : HostBoot} (lawful : boot.Lawful)
    {mm₀ mm : MemoryManager} (booted : MemoryManager.new boot = .ok mm₀)
    {events : List MemoryEvent} (run : Trace (MemoryCall p) mm₀ events mm) :
    mm.vmaMap.WellFormed := by
  let inv : MemoryManager → Prop := fun mm => mm.vmaMap.WellFormed
  have initial : inv mm₀ := (MemoryManager.new_wellFormed lawful booted).1
  have kept : ∀ {mm event mm'}, inv mm → MemoryCall p mm event mm' → inv mm' :=
    fun wf call => (call.effect wf).1
  change inv mm
  exact Trace.invariant initial kept run

theorem MemoryEffect.addressSpace_eq {mm mm' : MemoryManager} {event : MemoryEvent}
    (effect : MemoryEffect mm event mm') : mm'.addressSpace = mm.addressSpace := by
  cases effect <;> rfl

namespace MemoryManager

def freePage (base : Nat) : VirtualMemoryArea :=
  { freeAttributes with base, size := pageSize }

/-- The booted manager once the first page of the user region is unmapped. -/
def withoutFirstPage : MemoryManager :=
  { booted with
    vmaMap := ((∅ : VMAMap).insert 0x1000004000
      { freeAttributes with base := 0x1000004000, size := userSize - pageSize }).insert
      0x1000000000 (freePage 0x1000000000) }

end MemoryManager

theorem MemoryCall.mapStack :
    MemoryCall .dev .booted (.map .stack (.ok 0x1000000000)) .withStack :=
  .map Host.roomy_lawful (by decide) MapRequest.stack_call

theorem MemoryCall.unmapFirstPage :
    MemoryCall .dev .booted (.unmap 0x1000000000 pageSize (.ok ())) .withoutFirstPage :=
  .unmap Host.roomy_lawful (by decide) (by decide +kernel)

end AnotherPs4
