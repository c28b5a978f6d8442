import AnotherPs4.Memory.Carving
import AnotherPs4.Transition.Trace

/-!
# Runs of the memory manager

The abstract view of the memory manager is a partial map from bytes to
attributes, which a call overwrites on one range or leaves alone. Every run of
`mapMemory` and `unmapMemory`, with any host answers, refines it. From that
follows that addresses chosen by the manager never hit live memory.
-/

namespace AnotherPs4

open Rust RangeMap Transition

variable {ε : Type}

/-- A call that returned, with its result. -/
inductive MemoryEvent where
  | map (request : MapRequest) (result : Except MemoryError Nat)
  | unmap (virtualAddr size : Nat) (result : Except MemoryError Unit)

def MemoryEvent.apply (bytes : Nat → Option VMAAttributes) :
    MemoryEvent → Nat → Option VMAAttributes
  | .map r (.ok addr) => overwrite bytes addr (addr + roundUp r.size pageSize) r.attributes
  | .unmap addr size (.ok _) =>
      overwrite bytes addr (addr + roundUp size pageSize) MemoryManager.freeAttributes
  | .map _ (.error _) | .unmap _ _ (.error _) => bytes

/-- One call, answered by some lawful host. -/
inductive MemoryStep (p : Profile) : MemoryManager → MemoryEvent → MemoryManager → Prop where
  | map {host mm r result mm'} : host.Lawful → r.size ≤ hostLimit →
      r.call p host mm = .ok (result, mm') → MemoryStep p mm (.map r result) mm'
  | unmap {host mm virtualAddr size result mm'} : host.Lawful → size ≤ hostLimit →
      (mm.unmapMemory p host virtualAddr size : Outcome Empty _) = .ok (result, mm') →
      MemoryStep p mm (.unmap virtualAddr size result) mm'

def AddressSpace.initialBytes (space : AddressSpace) (x : Nat) : Option VMAAttributes :=
  if space.userBase ≤ x ∧ x < space.userBase + space.userSize then
    some MemoryManager.freeAttributes
  else none

namespace MemoryManager

theorem new_eq_ok {boot : HostBoot} {mm : MemoryManager} (booted : new boot = .ok mm) :
    boot.user = some mm.addressSpace.userBase ∧ mm.addressSpace.userSize = userSize ∧
      mm.physical = .new (5632 * 1024 * 1024) ∧
      mm.vmaMap = (∅ : VMAMap).insert mm.addressSpace.userBase
        { freeAttributes with base := mm.addressSpace.userBase, size := userSize } := by
  obtain ⟨backing, user, systemManaged, systemReserved⟩ := boot
  cases backing <;> cases user <;> cases systemManaged <;> cases systemReserved <;>
    simp only [new, AddressSpace.new, Option.elim, bind, Except.bind, pure, Except.pure,
      reduceCtorEq, Except.ok.injEq] at booted
  subst booted
  exact ⟨rfl, rfl, rfl, rfl⟩

theorem new_totals {boot : HostBoot} {mm : MemoryManager} (booted : new boot = .ok mm) :
    mm.totalDirectSize = 5632 * 1024 * 1024 ∧ mm.totalFlexibleSize = 448 * 1024 * 1024 ∧
      mm.flexibleUsage = 0 := by
  obtain ⟨backing, user, systemManaged, systemReserved⟩ := boot
  cases backing <;> cases user <;> cases systemManaged <;> cases systemReserved <;>
    simp only [new, AddressSpace.new, Option.elim, bind, Except.bind, pure, Except.pure,
      reduceCtorEq, Except.ok.injEq] at booted
  subst booted
  exact ⟨rfl, rfl, rfl⟩

theorem new_wellFormed {boot : HostBoot} (lawful : boot.Lawful) {mm : MemoryManager}
    (booted : new boot = .ok mm) :
    mm.vmaMap.WellFormed ∧ attrAt mm.vmaMap = mm.addressSpace.initialBytes := by
  obtain ⟨reserved, size, -, areas⟩ := new_eq_ok booted
  have bounded := lawful _ reserved
  unfold AddressSpace.initialBytes
  rw [areas, size]
  generalize mm.addressSpace.userBase = user at bounded
  have empty : VMAMap.WellFormed ∅ :=
    ⟨⟨fun stored => by simp at stored, fun stored => by simp at stored⟩,
      fun _ _ stored => by simp at stored, fun _ _ stored => by simp at stored⟩
  have gap : Gap (∅ : VMAMap) user (user + userSize) := fun _ _ stored => by simp at stored
  refine ⟨⟨empty.separated.fill gap rfl rfl, empty.positive.insert ?_, empty.within.insert bounded⟩,
    ?_⟩
  · exact (by decide : 0 < userSize)
  · refine (attrAt_fill empty.separated gap rfl rfl ?_).trans ?_
    · exact Nat.lt_add_of_pos_right (by decide)
    · funext x
      unfold overwrite
      split
      · rfl
      · exact attrAt_eq_none.mpr fun _ ⟨_, _, stored, _⟩ => by simp at stored

theorem findFreeRegion_cases (p : Profile) {mm : MemoryManager} (wf : mm.vmaMap.WellFormed)
    {size : Nat} (bounded : size ≤ hostLimit) :
    ((mm.findFreeRegion p size pageSize : Outcome ε _) = .ok (.error (.noFreeRegion size)) ∧
      ∀ vma, mm.vmaMap[vma.base]? = some vma → ¬ HasRoom size vma) ∨
    ∃ vma, mm.vmaMap[vma.base]? = some vma ∧ HasRoom size vma ∧
      (mm.findFreeRegion p size pageSize : Outcome ε _) = .ok (.ok (roundUp vma.base pageSize)) ∧
      ∀ other, mm.vmaMap[other.base]? = some other → HasRoom size other →
        vma.base ≤ other.base := by
  have listed : ∀ vma, vma ∈ mm.vmaMap.toList.map Prod.snd ↔ mm.vmaMap[vma.base]? = some vma :=
    fun vma => wf.separated.mem_values
  unfold findFreeRegion
  rw [firstFit_eq bounded fun vma member => wf.within ((listed vma).mp member)]
  cases search : (mm.vmaMap.toList.map Prod.snd).find? fun vma => HasRoom size vma with
  | none =>
    refine .inl ⟨rfl, fun vma stored => ?_⟩
    simpa using List.find?_eq_none.mp search vma ((listed vma).mpr stored)
  | some vma =>
    have room : HasRoom size vma := by simpa using List.find?_some search
    have stored := (listed vma).mp (List.mem_of_find?_eq_some search)
    refine .inr ⟨vma, stored, room, rfl, fun other stored' room' => ?_⟩
    obtain ⟨-, before, after, whole, earlier⟩ := List.find?_eq_some_iff_append.mp search
    have member := (listed other).mpr stored'
    have sorted := wf.separated.values_sorted
    rw [whole] at member sorted
    rcases List.mem_append.mp member with early | late
    · simpa [room'] using earlier other early
    · rcases List.mem_cons.mp late with rfl | late
      · exact le_rfl
      · exact ((List.pairwise_cons.mp (List.pairwise_append.mp sorted).2.1).1 other late).le

/-- The address the search finds is page aligned, and every byte of the block
there is free. -/
theorem findFreeRegion_spec (p : Profile) {mm : MemoryManager} (wf : mm.vmaMap.WellFormed)
    {size : Nat} (bounded : size ≤ hostLimit) :
    (∃ e, (mm.findFreeRegion p size pageSize : Outcome ε _) = .ok (.error e)) ∨
    ∃ addr, (mm.findFreeRegion p size pageSize : Outcome ε _) = .ok (.ok addr) ∧
      pageSize ∣ addr ∧ ∀ x, addr ≤ x → x < addr + size →
        ∃ a, attrAt mm.vmaMap x = some a ∧ a.vmaType = .free := by
  rcases findFreeRegion_cases (ε := ε) p wf bounded with
    ⟨none, -⟩ | ⟨vma, stored, ⟨isFree, fits⟩, found, -⟩
  · exact .inl ⟨_, none⟩
  · refine .inr ⟨_, found, dvd_roundUp _ _, ?_⟩
    intro x above below
    have low : vma.base ≤ roundUp vma.base pageSize := le_roundUp pageSize_pos
    refine ⟨vma.toVMAAttributes, ?_, isFree⟩
    exact (attrAt_eq_some wf.separated).mpr ⟨vma.base, vma, stored,
      ⟨low.trans above, lt_of_lt_of_le below fits⟩, rfl⟩

theorem mapAt_spec (p : Profile) {host : Host} (lawful : host.Lawful) {mm : MemoryManager}
    (wf : mm.vmaMap.WellFormed) (addr size : Nat) (attributes : VMAAttributes) :
    (∃ e, (mm.mapAt p host addr size attributes : Outcome ε _) = .ok (.error e, mm)) ∨
    ∃ map, (mm.mapAt p host addr size attributes : Outcome ε _) =
        .ok (.ok addr, { mm with vmaMap := map }) ∧
      map.WellFormed ∧ 0 < size ∧
      attrAt map = overwrite (attrAt mm.vmaMap) addr (addr + size) attributes := by
  unfold mapAt AddressSpace.map
  by_cases accepted : host.mmapFixed addr size (attributes.prot.contains .cpuExec) = true
  · obtain ⟨nonempty, bounded⟩ := lawful.mmapFixed accepted
    obtain ⟨map, replaced, wf', bytes⟩ := replaceVma_spec (ε := ε) p wf
      { attributes with base := addr, size := size } nonempty bounded
    exact .inr ⟨map, by simp [accepted, replaced], wf', nonempty, bytes⟩
  · exact .inl ⟨_, by simp [accepted]; rfl⟩

/-- What a `mapMemory` call has done when it returned. -/
theorem mapMemory_spec (p : Profile) {host : Host} (lawful : host.Lawful) {mm : MemoryManager}
    (wf : mm.vmaMap.WellFormed) {r : MapRequest} (bounded : r.size ≤ hostLimit) :
    (∃ e, r.call p host mm = .ok (.error e, mm)) ∨
    ∃ addr map, r.call p host mm = .ok (.ok addr, { mm with vmaMap := map }) ∧
      map.WellFormed ∧ 0 < roundUp r.size pageSize ∧
      attrAt map = overwrite (attrAt mm.vmaMap) addr (addr + roundUp r.size pageSize)
        r.attributes ∧
      if r.fixed then addr = r.virtualAddr
      else pageSize ∣ addr ∧ ∀ x, addr ≤ x → x < addr + roundUp r.size pageSize →
        ∃ a, attrAt mm.vmaMap x = some a ∧ a.vmaType = .free := by
  unfold MapRequest.call mapMemory
  rw [alignUp_page_of_le bounded, Outcome.ok_bind]
  simp only [← MapRequest.not_fixed]
  by_cases fixed : r.fixed
  · simp only [fixed, not_true_eq_false, if_false, if_true, Outcome.pure_eq_ok, Outcome.ok_bind]
    rcases mapAt_spec p lawful wf r.virtualAddr (roundUp r.size pageSize) r.attributes with
      failed | ⟨map, mapped, wf', nonempty, bytes⟩
    · exact .inl failed
    · exact .inr ⟨_, map, mapped, wf', nonempty, bytes, rfl⟩
  · simp only [fixed, not_false_eq_true, if_true, if_false]
    rcases findFreeRegion_spec (ε := Empty) p wf (roundUp_page_le bounded) with
      ⟨e, none⟩ | ⟨addr, found, aligned, isFree⟩
    · exact .inl ⟨e, by simp [none]⟩
    · simp only [found, Outcome.ok_bind]
      rcases mapAt_spec p lawful wf addr (roundUp r.size pageSize) r.attributes with
        failed | ⟨map, mapped, wf', nonempty, bytes⟩
      · exact .inl failed
      · exact .inr ⟨_, map, mapped, wf', nonempty, bytes, aligned, isFree⟩

theorem mapMemory_cases {p : Profile} {host : Host} (lawful : host.Lawful)
    {mm mm' : MemoryManager} (wf : mm.vmaMap.WellFormed) {r : MapRequest}
    (bounded : r.size ≤ hostLimit) {result : Except MemoryError Nat}
    (returned : r.call p host mm = .ok (result, mm')) :
    (∃ e, result = .error e ∧ mm' = mm) ∨
    ∃ addr map, result = .ok addr ∧ mm' = { mm with vmaMap := map } ∧ map.WellFormed ∧
      0 < roundUp r.size pageSize ∧
      attrAt map = overwrite (attrAt mm.vmaMap) addr (addr + roundUp r.size pageSize)
        r.attributes ∧
      if r.fixed then addr = r.virtualAddr
      else pageSize ∣ addr ∧ ∀ x, addr ≤ x → x < addr + roundUp r.size pageSize →
        ∃ a, attrAt mm.vmaMap x = some a ∧ a.vmaType = .free := by
  rcases mapMemory_spec p lawful wf bounded with ⟨e, failed⟩ | ⟨addr, map, mapped, done⟩
  · rw [failed] at returned
    cases returned
    exact .inl ⟨e, rfl, rfl⟩
  · rw [mapped] at returned
    cases returned
    exact .inr ⟨addr, map, rfl, rfl, done⟩

theorem unmapMemory_spec (p : Profile) {host : Host} (lawful : host.Lawful) {mm : MemoryManager}
    (wf : mm.vmaMap.WellFormed) {virtualAddr size : Nat} (bounded : size ≤ hostLimit) :
    (∃ e, (mm.unmapMemory p host virtualAddr size : Outcome Empty _) = .ok (.error e, mm)) ∨
    ∃ map, (mm.unmapMemory p host virtualAddr size : Outcome Empty _) =
        .ok (.ok (), { mm with vmaMap := map }) ∧
      map.WellFormed ∧ 0 < roundUp size pageSize ∧
      attrAt map = overwrite (attrAt mm.vmaMap) virtualAddr
        (virtualAddr + roundUp size pageSize) freeAttributes := by
  unfold unmapMemory AddressSpace.unmap
  rw [alignUp_page_of_le bounded, Outcome.ok_bind]
  by_cases accepted : host.munmap virtualAddr (roundUp size pageSize) = true
  · obtain ⟨nonempty, bounded⟩ := lawful.munmap accepted
    obtain ⟨map, replaced, wf', bytes⟩ := replaceVma_spec (ε := Empty) p wf
      { freeAttributes with base := virtualAddr, size := roundUp size pageSize }
      nonempty bounded
    exact .inr ⟨map, by simp [accepted, replaced], wf', nonempty, bytes⟩
  · exact .inl ⟨_, by simp [accepted]; rfl⟩

theorem unmapMemory_cases {p : Profile} {host : Host} (lawful : host.Lawful)
    {mm mm' : MemoryManager} (wf : mm.vmaMap.WellFormed) {virtualAddr size : Nat}
    (bounded : size ≤ hostLimit) {result : Except MemoryError Unit}
    (returned : (mm.unmapMemory p host virtualAddr size : Outcome Empty _) = .ok (result, mm')) :
    (∃ e, result = .error e ∧ mm' = mm) ∨
    ∃ map, result = .ok () ∧ mm' = { mm with vmaMap := map } ∧ map.WellFormed ∧
      0 < roundUp size pageSize ∧
      attrAt map = overwrite (attrAt mm.vmaMap) virtualAddr
        (virtualAddr + roundUp size pageSize) freeAttributes := by
  rcases unmapMemory_spec p lawful wf bounded with ⟨e, failed⟩ | ⟨map, unmapped, done⟩
  · rw [failed] at returned
    cases returned
    exact .inl ⟨e, rfl, rfl⟩
  · rw [unmapped] at returned
    cases returned
    exact .inr ⟨map, rfl, rfl, done⟩

end MemoryManager

/-- One step keeps the map well formed and acts on the bytes as its event says. -/
theorem MemoryStep.refines {p : Profile} {mm mm' : MemoryManager} {event : MemoryEvent}
    (wf : mm.vmaMap.WellFormed) (step : MemoryStep p mm event mm') :
    mm'.vmaMap.WellFormed ∧ attrAt mm'.vmaMap = event.apply (attrAt mm.vmaMap) := by
  cases step with
  | map lawful bounded returned =>
    rcases MemoryManager.mapMemory_cases lawful wf bounded returned with
      ⟨e, rfl, rfl⟩ | ⟨addr, map, rfl, rfl, wf', -, bytes, -⟩
    · exact ⟨wf, rfl⟩
    · exact ⟨wf', bytes⟩
  | unmap lawful bounded returned =>
    rcases MemoryManager.unmapMemory_cases lawful wf bounded returned with
      ⟨e, rfl, rfl⟩ | ⟨map, rfl, rfl, wf', -, bytes⟩
    · exact ⟨wf, rfl⟩
    · exact ⟨wf', bytes⟩

theorem MemoryTrace.refines {p : Profile} {boot : HostBoot} (lawful : boot.Lawful)
    {mm₀ mm : MemoryManager} (booted : MemoryManager.new boot = .ok mm₀)
    {events : List MemoryEvent} (run : Trace (MemoryStep p) mm₀ events mm) :
    mm.vmaMap.WellFormed ∧
      attrAt mm.vmaMap = events.foldl MemoryEvent.apply mm₀.addressSpace.initialBytes := by
  obtain ⟨wf, initial⟩ := MemoryManager.new_wellFormed lawful booted
  rw [← initial]
  exact Trace.refines (fun mm : MemoryManager => attrAt mm.vmaMap) MemoryEvent.apply
    (fun mm => mm.vmaMap.WellFormed) wf (fun wf step => step.refines wf) run

/-- The area map is a map from bytes to attributes along every run: it stays
well formed, each call that succeeds overwrites exactly the bytes of its page
rounded range, and a call that fails changes nothing. -/
theorem vmaMap_refines_bytes (p : Profile) {boot : HostBoot} (lawful : boot.Lawful)
    {mm₀ mm : MemoryManager} (booted : MemoryManager.new boot = .ok mm₀)
    {events : List MemoryEvent} (run : Trace (MemoryStep p) mm₀ events mm) :
    mm.vmaMap.WellFormed ∧
    attrAt mm.vmaMap = events.foldl MemoryEvent.apply mm₀.addressSpace.initialBytes ∧
    (∀ (host : Host) (r : MapRequest), host.Lawful → r.size ≤ hostLimit → ∃ result mm',
      r.call p host mm = .ok (result, mm') ∧
      attrAt mm'.vmaMap = (MemoryEvent.map r result).apply (attrAt mm.vmaMap) ∧
      (∀ addr, result = .ok addr → r.fixed → addr = r.virtualAddr) ∧
      ∀ e, result = .error e → mm' = mm) ∧
    (∀ (host : Host) virtualAddr size, host.Lawful → size ≤ hostLimit → ∃ result mm',
      (mm.unmapMemory p host virtualAddr size : Outcome Empty _) = .ok (result, mm') ∧
      attrAt mm'.vmaMap = (MemoryEvent.unmap virtualAddr size result).apply (attrAt mm.vmaMap) ∧
      ∀ e, result = .error e → mm' = mm) := by
  obtain ⟨wf, bytes⟩ := MemoryTrace.refines lawful booted run
  refine ⟨wf, bytes, ?_, ?_⟩
  · intro host r answers bounded
    rcases MemoryManager.mapMemory_spec p answers wf bounded with
      ⟨e, failed⟩ | ⟨addr, map, mapped, -, -, bytes, chosen⟩
    · exact ⟨_, _, failed, rfl, by simp, fun _ _ => rfl⟩
    · refine ⟨_, _, mapped, bytes, ?_, by simp⟩
      rintro _ ⟨rfl⟩ fixed
      simpa [fixed] using chosen
  · intro host virtualAddr size answers bounded
    rcases MemoryManager.unmapMemory_spec p answers wf bounded with
      ⟨e, failed⟩ | ⟨map, unmapped, -, -, bytes⟩
    · exact ⟨_, _, failed, rfl, fun _ _ => rfl⟩
    · exact ⟨_, _, unmapped, bytes, by simp⟩

/-- A host that maps and unmaps wherever it is asked to. -/
def Host.roomy : Host where
  mmapFixed addr size _ := 0 < size ∧ addr + size ≤ hostLimit
  munmap addr size := 0 < size ∧ addr + size ≤ hostLimit

theorem Host.roomy_lawful : Host.roomy.Lawful :=
  ⟨fun accepted => of_decide_eq_true accepted, fun accepted => of_decide_eq_true accepted⟩

def HostBoot.low : HostBoot where
  backing := some 0x7f0000000000
  user := some 0x1000000000
  systemManaged := some 0x3000000000
  systemReserved := some 0x3020000000

theorem HostBoot.low_lawful : HostBoot.low.Lawful := by
  rintro _ ⟨rfl⟩
  decide

namespace MemoryManager

def booted : MemoryManager where
  addressSpace :=
    { backingBase := 0x7f0000000000
      systemManagedBase := 0x3000000000
      systemReservedBase := 0x3020000000
      userBase := 0x1000000000
      userSize := userSize }
  physical := .new (5632 * 1024 * 1024)
  vmaMap := (∅ : VMAMap).insert 0x1000000000
    { freeAttributes with base := 0x1000000000, size := userSize }
  totalDirectSize := 5632 * 1024 * 1024
  totalFlexibleSize := 448 * 1024 * 1024
  flexibleUsage := 0

theorem new_low : new .low = .ok booted := rfl

end MemoryManager

def MapRequest.stack : MapRequest where
  virtualAddr := 0
  size := 100
  prot := .cpuRw
  flags := .anonymous
  vmaType := .stack
  name := "stack"

def MemoryManager.withStack : MemoryManager :=
  { booted with
    vmaMap := ((∅ : VMAMap).insert 0x1000004000
      { freeAttributes with base := 0x1000004000, size := userSize - pageSize }).insert
      0x1000000000 { MapRequest.stack.attributes with base := 0x1000000000, size := pageSize } }

theorem MapRequest.stack_call :
    stack.call .dev .roomy .booted = .ok (.ok 0x1000000000, .withStack) := by
  decide +kernel

theorem MemoryTrace.stack :
    Trace (MemoryStep .dev) .booted [.map .stack (.ok 0x1000000000)] .withStack :=
  .snoc .nil (.map Host.roomy_lawful (by decide) MapRequest.stack_call)

theorem vmaMap_refines_bytes_stack :
    attrAt MemoryManager.withStack.vmaMap =
      overwrite MemoryManager.booted.addressSpace.initialBytes 0x1000000000
        (0x1000000000 + roundUp 100 pageSize) MapRequest.stack.attributes :=
  (vmaMap_refines_bytes .dev HostBoot.low_lawful MemoryManager.new_low MemoryTrace.stack).2.1

/-- Blocks handed out at addresses the manager chose, while no later call has
touched them. -/
def MemoryEvent.liveBlocks (live : List Block) : MemoryEvent → List Block
  | .map r (.ok addr) =>
    if r.fixed then live.filter fun b => b.Apart (addr, roundUp r.size pageSize)
    else (addr, roundUp r.size pageSize) :: live
  | .unmap addr size (.ok _) => live.filter fun b => b.Apart (addr, roundUp size pageSize)
  | .map _ (.error _) | .unmap _ _ (.error _) => live

def MemoryEvent.MapsLive : MemoryEvent → Prop
  | .map r _ => r.vmaType ≠ .free
  | .unmap .. => True

/-- Live blocks are nonempty, pairwise apart, and hold no free byte. -/
structure LiveBlocks (live : List Block) (bytes : Nat → Option VMAAttributes) : Prop where
  apart : live.Pairwise Block.Apart
  nonempty : ∀ b ∈ live, 0 < b.2
  taken : ∀ b ∈ live, ∀ x, b.Contains x → ∃ a, bytes x = some a ∧ a.vmaType ≠ .free

namespace LiveBlocks

variable {live : List Block} {bytes : Nat → Option VMAAttributes}

theorem overwrite_apart (blocks : LiveBlocks live bytes) (addr size : Nat) (a : VMAAttributes) :
    LiveBlocks (live.filter fun b => b.Apart (addr, size))
      (overwrite bytes addr (addr + size) a) where
  apart := blocks.apart.sublist List.filter_sublist
  nonempty b member := blocks.nonempty b (List.mem_filter.mp member).1
  taken := by
    intro b member x inside
    obtain ⟨member, apart⟩ := List.mem_filter.mp member
    rw [overwrite_outside ((of_decide_eq_true apart).not_contains inside)]
    exact blocks.taken b member x inside

theorem cons_free (blocks : LiveBlocks live bytes) {addr size : Nat} {a : VMAAttributes}
    (nonempty : 0 < size) (isLive : a.vmaType ≠ .free)
    (wasFree : ∀ x, addr ≤ x → x < addr + size → ∃ a, bytes x = some a ∧ a.vmaType = .free) :
    LiveBlocks ((addr, size) :: live) (overwrite bytes addr (addr + size) a) := by
  have fresh : ∀ b ∈ live, Block.Apart (addr, size) b := by
    intro b member
    apply Block.apart_of_disjoint nonempty (blocks.nonempty b member)
    intro x inside taken
    obtain ⟨a, here, isFree⟩ := wasFree x inside.1 inside.2
    obtain ⟨a', here', notFree⟩ := blocks.taken b member x taken
    rw [here] at here'
    cases here'
    exact notFree isFree
  refine ⟨List.pairwise_cons.mpr ⟨fresh, blocks.apart⟩, ?_, ?_⟩
  · intro b member
    rcases List.mem_cons.mp member with rfl | member
    · exact nonempty
    · exact blocks.nonempty b member
  · intro b member x inside
    rcases List.mem_cons.mp member with rfl | member
    · exact ⟨a, overwrite_inside inside, isLive⟩
    · rw [overwrite_outside fun there => (fresh b member).not_contains there inside]
      exact blocks.taken b member x inside

end LiveBlocks

theorem MemoryStep.liveBlocks {p : Profile} {mm mm' : MemoryManager} {event : MemoryEvent}
    {live : List Block} (wf : mm.vmaMap.WellFormed) (mapsLive : event.MapsLive)
    (blocks : LiveBlocks live (attrAt mm.vmaMap)) (step : MemoryStep p mm event mm') :
    LiveBlocks (event.liveBlocks live) (attrAt mm'.vmaMap) := by
  cases step with
  | map lawful bounded returned =>
    rcases MemoryManager.mapMemory_cases lawful wf bounded returned with
      ⟨e, rfl, rfl⟩ | ⟨addr, map, rfl, rfl, -, nonempty, bytes, chosen⟩
    · exact blocks
    · simp only [MemoryEvent.liveBlocks, bytes]
      split
      · exact blocks.overwrite_apart _ _ _
      · next free =>
          rw [if_neg free] at chosen
          exact blocks.cons_free nonempty mapsLive chosen.2
  | unmap lawful bounded returned =>
    rcases MemoryManager.unmapMemory_cases lawful wf bounded returned with
      ⟨e, rfl, rfl⟩ | ⟨map, rfl, rfl, -, -, bytes⟩
    · exact blocks
    · simp only [MemoryEvent.liveBlocks, bytes]
      exact blocks.overwrite_apart _ _ _

/-- Addresses the manager chooses are page aligned and were entirely free, so
the blocks it hands out are pairwise disjoint as long as nobody unmaps them or
maps over them. -/
theorem chosen_blocks_disjoint (p : Profile) {boot : HostBoot} (lawful : boot.Lawful)
    {mm₀ mm : MemoryManager} (booted : MemoryManager.new boot = .ok mm₀)
    {events : List MemoryEvent} (run : Trace (MemoryStep p) mm₀ events mm)
    (mapsLive : ∀ event ∈ events, event.MapsLive) :
    (∀ (host : Host) (r : MapRequest) addr mm', host.Lawful → r.size ≤ hostLimit → ¬ r.fixed →
      r.call p host mm = .ok (.ok addr, mm') →
      pageSize ∣ addr ∧ ∀ x, addr ≤ x → x < addr + roundUp r.size pageSize →
        ∃ a, attrAt mm.vmaMap x = some a ∧ a.vmaType = .free) ∧
    (events.foldl MemoryEvent.liveBlocks []).Pairwise Block.Apart := by
  constructor
  · intro host r addr mm' answers bounded free returned
    obtain ⟨wf, -⟩ := MemoryTrace.refines lawful booted run
    rcases MemoryManager.mapMemory_cases answers wf bounded returned with
      ⟨e, failed, -⟩ | ⟨addr', map, mapped, -, -, -, -, chosen⟩
    · cases failed
    · cases mapped
      rwa [if_neg free] at chosen
  · obtain ⟨wf₀, -⟩ := MemoryManager.new_wellFormed lawful booted
    have blocks := Trace.ghost MemoryEvent.liveBlocks
      (fun live mm => mm.vmaMap.WellFormed ∧ LiveBlocks live (attrAt mm.vmaMap)) []
      ⟨wf₀, List.Pairwise.nil, by simp, by simp⟩
      (fun ⟨wf, blocks⟩ ⟨step, isLive⟩ => ⟨(step.refines wf).1, step.liveBlocks wf isLive blocks⟩)
      (run.guarded mapsLive)
    exact blocks.2.apart

def MapRequest.overlay : MapRequest :=
  { stack with virtualAddr := 0x1000000000, flags := MemoryMapFlags.fixed.union .anonymous }

/-- Three stacks, then a page over the first, which is unmapped again. -/
def MemoryEvent.threeStacks : List MemoryEvent :=
  [.map .stack (.ok 0x1000000000), .map .stack (.ok 0x1000004000), .map .stack (.ok 0x1000008000),
    .map .overlay (.ok 0x1000000000), .unmap 0x1000000000 100 (.ok ())]

theorem MemoryTrace.threeStacks :
    ∃ mm mm', Trace (MemoryStep .dev) .booted MemoryEvent.threeStacks mm ∧
      MapRequest.stack.call .dev .roomy mm = .ok (.ok 0x1000000000, mm') := by
  have answers : (do
      let first ← MapRequest.stack.call .dev .roomy .booted
      let second ← MapRequest.stack.call .dev .roomy first.2
      let third ← MapRequest.stack.call .dev .roomy second.2
      let overlaid ← MapRequest.overlay.call .dev .roomy third.2
      let unmapped ← overlaid.2.unmapMemory .dev .roomy 0x1000000000 100
      let again ← MapRequest.stack.call .dev .roomy unmapped.2
      return ([first.1, second.1, third.1, overlaid.1, again.1], unmapped.1)) =
      Outcome.ok ([.ok 0x1000000000, .ok 0x1000004000, .ok 0x1000008000, .ok 0x1000000000,
        .ok 0x1000000000], .ok ()) := by decide +kernel
  obtain ⟨⟨_, mm₁⟩, first, answers⟩ := Outcome.bind_eq_ok.mp answers
  obtain ⟨⟨_, mm₂⟩, second, answers⟩ := Outcome.bind_eq_ok.mp answers
  obtain ⟨⟨_, mm₃⟩, third, answers⟩ := Outcome.bind_eq_ok.mp answers
  obtain ⟨⟨_, mm₄⟩, overlaid, answers⟩ := Outcome.bind_eq_ok.mp answers
  obtain ⟨⟨_, mm₅⟩, unmapped, answers⟩ := Outcome.bind_eq_ok.mp answers
  obtain ⟨⟨_, mm₆⟩, again, answers⟩ := Outcome.bind_eq_ok.mp answers
  cases answers
  have small : MapRequest.stack.size ≤ hostLimit := by decide
  have maps : Trace (MemoryStep .dev) .booted _ mm₃ :=
    .snoc (.snoc (.snoc .nil (.map Host.roomy_lawful small first))
      (.map Host.roomy_lawful small second)) (.map Host.roomy_lawful small third)
  have lays : MemoryStep .dev mm₃ (.map .overlay (.ok 0x1000000000)) mm₄ :=
    .map Host.roomy_lawful small overlaid
  have unmaps : MemoryStep .dev mm₄ (.unmap 0x1000000000 100 (.ok ())) mm₅ :=
    .unmap Host.roomy_lawful small unmapped
  exact ⟨mm₅, mm₆, (maps.snoc lays).snoc unmaps, again⟩

theorem chosen_blocks_disjoint_stacks :
    ∃ mm mm', Trace (MemoryStep .dev) .booted MemoryEvent.threeStacks mm ∧
      MapRequest.stack.call .dev .roomy mm = .ok (.ok 0x1000000000, mm') ∧
      (∀ x, 0x1000000000 ≤ x → x < 0x1000000000 + roundUp 100 pageSize →
        ∃ a, attrAt mm.vmaMap x = some a ∧ a.vmaType = .free) ∧
      MemoryEvent.threeStacks.foldl MemoryEvent.liveBlocks [] =
        [(0x1000008000, pageSize), (0x1000004000, pageSize)] ∧
      [(0x1000008000, pageSize), (0x1000004000, pageSize)].Pairwise Block.Apart := by
  obtain ⟨mm, mm', run, again⟩ := MemoryTrace.threeStacks
  have live : MemoryEvent.threeStacks.foldl MemoryEvent.liveBlocks [] =
      [(0x1000008000, pageSize), (0x1000004000, pageSize)] := by decide +kernel
  obtain ⟨chosen, apart⟩ := chosen_blocks_disjoint .dev HostBoot.low_lawful MemoryManager.new_low
    run fun event member => by
      simp only [MemoryEvent.threeStacks, List.mem_cons, List.not_mem_nil, or_false] at member
      rcases member with rfl | rfl | rfl | rfl | rfl
      all_goals simp [MemoryEvent.MapsLive, MapRequest.stack, MapRequest.overlay]
  rw [live] at apart
  exact ⟨mm, mm', run, again, (chosen .roomy .stack _ _ Host.roomy_lawful (by decide) (by decide)
    again).2, live, apart⟩

end AnotherPs4
