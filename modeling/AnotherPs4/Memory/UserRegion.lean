import AnotherPs4.Memory.Calls

/-!
# Free areas and the user region

At boot the only free area is the user region. Unmapping stores a free area at
whatever address the guest names, so the free areas stay in the region exactly
as long as every range that is unmapped lies in it.
-/

namespace AnotherPs4

open Rust RangeMap Transition

def AddressSpace.InUser (space : AddressSpace) (addr size : Nat) : Prop :=
  space.userBase ≤ addr ∧ addr + size ≤ space.userBase + space.userSize

instance (space : AddressSpace) (addr size : Nat) : Decidable (space.InUser addr size) :=
  inferInstanceAs (Decidable (_ ∧ _))

theorem AddressSpace.inUser_iff {space : AddressSpace} {addr size : Nat} (nonempty : 0 < size) :
    space.InUser addr size ↔ ∀ x, addr ≤ x → x < addr + size → space.InUser x 1 := by
  unfold InUser
  constructor
  · intro inside x above below
    omega
  · intro all
    have first := all addr (by omega) (by omega)
    have last := all (addr + size - 1) (by omega) (by omega)
    omega

namespace MemoryManager

def FreeInUser (mm : MemoryManager) : Prop :=
  ∀ ⦃k : Nat⦄ ⦃vma : VirtualMemoryArea⦄, mm.vmaMap[k]? = some vma → vma.vmaType = .free →
    mm.addressSpace.InUser vma.base vma.size

theorem freeInUser_iff {mm : MemoryManager} (wf : mm.vmaMap.WellFormed) :
    mm.FreeInUser ↔ ∀ x a, attrAt mm.vmaMap x = some a →
      a.vmaType = .free → mm.addressSpace.InUser x 1 := by
  constructor
  · intro inside x a found isFree
    obtain ⟨k, vma, stored, covered, rfl⟩ := (attrAt_eq_some wf.separated).mp found
    have area := inside stored isFree
    exact (AddressSpace.inUser_iff (wf.positive stored)).mp area x covered.1 covered.2
  · intro bytes k vma stored isFree
    apply (AddressSpace.inUser_iff (wf.positive stored)).mpr
    intro x above below
    refine bytes x vma.toVMAAttributes ?_ isFree
    exact (attrAt_eq_some wf.separated).mpr ⟨k, vma, stored, ⟨above, below⟩, rfl⟩

theorem new_freeInUser {boot : HostBoot} (lawful : boot.Lawful) {mm : MemoryManager}
    (booted : new boot = .ok mm) : mm.FreeInUser := by
  obtain ⟨wf, initial⟩ := new_wellFormed lawful booted
  rw [freeInUser_iff wf, initial]
  intro x a found _
  unfold AddressSpace.initialBytes at found
  split at found
  · next inside => exact inside
  · cases found

end MemoryManager

/-- A call that stores a free area stores it in the user region. -/
def MemoryEvent.FreesInUser (space : AddressSpace) : MemoryEvent → Prop
  | .unmap virtualAddr size (.ok _) => space.InUser virtualAddr (roundUp size pageSize)
  | .map r (.ok _) =>
    r.fixed → r.vmaType = .free → space.InUser r.virtualAddr (roundUp r.size pageSize)
  | .map _ (.error _) | .unmap _ _ (.error _) => True

section Step

variable {p : Profile} {mm mm' : MemoryManager} {event : MemoryEvent}
  (wf : mm.vmaMap.WellFormed) (inside : mm.FreeInUser) (call : MemoryCall p mm event mm')

include wf inside call

theorem MemoryCall.chosen_inUser {r : MapRequest} {addr : Nat} (isMap : event = .map r (.ok addr))
    (free : ¬ r.fixed) : mm.addressSpace.InUser addr (roundUp r.size pageSize) := by
  obtain ⟨-, effect⟩ := call.effect wf
  cases effect with
  | mapped nonempty bytes chosen =>
    cases isMap
    rw [if_neg free] at chosen
    rw [AddressSpace.inUser_iff nonempty]
    intro x above below
    obtain ⟨a, found, isFree⟩ := chosen.2 x above below
    exact (MemoryManager.freeInUser_iff wf).mp inside x a found isFree
  | failedMap => cases isMap
  | failedUnmap => cases isMap
  | unmapped => cases isMap

/-- From a good state a call leads to a good state exactly if it stores no
free area elsewhere. -/
theorem MemoryCall.freeInUser_iff :
    mm'.FreeInUser ↔ event.FreesInUser mm.addressSpace := by
  have old := (MemoryManager.freeInUser_iff wf).mp inside
  have chosenInside : ∀ r addr, event = .map r (.ok addr) → ¬ r.fixed →
      mm.addressSpace.InUser addr (roundUp r.size pageSize) :=
    fun r addr => call.chosen_inUser wf inside
  obtain ⟨wf', effect⟩ := call.effect wf
  have elsewhere : ∀ {lo hi : Nat} x (a : VMAAttributes), ¬ (lo ≤ x ∧ x < hi) →
      attrAt mm.vmaMap x = some a → a.vmaType = .free → mm.addressSpace.InUser x 1 :=
    fun x a _ found isFree => old x a found isFree
  rw [MemoryManager.freeInUser_iff wf', effect.addressSpace_eq]
  cases effect with
  | failedMap => exact iff_of_true old trivial
  | failedUnmap => exact iff_of_true old trivial
  | @mapped r addr map nonempty bytes chosen =>
    simp only [bytes, forall_overwrite, MemoryEvent.FreesInUser]
    rw [and_iff_left elsewhere]
    by_cases fixed : r.fixed
    · rw [if_pos fixed] at chosen
      subst chosen
      rw [AddressSpace.inUser_iff nonempty]
      exact ⟨fun all _ isFree x above below => all x above below isFree,
        fun all x above below isFree => all fixed isFree x above below⟩
    · have region := (AddressSpace.inUser_iff nonempty).mp (chosenInside _ _ rfl fixed)
      exact iff_of_true (fun x above below _ => region x above below)
        (fun isFixed => absurd isFixed fixed)
  | unmapped nonempty bytes =>
    simp only [bytes, forall_overwrite, MemoryEvent.FreesInUser]
    rw [and_iff_left elsewhere, AddressSpace.inUser_iff nonempty]
    exact ⟨fun all x above below => all x above below rfl,
      fun all x above below _ => all x above below⟩

end Step

/-- The invariant of runs that unmap only ranges of the user region. -/
structure MemoryManager.Regional (space : AddressSpace) (mm : MemoryManager) : Prop where
  wf : mm.vmaMap.WellFormed
  inside : mm.FreeInUser
  sameSpace : mm.addressSpace = space

theorem MemoryCall.regional {p : Profile} {space : AddressSpace} {mm mm' : MemoryManager}
    {event : MemoryEvent} (regional : mm.Regional space) (call : MemoryCall p mm event mm')
    (inRegion : event.FreesInUser space) : mm'.Regional space := by
  obtain ⟨wf, inside, rfl⟩ := regional
  obtain ⟨wf', effect⟩ := call.effect wf
  exact ⟨wf', (call.freeInUser_iff wf inside).mpr inRegion, effect.addressSpace_eq⟩

/-- In a run that unmaps only ranges of the user region, the free areas and all
addresses the manager chooses lie in it. The next call keeps this exactly if it
unmaps no other range. -/
theorem freeInUser_iff_unmaps_inUser (p : Profile) {boot : HostBoot} (lawful : boot.Lawful)
    {mm₀ mm : MemoryManager} (booted : MemoryManager.new boot = .ok mm₀)
    {events : List MemoryEvent} (run : Trace (MemoryCall p) mm₀ events mm)
    (inRegion : ∀ event ∈ events, event.FreesInUser mm₀.addressSpace) :
    mm.addressSpace = mm₀.addressSpace ∧ mm.FreeInUser ∧
    (∀ (host : Host) (r : MapRequest) addr mm', host.Lawful → r.size < 2 ^ 64 → ¬ r.fixed →
      r.call p host mm = .ok (.ok addr, mm') →
      mm.addressSpace.InUser addr (roundUp r.size pageSize)) ∧
    ∀ event mm', MemoryCall p mm event mm' →
      (mm'.FreeInUser ↔ event.FreesInUser mm.addressSpace) := by
  obtain ⟨wf₀, -⟩ := MemoryManager.new_wellFormed lawful booted
  obtain ⟨wf, inside, space⟩ : mm.Regional mm₀.addressSpace :=
    Trace.invariant ⟨wf₀, MemoryManager.new_freeInUser lawful booted, rfl⟩
      (fun regional ⟨call, allowed⟩ => call.regional regional allowed) (run.guarded inRegion)
  refine ⟨space, inside, ?_, fun event mm' call => call.freeInUser_iff wf inside⟩
  intro host r addr mm' answers word free returned
  exact (MemoryCall.map answers word returned).chosen_inUser wf inside rfl free

namespace MemoryManager

def withLowPage : MemoryManager :=
  { booted with vmaMap := booted.vmaMap.insert 0x10000 (freePage 0x10000) }

end MemoryManager

theorem freeInUser_iff_unmaps_inUser_firstPage :
    MemoryManager.withoutFirstPage.FreeInUser :=
  (freeInUser_iff_unmaps_inUser .dev HostBoot.low_lawful MemoryManager.new_low
    (.snoc .nil .unmapFirstPage) fun event member => by
      obtain rfl := List.mem_singleton.mp member
      exact (by decide : MemoryManager.booted.addressSpace.InUser 0x1000000000 pageSize)).2.1

/-- After `munmap` of a page below the user region the next allocation is put there. -/
theorem unmap_frees_elsewhere :
    ∃ events mm mm', Trace (MemoryCall .dev) .booted events mm ∧ ¬ mm.FreeInUser ∧
      ¬ MapRequest.stack.fixed ∧
      MapRequest.stack.call .dev .roomy mm = .ok (.ok 0x10000, mm') ∧
      ¬ mm.addressSpace.InUser 0x10000 (roundUp MapRequest.stack.size pageSize) := by
  have run : Trace (MemoryCall .dev) .booted [.unmap 0x10000 pageSize (.ok ())] .withLowPage :=
    .snoc .nil (.unmap Host.roomy_lawful (by decide) (by decide +kernel))
  let stackArea : VirtualMemoryArea :=
    { MapRequest.stack.attributes with base := 0x10000, size := pageSize }
  let mapped : MemoryManager :=
    { MemoryManager.booted with
      vmaMap := MemoryManager.booted.vmaMap.insert 0x10000 stackArea }
  refine ⟨_, _, mapped, run, ?_, by decide, by decide +kernel, by decide⟩
  intro inside
  have stored : MemoryManager.withLowPage.vmaMap[0x10000]? =
      some (MemoryManager.freePage 0x10000) := by decide +kernel
  exact absurd (inside stored rfl) (by decide)

end AnotherPs4
