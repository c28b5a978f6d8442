import AnotherPs4.Memory.Calls

/-!
# Owners of host pages

Host pages belong to the emulator, to the rest of the process, or to nobody.
`mmap` takes the pages of its range, `munmap` gives them up, and the host may
hand any page nobody owns to the rest of the process. An unmapped range stays
on record as free, so the record keeps to the reservation only while nothing is
unmapped.
-/

namespace AnotherPs4

open Rust RangeMap Transition

inductive Owner where
  | emulator
  | process
  | nobody
  deriving DecidableEq, Repr

def hostPageSize : Nat := 4096

/-- The owner of each host page. -/
abbrev Owners := Nat → Owner

def Owners.give (owners : Owners) (addr size : Nat) (new : Owner) : Owners := fun page =>
  if addr < (page + 1) * hostPageSize ∧ page * hostPageSize < addr + size then new
  else owners page

theorem div_hostPageSize (x : Nat) : x / hostPageSize * hostPageSize ≤ x ∧
    x < (x / hostPageSize + 1) * hostPageSize := by
  have high := Nat.lt_mul_div_succ x (show 0 < hostPageSize by decide)
  rw [Nat.mul_comm] at high
  exact ⟨Nat.div_mul_le_self x hostPageSize, high⟩

theorem Owners.give_inside {owners : Owners} {addr size x : Nat} {new : Owner}
    (above : addr ≤ x) (below : x < addr + size) :
    owners.give addr size new (x / hostPageSize) = new := by
  obtain ⟨low, high⟩ := div_hostPageSize x
  exact if_pos ⟨by omega, by omega⟩

theorem Owners.give_emulator {owners : Owners} {addr size page : Nat}
    (owned : owners page = .emulator) : owners.give addr size .emulator page = .emulator := by
  unfold give
  split
  · rfl
  · exact owned

def MemoryEvent.transfer (owners : Owners) : MemoryEvent → Owners
  | .map r (.ok addr) => owners.give addr (roundUp r.size pageSize) .emulator
  | .unmap virtualAddr size (.ok _) => owners.give virtualAddr (roundUp size pageSize) .nobody
  | .map _ (.error _) | .unmap _ _ (.error _) => owners

/-- The memory manager in the address space of its process. -/
structure OwnedMemory where
  memory : MemoryManager
  owners : Owners

inductive OwnershipEvent where
  | call (event : MemoryEvent)
  | grab (page : Nat)

inductive OwnershipStep (p : Profile) : OwnedMemory → OwnershipEvent → OwnedMemory → Prop where
  | call {memory owners event memory'} : MemoryCall p memory event memory' →
      OwnershipStep p ⟨memory, owners⟩ (.call event) ⟨memory', event.transfer owners⟩
  | grab {memory owners page} : owners page = .nobody →
      OwnershipStep p ⟨memory, owners⟩ (.grab page) ⟨memory, Function.update owners page .process⟩

/-- The step is not an `unmap_memory` that succeeds. -/
def OwnershipEvent.Reserves : OwnershipEvent → Prop
  | .call (.unmap _ _ (.ok _)) => False
  | _ => True

/-- The pages of free areas are the emulator's. -/
def OwnedMemory.FreeReserved (s : OwnedMemory) : Prop :=
  ∀ x a, attrAt s.memory.vmaMap x = some a → a.vmaType = .free →
    s.owners (x / hostPageSize) = .emulator

/-- From a state with reserved free areas, a step keeps them reserved exactly if
it unmaps nothing. -/
theorem OwnershipStep.freeReserved_iff {p : Profile} {s s' : OwnedMemory} {event : OwnershipEvent}
    (wf : s.memory.vmaMap.WellFormed) (reserved : s.FreeReserved)
    (step : OwnershipStep p s event s') : s'.FreeReserved ↔ event.Reserves := by
  cases step with
  | grab unowned =>
    refine iff_of_true (fun x a found isFree => ?_) trivial
    have owned := reserved x a found isFree
    refine (Function.update_of_ne ?_ _ _).trans owned
    rintro rfl
    exact absurd (unowned.symm.trans owned) (by decide)
  | call call =>
    obtain ⟨-, effect⟩ := call.effect wf
    unfold OwnedMemory.FreeReserved at reserved ⊢
    cases effect with
    | failedMap => exact iff_of_true reserved trivial
    | failedUnmap => exact iff_of_true reserved trivial
    | mapped nonempty bytes chosen =>
      simp only [bytes, forall_overwrite, MemoryEvent.transfer]
      refine iff_of_true ⟨?_, ?_⟩ trivial
      · intro x above below _
        exact Owners.give_inside above below
      · intro x a _ found isFree
        exact Owners.give_emulator (reserved x a found isFree)
    | @unmapped virtualAddr size map nonempty bytes =>
      simp only [bytes, forall_overwrite, MemoryEvent.transfer]
      refine iff_of_false (fun reserved => ?_) id
      have owned := reserved.1 virtualAddr le_rfl (Nat.lt_add_of_pos_right nonempty) rfl
      rw [Owners.give_inside le_rfl (Nat.lt_add_of_pos_right nonempty)] at owned
      cases owned

/-- The invariant of runs that unmap nothing. -/
structure OwnedMemory.Reserved (s : OwnedMemory) : Prop where
  wf : s.memory.vmaMap.WellFormed
  free : s.FreeReserved

theorem OwnershipStep.reserved {p : Profile} {s s' : OwnedMemory} {event : OwnershipEvent}
    (reserved : s.Reserved) (step : OwnershipStep p s event s') (keeps : event.Reserves) :
    s'.Reserved := by
  refine ⟨?_, (step.freeReserved_iff reserved.wf reserved.free).mpr keeps⟩
  cases step with
  | grab => exact reserved.wf
  | call call => exact (call.effect reserved.wf).1

/-- In a run that unmaps nothing, whatever the host does with the pages nobody
owns, all free areas stay reserved, and where the manager lets `mmap` overwrite
a range of the host address space it owns every page of that range. The next
step keeps this exactly if it unmaps nothing. -/
theorem freeReserved_iff_never_unmaps (p : Profile) {boot : HostBoot} (lawful : boot.Lawful)
    {mm₀ : MemoryManager} (booted : MemoryManager.new boot = .ok mm₀) {owners : Owners}
    (reserved : ∀ x, mm₀.addressSpace.userBase ≤ x →
      x < mm₀.addressSpace.userBase + mm₀.addressSpace.userSize →
      owners (x / hostPageSize) = .emulator)
    {events : List OwnershipEvent} {s : OwnedMemory}
    (run : Trace (OwnershipStep p) ⟨mm₀, owners⟩ events s)
    (neverUnmaps : ∀ event ∈ events, event.Reserves) :
    s.FreeReserved ∧
    (∀ (r : MapRequest) addr size, ¬ r.fixed → r.range p s.memory = .ok (.ok (addr, size)) →
      addr + size ≤ hostLimit → ∀ x, addr ≤ x → x < addr + size →
      s.owners (x / hostPageSize) = .emulator) ∧
    ∀ event s', OwnershipStep p s event s' → (s'.FreeReserved ↔ event.Reserves) := by
  obtain ⟨wf₀, initial⟩ := MemoryManager.new_wellFormed lawful booted
  have start : OwnedMemory.Reserved ⟨mm₀, owners⟩ := by
    refine ⟨wf₀, fun x a found _ => ?_⟩
    rw [initial] at found
    unfold AddressSpace.initialBytes at found
    split at found
    · next inside => exact reserved x inside.1 inside.2
    · cases found
  obtain ⟨wf, freeReserved⟩ : s.Reserved :=
    Trace.invariant start (fun reserved ⟨step, keeps⟩ => step.reserved reserved keeps)
      (run.guarded neverUnmaps)
  refine ⟨freeReserved, ?_, fun event s' step => step.freeReserved_iff wf freeReserved⟩
  intro r addr size free issued inAddressSpace x above below
  have found := (MapRequest.range_eq_ok.mp issued).2
  rw [MapRequest.target, if_pos (MapRequest.not_fixed.mp free)] at found
  rcases MemoryManager.findFreeRegion_spec (ε := Empty) p wf
      (show size ≤ hostLimit by omega) with ⟨e, none⟩ | ⟨addr', found', -, isFree⟩
  · rw [none] at found
    cases found
  · rw [found'] at found
    cases found
    obtain ⟨a, stored, isFree⟩ := isFree x above below
    exact freeReserved x a stored isFree

/-- Owners after boot: the reservation of the user region, and pages nobody owns. -/
def AddressSpace.bootOwners (space : AddressSpace) : Owners := fun page =>
  if space.userBase ≤ (page + 1) * hostPageSize - 1 ∧
      page * hostPageSize < space.userBase + space.userSize then .emulator
  else .nobody

theorem AddressSpace.bootOwners_user {space : AddressSpace} {x : Nat}
    (above : space.userBase ≤ x) (below : x < space.userBase + space.userSize) :
    space.bootOwners (x / hostPageSize) = .emulator := by
  obtain ⟨low, high⟩ := div_hostPageSize x
  exact if_pos ⟨by omega, by omega⟩

theorem freeReserved_iff_never_unmaps_stack :
    OwnedMemory.FreeReserved ⟨.withStack, (MemoryEvent.map .stack (.ok 0x1000000000)).transfer
      (Function.update MemoryManager.booted.addressSpace.bootOwners 0 .process)⟩ :=
  have run : Trace (OwnershipStep .dev) ⟨.booted, MemoryManager.booted.addressSpace.bootOwners⟩
      [.grab 0, .call (.map .stack (.ok 0x1000000000))] _ :=
    .snoc (.snoc .nil (.grab (by decide))) (.call .mapStack)
  (freeReserved_iff_never_unmaps .dev HostBoot.low_lawful MemoryManager.new_low
    (fun _ => AddressSpace.bootOwners_user) run fun event member => by
      rcases List.mem_pair.mp member with rfl | rfl <;> trivial).1

/-- The host gives an unmapped page to the process, and the next allocation
overwrites it. -/
theorem mmap_overwrites_process :
    ∃ events s mm', Trace (OwnershipStep .dev)
        ⟨.booted, MemoryManager.booted.addressSpace.bootOwners⟩ events s ∧
      ¬ MapRequest.stack.fixed ∧
      MapRequest.stack.range .dev s.memory = .ok (.ok (0x1000000000, pageSize)) ∧
      MapRequest.stack.call .dev .roomy s.memory = .ok (.ok 0x1000000000, mm') ∧
      s.owners (0x1000000000 / hostPageSize) = .process := by
  have run : Trace (OwnershipStep .dev) ⟨.booted, MemoryManager.booted.addressSpace.bootOwners⟩
      [.call (.unmap 0x1000000000 pageSize (.ok ())), .grab (0x1000000000 / hostPageSize)] _ :=
    .snoc (.snoc .nil (.call .unmapFirstPage)) (.grab (by decide))
  exact ⟨_, _, .withStack, run, by decide, by decide +kernel, by decide +kernel, by decide⟩

end AnotherPs4
