import AnotherPs4.Memory.Calls

/-!
# Recorded and real protection

The area map records the protection each caller asked for. The host protection
of a byte is what the last call that reached the host set there: `mmap` knows
only whether code may run, and `mprotect` leaves the record alone.
-/

namespace AnotherPs4

open Rust RangeMap Transition

/-- Protection of a host page. -/
structure PageProt where
  read : Bool
  write : Bool
  exec : Bool
  deriving DecidableEq, Repr

def PageProt.none : PageProt := ⟨false, false, false⟩

def MemoryProt.cpu (prot : MemoryProt) : PageProt where
  read := prot.contains .cpuRead
  write := prot.contains .cpuWrite
  exec := prot.contains .cpuExec

inductive ProtectError where
  | mprotectFailed (addr size : Nat)
  deriving DecidableEq, Repr

/-- Answers of the kernel to `mprotect`. -/
abbrev Mprotect := (addr size : Nat) → PageProt → Bool

namespace AddressSpace

def mapProt (executable : Bool) : PageProt :=
  if executable then ⟨true, true, true⟩ else ⟨true, true, false⟩

def protect (mprotect : Mprotect) (virtualAddr size : Nat) (read write exec : Bool) :
    Except ProtectError Unit :=
  if mprotect virtualAddr size ⟨read, write, exec⟩ then .ok ()
  else .error (.mprotectFailed virtualAddr size)

end AddressSpace

/-- Only the host is told: the manager is not changed. -/
def MemoryManager.protectMemory (mprotect : Mprotect) (_mm : MemoryManager) (addr size : Nat)
    (prot : MemoryProt) : Except ProtectError Unit :=
  let read := prot.contains .cpuRead
  let write := prot.contains .cpuWrite
  let exec := prot.contains .cpuExec
  AddressSpace.protect mprotect addr size read write exec

def VMAAttributes.isMapped (a : VMAAttributes) : Bool :=
  match a.vmaType with
  | .free | .reserved | .poolReserved => false
  | _ => true

/-- The memory manager and the host protection of each byte. -/
structure ProtectedMemory where
  memory : MemoryManager
  page : Nat → PageProt

def setPages (page : Nat → PageProt) (addr size : Nat) (prot : PageProt) : Nat → PageProt :=
  fun x => if addr ≤ x ∧ x < addr + size then prot else page x

theorem setPages_inside {page : Nat → PageProt} {addr size x : Nat} {prot : PageProt}
    (above : addr ≤ x) (below : x < addr + size) : setPages page addr size prot x = prot :=
  if_pos ⟨above, below⟩

theorem setPages_outside {page : Nat → PageProt} {addr size x : Nat} {prot : PageProt}
    (outside : ¬ (addr ≤ x ∧ x < addr + size)) : setPages page addr size prot x = page x :=
  if_neg outside

def MemoryEvent.protects (page : Nat → PageProt) : MemoryEvent → Nat → PageProt
  | .map r (.ok addr) =>
    setPages page addr (roundUp r.size pageSize) (AddressSpace.mapProt (r.prot.contains .cpuExec))
  | .unmap virtualAddr size (.ok _) => setPages page virtualAddr (roundUp size pageSize) .none
  | .map _ (.error _) | .unmap _ _ (.error _) => page

inductive ProtectionEvent where
  | call (event : MemoryEvent)
  | protect (addr size : Nat) (prot : MemoryProt) (result : Except ProtectError Unit)

def ProtectionEvent.protects (page : Nat → PageProt) : ProtectionEvent → Nat → PageProt
  | .call event => event.protects page
  | .protect addr size prot (.ok _) => setPages page addr size prot.cpu
  | .protect _ _ _ (.error _) => page

/-- `protect_memory` is given page-aligned ranges. -/
inductive ProtectionStep (p : Profile) :
    ProtectedMemory → ProtectionEvent → ProtectedMemory → Prop where
  | call {memory page event memory'} : MemoryCall p memory event memory' →
      ProtectionStep p ⟨memory, page⟩ (.call event) ⟨memory', event.protects page⟩
  | protect {memory page mprotect addr size prot result} : pageSize ∣ addr → pageSize ∣ size →
      memory.protectMemory mprotect addr size prot = result →
      ProtectionStep p ⟨memory, page⟩ (.protect addr size prot result)
        ⟨memory, (ProtectionEvent.protect addr size prot result).protects page⟩

namespace ProtectedMemory

/-- The record of every mapped area is the protection of each of its bytes. -/
def Agrees (s : ProtectedMemory) : Prop :=
  ∀ ⦃k : Nat⦄ ⦃vma : VirtualMemoryArea⦄, s.memory.vmaMap[k]? = some vma → vma.isMapped →
    ∀ x, Covers vma x → vma.prot.cpu = s.page x

theorem agrees_iff {s : ProtectedMemory} (wf : s.memory.vmaMap.WellFormed) :
    s.Agrees ↔ ∀ x a, attrAt s.memory.vmaMap x = some a → a.isMapped → a.prot.cpu = s.page x := by
  constructor
  · intro areas x a found isMapped
    obtain ⟨k, vma, stored, covered, rfl⟩ := (attrAt_eq_some wf.separated).mp found
    exact areas stored isMapped x covered
  · intro bytes k vma stored isMapped x covered
    exact bytes x vma.toVMAAttributes
      ((attrAt_eq_some wf.separated).mpr ⟨k, vma, stored, covered, rfl⟩) isMapped

end ProtectedMemory

/-- The host is told what the record says: an area is mapped with both read and
write access, and `protect_memory` repeats what is recorded for the bytes of
its range. -/
def ProtectionEvent.Recorded (s : ProtectedMemory) : ProtectionEvent → Prop
  | .call (.map r (.ok _)) =>
    r.attributes.isMapped → r.prot.contains .cpuRead ∧ r.prot.contains .cpuWrite
  | .protect addr size prot (.ok _) =>
    ∀ x, addr ≤ x → x < addr + size → ∀ a, attrAt s.memory.vmaMap x = some a → a.isMapped →
      a.prot.cpu = prot.cpu
  | _ => True

theorem MemoryProt.cpu_eq_mapProt {prot : MemoryProt} :
    prot.cpu = AddressSpace.mapProt (prot.contains .cpuExec) ↔
      prot.contains .cpuRead ∧ prot.contains .cpuWrite := by
  unfold cpu AddressSpace.mapProt
  cases prot.contains .cpuExec <;> simp

theorem VMAAttributes.not_isMapped_free : ¬ MemoryManager.freeAttributes.isMapped := by decide

section Bytes

variable {bytes : Nat → Option VMAAttributes} {page : Nat → PageProt} {addr size : Nat}
  {prot : PageProt}
  (old : ∀ x a, bytes x = some a → a.isMapped → a.prot.cpu = page x)

include old

theorem agrees_outside {x : Nat} {a : VMAAttributes} (outside : ¬ (addr ≤ x ∧ x < addr + size))
    (found : bytes x = some a) (isMapped : a.isMapped) :
    a.prot.cpu = setPages page addr size prot x :=
  (old x a found isMapped).trans (setPages_outside outside).symm

theorem agrees_protect_iff :
    (∀ x a, bytes x = some a → a.isMapped → a.prot.cpu = setPages page addr size prot x) ↔
      ∀ x, addr ≤ x → x < addr + size → ∀ a, bytes x = some a → a.isMapped → a.prot.cpu = prot := by
  constructor
  · intro all x above below a found isMapped
    exact (all x a found isMapped).trans (setPages_inside above below)
  · intro recorded x a found isMapped
    by_cases inside : addr ≤ x ∧ x < addr + size
    · exact (recorded x inside.1 inside.2 a found isMapped).trans
        (setPages_inside inside.1 inside.2).symm
    · exact agrees_outside old inside found isMapped

/-- A range that gets a new record agrees exactly if the record says what the
host is told. -/
theorem agrees_overwrite_iff (nonempty : 0 < size) {b : VMAAttributes} :
    (∀ x a, overwrite bytes addr (addr + size) b x = some a → a.isMapped →
      a.prot.cpu = setPages page addr size prot x) ↔ (b.isMapped → b.prot.cpu = prot) := by
  rw [forall_overwrite, and_iff_left fun x a outside => agrees_outside old outside]
  constructor
  · intro all isMapped
    have first := all addr le_rfl (Nat.lt_add_of_pos_right nonempty) isMapped
    exact first.trans (setPages_inside le_rfl (Nat.lt_add_of_pos_right nonempty))
  · intro recorded x above below isMapped
    exact (recorded isMapped).trans (setPages_inside above below).symm

end Bytes

/-- From a state where both records agree, a step keeps them in agreement
exactly if the host is told what is recorded. -/
theorem ProtectionStep.agrees_iff {p : Profile} {s s' : ProtectedMemory} {event : ProtectionEvent}
    (wf : s.memory.vmaMap.WellFormed) (agrees : s.Agrees) (step : ProtectionStep p s event s') :
    s'.memory.vmaMap.WellFormed ∧ (s'.Agrees ↔ event.Recorded s) := by
  have old := (ProtectedMemory.agrees_iff wf).mp agrees
  cases step with
  | @protect memory page mprotect addr size prot result _ _ _ =>
    refine ⟨wf, Iff.trans (ProtectedMemory.agrees_iff (by exact wf)) ?_⟩
    cases result with
    | error e => exact iff_of_true old trivial
    | ok done => exact agrees_protect_iff old
  | @call memory page event memory' call =>
    obtain ⟨wf', effect⟩ := call.effect wf
    refine ⟨wf', Iff.trans (ProtectedMemory.agrees_iff (by exact wf')) ?_⟩
    cases effect with
    | failedMap => exact iff_of_true old trivial
    | failedUnmap => exact iff_of_true old trivial
    | @mapped r addr map nonempty bytes chosen =>
      simp only [bytes]
      apply (agrees_overwrite_iff old nonempty).trans
      change _ ↔ (r.attributes.isMapped → r.prot.contains .cpuRead ∧ r.prot.contains .cpuWrite)
      rw [← MemoryProt.cpu_eq_mapProt]
      rfl
    | @unmapped virtualAddr size map nonempty bytes =>
      simp only [bytes]
      refine iff_of_true ((agrees_overwrite_iff old nonempty).mpr fun isMapped => ?_) trivial
      exact absurd isMapped VMAAttributes.not_isMapped_free

/-- The invariant of runs that tell the host what is recorded. -/
structure ProtectedMemory.Faithful (s : ProtectedMemory) : Prop where
  wf : s.memory.vmaMap.WellFormed
  agrees : s.Agrees

/-- The record is the real protection of every mapped byte as long as each step
of the run tells the host what is recorded. The next step keeps this exactly if
it does the same. -/
theorem agrees_iff_recorded (p : Profile) {boot : HostBoot} (lawful : boot.Lawful)
    {mm₀ : MemoryManager} (booted : MemoryManager.new boot = .ok mm₀) (page : Nat → PageProt)
    {events : List ProtectionEvent} {s : ProtectedMemory}
    (run : Trace (fun s event s' => ProtectionStep p s event s' ∧ event.Recorded s)
      ⟨mm₀, page⟩ events s) :
    s.Agrees ∧ ∀ event s', ProtectionStep p s event s' → (s'.Agrees ↔ event.Recorded s) := by
  obtain ⟨wf₀, initial⟩ := MemoryManager.new_wellFormed lawful booted
  have start : ProtectedMemory.Faithful ⟨mm₀, page⟩ := by
    refine ⟨wf₀, (ProtectedMemory.agrees_iff wf₀).mpr fun x a found isMapped => ?_⟩
    rw [initial] at found
    unfold AddressSpace.initialBytes at found
    split at found
    · cases found
      exact absurd isMapped VMAAttributes.not_isMapped_free
    · cases found
  obtain ⟨wf, agrees⟩ : s.Faithful :=
    Trace.invariant start (fun ⟨wf, agrees⟩ ⟨step, recorded⟩ =>
      have kept := step.agrees_iff wf agrees
      ⟨kept.1, kept.2.mpr recorded⟩) run
  exact ⟨agrees, fun event s' step => (step.agrees_iff wf agrees).2⟩

def ProtectedMemory.withStack : ProtectedMemory :=
  ⟨.withStack, (MemoryEvent.map .stack (.ok 0x1000000000)).protects fun _ => .none⟩

def ProtectionEvent.protectStack (prot : MemoryProt) : ProtectionEvent :=
  .protect 0x1000000000 pageSize prot (.ok ())

theorem ProtectionStep.stack (prot : MemoryProt) :
    ProtectionStep .dev .withStack (.protectStack prot)
      ⟨.withStack, (ProtectionEvent.protectStack prot).protects ProtectedMemory.withStack.page⟩ :=
  have asked : (MemoryManager.protectMemory (fun _ _ _ => true) .withStack 0x1000000000 pageSize
      prot) = .ok () := rfl
  .protect (by decide) (by decide) asked

theorem MemoryManager.withStack_area :
    MemoryManager.withStack.vmaMap[0x1000000000]? =
      some { MapRequest.stack.attributes with base := 0x1000000000, size := pageSize } := by
  decide +kernel

theorem agrees_iff_recorded_stack :
    ¬ ProtectedMemory.Agrees
      ⟨.withStack, (ProtectionEvent.protectStack .cpuRead).protects
        ProtectedMemory.withStack.page⟩ := by
  have run : Trace (fun s event s' => ProtectionStep .dev s event s' ∧ event.Recorded s)
      ⟨.booted, fun _ => .none⟩ [.call (.map .stack (.ok 0x1000000000))] .withStack :=
    .snoc .nil ⟨.call .mapStack, fun _ => ⟨rfl, rfl⟩⟩
  rw [(agrees_iff_recorded .dev HostBoot.low_lawful MemoryManager.new_low _ run).2 _ _
    (.stack .cpuRead)]
  intro recorded
  have found : attrAt MemoryManager.withStack.vmaMap 0x1000000000 =
      some MapRequest.stack.attributes := by decide +kernel
  exact absurd (recorded 0x1000000000 (by decide) (by decide) _ found rfl) (by decide)

def MapRequest.readOnly : MapRequest := { stack with prot := .cpuRead }

/-- The record differs from the real protection after `protect_memory` makes the
stack read-only, and after `map_memory` of read-only memory. -/
theorem record_differs :
    (∃ events s, Trace (ProtectionStep .dev) ⟨.booted, fun _ => .none⟩ events s ∧
      events = [.call (.map .stack (.ok 0x1000000000)), .protectStack .cpuRead] ∧ ¬ s.Agrees) ∧
    ∃ events s, Trace (ProtectionStep .dev) ⟨.booted, fun _ => .none⟩ events s ∧
      events = [.call (.map .readOnly (.ok 0x1000000000))] ∧ ¬ s.Agrees := by
  let area : VirtualMemoryArea :=
    { MapRequest.readOnly.attributes with base := 0x1000000000, size := pageSize }
  let mapped : MemoryManager :=
    { MemoryManager.booted with
      vmaMap := ((∅ : VMAMap).insert 0x1000004000
        { MemoryManager.freeAttributes with base := 0x1000004000, size := userSize - pageSize }
        ).insert 0x1000000000 area }
  have call : MemoryCall .dev .booted (.map .readOnly (.ok 0x1000000000)) mapped :=
    .map Host.roomy_lawful (by decide) (by decide +kernel)
  have stored : mapped.vmaMap[0x1000000000]? = some area := by decide +kernel
  refine ⟨⟨_, _, .snoc (.snoc .nil (.call .mapStack)) (.stack .cpuRead), rfl, fun agrees => ?_⟩,
    ⟨_, _, .snoc .nil (.call call), rfl, fun agrees => ?_⟩⟩
  · exact absurd (agrees MemoryManager.withStack_area rfl 0x1000000000 (by decide)) (by decide)
  · exact absurd (agrees stored rfl 0x1000000000 (by decide)) (by decide)

end AnotherPs4
