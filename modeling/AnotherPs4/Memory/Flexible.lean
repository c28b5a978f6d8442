import AnotherPs4.Memory.Calls

/-!
# Flexible memory

The manager subtracts a usage from the total of flexible memory, but no call
ever changes that usage. The balance is right as long as there is no flexible
area.
-/

namespace AnotherPs4

open Rust RangeMap Transition

variable {ε : Type}

namespace MemoryManager

def availableFlexibleSize (p : Profile) (mm : MemoryManager) : Outcome ε Nat :=
  p.sub 64 mm.totalFlexibleSize mm.flexibleUsage

def flexibleBytes (mm : MemoryManager) : Nat :=
  (mm.vmaMap.toList.map fun e => if e.2.vmaType = .flexible then e.2.size else 0).sum

/-- What is left and what is mapped make up the total. -/
def Balanced (p : Profile) (mm : MemoryManager) : Prop :=
  ∃ left, (mm.availableFlexibleSize p : Outcome Empty Nat) = .ok left ∧
    left + mm.flexibleBytes = mm.totalFlexibleSize

def NoFlexible (mm : MemoryManager) : Prop :=
  ∀ x a, attrAt mm.vmaMap x = some a → a.vmaType ≠ .flexible

theorem flexibleBytes_eq_zero_iff {mm : MemoryManager} (wf : mm.vmaMap.WellFormed) :
    mm.flexibleBytes = 0 ↔ mm.NoFlexible := by
  unfold flexibleBytes
  rw [List.sum_eq_zero_iff]
  constructor
  · intro zero x a found isFlexible
    obtain ⟨k, vma, stored, covered, rfl⟩ := (attrAt_eq_some wf.separated).mp found
    have size : vma.size = 0 :=
      zero vma.size (List.mem_map.mpr ⟨(k, vma), mem_toList.mpr stored, if_pos isFlexible⟩)
    have positive : 0 < vma.size := wf.positive stored
    omega
  · intro none n member
    obtain ⟨⟨k, vma⟩, listed, rfl⟩ := List.mem_map.mp member
    have stored := mem_toList.mp listed
    refine if_neg fun isFlexible => none vma.base vma.toVMAAttributes ?_ isFlexible
    obtain rfl : vma.base = k := wf.separated.keyed stored
    exact (attrAt_eq_some wf.separated).mpr ⟨_, vma, stored,
      ⟨le_rfl, Nat.lt_add_of_pos_right (wf.positive stored)⟩, rfl⟩

theorem balanced_iff (p : Profile) {mm : MemoryManager} (wf : mm.vmaMap.WellFormed)
    (unused : mm.flexibleUsage = 0) : mm.Balanced p ↔ mm.NoFlexible := by
  rw [← flexibleBytes_eq_zero_iff wf]
  unfold Balanced availableFlexibleSize
  rw [unused, Profile.sub_of_le (Nat.zero_le _)]
  simp only [Outcome.ok.injEq, exists_eq_left', Nat.sub_zero]
  omega

end MemoryManager

def MemoryEvent.MapsNoFlexible : MemoryEvent → Prop
  | .map r (.ok _) => r.vmaType ≠ .flexible
  | .map _ (.error _) | .unmap .. => True

/-- The call keeps the balance, and a flexible mapping past the total fails and
leaves the manager alone. -/
structure KeepsBalance (p : Profile) (mm : MemoryManager) (event : MemoryEvent)
    (mm' : MemoryManager) : Prop where
  balanced : mm'.Balanced p
  refuses : ∀ r result, event = .map r result → r.vmaType = .flexible →
    mm.totalFlexibleSize < mm.flexibleBytes + roundUp r.size pageSize →
    (∃ e, result = .error e) ∧ mm' = mm

/-- The invariant of runs without flexible mappings. -/
structure MemoryManager.Inflexible (mm : MemoryManager) : Prop where
  wf : mm.vmaMap.WellFormed
  unused : mm.flexibleUsage = 0
  none : mm.NoFlexible

theorem MemoryManager.new_inflexible {boot : HostBoot} (lawful : boot.Lawful)
    {mm : MemoryManager} (booted : new boot = .ok mm) : mm.Inflexible := by
  obtain ⟨wf, initial⟩ := new_wellFormed lawful booted
  refine ⟨wf, (new_totals booted).2.2, fun x a found => ?_⟩
  rw [initial] at found
  unfold AddressSpace.initialBytes at found
  split at found
  · cases found
    decide
  · cases found

section Step

variable {p : Profile} {mm mm' : MemoryManager} {event : MemoryEvent}

theorem MemoryEffect.flexibleUsage_eq (effect : MemoryEffect mm event mm') :
    mm'.flexibleUsage = mm.flexibleUsage := by
  cases effect <;> rfl

/-- Without flexible areas, a call brings one exactly if it maps one. -/
theorem MemoryEffect.noFlexible_iff (effect : MemoryEffect mm event mm') (none : mm.NoFlexible) :
    mm'.NoFlexible ↔ event.MapsNoFlexible := by
  unfold MemoryManager.NoFlexible at none ⊢
  cases effect with
  | failedMap => exact iff_of_true none trivial
  | failedUnmap => exact iff_of_true none trivial
  | @mapped r addr map nonempty bytes chosen =>
    simp only [bytes, forall_overwrite, MemoryEvent.MapsNoFlexible]
    constructor
    · exact fun all => all.1 addr le_rfl (by omega)
    · exact fun other => ⟨fun _ _ _ => other, fun x a _ found => none x a found⟩
  | unmapped nonempty bytes =>
    simp only [bytes, forall_overwrite, MemoryEvent.MapsNoFlexible]
    exact iff_of_true ⟨fun _ _ _ => by decide, fun x a _ found => none x a found⟩ trivial

theorem MemoryCall.inflexible (call : MemoryCall p mm event mm') (quiet : event.MapsNoFlexible)
    (inflexible : mm.Inflexible) : mm'.Inflexible := by
  obtain ⟨wf, effect⟩ := call.effect inflexible.wf
  exact ⟨wf, effect.flexibleUsage_eq.trans inflexible.unused,
    (effect.noFlexible_iff inflexible.none).mpr quiet⟩

/-- From a state without flexible areas, a call keeps the books exactly if it
does not map any. -/
theorem MemoryCall.keepsBalance_iff (call : MemoryCall p mm event mm')
    (inflexible : mm.Inflexible) : KeepsBalance p mm event mm' ↔ event.MapsNoFlexible := by
  obtain ⟨wf, effect⟩ := call.effect inflexible.wf
  have balanced : mm'.Balanced p ↔ event.MapsNoFlexible := by
    rw [MemoryManager.balanced_iff p wf (effect.flexibleUsage_eq.trans inflexible.unused)]
    exact effect.noFlexible_iff inflexible.none
  refine ⟨fun keeps => balanced.mp keeps.balanced, fun quiet => ⟨balanced.mpr quiet, ?_⟩⟩
  rintro r result rfl isFlexible -
  cases effect with
  | failedMap => exact ⟨⟨_, rfl⟩, rfl⟩
  | mapped => exact absurd isFlexible quiet

end Step

/-- In a run in which no flexible mapping gets an address, the balance is right
in every state. The next call keeps the books exactly if it is none either. -/
theorem flexible_balanced_iff (p : Profile) {boot : HostBoot} (lawful : boot.Lawful)
    {mm₀ mm : MemoryManager} (booted : MemoryManager.new boot = .ok mm₀)
    {events : List MemoryEvent} (run : Trace (MemoryCall p) mm₀ events mm)
    (quiet : ∀ event ∈ events, event.MapsNoFlexible) :
    mm.Balanced p ∧ ∀ event mm', MemoryCall p mm event mm' →
      (KeepsBalance p mm event mm' ↔ event.MapsNoFlexible) := by
  have inflexible : mm.Inflexible :=
    Trace.invariant (MemoryManager.new_inflexible lawful booted)
      (fun inflexible ⟨call, quiet⟩ => call.inflexible quiet inflexible) (run.guarded quiet)
  exact ⟨(MemoryManager.balanced_iff p inflexible.wf inflexible.unused).mpr inflexible.none,
    fun event mm' call => call.keepsBalance_iff inflexible⟩

theorem flexible_balanced_iff_stack : MemoryManager.withStack.Balanced .dev :=
  (flexible_balanced_iff .dev HostBoot.low_lawful MemoryManager.new_low (.snoc .nil .mapStack)
    fun event member => by
      obtain rfl := List.mem_singleton.mp member
      exact (by decide : VMAType.stack ≠ .flexible)).1

def MapRequest.flexible (size : Nat) : MapRequest where
  virtualAddr := 0
  size := size
  prot := .cpuRw
  flags := .union .anonymous .priv
  vmaType := .flexible
  name := "malloc"

def MemoryManager.withFlexible : MemoryManager :=
  { booted with
    vmaMap := ((∅ : VMAMap).insert 0x1020000000
      { freeAttributes with base := 0x1020000000, size := userSize - 0x20000000 }).insert
      0x1000000000
      { (MapRequest.flexible 0x20000000).attributes with base := 0x1000000000, size := 0x20000000 } }

/-- More than the total is mapped at once, and the balance is still the total. -/
theorem flexible_not_balanced :
    ∃ mm mm', MemoryManager.new .low = .ok mm ∧
      MemoryCall .dev mm (.map (.flexible 0x20000000) (.ok 0x1000000000)) mm' ∧
      mm.totalFlexibleSize = 448 * 1024 * 1024 ∧ mm'.flexibleBytes = 512 * 1024 * 1024 ∧
      (mm'.availableFlexibleSize .dev : Outcome Empty Nat) = .ok (448 * 1024 * 1024) ∧
      ¬ KeepsBalance .dev mm (.map (.flexible 0x20000000) (.ok 0x1000000000)) mm' := by
  have mapped : (MapRequest.flexible 0x20000000).call .dev .roomy .booted =
      .ok (.ok 0x1000000000, .withFlexible) := by decide +kernel
  have bytes : MemoryManager.withFlexible.flexibleBytes = 512 * 1024 * 1024 := by decide +kernel
  refine ⟨.booted, .withFlexible, rfl, .map Host.roomy_lawful (by decide) mapped, rfl, bytes, rfl,
    fun keeps => ?_⟩
  obtain ⟨left, available, total⟩ := keeps.balanced
  cases available
  rw [bytes] at total
  exact absurd total (by decide)

end AnotherPs4
