import AnotherPs4.Memory.Areas

/-!
# The first fit of any request

Which free area a request gets when its alignment need not be a power of two,
and which sums overflow on the way there.
-/

namespace AnotherPs4

open Rust RangeMap

namespace AllocRequest

variable (r : AllocRequest)

/-- Where the block would start in an area. -/
def placeIn (area : PhysicalMemoryArea) : Nat := maskUp 64 (max area.base r.searchStart) r.effective

def FitsIn (area : PhysicalMemoryArea) : Prop :=
  area.dmaType = .free ∧ r.placeIn area + r.size ≤ area.base + area.size ∧
    r.placeIn area + r.size ≤ r.searchEnd

instance : DecidablePred r.FitsIn := fun _ => inferInstanceAs (Decidable (_ ∧ _ ∧ _))

def SumsFit (area : PhysicalMemoryArea) : Prop :=
  max area.base r.searchStart + (r.effective - 1) < 2 ^ 64 ∧ r.placeIn area + r.size < 2 ^ 64

instance : DecidablePred r.SumsFit := fun _ => inferInstanceAs (Decidable (_ ∧ _))

def Quiet : List PhysicalMemoryArea → Prop
  | [] => True
  | area :: rest =>
    if area.dmaType = .free then r.SumsFit area ∧ (r.FitsIn area ∨ Quiet rest) else Quiet rest

theorem one_le_effective : 1 ≤ r.effective :=
  le_trans (by decide) (le_max_right r.alignment pageSize)

variable {r}

theorem SumsFit.low {area : PhysicalMemoryArea} (fits : r.SumsFit area) :
    max area.base r.searchStart ≤ r.placeIn area :=
  le_maskUp fits.1

theorem placeIn_eq_roundUp (aligned : r.alignment = 0 ∨ ∃ k < 64, r.alignment = 2 ^ k)
    {area : PhysicalMemoryArea} (sums : r.SumsFit area) :
    r.placeIn area = roundUp (max area.base r.searchStart) r.effective := by
  obtain ⟨k, bounded, power⟩ := effective_two_pow aligned
  have raised := sums.1
  rw [power] at raised
  rw [placeIn, power, maskUp_two_pow bounded.le raised]

theorem alignment_dvd_placeIn (aligned : r.alignment = 0 ∨ ∃ k < 64, r.alignment = 2 ^ k)
    {area : PhysicalMemoryArea} (sums : r.SumsFit area) (some_alignment : r.alignment ≠ 0) :
    r.alignment ∣ r.placeIn area := by
  obtain ⟨k, bounded, power⟩ := effective_two_pow aligned
  obtain ⟨j, -, own⟩ := aligned.resolve_left some_alignment
  have finer : r.alignment ≤ r.effective := le_max_left _ _
  rw [own, power] at finer
  rw [own, placeIn_eq_roundUp aligned sums, power]
  exact (Nat.pow_dvd_pow 2 ((Nat.pow_le_pow_iff_right (by decide)).mp finer)).trans
    (dvd_roundUp _ _)

/-- In address order: every free area with no fit under it is looked at. -/
theorem quiet_iff {areas : List PhysicalMemoryArea} (sorted : areas.Pairwise (·.base < ·.base)) :
    r.Quiet areas ↔ ∀ area ∈ areas, area.dmaType = .free →
      (∀ below ∈ areas, below.base < area.base → ¬ r.FitsIn below) → r.SumsFit area := by
  induction areas with
  | nil => simp [Quiet]
  | cons first rest inductionHypothesis =>
    obtain ⟨least, sorted⟩ := List.pairwise_cons.mp sorted
    have notBelow : ∀ below ∈ first :: rest, ¬ below.base < first.base := by
      intro below member
      rcases List.mem_cons.mp member with rfl | later
      · exact lt_irrefl _
      · exact (least below later).asymm
    have rest_iff (unfit : ¬ r.FitsIn first) (area : PhysicalMemoryArea) :
        (∀ below ∈ first :: rest, below.base < area.base → ¬ r.FitsIn below) ↔
          ∀ below ∈ rest, below.base < area.base → ¬ r.FitsIn below := by
      rw [List.forall_mem_cons]
      exact and_iff_right fun _ => unfit
    rw [Quiet, List.forall_mem_cons]
    by_cases fits : r.FitsIn first
    · have stops : ∀ area ∈ rest,
          ¬ ∀ below ∈ first :: rest, below.base < area.base → ¬ r.FitsIn below :=
        fun area member none => none first (by simp) (least area member) fits
      rw [if_pos fits.1]
      refine ⟨fun quiet => ⟨fun _ _ => quiet.1, fun area member _ none =>
        absurd none (stops area member)⟩, fun all => ⟨?_, .inl fits⟩⟩
      exact all.1 fits.1 fun below member less => absurd less (notBelow below member)
    · rw [inductionHypothesis sorted]
      simp only [rest_iff fits, fits, false_or]
      split
      next isFree =>
        refine and_congr_left fun _ => ⟨fun sums _ _ => sums, fun sums => sums isFree ?_⟩
        intro below member less
        exact absurd less (notBelow below (List.mem_cons_of_mem _ member))
      next taken => exact (and_iff_right fun isFree => absurd isFree taken).symm

theorem find?_fitsIn_iff {areas : List PhysicalMemoryArea} {area : PhysicalMemoryArea}
    (sorted : areas.Pairwise (·.base < ·.base)) :
    areas.find? (fun area => r.FitsIn area) = some area ↔ area ∈ areas ∧ r.FitsIn area ∧
      ∀ below ∈ areas, below.base < area.base → ¬ r.FitsIn below := by
  induction areas with
  | nil => simp
  | cons first rest inductionHypothesis =>
    obtain ⟨least, sorted⟩ := List.pairwise_cons.mp sorted
    by_cases fits : r.FitsIn first
    · rw [List.find?_cons_of_pos (by simpa using fits)]
      constructor
      · rintro ⟨⟩
        refine ⟨by simp, fits, fun below member less => ?_⟩
        rcases List.mem_cons.mp member with rfl | later
        · exact absurd less (lt_irrefl _)
        · exact absurd less (least below later).asymm
      · rintro ⟨member, -, none⟩
        rcases List.mem_cons.mp member with rfl | later
        · rfl
        · exact absurd fits (none first (by simp) (least area later))
    · rw [List.find?_cons_of_neg (by simpa using fits), inductionHypothesis sorted]
      simp only [List.mem_cons, forall_eq_or_imp, fits, not_false_eq_true, implies_true, true_and]
      refine and_congr_left fun ⟨here, _⟩ => (or_iff_right ?_).symm
      rintro rfl
      exact fits here

end AllocRequest

namespace PhysicalMemoryManager

variable {r : AllocRequest} {areas : List PhysicalMemoryArea}

theorem findFit_dev_of_quiet (small : ∀ area ∈ areas, area.base + area.size < 2 ^ 64)
    (quiet : r.Quiet areas) :
    (findFit .dev r.searchStart r.searchEnd r.size r.effective areas : Outcome Empty _) =
      .ok ((areas.find? fun area => r.FitsIn area).map r.placeIn) := by
  induction areas with
  | nil => rfl
  | cons area rest inductionHypothesis =>
    have later := inductionHypothesis fun other member => small other (by simp [member])
    rw [AllocRequest.Quiet] at quiet
    unfold findFit
    by_cases isFree : area.dmaType = .free
    · rw [if_pos isFree] at quiet
      obtain ⟨sums, ends⟩ := quiet
      have low : area.base ≤ r.placeIn area := le_trans (le_max_left _ _) sums.low
      have areaEnd : (area.areaEnd .dev : Outcome Empty Nat) = .ok (area.base + area.size) :=
        Profile.add_of_lt (small area (by simp))
      have place : (alignUp .dev (max area.base r.searchStart) r.effective : Outcome Empty Nat) =
          .ok (r.placeIn area) := by
        rw [alignUp_dev_mask _ r.one_le_effective, if_pos sums.1]
        rfl
      rw [if_neg (not_not.mpr isFree), place, Outcome.ok_bind, Profile.add_of_lt sums.2,
        Outcome.ok_bind, if_pos low, areaEnd, Outcome.ok_bind, List.find?_cons]
      by_cases room : r.placeIn area + r.size ≤ area.base + area.size ∧
          r.placeIn area + r.size ≤ r.searchEnd
      · have fits : r.FitsIn area := ⟨isFree, room⟩
        simp [room, fits]
      · have unfit : ¬ r.FitsIn area := fun fits => room fits.2
        rw [if_neg room, later (ends.resolve_left unfit)]
        simp [unfit]
    · rw [if_neg isFree] at quiet
      have unfit : ¬ r.FitsIn area := fun fits => isFree fits.1
      rw [if_pos isFree, later quiet, List.find?_cons]
      simp [unfit]

theorem findFit_dev_of_not_quiet (small : ∀ area ∈ areas, area.base + area.size < 2 ^ 64)
    (loud : ¬ r.Quiet areas) :
    (findFit .dev r.searchStart r.searchEnd r.size r.effective areas : Outcome Empty _) =
      .panic .overflow := by
  induction areas with
  | nil => exact absurd trivial loud
  | cons area rest inductionHypothesis =>
    have later := inductionHypothesis fun other member => small other (by simp [member])
    rw [AllocRequest.Quiet] at loud
    unfold findFit
    by_cases isFree : area.dmaType = .free
    · rw [if_pos isFree] at loud
      rw [if_neg (not_not.mpr isFree), alignUp_dev_mask _ r.one_le_effective]
      by_cases raised : max area.base r.searchStart + (r.effective - 1) < 2 ^ 64
      · rw [if_pos raised, Outcome.ok_bind, Profile.add_dev]
        by_cases stop : maskUp 64 (max area.base r.searchStart) r.effective + r.size < 2 ^ 64
        · have sums : r.SumsFit area := ⟨raised, stop⟩
          have low : area.base ≤ r.placeIn area := le_trans (le_max_left _ _) sums.low
          have unfit : ¬ r.FitsIn area := fun fits => loud ⟨sums, .inl fits⟩
          have rest_loud : ¬ r.Quiet rest := fun quiet => loud ⟨sums, .inr quiet⟩
          have areaEnd : (area.areaEnd .dev : Outcome Empty Nat) = .ok (area.base + area.size) :=
            Profile.add_of_lt (small area (by simp))
          have room : ¬ (r.placeIn area + r.size ≤ area.base + area.size ∧
              r.placeIn area + r.size ≤ r.searchEnd) := fun room => unfit ⟨isFree, room⟩
          rw [if_pos stop, Outcome.ok_bind]
          apply (if_pos low).trans
          rw [areaEnd, Outcome.ok_bind]
          exact (if_neg room).trans (later rest_loud)
        · rw [if_neg stop]
          rfl
      · rw [if_neg raised]
        rfl
    · rw [if_neg isFree] at loud
      rw [if_pos isFree, later loud]

theorem findFit_of_quiet (p : Profile) (small : ∀ area ∈ areas, area.base + area.size < 2 ^ 64)
    (quiet : r.Quiet areas) :
    (findFit p r.searchStart r.searchEnd r.size r.effective areas : Outcome Empty _) =
      .ok ((areas.find? fun area => r.FitsIn area).map r.placeIn) := by
  have checked := findFit_dev_of_quiet small quiet
  rw [findFit_eq_dev p (by rw [checked]; nofun), checked]

def placed (m : PhysicalMemoryManager) (r : AllocRequest) (area : PhysicalMemoryArea) :
    PhysicalMemoryManager :=
  let addr := r.placeIn area
  let block := { area with base := addr, size := r.size, dmaType := .allocated }
  { m with areas := (cutOut m.areas area addr (addr + r.size)).insert addr block }

def areaList (m : PhysicalMemoryManager) : List PhysicalMemoryArea := m.areas.toList.map Prod.snd

section Tiled

variable {m : PhysicalMemoryManager} {total : Nat} (tiles : Tiles m.areas total)
  (bounded : total < 2 ^ 64)

include tiles

theorem mem_areaList {area : PhysicalMemoryArea} :
    area ∈ m.areaList ↔ m.areas[area.base]? = some area :=
  tiles.separated.mem_values

theorem areaList_sorted : m.areaList.Pairwise (·.base < ·.base) :=
  tiles.separated.values_sorted

include bounded

theorem areaList_small : ∀ area ∈ m.areaList, area.base + area.size < 2 ^ 64 :=
  fun _ member => lt_of_le_of_lt (tiles.within ((mem_areaList tiles).mp member)) bounded

theorem call_of_no_fit (p : Profile) (quiet : r.Quiet m.areaList)
    (unfit : m.areaList.find? (fun area => r.FitsIn area) = none) :
    r.call p m = .ok (none, m) := by
  have searched := findFit_of_quiet p (areaList_small tiles bounded) quiet
  rw [unfit] at searched
  exact allocate_none searched

theorem call_of_fit (p : Profile) (nonempty : 0 < r.size) (quiet : r.Quiet m.areaList)
    {area : PhysicalMemoryArea} (sums : r.SumsFit area)
    (found : m.areaList.find? (fun area => r.FitsIn area) = some area) :
    r.call p m = .ok (some (r.placeIn area), m.placed r area) := by
  have searched := findFit_of_quiet p (areaList_small tiles bounded) quiet
  rw [found] at searched
  obtain ⟨member, fits, -⟩ := (AllocRequest.find?_fitsIn_iff (areaList_sorted tiles)).mp found
  exact allocate_found p tiles bounded nonempty searched ((mem_areaList tiles).mp member)
    (le_trans (le_max_left _ _) sums.low) fits.2.1

theorem call_of_not_quiet (loud : ¬ r.Quiet m.areaList) :
    r.call .dev m = .panic .overflow := by
  have searched := findFit_dev_of_not_quiet (areaList_small tiles bounded) loud
  have effective : max r.alignment pageSize = r.effective := rfl
  unfold AllocRequest.call allocate
  simp only [effective]
  rw [← areaList, searched]
  rfl

end Tiled

end PhysicalMemoryManager

end AnotherPs4
