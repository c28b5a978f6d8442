import AnotherPs4.Memory.VirtualMemory

/-!
# Carving the area map

What the helpers of the memory manager compute on a well-formed area map: the
first-fit search, the overlapping keys, and the loop of `carveVma`, each of
whose iterations is one `RangeMap.cutOut`.
-/

namespace AnotherPs4

open Rust RangeMap

variable {ε : Type}

/-- Keys are bases, areas are nonempty and disjoint, and none leaves the host
address space. -/
structure VMAMap.WellFormed (map : VMAMap) : Prop where
  separated : Separated map
  positive : Positive map
  within : Within map hostLimit

theorem roundUp_page_le {size : Nat} (bounded : size ≤ hostLimit) :
    roundUp size pageSize ≤ hostLimit :=
  roundUp_le pageSize_pos (by decide) bounded

theorem alignUp_page_of_le {p : Profile} {size : Nat} (bounded : size ≤ hostLimit) :
    (alignUp p size pageSize : Outcome ε Nat) = .ok (roundUp size pageSize) := by
  apply alignUp_page
  unfold hostLimit at bounded
  unfold pageSize
  omega

theorem add_of_le_hostLimit {p : Profile} {a b : Nat} (ha : a ≤ hostLimit) (hb : b ≤ hostLimit) :
    (p.add 64 a b : Outcome ε Nat) = .ok (a + b) := by
  apply Profile.add_of_lt
  unfold hostLimit at ha hb
  omega

namespace MemoryManager

/-- A free area in which the request fits from the first page on. -/
def HasRoom (size : Nat) (vma : VirtualMemoryArea) : Prop :=
  vma.vmaType = .free ∧ roundUp vma.base pageSize + size ≤ vma.base + vma.size

instance (size : Nat) (vma : VirtualMemoryArea) : Decidable (HasRoom size vma) :=
  inferInstanceAs (Decidable (_ ∧ _))

theorem firstFit_cons {p : Profile} {size : Nat} (bounded : size ≤ hostLimit)
    {vma : VirtualMemoryArea} (within : vma.base + vma.size ≤ hostLimit)
    (rest : List VirtualMemoryArea) :
    (firstFit p size pageSize (vma :: rest) : Outcome ε _) =
      if HasRoom size vma then .ok (.ok (roundUp vma.base pageSize))
      else firstFit p size pageSize rest := by
  have baseBound : vma.base ≤ hostLimit := by omega
  have sizeBound : vma.size ≤ hostLimit := by omega
  rw [firstFit, alignUp_page_of_le baseBound, Outcome.ok_bind,
    add_of_le_hostLimit (roundUp_page_le baseBound) bounded, Outcome.ok_bind,
    add_of_le_hostLimit baseBound sizeBound, Outcome.ok_bind, VirtualMemoryArea.isFree]
  by_cases isFree : vma.vmaType = .free
  · by_cases fits : roundUp vma.base pageSize + size ≤ vma.base + vma.size
    · have room : HasRoom size vma := ⟨isFree, fits⟩
      rw [if_pos room, if_pos fits]
      simp [isFree]
    · have noRoom : ¬ HasRoom size vma := fun room => fits room.2
      rw [if_neg noRoom, if_neg fits]
      simp [isFree]
  · have noRoom : ¬ HasRoom size vma := fun room => isFree room.1
    rw [if_neg noRoom]
    simp [isFree]

/-- The search returns the rounded base of the first area with room. -/
theorem firstFit_eq {p : Profile} {size : Nat} (bounded : size ≤ hostLimit)
    {areas : List VirtualMemoryArea} (within : ∀ vma ∈ areas, vma.base + vma.size ≤ hostLimit) :
    (firstFit p size pageSize areas : Outcome ε _) =
      .ok ((areas.find? fun vma => HasRoom size vma).elim (.error (.noFreeRegion size))
        fun vma => .ok (roundUp vma.base pageSize)) := by
  induction areas with
  | nil => rfl
  | cons vma rest ih =>
    have here := within vma (by simp)
    have later := ih fun other member => within other (List.mem_cons_of_mem _ member)
    rw [firstFit_cons bounded here, List.find?_cons]
    by_cases room : HasRoom size vma
    · rw [if_pos room, decide_eq_true room]
      rfl
    · rw [if_neg room, decide_eq_false room]
      exact later

def Meets (vma : VirtualMemoryArea) (addr stop : Nat) : Prop :=
  addr < vma.base + vma.size ∧ vma.base < stop

instance (vma : VirtualMemoryArea) (addr stop : Nat) : Decidable (Meets vma addr stop) :=
  inferInstanceAs (Decidable (addr < vma.base + vma.size ∧ vma.base < stop))

theorem overlappingKeys_eq {p : Profile} {addr size : Nat} (bounded : addr + size ≤ hostLimit)
    {entries : List (Nat × VirtualMemoryArea)}
    (within : ∀ e ∈ entries, e.2.base + e.2.size ≤ hostLimit) :
    (overlappingKeys p addr size entries : Outcome ε _) =
      .ok ((entries.filter fun e => decide (Meets e.2 addr (addr + size))).map Prod.fst) := by
  induction entries with
  | nil => rfl
  | cons entry rest ih =>
    obtain ⟨base, vma⟩ := entry
    have here : vma.base + vma.size ≤ hostLimit := within (base, vma) (by simp)
    have computed := ih fun e member => within e (List.mem_cons_of_mem _ member)
    have areaEnd : (p.add 64 vma.base vma.size : Outcome ε Nat) = .ok (vma.base + vma.size) :=
      add_of_le_hostLimit (by omega) (by omega)
    have stop : (p.add 64 addr size : Outcome ε Nat) = .ok (addr + size) :=
      add_of_le_hostLimit (by omega) (by omega)
    have hit : (vma.overlaps p addr size : Outcome ε Bool) =
        .ok (decide (Meets vma addr (addr + size))) := by
      unfold VirtualMemoryArea.overlaps Meets
      by_cases reaches : addr < vma.base + vma.size <;> simp [areaEnd, stop, reaches]
    by_cases meets : Meets vma addr (addr + size) <;>
      simp [overlappingKeys, hit, computed, meets]

theorem carveKey_eq {p : Profile} {map : VMAMap} {vma : VirtualMemoryArea} {addr stop : Nat}
    (stored : map[vma.base]? = some vma) (within : vma.base + vma.size ≤ hostLimit) :
    (carveKey p addr stop map vma.base : Outcome ε VMAMap) = .ok (cutOut map vma addr stop) := by
  have areaEnd : (p.add 64 vma.base vma.size : Outcome ε Nat) = .ok (vma.base + vma.size) :=
    add_of_le_hostLimit (by omega) (by omega)
  unfold carveKey cutOut
  simp only [stored, Segment.base, Segment.size, Segment.withRange]
  by_cases left : vma.base < addr <;> by_cases right : stop < vma.base + vma.size <;>
    simp [left, right, areaEnd, Profile.sub_of_le, Nat.le_of_lt]

end MemoryManager

theorem VMAMap.WellFormed.cutOut {map : VMAMap} (wf : map.WellFormed) {vma : VirtualMemoryArea}
    {addr stop : Nat} (stored : map[vma.base]? = some vma) (ordered : addr ≤ stop)
    (meets : MemoryManager.Meets vma addr stop) : VMAMap.WellFormed (RangeMap.cutOut map vma addr stop) where
  separated := wf.separated.cutOut stored meets.2 meets.1 ordered
  positive := wf.positive.cutOut
  within := wf.within.cutOut stored meets.1

theorem VMAMap.WellFormed.cutOut_others {map : VMAMap} (wf : map.WellFormed)
    {vma other : VirtualMemoryArea} {addr stop k : Nat} {rest : List Nat}
    (stored : map[vma.base]? = some vma) (meets : MemoryManager.Meets vma addr stop)
    (fresh : vma.base ∉ rest) (member : k ∈ rest) (old : map[k]? = some other) :
    (RangeMap.cutOut map vma addr stop)[k]? = some other := by
  apply cutOut_keeps wf.separated stored meets.2 old
  rintro rfl
  exact fresh member

namespace MemoryManager

/-- The loop of `carveVma`: the areas at the given keys lose `[addr, stop)`. -/
theorem carveKeys_spec (p : Profile) {addr stop : Nat} (ordered : addr ≤ stop) {keys : List Nat}
    (nodup : keys.Nodup) {map : VMAMap} (wf : map.WellFormed)
    (present : ∀ k ∈ keys, ∃ vma, map[k]? = some vma ∧ Meets vma addr stop) :
    ∃ map', (keys.foldlM (carveKey p addr stop) map : Outcome ε VMAMap) = .ok map' ∧
      map'.WellFormed ∧ ∀ x n b, 0 < n → (Spans map' x n b ↔ Spans map x n b ∧
        ¬ ((∃ k ∈ keys, ∃ vma, map[k]? = some vma ∧ SpansRange vma x n) ∧
          addr < x + n ∧ x < stop)) := by
  induction keys generalizing map with
  | nil => exact ⟨map, rfl, wf, by simp⟩
  | cons k rest ih =>
    obtain ⟨vma, stored, meets⟩ := present k (by simp)
    obtain rfl : vma.base = k := wf.separated.keyed stored
    obtain ⟨fresh, nodup⟩ := List.nodup_cons.mp nodup
    have keeps : ∀ k ∈ rest, ∀ {other}, map[k]? = some other →
        (RangeMap.cutOut map vma addr stop)[k]? = some other :=
      fun k member => wf.cutOut_others stored meets fresh member
    obtain ⟨map', computed, wf', spans⟩ := ih nodup (wf.cutOut stored ordered meets) (by
      intro k member
      obtain ⟨other, old, meets⟩ := present k (List.mem_cons_of_mem _ member)
      exact ⟨other, keeps k member old, meets⟩)
    refine ⟨map', ?_, wf', ?_⟩
    · rw [List.foldlM_cons, carveKey_eq stored (wf.within stored), Outcome.ok_bind, computed]
    · intro x n b nonempty
      have later : (∃ k ∈ rest, ∃ other,
            (RangeMap.cutOut map vma addr stop)[k]? = some other ∧ SpansRange other x n) ↔
          ∃ k ∈ rest, ∃ other, map[k]? = some other ∧ SpansRange other x n := by
        refine exists_congr fun k => and_congr_right fun member => ?_
        obtain ⟨old, found, -⟩ := present k (List.mem_cons_of_mem _ member)
        simp [keeps k member found, found]
      rw [spans x n b nonempty,
        spans_cutOut wf.separated stored meets.2 meets.1 nonempty ordered, later]
      simp only [List.mem_cons, exists_eq_or_imp, stored, Option.some.injEq, exists_eq_left']
      rw [or_and_right, not_or, and_assoc]

theorem carveVma_eq {p : Profile} {map : VMAMap} (wf : map.WellFormed) {addr size : Nat}
    (bounded : addr + size ≤ hostLimit) :
    ∃ keys : List Nat, keys.Nodup ∧
      (∀ k, k ∈ keys ↔ ∃ vma, map[k]? = some vma ∧ Meets vma addr (addr + size)) ∧
      (carveVma p map addr size : Outcome ε VMAMap) =
        keys.foldlM (carveKey p addr (addr + size)) map := by
  have members : ∀ k vma, (k, vma) ∈ map.toList ↔ map[k]? = some vma :=
    fun _ _ => mem_toList
  let entries := map.toList.filter fun e => e.1 < addr + size
  let hits := entries.filter fun e => decide (Meets e.2 addr (addr + size))
  have within : ∀ e ∈ entries, e.2.base + e.2.size ≤ hostLimit := by
    rintro ⟨k, vma⟩ member
    have stored := (members k vma).mp (List.mem_filter.mp member).1
    obtain rfl : vma.base = k := wf.separated.keyed stored
    exact wf.within stored
  have sorted : (map.toList.map Prod.fst).Nodup := by
    rw [Std.ExtTreeMap.map_fst_toList_eq_keys]
    exact Std.ExtTreeMap.ordered_keys.imp fun lt eq => by simp [eq] at lt
  refine ⟨hits.map Prod.fst,
    sorted.sublist ((List.filter_sublist.trans List.filter_sublist).map _), fun k => ?_, ?_⟩
  · simp only [hits, entries, List.mem_map, List.mem_filter, decide_eq_true_eq, Prod.exists, members]
    constructor
    · rintro ⟨_, vma, ⟨⟨stored, -⟩, meets⟩, rfl⟩
      exact ⟨vma, stored, meets⟩
    · rintro ⟨vma, stored, meets⟩
      obtain rfl : vma.base = k := wf.separated.keyed stored
      exact ⟨_, vma, ⟨⟨stored, meets.2⟩, meets⟩, rfl⟩
  · unfold carveVma
    rw [add_of_le_hostLimit (by omega) (by omega), Outcome.ok_bind, overlappingKeys_eq bounded within,
      Outcome.ok_bind]

/-- Carving leaves a gap, and of every area what lies on its two sides. -/
theorem carveVma_spec {p : Profile} {map : VMAMap} (wf : map.WellFormed) {addr size : Nat}
    (nonempty : 0 < size) (bounded : addr + size ≤ hostLimit) :
    ∃ map', (carveVma p map addr size : Outcome ε VMAMap) = .ok map' ∧ map'.WellFormed ∧
      Gap map' addr (addr + size) ∧ ∀ x n b, 0 < n →
        (Spans map' x n b ↔ Spans map x n b ∧ (x + n ≤ addr ∨ addr + size ≤ x)) := by
  obtain ⟨keys, nodup, hits, carved⟩ := carveVma_eq (ε := ε) (p := p) wf bounded
  obtain ⟨map', computed, wf', spans⟩ := carveKeys_spec (ε := ε) p (Nat.le_add_right addr size)
    nodup wf fun k member => (hits k).mp member
  have sides : ∀ x n b, 0 < n →
      (Spans map' x n b ↔ Spans map x n b ∧ (x + n ≤ addr ∨ addr + size ≤ x)) := by
    intro x n b some_range
    rw [spans x n b some_range]
    apply and_congr_right
    rintro ⟨k, vma, stored, inside, -⟩
    constructor
    · intro untouched
      by_contra between
      refine untouched ⟨⟨k, (hits k).mpr ⟨vma, stored, ?_⟩, vma, stored, inside⟩, by omega, by omega⟩
      unfold SpansRange at inside
      exact ⟨lt_of_lt_of_le (show addr < x + n by omega) inside.2,
        lt_of_le_of_lt inside.1 (show x < addr + size by omega)⟩
    · omega
  refine ⟨map', carved.trans computed, wf', ?_, sides⟩
  apply gap_of_positive wf'.separated wf'.positive (by omega)
  intro x above below b found
  have outside := ((sides x 1 b (by omega)).mp found).2
  omega

/-- Storing an area overwrites its attributes on exactly its range. -/
theorem replaceVma_spec (p : Profile) {mm : MemoryManager} (wf : mm.vmaMap.WellFormed)
    (vma : VirtualMemoryArea) (nonempty : 0 < vma.size)
    (bounded : vma.base + vma.size ≤ hostLimit) :
    ∃ map, (mm.replaceVma p vma : Outcome ε _) = .ok { mm with vmaMap := map } ∧
      map.WellFormed ∧ attrAt map =
        overwrite (attrAt mm.vmaMap) vma.base (vma.base + vma.size) vma.toVMAAttributes := by
  obtain ⟨map, computed, wf', gap, sides⟩ := carveVma_spec (ε := ε) (p := p) wf nonempty bounded
  refine ⟨map.insert vma.base vma, by simp [replaceVma, computed], ⟨?_, ?_, ?_⟩, ?_⟩
  · exact wf'.separated.fill gap rfl rfl
  · exact wf'.positive.insert nonempty
  · exact wf'.within.insert bounded
  · rw [attrAt_fill wf'.separated gap rfl rfl (by simpa using nonempty)]
    funext x
    unfold overwrite
    split
    · rfl
    · next outside =>
      apply attrAt_congr wf'.separated wf.separated
      intro b
      exact (sides x 1 b (by omega)).trans (and_iff_left (by omega))

theorem replaceVma_spans {p : Profile} {mm mm' : MemoryManager} (wf : mm.vmaMap.WellFormed)
    {vma : VirtualMemoryArea} (nonempty : 0 < vma.size) (bounded : vma.base + vma.size ≤ hostLimit)
    (replaced : (mm.replaceVma p vma : Outcome ε _) = .ok mm') {x n : Nat} {b : VMAAttributes}
    (some_range : 0 < n) :
    Spans mm'.vmaMap x n b ↔ (SpansRange vma x n ∧ vma.toVMAAttributes = b) ∨
      (Spans mm.vmaMap x n b ∧ (x + n ≤ vma.base ∨ vma.base + vma.size ≤ x)) := by
  obtain ⟨map, carved, -, gap, sides⟩ := carveVma_spec (ε := ε) (p := p) wf nonempty bounded
  simp only [replaceVma, carved, Outcome.ok_bind, Outcome.pure_eq_ok, Outcome.ok.injEq] at replaced
  subst replaced
  rw [spans_insert (gap.absent (by omega)), sides x n b some_range]
  rfl

end MemoryManager

end AnotherPs4
