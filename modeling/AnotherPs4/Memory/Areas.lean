import AnotherPs4.Memory.PhysicalMemory
import AnotherPs4.RangeMap.Join

/-!
# Physical areas under allocation and release

Area maps tile the physical memory. An allocation cuts its block out of one
free area and stores it as an allocated one; a release marks one area and
joins neighbours.
-/

namespace AnotherPs4

open Rust RangeMap

variable {ε : Type}

/-- Arguments of one `allocate` call. -/
structure AllocRequest where
  searchStart : Nat
  searchEnd : Nat
  size : Nat
  alignment : Nat
  deriving DecidableEq, Repr

namespace AllocRequest

structure Valid (r : AllocRequest) : Prop where
  nonempty : 0 < r.size
  paged : pageSize ∣ r.size
  aligned : r.alignment = 0 ∨ ∃ k < 64, r.alignment = 2 ^ k

def call (p : Profile) (m : PhysicalMemoryManager) (r : AllocRequest) :
    Outcome Empty (Option Nat × PhysicalMemoryManager) :=
  m.allocate p r.searchStart r.searchEnd r.size r.alignment

def effective (r : AllocRequest) : Nat := max r.alignment pageSize

theorem effective_two_pow {r : AllocRequest}
    (aligned : r.alignment = 0 ∨ ∃ k < 64, r.alignment = 2 ^ k) :
    ∃ k < 64, r.effective = 2 ^ k := by
  have page : pageSize = 2 ^ 14 := rfl
  rcases aligned with zero | ⟨k, bounded, power⟩
  · exact ⟨14, by omega, by simp [effective, zero, page]⟩
  · unfold effective
    rw [power, page]
    rcases le_total k 14 with small | large
    · exact ⟨14, by omega, max_eq_right (Nat.pow_le_pow_right (by omega) small)⟩
    · exact ⟨k, bounded, max_eq_left (Nat.pow_le_pow_right (by omega) large)⟩

end AllocRequest

/-! ### The checked run decides the wrapping one -/

theorem alignUp_checked (value alignment : Nat) :
    Outcome.Checked (ε := ε) (alignUp .dev value alignment) (alignUp .release value alignment) :=
  (Outcome.checked_sub ..).bind fun _ => (Outcome.checked_add ..).bind fun _ => .refl _

theorem alignUp_dev (value : Nat) {k : Nat} (hk : k < 64) :
    (alignUp .dev value (2 ^ k) : Outcome ε Nat) =
      if value + (2 ^ k - 1) < 2 ^ 64 then .ok (roundUp value (2 ^ k)) else .panic .overflow := by
  rw [alignUp_dev_mask value Nat.one_le_two_pow]
  split
  · next fits => rw [maskUp_two_pow hk.le fits]
  · rfl

namespace PhysicalMemoryManager

theorem findFit_checked (searchStart searchEnd size alignment : Nat)
    (areas : List PhysicalMemoryArea) :
    Outcome.Checked (ε := ε) (findFit .dev searchStart searchEnd size alignment areas)
      (findFit .release searchStart searchEnd size alignment areas) := by
  induction areas with
  | nil => exact .refl _
  | cons area rest ih =>
    unfold findFit
    split
    · exact ih
    · refine (alignUp_checked ..).bind fun aligned => (Outcome.checked_add ..).bind fun stop => ?_
      split
      · apply (Outcome.checked_add ..).bind
        intro areaEnd
        split
        · exact .refl _
        · exact ih
      · exact ih

theorem findFit_eq_dev (p : Profile) {searchStart searchEnd size alignment : Nat}
    {areas : List PhysicalMemoryArea}
    (quiet : (findFit .dev searchStart searchEnd size alignment areas : Outcome ε _) ≠
      .panic .overflow) :
    (findFit p searchStart searchEnd size alignment areas : Outcome ε _) =
      findFit .dev searchStart searchEnd size alignment areas := by
  cases p with
  | dev => rfl
  | release => exact ((findFit_checked ..).eq_of_ne quiet).symm

/-! ### Allocation -/

/-- An aligned address in the search window at which a free area has room. -/
structure Fit (searchStart searchEnd size alignment : Nat) (areas : List PhysicalMemoryArea)
    (addr : Nat) : Prop where
  aligned : alignment ∣ addr
  start : searchStart ≤ addr
  stop : addr + size ≤ searchEnd
  room : ∃ area ∈ areas, area.dmaType = .free ∧ area.base ≤ addr ∧
    addr + size ≤ area.base + area.size

theorem Fit.cons {searchStart searchEnd size alignment addr : Nat}
    {areas : List PhysicalMemoryArea} (fit : Fit searchStart searchEnd size alignment areas addr)
    (area : PhysicalMemoryArea) : Fit searchStart searchEnd size alignment (area :: areas) addr :=
  { fit with
    room := fit.room.imp fun _ ⟨member, facts⟩ => ⟨List.mem_cons_of_mem _ member, facts⟩ }

/-- Without overflow the search ends, and what it finds is a fit. -/
theorem findFit_spec {searchStart searchEnd size k : Nat} (hk : k < 64)
    {areas : List PhysicalMemoryArea} :
    (findFit .dev searchStart searchEnd size (2 ^ k) areas : Outcome ε _) = .panic .overflow ∨
    (findFit .dev searchStart searchEnd size (2 ^ k) areas : Outcome ε _) = .ok none ∨
    ∃ addr, (findFit .dev searchStart searchEnd size (2 ^ k) areas : Outcome ε _) =
        .ok (some addr) ∧ Fit searchStart searchEnd size (2 ^ k) areas addr := by
  induction areas with
  | nil => exact .inr (.inl rfl)
  | cons area rest ih =>
    have later := ih.imp_right <| Or.imp_right <| Exists.imp fun addr =>
      And.imp_right fun fit => Fit.cons fit area
    unfold findFit
    split
    · exact later
    · next isFree =>
      rw [alignUp_dev _ hk]
      split
      · have above : max area.base searchStart ≤ roundUp (max area.base searchStart) (2 ^ k) :=
          le_roundUp (Nat.two_pow_pos k)
        have low := le_trans (le_max_left _ _) above
        simp only [Outcome.ok_bind, Profile.add, Profile.fit, PhysicalMemoryArea.areaEnd]
        split
        · next fits =>
          simp only [Outcome.ok_bind]
          split
          · simp only [Outcome.ok_bind]
            split
            · next room =>
              exact .inr (.inr ⟨_, rfl, dvd_roundUp _ _, le_trans (le_max_right _ _) above,
                room.2, area, by simp, by simpa using isFree, low, room.1⟩)
            · exact later
          · exact .inl rfl
        · exact .inl rfl
      · exact .inl rfl

theorem findContaining_eq (p : Profile) {addr : Nat} {entries : List (Nat × PhysicalMemoryArea)}
    (small : ∀ e ∈ entries, e.2.base + e.2.size < 2 ^ 64) :
    (findContaining p addr entries : Outcome ε _) = .ok
      ((entries.find? fun e => e.1 ≤ addr ∧ addr < e.2.base + e.2.size).map Prod.fst) := by
  induction entries with
  | nil => rfl
  | cons entry rest ih =>
    obtain ⟨base, area⟩ := entry
    have computed := ih fun e member => small e (List.mem_cons_of_mem _ member)
    have areaEnd : (area.areaEnd p : Outcome ε Nat) = .ok (area.base + area.size) :=
      Profile.add_of_lt (small (base, area) (by simp))
    by_cases above : base ≤ addr
    · by_cases below : addr < area.base + area.size <;>
        simp [findContaining, above, below, areaEnd, computed]
    · simp [findContaining, above, computed]

theorem findContaining_spec (p : Profile) {areas : AreaMap} {total : Nat}
    (tiles : Tiles areas total) (bounded : total < 2 ^ 64) {area : PhysicalMemoryArea}
    (stored : areas[area.base]? = some area) {addr : Nat} (low : area.base ≤ addr)
    (high : addr < area.base + area.size) :
    (findContaining p addr areas.toList : Outcome ε _) = .ok (some area.base) := by
  have members : ∀ k a, (k, a) ∈ areas.toList ↔ areas[k]? = some a :=
    fun _ _ => mem_toList
  have keyed : ∀ e ∈ areas.toList, e.2.base = e.1 :=
    fun e member => tiles.separated.keyed ((members e.1 e.2).mp member)
  rw [findContaining_eq p fun e member => by
    rw [keyed e member]
    exact lt_of_le_of_lt (tiles.within ((members e.1 e.2).mp member)) bounded]
  cases found : areas.toList.find? fun e => e.1 ≤ addr ∧ addr < e.2.base + e.2.size with
  | none =>
    have missed := List.find?_eq_none.mp found (area.base, area) ((members _ _).mpr stored)
    simp [low, high] at missed
  | some e =>
    have member := List.mem_of_find?_eq_some found
    have here : e.1 ≤ addr ∧ addr < e.2.base + e.2.size := by simpa using List.find?_some found
    have covered : Covers e.2 addr := ⟨(keyed e member).trans_le here.1, here.2⟩
    have same := tiles.separated.unique ((members e.1 e.2).mp member) stored covered ⟨low, high⟩
    rw [Option.map_some, same]

theorem carveArea_spec (p : Profile) {areas : AreaMap} {total : Nat} (tiles : Tiles areas total)
    (bounded : total < 2 ^ 64) {area : PhysicalMemoryArea}
    (stored : areas[area.base]? = some area) {addr size : Nat} (low : area.base ≤ addr)
    (nonempty : 0 < size) (high : addr + size ≤ area.base + area.size) :
    (carveArea p areas addr size : Outcome ε _) =
      .ok ((cutOut areas area addr (addr + size)).insert addr
        { area with base := addr, size := size }) := by
  have fits : area.base + area.size ≤ total := tiles.within stored
  have areaEnd : (area.areaEnd p : Outcome ε Nat) = .ok (area.base + area.size) :=
    Profile.add_of_lt (by omega)
  have stop : (p.add 64 addr size : Outcome ε Nat) = .ok (addr + size) :=
    Profile.add_of_lt (by omega)
  unfold carveArea cutOut
  simp only [findContaining_spec p tiles bounded stored low (by omega), stored, Outcome.ok_bind,
    Segment.base, Segment.size, Segment.withRange]
  by_cases left : area.base < addr <;> by_cases right : addr + size < area.base + area.size <;>
    simp [left, right, areaEnd, stop, Profile.sub_of_le, Nat.le_of_lt]
  all_goals
    apply Std.ExtTreeMap.ext_getElem?
    intro k
    simp only [getElem?_insert]
    by_cases atAddr : addr = k
    · simp [← atAddr, nonempty.ne']
    · simp [atAddr]

theorem modify_insert_self {areas : AreaMap} {k : Nat} {area : PhysicalMemoryArea}
    (f : PhysicalMemoryArea → PhysicalMemoryArea) :
    (areas.insert k area).modify k f = areas.insert k (f area) := by
  apply Std.ExtTreeMap.ext_getElem?
  intro k'
  rw [Std.ExtTreeMap.getElem?_modify]
  by_cases same : k = k' <;> simp [same]

section Taken

variable {areas : AreaMap} {total addr size : Nat} {area : PhysicalMemoryArea}
  (tiles : Tiles areas total) (stored : areas[area.base]? = some area) (nonempty : 0 < size)
  (low : area.base ≤ addr) (high : addr + size ≤ area.base + area.size)

include tiles stored nonempty low high

omit low in
theorem positive_of_room : Positive areas := by
  have within : area.base + area.size ≤ total := tiles.within stored
  exact tiles.nonempty (by omega)

theorem tiles_taken : Tiles ((cutOut areas area addr (addr + size)).insert addr
    { area with base := addr, size := size, dmaType := .allocated }) total :=
  .refill tiles.separated (positive_of_room tiles stored nonempty high) stored low
    (Nat.lt_add_of_pos_right nonempty) high rfl rfl tiles

theorem attrAt_taken : attrAt ((cutOut areas area addr (addr + size)).insert addr
      { area with base := addr, size := size, dmaType := .allocated }) =
    overwrite (attrAt areas) addr (addr + size) (area.memoryType, .allocated) :=
  attrAt_refill tiles.separated (positive_of_room tiles stored nonempty high) stored low
    (Nat.lt_add_of_pos_right nonempty) high rfl rfl

end Taken

/-- What an `allocate` call that returned has done. -/
inductive Allocated (m : PhysicalMemoryManager) (r : AllocRequest) :
    Option Nat × PhysicalMemoryManager → Prop where
  | failed : Allocated m r (none, m)
  | found {addr area} : r.effective ∣ addr → r.searchStart ≤ addr →
      addr + r.size ≤ r.searchEnd → m.areas[area.base]? = some area → area.dmaType = .free →
      area.base ≤ addr → addr + r.size ≤ area.base + area.size →
      Allocated m r (some addr, { m with
        areas := (cutOut m.areas area addr (addr + r.size)).insert addr
          { area with base := addr, size := r.size, dmaType := .allocated } })

theorem allocate_found (p : Profile) {m : PhysicalMemoryManager} {total : Nat}
    (tiles : Tiles m.areas total) (bounded : total < 2 ^ 64) {r : AllocRequest}
    (nonempty : 0 < r.size) {addr : Nat} {area : PhysicalMemoryArea}
    (found : (findFit p r.searchStart r.searchEnd r.size r.effective
      (m.areas.toList.map Prod.snd) : Outcome Empty _) = .ok (some addr))
    (stored : m.areas[area.base]? = some area) (low : area.base ≤ addr)
    (high : addr + r.size ≤ area.base + area.size) :
    r.call p m = .ok (some addr, { m with
      areas := (cutOut m.areas area addr (addr + r.size)).insert addr
        { area with base := addr, size := r.size, dmaType := .allocated } }) := by
  have effective : max r.alignment pageSize = r.effective := rfl
  unfold AllocRequest.call allocate
  simp only [effective, found, Outcome.ok_bind,
    carveArea_spec p tiles bounded stored low nonempty high, modify_insert_self,
    Outcome.pure_eq_ok]

theorem allocate_none {p : Profile} {m : PhysicalMemoryManager} {r : AllocRequest}
    (searched : (findFit p r.searchStart r.searchEnd r.size r.effective
      (m.areas.toList.map Prod.snd) : Outcome Empty _) = .ok none) : r.call p m = .ok (none, m) := by
  have effective : max r.alignment pageSize = r.effective := rfl
  unfold AllocRequest.call allocate
  simp only [effective, searched]
  rfl

theorem allocate_spec (p : Profile) {m : PhysicalMemoryManager} {total : Nat}
    (tiles : Tiles m.areas total) (bounded : total < 2 ^ 64) {r : AllocRequest} (valid : r.Valid)
    (quiet : r.call .dev m ≠ .panic .overflow) :
    ∃ result, r.call p m = .ok result ∧ Allocated m r result := by
  obtain ⟨k, hk, power⟩ := AllocRequest.effective_two_pow valid.aligned
  have effective : max r.alignment pageSize = r.effective := rfl
  have search : (findFit .dev r.searchStart r.searchEnd r.size r.effective
      (m.areas.toList.map Prod.snd) : Outcome Empty _) ≠ .panic .overflow := by
    intro overflows
    apply quiet
    simp only [AllocRequest.call, allocate, effective, overflows,
      Outcome.panic_bind]
  have same := findFit_eq_dev p search
  rcases findFit_spec hk (ε := Empty) with overflows | none | ⟨addr, found, fit⟩
  · exact absurd overflows (power ▸ search)
  · rw [← power] at none
    exact ⟨_, allocate_none (same.trans none), .failed⟩
  · obtain ⟨area, member, isFree, low, high⟩ := fit.room
    obtain ⟨⟨k', area⟩, listed, rfl⟩ := List.mem_map.mp member
    have stored := mem_toList.mp listed
    obtain rfl : area.base = k' := tiles.separated.keyed stored
    rw [← power] at found
    exact ⟨_, allocate_found p tiles bounded valid.nonempty (same.trans found) stored low high,
      .found (power ▸ fit.aligned) fit.start fit.stop stored isFree low high⟩

end PhysicalMemoryManager

/-! ### Merging -/

namespace PhysicalMemoryArea

/-- The condition of `canMergeWith` in exact arithmetic. -/
def Mergeable (area next : PhysicalMemoryArea) : Prop :=
  area.base + area.size = next.base ∧ area.memoryType = next.memoryType ∧
    area.dmaType = next.dmaType

instance (area next : PhysicalMemoryArea) : Decidable (area.Mergeable next) :=
  inferInstanceAs (Decidable (_ ∧ _ ∧ _))

def Unmergeable (area next : PhysicalMemoryArea) : Prop := ¬ area.Mergeable next

instance (area next : PhysicalMemoryArea) : Decidable (area.Unmergeable next) :=
  inferInstanceAs (Decidable (¬ area.Mergeable next))

theorem canMergeWith_eq (p : Profile) {area : PhysicalMemoryArea}
    (small : area.base + area.size < 2 ^ 64) (next : PhysicalMemoryArea) :
    (area.canMergeWith p next : Outcome ε Bool) = .ok (decide (area.Mergeable next)) := by
  unfold canMergeWith Mergeable
  rw [Profile.add_of_lt small, Outcome.ok_bind, Outcome.pure_eq_ok]
  congr 1
  by_cases adjacent : area.base + area.size = next.base <;>
    by_cases same : area.memoryType = next.memoryType <;> simp [adjacent, same, beq_eq_decide]

theorem Mergeable.attr_eq {area next : PhysicalMemoryArea} (merge : area.Mergeable next) :
    Segment.attr area = Segment.attr next := by
  simp [Segment.attr, merge.2.1, merge.2.2]

end PhysicalMemoryArea

/-- At most the last two areas can merge, and these only when free. -/
def MergesAtEnd : List PhysicalMemoryArea → Prop
  | area :: next :: [] => area.Mergeable next → area.dmaType = .free
  | area :: next :: after :: rest =>
    ¬ area.Mergeable next ∧ MergesAtEnd (next :: after :: rest)
  | _ => True

theorem mergesAtEnd_iff {areas : List PhysicalMemoryArea} :
    MergesAtEnd areas ↔ areas.dropLast.IsChain PhysicalMemoryArea.Unmergeable ∧
      ∀ before area next, areas = before ++ [area, next] → area.Mergeable next →
        area.dmaType = .free := by
  match areas with
  | [] => simp [MergesAtEnd]
  | [_] => simp [MergesAtEnd, List.cons_eq_append_iff]
  | [area, next] =>
    simp only [MergesAtEnd, List.dropLast_cons_cons, List.dropLast_singleton, List.isChain_singleton,
      true_and]
    constructor
    · intro last before left right split merge
      have ends := List.append_inj_right' (show [] ++ [area, next] = _ from split) rfl
      simp only [List.cons.injEq, and_true] at ends
      obtain ⟨rfl, rfl⟩ := ends
      exact last merge
    · exact fun last => last [] area next rfl
  | area :: next :: after :: rest =>
    have later := @mergesAtEnd_iff (next :: after :: rest)
    have grown : (area :: next :: after :: rest).dropLast.IsChain
          PhysicalMemoryArea.Unmergeable ↔
        ¬ area.Mergeable next ∧
          (next :: after :: rest).dropLast.IsChain PhysicalMemoryArea.Unmergeable := by
      simp [List.isChain_cons_cons, PhysicalMemoryArea.Unmergeable]
    simp only [MergesAtEnd, later, grown, and_assoc]
    refine and_congr_right fun _ => and_congr_right fun _ => ⟨?_, ?_⟩
    · intro last before left right split
      cases before with
      | nil => simp at split
      | cons _ before => exact last before left right (List.cons.inj split).2
    · intro last before left right split
      exact last (area :: before) left right (by rw [split]; rfl)

theorem MergesAtEnd.of_chain {areas : List PhysicalMemoryArea}
    (chain : areas.IsChain PhysicalMemoryArea.Unmergeable) : MergesAtEnd areas := by
  refine mergesAtEnd_iff.mpr ⟨chain.dropLast, fun before area next split merge => ?_⟩
  rw [split, List.isChain_append_cons_cons] at chain
  exact absurd merge chain.2.1

namespace PhysicalMemoryManager

open PhysicalMemoryArea (Unmergeable)

theorem mergeKeys_cons (p : Profile) {areas : AreaMap} {total : Nat} (tiles : Tiles areas total)
    (bounded : total < 2 ^ 64) {area next : PhysicalMemoryArea} {k k' : Nat} (rest : List Nat)
    (stored : areas[k]? = some area) (storedNext : areas[k']? = some next) (before : k < k') :
    (mergeKeys p (k :: k' :: rest) areas : Outcome ε _) =
      mergeKeys p (k' :: rest) (if area.Mergeable next then join areas area next else areas) := by
  have fits : k + area.size ≤ total := tiles.within stored
  have fitsNext : k' + next.size ≤ total := tiles.within storedNext
  obtain rfl : area.base = k := tiles.separated.keyed stored
  obtain rfl : next.base = k' := tiles.separated.keyed storedNext
  simp only [mergeKeys, stored, storedNext,
    PhysicalMemoryArea.canMergeWith_eq p (lt_of_le_of_lt fits bounded), Outcome.ok_bind,
    decide_eq_true_eq]
  split
  · next merge =>
    have adjacent := merge.1
    rw [Profile.add_of_lt (by omega), Outcome.ok_bind]
    congr 1
    apply Std.ExtTreeMap.ext_getElem?
    intro k
    have different : next.base ≠ area.base := by omega
    rw [Std.ExtTreeMap.getElem?_modify]
    by_cases same : area.base = k
    · simp [join, Segment.base, Segment.size, Segment.withRange, ← same, different, stored]
    · simp [join, Segment.base, same]
  · rfl

/-- The merge loop over stored areas: no neighbours merge, or only the last two
do, or an earlier merge makes the next iteration look up a key that is gone. -/
theorem mergeKeys_spec (p : Profile) {areas : AreaMap} {total : Nat}
    (tiles : Tiles areas total) (bounded : total < 2 ^ 64)
    {entries : List (Nat × PhysicalMemoryArea)}
    (stored : ∀ e ∈ entries, areas[e.1]? = some e.2)
    (sorted : (entries.map Prod.fst).Pairwise (· < ·)) :
    ((entries.map Prod.snd).IsChain Unmergeable ∧
      (mergeKeys p (entries.map Prod.fst) areas : Outcome ε _) = .ok areas) ∨
    (∃ before left right, entries = before ++ [left, right] ∧
      ((before ++ [left]).map Prod.snd).IsChain Unmergeable ∧ left.2.Mergeable right.2 ∧
      (mergeKeys p (entries.map Prod.fst) areas : Outcome ε _) =
        .ok (join areas left.2 right.2)) ∨
    (¬ (entries.map Prod.snd).dropLast.IsChain Unmergeable ∧
      (mergeKeys p (entries.map Prod.fst) areas : Outcome ε _) = .panic .missingKey) := by
  match entries with
  | [] => exact .inl ⟨.nil, rfl⟩
  | [_] => exact .inl ⟨.singleton _, rfl⟩
  | (k, area) :: (k', next) :: rest =>
    have here : areas[k]? = some area := stored (k, area) (by simp)
    have there : areas[k']? = some next := stored (k', next) (by simp)
    have keyed : area.base = k := tiles.separated.keyed here
    have keyedNext : next.base = k' := tiles.separated.keyed there
    have before : k < k' := (List.pairwise_cons.mp sorted).1 k' (by simp)
    have step := mergeKeys_cons (ε := ε) p tiles bounded (rest.map Prod.fst) here there before
    simp only [List.map_cons] at step ⊢
    rw [step]
    by_cases merge : area.Mergeable next
    · rw [if_pos merge]
      match rest with
      | [] => exact .inr (.inl ⟨[], _, _, rfl, .singleton _, merge, rfl⟩)
      | (k'', _) :: rest =>
        refine .inr (.inr ⟨fun quiet => ?_, ?_⟩)
        · exact (List.isChain_cons_cons.mp quiet).1 merge
        · have gone : (join areas area next)[k']? = none := by
            simp [join, Segment.base, keyed, keyedNext, before.ne]
          simp [mergeKeys, gone]
    · rw [if_neg merge]
      rcases mergeKeys_spec p tiles bounded
          (fun e (member : e ∈ (k', next) :: rest) => stored e (List.mem_cons_of_mem _ member))
          (List.pairwise_cons.mp sorted).2 with
        ⟨quiet, run⟩ | ⟨prior, left, right, split, quiet, last, run⟩ | ⟨loud, run⟩
      · exact .inl ⟨.cons_cons merge quiet, run⟩
      · refine .inr (.inl ⟨(k, area) :: prior, left, right, by rw [split]; rfl, ?_, last, run⟩)
        cases prior with
        | nil =>
          cases split
          exact .cons_cons merge quiet
        | cons _ prior =>
          cases split
          exact .cons_cons merge quiet
      · refine .inr (.inr ⟨fun quiet => loud ?_, run⟩)
        exact quiet.tail

/-- The merge loop as the release sees it: nothing merges, or the last two do. -/
theorem mergeKeys_outcome (p : Profile) {areas : AreaMap} {total : Nat}
    (tiles : Tiles areas total) (bounded : total < 2 ^ 64)
    {entries : List (Nat × PhysicalMemoryArea)}
    (stored : ∀ e ∈ entries, areas[e.1]? = some e.2)
    (sorted : (entries.map Prod.fst).Pairwise (· < ·)) :
    ((entries.map Prod.snd).IsChain Unmergeable ∧
      (mergeKeys p (entries.map Prod.fst) areas : Outcome ε _) = .ok areas) ∨
    (∃ area next, areas[area.base]? = some area ∧ areas[next.base]? = some next ∧
      area.base < next.base ∧ area.Mergeable next ∧
      (MergesAtEnd (entries.map Prod.snd) ↔ area.dmaType = .free) ∧
      (mergeKeys p (entries.map Prod.fst) areas : Outcome ε _) = .ok (join areas area next)) ∨
    (¬ MergesAtEnd (entries.map Prod.snd) ∧
      (mergeKeys p (entries.map Prod.fst) areas : Outcome ε _) = .panic .missingKey) := by
  rcases mergeKeys_spec (ε := ε) p tiles bounded stored sorted with
    ⟨quiet, run⟩ | ⟨before, ⟨k, area⟩, ⟨k', next⟩, rfl, quiet, merge, run⟩ | ⟨loud, run⟩
  · exact .inl ⟨quiet, run⟩
  · have here : areas[k]? = some area := stored (k, area) (by simp)
    have there : areas[k']? = some next := stored (k', next) (by simp)
    have keyed : area.base = k := tiles.separated.keyed here
    have keyedNext : next.base = k' := tiles.separated.keyed there
    have order : k < k' := by
      rw [List.map_append, List.pairwise_append] at sorted
      simpa using sorted.2.1
    refine .inr (.inl ⟨area, next, keyed ▸ here, keyedNext ▸ there, by omega, merge, ?_, run⟩)
    rw [mergesAtEnd_iff]
    constructor
    · exact fun ⟨_, last⟩ => last (before.map Prod.snd) area next (by simp) merge
    · refine fun isFree => ⟨?_, fun prior left right split _ => ?_⟩
      · rw [List.map_append, List.map_cons, List.map_cons, List.map_nil,
          List.dropLast_append_of_ne_nil (by simp)]
        simpa using quiet
      · have whole : before.map Prod.snd ++ [area, next] = prior ++ [left, right] := by
          simpa using split
        have ends := List.append_inj_right' whole rfl
        rw [List.cons_eq_cons] at ends
        exact ends.1 ▸ isFree
  · exact .inr (.inr ⟨fun quiet => loud (mergesAtEnd_iff.mp quiet).1, run⟩)

def marked (m : PhysicalMemoryManager) (addr : Nat) : AreaMap :=
  m.areas.modify addr fun area => { area with dmaType := .free }

theorem marked_eq {m : PhysicalMemoryManager} {addr : Nat} {area : PhysicalMemoryArea}
    (stored : m.areas[addr]? = some area) :
    m.marked addr = m.areas.insert addr { area with dmaType := .free } := by
  apply Std.ExtTreeMap.ext_getElem?
  intro k
  unfold marked
  rw [Std.ExtTreeMap.getElem?_modify]
  by_cases same : addr = k
  · subst same
    simp [stored]
  · simp [same]

theorem free_of_not_exact (p : Profile) {m : PhysicalMemoryManager} {addr size : Nat}
    (absent : ∀ area, m.areas[addr]? = some area → area.size ≠ size) :
    (m.free p addr size : Outcome ε _) = .ok (false, m) := by
  unfold free
  cases found : m.areas[addr]? with
  | none => rfl
  | some area => exact if_neg (absent area found)

/-- A call that names an area exactly runs the merge loop over the marked map. -/
theorem free_run (p : Profile) {m : PhysicalMemoryManager} {addr : Nat} {area : PhysicalMemoryArea}
    (stored : m.areas[addr]? = some area) :
    (m.free p addr area.size : Outcome ε _) = (do
      let areas ← mergeKeys p ((m.marked addr).toList.map Prod.fst) (m.marked addr)
      return (true, { m with areas := areas })) := by
  have keys : (m.marked addr).toList.map Prod.fst = (m.marked addr).keys :=
    Std.ExtTreeMap.map_fst_toList_eq_keys
  simp only [free, stored, if_true, mergeAdjacent, keys]
  rfl

/-- A call that names an area exactly: the area is marked free, and then the
merge loop leaves the map alone, joins the last two areas or panics. -/
theorem free_of_exact (p : Profile) {m : PhysicalMemoryManager} {total addr : Nat}
    (tiles : Tiles (m.marked addr) total) (bounded : total < 2 ^ 64) {area : PhysicalMemoryArea}
    (stored : m.areas[addr]? = some area) :
    (((m.marked addr).toList.map Prod.snd).IsChain Unmergeable ∧
      (m.free p addr area.size : Outcome ε _) = .ok (true, { m with areas := m.marked addr })) ∨
    (∃ left right, (m.marked addr)[left.base]? = some left ∧
      (m.marked addr)[right.base]? = some right ∧ left.base < right.base ∧ left.Mergeable right ∧
      (MergesAtEnd ((m.marked addr).toList.map Prod.snd) ↔ left.dmaType = .free) ∧
      (m.free p addr area.size : Outcome ε _) =
        .ok (true, { m with areas := join (m.marked addr) left right })) ∨
    (¬ MergesAtEnd ((m.marked addr).toList.map Prod.snd) ∧
      (m.free p addr area.size : Outcome ε _) = .panic .missingKey) := by
  have sorted := toList_sorted (m.marked addr)
  rw [free_run p stored]
  rcases mergeKeys_outcome (ε := ε) p tiles bounded
      (fun e member => mem_toList.mp member) sorted with
    ⟨quiet, merged⟩ | ⟨left, right, here, there, before, merge, quiet, merged⟩ | ⟨loud, merged⟩
  · exact .inl ⟨quiet, by rw [merged]; rfl⟩
  · exact .inr (.inl ⟨left, right, here, there, before, merge, quiet, by rw [merged]; rfl⟩)
  · exact .inr (.inr ⟨loud, by rw [merged]; rfl⟩)

theorem marked_tiles {m : PhysicalMemoryManager} {total addr : Nat} (tiles : Tiles m.areas total)
    {area : PhysicalMemoryArea} (stored : m.areas[addr]? = some area) :
    Tiles (m.marked addr) total := by
  have keyed : area.base = addr := tiles.separated.keyed stored
  rw [marked_eq stored]
  exact tiles.replace tiles.separated stored (by exact keyed) (by rfl)

end PhysicalMemoryManager

end AnotherPs4
