import AnotherPs4.Memory.FirstFit
import AnotherPs4.Memory.PhysicalRuns

/-!
# Where an allocation is placed

An allocation rewrites the bytes of its block and no others. The search tries
one address in each free area; while no two free areas touch, that is enough to
find the lowest run of free bytes there is.
-/

namespace AnotherPs4

open Rust RangeMap Transition

namespace PhysicalMemoryManager

def FreeAt (m : PhysicalMemoryManager) (x : Nat) : Prop :=
  ∃ a, attrAt m.areas x = some a ∧ a.2 = .free

/-- The request may get this address, whatever the areas are. -/
structure Available (m : PhysicalMemoryManager) (r : AllocRequest) (addr : Nat) : Prop where
  aligned : r.effective ∣ addr
  start : r.searchStart ≤ addr
  stop : addr + r.size ≤ r.searchEnd
  free : ∀ x, addr ≤ x → x < addr + r.size → m.FreeAt x

/-! ### One allocation -/

/-- The block at `addr` is an allocated area now, and nothing else has changed. -/
structure Allots (m : PhysicalMemoryManager) (r : AllocRequest) (total addr : Nat)
    (m' : PhysicalMemoryManager) : Prop where
  available : m.Available r addr
  tiles : Tiles m'.areas total
  positive : Positive m'.areas
  stored : ∃ area : PhysicalMemoryArea, m'.areas[addr]? = some area ∧ area.base = addr ∧
    area.size = r.size ∧ area.dmaType = .allocated
  frame : ∀ x, ¬ (addr ≤ x ∧ x < addr + r.size) → attrAt m'.areas x = attrAt m.areas x

/-- An allocation rewrites exactly its block, or nothing. -/
def Exactly (m : PhysicalMemoryManager) (r : AllocRequest) (total : Nat) :
    Option Nat → PhysicalMemoryManager → Prop
  | none, m' => m' = m
  | some addr, m' => m.Allots r total addr m'

section Tiled

variable {m : PhysicalMemoryManager} {total : Nat} {r : AllocRequest} (tiles : Tiles m.areas total)

include tiles

theorem freeAt_iff {x : Nat} :
    m.FreeAt x ↔ ∃ area : PhysicalMemoryArea, m.areas[area.base]? = some area ∧
      area.dmaType = .free ∧ area.base ≤ x ∧ x < area.base + area.size := by
  constructor
  · rintro ⟨a, found, isFree⟩
    obtain ⟨k, area, stored, covers, rfl⟩ := (attrAt_eq_some tiles.separated).mp found
    obtain rfl : area.base = k := tiles.separated.keyed stored
    exact ⟨area, stored, isFree, covers.1, covers.2⟩
  · rintro ⟨area, stored, isFree, low, high⟩
    exact ⟨_, (attrAt_eq_some tiles.separated).mpr ⟨_, area, stored, ⟨low, high⟩, rfl⟩, isFree⟩

theorem Allocated.exactly (valid : r.Valid) {result : Option Nat × PhysicalMemoryManager}
    (allocated : Allocated m r result) (positive : Positive m.areas) :
    m.Exactly r total result.1 result.2 := by
  cases allocated with
  | failed => rfl
  | @found addr area aligned start stop stored isFree low high =>
    let block : PhysicalMemoryArea :=
      { area with base := addr, size := r.size, dmaType := .allocated }
    have bytes := attrAt_taken tiles stored valid.nonempty low high
    have available : m.Available r addr :=
      ⟨aligned, start, stop, fun x above below => (freeAt_iff tiles).mpr
        ⟨area, stored, isFree, low.trans above, lt_of_lt_of_le below high⟩⟩
    refine ⟨available, tiles_taken tiles stored valid.nonempty low high,
      positive.cutOut.insert valid.nonempty, ⟨block, by simp [block], rfl, rfl, rfl⟩, ?_⟩
    intro x outside
    rw [bytes]
    exact overwrite_outside outside

end Tiled

/-- An allocation that overflows nothing takes a run of free bytes, aligned and
in the search window, and changes no other byte; or it changes nothing. -/
theorem allocate_exactly (p : Profile) {m : PhysicalMemoryManager} {total : Nat}
    (tiles : Tiles m.areas total) (positive : Positive m.areas) (bounded : total < 2 ^ 64)
    {r : AllocRequest} (valid : r.Valid) (quiet : r.call .dev m ≠ .panic .overflow) :
    ∃ result m', r.call p m = .ok (result, m') ∧ m.Exactly r total result m' := by
  obtain ⟨⟨result, m'⟩, returned, allocated⟩ := allocate_spec p tiles bounded valid quiet
  exact ⟨result, m', returned, allocated.exactly tiles valid positive⟩

theorem allocate_exactly_onePage :
    ∃ result m', AllocRequest.onePage.call .dev (.new (2 * pageSize)) = .ok (result, m') ∧
      (new (2 * pageSize)).Exactly .onePage (2 * pageSize) result m' :=
  allocate_exactly .dev (new_tiles _) ((new_tiles _).nonempty (by decide)) (by decide)
    AllocRequest.onePage_valid (by decide +kernel)

/-! ### The lowest free run -/

def Coalesced (m : PhysicalMemoryManager) : Prop :=
  ∀ a b : PhysicalMemoryArea, m.areas[a.base]? = some a → m.areas[b.base]? = some b →
    a.base + a.size = b.base → ¬ (a.dmaType = .free ∧ b.dmaType = .free)

section Tiled

variable {m : PhysicalMemoryManager} {total : Nat} {r : AllocRequest} (tiles : Tiles m.areas total)

include tiles

/-- Free areas do not touch if no border separates free bytes. -/
theorem coalesced_iff (positive : Positive m.areas) :
    m.Coalesced ↔ ∀ x, m.FreeAt x → m.FreeAt (x + 1) → ∃ a, Spans m.areas x 2 a := by
  constructor
  · intro coalesced x here next
    obtain ⟨s, stored, isFree, low, high⟩ := (freeAt_iff tiles).mp here
    obtain ⟨t, stored', isFree', low', high'⟩ := (freeAt_iff tiles).mp next
    refine ⟨_, s.base, s, stored, ⟨low, show x + 2 ≤ s.base + s.size from ?_⟩, rfl⟩
    by_contra border
    have later : s.base < t.base := by
      by_contra earlier
      have apart := tiles.separated.apart stored' stored
      rcases Nat.lt_or_eq_of_le (not_lt.mp earlier) with before | same
      · have above : t.base + t.size ≤ s.base := apart before
        omega
      · rw [same, stored] at stored'
        cases stored'
        omega
    have above : s.base + s.size ≤ t.base := tiles.separated.apart stored stored' later
    exact coalesced s t stored stored' (by omega) ⟨isFree, isFree'⟩
  · rintro joined a b stored stored' touch ⟨isFree, isFree'⟩
    have nonempty : 0 < a.size := positive stored
    have nonempty' : 0 < b.size := positive stored'
    have last : m.FreeAt (a.base + a.size - 1) :=
      (freeAt_iff tiles).mpr ⟨a, stored, isFree, by omega, by omega⟩
    have first : m.FreeAt (a.base + a.size - 1 + 1) :=
      (freeAt_iff tiles).mpr ⟨b, stored', isFree', by omega, by omega⟩
    obtain ⟨-, k, s, found, ⟨low, high⟩, -⟩ := joined _ last first
    have covers : Covers s (a.base + a.size - 1) := ⟨low, by omega⟩
    have here : Covers a (a.base + a.size - 1) :=
      ⟨show a.base ≤ _ by omega, show _ < a.base + a.size by omega⟩
    obtain rfl := tiles.separated.unique found stored covers here
    obtain rfl := Option.some.inj (found.symm.trans stored)
    change _ ≤ s.base + s.size at high
    omega

theorem Coalesced.room (coalesced : m.Coalesced) (positive : Positive m.areas) {addr size : Nat}
    (nonempty : 0 < size) (run : ∀ x, addr ≤ x → x < addr + size → m.FreeAt x) :
    ∃ area : PhysicalMemoryArea, m.areas[area.base]? = some area ∧ area.dmaType = .free ∧
      area.base ≤ addr ∧ addr + size ≤ area.base + area.size := by
  obtain ⟨n, rfl⟩ := Nat.exists_eq_add_of_lt nonempty
  rw [Nat.zero_add] at run ⊢
  obtain ⟨a, found, isFree⟩ := run addr le_rfl (by omega)
  have first := (attrAt_eq_some tiles.separated).mp found
  obtain ⟨k, area, stored, ⟨low, high⟩, rfl⟩ :=
    tiles.separated.spans_of_steps (n := n) first fun y above below =>
      (coalesced_iff tiles positive).mp coalesced y (run y above (by omega))
        (run (y + 1) (by omega) below)
  obtain rfl : area.base = k := tiles.separated.keyed stored
  exact ⟨area, stored, isFree, low, high⟩

theorem Available.fitsIn {addr : Nat} (available : m.Available r addr) (valid : r.Valid)
    (coalesced : m.Coalesced) (positive : Positive m.areas) :
    ∃ area ∈ m.areaList, area.dmaType = .free ∧ area.base ≤ addr ∧
      addr + r.size ≤ area.base + area.size ∧
      (r.SumsFit area → r.FitsIn area ∧ r.placeIn area ≤ addr) := by
  obtain ⟨area, stored, isFree, low, high⟩ :=
    coalesced.room tiles positive valid.nonempty available.free
  refine ⟨area, (mem_areaList tiles).mpr stored, isFree, low, high, fun sums => ?_⟩
  have place : r.placeIn area ≤ addr := by
    rw [AllocRequest.placeIn_eq_roundUp valid.aligned sums]
    exact roundUp_le (Nat.zero_lt_of_lt r.one_le_effective) available.aligned
      (max_le low available.start)
  have stop := available.stop
  exact ⟨⟨isFree, by omega, by omega⟩, place⟩

end Tiled

/-- The state of the memory that allocations keep. -/
structure Compact (m : PhysicalMemoryManager) (total : Nat) : Prop where
  tiles : Tiles m.areas total
  positive : Positive m.areas
  coalesced : m.Coalesced

def Lowest (m : PhysicalMemoryManager) (r : AllocRequest) : Option Nat → Prop
  | none => ∀ addr, ¬ m.Available r addr
  | some addr => IsLeast {addr | m.Available r addr} addr

theorem Compact.lowest (p : Profile) {m : PhysicalMemoryManager} {total : Nat}
    (compact : m.Compact total) (bounded : total < 2 ^ 64) {r : AllocRequest} (valid : r.Valid)
    (quiet : r.call .dev m ≠ .panic .overflow) :
    ∃ result m', r.call p m = .ok (result, m') ∧ m.Lowest r result := by
  obtain ⟨tiles, positive, coalesced⟩ := compact
  have calm : r.Quiet m.areaList := by
    by_contra loud
    exact quiet (call_of_not_quiet tiles bounded loud)
  have sums := (AllocRequest.quiet_iff (areaList_sorted tiles)).mp calm
  cases found : m.areaList.find? (fun area => r.FitsIn area) with
  | none =>
    refine ⟨none, m, call_of_no_fit tiles bounded p calm found, fun addr available => ?_⟩
    have unfit : ∀ area ∈ m.areaList, ¬ r.FitsIn area := by
      simpa using List.find?_eq_none.mp found
    obtain ⟨area, member, isFree, -, -, fits⟩ :=
      available.fitsIn tiles valid coalesced positive
    exact unfit area member (fits (sums area member isFree fun below listed _ => unfit below listed)).1
  | some area =>
    obtain ⟨member, fits, none⟩ := (AllocRequest.find?_fitsIn_iff (areaList_sorted tiles)).mp found
    have areaSums := sums area member fits.1 none
    have returned := call_of_fit tiles bounded p valid.nonempty calm areaSums found
    refine ⟨_, _, returned, ?_, fun addr available => ?_⟩
    · obtain ⟨result, m', same, exactly⟩ := allocate_exactly p tiles positive bounded valid quiet
      rw [returned] at same
      cases same
      exact exactly.available
    · obtain ⟨other, listed, isFree, low, high, lower⟩ :=
        available.fitsIn tiles valid coalesced positive
      have stored := (mem_areaList tiles).mp member
      have stored' := (mem_areaList tiles).mp listed
      rcases Nat.lt_trichotomy area.base other.base with before | same | behind
      · -- the whole area lies below the run
        have apart : area.base + area.size ≤ other.base :=
          tiles.separated.apart stored stored' before
        have room := fits.2.1
        omega
      · rw [← same, stored] at stored'
        cases stored'
        exact (lower areaSums).2
      · have otherSums := sums other listed isFree fun below there less =>
          none below there (less.trans behind)
        exact absurd (lower otherSums).1 (none other listed behind)

theorem new_compact {total : Nat} (nonempty : 0 < total) : (new total).Compact total := by
  refine ⟨new_tiles total, (new_tiles total).nonempty nonempty, ?_⟩
  intro a b stored stored' touch
  simp only [new, getElem?_insert] at stored stored'
  split at stored
  · next here =>
    cases stored
    split at stored'
    · cases stored'
      exact absurd touch (by simpa using nonempty.ne')
    · simp at stored'
  · simp at stored

theorem Allots.free_outside {m m' : PhysicalMemoryManager} {r : AllocRequest} {total addr x : Nat}
    (allots : m.Allots r total addr m') (isFree : m'.FreeAt x) :
    m.FreeAt x ∧ (x < addr ∨ addr + r.size ≤ x) := by
  have outside : ¬ (addr ≤ x ∧ x < addr + r.size) := by
    rintro ⟨above, below⟩
    obtain ⟨block, stored, key, length, type⟩ := allots.stored
    obtain ⟨other, stored', isFree, low, high⟩ := (freeAt_iff allots.tiles).mp isFree
    have same := allots.tiles.separated.unique stored stored' (x := x)
      ⟨show block.base ≤ x by omega, show x < block.base + block.size by omega⟩ ⟨low, high⟩
    rw [same, stored'] at stored
    cases stored
    rw [isFree] at type
    cases type
  unfold FreeAt at isFree ⊢
  rw [allots.frame x outside] at isFree
  exact ⟨isFree, by omega⟩

/-- Allocating splits a free area into parts that do not touch. -/
theorem Compact.allocated {m : PhysicalMemoryManager} {total : Nat} (compact : m.Compact total)
    {r : AllocRequest} (valid : r.Valid) {result : Option Nat × PhysicalMemoryManager}
    (allocated : Allocated m r result) : result.2.Compact total := by
  obtain ⟨tiles, positive, coalesced⟩ := compact
  have exactly := allocated.exactly tiles valid positive
  cases allocated with
  | failed => exact ⟨tiles, positive, coalesced⟩
  | @found addr area aligned start stop stored isFree low high =>
    refine ⟨exactly.tiles, exactly.positive, (coalesced_iff exactly.tiles exactly.positive).mpr ?_⟩
    have sep := tiles.separated
    have nonempty := valid.nonempty
    have starts : Segment.base area < addr + r.size := lt_of_le_of_lt low (by omega)
    have reaches : addr < Segment.base area + Segment.size area := lt_of_lt_of_le (by omega) high
    have gap := gap_cutOut sep positive stored low (Nat.lt_add_of_pos_right nonempty) high
    intro x here next
    obtain ⟨before, side⟩ := Allots.free_outside exactly here
    obtain ⟨behind, side'⟩ := Allots.free_outside exactly next
    obtain ⟨a, both⟩ := (coalesced_iff tiles positive).mp coalesced x before behind
    refine ⟨a, (spans_insert (gap.absent (Nat.lt_add_of_pos_right nonempty))).mpr (.inr ?_)⟩
    exact (spans_cutOut sep stored starts reaches (by decide) (Nat.le_add_right _ _)).mpr
      ⟨both, fun inside => by omega⟩

theorem compact_of_allocations {p : Profile} {total : Nat} (bounded : total < 2 ^ 64)
    (nonempty : 0 < total) {events : List PhysicalEvent} {s : Ledger}
    (run : Trace (PhysicalStep p fun _ _ _ => False) (.new total) events s) :
    s.manager.Compact total := by
  have start : (Ledger.new total).manager.Compact total := new_compact nonempty
  refine Trace.ghost (fun (_ : Unit) _ => ()) (fun _ (s : Ledger) => s.manager.Compact total) ()
    start (fun compact step => ?_) run
  cases step with
  | allocate valid quiet returned =>
    obtain ⟨result, computed, allocated⟩ :=
      allocate_spec p compact.tiles bounded valid quiet
    rw [computed] at returned
    cases returned
    exact compact.allocated valid allocated
  | free admitted => exact admitted.elim

/-- Where free areas do not touch, an allocation that overflows nothing returns
the lowest available address, and none only if there is none. Allocations alone
never make free areas touch. -/
theorem allocate_lowest (p : Profile) {total : Nat} (bounded : total < 2 ^ 64) :
    (∀ m : PhysicalMemoryManager, m.Compact total → ∀ r : AllocRequest, r.Valid →
      r.call .dev m ≠ .panic .overflow →
      ∃ result m', r.call p m = .ok (result, m') ∧ m.Lowest r result) ∧
    (0 < total → ∀ events s,
      Trace (PhysicalStep p fun _ _ _ => False) (.new total) events s →
      s.manager.Compact total) :=
  ⟨fun _ compact _ valid quiet => compact.lowest p bounded valid quiet,
    fun nonempty _ _ run => compact_of_allocations bounded nonempty run⟩

theorem allocate_lowest_onePage :
    (new (2 * pageSize)).Compact (2 * pageSize) ∧
    ∃ result m', AllocRequest.onePage.call .dev (.new (2 * pageSize)) = .ok (result, m') ∧
      (new (2 * pageSize)).Lowest .onePage result :=
  have lowest := @allocate_lowest .dev (2 * pageSize) (by decide)
  have compact := lowest.2 (by decide) [] _ .nil
  ⟨compact, lowest.1 _ compact _ AllocRequest.onePage_valid (by decide +kernel)⟩

end PhysicalMemoryManager

end AnotherPs4
