import AnotherPs4.Memory.PhysicalRuns

/-!
# Frees that keep blocks freeable

The merge loop of a release joins whatever it can, held blocks included, and it
stops on the key of an area that it joined before. While no free meets areas
that merge, areas and held blocks coincide. Which of the others can still be
freed afterwards depends on three areas at most.
-/

namespace AnotherPs4

open Rust RangeMap Transition

namespace PhysicalMemoryManager

/-- The block can be freed now. -/
def CanFree (p : Profile) (m : PhysicalMemoryManager) (b : Block) : Prop :=
  ∃ m', (m.free p b.1 b.2 : Outcome Empty _) = .ok (true, m')

/-- If the call names an area exactly, that area is allocated, and once it is
free at most the last two areas can merge, both free. In a memory of three areas
these do merge, unless the last is the one that is freed. -/
def FreeSafe (m : PhysicalMemoryManager) (addr size : Nat) : Prop :=
  ∀ area, m.areas[addr]? = some area → area.size = size →
    area.dmaType = .allocated ∧ MergesAtEnd ((m.marked addr).toList.map Prod.snd) ∧
      ∀ first middle last, (m.marked addr).toList.map Prod.snd = [first, middle, last] →
        addr ≠ last.base → middle.Mergeable last

end PhysicalMemoryManager

/-- Areas as this allocator makes them. -/
structure PhysicalMemoryArea.Known (area : PhysicalMemoryArea) : Prop where
  memoryType : area.memoryType = 0
  dmaType : area.dmaType = .free ∨ area.dmaType = .allocated

namespace AreaMap

/-- The map has an area of exactly these bytes. -/
def Names (areas : AreaMap) (b : Block) : Prop := ∃ area, areas[b.1]? = some area ∧ area.size = b.2

def Holds (areas : AreaMap) (b : Block) : Prop :=
  ∃ area, areas[b.1]? = some area ∧ area.size = b.2 ∧ area.dmaType = .allocated

theorem Holds.names {areas : AreaMap} {b : Block} (holds : areas.Holds b) : areas.Names b :=
  holds.imp fun _ facts => ⟨facts.1, facts.2.1⟩

/-- Every area is free or allocated, and of the one memory type. -/
def Known (areas : AreaMap) : Prop :=
  ∀ ⦃k : Nat⦄ ⦃area : PhysicalMemoryArea⦄, areas[k]? = some area → area.Known

theorem Known.insert {areas : AreaMap} (known : areas.Known) {k : Nat} {area : PhysicalMemoryArea}
    (here : area.Known) : AreaMap.Known (areas.insert k area) := by
  intro k' other stored
  rw [getElem?_insert] at stored
  split at stored
  · cases stored
    exact here
  · exact known stored

theorem Known.erase {areas : AreaMap} (known : areas.Known) (k : Nat) :
    AreaMap.Known (areas.erase k) := by
  intro k' other stored
  rw [getElem?_erase] at stored
  split at stored
  · cases stored
  · exact known stored

theorem Known.join {areas : AreaMap} (known : areas.Known) {left : PhysicalMemoryArea}
    (here : areas[left.base]? = some left) (right : PhysicalMemoryArea) :
    AreaMap.Known (RangeMap.join areas left right) := by
  have unchanged := known here
  exact (known.erase _).insert ⟨unchanged.memoryType, unchanged.dmaType⟩

theorem holds_join {areas : AreaMap} {left right : PhysicalMemoryArea}
    (here : areas[left.base]? = some left) (there : areas[right.base]? = some right)
    (merge : left.Mergeable right) (isFree : left.dmaType = .free) {b : Block} :
    AreaMap.Holds (join areas left right) b ↔ areas.Holds b := by
  have isFree' : right.dmaType = .free := merge.2.2 ▸ isFree
  unfold Holds join
  simp only [Segment.base, Segment.size, Segment.withRange, getElem?_insert, getElem?_erase]
  by_cases atLeft : left.base = b.1
  · rw [← atLeft]
    simp [here, isFree]
  · by_cases atRight : right.base = b.1
    · rw [← atRight] at atLeft ⊢
      simp [atLeft, there, isFree']
    · simp [atLeft, atRight]

theorem holds_refill {areas : AreaMap} (sep : Separated areas) {area : PhysicalMemoryArea}
    (stored : areas[area.base]? = some area) (isFree : area.dmaType = .free) {addr size : Nat}
    (low : area.base ≤ addr) (nonempty : 0 < size) (high : addr + size ≤ area.base + area.size)
    {b : Block} :
    AreaMap.Holds ((cutOut areas area addr (addr + size)).insert addr
      { area with base := addr, size := size, dmaType := .allocated }) b ↔
    b = (addr, size) ∨ areas.Holds b := by
  have starts : area.base < addr + size := by omega
  by_cases same : addr = b.1
  · -- no allocated area can start inside the free one
    have absent : ¬ areas.Holds b := by
      rintro ⟨other, found, -, taken⟩
      rw [← same] at found
      rcases Nat.eq_or_lt_of_le low with start | inside
      · rw [← start, stored] at found
        cases found
        simp [isFree] at taken
      · rw [not_stored_inside sep stored inside (by change addr < area.base + area.size; omega)]
          at found
        cases found
    obtain ⟨k, n⟩ := b
    subst same
    simp only [absent, or_false]
    simp [Holds, eq_comm]
  · have different : b ≠ (addr, size) := by
      rintro rfl
      exact same rfl
    simp only [Holds, getElem?_insert, if_neg same, different, false_or]
    constructor
    · rintro ⟨other, found, length, taken⟩
      rcases cutOut_cases found with ⟨-, old⟩ | ⟨-, -, rfl⟩ | ⟨-, -, rfl⟩
      · exact ⟨other, old, length, taken⟩
      · simp [Segment.withRange, isFree] at taken
      · simp [Segment.withRange, isFree] at taken
    · rintro ⟨other, found, length, taken⟩
      refine ⟨other, cutOut_keeps sep stored starts found ?_, length, taken⟩
      rintro start
      rw [start] at found
      rw [show Segment.base area = area.base from rfl, stored] at found
      cases found
      simp [isFree] at taken

end AreaMap

theorem PhysicalMemoryManager.holds_marked {m : PhysicalMemoryManager} {addr : Nat}
    {area : PhysicalMemoryArea} (stored : m.areas[addr]? = some area) {b : Block} :
    AreaMap.Holds (m.marked addr) b ↔ m.areas.Holds b ∧ b.1 ≠ addr := by
  rw [marked_eq stored]
  unfold AreaMap.Holds
  rw [getElem?_insert]
  by_cases same : addr = b.1
  · simp [same]
  · simp [same, Ne.symm same]

/-! ### Which areas can be freed -/

namespace PhysicalMemoryArea

def freed (addr : Nat) (area : PhysicalMemoryArea) : PhysicalMemoryArea :=
  if area.base = addr then { area with dmaType := .free } else area

def freeWith (addr : Nat) (area : PhysicalMemoryArea) : Bool :=
  area.base = addr ∨ area.dmaType = .free

@[simp] theorem freed_base (addr : Nat) (area : PhysicalMemoryArea) :
    (area.freed addr).base = area.base := by
  unfold freed
  split
  · rfl
  · rfl

theorem freeWith_eq_false {addr : Nat} {area : PhysicalMemoryArea} :
    area.freeWith addr = false ↔ area.base ≠ addr ∧ area.dmaType ≠ .free := by
  rw [freeWith, decide_eq_false_iff_not, not_or]

theorem freeWith_eq_true {addr : Nat} {area : PhysicalMemoryArea} :
    area.freeWith addr = true ↔ area.base = addr ∨ area.dmaType = .free := decide_eq_true_iff

theorem freeWith_freed (addr other : Nat) (area : PhysicalMemoryArea) :
    (area.freed addr).freeWith other = (area.freeWith addr || area.freeWith other) := by
  rw [Bool.eq_iff_iff, Bool.or_eq_true, freeWith_eq_true, freeWith_eq_true, freeWith_eq_true]
  unfold freed
  split
  · next here => exact iff_of_true (.inr rfl) (.inl (.inl here))
  · next elsewhere =>
    rw [or_iff_right elsewhere]
    exact ⟨.inr, fun either => either.elim .inr id⟩

/-- Areas that touch merge if both or neither is free. -/
theorem unmergeable_freed_iff {area next : PhysicalMemoryArea} (known : area.Known)
    (knownNext : next.Known) (touch : area.base + area.size = next.base) (addr : Nat) :
    (area.freed addr).Unmergeable (next.freed addr) ↔
      area.freeWith addr ≠ next.freeWith addr := by
  have state : ∀ {a : PhysicalMemoryArea}, a.Known →
      (a.freed addr).Known ∧ (a.freed addr).size = a.size ∧
        (a.freeWith addr = true ↔ (a.freed addr).dmaType = .free) := by
    intro a known
    unfold freed
    rw [freeWith_eq_true]
    split
    · next here => exact ⟨⟨known.memoryType, .inl rfl⟩, rfl, iff_of_true (.inl here) rfl⟩
    · next elsewhere => exact ⟨known, rfl, or_iff_right elsewhere⟩
  obtain ⟨⟨type, status⟩, size, isFree⟩ := state known
  obtain ⟨⟨type', status'⟩, -, isFree'⟩ := state knownNext
  have merge : (area.freed addr).Mergeable (next.freed addr) ↔
      (area.freed addr).dmaType = (next.freed addr).dmaType := by
    unfold Mergeable
    rw [freed_base, freed_base, size, type, type']
    exact ⟨fun facts => facts.2.2, fun same => ⟨touch, rfl, same⟩⟩
  unfold Unmergeable
  rw [merge, not_iff_not, Bool.eq_iff_iff, isFree, isFree']
  rcases status with here | here
  · rcases status' with there | there
    · simp [here, there]
    · simp [here, there]
  · rcases status' with there | there
    · simp [here, there]
    · simp [here, there]

theorem chain_freed_iff {areas : List PhysicalMemoryArea} (known : ∀ area ∈ areas, area.Known)
    (touching : areas.IsChain fun area next => area.base + area.size = next.base) (addr : Nat) :
    (areas.map (freed addr)).IsChain Unmergeable ↔
      areas.IsChain fun area next => area.freeWith addr ≠ next.freeWith addr := by
  induction areas with
  | nil => exact iff_of_true .nil .nil
  | cons area rest ih =>
    obtain ⟨here, known⟩ := List.forall_mem_cons.mp known
    cases rest with
    | nil => exact iff_of_true (.singleton _) (.singleton _)
    | cons next rest =>
      obtain ⟨touch, touching⟩ := List.isChain_cons_cons.mp touching
      have there := known next List.mem_cons_self
      rw [List.map_cons, List.map_cons, List.isChain_cons_cons, List.isChain_cons_cons,
        unmergeable_freed_iff here there touch]
      exact and_congr_right fun _ => ih known touching

end PhysicalMemoryArea

theorem alternating_agree {α : Type} {f g : α → Bool} {xs : List α}
    (chain : xs.IsChain fun x y => f x ≠ f y) (chain' : xs.IsChain fun x y => g x ≠ g y) :
    (∀ x ∈ xs, f x = g x) ∨ ∀ x ∈ xs, f x ≠ g x := by
  induction xs with
  | nil => exact .inl nofun
  | cons x rest ih =>
    cases rest with
    | nil =>
      by_cases same : f x = g x
      · exact .inl (List.forall_mem_singleton.mpr same)
      · exact .inr (List.forall_mem_singleton.mpr same)
    | cons y rest =>
      obtain ⟨first, chain⟩ := List.isChain_cons_cons.mp chain
      obtain ⟨first', chain'⟩ := List.isChain_cons_cons.mp chain'
      rcases ih chain chain' with same | other
      · refine .inl (List.forall_mem_cons.mpr ⟨?_, same⟩)
        rw [Bool.eq_not_of_ne first, Bool.eq_not_of_ne first', same y List.mem_cons_self]
      · refine .inr (List.forall_mem_cons.mpr ⟨?_, other⟩)
        rw [Bool.eq_not_of_ne first, Bool.eq_not_of_ne first']
        exact fun same => other y List.mem_cons_self (Bool.not_inj same)

namespace PhysicalMemoryManager

variable {p : Profile} {m : PhysicalMemoryManager} {total : Nat}

def values (m : PhysicalMemoryManager) : List PhysicalMemoryArea := m.areas.toList.map Prod.snd

theorem marked_values (sep : Separated m.areas) (addr : Nat) :
    (m.marked addr).toList.map Prod.snd = m.values.map (·.freed addr) := by
  have whole : m.marked addr = m.areas.map fun k area =>
      if k = addr then { area with dmaType := .free } else area := by
    apply Std.ExtTreeMap.ext_getElem?
    intro k
    unfold marked
    rw [Std.ExtTreeMap.getElem?_modify, Std.ExtTreeMap.getElem?_map]
    by_cases same : addr = k
    · simp [same]
    · simp [same, Ne.symm same]
  rw [whole, Std.ExtTreeMap.toList_map, values, List.map_map, List.map_map]
  apply List.map_congr_left
  rintro ⟨k, area⟩ member
  obtain rfl : area.base = k := sep.keyed (mem_toList.mp member)
  rfl

section Freeing

variable (tiles : Tiles m.areas total) (bounded : total < 2 ^ 64)

include tiles

theorem mem_values {area : PhysicalMemoryArea} :
    area ∈ m.values ↔ m.areas[area.base]? = some area := tiles.separated.mem_values

theorem mem_values_of_stored {addr : Nat} {area : PhysicalMemoryArea}
    (stored : m.areas[addr]? = some area) : area ∈ m.values ∧ area.base = addr := by
  obtain rfl : area.base = addr := tiles.separated.keyed stored
  exact ⟨(mem_values tiles).mpr stored, rfl⟩

include bounded

theorem free_of_chain {addr : Nat} {area : PhysicalMemoryArea}
    (stored : m.areas[addr]? = some area)
    (chain : ((m.marked addr).toList.map Prod.snd).IsChain PhysicalMemoryArea.Unmergeable) :
    (m.free p addr area.size : Outcome Empty _) = .ok (true, { m with areas := m.marked addr }) := by
  rw [free_run p stored]
  rcases mergeKeys_spec (ε := Empty) p (marked_tiles tiles stored) bounded
    (fun e member => mem_toList.mp member) (toList_sorted (m.marked addr)) with
    ⟨-, run⟩ | ⟨before, left, right, whole, -, merge, -⟩ | ⟨loud, -⟩
  · rw [run]
    rfl
  · rw [whole, List.map_append, List.map_cons, List.map_cons, List.isChain_append_cons_cons] at chain
    exact absurd merge chain.2.1
  · exact absurd chain.dropLast loud

theorem canFree_iff_chain {addr : Nat} {area : PhysicalMemoryArea}
    (stored : m.areas[addr]? = some area) : m.CanFree p (addr, area.size) ↔
      (m.values.map (·.freed addr)).dropLast.IsChain PhysicalMemoryArea.Unmergeable := by
  have marked := marked_tiles tiles stored
  have listed := marked_values tiles.separated addr
  unfold CanFree
  rw [free_run p stored]
  rcases mergeKeys_spec (ε := Empty) p marked bounded (fun e member => mem_toList.mp member)
    (toList_sorted (m.marked addr)) with
    ⟨quiet, run⟩ | ⟨before, left, right, whole, quiet, -, run⟩ | ⟨loud, run⟩
  · rw [run]
    exact iff_of_true ⟨_, rfl⟩ (listed ▸ quiet.dropLast)
  · rw [run]
    apply iff_of_true ⟨_, rfl⟩
    rw [← listed, whole, List.map_append, List.map_cons, List.map_cons, List.map_nil,
      List.dropLast_append_of_ne_nil (by simp)]
    simpa using quiet
  · rw [run]
    exact iff_of_false (fun ⟨_, freed⟩ => by cases freed) (listed ▸ loud)

variable (known : m.areas.Known)

include known

theorem canFree_iff {addr : Nat} {area : PhysicalMemoryArea} (stored : m.areas[addr]? = some area) :
    m.CanFree p (addr, area.size) ↔
      m.values.dropLast.IsChain fun area next => area.freeWith addr ≠ next.freeWith addr := by
  rw [canFree_iff_chain tiles bounded stored, ← List.map_dropLast]
  refine PhysicalMemoryArea.chain_freed_iff (fun area member => ?_) tiles.touching.dropLast addr
  exact known ((mem_values tiles).mp (List.dropLast_subset _ member))

theorem canFree_of_length {addr : Nat} {area : PhysicalMemoryArea}
    (stored : m.areas[addr]? = some area) (few : m.values.length ≤ 2) :
    m.CanFree p (addr, area.size) := by
  rw [canFree_iff tiles bounded known stored]
  have short : m.values.dropLast.length ≤ 1 := by
    rw [List.length_dropLast]
    omega
  match list : m.values.dropLast with
  | [] => exact .nil
  | [_] => exact .singleton _
  | _ :: _ :: _ =>
    rw [list] at short
    simp at short

/-- Two held areas can both be freed only where there are three areas at most. -/
theorem length_le_three {a b : PhysicalMemoryArea} (here : m.areas[a.base]? = some a)
    (there : m.areas[b.base]? = some b) (taken : a.dmaType ≠ .free) (taken' : b.dmaType ≠ .free)
    (other : a.base ≠ b.base) (frees : m.CanFree p (a.base, a.size))
    (frees' : m.CanFree p (b.base, b.size)) : m.values.length ≤ 3 := by
  have chain := (canFree_iff tiles bounded known here).mp frees
  have chain' := (canFree_iff tiles bounded known there).mp frees'
  rcases alternating_agree chain chain' with agree | differ
  · -- both areas would be the last one
    have outside : a ∉ m.values.dropLast := by
      intro member
      have marked := PhysicalMemoryArea.freeWith_eq_true.mpr (.inl (rfl : a.base = a.base))
      rw [agree a member, PhysicalMemoryArea.freeWith_eq_false.mpr ⟨other, taken⟩] at marked
      cases marked
    have outside' : b ∉ m.values.dropLast := by
      intro member
      have marked := PhysicalMemoryArea.freeWith_eq_true.mpr (.inl (rfl : b.base = b.base))
      rw [← agree b member, PhysicalMemoryArea.freeWith_eq_false.mpr ⟨other.symm, taken'⟩] at marked
      cases marked
    have listed := (mem_values tiles).mpr here
    have listed' := (mem_values tiles).mpr there
    have nonempty := List.ne_nil_of_mem listed
    rw [← List.dropLast_append_getLast nonempty, List.mem_append, List.mem_singleton]
      at listed listed'
    have last := listed.resolve_left outside
    have last' := listed'.resolve_left outside'
    exact absurd (congrArg PhysicalMemoryArea.base (last.trans last'.symm)) other
  · have within : m.values.dropLast ⊆ [a, b] := by
      intro x member
      have stored := (mem_values tiles).mp (List.dropLast_subset _ member)
      by_contra neither
      simp only [List.mem_cons, List.not_mem_nil, or_false, not_or] at neither
      have notA : x.base ≠ a.base := by
        intro same
        rw [same, here] at stored
        exact neither.1 (Option.some.inj stored).symm
      have notB : x.base ≠ b.base := by
        intro same
        rw [same, there] at stored
        exact neither.2 (Option.some.inj stored).symm
      apply differ x member
      rw [Bool.eq_iff_iff, PhysicalMemoryArea.freeWith_eq_true, PhysicalMemoryArea.freeWith_eq_true,
        or_iff_right notA, or_iff_right notB]
    have nodup : m.values.dropLast.Nodup := by
      have sorted := tiles.separated.values_sorted.sublist (List.dropLast_sublist _)
      exact sorted.imp fun below same => absurd (congrArg _ same) below.ne
    have few := (nodup.subperm within).length_le
    rw [List.length_dropLast] at few
    simp only [List.length_cons, List.length_nil] at few
    omega

end Freeing

end PhysicalMemoryManager

namespace Ledger

def FreesSafely (s : Ledger) (addr size : Nat) : Prop := s.manager.FreeSafe addr size

/-- The next free does what its caller expects: it returns, it succeeds for
outstanding blocks only, a failure changes nothing, and every block that stays
outstanding can still be named, and freed if it could be freed before. -/
def FreesExactly (p : Profile) (s : Ledger) (addr size : Nat) : Prop :=
  ∃ released manager, (s.manager.free p addr size : Outcome Empty _) = .ok (released, manager) ∧
    (released = true ↔ s.Outstanding (addr, size)) ∧
    (released = false → manager = s.manager) ∧
    ∀ b, Outstanding ⟨manager, (PhysicalEvent.free addr size released).record s.outstanding⟩ b →
      manager.areas.Names b ∧ (s.manager.CanFree p b → manager.CanFree p b)

/-- Outstanding blocks are the allocated areas. -/
structure Exact (total : Nat) (s : Ledger) : Prop where
  tiles : Tiles s.manager.areas total
  known : s.manager.areas.Known
  exact : ∀ b, s.Outstanding b ↔ s.manager.areas.Holds b

theorem Exact.allocate {total : Nat} {s : Ledger} (exact : Exact total s) {r : AllocRequest}
    (valid : r.Valid) {result : Option Nat × PhysicalMemoryManager}
    (allocated : PhysicalMemoryManager.Allocated s.manager r result) :
    Exact total ⟨result.2, (PhysicalEvent.allocate r result.1).record s.outstanding⟩ := by
  cases allocated with
  | failed => exact exact
  | @found addr area aligned start stop stored isFree low high =>
    have nonempty := valid.nonempty
    have sep := exact.tiles.separated
    refine ⟨PhysicalMemoryManager.tiles_taken exact.tiles stored nonempty low high, ?_, ?_⟩
    · refine AreaMap.Known.insert ?_ ⟨(exact.known stored).memoryType, .inr rfl⟩
      intro k other found
      rcases cutOut_cases found with ⟨-, old⟩ | ⟨-, -, rfl⟩ | ⟨-, -, rfl⟩
      · exact exact.known old
      · exact ⟨(exact.known stored).memoryType, .inl isFree⟩
      · exact ⟨(exact.known stored).memoryType, .inl isFree⟩
    · intro b
      rw [AreaMap.holds_refill sep stored isFree low nonempty high, ← exact.exact]
      simp [Outstanding, PhysicalEvent.record, Grant.block, eq_comm]

theorem outstanding_release {s : Ledger} {manager : PhysicalMemoryManager} {addr size : Nat}
    {b : Block} :
    Outstanding ⟨manager, (PhysicalEvent.free addr size true).record s.outstanding⟩ b ↔
      s.Outstanding b ∧ b ≠ (addr, size) := by
  simp only [Outstanding, PhysicalEvent.record, List.mem_filter, decide_eq_true_eq]
  constructor
  · rintro ⟨grant, ⟨member, other⟩, rfl⟩
    exact ⟨⟨grant, member, rfl⟩, by simpa using other⟩
  · rintro ⟨⟨grant, member, rfl⟩, other⟩
    exact ⟨grant, ⟨member, by simpa using other⟩, rfl⟩

/-- Freeing an allocated area keeps the correspondence, for any map with the
tiles and the allocated areas of the marked one. -/
theorem Exact.release {total : Nat} {s : Ledger} (exact : Exact total s) {addr : Nat}
    {area : PhysicalMemoryArea} (stored : s.manager.areas[addr]? = some area) {areas : AreaMap}
    (tiles : Tiles areas total) (known : areas.Known)
    (holds : ∀ b, areas.Holds b ↔ AreaMap.Holds (s.manager.marked addr) b) :
    Exact total ⟨{ s.manager with areas := areas },
      (PhysicalEvent.free addr area.size true).record s.outstanding⟩ := by
  refine ⟨tiles, known, fun b => ?_⟩
  rw [outstanding_release, exact.exact, holds, PhysicalMemoryManager.holds_marked stored]
  refine and_congr_right fun held => not_congr ?_
  constructor
  · rintro rfl
    rfl
  · intro same
    obtain ⟨other, found, length, -⟩ := held
    rw [same, stored] at found
    cases found
    exact Prod.ext same length.symm

theorem Exact.known_marked {total : Nat} {s : Ledger} (exact : Exact total s) {addr : Nat}
    {area : PhysicalMemoryArea} (stored : s.manager.areas[addr]? = some area) :
    AreaMap.Known (s.manager.marked addr) := by
  rw [PhysicalMemoryManager.marked_eq stored]
  exact exact.known.insert ⟨(exact.known stored).memoryType, .inl rfl⟩

/-- A safe free of an exact area returns true and keeps the correspondence. -/
theorem Exact.free_safe {p : Profile} {total : Nat} (bounded : total < 2 ^ 64) {s : Ledger}
    (exact : Exact total s) {addr : Nat} {area : PhysicalMemoryArea}
    (stored : s.manager.areas[addr]? = some area)
    (quiet : MergesAtEnd ((s.manager.marked addr).toList.map Prod.snd)) :
    ∃ areas, (s.manager.free p addr area.size : Outcome Empty _) =
        .ok (true, { s.manager with areas := areas }) ∧
      Exact total ⟨{ s.manager with areas := areas },
        (PhysicalEvent.free addr area.size true).record s.outstanding⟩ := by
  have tiles := PhysicalMemoryManager.marked_tiles exact.tiles stored
  have known := exact.known_marked stored
  rcases PhysicalMemoryManager.free_of_exact (ε := Empty) p tiles bounded stored with
    ⟨-, freed⟩ | ⟨left, right, here, there, -, merge, atEnd, freed⟩ | ⟨loud, -⟩
  · exact ⟨_, freed, exact.release stored tiles known fun _ => Iff.rfl⟩
  · refine ⟨_, freed, exact.release stored ?_ (known.join here right) fun b => ?_⟩
    · exact tiles.join tiles.separated here there merge.1 merge.attr_eq
    · exact AreaMap.holds_join here there merge (atEnd.mp quiet)
  · exact absurd quiet loud

theorem Exact.step {p : Profile} {total : Nat} (bounded : total < 2 ^ 64) {s s' : Ledger}
    {event : PhysicalEvent} (exact : Exact total s)
    (step : PhysicalStep p FreesSafely s event s') : Exact total s' := by
  cases step with
  | allocate valid quiet returned =>
    obtain ⟨result, computed, allocated⟩ :=
      PhysicalMemoryManager.allocate_spec p exact.tiles bounded valid quiet
    rw [computed] at returned
    cases returned
    exact exact.allocate valid allocated
  | @free addr size released manager safe returned =>
    by_cases exactly : ∃ area, s.manager.areas[addr]? = some area ∧ area.size = size
    · obtain ⟨area, stored, rfl⟩ := exactly
      obtain ⟨areas, freed, exact'⟩ := exact.free_safe (p := p) bounded stored (safe area stored rfl).2.1
      rw [freed] at returned
      cases returned
      exact exact'
    · rw [PhysicalMemoryManager.free_of_not_exact p
        fun area stored same => exactly ⟨area, stored, same⟩] at returned
      cases returned
      exact exact

theorem Exact.allocated_of_outstanding {total : Nat} {s : Ledger} (exact : Exact total s)
    {addr : Nat} {area : PhysicalMemoryArea} (stored : s.manager.areas[addr]? = some area)
    (held : s.Outstanding (addr, area.size)) : area.dmaType = .allocated := by
  obtain ⟨other, found, -, taken⟩ := (exact.exact _).mp held
  rw [stored] at found
  cases found
  exact taken

/-! ### What a free leaves to be freed -/

section Kept

variable {p : Profile} {total : Nat} (bounded : total < 2 ^ 64) {s : Ledger}
  (exact : Exact total s) {addr : Nat} {area : PhysicalMemoryArea}
  (stored : s.manager.areas[addr]? = some area)

include exact

theorem Exact.chain_marked_iff (addr : Nat) :
    ((s.manager.marked addr).toList.map Prod.snd).IsChain PhysicalMemoryArea.Unmergeable ↔
      s.manager.values.IsChain fun x y => x.freeWith addr ≠ y.freeWith addr := by
  rw [PhysicalMemoryManager.marked_values exact.tiles.separated]
  refine PhysicalMemoryArea.chain_freed_iff (fun x member => ?_) exact.tiles.touching addr
  exact exact.known ((PhysicalMemoryManager.mem_values exact.tiles).mp member)

theorem Exact.taken_of_freeWith {x : PhysicalMemoryArea} (member : x ∈ s.manager.values)
    (held : x.freeWith addr = false) : x.base ≠ addr ∧ x.dmaType = .allocated := by
  obtain ⟨other, notFree⟩ := PhysicalMemoryArea.freeWith_eq_false.mp held
  have known := exact.known ((PhysicalMemoryManager.mem_values exact.tiles).mp member)
  exact ⟨other, known.dmaType.resolve_left notFree⟩

include bounded stored

theorem Exact.length_le_three (taken : area.dmaType = .allocated)
    (frees : s.manager.CanFree p (addr, area.size)) {other : PhysicalMemoryArea}
    (found : s.manager.areas[other.base]? = some other) (taken' : other.dmaType = .allocated)
    (different : other.base ≠ addr) (before : s.manager.CanFree p (other.base, other.size)) :
    s.manager.values.length ≤ 3 := by
  obtain rfl : area.base = addr := exact.tiles.separated.keyed stored
  refine PhysicalMemoryManager.length_le_three exact.tiles bounded exact.known stored found ?_ ?_
    different.symm frees before
  · rw [taken]
    decide
  · rw [taken']
    decide

/-- Where nothing merges, another area stays freeable if the last area is freed,
or if there are less than three. -/
theorem Exact.canFree_marked
    (chain : ((s.manager.marked addr).toList.map Prod.snd).IsChain PhysicalMemoryArea.Unmergeable)
    (taken : area.dmaType = .allocated)
    (apart : ∀ first middle last, (s.manager.marked addr).toList.map Prod.snd =
      [first, middle, last] → addr ≠ last.base → middle.Mergeable last)
    {other : PhysicalMemoryArea} (found : s.manager.areas[other.base]? = some other)
    (taken' : other.dmaType = .allocated) (different : other.base ≠ addr)
    (before : s.manager.CanFree p (other.base, other.size)) :
    PhysicalMemoryManager.CanFree p { s.manager with areas := s.manager.marked addr }
      (other.base, other.size) := by
  have tiles := PhysicalMemoryManager.marked_tiles exact.tiles stored
  have known := exact.known_marked stored
  have listed := PhysicalMemoryManager.marked_values exact.tiles.separated addr
  have found' : (s.manager.marked addr)[other.base]? = some other := by
    rw [PhysicalMemoryManager.marked_eq stored, getElem?_insert, if_neg different.symm, found]
  have member := (PhysicalMemoryManager.mem_values exact.tiles).mpr found
  have alternates := (exact.chain_marked_iff addr).mp chain
  have alternates' :=
    (PhysicalMemoryManager.canFree_iff exact.tiles bounded exact.known found).mp before
  have freed := PhysicalMemoryManager.free_of_chain (p := p) exact.tiles bounded stored chain
  have few := exact.length_le_three bounded stored taken ⟨_, freed⟩ found taken' different before
  rcases Nat.lt_or_eq_of_le few with two | three
  · apply PhysicalMemoryManager.canFree_of_length tiles bounded known found'
    change ((s.manager.marked addr).toList.map Prod.snd).length ≤ 2
    rw [listed, List.length_map]
    omega
  · exfalso
    obtain ⟨x, y, z, whole⟩ := List.length_eq_three.mp three
    have sorted := exact.tiles.separated.values_sorted
    change s.manager.values.Pairwise _ at sorted
    rw [whole] at alternates alternates' member sorted
    rw [listed, whole] at chain
    obtain ⟨first, rest⟩ := List.isChain_cons_cons.mp alternates
    obtain ⟨second, -⟩ := List.isChain_cons_cons.mp rest
    obtain ⟨third, -⟩ := List.isChain_cons_cons.mp alternates'
    obtain ⟨-, unmerged⟩ := List.isChain_cons_cons.mp chain
    have last : addr = z.base := by
      by_contra early
      have merge := apart (x.freed addr) (y.freed addr) (z.freed addr) (by rw [listed, whole]; rfl)
        (by rwa [PhysicalMemoryArea.freed_base])
      exact (List.isChain_cons_cons.mp unmerged).1 merge
    have atZ : z.freeWith addr = true := PhysicalMemoryArea.freeWith_eq_true.mpr (.inl last.symm)
    rw [atZ] at second
    have atY : y.freeWith addr = false := Bool.eq_false_iff.mpr second
    rw [atY] at first
    have atX : x.freeWith addr = true := Bool.ne_false_iff.mp first
    simp only [List.mem_cons, List.not_mem_nil, or_false] at member
    rcases member with rfl | rfl | rfl
    · rcases PhysicalMemoryArea.freeWith_eq_true.mp atX with same | isFree
      · exact different same
      · rw [taken'] at isFree
        cases isFree
    · rw [PhysicalMemoryArea.freeWith_eq_true.mpr (.inl (rfl : other.base = other.base))] at third
      obtain ⟨-, notFree⟩ := PhysicalMemoryArea.freeWith_eq_false.mp (Bool.eq_false_iff.mpr third)
      have start := (PhysicalMemoryArea.freeWith_eq_true.mp atX).resolve_right notFree
      have below := (List.pairwise_cons.mp sorted).1 z (by simp)
      exact below.ne (start.trans last)
    · exact different last.symm

/-- Where nothing merges in a memory of three areas, freeing one of the first two
takes the other's chance to be freed. -/
theorem Exact.not_canFree_marked
    (chain : ((s.manager.marked addr).toList.map Prod.snd).IsChain PhysicalMemoryArea.Unmergeable)
    (taken : area.dmaType = .allocated) {x y z : PhysicalMemoryArea}
    (whole : s.manager.values = [x, y, z]) (early : addr ≠ z.base) :
    ∃ other : PhysicalMemoryArea, s.manager.areas[other.base]? = some other ∧
      other.dmaType = .allocated ∧ other.base ≠ addr ∧
      s.manager.CanFree p (other.base, other.size) ∧
      ¬ PhysicalMemoryManager.CanFree p { s.manager with areas := s.manager.marked addr }
        (other.base, other.size) := by
  have tiles := PhysicalMemoryManager.marked_tiles exact.tiles stored
  have known := exact.known_marked stored
  have listed := PhysicalMemoryManager.marked_values exact.tiles.separated addr
  have notFree : area.dmaType ≠ .free := by
    rw [taken]
    decide
  obtain ⟨here, keyed⟩ := PhysicalMemoryManager.mem_values_of_stored exact.tiles stored
  have alternates := (exact.chain_marked_iff addr).mp chain
  rw [whole] at alternates here
  obtain ⟨first, -⟩ := List.isChain_cons_cons.mp alternates
  -- both are free afterwards, so they would merge
  have lost : ∀ {other : PhysicalMemoryArea}, s.manager.areas[other.base]? = some other →
      other.base ≠ addr →
      (x.freeWith addr || x.freeWith other.base) = (y.freeWith addr || y.freeWith other.base) →
      ¬ PhysicalMemoryManager.CanFree p { s.manager with areas := s.manager.marked addr }
        (other.base, other.size) := by
    intro other found different both frees
    have found' : (s.manager.marked addr)[other.base]? = some other := by
      rw [PhysicalMemoryManager.marked_eq stored, getElem?_insert, if_neg different.symm, found]
    have apart := (PhysicalMemoryManager.canFree_iff tiles bounded known found').mp frees
    change ((s.manager.marked addr).toList.map Prod.snd).dropLast.IsChain _ at apart
    rw [listed, whole] at apart
    have differ := (List.isChain_cons_cons.mp apart).1
    rw [PhysicalMemoryArea.freeWith_freed, PhysicalMemoryArea.freeWith_freed] at differ
    exact differ both
  -- marking the one or the other, exactly one of the two is free
  have swapped : ∀ {other : PhysicalMemoryArea}, other ∈ [x, y, z] → other.freeWith addr = false →
      s.manager.areas[other.base]? = some other ∧ (other.base ≠ addr ∧ other.dmaType = .allocated) ∧
        other.freeWith other.base = true ∧ area.freeWith other.base = false := by
    intro other member held
    have listed : other ∈ s.manager.values := by rwa [whole]
    have facts := exact.taken_of_freeWith listed held
    refine ⟨(PhysicalMemoryManager.mem_values exact.tiles).mp listed, facts,
      PhysicalMemoryArea.freeWith_eq_true.mpr (.inl rfl), ?_⟩
    exact PhysicalMemoryArea.freeWith_eq_false.mpr
      ⟨fun same => facts.1 (same.symm.trans keyed), notFree⟩
  have marked := PhysicalMemoryArea.freeWith_eq_true.mpr (.inl keyed : _ ∨ area.dmaType = .free)
  simp only [List.mem_cons, List.not_mem_nil, or_false] at here
  rcases here with rfl | rfl | rfl
  · rw [marked] at first
    obtain ⟨found, ⟨different, taken'⟩, atOther, atArea⟩ :=
      swapped (by simp) (Bool.eq_false_iff.mpr first.symm)
    refine ⟨y, found, taken', different, ?_, lost found different ?_⟩
    · rw [PhysicalMemoryManager.canFree_iff exact.tiles bounded exact.known found, whole]
      refine List.isChain_cons_cons.mpr ⟨?_, .singleton _⟩
      rw [atArea, atOther]
      exact Bool.false_ne_true
    · rw [marked, atOther, Bool.true_or, Bool.or_true]
  · rw [marked] at first
    obtain ⟨found, ⟨different, taken'⟩, atOther, atArea⟩ :=
      swapped (by simp) (Bool.eq_false_iff.mpr first)
    refine ⟨x, found, taken', different, ?_, lost found different ?_⟩
    · rw [PhysicalMemoryManager.canFree_iff exact.tiles bounded exact.known found, whole]
      refine List.isChain_cons_cons.mpr ⟨?_, .singleton _⟩
      rw [atOther, atArea]
      exact Bool.false_ne_true.symm
    · rw [marked, atOther, Bool.true_or, Bool.or_true]
  · exact absurd keyed.symm early

/-- A safe free takes no other owner's chance to free. -/
theorem Exact.canFree_kept (taken : area.dmaType = .allocated)
    (apart : ∀ first middle last, (s.manager.marked addr).toList.map Prod.snd =
      [first, middle, last] → addr ≠ last.base → middle.Mergeable last)
    {manager : PhysicalMemoryManager}
    (freed : (s.manager.free p addr area.size : Outcome Empty _) = .ok (true, manager))
    {b : Block} (held : s.Outstanding b) (different : b ≠ (addr, area.size))
    (before : s.manager.CanFree p b) (exact' : ∃ outstanding, Exact total ⟨manager, outstanding⟩)
    (names : manager.areas.Names b) : manager.CanFree p b := by
  obtain ⟨outstanding, exact'⟩ := exact'
  obtain ⟨other, found, length, taken'⟩ := (exact.exact b).mp held
  obtain ⟨base, size⟩ := b
  obtain rfl : other.size = size := length
  obtain rfl : other.base = base := exact.tiles.separated.keyed found
  have elsewhere : other.base ≠ addr := by
    rintro same
    rw [same, stored] at found
    cases found
    exact different (Prod.ext same rfl)
  have tiles := PhysicalMemoryManager.marked_tiles exact.tiles stored
  rcases PhysicalMemoryManager.free_of_exact (ε := Empty) p tiles bounded stored with
    ⟨chain, run⟩ | ⟨left, right, here, there, order, -, -, run⟩ | ⟨-, panicked⟩
  · rw [run] at freed
    cases freed
    exact exact.canFree_marked bounded stored chain taken apart found taken' elsewhere before
  · have few := exact.length_le_three bounded stored taken ⟨_, freed⟩ found taken' elsewhere before
    rw [run] at freed
    cases freed
    obtain ⟨after, found', length⟩ := names
    change after.size = other.size at length
    rw [← length]
    apply PhysicalMemoryManager.canFree_of_length exact'.tiles bounded exact'.known found'
    have one := size_join here there order
    have same := PhysicalMemoryManager.marked_values exact.tiles.separated addr
    have counts := congrArg List.length same
    rw [List.length_map, List.length_map, Std.ExtTreeMap.length_toList] at counts
    change ((join (s.manager.marked addr) left right).toList.map Prod.snd).length ≤ 2
    rw [List.length_map, Std.ExtTreeMap.length_toList]
    change (join (s.manager.marked addr) left right).size + 1 = (s.manager.marked addr).size at one
    omega
  · rw [panicked] at freed
    cases freed

theorem Exact.quiet_of_names {released : Bool} {manager : PhysicalMemoryManager}
    (freed : (s.manager.free p addr area.size : Outcome Empty _) = .ok (released, manager))
    (outstanding : released = true ↔ s.Outstanding (addr, area.size))
    (names : ∀ b, Outstanding
      ⟨manager, (PhysicalEvent.free addr area.size released).record s.outstanding⟩ b →
        manager.areas.Names b) :
    released = true ∧ area.dmaType = .allocated ∧
      MergesAtEnd ((s.manager.marked addr).toList.map Prod.snd) := by
  have tiles := PhysicalMemoryManager.marked_tiles exact.tiles stored
  rcases PhysicalMemoryManager.free_of_exact (ε := Empty) p tiles bounded stored with
    ⟨chain, run⟩ | ⟨left, right, here, there, before, merge, atEnd, run⟩ | ⟨-, panicked⟩
  · rw [run] at freed
    cases freed
    exact ⟨rfl, exact.allocated_of_outstanding stored (outstanding.mp rfl), .of_chain chain⟩
  · rw [run] at freed
    cases freed
    refine ⟨rfl, exact.allocated_of_outstanding stored (outstanding.mp rfl), atEnd.mpr ?_⟩
    by_contra isTaken
    -- the right neighbour is held, but its key is gone
    have taken' : right.dmaType = .allocated :=
      merge.2.2 ▸ (exact.known_marked stored here).dmaType.resolve_left isTaken
    have held : AreaMap.Holds (s.manager.marked addr) (right.base, right.size) :=
      ⟨right, there, rfl, taken'⟩
    obtain ⟨heldBefore, other⟩ := (PhysicalMemoryManager.holds_marked stored).mp held
    obtain ⟨area', found, -⟩ := names (right.base, right.size) (outstanding_release.mpr
      ⟨(exact.exact _).mpr heldBefore, fun same => other (congrArg Prod.fst same)⟩)
    simp [join, Segment.base, before.ne] at found
  · rw [panicked] at freed
    cases freed

theorem Exact.apart_of_kept {manager : PhysicalMemoryManager} (taken : area.dmaType = .allocated)
    (quiet : MergesAtEnd ((s.manager.marked addr).toList.map Prod.snd))
    (freed : (s.manager.free p addr area.size : Outcome Empty _) = .ok (true, manager))
    (kept : ∀ b, s.Outstanding b → b ≠ (addr, area.size) → s.manager.CanFree p b →
      manager.CanFree p b)
    {first middle last : PhysicalMemoryArea}
    (whole : (s.manager.marked addr).toList.map Prod.snd = [first, middle, last])
    (early : addr ≠ last.base) : middle.Mergeable last := by
  by_contra unmerged
  have chain : ((s.manager.marked addr).toList.map Prod.snd).IsChain
      PhysicalMemoryArea.Unmergeable := by
    rw [whole] at quiet ⊢
    exact .cons_cons quiet.1 (.cons_cons unmerged (.singleton _))
  rw [PhysicalMemoryManager.free_of_chain exact.tiles bounded stored chain] at freed
  cases freed
  rw [PhysicalMemoryManager.marked_values exact.tiles.separated] at whole
  obtain ⟨x, rest, listed, -, tail⟩ := List.map_eq_cons_iff.mp whole
  obtain ⟨y, rest, rfl, -, tail⟩ := List.map_eq_cons_iff.mp tail
  obtain ⟨z, rest, rfl, rfl, nothing⟩ := List.map_eq_cons_iff.mp tail
  obtain rfl := List.map_eq_nil_iff.mp nothing
  rw [PhysicalMemoryArea.freed_base] at early
  obtain ⟨other, found, taken', different, before, lost⟩ :=
    exact.not_canFree_marked (p := p) bounded stored chain taken listed early
  refine lost (kept _ ((exact.exact _).mpr ⟨other, found, rfl, taken'⟩) ?_ before)
  exact fun same => different (congrArg Prod.fst same)

end Kept

/-- A call that violates the condition breaks the manager: it releases a block
nobody holds, panics, or takes the next owner's chance to free. -/
theorem Exact.freeSafe_iff (p : Profile) {total : Nat} (bounded : total < 2 ^ 64) {s : Ledger}
    (exact : Exact total s) (addr size : Nat) :
    s.manager.FreeSafe addr size ↔ s.FreesExactly p addr size := by
  by_cases exactly : ∃ area, s.manager.areas[addr]? = some area ∧ area.size = size
  · obtain ⟨area, stored, rfl⟩ := exactly
    constructor
    · intro safe
      obtain ⟨taken, quiet, apart⟩ := safe area stored rfl
      obtain ⟨areas, freed, exact'⟩ := exact.free_safe (p := p) bounded stored quiet
      refine ⟨true, _, freed, ?_, by simp, fun b held => ?_⟩
      · exact iff_of_true rfl ((exact.exact _).mpr ⟨area, stored, rfl, taken⟩)
      · have names := ((exact'.exact b).mp held).names
        obtain ⟨held, different⟩ := outstanding_release.mp held
        exact ⟨names, fun before => exact.canFree_kept bounded stored taken apart freed held
          different before ⟨_, exact'⟩ names⟩
    · rintro ⟨released, manager, freed, outstanding, -, kept⟩ area' stored' length
      rw [stored] at stored'
      cases stored'
      obtain ⟨rfl, taken, quiet⟩ := exact.quiet_of_names bounded stored freed outstanding
        fun b held => (kept b held).1
      refine ⟨taken, quiet, fun first middle last whole early =>
        exact.apart_of_kept bounded stored taken quiet freed (fun b held different => ?_) whole early⟩
      exact (kept b (outstanding_release.mpr ⟨held, different⟩)).2
  · have absent : ∀ area, s.manager.areas[addr]? = some area → area.size ≠ size :=
      fun area stored same => exactly ⟨area, stored, same⟩
    refine iff_of_true (fun area stored same => absurd same (absent area stored)) ?_
    refine ⟨false, s.manager, PhysicalMemoryManager.free_of_not_exact p absent, ?_, fun _ => rfl,
      fun b held => ⟨((exact.exact b).mp held).names, id⟩⟩
    apply iff_of_false (by simp)
    intro held
    obtain ⟨area, stored, length, -⟩ := (exact.exact _).mp held
    exact absent area stored length

theorem new_exact (total : Nat) : Exact total (new total) := by
  have onlyFree : ∀ {k : Nat} {area : PhysicalMemoryArea},
      (PhysicalMemoryManager.new total).areas[k]? = some area →
        area.memoryType = 0 ∧ area.dmaType = .free := by
    intro k area found
    simp only [PhysicalMemoryManager.new, getElem?_insert] at found
    split at found
    · cases found
      exact ⟨rfl, rfl⟩
    · simp at found
  refine ⟨PhysicalMemoryManager.new_tiles total, fun k area found => ?_, fun b => ?_⟩
  · exact ⟨(onlyFree found).1, .inl (onlyFree found).2⟩
  · apply iff_of_false (by simp [new, Outstanding])
    rintro ⟨area, found, -, taken⟩
    rw [(onlyFree found).2] at taken
    cases taken

end Ledger

/-- Along every run whose frees are safe, a further free behaves as its caller
expects exactly when it is safe too. -/
theorem free_exact_iff_safe (p : Profile) {total : Nat} (bounded : total < 2 ^ 64)
    {events : List PhysicalEvent} {s : Ledger}
    (run : Trace (PhysicalStep p Ledger.FreesSafely) (.new total) events s) (addr size : Nat) :
    s.FreesExactly p addr size ↔ s.manager.FreeSafe addr size :=
  ((run.invariant (Ledger.new_exact total) fun exact step => exact.step bounded step).freeSafe_iff
    p bounded addr size).symm

theorem PhysicalStep.firstTwo {mayFree : Ledger → Nat → Nat → Prop} :
    Trace (PhysicalStep .dev mayFree) (.new (3 * pageSize))
      [.allocate .onePage (some 0), .allocate .onePage (some pageSize)]
      ⟨.layout [(1, .allocated), (1, .allocated), (1, .free)],
        [⟨pageSize, .onePage⟩, ⟨0, .onePage⟩]⟩ := by
  have first : AllocRequest.onePage.call .dev (.new (3 * pageSize)) =
      .ok (some 0, .layout [(1, .allocated), (2, .free)]) := by decide +kernel
  have second : AllocRequest.onePage.call .dev (.layout [(1, .allocated), (2, .free)]) =
      .ok (some pageSize, .layout [(1, .allocated), (1, .allocated), (1, .free)]) := by
    decide +kernel
  exact .snoc (.snoc .nil (.onePage first)) (.onePage second)

/-- The second block can be freed, and the first not without harm to the second. -/
theorem free_exact_iff_safe_firstTwo :
    Ledger.FreesExactly .dev ⟨.layout [(1, .allocated), (1, .allocated), (1, .free)],
      [⟨pageSize, .onePage⟩, ⟨0, .onePage⟩]⟩ pageSize pageSize ∧
    ¬ Ledger.FreesExactly .dev ⟨.layout [(1, .allocated), (1, .allocated), (1, .free)],
      [⟨pageSize, .onePage⟩, ⟨0, .onePage⟩]⟩ 0 pageSize := by
  have exactly := free_exact_iff_safe .dev (by decide) PhysicalStep.firstTwo
  constructor
  · apply (exactly pageSize pageSize).mpr
    intro area stored _
    have here : (PhysicalMemoryManager.layout
        [(1, .allocated), (1, .allocated), (1, .free)]).areas[pageSize]? =
        some ⟨pageSize, pageSize, 0, .allocated⟩ := by decide +kernel
    have after : ((PhysicalMemoryManager.layout
        [(1, .allocated), (1, .allocated), (1, .free)]).marked pageSize).toList.map Prod.snd =
        [⟨0, pageSize, 0, .allocated⟩, ⟨pageSize, pageSize, 0, .free⟩,
          ⟨2 * pageSize, pageSize, 0, .free⟩] := by decide +kernel
    rw [here] at stored
    cases stored
    rw [after]
    refine ⟨rfl, ⟨by decide, fun _ => rfl⟩, fun first middle last whole _ => ?_⟩
    cases whole
    decide
  · rw [exactly]
    intro safe
    have here : (PhysicalMemoryManager.layout
        [(1, .allocated), (1, .allocated), (1, .free)]).areas[0]? =
        some ⟨0, pageSize, 0, .allocated⟩ := by decide +kernel
    have after : ((PhysicalMemoryManager.layout
        [(1, .allocated), (1, .allocated), (1, .free)]).marked 0).toList.map Prod.snd =
        [⟨0, pageSize, 0, .free⟩, ⟨pageSize, pageSize, 0, .allocated⟩,
          ⟨2 * pageSize, pageSize, 0, .free⟩] := by decide +kernel
    have merge := (safe _ here rfl).2.2 _ _ _ after (by decide)
    exact absurd merge (by decide)

/-- Without the condition a second free of one block succeeds. Freeing one block
merges two others, so that the second of them can no longer be freed, or leaves
a free area on either side of another, so that freeing that one panics. -/
theorem free_not_exact :
    (∃ s, Trace (PhysicalStep .dev fun _ _ _ => True) (.new (2 * pageSize))
        [.allocate .onePage (some 0), .allocate .onePage (some pageSize),
          .free 0 pageSize true] s ∧
      ¬ s.Outstanding (0, pageSize) ∧
      (s.manager.free .dev 0 pageSize : Outcome Empty _) = .ok (true, s.manager)) ∧
    (∃ s, Trace (PhysicalStep .dev fun _ _ _ => True) (.new (3 * pageSize))
        [.allocate .onePage (some 0), .allocate .onePage (some pageSize),
          .allocate .onePage (some (2 * pageSize)), .free 0 pageSize true] s ∧
      s.Outstanding (pageSize, pageSize) ∧
      (s.manager.free .dev pageSize pageSize : Outcome Empty _) = .ok (false, s.manager)) ∧
    ∃ s, Trace (PhysicalStep .dev fun _ _ _ => True) (.new (3 * pageSize))
        [.allocate .onePage (some 0), .allocate .onePage (some pageSize),
          .free 0 pageSize true] s ∧
      s.Outstanding (pageSize, pageSize) ∧
      (s.manager.free .dev pageSize pageSize : Outcome Empty _) = .panic .missingKey := by
  refine ⟨⟨_, PhysicalStep.twoPages trivial, ?_, by decide +kernel⟩, ?_, ?_⟩
  · rintro ⟨grant, member, block⟩
    obtain rfl := List.mem_singleton.mp member
    exact absurd block (by decide)
  · have third : AllocRequest.onePage.call .dev
          (.layout [(1, .allocated), (1, .allocated), (1, .free)]) =
        .ok (some (2 * pageSize), .layout [(1, .allocated), (1, .allocated), (1, .allocated)]) := by
      decide +kernel
    have freed : ((PhysicalMemoryManager.layout
          [(1, .allocated), (1, .allocated), (1, .allocated)]).free .dev 0 pageSize :
            Outcome Empty _) =
        .ok (true,
          { areas := ((∅ : AreaMap).insert pageSize ⟨pageSize, 2 * pageSize, 0, .allocated⟩).insert
              0 ⟨0, pageSize, 0, .free⟩
            totalSize := 3 * pageSize }) := by decide +kernel
    exact ⟨_, .snoc (.snoc PhysicalStep.firstTwo (.onePage third)) (.free trivial freed),
      ⟨⟨pageSize, .onePage⟩, by decide, rfl⟩, by decide +kernel⟩
  · have freed : ((PhysicalMemoryManager.layout
          [(1, .allocated), (1, .allocated), (1, .free)]).free .dev 0 pageSize : Outcome Empty _) =
        .ok (true, .layout [(1, .free), (1, .allocated), (1, .free)]) := by decide +kernel
    exact ⟨_, .snoc PhysicalStep.firstTwo (.free trivial freed),
      ⟨⟨pageSize, .onePage⟩, by decide, rfl⟩, by decide +kernel⟩

end AnotherPs4
