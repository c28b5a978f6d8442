import AnotherPs4.Memory.Areas
import AnotherPs4.Transition.Trace

/-!
# Runs of the physical memory manager

A ledger pairs the manager with the blocks its callers still hold. When blocks
are only freed by their holders, they stay disjoint, inside their windows and
allocated byte by byte, although merging moves the borders of areas.
-/

namespace AnotherPs4

open Rust RangeMap Transition

/-- A block handed out, with the request it answers. -/
structure Grant where
  addr : Nat
  request : AllocRequest
  deriving DecidableEq, Repr

namespace Grant

def block (grant : Grant) : Block := (grant.addr, grant.request.size)

def Apart (g h : Grant) : Prop := g.block.Apart h.block

instance : Std.Symm Apart := ⟨fun _ _ apart => apart.elim .inr .inl⟩

end Grant

/-- A call that returned, with its result. -/
inductive PhysicalEvent where
  | allocate (request : AllocRequest) (result : Option Nat)
  | free (addr size : Nat) (released : Bool)

def PhysicalEvent.record (outstanding : List Grant) : PhysicalEvent → List Grant
  | .allocate r (some addr) => ⟨addr, r⟩ :: outstanding
  | .free addr size true => outstanding.filter fun grant => grant.block ≠ (addr, size)
  | .allocate _ none | .free _ _ false => outstanding

structure Ledger where
  manager : PhysicalMemoryManager
  outstanding : List Grant

namespace Ledger

def new (totalSize : Nat) : Ledger := ⟨.new totalSize, []⟩

def Outstanding (s : Ledger) (b : Block) : Prop := ∃ grant ∈ s.outstanding, grant.block = b

end Ledger

/-- One call: a valid request whose sums do not overflow, or a free that
`mayFree` admits. -/
inductive PhysicalStep (p : Profile) (mayFree : Ledger → Nat → Nat → Prop) :
    Ledger → PhysicalEvent → Ledger → Prop where
  | allocate {s r result manager} : r.Valid → r.call .dev s.manager ≠ .panic .overflow →
      r.call p s.manager = .ok (result, manager) →
      PhysicalStep p mayFree s (.allocate r result)
        ⟨manager, (PhysicalEvent.allocate r result).record s.outstanding⟩
  | free {s addr size released manager} : mayFree s addr size →
      (s.manager.free p addr size : Outcome Empty _) = .ok (released, manager) →
      PhysicalStep p mayFree s (.free addr size released)
        ⟨manager, (PhysicalEvent.free addr size released).record s.outstanding⟩

theorem PhysicalMemoryManager.new_tiles (total : Nat) :
    Tiles (PhysicalMemoryManager.new total).areas total := by
  have stored : ∀ {k : Nat} {area : PhysicalMemoryArea},
      (PhysicalMemoryManager.new total).areas[k]? = some area →
        k = 0 ∧ area = { base := 0, size := total, memoryType := 0, dmaType := .free } := by
    intro k area found
    simp only [PhysicalMemoryManager.new, getElem?_insert] at found
    split at found
    · next here => exact ⟨here.symm, by simpa using found.symm⟩
    · simp at found
  refine ⟨⟨?_, ?_⟩, ?_, ?_, ?_⟩
  · intro k area found
    obtain ⟨rfl, rfl⟩ := stored found
    rfl
  · intro k₁ k₂ s₁ s₂ h₁ h₂ lt
    have := (stored h₁).1
    have := (stored h₂).1
    omega
  · intro k area found
    obtain ⟨rfl, rfl⟩ := stored found
    simp [Segment.size]
  · intro x below
    refine ⟨_, 0, _, by simp [PhysicalMemoryManager.new]; rfl, ?_, rfl⟩
    simpa [Covers, Segment.base, Segment.size] using below
  · intro positive k area found
    obtain ⟨rfl, rfl⟩ := stored found
    exact positive

/-! ### Freeing what one holds -/

namespace Ledger

/-- The caller holds the block it frees. -/
def FreesOutstanding (s : Ledger) (addr size : Nat) : Prop := s.Outstanding (addr, size)

/-- What a grant promises about its block. -/
structure Honoured (areas : AreaMap) (total : Nat) (grant : Grant) : Prop where
  nonempty : 0 < grant.request.size
  bounded : grant.addr + grant.request.size ≤ total
  start : grant.request.searchStart ≤ grant.addr
  stop : grant.addr + grant.request.size ≤ grant.request.searchEnd
  aligned : max grant.request.alignment pageSize ∣ grant.addr
  allocated : ∀ x, grant.block.Contains x → ∃ a, attrAt areas x = some a ∧ a.2 = .allocated

structure Sound (total : Nat) (s : Ledger) : Prop where
  tiles : Tiles s.manager.areas total
  apart : s.outstanding.Pairwise Grant.Apart
  honoured : ∀ grant ∈ s.outstanding, Honoured s.manager.areas total grant

theorem Honoured.of_attrAt {areas areas' : AreaMap} {total : Nat} {grant : Grant}
    (honoured : Honoured areas total grant)
    (keeps : ∀ x, grant.block.Contains x → attrAt areas' x = attrAt areas x) :
    Honoured areas' total grant :=
  { honoured with
    allocated := fun x inside => by
      rw [keeps x inside]
      exact honoured.allocated x inside }

theorem Honoured.of_overwrite {areas areas' : AreaMap} {total addr size : Nat} {grant : Grant}
    {b : Int × PhysicalMemoryType} (honoured : Honoured areas total grant)
    (bytes : attrAt areas' = overwrite (attrAt areas) addr (addr + size) b)
    (apart : Block.Apart (addr, size) grant.block) : Honoured areas' total grant :=
  honoured.of_attrAt fun x inside => by
    rw [bytes]
    exact overwrite_outside fun there => apart.not_contains there inside

theorem Sound.allocate {total : Nat} {s : Ledger} (sound : Sound total s) {r : AllocRequest}
    (valid : r.Valid) {result : Option Nat × PhysicalMemoryManager}
    (allocated : PhysicalMemoryManager.Allocated s.manager r result) :
    Sound total ⟨result.2, (PhysicalEvent.allocate r result.1).record s.outstanding⟩ := by
  cases allocated with
  | failed => exact sound
  | @found addr area aligned start stop stored isFree low high =>
    have nonempty := valid.nonempty
    have fits : area.base + area.size ≤ total := sound.tiles.within stored
    have sep := sound.tiles.separated
    have tiles := PhysicalMemoryManager.tiles_taken sound.tiles stored nonempty low high
    have bytes := PhysicalMemoryManager.attrAt_taken sound.tiles stored nonempty low high
    -- the area was free, so no held block meets it
    have fresh : ∀ grant ∈ s.outstanding, Block.Apart (addr, r.size) grant.block := by
      intro grant member
      refine Block.apart_of_disjoint nonempty (sound.honoured grant member).nonempty
        fun x inside held => ?_
      obtain ⟨a, has, taken⟩ := (sound.honoured grant member).allocated x held
      have here : Has s.manager.areas x (Segment.attr area) :=
        ⟨area.base, area, stored, ⟨low.trans inside.1, lt_of_lt_of_le inside.2 high⟩, rfl⟩
      rw [sep.has_unique ((attrAt_eq_some sep).mp has) here] at taken
      simp [Segment.attr, isFree] at taken
    refine ⟨tiles, List.pairwise_cons.mpr ⟨fresh, sound.apart⟩, ?_⟩
    intro grant member
    rcases List.mem_cons.mp member with rfl | member
    · exact ⟨nonempty, high.trans fits, start, stop, aligned,
        fun x inside => ⟨_, by rw [bytes]; exact overwrite_inside inside, rfl⟩⟩
    · exact (sound.honoured grant member).of_overwrite bytes (fresh grant member)

/-- Freeing one held block, whose area is marked and may then be merged. -/
theorem Sound.release {total : Nat} {s : Ledger} (sound : Sound total s) {addr size : Nat}
    (held : s.FreesOutstanding addr size) {areas : AreaMap} (tiles : Tiles areas total)
    {b : Int × PhysicalMemoryType}
    (bytes : attrAt areas = overwrite (attrAt s.manager.areas) addr (addr + size) b) :
    Sound total ⟨{ s.manager with areas := areas },
      (PhysicalEvent.free addr size true).record s.outstanding⟩ := by
  refine ⟨tiles, sound.apart.sublist List.filter_sublist, ?_⟩
  intro grant member
  obtain ⟨member, other⟩ := List.mem_filter.mp member
  obtain ⟨freed, freedMember, block⟩ := held
  have different : freed ≠ grant := by
    rintro rfl
    simp [block] at other
  apply (sound.honoured grant member).of_overwrite bytes
  rw [← block]
  exact sound.apart.forall freedMember member different

theorem Sound.free {p : Profile} {total : Nat} (bounded : total < 2 ^ 64) {s : Ledger}
    (sound : Sound total s) {addr size : Nat} (held : s.FreesOutstanding addr size)
    {released : Bool} {manager : PhysicalMemoryManager}
    (returned : (s.manager.free p addr size : Outcome Empty _) = .ok (released, manager)) :
    Sound total ⟨manager, (PhysicalEvent.free addr size released).record s.outstanding⟩ := by
  by_cases exactly : ∃ area, s.manager.areas[addr]? = some area ∧ area.size = size
  · obtain ⟨area, stored, rfl⟩ := exactly
    have nonempty : 0 < area.size := by
      obtain ⟨grant, member, block⟩ := held
      have positive := (sound.honoured grant member).nonempty
      rwa [show grant.request.size = area.size from congrArg Prod.snd block] at positive
    have marked := PhysicalMemoryManager.marked_tiles sound.tiles stored
    have bytes : attrAt (s.manager.marked addr) = overwrite (attrAt s.manager.areas) addr
        (addr + area.size) (area.memoryType, .free) := by
      rw [PhysicalMemoryManager.marked_eq stored]
      have keyed : area.base = addr := sound.tiles.separated.keyed stored
      exact attrAt_replace sound.tiles.separated stored (by exact keyed) (by rfl) nonempty
    rcases PhysicalMemoryManager.free_of_exact (ε := Empty) p marked bounded stored with
      ⟨-, freed⟩ | ⟨left, right, here, there, -, merge, -, freed⟩ | ⟨-, panicked⟩
    · rw [freed] at returned
      cases returned
      exact sound.release held marked bytes
    · rw [freed] at returned
      cases returned
      exact sound.release held (marked.join marked.separated here there merge.1 merge.attr_eq)
        ((attrAt_join marked.separated here there merge.1 merge.attr_eq).trans bytes)
    · rw [panicked] at returned
      cases returned
  · have failed : (s.manager.free p addr size : Outcome Empty _) = .ok (false, s.manager) :=
      PhysicalMemoryManager.free_of_not_exact p fun area stored same =>
        exactly ⟨area, stored, same⟩
    rw [failed] at returned
    cases returned
    exact sound

theorem new_sound (total : Nat) : Sound total (new total) :=
  ⟨PhysicalMemoryManager.new_tiles total, List.Pairwise.nil, by simp [new]⟩

theorem Sound.step {p : Profile} {total : Nat} (bounded : total < 2 ^ 64) {s s' : Ledger}
    {event : PhysicalEvent} (sound : Sound total s)
    (step : PhysicalStep p FreesOutstanding s event s') : Sound total s' := by
  cases step with
  | allocate valid quiet returned =>
    obtain ⟨result, computed, allocated⟩ :=
      PhysicalMemoryManager.allocate_spec p sound.tiles bounded valid quiet
    rw [computed] at returned
    cases returned
    exact sound.allocate valid allocated
  | free held returned => exact sound.free bounded held returned

end Ledger

/-- While only held blocks are freed, the held blocks are pairwise disjoint,
lie in the memory and in their search windows, are aligned as requested, and
the areas tile the memory. -/
theorem outstanding_blocks_disjoint (p : Profile) {total : Nat} (bounded : total < 2 ^ 64)
    {events : List PhysicalEvent} {s : Ledger}
    (run : Trace (PhysicalStep p Ledger.FreesOutstanding) (.new total) events s) :
    s.outstanding.Pairwise Grant.Apart ∧
    (∀ grant ∈ s.outstanding, grant.addr + grant.request.size ≤ total ∧
      grant.request.searchStart ≤ grant.addr ∧
      grant.addr + grant.request.size ≤ grant.request.searchEnd ∧
      max grant.request.alignment pageSize ∣ grant.addr) ∧
    Tiles s.manager.areas total := by
  have sound := run.invariant (Ledger.new_sound total) fun sound step => sound.step bounded step
  refine ⟨sound.apart, fun grant member => ?_, sound.tiles⟩
  have honoured := sound.honoured grant member
  exact ⟨honoured.bounded, honoured.start, honoured.stop, honoured.aligned⟩

def AllocRequest.onePage : AllocRequest where
  searchStart := 0
  searchEnd := 4 * pageSize
  size := pageSize
  alignment := 0

theorem AllocRequest.onePage_valid : onePage.Valid :=
  ⟨by decide, dvd_rfl, .inl rfl⟩

theorem PhysicalStep.onePage {mayFree : Ledger → Nat → Nat → Prop} {s : Ledger} {addr : Nat}
    {manager : PhysicalMemoryManager}
    (found : AllocRequest.onePage.call .dev s.manager = .ok (some addr, manager)) :
    PhysicalStep .dev mayFree s (.allocate .onePage (some addr))
      ⟨manager, ⟨addr, .onePage⟩ :: s.outstanding⟩ :=
  .allocate AllocRequest.onePage_valid (by simp [found]) found

/-- A memory of areas with the given numbers of pages and states. -/
def PhysicalMemoryManager.layout (areas : List (Nat × PhysicalMemoryType)) :
    PhysicalMemoryManager :=
  areas.foldl (fun m (pages, dmaType) =>
    { areas := m.areas.insert m.totalSize
        { base := m.totalSize, size := pages * pageSize, memoryType := 0, dmaType }
      totalSize := m.totalSize + pages * pageSize }) ⟨∅, 0⟩

theorem PhysicalStep.twoPages {mayFree : Ledger → Nat → Nat → Prop}
    (admits : mayFree ⟨.layout [(1, .allocated), (1, .allocated)],
      [⟨pageSize, .onePage⟩, ⟨0, .onePage⟩]⟩ 0 pageSize) :
    Trace (PhysicalStep .dev mayFree) (.new (2 * pageSize))
      [.allocate .onePage (some 0), .allocate .onePage (some pageSize), .free 0 pageSize true]
      ⟨.layout [(1, .free), (1, .allocated)], [⟨pageSize, .onePage⟩]⟩ := by
  have first : AllocRequest.onePage.call .dev (.new (2 * pageSize)) =
      .ok (some 0, .layout [(1, .allocated), (1, .free)]) := by decide +kernel
  have second : AllocRequest.onePage.call .dev (.layout [(1, .allocated), (1, .free)]) =
      .ok (some pageSize, .layout [(1, .allocated), (1, .allocated)]) := by decide +kernel
  exact .snoc (.snoc (.snoc .nil (.onePage first)) (.onePage second)) (.free admits (by decide +kernel))

theorem outstanding_blocks_disjoint_twoPages :
    max AllocRequest.onePage.alignment pageSize ∣ pageSize ∧
      Tiles (PhysicalMemoryManager.layout [(1, .free), (1, .allocated)]).areas (2 * pageSize) := by
  have sound := outstanding_blocks_disjoint .dev (by decide)
    (PhysicalStep.twoPages ⟨⟨0, .onePage⟩, by decide, rfl⟩)
  exact ⟨(sound.2.1 ⟨pageSize, .onePage⟩ (by simp)).2.2.2, sound.2.2⟩

end AnotherPs4
