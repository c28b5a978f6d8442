import AnotherPs4.Memory.UserRegion

/-!
# Free bytes and free areas

A request is placed in one free area, and areas that touch are never joined.
Unmapping stores the range as an area of its own, so all bytes of a run may be
free while no area has room for it. Where no two free areas touch, the bytes
and the areas agree.
-/

namespace AnotherPs4

open Rust RangeMap Transition

namespace MemoryManager

def FreeAt (mm : MemoryManager) (x : Nat) : Prop :=
  ∃ a, attrAt mm.vmaMap x = some a ∧ a.vmaType = .free

def FreeRun (mm : MemoryManager) (addr size : Nat) : Prop :=
  ∀ x, addr ≤ x → x < addr + size → mm.FreeAt x

/-- One free area has the whole range, which starts on a page. -/
def RoomAt (mm : MemoryManager) (addr size : Nat) : Prop :=
  pageSize ∣ addr ∧ ∃ a, Spans mm.vmaMap addr size a ∧ a.vmaType = .free

theorem freeAt_iff {mm : MemoryManager} (wf : mm.vmaMap.WellFormed) {x : Nat} :
    mm.FreeAt x ↔ ∃ a, Spans mm.vmaMap x 1 a ∧ a.vmaType = .free :=
  exists_congr fun _ => and_congr_left fun _ => attrAt_eq_some wf.separated

theorem RoomAt.freeRun {mm : MemoryManager} (wf : mm.vmaMap.WellFormed) {addr size : Nat}
    (room : mm.RoomAt addr size) : mm.FreeRun addr size := by
  obtain ⟨-, a, ⟨k, vma, stored, inside, rfl⟩, isFree⟩ := room
  intro x above below
  refine (freeAt_iff wf).mpr ⟨_, ⟨k, vma, stored, ?_, rfl⟩, isFree⟩
  unfold SpansRange at inside ⊢
  omega

/-- An area has room from its first page on if it has room anywhere. -/
theorem exists_roomAt_iff {mm : MemoryManager} (wf : mm.vmaMap.WellFormed) {size : Nat} :
    (∃ addr, mm.RoomAt addr size) ↔
      ∃ vma : VirtualMemoryArea, mm.vmaMap[vma.base]? = some vma ∧ HasRoom size vma := by
  constructor
  · rintro ⟨addr, aligned, a, ⟨k, vma, stored, ⟨low, high⟩, rfl⟩, isFree⟩
    obtain rfl : vma.base = k := wf.separated.keyed stored
    have first : roundUp vma.base pageSize ≤ addr := roundUp_le pageSize_pos aligned low
    exact ⟨vma, stored, isFree, le_trans (Nat.add_le_add_right first size) high⟩
  · rintro ⟨vma, stored, isFree, fits⟩
    exact ⟨roundUp vma.base pageSize, dvd_roundUp _ _, vma.toVMAAttributes,
      ⟨vma.base, vma, stored, ⟨le_roundUp pageSize_pos, fits⟩, rfl⟩, isFree⟩

end MemoryManager

/-- The host maps every range of free bytes. -/
def Host.Serves (host : Host) (mm : MemoryManager) : Prop :=
  ∀ addr size executable, 0 < size → mm.FreeRun addr size →
    host.mmapFixed addr size executable = true

theorem Host.serves_of_inUser {host : Host} {mm : MemoryManager} (wf : mm.vmaMap.WellFormed)
    (inside : mm.FreeInUser)
    (maps : ∀ addr size executable, 0 < size → mm.addressSpace.InUser addr size →
      host.mmapFixed addr size executable = true) : host.Serves mm := by
  intro addr size executable nonempty run
  refine maps addr size executable nonempty ((AddressSpace.inUser_iff nonempty).mpr ?_)
  intro x above below
  obtain ⟨a, found, isFree⟩ := run x above below
  exact (MemoryManager.freeInUser_iff wf).mp inside x a found isFree

namespace MapRequest

def Succeeds (p : Profile) (host : Host) (mm : MemoryManager) (r : MapRequest) : Prop :=
  ∃ addr mm', r.call p host mm = .ok (.ok addr, mm')

/-- A request that leaves the address to the manager gets one exactly if some
free area has room. -/
theorem succeeds_iff {p : Profile} {host : Host} (lawful : host.Lawful) {mm : MemoryManager}
    (wf : mm.vmaMap.WellFormed) (serves : host.Serves mm) {r : MapRequest}
    (word : r.size < 2 ^ 64) (free : ¬ r.fixed) :
    r.Succeeds p host mm ↔
      0 < roundUp r.size pageSize ∧ ∃ addr, mm.RoomAt addr (roundUp r.size pageSize) := by
  constructor
  · rintro ⟨addr, mm', returned⟩
    obtain ⟨-, -, nonempty, -⟩ := call_eq_ok lawful word returned
    obtain ⟨vma, stored, room, -⟩ := (MemoryCall.map lawful word returned).lowest wf free
    exact ⟨nonempty, (MemoryManager.exists_roomAt_iff wf).mpr ⟨vma, stored, room⟩⟩
  · rintro ⟨nonempty, some_room⟩
    obtain ⟨vma, stored, room⟩ := (MemoryManager.exists_roomAt_iff wf).mp some_room
    have within : vma.base + vma.size ≤ hostLimit := wf.within stored
    have bounded : roundUp r.size pageSize ≤ hostLimit := by
      have := room.2
      omega
    rcases MemoryManager.findFreeRegion_cases (ε := Empty) p wf bounded with
      ⟨-, none⟩ | ⟨first, stored', room', -, lowest⟩
    · exact absurd room (none vma stored)
    have placed : mm.RoomAt (roundUp first.base pageSize) (roundUp r.size pageSize) :=
      ⟨dvd_roundUp _ _, first.toVMAAttributes,
        ⟨first.base, first, stored', ⟨le_roundUp pageSize_pos, room'.2⟩, rfl⟩, room'.1⟩
    obtain ⟨mm', returned⟩ := call_of_lowest (p := p) lawful wf free stored' room' lowest
      (serves _ _ _ nonempty (placed.freeRun wf))
    exact ⟨_, mm', returned⟩

end MapRequest

/-! ### One pair of calls -/

section Pair

variable {p : Profile} {mm mm₁ mm₂ : MemoryManager} {r : MapRequest} {a : Nat}
  (wf : mm.vmaMap.WellFormed) (map : MemoryCall p mm (.map r (.ok a)) mm₁)
  (unmap : MemoryCall p mm₁ (.unmap a r.size (.ok ())) mm₂)

include wf map unmap

/-- After the pair its range is an area of its own, and around it the areas
are cut at its ends. -/
theorem spans_after_pair {x n : Nat} {b : VMAAttributes} (nonempty : 0 < n) :
    Spans mm₂.vmaMap x n b ↔
      (a ≤ x ∧ x + n ≤ a + roundUp r.size pageSize ∧ MemoryManager.freeAttributes = b) ∨
        (Spans mm.vmaMap x n b ∧ (x + n ≤ a ∨ a + roundUp r.size pageSize ≤ x)) := by
  obtain ⟨positive, bounded, replaced⟩ := map.stored
  obtain ⟨positive', bounded', replaced'⟩ := unmap.stored
  rw [MemoryManager.replaceVma_spans (map.effect wf).1 positive' bounded' replaced' nonempty,
    MemoryManager.replaceVma_spans wf positive bounded replaced nonempty]
  constructor
  · rintro (⟨inside, rfl⟩ | ⟨⟨inside, -⟩ | ⟨old, -⟩, outside⟩)
    · exact .inl ⟨inside.1, inside.2, rfl⟩
    · obtain ⟨low, high⟩ : a ≤ x ∧ x + n ≤ a + roundUp r.size pageSize := inside
      exact absurd (show x + n ≤ a ∨ a + roundUp r.size pageSize ≤ x from outside) (by omega)
    · exact .inr ⟨old, outside⟩
  · rintro (⟨low, high, rfl⟩ | ⟨old, outside⟩)
    · exact .inl ⟨⟨low, high⟩, rfl⟩
    · exact .inr ⟨.inr ⟨old, outside⟩, outside⟩

variable (free : ¬ r.fixed)

include free

theorem freeAt_after_pair {x : Nat} : mm₂.FreeAt x ↔ mm.FreeAt x := by
  have wf₂ := (unmap.effect (map.effect wf).1).1
  rw [MemoryManager.freeAt_iff wf₂]
  simp only [spans_after_pair wf map unmap (show 0 < 1 by decide)]
  constructor
  · rintro ⟨b, ⟨low, high, -⟩ | ⟨old, -⟩, isFree⟩
    · obtain ⟨-, effect⟩ := map.effect wf
      cases effect with
      | mapped _ _ chosen =>
        rw [if_neg free] at chosen
        exact chosen.2 x low high
    · exact (MemoryManager.freeAt_iff wf).mpr ⟨b, old, isFree⟩
  · intro isFree
    obtain ⟨b, old, isFree⟩ := (MemoryManager.freeAt_iff wf).mp isFree
    by_cases inside : a ≤ x ∧ x < a + roundUp r.size pageSize
    · exact ⟨_, .inl ⟨inside.1, inside.2, rfl⟩, rfl⟩
    · exact ⟨b, .inr ⟨old, by omega⟩, isFree⟩

/-- What has room after the pair: whatever is not longer than its range, and
what had room beside it. -/
theorem roomAt_after_pair {size : Nat} (nonempty : 0 < size) :
    (∃ x, mm₂.RoomAt x size) ↔ size ≤ roundUp r.size pageSize ∨
      ∃ x, mm.RoomAt x size ∧ (x + size ≤ a ∨ a + roundUp r.size pageSize ≤ x) := by
  have aligned : pageSize ∣ a := by
    obtain ⟨-, effect⟩ := map.effect wf
    cases effect with
    | mapped _ _ chosen =>
      rw [if_neg free] at chosen
      exact chosen.1
  constructor
  · rintro ⟨x, page, b, spans, isFree⟩
    rcases (spans_after_pair wf map unmap nonempty).mp spans with ⟨low, high, -⟩ | ⟨old, outside⟩
    · exact .inl (by omega)
    · exact .inr ⟨x, ⟨page, b, old, isFree⟩, outside⟩
  · rintro (shorter | ⟨x, ⟨page, b, old, isFree⟩, outside⟩)
    · exact ⟨a, aligned, MemoryManager.freeAttributes,
        (spans_after_pair wf map unmap nonempty).mpr (.inl ⟨le_rfl, by omega, rfl⟩), rfl⟩
    · exact ⟨x, page, b,
        (spans_after_pair wf map unmap nonempty).mpr (.inr ⟨old, outside⟩), isFree⟩

/-- A request that would have got an address gets one after the pair exactly if
it is not longer than the range of the pair, or had room beside it too. -/
theorem succeeds_after_pair_iff {host : Host} (lawful : host.Lawful) (serves : host.Serves mm)
    {q : MapRequest} (word : q.size < 2 ^ 64) (anywhere : ¬ q.fixed) :
    (q.Succeeds p host mm → q.Succeeds p host mm₂) ↔
      ((∃ x, mm.RoomAt x (roundUp q.size pageSize)) →
        roundUp q.size pageSize ≤ roundUp r.size pageSize ∨
        ∃ x, mm.RoomAt x (roundUp q.size pageSize) ∧
          (x + roundUp q.size pageSize ≤ a ∨ a + roundUp r.size pageSize ≤ x)) := by
  have wf₂ := (unmap.effect (map.effect wf).1).1
  have serves₂ : host.Serves mm₂ := fun addr size executable nonempty run =>
    serves addr size executable nonempty fun x above below =>
      (freeAt_after_pair wf map unmap free).mp (run x above below)
  rw [MapRequest.succeeds_iff lawful wf serves word anywhere,
    MapRequest.succeeds_iff lawful wf₂ serves₂ word anywhere]
  rcases Nat.eq_zero_or_pos (roundUp q.size pageSize) with zero | nonempty
  · simp [zero]
  · rw [roomAt_after_pair wf map unmap free nonempty]
    simp only [nonempty, true_and]

end Pair

/-! ### Runs in which free areas stay apart -/

/-- No two free bytes in a row lie in different areas. -/
def MemoryManager.Coalesced (mm : MemoryManager) : Prop :=
  ∀ x, mm.FreeAt x → mm.FreeAt (x + 1) → ∃ a, Spans mm.vmaMap x 2 a

/-- A free area is stored only where no free byte is next to it. -/
def MemoryEvent.FreesApart (mm : MemoryManager) (event : MemoryEvent) : Prop :=
  ∀ vma, event.stores = some vma → vma.vmaType = .free →
    ∀ x, x + 1 = vma.base ∨ x = vma.base + vma.size → ¬ mm.FreeAt x

theorem MemoryManager.new_coalesced {boot : HostBoot} (lawful : boot.Lawful) {mm : MemoryManager}
    (booted : new boot = .ok mm) : mm.Coalesced := by
  obtain ⟨-, initial⟩ := new_wellFormed lawful booted
  obtain ⟨-, size, -, areas⟩ := new_eq_ok booted
  have region : ∀ x, mm.FreeAt x →
      mm.addressSpace.userBase ≤ x ∧ x < mm.addressSpace.userBase + userSize := by
    rintro x ⟨a, found, -⟩
    rw [initial] at found
    unfold AddressSpace.initialBytes at found
    split at found
    · next inside => rwa [size] at inside
    · cases found
  intro x here next
  have first := region x here
  have second := region (x + 1) next
  refine ⟨_, mm.addressSpace.userBase, _, by rw [areas, getElem?_insert, if_pos rfl], ?_, rfl⟩
  exact ⟨first.1, show x + 2 ≤ mm.addressSpace.userBase + userSize by omega⟩

section Step

variable {p : Profile} {mm mm' : MemoryManager} {event : MemoryEvent}
  (wf : mm.vmaMap.WellFormed) (call : MemoryCall p mm event mm')

include wf call

theorem MemoryCall.coalesced (coalesced : mm.Coalesced) (apart : event.FreesApart mm) :
    mm'.Coalesced := by
  have wf' := (call.effect wf).1
  have stored := call.stored
  cases stores : event.stores with
  | none =>
    rw [stores] at stored
    rwa [show mm' = mm from stored]
  | some vma =>
    rw [stores] at stored
    obtain ⟨positive, bounded, replaced⟩ := stored
    have spans {x n : Nat} {b : VMAAttributes} (nonempty : 0 < n) :=
      MemoryManager.replaceVma_spans wf positive bounded replaced (x := x) (b := b) nonempty
    have bytes : ∀ x, mm'.FreeAt x →
        (vma.base ≤ x ∧ x < vma.base + vma.size ∧ vma.vmaType = .free) ∨
          (mm.FreeAt x ∧ (x < vma.base ∨ vma.base + vma.size ≤ x)) := by
      intro x isFree
      obtain ⟨b, found, isFree⟩ := (MemoryManager.freeAt_iff wf').mp isFree
      rcases (spans (by decide)).mp found with ⟨inside, rfl⟩ | ⟨old, outside⟩
      · exact .inl ⟨inside.1, inside.2, isFree⟩
      · exact .inr ⟨(MemoryManager.freeAt_iff wf).mpr ⟨b, old, isFree⟩, outside⟩
    intro x here next
    rcases bytes x here with ⟨low, high, isFree⟩ | ⟨old, outside⟩ <;>
      rcases bytes (x + 1) next with ⟨low', high', isFree'⟩ | ⟨old', outside'⟩
    · have inside : SpansRange vma x 2 := ⟨low, show x + 2 ≤ vma.base + vma.size by omega⟩
      exact ⟨_, (spans (by decide)).mpr (.inl ⟨inside, rfl⟩)⟩
    · exact absurd old' (apart vma stores isFree _ (.inr (by omega)))
    · exact absurd old (apart vma stores isFree' _ (.inl (by omega)))
    · obtain ⟨a, both⟩ := coalesced x old old'
      exact ⟨a, (spans (by decide)).mpr (.inr ⟨both, by omega⟩)⟩

end Step

/-- The invariant of runs in which free areas stay apart. -/
structure MemoryManager.Tidy (mm : MemoryManager) : Prop where
  wf : mm.vmaMap.WellFormed
  coalesced : mm.Coalesced

theorem MemoryManager.Coalesced.roomAt {mm : MemoryManager} (wf : mm.vmaMap.WellFormed)
    (coalesced : mm.Coalesced) {addr size : Nat} (nonempty : 0 < size) (aligned : pageSize ∣ addr)
    (run : mm.FreeRun addr size) : mm.RoomAt addr size := by
  obtain ⟨n, rfl⟩ := Nat.exists_eq_add_of_lt nonempty
  rw [Nat.zero_add] at run ⊢
  obtain ⟨a, first, isFree⟩ := (freeAt_iff wf).mp (run addr le_rfl (by omega))
  refine ⟨aligned, a, wf.separated.spans_of_steps first fun y above below => ?_, isFree⟩
  exact coalesced y (run y above (by omega)) (run (y + 1) (by omega) below)

/-- Mapping and unmapping gives the space back for exactly the requests that
are not longer or had room beside it. Where every free area is stored apart
from the free bytes, a request fails only if no aligned run is free. -/
theorem space_given_back_iff (p : Profile) {boot : HostBoot} (lawful : boot.Lawful)
    {mm₀ : MemoryManager} (booted : MemoryManager.new boot = .ok mm₀) :
    (∀ events mm, Trace (MemoryCall p) mm₀ events mm → ∀ r a mm₁ mm₂, ¬ r.fixed →
      MemoryCall p mm (.map r (.ok a)) mm₁ → MemoryCall p mm₁ (.unmap a r.size (.ok ())) mm₂ →
      ∀ (host : Host) (q : MapRequest), host.Lawful → host.Serves mm → q.size < 2 ^ 64 →
      ¬ q.fixed →
      ((q.Succeeds p host mm → q.Succeeds p host mm₂) ↔
        ((∃ x, mm.RoomAt x (roundUp q.size pageSize)) →
          roundUp q.size pageSize ≤ roundUp r.size pageSize ∨
          ∃ x, mm.RoomAt x (roundUp q.size pageSize) ∧
            (x + roundUp q.size pageSize ≤ a ∨ a + roundUp r.size pageSize ≤ x)))) ∧
    (∀ events mm, Trace (fun mm event mm' => MemoryCall p mm event mm' ∧ event.FreesApart mm)
      mm₀ events mm → ∀ (host : Host) (q : MapRequest), host.Lawful → host.Serves mm →
      q.size < 2 ^ 64 → 0 < q.size → ¬ q.fixed → ¬ q.Succeeds p host mm →
      ∀ x, pageSize ∣ x → ¬ mm.FreeRun x (roundUp q.size pageSize)) ∧
    ∀ events mm, Trace (MemoryCall p) mm₀ events mm →
      (∀ event ∈ events, event.FreesInUser mm₀.addressSpace) → ∀ host : Host,
      (∀ addr size executable, 0 < size → mm.addressSpace.InUser addr size →
        host.mmapFixed addr size executable = true) → host.Serves mm := by
  refine ⟨?_, ?_, ?_⟩
  · intro events mm run r a mm₁ mm₂ free map unmap host q answers serves word anywhere
    have wf := MemoryCall.run_wellFormed lawful booted run
    exact succeeds_after_pair_iff wf map unmap free answers serves word anywhere
  · intro events mm run host q answers serves word some_bytes anywhere fails x aligned isFree
    have start : mm₀.Tidy :=
      ⟨(MemoryManager.new_wellFormed lawful booted).1, MemoryManager.new_coalesced lawful booted⟩
    obtain ⟨wf, coalesced⟩ : mm.Tidy :=
      Trace.invariant start (fun ⟨wf, coalesced⟩ ⟨call, apart⟩ =>
        ⟨(call.effect wf).1, call.coalesced wf coalesced apart⟩) run
    have nonempty : 0 < roundUp q.size pageSize := lt_of_lt_of_le some_bytes (le_roundUp pageSize_pos)
    exact fails ((MapRequest.succeeds_iff answers wf serves word anywhere).mpr
      ⟨nonempty, x, coalesced.roomAt wf nonempty aligned isFree⟩)
  · intro events mm run inRegion host maps
    obtain ⟨-, inside, -⟩ := freeInUser_iff_unmaps_inUser p lawful booted run inRegion
    exact Host.serves_of_inUser (MemoryCall.run_wellFormed lawful booted run) inside maps

theorem Host.roomy_serves {mm : MemoryManager} (wf : mm.vmaMap.WellFormed) :
    Host.roomy.Serves mm := by
  intro addr size executable nonempty run
  obtain ⟨a, found, -⟩ := run (addr + size - 1) (by omega) (by omega)
  obtain ⟨k, vma, stored, ⟨low, high⟩, -⟩ := (attrAt_eq_some wf.separated).mp found
  obtain rfl : vma.base = k := wf.separated.keyed stored
  have within : vma.base + vma.size ≤ hostLimit := wf.within stored
  have last : addr + size - 1 < vma.base + vma.size := high
  exact decide_eq_true ⟨nonempty, by omega⟩

theorem MemoryCall.unmapStack :
    MemoryCall .dev .withStack (.unmap 0x1000000000 100 (.ok ())) .withoutFirstPage :=
  .unmap Host.roomy_lawful (by decide) (by decide +kernel)

def MapRequest.wholeRegion : MapRequest := { MapRequest.stack with size := userSize }

theorem space_given_back_iff_stack :
    MapRequest.stack.Succeeds .dev .roomy .withoutFirstPage ∧
      ∀ x, pageSize ∣ x → ¬ MemoryManager.withStack.FreeRun x userSize := by
  have limits := space_given_back_iff .dev HostBoot.low_lawful MemoryManager.new_low
  have wf := (MemoryManager.new_wellFormed HostBoot.low_lawful MemoryManager.new_low).1
  constructor
  · refine (limits.1 [] _ .nil _ _ _ _ (by decide) .mapStack .unmapStack .roomy .stack
      Host.roomy_lawful (Host.roomy_serves wf) (by decide) (by decide)).mpr
      (fun _ => .inl le_rfl) ⟨_, _, MapRequest.stack_call⟩
  · have apart : (MemoryEvent.map .stack (.ok 0x1000000000)).FreesApart .booted := by
      rintro _ ⟨⟩ isFree
      exact absurd isFree (by decide)
    have fails : ¬ MapRequest.wholeRegion.Succeeds .dev .roomy .withStack := by
      rintro ⟨addr, mm', returned⟩
      have refused : MapRequest.wholeRegion.call .dev .roomy .withStack =
          .ok (.error (.noFreeRegion userSize), .withStack) := by decide +kernel
      rw [refused] at returned
      cases returned
    exact limits.2.1 _ _ (.snoc .nil ⟨.mapStack, apart⟩) .roomy .wholeRegion Host.roomy_lawful
      (Host.roomy_serves (MemoryCall.mapStack.effect wf).1) (by decide) (by decide) (by decide) fails

/-- After a page is mapped and unmapped all of the user region is free again,
but the request for all of it that succeeded before fails. -/
theorem space_not_given_back :
    ∃ mm mm₁ mm₂, MemoryManager.new .low = .ok mm ∧
      MemoryCall .dev mm (.map .stack (.ok 0x1000000000)) mm₁ ∧
      MemoryCall .dev mm₁ (.unmap 0x1000000000 MapRequest.stack.size (.ok ())) mm₂ ∧
      Host.roomy.Serves mm ∧ MapRequest.wholeRegion.Succeeds .dev .roomy mm ∧
      ¬ MapRequest.wholeRegion.Succeeds .dev .roomy mm₂ ∧
      mm₂.FreeRun mm₂.addressSpace.userBase userSize := by
  have wf := (MemoryManager.new_wellFormed HostBoot.low_lawful MemoryManager.new_low).1
  have wf₂ := (MemoryCall.unmapStack.effect (MemoryCall.mapStack.effect wf).1).1
  have whole : MemoryManager.booted.RoomAt 0x1000000000 userSize := by
    refine ⟨by decide, MemoryManager.freeAttributes, ⟨0x1000000000,
      { MemoryManager.freeAttributes with base := 0x1000000000, size := userSize }, ?_, ?_, rfl⟩, rfl⟩
    · decide +kernel
    · exact ⟨le_rfl, le_rfl⟩
  refine ⟨.booted, .withStack, .withoutFirstPage, rfl, .mapStack, .unmapStack,
    Host.roomy_serves wf, ?_, ?_, ?_⟩
  · exact (MapRequest.succeeds_iff Host.roomy_lawful wf (Host.roomy_serves wf) (by decide)
      (by decide)).mpr ⟨by decide, 0x1000000000, whole⟩
  · rintro ⟨addr, mm', returned⟩
    have refused : MapRequest.wholeRegion.call .dev .roomy .withoutFirstPage =
        .ok (.error (.noFreeRegion userSize), .withoutFirstPage) := by decide +kernel
    rw [refused] at returned
    cases returned
  · intro x above below
    exact (freeAt_after_pair wf .mapStack .unmapStack (by decide)).mpr
      (whole.freeRun wf x above below)

end AnotherPs4
