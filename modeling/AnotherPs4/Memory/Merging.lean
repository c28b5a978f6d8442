import AnotherPs4.Memory.PhysicalRuns

/-!
# Coalescing physical areas

`merge_adjacent` walks over the keys it collected before the first merge. A
merge removes the key that the next iteration looks up, so the loop gets to its
end exactly when no pair of neighbours but the last can merge.
-/

namespace AnotherPs4

open Rust RangeMap Transition PhysicalMemoryArea

namespace AreaMap

/-- What a caller of `merge_adjacent` expects of the map it leaves behind. -/
structure Merged (p : Profile) (total : Nat) (areas merged : AreaMap) : Prop where
  tiles : Tiles merged total
  kept : attrAt merged = attrAt areas
  complete : ∀ area next : PhysicalMemoryArea, merged[area.base]? = some area →
    merged[next.base]? = some next →
    (area.canMergeWith p next : Outcome Empty Bool) ≠ .ok true
  freeApart : ∀ area next : PhysicalMemoryArea, merged[area.base]? = some area →
    merged[next.base]? = some next →
    area.base + area.size = next.base → ¬ (area.dmaType = .free ∧ next.dmaType = .free)

def MergesSafely (p : Profile) (total : Nat) (areas : AreaMap) : Prop :=
  ∃ merged, (PhysicalMemoryManager.mergeAdjacent p areas : Outcome Empty _) = .ok merged ∧
    Merged p total areas merged

/-- No two neighbours can merge, except perhaps the last two. -/
def MergesLastOnly (areas : AreaMap) : Prop :=
  (areas.toList.map Prod.snd).dropLast.IsChain Unmergeable

def FreeUniform (areas : AreaMap) : Prop :=
  ∀ area next : PhysicalMemoryArea, areas[area.base]? = some area →
    areas[next.base]? = some next →
    area.base + area.size = next.base → area.dmaType = .free → next.dmaType = .free →
    area.memoryType = next.memoryType

variable {areas merged : AreaMap} {total : Nat}

theorem freeUniform_iff (sep : Separated areas) (positive : Positive areas) :
    FreeUniform areas ↔ ∀ x (a b : Int × PhysicalMemoryType), attrAt areas x = some a →
      attrAt areas (x + 1) = some b → a.2 = .free → b.2 = .free → a.1 = b.1 :=
  touching_iff_consecutive sep positive
    (P := fun a b => a.2 = .free → b.2 = .free → a.1 = b.1) fun _ _ _ => rfl

/-- Whether free neighbours agree is a matter of the states of the bytes. -/
theorem FreeUniform.congr (sep : Separated areas) (positive : Positive areas)
    (sep' : Separated merged) (positive' : Positive merged)
    (same : attrAt merged = attrAt areas) : FreeUniform merged ↔ FreeUniform areas := by
  rw [freeUniform_iff sep positive, freeUniform_iff sep' positive', same]

theorem unmergeable_of_chain (sep : Separated areas) (positive : Positive areas)
    {entries : List (Nat × PhysicalMemoryArea)} (listed : ∀ e ∈ entries, areas[e.1]? = some e.2)
    (sorted : (entries.map Prod.fst).Pairwise (· < ·))
    (chain : (entries.map Prod.snd).IsChain Unmergeable) {area next : PhysicalMemoryArea}
    (here : (area.base, area) ∈ entries) (there : (next.base, next) ∈ entries) :
    area.Unmergeable next := by
  intro merge
  exact rel_of_touching sep positive listed sorted chain here there merge.1 merge

section JoinLast

variable {before : List (Nat × PhysicalMemoryArea)} {left right : PhysicalMemoryArea}
  (whole : areas.toList = before ++ [(left.base, left), (right.base, right)])

include whole

theorem mem_of_join {area : PhysicalMemoryArea}
    (stored : (join areas left right)[area.base]? = some area) :
    area = { left with size := left.size + right.size } ∨ (area.base, area) ∈ before := by
  simp only [join, Segment.base, Segment.size, Segment.withRange, getElem?_insert,
    getElem?_erase] at stored
  split at stored
  · exact .inl (Option.some.inj stored).symm
  · next notLeft =>
    split at stored
    · cases stored
    · next notRight =>
      have listed := mem_toList.mpr stored
      rw [whole] at listed
      simp only [List.mem_append, List.mem_cons, Prod.mk.injEq, List.not_mem_nil, or_false]
        at listed
      rcases listed with earlier | same | same
      · exact .inr earlier
      · exact absurd same.1.symm notLeft
      · exact absurd same.1.symm notRight

theorem base_lt_of_mem {area : PhysicalMemoryArea} (member : (area.base, area) ∈ before) :
    area.base < left.base := by
  have sorted := toList_sorted areas
  rw [whole, List.map_append, List.pairwise_append] at sorted
  exact sorted.2.2 area.base (List.mem_map_of_mem member) left.base (by simp)

theorem unmergeable_join (sep : Separated areas) (positive : Positive areas)
    (chain : ((before ++ [(left.base, left)]).map Prod.snd).IsChain Unmergeable)
    {area next : PhysicalMemoryArea} (here : (join areas left right)[area.base]? = some area)
    (there : (join areas left right)[next.base]? = some next) : area.Unmergeable next := by
  have initial : (before ++ [(left.base, left)]).Sublist areas.toList := by
    rw [whole]
    simp
  have apart : ∀ {a b : PhysicalMemoryArea}, (a.base, a) ∈ before ++ [(left.base, left)] →
      (b.base, b) ∈ before ++ [(left.base, left)] → a.Unmergeable b :=
    unmergeable_of_chain sep positive (fun e member => mem_toList.mp (initial.subset member))
      ((toList_sorted areas).sublist (initial.map _)) chain
  have last : (left.base, left) ∈ before ++ [(left.base, left)] := by simp
  have nonempty : 0 < left.size := positive (mem_toList.mp (initial.subset last))
  intro touch
  have adjacent := touch.1
  rcases mem_of_join whole here with rfl | earlier <;>
    rcases mem_of_join whole there with rfl | earlier'
  · simp only at adjacent
    omega
  · have below := base_lt_of_mem whole earlier'
    simp only at adjacent
    omega
  · have kept : area.Unmergeable left :=
      apart (List.mem_append_left _ earlier) last
    exact kept ⟨touch.1, touch.2.1, touch.2.2⟩
  · exact apart (List.mem_append_left _ earlier) (List.mem_append_left _ earlier') touch

end JoinLast

/-- A map without mergeable pairs is what the caller expects, up to free
neighbours of different memory types. -/
theorem merged_iff (p : Profile) (tiles : Tiles areas total) (positive : Positive areas)
    (bounded : total < 2 ^ 64) (tiles' : Tiles merged total) (positive' : Positive merged)
    (kept : attrAt merged = attrAt areas)
    (apart : ∀ {area next : PhysicalMemoryArea}, merged[area.base]? = some area →
      merged[next.base]? = some next → area.Unmergeable next) :
    Merged p total areas merged ↔ FreeUniform areas := by
  rw [← FreeUniform.congr tiles.separated positive tiles'.separated positive' kept]
  constructor
  · intro result area next here there touch isFree isFree'
    exact absurd ⟨isFree, isFree'⟩ (result.freeApart area next here there touch)
  · intro uniform
    refine ⟨tiles', kept, ?_, ?_⟩
    · intro area next here there
      rw [canMergeWith_eq p (lt_of_le_of_lt (tiles'.within here) bounded)]
      have separate : ¬ area.Mergeable next := apart here there
      simpa using separate
    · rintro area next here there touch ⟨isFree, isFree'⟩
      exact apart here there
        ⟨touch, uniform area next here there touch isFree isFree', isFree.trans isFree'.symm⟩

end AreaMap

namespace PhysicalMemoryManager

open AreaMap

/-- The merge loop is safe and complete exactly for the maps in which only the
last two areas can merge, and in which free neighbours share their memory type. -/
theorem mergeAdjacent_safe_iff (p : Profile) {areas : AreaMap} {total : Nat}
    (tiles : Tiles areas total) (positive : Positive areas) (bounded : total < 2 ^ 64) :
    MergesSafely p total areas ↔ MergesLastOnly areas ∧ FreeUniform areas := by
  have keys : areas.toList.map Prod.fst = areas.keys := Std.ExtTreeMap.map_fst_toList_eq_keys
  have stored : ∀ e ∈ areas.toList, areas[e.1]? = some e.2 :=
    fun e member => mem_toList.mp member
  have sorted := toList_sorted areas
  unfold MergesSafely mergeAdjacent MergesLastOnly
  rw [← keys]
  rcases mergeKeys_spec (ε := Empty) p tiles bounded stored sorted with
    ⟨quiet, run⟩ | ⟨before, ⟨k, left⟩, ⟨k', right⟩, whole, quiet, merge, run⟩ | ⟨loud, run⟩
  · rw [run]
    simp only [Outcome.ok.injEq, exists_eq_left', quiet.dropLast, true_and]
    exact merged_iff p tiles positive bounded tiles positive rfl fun here there =>
      unmergeable_of_chain tiles.separated positive stored sorted quiet (mem_toList.mpr here)
        (mem_toList.mpr there)
  · have here : areas[k]? = some left := stored (k, left) (by rw [whole]; simp)
    have there : areas[k']? = some right := stored (k', right) (by rw [whole]; simp)
    obtain rfl : left.base = k := tiles.separated.keyed here
    obtain rfl : right.base = k' := tiles.separated.keyed there
    have last : (areas.toList.map Prod.snd).dropLast.IsChain Unmergeable := by
      rw [whole, List.map_append, List.map_cons, List.map_cons, List.map_nil,
        List.dropLast_append_of_ne_nil (by simp)]
      simpa using quiet
    rw [run]
    simp only [Outcome.ok.injEq, exists_eq_left', last, true_and]
    have same := merge.attr_eq
    have joined := tiles.join tiles.separated here there merge.1 same
    refine merged_iff p tiles positive bounded joined ?_
      (attrAt_join tiles.separated here there merge.1 same)
      (unmergeable_join whole tiles.separated positive quiet)
    refine (positive.erase _).insert ?_
    rw [Segment.size_withRange]
    have := positive here
    omega
  · rw [run]
    simp [loud]

end PhysicalMemoryManager

/-- Marking a held block free gives a map of the kind the loop is called with. -/
theorem marked_tiles_of_run {p : Profile} {total addr : Nat} (bounded : total < 2 ^ 64)
    (occupied : 0 < total) {events : List PhysicalEvent} {s : Ledger}
    (run : Trace (PhysicalStep p Ledger.FreesOutstanding) (.new total) events s)
    {area : PhysicalMemoryArea} (stored : s.manager.areas[addr]? = some area) :
    Tiles (s.manager.marked addr) total ∧ Positive (s.manager.marked addr) := by
  have sound := run.invariant (Ledger.new_sound total) fun sound step => sound.step bounded step
  have tiles := PhysicalMemoryManager.marked_tiles sound.tiles stored
  exact ⟨tiles, tiles.nonempty occupied⟩

namespace PhysicalMemoryManager

theorem mergeAdjacent_safe_iff_twoFree :
    AreaMap.MergesSafely .dev (2 * pageSize) ((layout [(1, .allocated), (1, .free)]).marked 0) := by
  have first : AllocRequest.onePage.call .dev (.new (2 * pageSize)) =
      .ok (some 0, layout [(1, .allocated), (1, .free)]) := by decide +kernel
  have stored : (layout [(1, .allocated), (1, .free)]).areas[0]? =
      some ⟨0, pageSize, 0, .allocated⟩ := by decide +kernel
  obtain ⟨tiles, positive⟩ :=
    marked_tiles_of_run (by decide) (by decide) (.snoc .nil (.onePage first)) stored
  have listed : ((layout [(1, .allocated), (1, .free)]).marked 0).toList =
      [(0, ⟨0, pageSize, 0, .free⟩), (pageSize, ⟨pageSize, pageSize, 0, .free⟩)] := by
    decide +kernel
  refine (mergeAdjacent_safe_iff .dev tiles positive (by decide)).mpr ⟨?_, ?_⟩
  · unfold AreaMap.MergesLastOnly
    rw [listed]
    exact .singleton _
  · intro area next here there
    have member := mem_toList.mpr here
    have member' := mem_toList.mpr there
    rw [listed] at member member'
    simp only [List.mem_cons, Prod.mk.injEq, List.not_mem_nil, or_false] at member member'
    rcases member with ⟨-, rfl⟩ | ⟨-, rfl⟩ <;> rcases member' with ⟨-, rfl⟩ | ⟨-, rfl⟩ <;>
      exact fun _ _ _ => rfl

/-- Freeing the first of three blocks in a memory of four pages makes the loop
merge the two others and then look for the key of the second. -/
theorem mergeAdjacent_not_safe :
    ∃ s, Trace (PhysicalStep .dev Ledger.FreesOutstanding) (.new (4 * pageSize))
        [.allocate .onePage (some 0), .allocate .onePage (some pageSize),
          .allocate .onePage (some (2 * pageSize))] s ∧
      Tiles (s.manager.marked 0) (4 * pageSize) ∧ Positive (s.manager.marked 0) ∧
      (s.manager.free .dev 0 pageSize : Outcome Empty _) = .panic .missingKey ∧
      ¬ AreaMap.MergesSafely .dev (4 * pageSize) (s.manager.marked 0) := by
  have first : AllocRequest.onePage.call .dev (.new (4 * pageSize)) =
      .ok (some 0, layout [(1, .allocated), (3, .free)]) := by decide +kernel
  have second : AllocRequest.onePage.call .dev (layout [(1, .allocated), (3, .free)]) =
      .ok (some pageSize, layout [(1, .allocated), (1, .allocated), (2, .free)]) := by
    decide +kernel
  have third : AllocRequest.onePage.call .dev
        (layout [(1, .allocated), (1, .allocated), (2, .free)]) =
      .ok (some (2 * pageSize),
        layout [(1, .allocated), (1, .allocated), (1, .allocated), (1, .free)]) := by
    decide +kernel
  have run : Trace (PhysicalStep .dev Ledger.FreesOutstanding) (.new (4 * pageSize))
      [.allocate .onePage (some 0), .allocate .onePage (some pageSize),
        .allocate .onePage (some (2 * pageSize))]
      ⟨layout [(1, .allocated), (1, .allocated), (1, .allocated), (1, .free)],
        [⟨2 * pageSize, .onePage⟩, ⟨pageSize, .onePage⟩, ⟨0, .onePage⟩]⟩ :=
    .snoc (.snoc (.snoc .nil (.onePage first)) (.onePage second)) (.onePage third)
  have stored : (layout [(1, .allocated), (1, .allocated), (1, .allocated), (1, .free)]).areas[0]? =
      some ⟨0, pageSize, 0, .allocated⟩ := by decide +kernel
  obtain ⟨tiles, positive⟩ := marked_tiles_of_run (by decide) (by decide) run stored
  refine ⟨_, run, tiles, positive, by decide +kernel, ?_⟩
  rintro ⟨merged, finished, -⟩
  have panics : (mergeAdjacent .dev
      ((layout [(1, .allocated), (1, .allocated), (1, .allocated), (1, .free)]).marked 0) :
        Outcome Empty _) = .panic .missingKey := by decide +kernel
  rw [panics] at finished
  cases finished

end PhysicalMemoryManager

end AnotherPs4
