import AnotherPs4.Memory.UserRegion

/-!
# Areas in use

An address that the manager chose is free, so a mapping there cuts only free
areas. The areas in use stay stored as they are, next to the new one.
-/

namespace AnotherPs4

open Rust RangeMap Transition

variable {ε : Type}

namespace MemoryManager

theorem carveKeys_live {p : Profile} {addr stop : Nat} (ordered : addr ≤ stop) {keys : List Nat}
    (nodup : keys.Nodup) {map map' : VMAMap} (wf : map.WellFormed)
    (present : ∀ k ∈ keys, ∃ vma, map[k]? = some vma ∧ Meets vma addr stop)
    {live : VMAAttributes → Prop}
    (dead : ∀ k ∈ keys, ∀ vma, map[k]? = some vma → ¬ live vma.toVMAAttributes)
    (carved : (keys.foldlM (carveKey p addr stop) map : Outcome ε VMAMap) = .ok map')
    (k : Nat) {t : VirtualMemoryArea} (inUse : live t.toVMAAttributes) :
    map'[k]? = some t ↔ map[k]? = some t := by
  induction keys generalizing map with
  | nil =>
    cases carved
    rfl
  | cons key rest ih =>
    obtain ⟨vma, stored, meets⟩ := present key (by simp)
    obtain rfl : vma.base = key := wf.separated.keyed stored
    obtain ⟨fresh, nodup⟩ := List.nodup_cons.mp nodup
    have unused := dead vma.base (by simp) vma stored
    have keeps : ∀ k ∈ rest, ∀ {other}, map[k]? = some other →
        (RangeMap.cutOut map vma addr stop)[k]? = some other :=
      fun k member => wf.cutOut_others stored meets fresh member
    have here : (RangeMap.cutOut map vma addr stop)[k]? = some t ↔ map[k]? = some t := by
      constructor
      · intro found
        rcases cutOut_cases found with ⟨-, old⟩ | ⟨-, -, rfl⟩ | ⟨-, -, rfl⟩
        · exact old
        · exact absurd inUse unused
        · exact absurd inUse unused
      · intro old
        apply cutOut_keeps wf.separated stored meets.2 old
        rintro rfl
        obtain rfl := Option.some.inj (stored.symm.trans old)
        exact unused inUse
    rw [List.foldlM_cons, carveKey_eq stored (wf.within stored), Outcome.ok_bind] at carved
    refine (ih nodup (wf.cutOut stored ordered meets) ?_ ?_ carved).trans here
    · intro k member
      obtain ⟨other, old, meets⟩ := present k (List.mem_cons_of_mem _ member)
      exact ⟨other, keeps k member old, meets⟩
    · intro k member other found
      obtain ⟨old, stored', -⟩ := present k (List.mem_cons_of_mem _ member)
      obtain rfl := Option.some.inj ((keeps k member stored').symm.trans found)
      exact dead k (List.mem_cons_of_mem _ member) old stored'

/-- Storing an area over dead bytes keeps the live areas and adds the new one. -/
theorem replaceVma_live {p : Profile} {mm mm' : MemoryManager} (wf : mm.vmaMap.WellFormed)
    {vma : VirtualMemoryArea} (nonempty : 0 < vma.size) (bounded : vma.base + vma.size ≤ hostLimit)
    (live : VMAAttributes → Prop)
    (dead : ∀ x, vma.base ≤ x → x < vma.base + vma.size →
      ∀ a, attrAt mm.vmaMap x = some a → ¬ live a)
    (replaced : (mm.replaceVma p vma : Outcome ε _) = .ok mm')
    (k : Nat) {t : VirtualMemoryArea} (inUse : live t.toVMAAttributes) :
    mm'.vmaMap[k]? = some t ↔ mm.vmaMap[k]? = some t ∨ (k = vma.base ∧ t = vma) := by
  obtain ⟨map, carved, same⟩ := Outcome.bind_eq_ok.mp replaced
  cases same
  obtain ⟨keys, nodup, hits, loop⟩ := carveVma_eq (ε := ε) (p := p) wf bounded
  have unused : ∀ {k : Nat} {other : VirtualMemoryArea}, mm.vmaMap[k]? = some other →
      Meets other vma.base (vma.base + vma.size) → ¬ live other.toVMAAttributes := by
    intro k other stored meets
    obtain rfl : other.base = k := wf.separated.keyed stored
    have positive : 0 < other.size := wf.positive stored
    unfold Meets at meets
    apply dead (max other.base vma.base) (le_max_right _ _) (by omega) _
    exact (attrAt_eq_some wf.separated).mpr ⟨_, other, stored,
      ⟨le_max_left _ _, max_lt (Nat.lt_add_of_pos_right positive) meets.1⟩, rfl⟩
  have kept := carveKeys_live (Nat.le_add_right _ _) nodup wf (fun k member => (hits k).mp member)
    (fun k member other stored => by
      obtain ⟨_, stored', meets⟩ := (hits k).mp member
      obtain rfl := Option.some.inj (stored'.symm.trans stored)
      exact unused stored meets) (loop.symm.trans carved) k inUse
  rw [Std.ExtTreeMap.getElem?_insert]
  by_cases here : k = vma.base
  · subst here
    have old : mm.vmaMap[vma.base]? ≠ some t := by
      intro stored
      have keyed : t.base = vma.base := wf.separated.keyed stored
      have positive : 0 < t.size := wf.positive stored
      exact unused stored ⟨by omega, by omega⟩ inUse
    simp [old, eq_comm]
  · have different : compare vma.base k ≠ .eq := fun same => here (Nat.compare_eq_eq.mp same).symm
    rw [if_neg different, kept]
    simp [here]

end MemoryManager

/-- A mapping at an address the manager chose stores its area next to the areas
in use. -/
theorem MapRequest.call_areas {p : Profile} {host : Host} (lawful : host.Lawful)
    {mm mm' : MemoryManager} (wf : mm.vmaMap.WellFormed) {r : MapRequest}
    (word : r.size < 2 ^ 64) (free : ¬ r.fixed) {addr : Nat}
    (returned : r.call p host mm = .ok (.ok addr, mm')) (k : Nat) {t : VirtualMemoryArea}
    (inUse : t.vmaType ≠ .free) :
    mm'.vmaMap[k]? = some t ↔ mm.vmaMap[k]? = some t ∨ (k = addr ∧
      t = { r.attributes with base := addr, size := roundUp r.size pageSize }) := by
  obtain ⟨-, -, nonempty, bounded, replaced⟩ := call_eq_ok lawful word returned
  obtain ⟨-, effect⟩ := (MemoryCall.map lawful word returned).effect wf
  refine MemoryManager.replaceVma_live wf nonempty bounded (·.vmaType ≠ .free)
    (fun x above below a found isLive => ?_) replaced k inUse
  cases effect with
  | mapped _ _ chosen =>
    rw [if_neg free] at chosen
    obtain ⟨b, found', isFree⟩ := chosen.2 x above below
    obtain rfl := Option.some.inj (found'.symm.trans found)
    exact isLive isFree

/-- The block is mapped as an area of its own. -/
def MemoryManager.InUse (mm : MemoryManager) (b : Block) : Prop :=
  ∃ area : VirtualMemoryArea, mm.vmaMap[b.1]? = some area ∧ area.size = b.2 ∧ area.vmaType ≠ .free

/-- The second map has the block in addition, and no byte of it was in use. -/
structure MemoryManager.Adds (mm : MemoryManager) (b : Block) (mm' : MemoryManager) : Prop where
  wf : mm'.vmaMap.WellFormed
  mapped : mm'.InUse b
  kept : ∀ c, mm.InUse c → mm'.InUse c
  apart : ∀ c, mm.InUse c → c.Apart b
  page : pageSize ∣ b.1
  nonempty : 0 < b.2
  bounded : b.1 + b.2 ≤ hostLimit

theorem MemoryManager.Adds.changed {mm mm' later : MemoryManager} {b : Block}
    (adds : mm.Adds b mm') (still : later.InUse b) : later.vmaMap ≠ mm.vmaMap := by
  intro same
  have already : mm.InUse b := by
    obtain ⟨area, stored, rest⟩ := still
    exact ⟨area, same ▸ stored, rest⟩
  have positive := adds.nonempty
  rcases adds.apart b already with before | behind <;> omega

theorem MapRequest.call_adds {p : Profile} {host : Host} (lawful : host.Lawful)
    {mm mm' : MemoryManager} (wf : mm.vmaMap.WellFormed) {r : MapRequest}
    (word : r.size < 2 ^ 64) (free : ¬ r.fixed) (inUse : r.vmaType ≠ .free) {addr : Nat}
    (returned : r.call p host mm = .ok (.ok addr, mm')) :
    mm.Adds (addr, roundUp r.size pageSize) mm' := by
  obtain ⟨-, -, nonempty, bounded, -⟩ := call_eq_ok lawful word returned
  obtain ⟨wf', effect⟩ := (MemoryCall.map lawful word returned).effect wf
  have areas := call_areas lawful wf word free returned
  cases effect with
  | mapped _ _ chosen =>
    rw [if_neg free] at chosen
    refine ⟨wf', ?_, ?_, ?_, chosen.1, nonempty, bounded⟩
    · exact ⟨_, (areas _ inUse).mpr (.inr ⟨rfl, rfl⟩), rfl, inUse⟩
    · rintro c ⟨area, stored, size, isLive⟩
      exact ⟨area, (areas _ isLive).mpr (.inl stored), size, isLive⟩
    · rintro ⟨base, size⟩ ⟨area, stored, rfl, isLive⟩
      apply Block.apart_of_disjoint (wf.positive stored) nonempty
      intro x inside new
      obtain ⟨a, found, isFree⟩ := chosen.2 x new.1 new.2
      obtain rfl : area.base = base := wf.separated.keyed stored
      have old : attrAt mm.vmaMap x = some area.toVMAAttributes :=
        (attrAt_eq_some wf.separated).mpr ⟨_, area, stored, inside, rfl⟩
      obtain rfl := Option.some.inj (found.symm.trans old)
      exact isLive isFree

/-- The second map has the block in addition, and nothing else. -/
structure MemoryManager.Extends (mm : MemoryManager) (b : Block) (mm' : MemoryManager) : Prop
    extends mm.Adds b mm' where
  only : ∀ c, mm'.InUse c → mm.InUse c ∨ c = b

theorem MapRequest.call_extends {p : Profile} {host : Host} (lawful : host.Lawful)
    {mm mm' : MemoryManager} (wf : mm.vmaMap.WellFormed) {r : MapRequest}
    (word : r.size < 2 ^ 64) (free : ¬ r.fixed) (inUse : r.vmaType ≠ .free) {addr : Nat}
    (returned : r.call p host mm = .ok (.ok addr, mm')) :
    mm.Extends (addr, roundUp r.size pageSize) mm' where
  toAdds := call_adds lawful wf word free inUse returned
  only := by
    rintro ⟨base, size⟩ ⟨area, stored, sized, isLive⟩
    rcases (call_areas lawful wf word free returned _ isLive).mp stored with old | ⟨here, same⟩
    · exact .inl ⟨area, old, sized, isLive⟩
    · exact .inr (Prod.ext here (by rw [← sized, same]))

namespace MemoryManager

/-- Blocks added one after the other. -/
inductive ExtendsAll : MemoryManager → List Block → MemoryManager → Prop where
  | nil {mm} : ExtendsAll mm [] mm
  | cons {mm mm' mm'' b blocks} : mm.Extends b mm' → ExtendsAll mm' blocks mm'' →
      ExtendsAll mm (b :: blocks) mm''

/-- Blocks that are apart from those in use and from each other, each in whole
pages of the host address space. -/
structure Fresh (mm : MemoryManager) (blocks : List Block) : Prop where
  apart : ∀ b ∈ blocks, ∀ c, mm.InUse c → c.Apart b
  pairwise : blocks.Pairwise Block.Apart
  page : ∀ b ∈ blocks, pageSize ∣ b.1
  bounded : ∀ b ∈ blocks, b.1 + b.2 ≤ hostLimit

variable {mm mm' : MemoryManager} {blocks : List Block}

theorem Extends.all {b : Block} (extension : mm.Extends b mm') : mm.ExtendsAll [b] mm' :=
  .cons extension .nil

theorem ExtendsAll.append {mm'' : MemoryManager} {later : List Block}
    (first : mm.ExtendsAll blocks mm') (second : mm'.ExtendsAll later mm'') :
    mm.ExtendsAll (blocks ++ later) mm'' := by
  induction first with
  | nil => exact second
  | cons extension _ inductionHypothesis => exact .cons extension (inductionHypothesis second)

theorem ExtendsAll.wellFormed (extension : mm.ExtendsAll blocks mm')
    (wf : mm.vmaMap.WellFormed) : mm'.vmaMap.WellFormed := by
  induction extension with
  | nil => exact wf
  | cons first _ inductionHypothesis => exact inductionHypothesis first.wf

theorem ExtendsAll.inUse_iff (extension : mm.ExtendsAll blocks mm') (c : Block) :
    mm'.InUse c ↔ mm.InUse c ∨ c ∈ blocks := by
  induction extension with
  | nil => simp
  | cons first _ inductionHypothesis =>
    rw [inductionHypothesis, List.mem_cons, ← or_assoc]
    refine or_congr_left ⟨first.only c, ?_⟩
    rintro (old | rfl)
    · exact first.kept c old
    · exact first.mapped

theorem ExtendsAll.fresh (extension : mm.ExtendsAll blocks mm') : mm.Fresh blocks := by
  induction extension with
  | nil => exact ⟨nofun, .nil, nofun, nofun⟩
  | @cons mm mm' mm'' b blocks first _ later =>
    refine ⟨?_, ?_, ?_, ?_⟩
    · rintro c (_ | ⟨_, member⟩) used inUse
      · exact first.apart used inUse
      · exact later.apart c member used (first.kept used inUse)
    · exact List.pairwise_cons.mpr
        ⟨fun c member => later.apart c member b first.mapped, later.pairwise⟩
    · rintro c (_ | ⟨_, member⟩)
      · exact first.page
      · exact later.page c member
    · rintro c (_ | ⟨_, member⟩)
      · exact first.bounded
      · exact later.bounded c member

end MemoryManager

end AnotherPs4
