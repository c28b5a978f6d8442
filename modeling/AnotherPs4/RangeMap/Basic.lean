import Mathlib.Tactic

/-!
# Range maps

An ordered map from base addresses to half-open address ranges, each carrying
one attribute for all its addresses. `attrAt` is the meaning of such a map: a
partial function from addresses to attributes. Separation (keys are bases,
later ranges start past earlier ones) makes that function well defined and
lets every update be checked address by address.
-/

namespace RangeMap

/-- Values that describe a range of addresses with one attribute. -/
class Segment (σ : Type) (α : outParam Type) where
  base : σ → Nat
  size : σ → Nat
  attr : σ → α
  /-- The same attribute on another range. -/
  withRange : σ → Nat → Nat → σ
  base_withRange : ∀ s b n, base (withRange s b n) = b
  size_withRange : ∀ s b n, size (withRange s b n) = n
  attr_withRange : ∀ s b n, attr (withRange s b n) = attr s

open Segment

attribute [simp] base_withRange size_withRange attr_withRange

abbrev Map (σ : Type) := Std.ExtTreeMap Nat σ

variable {σ α : Type} [Segment σ α]

def Covers (s : σ) (x : Nat) : Prop := base s ≤ x ∧ x < base s + size s

instance (s : σ) (x : Nat) : Decidable (Covers s x) :=
  inferInstanceAs (Decidable (base s ≤ x ∧ x < base s + size s))

/-- A block of addresses, given by base and size. -/
abbrev Block := Nat × Nat

def Block.Apart (b c : Block) : Prop := b.1 + b.2 ≤ c.1 ∨ c.1 + c.2 ≤ b.1

instance (b c : Block) : Decidable (b.Apart c) :=
  inferInstanceAs (Decidable (b.1 + b.2 ≤ c.1 ∨ c.1 + c.2 ≤ b.1))

def Block.Contains (b : Block) (x : Nat) : Prop := b.1 ≤ x ∧ x < b.1 + b.2

theorem Block.apart_of_disjoint {b c : Block} (hb : 0 < b.2) (hc : 0 < c.2)
    (disjoint : ∀ x, b.Contains x → ¬ c.Contains x) : b.Apart c := by
  by_contra meets
  unfold Apart at meets
  refine disjoint (max b.1 c.1) ⟨le_max_left _ _, ?_⟩ ⟨le_max_right _ _, ?_⟩ <;> omega

theorem Block.Apart.not_contains {b c : Block} (apart : b.Apart c) {x : Nat}
    (inside : b.Contains x) : ¬ c.Contains x := by
  unfold Apart at apart
  unfold Contains at inside ⊢
  omega

/-- Blocks of whole units that are apart start in units of their own, so a range
holds no more of them than it has units. -/
theorem Block.length_le_of_apart {blocks : List Block} {unit lo hi : Nat}
    (apart : blocks.Pairwise Apart)
    (whole : ∀ b ∈ blocks, unit ∣ b.1 ∧ unit ∣ b.2 ∧ 0 < b.2)
    (inside : ∀ b ∈ blocks, lo ≤ b.1 ∧ b.1 + b.2 ≤ hi) :
    blocks.length ≤ hi / unit - lo / unit := by
  have distinct : (blocks.map fun b => b.1 / unit).Nodup := by
    refine List.pairwise_map.mpr (apart.imp_of_mem fun {b c} listed listed' apart same => ?_)
    obtain ⟨⟨i, start⟩, ⟨m, size⟩, nonempty⟩ := whole b listed
    obtain ⟨⟨j, start'⟩, ⟨n, size'⟩, nonempty'⟩ := whole c listed'
    have positive : 0 < unit := Nat.pos_of_ne_zero fun zero => by simp [size, zero] at nonempty
    rw [start, start', Nat.mul_div_cancel_left _ positive, Nat.mul_div_cancel_left _ positive]
      at same
    unfold Apart at apart
    rw [start, start', same] at apart
    omega
  have bounded : (blocks.map fun b => b.1 / unit).toFinset ⊆
      Finset.Ico (lo / unit) (hi / unit) := by
    intro k member
    obtain ⟨b, listed, rfl⟩ := List.mem_map.mp (List.mem_toFinset.mp member)
    obtain ⟨low, high⟩ := inside b listed
    obtain ⟨⟨i, start⟩, ⟨n, size⟩, nonempty⟩ := whole b listed
    have positive : 0 < unit := Nat.pos_of_ne_zero fun zero => by simp [size, zero] at nonempty
    refine Finset.mem_Ico.mpr ⟨Nat.div_le_div_right low, ?_⟩
    rw [start, Nat.mul_div_cancel_left _ positive, Nat.lt_iff_add_one_le,
      Nat.le_div_iff_mul_le positive]
    have least : unit ≤ b.2 := Nat.le_of_dvd nonempty ⟨n, size⟩
    calc (i + 1) * unit = unit * i + unit := by ring
      _ ≤ b.1 + b.2 := by omega
      _ ≤ hi := high
  calc blocks.length = (blocks.map fun b => b.1 / unit).toFinset.card := by
        rw [List.toFinset_card_of_nodup distinct, List.length_map]
    _ ≤ (Finset.Ico (lo / unit) (hi / unit)).card := Finset.card_le_card bounded
    _ = hi / unit - lo / unit := Nat.card_Ico _ _

omit [Segment σ α] in
@[simp] theorem getElem?_insert (m : Map σ) (k k' : Nat) (s : σ) :
    (m.insert k s)[k']? = if k = k' then some s else m[k']? := by
  simp [Std.ExtTreeMap.getElem?_insert]

omit [Segment σ α] in
@[simp] theorem getElem?_erase (m : Map σ) (k k' : Nat) :
    (m.erase k)[k']? = if k = k' then none else m[k']? := by
  simp [Std.ExtTreeMap.getElem?_erase]

omit [Segment σ α] in
theorem mem_toList {m : Map σ} {k : Nat} {s : σ} : (k, s) ∈ m.toList ↔ m[k]? = some s :=
  Std.ExtTreeMap.mem_toList_iff_getElem?_eq_some

omit [Segment σ α] in
theorem toList_sorted (m : Map σ) : (m.toList.map Prod.fst).Pairwise (· < ·) := by
  rw [Std.ExtTreeMap.map_fst_toList_eq_keys]
  exact Std.ExtTreeMap.ordered_keys.imp fun lt => Nat.compare_eq_lt.mp lt

/-- Some range of the map gives address `x` the attribute `a`. -/
def Has (m : Map σ) (x : Nat) (a : α) : Prop :=
  ∃ (k : Nat) (s : σ), m[k]? = some s ∧ Covers s x ∧ attr s = a

def SpansRange (s : σ) (x n : Nat) : Prop := base s ≤ x ∧ x + n ≤ base s + size s

/-- One range of the map has all of `[x, x + n)`, with the attribute `a`. So for
`n = 2` this says where two addresses are not separated by a border. -/
def Spans (m : Map σ) (x n : Nat) (a : α) : Prop :=
  ∃ (k : Nat) (s : σ), m[k]? = some s ∧ SpansRange s x n ∧ attr s = a

theorem SpansRange.covers {s : σ} {x n : Nat} (spans : SpansRange s x n) (nonempty : 0 < n) :
    Covers s x :=
  ⟨spans.1, by have := spans.2; omega⟩

theorem has_iff_spans {m : Map σ} {x : Nat} {a : α} : Has m x a ↔ Spans m x 1 a := Iff.rfl

structure Separated (m : Map σ) : Prop where
  keyed : ∀ {k : Nat} {s : σ}, m[k]? = some s → base s = k
  apart : ∀ {k₁ k₂ : Nat} {s₁ s₂ : σ}, m[k₁]? = some s₁ → m[k₂]? = some s₂ → k₁ < k₂ →
    k₁ + size s₁ ≤ k₂

def Within (m : Map σ) (limit : Nat) : Prop :=
  ∀ ⦃k : Nat⦄ ⦃s : σ⦄, m[k]? = some s → k + size s ≤ limit

def Positive (m : Map σ) : Prop :=
  ∀ ⦃k : Nat⦄ ⦃s : σ⦄, m[k]? = some s → 0 < size s

theorem Separated.mem_values {m : Map σ} (sep : Separated m) {s : σ} :
    s ∈ m.toList.map Prod.snd ↔ m[base s]? = some s := by
  constructor
  · intro member
    obtain ⟨⟨k, s⟩, listed, rfl⟩ := List.mem_map.mp member
    have stored := mem_toList.mp listed
    obtain rfl : base s = k := sep.keyed stored
    exact stored
  · exact fun stored => List.mem_map.mpr ⟨(base s, s), mem_toList.mpr stored, rfl⟩

theorem Separated.values_sorted {m : Map σ} (sep : Separated m) :
    (m.toList.map Prod.snd).Pairwise fun s t => base s < base t := by
  have keyed : ∀ e ∈ m.toList, base e.2 = e.1 := fun e member => sep.keyed (mem_toList.mp member)
  refine List.pairwise_map.mpr ((List.pairwise_map.mp (toList_sorted m)).imp_of_mem ?_)
  intro first second inFirst inSecond less
  rw [keyed first inFirst, keyed second inSecond]
  exact less

theorem Separated.unique {m : Map σ} (sep : Separated m) {k₁ k₂ x : Nat} {s₁ s₂ : σ}
    (h₁ : m[k₁]? = some s₁) (h₂ : m[k₂]? = some s₂) (c₁ : Covers s₁ x) (c₂ : Covers s₂ x) :
    k₁ = k₂ := by
  have b₁ := sep.keyed h₁
  have b₂ := sep.keyed h₂
  unfold Covers at c₁ c₂
  rcases Nat.lt_trichotomy k₁ k₂ with lt | eq | gt
  · have := sep.apart h₁ h₂ lt
    omega
  · exact eq
  · have := sep.apart h₂ h₁ gt
    omega

theorem Separated.has_unique {m : Map σ} (sep : Separated m) {x : Nat} {a b : α}
    (ha : Has m x a) (hb : Has m x b) : a = b := by
  obtain ⟨k₁, s₁, h₁, c₁, rfl⟩ := ha
  obtain ⟨k₂, s₂, h₂, c₂, rfl⟩ := hb
  obtain rfl := sep.unique h₁ h₂ c₁ c₂
  rw [h₁] at h₂
  cases h₂
  rfl

/-- The attribute of an address, read off the first range that covers it. -/
def attrAt (m : Map σ) (x : Nat) : Option α :=
  (m.toList.find? fun e => decide (Covers e.2 x)).map fun e => attr e.2

theorem attrAt_eq_some {m : Map σ} (sep : Separated m) {x : Nat} {a : α} :
    attrAt m x = some a ↔ Has m x a := by
  constructor
  · intro found
    obtain ⟨⟨k, s⟩, hfind, rfl⟩ := Option.map_eq_some_iff.mp found
    have member := List.mem_of_find?_eq_some hfind
    have covered := List.find?_some hfind
    exact ⟨k, s, mem_toList.mp member, by simpa using covered, rfl⟩
  · rintro ⟨k, s, stored, covered, rfl⟩
    cases hfind : m.toList.find? (fun e => decide (Covers e.2 x)) with
    | none =>
      have := List.find?_eq_none.mp hfind (k, s)
        (mem_toList.mpr stored)
      simp [covered] at this
    | some e =>
      obtain ⟨k', s'⟩ := e
      have stored' := mem_toList.mp
        (List.mem_of_find?_eq_some hfind)
      have covered' : Covers s' x := by simpa using List.find?_some hfind
      obtain rfl := sep.unique stored stored' covered covered'
      rw [stored] at stored'
      cases stored'
      simp [attrAt, hfind]

theorem attrAt_eq_none {m : Map σ} {x : Nat} :
    attrAt m x = none ↔ ∀ a : α, ¬ Has m x a := by
  constructor
  · rintro absent _ ⟨k, s, stored, covered, rfl⟩
    have := List.find?_eq_none.mp (Option.map_eq_none_iff.mp absent) (k, s)
      (mem_toList.mpr stored)
    simp [covered] at this
  · intro absent
    apply Option.map_eq_none_iff.mpr
    apply List.find?_eq_none.mpr
    rintro ⟨k, s⟩ member covered
    exact absent (attr s) ⟨k, s, mem_toList.mp member,
      by simpa using covered, rfl⟩

theorem attrAt_congr {m m' : Map σ} (sep : Separated m) (sep' : Separated m') {x : Nat}
    (same : ∀ a : α, Has m x a ↔ Has m' x a) : attrAt m x = attrAt m' x := by
  apply Option.ext
  intro a
  rw [attrAt_eq_some sep, attrAt_eq_some sep', same]

/-! ### Insertion and removal -/

theorem has_insert {m : Map σ} {k x : Nat} {s : σ} {a : α} (absent : m[k]? = none) :
    Has (m.insert k s) x a ↔ (Covers s x ∧ attr s = a) ∨ Has m x a := by
  constructor
  · rintro ⟨k', s', stored, covered, rfl⟩
    rw [getElem?_insert] at stored
    split at stored
    · cases stored
      exact .inl ⟨covered, rfl⟩
    · exact .inr ⟨k', s', stored, covered, rfl⟩
  · rintro (⟨covered, rfl⟩ | ⟨k', s', stored, covered, rfl⟩)
    · exact ⟨k, s, by simp, covered, rfl⟩
    · refine ⟨k', s', ?_, covered, rfl⟩
      rw [getElem?_insert, if_neg, stored]
      rintro rfl
      simp [absent] at stored

theorem has_erase {m : Map σ} (sep : Separated m) {k x : Nat} {s : σ} {a : α}
    (present : m[k]? = some s) : Has (m.erase k) x a ↔ Has m x a ∧ ¬ Covers s x := by
  constructor
  · rintro ⟨k', s', stored, covered, rfl⟩
    rw [getElem?_erase] at stored
    split at stored
    · cases stored
    · next different =>
        exact ⟨⟨k', s', stored, covered, rfl⟩,
          fun covered' => different (sep.unique present stored covered' covered)⟩
  · rintro ⟨⟨k', s', stored, covered, rfl⟩, outside⟩
    refine ⟨k', s', ?_, covered, rfl⟩
    rw [getElem?_erase, if_neg, stored]
    rintro rfl
    rw [present] at stored
    cases stored
    exact outside covered

theorem Separated.erase {m : Map σ} (sep : Separated m) (k : Nat) : Separated (m.erase k) where
  keyed := by
    intro k' s stored
    rw [getElem?_erase] at stored
    split at stored
    · cases stored
    · exact sep.keyed stored
  apart := by
    intro k₁ k₂ s₁ s₂ h₁ h₂ lt
    rw [getElem?_erase] at h₁ h₂
    split at h₁ <;> split at h₂ <;> first | contradiction | exact sep.apart h₁ h₂ lt

theorem Separated.insert {m : Map σ} (sep : Separated m) {k : Nat} {s : σ} (key : base s = k)
    (room : ∀ {k' : Nat} {s' : σ}, m[k']? = some s' → k' ≠ k → k' + size s' ≤ k ∨ k + size s ≤ k') :
    Separated (m.insert k s) where
  keyed := by
    intro k' s' stored
    rw [getElem?_insert] at stored
    split at stored
    · next same =>
        cases stored
        exact key.trans same
    · exact sep.keyed stored
  apart := by
    intro k₁ k₂ s₁ s₂ h₁ h₂ lt
    rw [getElem?_insert] at h₁ h₂
    split at h₁
    · cases h₁
      rw [if_neg (by omega)] at h₂
      have := room h₂ (by omega)
      omega
    · split at h₂
      · cases h₂
        have := room h₁ (by omega)
        omega
      · exact sep.apart h₁ h₂ lt

theorem Within.erase {m : Map σ} {limit : Nat} (within : Within m limit) (k : Nat) :
    Within (m.erase k) limit := by
  intro k' s stored
  rw [getElem?_erase] at stored
  split at stored
  · cases stored
  · exact within stored

theorem Within.insert {m : Map σ} {limit k : Nat} {s : σ} (within : Within m limit)
    (fits : k + size s ≤ limit) : Within (m.insert k s) limit := by
  intro k' s' stored
  rw [getElem?_insert] at stored
  split at stored
  · next same =>
      cases stored
      omega
  · exact within stored

theorem Positive.erase {m : Map σ} (positive : Positive m) (k : Nat) : Positive (m.erase k) := by
  intro k' s stored
  rw [getElem?_erase] at stored
  split at stored
  · cases stored
  · exact positive stored

theorem Positive.insert {m : Map σ} {k : Nat} {s : σ} (positive : Positive m)
    (nonempty : 0 < size s) : Positive (m.insert k s) := by
  intro k' s' stored
  rw [getElem?_insert] at stored
  split at stored
  · cases stored
    exact nonempty
  · exact positive stored

/-! ### Neighbours -/

/-- In a sorted list of stored ranges, one that starts where another stops follows it. -/
theorem rel_of_touching {m : Map σ} (sep : Separated m) (positive : Positive m)
    {entries : List (Nat × σ)} (stored : ∀ e ∈ entries, m[e.1]? = some e.2)
    (sorted : (entries.map Prod.fst).Pairwise (· < ·)) {R : σ → σ → Prop}
    (chain : (entries.map Prod.snd).IsChain R) {k k' : Nat} {s t : σ} (here : (k, s) ∈ entries)
    (there : (k', t) ∈ entries) (touch : k + size s = k') : R s t := by
  have nonempty : 0 < size s := positive (stored _ here)
  obtain ⟨before, after, rfl⟩ := List.append_of_mem here
  rw [List.map_append, List.map_cons, List.pairwise_append, List.pairwise_cons] at sorted
  obtain ⟨-, ⟨above, sorted⟩, below⟩ := sorted
  have behind : (k', t) ∈ after := by
    rcases List.mem_append.mp there with earlier | later
    · have := below k' (List.mem_map_of_mem earlier) k (by simp)
      omega
    · rcases List.mem_cons.mp later with same | later
      · have := congrArg Prod.fst same
        simp only at this
        omega
      · exact later
  cases after with
  | nil => simp at behind
  | cons e rest =>
    have next : R s e.2 := by
      rw [List.map_append, List.map_cons, List.map_cons, List.isChain_append_cons_cons] at chain
      exact chain.2.1
    rcases List.mem_cons.mp behind with same | later
    · rw [← same] at next
      exact next
    · have between : e.1 < k' :=
        (List.pairwise_cons.mp sorted).1 k' (List.mem_map_of_mem later)
      have past : k + size s ≤ e.1 :=
        sep.apart (stored _ here) (stored e (by simp)) (above e.1 (by simp))
      omega

/-- What relates the attributes of ranges that touch, and of every range to
itself, relates those of consecutive addresses. -/
theorem touching_iff_consecutive {m : Map σ} (sep : Separated m) (positive : Positive m)
    {P : α → α → Prop} (refl : ∀ a, P a a) :
    (∀ s t, m[base s]? = some s → m[base t]? = some t → base s + size s = base t →
      P (attr s) (attr t)) ↔
    ∀ x a b, attrAt m x = some a → attrAt m (x + 1) = some b → P a b := by
  constructor
  · intro touching x a b first second
    obtain ⟨k, s, here, covers, rfl⟩ := (attrAt_eq_some sep).mp first
    obtain ⟨k', t, there, covers', rfl⟩ := (attrAt_eq_some sep).mp second
    obtain rfl := sep.keyed here
    obtain rfl := sep.keyed there
    unfold Covers at covers covers'
    rcases Nat.lt_trichotomy (base s) (base t) with before | same | behind
    · have apart := sep.apart here there before
      exact touching s t here there (by omega)
    · rw [same, there] at here
      cases here
      exact refl _
    · have apart := sep.apart there here behind
      omega
  · intro consecutive s t here there touch
    have nonempty := positive here
    have nonempty' := positive there
    refine consecutive (base t - 1) _ _
      ((attrAt_eq_some sep).mpr ⟨_, s, here, by unfold Covers; omega, rfl⟩) ?_
    rw [Nat.sub_add_cancel (by omega)]
    exact (attrAt_eq_some sep).mpr ⟨_, t, there, by unfold Covers; omega, rfl⟩

end RangeMap
