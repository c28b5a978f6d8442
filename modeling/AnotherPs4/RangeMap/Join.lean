import AnotherPs4.RangeMap.Cut

/-!
# Replacing and joining ranges

Two updates that keep the set of covered addresses: storing another range of
the same extent, and joining two adjacent ranges of equal attribute. `Tiles`
says that the ranges of a map partition the addresses below a limit, which
both updates, and filling the hole of a cut, preserve.
-/

namespace RangeMap

open Segment

variable {σ α : Type} [Segment σ α]

/-- The stored range `s` absorbs its right neighbour `t`. -/
def join (m : Map σ) (s t : σ) : Map σ :=
  (m.erase (base t)).insert (base s) (withRange s (base s) (size s + size t))

theorem size_join {m : Map σ} {s t : σ} (storedS : m[base s]? = some s)
    (storedT : m[base t]? = some t) (before : base s < base t) :
    (join m s t).size + 1 = m.size := by
  have hasS : (m.erase (base t)).contains (base s) = true := by
    rw [Std.ExtTreeMap.contains_eq_isSome_getElem?, getElem?_erase, if_neg before.ne', storedS]
    rfl
  have hasT : m.contains (base t) = true := by
    rw [Std.ExtTreeMap.contains_eq_isSome_getElem?, storedT]
    rfl
  unfold join
  rw [Std.ExtTreeMap.size_insert, if_pos hasS, Std.ExtTreeMap.size_erase, if_pos hasT]
  have occupied : m.size ≠ 0 := by
    intro empty
    rw [← Std.ExtTreeMap.eq_empty_iff_size_eq_zero] at empty
    rw [empty] at storedT
    cases storedT
  omega

/-- The ranges are disjoint and their union is `[0, total)`; an empty range is
possible only when there is nothing to cover. -/
structure Tiles (m : Map σ) (total : Nat) : Prop where
  separated : Separated m
  within : Within m total
  full : ∀ x < total, ∃ a : α, Has m x a
  nonempty : 0 < total → Positive m

theorem Tiles.congr {m m' : Map σ} {total : Nat} (tiles : Tiles m total) (sep : Separated m')
    (within : Within m' total) (positive : Positive m → Positive m')
    (same : ∀ x, x < total → (∃ a : α, Has m x a) → ∃ a : α, Has m' x a) : Tiles m' total where
  separated := sep
  within := within
  full x below := same x below (tiles.full x below)
  nonempty occupied := positive (tiles.nonempty occupied)

theorem Tiles.touching {m : Map σ} {total : Nat} (tiles : Tiles m total) :
    (m.toList.map Prod.snd).IsChain fun s t => base s + size s = base t := by
  have sep := tiles.separated
  rw [List.isChain_iff_forall_rel_of_append_cons_cons]
  intro s t before after whole
  have listed : ∀ u : σ, u ∈ before ++ s :: t :: after ↔ m[base u]? = some u := by
    intro u
    rw [← whole]
    exact sep.mem_values
  have sorted := sep.values_sorted
  rw [whole] at sorted
  obtain ⟨-, ends, early⟩ := List.pairwise_append.mp sorted
  obtain ⟨above, later⟩ := List.pairwise_cons.mp ends
  have here := (listed s).mp (by simp)
  have there := (listed t).mp (by simp)
  have apart := sep.apart here there (above t (by simp))
  have fits := tiles.within there
  by_contra gap
  -- the range over the first address of the gap would lie between the two
  obtain ⟨a, k, u, stored, covered, -⟩ := tiles.full (base s + size s) (by omega)
  obtain rfl := sep.keyed stored
  unfold Covers at covered
  rcases List.mem_append.mp ((listed u).mpr stored) with earlier | rest
  · have := sep.apart stored here (early u earlier s (by simp))
    omega
  · rcases List.mem_cons.mp rest with rfl | rest
    · omega
    · rcases List.mem_cons.mp rest with rfl | rest
      · omega
      · have := (List.pairwise_cons.mp later).1 u rest
        omega

section Replace

variable {m : Map σ} {k : Nat} {s s' : σ}

theorem gap_erase (sep : Separated m) (stored : m[k]? = some s) :
    Gap (m.erase k) k (k + size s) := by
  intro k' t found
  rw [getElem?_erase] at found
  split at found
  · cases found
  · next different =>
      rcases Nat.lt_or_gt_of_ne different with above | below
      · exact .inr (sep.apart stored found above)
      · exact .inl ⟨below, sep.apart found stored below⟩

omit [Segment σ α] in
theorem insert_erase_self : (m.erase k).insert k s = m.insert k s := by
  apply Std.ExtTreeMap.ext_getElem?
  intro k'
  by_cases same : k = k' <;> simp [same]

variable (sep : Separated m) (stored : m[k]? = some s) (key : base s' = k)
  (length : size s' = size s)

include sep stored key length

theorem Separated.replace : Separated (m.insert k s') := by
  rw [← insert_erase_self]
  exact (sep.erase k).fill (gap_erase sep stored) key (by rw [length])

theorem attrAt_replace (nonempty : 0 < size s) :
    attrAt (m.insert k s') = overwrite (attrAt m) k (k + size s) (attr s') := by
  have filled := attrAt_fill (sep.erase k) (gap_erase sep stored) key (by rw [length]) (by omega)
  rw [insert_erase_self] at filled
  rw [filled]
  funext x
  unfold overwrite
  split
  · rfl
  · next outside =>
      apply attrAt_congr (sep.erase k) sep
      intro b
      have keyed := sep.keyed stored
      rw [has_erase sep stored]
      exact and_iff_left fun covered => outside (by unfold Covers at covered; omega)

theorem Tiles.replace {total : Nat} (tiles : Tiles m total) : Tiles (m.insert k s') total := by
  have fits := tiles.within stored
  refine tiles.congr (sep.replace stored key length) (tiles.within.insert (by omega))
    (fun positive => positive.insert (by rw [length]; exact positive stored)) ?_
  rintro x - ⟨a, k', t, found, covered, rfl⟩
  by_cases same : k = k'
  · subst same
    rw [stored] at found
    cases found
    have keyed := sep.keyed stored
    exact ⟨attr s', k, s', by simp, by unfold Covers at covered ⊢; omega, rfl⟩
  · exact ⟨attr t, k', t, by simp [same, found], covered, rfl⟩

end Replace

section Join

variable {m : Map σ} {s t : σ} (sep : Separated m) (storedS : m[base s]? = some s)
  (storedT : m[base t]? = some t) (adjacent : base s + size s = base t)

include sep storedS storedT adjacent

theorem Separated.join : Separated (RangeMap.join m s t) := by
  apply (sep.erase _).insert (base_withRange ..)
  intro k u found different
  rw [size_withRange]
  rw [getElem?_erase] at found
  split at found
  · cases found
  · next other =>
      rcases Nat.lt_or_gt_of_ne different with below | above
      · exact .inl (sep.apart found storedS below)
      · have past := sep.apart storedS found above
        have beyond := sep.apart storedT found (by omega)
        omega

omit sep in
theorem has_join (same : attr s = attr t) {x : Nat} {a : α} :
    Has (RangeMap.join m s t) x a ↔ Has m x a := by
  constructor
  · rintro ⟨k, u, found, covered, rfl⟩
    unfold RangeMap.join at found
    rw [getElem?_insert] at found
    split at found
    · cases found
      rw [attr_withRange]
      simp only [Covers, base_withRange, size_withRange] at covered
      by_cases left : x < base t
      · exact ⟨base s, s, storedS, ⟨covered.1, by omega⟩, rfl⟩
      · exact ⟨base t, t, storedT, ⟨by omega, by omega⟩, same.symm⟩
    · rw [getElem?_erase] at found
      split at found
      · cases found
      · exact ⟨k, u, found, covered, rfl⟩
  · rintro ⟨k, u, found, covered, rfl⟩
    have joined : (RangeMap.join m s t)[base s]? =
        some (withRange s (base s) (size s + size t)) := by
      simp [RangeMap.join]
    by_cases left : k = base s
    · subst left
      rw [storedS] at found
      cases found
      refine ⟨base s, _, joined, ?_, attr_withRange ..⟩
      simp only [Covers, base_withRange, size_withRange] at covered ⊢
      omega
    · by_cases right : k = base t
      · subst right
        rw [storedT] at found
        cases found
        refine ⟨base s, _, joined, ?_, (attr_withRange ..).trans same⟩
        simp only [Covers, base_withRange, size_withRange] at covered ⊢
        omega
      · exact ⟨k, u, by simp [RangeMap.join, Ne.symm left, Ne.symm right, found], covered, rfl⟩

theorem attrAt_join (same : attr s = attr t) : attrAt (RangeMap.join m s t) = attrAt m :=
  funext fun _ => attrAt_congr (sep.join storedS storedT adjacent) sep fun _ =>
    has_join storedS storedT adjacent same

theorem Tiles.join {total : Nat} (tiles : Tiles m total)
    (same : attr s = attr t) : Tiles (RangeMap.join m s t) total := by
  have fits := tiles.within storedT
  refine tiles.congr (sep.join storedS storedT adjacent) ?_ ?_ ?_
  · apply (tiles.within.erase _).insert
    rw [size_withRange]
    omega
  · intro positive
    apply (positive.erase _).insert
    rw [size_withRange]
    have := positive storedS
    omega
  · rintro x - ⟨a, has⟩
    exact ⟨a, (has_join storedS storedT adjacent same).mpr has⟩

end Join

section Refill

variable {m : Map σ} {s s' : σ} {a e : Nat} (sep : Separated m) (positive : Positive m)
  (stored : m[base s]? = some s) (low : base s ≤ a) (nonempty : a < e)
  (high : e ≤ base s + size s) (key : base s' = a) (length : a + size s' = e)

include sep positive stored low nonempty high

theorem gap_cutOut : Gap (cutOut m s a e) a e := by
  refine gap_of_positive (sep.cutOut stored (by omega) (by omega) nonempty.le) positive.cutOut
    nonempty fun x above below b has => ?_
  obtain ⟨-, outside⟩ := (has_cutOut sep stored (by omega) (by omega) nonempty.le).mp has
  exact outside ⟨⟨by omega, by omega⟩, above, below⟩

include key length

theorem attrAt_refill :
    attrAt ((cutOut m s a e).insert a s') = overwrite (attrAt m) a e (attr s') := by
  have cut := sep.cutOut stored (by omega) (by omega) nonempty.le
  rw [attrAt_fill cut (gap_cutOut sep positive stored low nonempty high) key length nonempty]
  funext x
  unfold overwrite
  split
  · rfl
  · next outside =>
      apply attrAt_congr cut sep
      intro b
      rw [has_cutOut sep stored (by omega) (by omega) nonempty.le]
      exact and_iff_left fun inside => outside inside.2

theorem Tiles.refill {total : Nat} (tiles : Tiles m total) :
    Tiles ((cutOut m s a e).insert a s') total := by
  have fits := tiles.within stored
  have gap := gap_cutOut sep positive stored low nonempty high
  refine tiles.congr
    ((sep.cutOut stored (by omega) (by omega) nonempty.le).fill gap key length)
    ((tiles.within.cutOut stored (by omega)).insert (by omega))
    (fun _ => positive.cutOut.insert (by omega)) ?_
  rintro x - ⟨b, has⟩
  by_cases inside : a ≤ x ∧ x < e
  · exact ⟨attr s', (has_insert (gap.absent nonempty)).mpr (.inl ⟨by unfold Covers; omega, rfl⟩)⟩
  · refine ⟨b, (has_insert (gap.absent nonempty)).mpr (.inr ?_)⟩
    exact (has_cutOut sep stored (by omega) (by omega) nonempty.le).mpr
      ⟨has, fun covered => inside covered.2⟩

end Refill

end RangeMap
