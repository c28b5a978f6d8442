import AnotherPs4.RangeMap.Basic

/-!
# Cutting holes into range maps

`cutOut` removes the addresses `[a, e)` from one stored range and keeps its
remainders on both sides. Once every range that meets `[a, e)` has been cut,
the map has a gap there, and a new range for exactly these addresses can be
stored: the net effect on addresses is `overwrite`.
-/

namespace RangeMap

open Segment

variable {σ α : Type} [Segment σ α]

/-- Replace the stored range `s` by what lies before `a` and from `e` on. -/
def cutOut (m : Map σ) (s : σ) (a e : Nat) : Map σ :=
  let m := m.erase (base s)
  let m := if base s < a then m.insert (base s) (withRange s (base s) (a - base s)) else m
  if e < base s + size s then m.insert e (withRange s e (base s + size s - e)) else m

def Gap (m : Map σ) (a e : Nat) : Prop :=
  ∀ ⦃k : Nat⦄ ⦃s : σ⦄, m[k]? = some s → (k < a ∧ k + size s ≤ a) ∨ e ≤ k

def overwrite (f : Nat → Option α) (a e : Nat) (b : α) : Nat → Option α :=
  fun x => if a ≤ x ∧ x < e then some b else f x

omit [Segment σ α] in
theorem overwrite_inside {f : Nat → Option α} {a e x : Nat} {b : α} (inside : a ≤ x ∧ x < e) :
    overwrite f a e b x = some b := if_pos inside

omit [Segment σ α] in
theorem overwrite_outside {f : Nat → Option α} {a e x : Nat} {b : α}
    (outside : ¬ (a ≤ x ∧ x < e)) : overwrite f a e b x = f x := if_neg outside

omit [Segment σ α] in
/-- What holds of all addresses after an update holds of the new attribute on
its range, and of the old attributes elsewhere. -/
theorem forall_overwrite {f : Nat → Option α} {a e : Nat} {b : α} {R : Nat → α → Prop} :
    (∀ x c, overwrite f a e b x = some c → R x c) ↔
      (∀ x, a ≤ x → x < e → R x b) ∧
        ∀ x c, ¬ (a ≤ x ∧ x < e) → f x = some c → R x c := by
  constructor
  · intro all
    refine ⟨fun x above below => all x b (overwrite_inside ⟨above, below⟩), ?_⟩
    intro x c outside old
    exact all x c (by rwa [overwrite_outside outside])
  · rintro ⟨inside, elsewhere⟩ x c found
    by_cases within : a ≤ x ∧ x < e
    · rw [overwrite_inside within] at found
      cases found
      exact inside x within.1 within.2
    · rw [overwrite_outside within] at found
      exact elsewhere x c within found

section Cut

variable {m : Map σ} {s : σ} {a e : Nat}

/-- What a cut can leave at a key: an old range, a left or a right remainder. -/
theorem cutOut_cases {k : Nat} {t : σ} (stored : (cutOut m s a e)[k]? = some t) :
    (k ≠ base s ∧ m[k]? = some t) ∨
    (k = base s ∧ base s < a ∧ t = withRange s (base s) (a - base s)) ∨
    (k = e ∧ e < base s + size s ∧ t = withRange s e (base s + size s - e)) := by
  unfold cutOut at stored
  by_cases right : e < base s + size s <;> by_cases left : base s < a <;>
    simp only [right, left, if_true, if_false, getElem?_insert, getElem?_erase] at stored <;>
    grind

theorem cutOut_left (left : base s < a) (ordered : a ≤ e) :
    (cutOut m s a e)[base s]? = some (withRange s (base s) (a - base s)) := by
  have different : e ≠ base s := by omega
  unfold cutOut
  by_cases right : e < base s + size s <;>
    simp only [left, right, different, if_true, if_false, getElem?_insert]

theorem cutOut_right (right : e < base s + size s) :
    (cutOut m s a e)[e]? = some (withRange s e (base s + size s - e)) := by
  simp [cutOut, right]

variable (sep : Separated m) (stored : m[base s]? = some s)
  (starts : base s < e) (reaches : a < base s + size s)

include sep stored

theorem not_stored_inside {k : Nat} (above : base s < k) (below : k < base s + size s) :
    m[k]? = none := by
  cases found : m[k]? with
  | none => rfl
  | some t =>
    have := sep.apart stored found above
    omega

include starts

/-- Every other range survives a cut: no remainder lands on its key. -/
theorem cutOut_keeps {k : Nat} {t : σ} (old : m[k]? = some t) (different : k ≠ base s) :
    (cutOut m s a e)[k]? = some t := by
  have notEnd : e < base s + size s → k ≠ e := by
    rintro right rfl
    simp [not_stored_inside sep stored starts right] at old
  unfold cutOut
  by_cases right : e < base s + size s <;> by_cases left : base s < a <;>
    simp [right, left, Ne.symm different, old]
  all_goals exact fun same => absurd same.symm (notEnd right)

include reaches

theorem Separated.cutOut (ordered : a ≤ e) : Separated (RangeMap.cutOut m s a e) := by
  have erased : Separated (m.erase (base s)) := sep.erase _
  have room : ∀ {k : Nat} {t : σ}, (m.erase (base s))[k]? = some t →
      k + size t ≤ base s ∨ base s + size s ≤ k := by
    intro k t h
    rw [getElem?_erase] at h
    split at h
    · cases h
    · next different =>
        rcases Nat.lt_or_gt_of_ne different with above | below
        · exact .inr (sep.apart stored h above)
        · exact .inl (sep.apart h stored below)
  have left : Separated (if base s < a then
      (m.erase (base s)).insert (base s) (withRange s (base s) (a - base s))
      else m.erase (base s)) := by
    split
    · apply erased.insert (base_withRange ..)
      intro k t h _
      rw [size_withRange]
      have := room h
      omega
    · exact erased
  unfold RangeMap.cutOut
  simp only
  split
  · apply left.insert (base_withRange ..)
    intro k t h _
    rw [size_withRange]
    split at h
    · rw [getElem?_insert] at h
      split at h
      · cases h
        rw [size_withRange]
        omega
      · have := room h
        omega
    · have := room h
      omega
  · exact left

theorem spans_cutOut {x n : Nat} {b : α} (nonempty : 0 < n) (ordered : a ≤ e) :
    Spans (RangeMap.cutOut m s a e) x n b ↔
      Spans m x n b ∧ ¬ (SpansRange s x n ∧ a < x + n ∧ x < e) := by
  have separated := sep.cutOut stored starts reaches ordered
  constructor
  · rintro ⟨k, t, found, spans, rfl⟩
    rcases cutOut_cases found with ⟨different, old⟩ | ⟨rfl, some_left, rfl⟩ | ⟨rfl, some_right, rfl⟩
    · exact ⟨⟨k, t, old, spans, rfl⟩, fun inside =>
        different (sep.unique old stored (spans.covers nonempty) (inside.1.covers nonempty))⟩
    · simp only [SpansRange, base_withRange, size_withRange] at spans
      refine ⟨⟨base s, s, stored, ⟨by omega, by omega⟩, by simp⟩, ?_⟩
      unfold SpansRange
      omega
    · simp only [SpansRange, base_withRange, size_withRange] at spans
      refine ⟨⟨base s, s, stored, ⟨by omega, by omega⟩, by simp⟩, ?_⟩
      unfold SpansRange
      omega
  · rintro ⟨⟨k, t, old, spans, rfl⟩, outside⟩
    by_cases same : k = base s
    · subst same
      rw [stored] at old
      cases old
      have sides : x + n ≤ a ∨ e ≤ x := by
        by_contra inside
        exact outside ⟨spans, by omega, by omega⟩
      unfold SpansRange at spans
      rcases sides with before | after
      · refine ⟨_, _, cutOut_left (by omega) ordered, ?_, attr_withRange ..⟩
        simp only [SpansRange, base_withRange, size_withRange]
        omega
      · refine ⟨_, _, cutOut_right (by omega), ?_, attr_withRange ..⟩
        simp only [SpansRange, base_withRange, size_withRange]
        omega
    · exact ⟨k, t, cutOut_keeps sep stored starts old same, spans, rfl⟩

theorem has_cutOut {x : Nat} {b : α} (ordered : a ≤ e) :
    Has (RangeMap.cutOut m s a e) x b ↔ Has m x b ∧ ¬ (Covers s x ∧ a ≤ x ∧ x < e) := by
  rw [has_iff_spans, has_iff_spans, spans_cutOut sep stored starts reaches (by omega) ordered]
  exact and_congr_right fun _ => not_congr (and_congr_right fun _ => by omega)

omit sep stored starts reaches in
theorem Positive.cutOut (positive : Positive m) : Positive (RangeMap.cutOut m s a e) := by
  intro k t found
  rcases cutOut_cases found with ⟨-, old⟩ | ⟨-, nonempty, rfl⟩ | ⟨-, nonempty, rfl⟩
  · exact positive old
  · rw [size_withRange]
    omega
  · rw [size_withRange]
    omega

omit sep starts in
theorem Within.cutOut {limit : Nat} (within : Within m limit) :
    Within (RangeMap.cutOut m s a e) limit := by
  intro k t found
  have whole := within stored
  rcases cutOut_cases found with ⟨-, old⟩ | ⟨rfl, nonempty, rfl⟩ | ⟨rfl, nonempty, rfl⟩
  · exact within old
  · rw [size_withRange]
    omega
  · rw [size_withRange]
    omega

end Cut

theorem spans_insert {m : Map σ} {k x n : Nat} {s : σ} {b : α} (absent : m[k]? = none) :
    Spans (m.insert k s) x n b ↔ (SpansRange s x n ∧ attr s = b) ∨ Spans m x n b := by
  constructor
  · rintro ⟨k', t, stored, spans, rfl⟩
    rw [getElem?_insert] at stored
    split at stored
    · cases stored
      exact .inl ⟨spans, rfl⟩
    · exact .inr ⟨k', t, stored, spans, rfl⟩
  · rintro (⟨spans, rfl⟩ | ⟨k', t, stored, spans, rfl⟩)
    · exact ⟨k, s, by simp, spans, rfl⟩
    · refine ⟨k', t, ?_, spans, rfl⟩
      rw [getElem?_insert, if_neg, stored]
      rintro rfl
      simp [absent] at stored

theorem Separated.spans_of_steps {m : Map σ} (sep : Separated m) {x n : Nat} {a : α}
    (first : Has m x a) (steps : ∀ y, x ≤ y → y + 1 < x + (n + 1) → ∃ b : α, Spans m y 2 b) :
    Spans m x (n + 1) a := by
  induction n with
  | zero => exact first
  | succ n ih =>
    obtain ⟨k, s, stored, spans, rfl⟩ := ih fun y above below => steps y above (by omega)
    obtain ⟨_, k', t, stored', spans', rfl⟩ := steps (x + n) (by omega) (by omega)
    obtain rfl := sep.unique stored stored' (x := x + n)
      (by unfold SpansRange at spans; unfold Covers; omega) (spans'.covers (by omega))
    obtain rfl := Option.some.inj (stored.symm.trans stored')
    exact ⟨k, s, stored, ⟨spans.1, by have := spans'.2; omega⟩, rfl⟩

section Fill

variable {m : Map σ} {s : σ} {a e : Nat}

theorem Gap.absent (gap : Gap m a e) (nonempty : a < e) : m[a]? = none := by
  cases found : m[a]? with
  | none => rfl
  | some t =>
    have := gap found
    omega

/-- In a map whose ranges are all nonempty, a range that has no address in
`[a, e)` lies on one side of it. -/
theorem gap_of_positive (sep : Separated m) (positive : Positive m) (nonempty : a < e)
    (clear : ∀ x, a ≤ x → x < e → ∀ b : α, ¬ Has m x b) : Gap m a e := by
  intro k t found
  have keyed := sep.keyed found
  have occupied := positive found
  by_contra meets
  refine clear (max k a) (le_max_right _ _) (by omega) (attr t) ⟨k, t, found, ?_, rfl⟩
  unfold Covers
  omega

variable (sep : Separated m) (gap : Gap m a e) (key : base s = a) (length : a + size s = e)

include sep gap key length

theorem Separated.fill : Separated (m.insert a s) := by
  apply sep.insert key
  intro k t found _
  have := gap found
  omega

theorem attrAt_fill (nonempty : a < e) :
    attrAt (m.insert a s) = overwrite (attrAt m) a e (attr s) := by
  funext x
  have separated := sep.fill gap key length
  have covers : Covers s x ↔ a ≤ x ∧ x < e := by
    unfold Covers
    omega
  unfold overwrite
  split
  · next inside =>
      rw [attrAt_eq_some separated, has_insert (gap.absent nonempty)]
      exact .inl ⟨covers.mpr inside, rfl⟩
  · next outside =>
      apply attrAt_congr separated sep
      intro b
      rw [has_insert (gap.absent nonempty), covers]
      simp [outside]

end Fill

end RangeMap
