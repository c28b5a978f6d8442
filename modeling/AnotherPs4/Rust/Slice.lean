import AnotherPs4.Rust.Outcome

/-!
# Slices

Checked indexing of contiguous data. `&xs[start..stop]` panics unless
`start ≤ stop ≤ xs.len()`.
-/

namespace Rust

variable {ε α : Type}

def slice (xs : List α) (start stop : Nat) : Outcome ε (List α) :=
  if start ≤ stop ∧ stop ≤ xs.length then .ok ((xs.take stop).drop start)
  else .panic .sliceRange

theorem slice_of_le {xs : List α} {start stop : Nat} (ordered : start ≤ stop)
    (within : stop ≤ xs.length) :
    (slice xs start stop : Outcome ε _) = .ok ((xs.take stop).drop start) :=
  if_pos ⟨ordered, within⟩

theorem slice_eq_ok {xs ys : List α} {start stop : Nat} :
    (slice xs start stop : Outcome ε _) = .ok ys ↔
      (start ≤ stop ∧ stop ≤ xs.length) ∧ ys = (xs.take stop).drop start := by
  unfold slice
  split <;> simp_all [eq_comm]

theorem slice_bind_returns {β : Type} {xs : List α} {start : Nat} {f : List α → Outcome ε β} :
    (slice xs start xs.length >>= f).Returns ↔ start ≤ xs.length ∧ (f (xs.drop start)).Returns := by
  rw [Outcome.returns_bind]
  constructor
  · rintro ⟨ys, sliced, returned⟩
    obtain ⟨⟨ordered, -⟩, rfl⟩ := slice_eq_ok.mp sliced
    rw [List.take_length] at returned
    exact ⟨ordered, returned⟩
  · rintro ⟨ordered, returned⟩
    exact ⟨_, slice_of_le ordered le_rfl, by rwa [List.take_length]⟩

theorem slice_append (before middle after : List α) :
    (slice (before ++ (middle ++ after)) before.length (before.length + middle.length) :
      Outcome ε _) = .ok middle := by
  rw [slice_of_le (by omega) (by simp)]
  simp [List.take_append]

theorem slice_append_right (before xs : List α) (start stop : Nat) :
    (slice (before ++ xs) (before.length + start) (before.length + stop) : Outcome ε _) =
      slice xs start stop := by
  have passed : before.drop (before.length + start) = [] := List.drop_eq_nil_of_le (by omega)
  simp [slice, List.take_append, List.drop_append, List.take_of_length_le, passed]

end Rust
