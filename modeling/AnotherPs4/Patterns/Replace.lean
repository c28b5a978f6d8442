import Mathlib.Tactic

/-!
# Replacing a pattern in place

A memory is a function from addresses to letters. `Replaces` says that one
memory comes from another by replacing all occurrences of a pattern in a range.
A scan establishes it step by step; two replacements whose letters are foreign
to each other commute.
-/

namespace Patterns

variable {α : Type}

/-- The memory spells the pattern from an address on. -/
def MatchesAt (mem : Nat → α) (pattern : List α) (a : Nat) : Prop :=
  ∀ k (_ : k < pattern.length), mem (a + k) = pattern[k]

instance [DecidableEq α] (mem : Nat → α) (pattern : List α) (a : Nat) :
    Decidable (MatchesAt mem pattern a) :=
  inferInstanceAs (Decidable (∀ k (_ : k < pattern.length), _))

/-- The pattern occurs inside of a range. -/
structure OccursAt (mem : Nat → α) (pattern : List α) (base size a : Nat) : Prop where
  low : base ≤ a
  high : a + pattern.length ≤ base + size
  spelled : MatchesAt mem pattern a

def occurrences [DecidableEq α] (mem : Nat → α) (pattern : List α) (base size : Nat) : Nat :=
  (List.range' base (size + 1 - pattern.length)).countP fun a => MatchesAt mem pattern a

/-- All occurrences in a range are replaced, and nothing else below the bound. -/
structure Replaces (pattern replacement : List α) (base size bound : Nat) (mem mem' : Nat → α) :
    Prop where
  replaced : ∀ a, OccursAt mem pattern base size a →
    ∀ k (_ : k < replacement.length), mem' (a + k) = replacement[k]
  kept : ∀ x < bound, (∀ a, OccursAt mem pattern base size a →
    ¬ (a ≤ x ∧ x < a + pattern.length)) → mem' x = mem x

/-- No letter of one list is in the pattern or in its replacement. -/
def Foreign (letters pattern replacement : List α) : Prop :=
  ∀ c ∈ letters, c ∉ pattern ∧ c ∉ replacement

instance [DecidableEq α] (letters pattern replacement : List α) :
    Decidable (Foreign letters pattern replacement) :=
  inferInstanceAs (Decidable (∀ c ∈ letters, c ∉ pattern ∧ c ∉ replacement))

/-- The first letter of the pattern starts no other place of it. -/
def Unbordered (pattern : List α) : Prop :=
  ∀ k (inside : k < pattern.length), 0 < k → pattern[k] ≠ pattern[0]

/-- A replacement that makes no new occurrences: its letters are new or where
the pattern has them. -/
structure Inert (pattern replacement : List α) : Prop where
  length : replacement.length = pattern.length
  other : replacement ≠ pattern
  letters : ∀ k (inside : k < replacement.length), replacement[k] ∈ pattern →
    replacement[k] = pattern[k]

section Occurrences

variable {mem mem' : Nat → α} {pattern : List α} {base size a : Nat}

theorem Unbordered.not_matchesAt (unbordered : Unbordered pattern)
    (spelled : MatchesAt mem pattern a) {k : Nat} (inside : k < pattern.length) (later : 0 < k) :
    ¬ MatchesAt mem pattern (a + k) := by
  intro again
  have first : mem (a + k) = pattern[0] := again 0 (by omega)
  exact unbordered k inside later ((spelled k inside).symm.trans first)

variable [DecidableEq α]

theorem occurrences_eq_zero (none : ∀ a, ¬ OccursAt mem pattern base size a) :
    occurrences mem pattern base size = 0 := by
  apply List.countP_eq_zero.mpr
  intro a member
  obtain ⟨low, high⟩ := List.mem_range'_1.mp member
  rw [decide_eq_true_eq]
  exact fun spelled => none a ⟨low, by omega, spelled⟩

theorem occurrences_congr (same : ∀ a, base ≤ a → a + pattern.length ≤ base + size →
    (MatchesAt mem' pattern a ↔ MatchesAt mem pattern a)) :
    occurrences mem' pattern base size = occurrences mem pattern base size := by
  apply List.countP_congr
  intro a member
  obtain ⟨low, high⟩ := List.mem_range'_1.mp member
  rw [decide_eq_true_eq, decide_eq_true_eq]
  exact same a low (by omega)

theorem occurrences_short (short : size < pattern.length) :
    occurrences mem pattern base size = 0 :=
  occurrences_eq_zero fun a ⟨low, high, _⟩ => by omega

theorem occurrences_step (nonempty : 0 < size) (fits : pattern.length ≤ size) :
    occurrences mem pattern base size =
      occurrences mem pattern (base + 1) (size - 1) +
        if MatchesAt mem pattern base then 1 else 0 := by
  unfold occurrences
  have count : size + 1 - pattern.length = (size - 1 + 1 - pattern.length) + 1 := by omega
  rw [count, List.range'_succ, List.countP_cons]
  simp only [decide_eq_true_eq]

theorem occurrences_skip (steps : Nat) (inside : steps ≤ size)
    (none : ∀ k < steps, ¬ MatchesAt mem pattern (base + k)) :
    occurrences mem pattern base size =
      occurrences mem pattern (base + steps) (size - steps) := by
  induction steps with
  | zero => rfl
  | succ steps ih =>
    rw [ih (by omega) fun k before => none k (by omega)]
    by_cases fits : pattern.length ≤ size - steps
    · rw [occurrences_step (by omega) fits, if_neg (none steps (by omega)), Nat.add_zero,
        Nat.add_assoc, Nat.sub_sub]
    · rw [occurrences_short (by omega), occurrences_short (by omega)]

end Occurrences

namespace Replaces

variable {pattern replacement : List α} {base size bound : Nat} {mem mem' mem'' : Nat → α}

section Letters

variable (sameLength : replacement.length = pattern.length)
  (replaces : Replaces pattern replacement base size bound mem mem')

include sameLength replaces

theorem at_address {x : Nat} (below : x < bound) :
    (∃ a k, ∃ (inside : k < pattern.length) (inside' : k < replacement.length),
      OccursAt mem pattern base size a ∧ x = a + k ∧ mem x = pattern[k] ∧ mem' x = replacement[k]) ∨
    (∀ a, OccursAt mem pattern base size a → ¬ (a ≤ x ∧ x < a + pattern.length)) ∧
      mem' x = mem x := by
  by_cases covered : ∃ a, OccursAt mem pattern base size a ∧ a ≤ x ∧ x < a + pattern.length
  · obtain ⟨a, occurs, low, high⟩ := covered
    obtain ⟨k, rfl⟩ := Nat.exists_eq_add_of_le low
    have inside : k < pattern.length := by omega
    have inside' : k < replacement.length := by omega
    exact .inl ⟨a, k, inside, inside', occurs, rfl, occurs.spelled k inside,
      replaces.replaced a occurs k inside'⟩
  · have outside := fun a occurs between => covered ⟨a, occurs, between⟩
    exact .inr ⟨outside, replaces.kept x below outside⟩

/-- A letter that is foreign to the replacement stays where it is. -/
theorem letter_iff {c : α} (foreign : c ∉ pattern ∧ c ∉ replacement) {x : Nat} (below : x < bound) :
    mem' x = c ↔ mem x = c := by
  rcases replaces.at_address sameLength below with
    ⟨a, k, inside, inside', -, -, before, after⟩ | ⟨-, same⟩
  · rw [before, after]
    exact iff_of_false (fun same => foreign.2 (same ▸ List.getElem_mem _))
      fun same => foreign.1 (same ▸ List.getElem_mem _)
  · rw [same]

theorem matchesAt_iff {other : List α} (foreign : Foreign other pattern replacement) {a : Nat}
    (below : a + other.length ≤ bound) :
    MatchesAt mem' other a ↔ MatchesAt mem other a :=
  forall₂_congr fun k inside => replaces.letter_iff sameLength (foreign _ (List.getElem_mem inside))
    (by omega)

theorem occursAt_iff {other : List α} (foreign : Foreign other pattern replacement)
    (bounded : base + size ≤ bound) {a : Nat} :
    OccursAt mem' other base size a ↔ OccursAt mem other base size a :=
  ⟨fun ⟨low, high, spelled⟩ => ⟨low, high,
      (replaces.matchesAt_iff sameLength foreign (high.trans bounded)).mp spelled⟩,
    fun ⟨low, high, spelled⟩ => ⟨low, high,
      (replaces.matchesAt_iff sameLength foreign (high.trans bounded)).mpr spelled⟩⟩

end Letters

theorem kept_of_none (replaces : Replaces pattern replacement base size bound mem mem')
    (none : ∀ a, ¬ OccursAt mem pattern base size a) {x : Nat} (below : x < bound) :
    mem' x = mem x :=
  replaces.kept x below fun a occurs => absurd occurs (none a)

theorem none_left (inert : Inert pattern replacement)
    (replaces : Replaces pattern replacement base size bound mem mem')
    (bounded : base + size ≤ bound) (a : Nat) : ¬ OccursAt mem' pattern base size a := by
  rintro ⟨low, high, spelled⟩
  have before : OccursAt mem pattern base size a := by
    refine ⟨low, high, fun k inside => ?_⟩
    have letter := spelled k inside
    rcases replaces.at_address inert.length (x := a + k) (by omega) with
      ⟨b, j, inside, inside', -, -, before, after⟩ | ⟨-, same⟩
    · have kept := inert.letters j inside' (after ▸ letter ▸ List.getElem_mem _)
      rw [before, ← letter, after, kept]
    · rw [← same, letter]
  refine inert.other (List.ext_getElem inert.length fun k inside inside' => ?_)
  rw [← replaces.replaced a before k inside, spelled k inside']

theorem short (small : size < pattern.length) :
    Replaces pattern replacement base size bound mem mem where
  replaced a := fun ⟨low, high, _⟩ => by omega
  kept _ _ _ := rfl

theorem skip (nonempty : 0 < size) (other : ¬ MatchesAt mem pattern base)
    (rest : Replaces pattern replacement (base + 1) (size - 1) bound mem mem') :
    Replaces pattern replacement base size bound mem mem' := by
  have occurs_iff : ∀ a, OccursAt mem pattern base size a ↔
      OccursAt mem pattern (base + 1) (size - 1) a := by
    refine fun a => ⟨fun ⟨low, high, spelled⟩ => ⟨?_, by omega, spelled⟩,
      fun ⟨low, high, spelled⟩ => ⟨by omega, by omega, spelled⟩⟩
    rcases Nat.eq_or_lt_of_le low with rfl | later
    · exact absurd spelled other
    · exact later
  refine ⟨fun a occurs => rest.replaced a ((occurs_iff a).mp occurs), fun x below outside => ?_⟩
  exact rest.kept x below fun a occurs => outside a ((occurs_iff a).mpr occurs)

section Step

variable {middle : Nat → α} (unbordered : Unbordered pattern)
  (spelled : MatchesAt mem pattern base) (fits : pattern.length ≤ size)
  (bounded : base + size ≤ bound)
  (frame : ∀ x < bound, ¬ (base ≤ x ∧ x < base + pattern.length) → middle x = mem x)

include bounded frame

theorem matchesAt_middle {a : Nat} (behind : base + pattern.length ≤ a)
    (inside : a + pattern.length ≤ base + size) :
    MatchesAt middle pattern a ↔ MatchesAt mem pattern a :=
  forall₂_congr fun k bound => by rw [frame (a + k) (by omega) (by omega)]

include unbordered spelled fits

theorem step (sameLength : replacement.length = pattern.length)
    (written : ∀ k (_ : k < replacement.length), middle (base + k) = replacement[k])
    (rest : Replaces pattern replacement (base + pattern.length) (size - pattern.length) bound
      middle mem') :
    Replaces pattern replacement base size bound mem mem' := by
  constructor
  · intro a ⟨low, high, again⟩ k inside
    rcases Nat.eq_or_lt_of_le low with rfl | later
    · rw [← written k inside]
      exact rest.kept _ (by omega) fun b ⟨behind, _, _⟩ => by omega
    · have behind : base + pattern.length ≤ a := by
        by_contra within
        obtain ⟨k, rfl⟩ := Nat.exists_eq_add_of_lt later
        exact unbordered.not_matchesAt (k := k + 1) spelled (by omega) (by omega) again
      exact rest.replaced a ⟨behind, by omega,
        (matchesAt_middle bounded frame behind high).mpr again⟩ k inside
  · intro x below outside
    have first := outside base ⟨le_rfl, by omega, spelled⟩
    rw [← frame x below first]
    refine rest.kept x below fun a ⟨behind, high, again⟩ => outside a ⟨by omega, by omega, ?_⟩
    exact (matchesAt_middle bounded frame behind (by omega)).mp again

theorem occurrences_eq [DecidableEq α] (nonempty : 0 < pattern.length) :
    occurrences mem pattern base size =
      occurrences middle pattern (base + pattern.length) (size - pattern.length) + 1 := by
  have within : ∀ k < pattern.length - 1, ¬ MatchesAt mem pattern (base + 1 + k) := by
    intro k inside
    rw [Nat.add_assoc]
    exact unbordered.not_matchesAt spelled (by omega) (by omega)
  rw [occurrences_step (by omega) fits, if_pos spelled,
    occurrences_skip (pattern.length - 1) (by omega) within]
  have start : base + 1 + (pattern.length - 1) = base + pattern.length := by omega
  have left : size - 1 - (pattern.length - 1) = size - pattern.length := by omega
  rw [start, left]
  exact congrArg (· + 1) (occurrences_congr fun a behind high =>
    (matchesAt_middle bounded frame behind (by omega)).symm)

end Step

section Commute

variable {pattern' replacement' : List α} {both both' : Nat → α}
  (sameLength : replacement.length = pattern.length)
  (sameLength' : replacement'.length = pattern'.length)
  (foreign : Foreign pattern' pattern replacement)
  (foreign' : Foreign pattern pattern' replacement')
  (bounded : base + size ≤ bound)

include sameLength sameLength' foreign foreign' bounded

/-- Two replacements with letters of their own can be made in either order. -/
theorem commute (first : Replaces pattern replacement base size bound mem mem')
    (second : Replaces pattern' replacement' base size bound mem' both)
    (first' : Replaces pattern' replacement' base size bound mem mem'')
    (second' : Replaces pattern replacement base size bound mem'' both') {x : Nat}
    (below : x < bound) : both x = both' x := by
  have occurs := fun a => first.occursAt_iff sameLength foreign bounded (a := a)
  have occurs' := fun a => first'.occursAt_iff sameLength' foreign' bounded (a := a)
  rcases first.at_address sameLength below with
    ⟨a, k, inside, inside', here, rfl, before, after⟩ | ⟨outside, same⟩
  · -- in an occurrence of the first pattern, so in none of the second
    have apart : ∀ b, OccursAt mem pattern' base size b → ¬ (b ≤ a + k ∧ a + k < b + pattern'.length) := by
      rintro b there ⟨low, high⟩
      obtain ⟨j, place⟩ := Nat.exists_eq_add_of_le low
      have letter := there.spelled j (by omega)
      rw [← place, before] at letter
      exact (foreign' _ (List.getElem_mem inside)).1 (letter ▸ List.getElem_mem _)
    rw [second.kept _ below fun b there => apart b ((occurs b).mp there), after,
      second'.replaced a ((occurs' a).mpr here) k inside']
  · rw [second'.kept x below fun a there => outside a ((occurs' a).mp there)]
    rcases first'.at_address sameLength' below with
      ⟨a, k, inside, inside', here, rfl, -, after⟩ | ⟨outside', same'⟩
    · rw [after, second.replaced a ((occurs a).mpr here) k inside']
    · rw [second.kept x below fun a there => outside' a ((occurs a).mp there), same, same']

end Commute

end Replaces

end Patterns
