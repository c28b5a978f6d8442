import Mathlib.Tactic

/-!
# Outcomes of Rust code

A call returns a value, returns an error to its caller, or does not come back:
it unwinds with a panic, or ends the process. Arithmetic and raw pointers
depend on the build profile: a `dev` build panics on overflow and aborts at a
misaligned pointer, a `release` build wraps and lets the processor decide.
Overflow checks only ever turn a result into a panic, which `Checked` records
for whole programs.
-/

namespace Rust

/-- Why a call does not come back: a panic, a check of the build on a raw pointer that
aborts, or a signal that ends the process. -/
inductive Panic where
  | overflow
  | sliceRange
  | indexBounds
  | missingKey
  | unwrapNone
  | misaligned
  | overlapping
  | sliceTooLong
  | fault
  deriving DecidableEq, Repr

inductive Outcome (ε α : Type) where
  | ok (value : α)
  | err (error : ε)
  | panic (cause : Panic)
  deriving DecidableEq, Repr

namespace Outcome

variable {ε α β : Type}

def bind (x : Outcome ε α) (f : α → Outcome ε β) : Outcome ε β :=
  match x with
  | ok value => f value
  | err error => err error
  | panic cause => panic cause

instance : Monad (Outcome ε) where
  pure := ok
  bind := bind

@[simp] theorem pure_eq_ok (a : α) : (pure a : Outcome ε α) = ok a := rfl

@[simp] theorem ok_bind (a : α) (f : α → Outcome ε β) : (ok a >>= f) = f a := rfl

@[simp] theorem err_bind (e : ε) (f : α → Outcome ε β) : (err e >>= f) = err e := rfl

@[simp] theorem panic_bind (cause : Panic) (f : α → Outcome ε β) :
    (panic cause >>= f) = panic cause := rfl

instance : LawfulMonad (Outcome ε) :=
  LawfulMonad.mk' _ (by intro _ x; cases x <;> rfl) (by intros; rfl)
    (by intro _ _ _ x _ _; cases x <;> rfl)

@[simp] theorem map_ok (f : α → β) (a : α) : f <$> (ok a : Outcome ε α) = ok (f a) := rfl

@[simp] theorem map_err (f : α → β) (e : ε) : f <$> (err e : Outcome ε α) = err e := rfl

@[simp] theorem map_panic (f : α → β) (cause : Panic) :
    f <$> (panic cause : Outcome ε α) = panic cause := rfl

theorem bind_eq_ok {x : Outcome ε α} {f : α → Outcome ε β} {b : β} :
    (x >>= f) = ok b ↔ ∃ a, x = ok a ∧ f a = ok b := by
  cases x <;> simp

theorem map_eq_ok {x : Outcome ε α} {f : α → β} {b : β} :
    f <$> x = ok b ↔ ∃ a, x = ok a ∧ f a = b := by
  cases x <;> simp

/-- The call does not come back. -/
def Panics : Outcome ε α → Prop
  | panic _ => True
  | _ => False

instance : DecidablePred (Panics (ε := ε) (α := α))
  | ok _ => inferInstanceAs (Decidable False)
  | err _ => inferInstanceAs (Decidable False)
  | panic _ => inferInstanceAs (Decidable True)

@[simp] theorem not_panics_ok (a : α) : ¬ (ok a : Outcome ε α).Panics := id

@[simp] theorem not_panics_err (e : ε) : ¬ (err e : Outcome ε α).Panics := id

@[simp] theorem panics_panic (cause : Panic) : (panic cause : Outcome ε α).Panics := trivial

theorem panics_iff {x : Outcome ε α} : x.Panics ↔ ∃ cause, x = panic cause := by
  cases x <;> simp

theorem panics_bind {x : Outcome ε α} {f : α → Outcome ε β} :
    (x >>= f).Panics ↔ x.Panics ∨ ∃ a, x = ok a ∧ (f a).Panics := by
  cases x <;> simp

/-- A call without errors of its own, inside one that has some. -/
def widen : Outcome Empty α → Outcome ε α
  | ok a => ok a
  | err e => e.elim
  | panic cause => panic cause

@[simp] theorem widen_eq_ok {x : Outcome Empty α} {a : α} :
    (x.widen : Outcome ε α) = ok a ↔ x = ok a := by
  cases x with
  | ok b => simp [widen]
  | err e => exact e.elim
  | panic cause => simp [widen]

def Returns (x : Outcome ε α) : Prop := ∃ a, x = ok a

@[simp] theorem returns_ok (a : α) : (ok a : Outcome ε α).Returns := ⟨a, rfl⟩

@[simp] theorem not_returns_panic (cause : Panic) : ¬ (panic cause : Outcome ε α).Returns := by
  simp [Returns]

def value? : Outcome ε α → Option α
  | ok a => some a
  | err _ => none
  | panic _ => none

theorem value?_eq_none {x : Outcome ε α} (stops : ¬ x.Returns) : x.value? = none := by
  cases x with
  | ok a => exact absurd (returns_ok a) stops
  | err e => rfl
  | panic cause => rfl

theorem not_panics_widen {x : Outcome Empty α} :
    ¬ (x.widen : Outcome ε α).Panics ↔ x.Returns := by
  cases x with
  | ok a => exact iff_of_true id (returns_ok a)
  | err e => exact e.elim
  | panic cause => exact iff_of_false (fun not => not trivial) (not_returns_panic cause)

theorem returns_bind {x : Outcome ε α} {f : α → Outcome ε β} :
    (x >>= f).Returns ↔ ∃ a, x = ok a ∧ (f a).Returns := by
  cases x <;> simp [Returns]

theorem returns_bind_iff {x : Outcome ε α} {f : α → Outcome ε β} {rest : Prop}
    (same : ∀ a, (f a).Returns ↔ rest) : (x >>= f).Returns ↔ x.Returns ∧ rest := by
  rw [returns_bind]
  exact ⟨fun ⟨a, first, later⟩ => ⟨⟨a, first⟩, (same a).mp later⟩,
    fun ⟨⟨a, first⟩, later⟩ => ⟨a, first, (same a).mpr later⟩⟩

theorem returns_bind_of_forall {x : Outcome ε α} {f : α → Outcome ε β}
    (rest : ∀ a, (f a).Returns) : (x >>= f).Returns ↔ x.Returns := by
  rw [returns_bind]
  exact exists_congr fun a => and_iff_left (rest a)

end Outcome

inductive Profile where
  | dev
  | release
  deriving DecidableEq, Repr

namespace Profile

variable {ε : Type}

/-- The `width`-bit result of an operation whose exact value is `exact`. -/
def fit (p : Profile) (width exact : Nat) : Outcome ε Nat :=
  if exact < 2 ^ width then .ok exact
  else match p with
    | dev => .panic .overflow
    | release => .ok (exact % 2 ^ width)

def add (p : Profile) (width a b : Nat) : Outcome ε Nat := p.fit width (a + b)

def mul (p : Profile) (width a b : Nat) : Outcome ε Nat := p.fit width (a * b)

def sub (p : Profile) (width a b : Nat) : Outcome ε Nat :=
  if b ≤ a then .ok (a - b)
  else match p with
    | dev => .panic .overflow
    | release => .ok ((a + 2 ^ width - b) % 2 ^ width)

/-- What a check of raw pointers leaves of a call, which only a `dev` build makes. -/
def debugCheck (p : Profile) (cause : Panic) (valid : Bool) : Outcome ε Unit :=
  if p = dev ∧ valid = false then .panic cause else .ok ()

theorem debugCheck_returns {p : Profile} {cause : Panic} {valid : Bool} :
    (p.debugCheck cause valid : Outcome ε Unit).Returns ↔ (p = dev → valid = true) := by
  unfold debugCheck
  cases p <;> cases valid <;> simp

theorem debugCheck_of_valid {p : Profile} {cause : Panic} {valid : Bool} (holds : valid = true) :
    (p.debugCheck cause valid : Outcome ε Unit) = .ok () := by
  rw [debugCheck, if_neg (by simp [holds])]

@[simp] theorem fit_of_lt {p : Profile} {width exact : Nat} (h : exact < 2 ^ width) :
    (p.fit width exact : Outcome ε Nat) = .ok exact := by simp [fit, h]

theorem add_of_lt {p : Profile} {width a b : Nat} (h : a + b < 2 ^ width) :
    (p.add width a b : Outcome ε Nat) = .ok (a + b) := fit_of_lt h

theorem add_dev (width a b : Nat) : (dev.add width a b : Outcome ε Nat) =
    if a + b < 2 ^ width then .ok (a + b) else .panic .overflow := rfl

theorem sub_of_le {p : Profile} {width a b : Nat} (h : b ≤ a) :
    (p.sub width a b : Outcome ε Nat) = .ok (a - b) := by simp [sub, h]

theorem add_release (width a b : Nat) :
    (release.add width a b : Outcome ε Nat) = .ok ((a + b) % 2 ^ width) := by
  unfold add fit
  split
  · next h => rw [Nat.mod_eq_of_lt h]
  · rfl

theorem sub_release {width a b : Nat} (ha : a < 2 ^ width) :
    (release.sub width a b : Outcome ε Nat) = .ok ((a + 2 ^ width - b) % 2 ^ width) := by
  unfold sub
  split
  · next h =>
    have shifted : a + 2 ^ width - b = (a - b) + 2 ^ width := by omega
    rw [shifted, Nat.add_mod_right, Nat.mod_eq_of_lt (by omega)]
  · rfl

theorem add_eq_ok_dev {width a b c : Nat} :
    (dev.add width a b : Outcome ε Nat) = .ok c ↔ a + b < 2 ^ width ∧ c = a + b := by
  unfold add fit
  split <;> simp_all [eq_comm]

theorem add_eq_ok {p : Profile} {width a b c : Nat}
    (returned : (p.add width a b : Outcome ε Nat) = .ok c) : c = (a + b) % 2 ^ width := by
  unfold add fit at returned
  split at returned
  · next small =>
      cases returned
      exact (Nat.mod_eq_of_lt small).symm
  · cases p <;> cases returned
    rfl

theorem sub_eq_ok {p : Profile} {width a b c : Nat} (word : a < 2 ^ width)
    (returned : (p.sub width a b : Outcome ε Nat) = .ok c) : c = (a + 2 ^ width - b) % 2 ^ width := by
  unfold sub at returned
  split at returned
  · next below =>
    cases returned
    have shifted : a + 2 ^ width - b = (a - b) + 2 ^ width := by omega
    rw [shifted, Nat.add_mod_right, Nat.mod_eq_of_lt (by omega)]
  · cases p <;> cases returned
    rfl

theorem add_returns {p : Profile} {width a b : Nat} :
    (p.add width a b : Outcome ε Nat).Returns ↔ (p = dev → a + b < 2 ^ width) := by
  cases p with
  | release => simp [add_release]
  | dev =>
    rw [add_dev]
    by_cases fits : a + b < 2 ^ width <;> simp [fits]

def SumFits (p : Profile) (a b : Nat) : Prop := p = dev → a + b < 2 ^ 64

theorem add_eq_ok_iff {p : Profile} {a b c : Nat} :
    (p.add 64 a b : Outcome ε Nat) = .ok c ↔ p.SumFits a b ∧ c = (a + b) % 2 ^ 64 := by
  rw [SumFits, ← add_returns (ε := ε)]
  constructor
  · intro added
    exact ⟨⟨c, added⟩, add_eq_ok added⟩
  · rintro ⟨⟨d, added⟩, rfl⟩
    rw [added, add_eq_ok added]

theorem add_bind_returns {β : Type} {p : Profile} {a b : Nat} {f : Nat → Outcome ε β} :
    (p.add 64 a b >>= f).Returns ↔ p.SumFits a b ∧ (f ((a + b) % 2 ^ 64)).Returns := by
  rw [Outcome.returns_bind, SumFits, ← add_returns (ε := ε)]
  constructor
  · rintro ⟨c, added, returned⟩
    exact ⟨⟨c, added⟩, add_eq_ok added ▸ returned⟩
  · rintro ⟨⟨c, added⟩, returned⟩
    exact ⟨c, added, (add_eq_ok added).symm ▸ returned⟩

end Profile

namespace Outcome

variable {ε α β : Type}

/-- A component that every step of a loop updates alike is a fold of its own. -/
theorem foldlM_component {σ γ : Type} {f : σ → β → Outcome ε σ} {g : σ → γ} {h : γ → β → γ}
    (step : ∀ {s x s'}, f s x = ok s' → g s' = h (g s) x) {xs : List β} {s s' : σ}
    (run : xs.foldlM f s = ok s') : g s' = xs.foldl h (g s) := by
  induction xs generalizing s with
  | nil =>
    cases run
    rfl
  | cons x xs ih =>
    rw [List.foldlM_cons, bind_eq_ok] at run
    obtain ⟨middle, first, rest⟩ := run
    rw [List.foldl_cons, ← step first]
    exact ih rest

theorem foldlM_step {σ : Type} {f : σ → β → Outcome ε σ} {xs : List β} {s s' : σ} {x : β}
    (run : xs.foldlM f s = ok s') (member : x ∈ xs) : ∃ t t', f t x = ok t' := by
  induction xs generalizing s with
  | nil => cases member
  | cons first rest ih =>
    rw [List.foldlM_cons, bind_eq_ok] at run
    obtain ⟨middle, stepped, later⟩ := run
    rcases List.mem_cons.mp member with rfl | member
    · exact ⟨s, middle, stepped⟩
    · exact ih later member

theorem foldlM_returns {σ : Type} {f : σ → β → Outcome ε σ} {returns : β → Prop} {xs : List β}
    (each : ∀ s, ∀ x ∈ xs, (f s x).Returns ↔ returns x) (s : σ) :
    (xs.foldlM f s).Returns ↔ ∀ x ∈ xs, returns x := by
  induction xs generalizing s with
  | nil => exact iff_of_true (returns_ok _) nofun
  | cons x xs ih =>
    have rest := ih fun s x member => each s x (List.mem_cons_of_mem _ member)
    rw [List.foldlM_cons, returns_bind, List.forall_mem_cons, ← each s x (by simp)]
    constructor
    · rintro ⟨middle, first, later⟩
      exact ⟨⟨middle, first⟩, (rest middle).mp later⟩
    · rintro ⟨⟨middle, first⟩, later⟩
      exact ⟨middle, first, (rest middle).mpr later⟩

/-- `checked` is the run with overflow checks of the program whose wrapping run
is `wrapped`: they agree unless the checks stopped the first one. -/
def Checked (checked wrapped : Outcome ε α) : Prop :=
  checked = wrapped ∨ checked = panic .overflow

theorem Checked.refl (x : Outcome ε α) : Checked x x := .inl rfl

theorem Checked.bind {x y : Outcome ε α} {f g : α → Outcome ε β}
    (outer : Checked x y) (inner : ∀ a, Checked (f a) (g a)) :
    Checked (x >>= f) (y >>= g) := by
  rcases outer with rfl | rfl
  · cases x with
    | ok a => exact inner a
    | err e => exact .refl _
    | panic cause => exact .refl _
  · exact .inr rfl

theorem Checked.eq_of_ne {x y : Outcome ε α} (h : Checked x y)
    (quiet : x ≠ panic .overflow) : x = y :=
  h.resolve_right quiet

theorem checked_fit (width exact : Nat) :
    Checked (ε := ε) (Profile.dev.fit width exact) (Profile.release.fit width exact) := by
  unfold Profile.fit
  split
  · exact .refl _
  · exact .inr rfl

theorem checked_add (width a b : Nat) :
    Checked (ε := ε) (Profile.dev.add width a b) (Profile.release.add width a b) :=
  checked_fit width (a + b)

theorem checked_sub (width a b : Nat) :
    Checked (ε := ε) (Profile.dev.sub width a b) (Profile.release.sub width a b) := by
  unfold Profile.sub
  split
  · exact .refl _
  · exact .inr rfl

/-- `x` returns if `fits` holds, and stops at an overflow check if not. -/
def StopsUnless (fits : Prop) (x : Outcome ε α) : Prop :=
  (fits ∧ ∃ a, x = ok a) ∨ (¬ fits ∧ x = panic .overflow)

namespace StopsUnless

variable {P Q : Prop} {x : Outcome ε α} {f : α → Outcome ε β}

theorem panics_iff (stops : StopsUnless P x) : x.Panics ↔ ¬ P := by
  rcases stops with ⟨fits, a, rfl⟩ | ⟨wraps, rfl⟩
  · exact iff_of_false id (not_not.mpr fits)
  · exact iff_of_true trivial wraps

theorem ok (a : α) : StopsUnless True (.ok a : Outcome ε α) := .inl ⟨trivial, a, rfl⟩

theorem bind (first : StopsUnless P x) (next : ∀ a, x = .ok a → StopsUnless Q (f a)) :
    StopsUnless (P ∧ Q) (x >>= f) := by
  rcases first with ⟨fits, a, rfl⟩ | ⟨wraps, rfl⟩
  · exact (next a rfl).imp (fun ⟨fitsNext, returned⟩ => ⟨⟨fits, fitsNext⟩, returned⟩)
      fun ⟨wraps, stopped⟩ => ⟨fun both => wraps both.2, stopped⟩
  · exact .inr ⟨fun both => wraps both.1, rfl⟩

theorem congr (stops : StopsUnless P x) (same : P ↔ Q) : StopsUnless Q x := by
  rwa [← propext same]

end StopsUnless

theorem add_stopsUnless (width a b : Nat) :
    StopsUnless (ε := ε) (a + b < 2 ^ width) (Profile.dev.add width a b) := by
  rw [Profile.add_dev]
  by_cases fits : a + b < 2 ^ width
  · exact .inl ⟨fits, _, if_pos fits⟩
  · exact .inr ⟨fits, if_neg fits⟩

end Outcome

end Rust
