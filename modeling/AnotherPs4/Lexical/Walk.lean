import Mathlib.Tactic

/-!
# Lexical walks

A place is where a path leads by its names alone: a number of steps up from
where the path starts, then names down. A walk over components moves a place.
A relative walk is a climb and a descent, and it is applied to any place by
climbing and descending there.
-/

namespace Lexical

variable {α : Type}

inductive Component (α : Type) where
  | parent
  | name (name : α)
  deriving DecidableEq, Repr

/-- Above the root there is nothing, so a rooted place has no steps up. -/
structure Place (α : Type) where
  rooted : Bool
  ups : Nat
  names : List α
  rooted_ups : rooted = true → ups = 0
  deriving DecidableEq

namespace Place

theorem ext_fields {p q : Place α} (rooted : p.rooted = q.rooted) (ups : p.ups = q.ups)
    (names : p.names = q.names) : p = q := by
  cases p
  cases q
  subst rooted ups names
  rfl

/-- The root, or the place a relative path starts from. -/
def origin (rooted : Bool) : Place α := ⟨rooted, 0, [], fun _ => rfl⟩

/-- Drop the last `levels` names, then step up where there is an up. -/
def climb (p : Place α) (levels : Nat) : Place α where
  rooted := p.rooted
  ups := if p.rooted then 0 else p.ups + (levels - p.names.length)
  names := p.names.take (p.names.length - levels)
  rooted_ups rooted := if_pos rooted

def descend (p : Place α) (names : List α) : Place α := { p with names := p.names ++ names }

def step (p : Place α) : Component α → Place α
  | .parent => p.climb 1
  | .name name => p.descend [name]

def walk (p : Place α) (components : List (Component α)) : Place α :=
  components.foldl step p

/-- The place lies at or under another one. -/
structure Below (p base : Place α) : Prop where
  rooted : p.rooted = base.rooted
  ups : p.ups = base.ups
  names : base.names <+: p.names

instance [DecidableEq α] (p base : Place α) : Decidable (p.Below base) :=
  decidable_of_iff (p.rooted = base.rooted ∧ p.ups = base.ups ∧ base.names <+: p.names)
    ⟨fun ⟨rooted, ups, names⟩ => ⟨rooted, ups, names⟩,
      fun ⟨rooted, ups, names⟩ => ⟨rooted, ups, names⟩⟩

theorem Below.refl (p : Place α) : p.Below p := ⟨rfl, rfl, List.prefix_rfl⟩

theorem Below.trans {p q r : Place α} (pq : p.Below q) (qr : q.Below r) : p.Below r :=
  ⟨pq.rooted.trans qr.rooted, pq.ups.trans qr.ups, qr.names.trans pq.names⟩

section Moves

variable (p : Place α)

theorem ups_eq_zero (rooted : p.rooted = true) : p.ups = 0 := p.rooted_ups rooted

@[simp] theorem climb_zero : p.climb 0 = p := by
  refine ext_fields rfl ?_ (by simp [climb])
  cases rooted : p.rooted with
  | true => simp [climb, rooted, p.ups_eq_zero rooted]
  | false => simp [climb, rooted]

@[simp] theorem descend_nil : p.descend [] = p := ext_fields rfl rfl (by simp [descend])

theorem descend_descend (names more : List α) :
    (p.descend names).descend more = p.descend (names ++ more) :=
  ext_fields rfl rfl (by simp [descend])

theorem climb_climb (levels more : Nat) :
    (p.climb levels).climb more = p.climb (levels + more) := by
  refine ext_fields rfl ?_ ?_
  · simp only [climb, List.length_take]
    split
    · rfl
    · omega
  · simp only [climb, List.length_take, List.take_take]
    congr 1
    omega

theorem descend_climb_one (names : List α) (name : α) :
    (p.descend (names ++ [name])).climb 1 = p.descend names := by
  refine ext_fields rfl ?_ ?_
  · cases rooted : p.rooted with
    | true => simp [climb, descend, rooted, p.ups_eq_zero rooted]
    | false =>
      have some_names : 1 - (p.names ++ (names ++ [name])).length = 0 := by
        simp only [List.length_append, List.length_singleton]
        omega
      simp only [climb, descend, rooted, Bool.false_eq_true, if_false, some_names, Nat.add_zero]
  · have one_less : (p.names ++ (names ++ [name])).length - 1 = (p.names ++ names).length := by
      simp only [List.length_append, List.length_singleton]
      omega
    simp only [climb, descend, one_less]
    rw [← List.append_assoc, List.take_append_of_le_length (Nat.le_refl _), List.take_length]

theorem descend_below (names : List α) : (p.descend names).Below p :=
  ⟨rfl, rfl, List.prefix_append _ _⟩

theorem descend_below_iff (base : Place α) (names : List α) :
    (p.descend names).Below base ↔
      p.Below base ∨ ∃ back, base = p.descend back ∧ back <+: names := by
  constructor
  · rintro ⟨rooted, ups, reached⟩
    have own : p.names <+: p.names ++ names := List.prefix_append _ _
    rcases Nat.le_total base.names.length p.names.length with shorter | longer
    · exact .inl ⟨rooted, ups, List.prefix_of_prefix_length_le reached own shorter⟩
    · obtain ⟨back, eq⟩ := List.prefix_of_prefix_length_le own reached longer
      simp only [descend, ← eq] at reached
      exact .inr ⟨back, ext_fields rooted.symm ups.symm eq.symm,
        (List.prefix_append_right_inj _).mp reached⟩
  · rintro (started | ⟨back, rfl, inside⟩)
    · exact (p.descend_below names).trans started
    · exact ⟨rfl, rfl, (List.prefix_append_right_inj _).mpr inside⟩

end Moves

end Place

/-- A relative walk as a climb and the names it then descends. -/
structure Route (α : Type) where
  levels : Nat
  names : List α
  deriving DecidableEq, Repr

namespace Route

def apply (route : Route α) (p : Place α) : Place α :=
  (p.climb route.levels).descend route.names

/-- A parent after a name cancels it; one before all names is one more level. -/
def step (route : Route α) : Component α → Route α
  | .parent =>
    if route.names = [] then { route with levels := route.levels + 1 }
    else { route with names := route.names.dropLast }
  | .name name => { route with names := route.names ++ [name] }

def ofComponents (components : List (Component α)) : Route α :=
  components.foldl step ⟨0, []⟩

theorem apply_step (route : Route α) (component : Component α) (p : Place α) :
    (route.step component).apply p = (route.apply p).step component := by
  cases component with
  | name name => simp [step, apply, Place.step, Place.descend_descend]
  | parent =>
    by_cases bare : route.names = []
    · simp [step, apply, Place.step, bare, Place.climb_climb]
    · have last : route.names.dropLast ++ [route.names.getLast bare] = route.names :=
        List.dropLast_append_getLast bare
      simp only [step, bare, if_false, apply, Place.step]
      rw [← Place.descend_climb_one (p.climb route.levels) route.names.dropLast, last]

theorem apply_foldl (components : List (Component α)) (route : Route α) (p : Place α) :
    (components.foldl step route).apply p = (route.apply p).walk components := by
  induction components generalizing route with
  | nil => rfl
  | cons component components inductionHypothesis =>
    have rest := inductionHypothesis (route.step component)
    rw [apply_step] at rest
    exact rest

end Route

namespace Place

variable (p : Place α)

theorem walk_eq (components : List (Component α)) :
    p.walk components = (Route.ofComponents components).apply p := by
  rw [Route.ofComponents, Route.apply_foldl]
  simp [Route.apply]

theorem walk_append (first second : List (Component α)) :
    p.walk (first ++ second) = (p.walk first).walk second :=
  List.foldl_append

/-- Where a walk ends relative to a place: the climb stops under it, or the
descent comes back to it. -/
theorem walk_below_iff (base : Place α) (components : List (Component α)) :
    (p.walk components).Below base ↔
      (p.climb (Route.ofComponents components).levels).Below base ∨
        ∃ back, base = (p.climb (Route.ofComponents components).levels).descend back ∧
          back <+: (Route.ofComponents components).names := by
  rw [walk_eq, Route.apply, descend_below_iff]

end Place

end Lexical
