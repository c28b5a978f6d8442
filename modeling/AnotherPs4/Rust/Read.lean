import Mathlib.Tactic

/-!
# Reading a file

`Read::read` delivers some of the bytes behind the cursor and moves the cursor
over them. How many there are is up to the host, which may split what is asked
for as it likes. A reader of items of a fixed size has to put the pieces
together.
-/

namespace Rust

/-- A file as its readers see it. -/
structure ReadView (File : Type) where
  content : File → List UInt8
  position : File → Nat

namespace ReadView

variable {File : Type} (view : ReadView File)

def rest (file : File) : List UInt8 := (view.content file).drop (view.position file)

def remaining (file : File) : Nat := (view.content file).length - view.position file

@[simp] theorem length_rest (file : File) : (view.rest file).length = view.remaining file :=
  List.length_drop

/-- The cursor moved over the next `n` bytes. -/
structure Moved (file : File) (n : Nat) (next : File) : Prop where
  content : view.content next = view.content file
  position : view.position next = view.position file + n

/-- The documented contract of `Read::read`: it reads some bytes, at least one if
there are any and the buffer is not empty. -/
def ReadsSome (read : File → Nat → Option (List UInt8) × File) : Prop :=
  ∀ file len, ∃ n next, read file len = (some ((view.rest file).take n), next) ∧
    n ≤ min len (view.remaining file) ∧ (0 < min len (view.remaining file) → 1 ≤ n) ∧
    view.Moved file n next

/-- A read delivers as much as the buffer takes and the file has. -/
def ReadsAll (read : File → Nat → Option (List UInt8) × File) (file : File) (len : Nat) : Prop :=
  (read file len).1 = some ((view.rest file).take len)

/-- What a reader of items of a size owes for `count` of them: the whole items that
the file has, in order, and a cursor behind them or at the end of the file. -/
structure ReadsItems (size count : Nat) (file : File) (value : Nat) (items : List UInt8)
    (next : File) : Prop where
  counted : value = min count (view.remaining file / size)
  inOrder : items = (view.rest file).take (size * value)
  moved : view.Moved file (min (size * count) (view.remaining file)) next

variable {view} {file middle next : File}

theorem Moved.refl (file : File) : view.Moved file 0 file := ⟨rfl, rfl⟩

theorem Moved.trans {a b : Nat} (first : view.Moved file a middle)
    (second : view.Moved middle b next) : view.Moved file (a + b) next where
  content := second.content.trans first.content
  position := by rw [second.position, first.position, Nat.add_assoc]

theorem Moved.rest {n : Nat} (moved : view.Moved file n next) :
    view.rest next = (view.rest file).drop n := by
  rw [ReadView.rest, ReadView.rest, moved.content, moved.position, List.drop_drop]

theorem Moved.remaining {n : Nat} (moved : view.Moved file n next) :
    view.remaining next = view.remaining file - n := by
  rw [← length_rest, moved.rest, List.length_drop, length_rest]

section Host

variable {read : File → Nat → Option (List UInt8) × File} {len : Nat}

theorem ReadsSome.of_readsAll (contract : view.ReadsSome read) (all : view.ReadsAll read file len) :
    ∃ next, read file len = (some ((view.rest file).take len), next) ∧
      view.Moved file (min len (view.remaining file)) next := by
  obtain ⟨n, next, answer, most, -, moved⟩ := contract file len
  refine ⟨next, Prod.ext all (by rw [answer]), ?_⟩
  have same : (view.rest file).take n = (view.rest file).take len := by
    rw [ReadsAll, answer] at all
    exact Option.some.inj all
  have lengths := congrArg List.length same
  rw [List.length_take, List.length_take, length_rest,
    Nat.min_eq_left (le_trans most (Nat.min_le_right _ _))] at lengths
  rwa [← lengths]

theorem ReadsSome.readsAll_zero (contract : view.ReadsSome read) (file : File) :
    view.ReadsAll read file 0 := by
  obtain ⟨n, next, answer, most, -⟩ := contract file 0
  rw [Nat.zero_min, Nat.le_zero] at most
  rw [ReadsAll, answer, most]

end Host

/-! ### Items -/

section Items

variable {size : Nat}

theorem ReadsItems.refl (size : Nat) (file : File) : view.ReadsItems size 0 file 0 [] file where
  counted := by rw [Nat.zero_min]
  inOrder := by rw [Nat.mul_zero, List.take_zero]
  moved := by
    rw [Nat.mul_zero, Nat.zero_min]
    exact .refl file

theorem min_mul_div (positive : 0 < size) (count total : Nat) :
    min (size * count) total / size = min count (total / size) := by
  rcases le_total (size * count) total with fits | short
  · have whole : count ≤ total / size := by
      rwa [Nat.le_div_iff_mul_le positive, Nat.mul_comm]
    rw [min_eq_left fits, min_eq_left whole, Nat.mul_div_cancel_left count positive]
  · have few : total / size ≤ count := Nat.div_le_of_le_mul short
    rw [min_eq_right short, min_eq_right few]

theorem ReadsItems.trans (positive : 0 < size) {a b v w : Nat} {xs ys : List UInt8}
    (first : view.ReadsItems size a file v xs middle)
    (second : view.ReadsItems size b middle w ys next) :
    view.ReadsItems size (a + b) file (v + w) (xs ++ ys) next := by
  have left : view.remaining middle = view.remaining file - min (size * a) (view.remaining file) :=
    first.moved.remaining
  rcases le_total (size * a) (view.remaining file) with fits | short
  · -- the first read got all its items, the second one goes on behind them
    rw [min_eq_left fits] at left
    have whole : a ≤ view.remaining file / size := by
      rwa [Nat.le_div_iff_mul_le positive, Nat.mul_comm]
    have all : v = a := by rw [first.counted, min_eq_left whole]
    have behind : view.remaining middle / size = view.remaining file / size - a := by
      rw [left, Nat.sub_mul_div]
    have moved := first.moved.trans second.moved
    refine ⟨?_, ?_, ?_⟩
    · rw [second.counted, behind, all]
      omega
    · rw [first.inOrder, second.inOrder, first.moved.rest, min_eq_left fits, all, Nat.mul_add,
        List.take_add]
    · rw [left, min_eq_left fits] at moved
      rw [Nat.mul_add]
      have sum : size * a + min (size * b) (view.remaining file - size * a) =
          min (size * a + size * b) (view.remaining file) := by omega
      rwa [sum] at moved
  · -- the first read came to the end of the file
    rw [min_eq_right short, Nat.sub_self] at left
    have few : view.remaining file / size ≤ a := Nat.div_le_of_le_mul short
    have none : w = 0 := by rw [second.counted, left, Nat.zero_div, Nat.min_zero]
    have moved := first.moved.trans second.moved
    refine ⟨?_, ?_, ?_⟩
    · rw [none, first.counted, min_eq_right few, min_eq_right (Nat.le_add_right_of_le few),
        Nat.add_zero]
    · rw [second.inOrder, none, Nat.mul_zero, List.take_zero, List.append_nil, Nat.add_zero]
      exact first.inOrder
    · rw [left, Nat.min_zero, Nat.add_zero] at moved
      have sum : min (size * (a + b)) (view.remaining file) =
          min (size * a) (view.remaining file) := by
        rw [min_eq_right short, min_eq_right (short.trans (Nat.mul_le_mul_left _ (by omega)))]
      rwa [sum]

end Items

end ReadView

end Rust
