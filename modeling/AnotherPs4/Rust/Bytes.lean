import Mathlib.Tactic

/-!
# Bytes

Byte strings are lists. A word is read from a position in little-endian order,
and two byte strings with the same bytes at two places have the same words
there.
-/

namespace Rust

def leNat : List UInt8 → Nat
  | [] => 0
  | b :: bs => b.toNat + 256 * leNat bs

theorem leNat_lt (bs : List UInt8) : leNat bs < 256 ^ bs.length := by
  induction bs with
  | nil => simp [leNat]
  | cons b bs ih =>
    have := b.toNat_lt
    simp only [leNat, List.length_cons, Nat.pow_succ]
    omega

def leBytes : Nat → Nat → List UInt8
  | 0, _ => []
  | n + 1, value => UInt8.ofNat value :: leBytes n (value / 256)

@[simp] theorem length_leBytes (n value : Nat) : (leBytes n value).length = n := by
  induction n generalizing value with
  | zero => rfl
  | succ n ih => simp [leBytes, ih]

def bytesAt (data : List UInt8) (pos n : Nat) : List UInt8 := (data.drop pos).take n

def word (data : List UInt8) (pos n : Nat) : Nat := leNat (bytesAt data pos n)

theorem length_bytesAt {data : List UInt8} {pos n : Nat} (fits : n = 0 ∨ pos + n ≤ data.length) :
    (bytesAt data pos n).length = n := by
  simp only [bytesAt, List.length_take, List.length_drop]
  omega

theorem getElem?_bytesAt {data : List UInt8} {pos n k : Nat} :
    (bytesAt data pos n)[k]? = if k < n then data[pos + k]? else none := by
  simp [bytesAt, List.getElem?_take]

theorem word_lt (data : List UInt8) (pos n : Nat) : word data pos n < 256 ^ n :=
  lt_of_lt_of_le (leNat_lt _) (Nat.pow_le_pow_right (by omega) (by simp [bytesAt]))

/-- The bytes of `data` from `pos` on are those of `data'` from `pos'` on, for
`n` bytes. -/
def SameBytes (data : List UInt8) (pos : Nat) (data' : List UInt8) (pos' n : Nat) : Prop :=
  ∀ k < n, data[pos + k]? = data'[pos' + k]?

namespace SameBytes

variable {data data' : List UInt8} {pos pos' n : Nat}

theorem bytesAt_eq (same : SameBytes data pos data' pos' n) :
    bytesAt data pos n = bytesAt data' pos' n := by
  apply List.ext_getElem?
  intro k
  rw [getElem?_bytesAt, getElem?_bytesAt]
  split
  · next inside => exact same k inside
  · rfl

theorem of_bytesAt (same : bytesAt data pos n = bytesAt data' pos' n) :
    SameBytes data pos data' pos' n := by
  intro k below
  have here := congrArg (·[k]?) same
  simpa only [getElem?_bytesAt, if_pos below] using here

theorem mono (same : SameBytes data pos data' pos' n) {m : Nat} (shorter : m ≤ n) :
    SameBytes data pos data' pos' m :=
  fun k below => same k (below.trans_le shorter)

theorem sub (same : SameBytes data pos data' pos' n) {off m : Nat} (inside : off + m ≤ n) :
    SameBytes data (pos + off) data' (pos' + off) m := by
  intro k below
  have := same (off + k) (by omega)
  rwa [← Nat.add_assoc, ← Nat.add_assoc] at this

theorem word_eq (same : SameBytes data pos data' pos' n) {off m : Nat} (inside : off + m ≤ n) :
    word data (pos + off) m = word data' (pos' + off) m := by
  unfold word
  rw [(same.sub inside).bytesAt_eq]

theorem fits_iff (same : SameBytes data pos data' pos' n) {off : Nat} (inside : off ≤ n)
    (positive : 0 < off) : pos + off ≤ data.length ↔ pos' + off ≤ data'.length := by
  have last := same (off - 1) (by omega)
  have ends : data.length ≤ pos + (off - 1) ↔ data'.length ≤ pos' + (off - 1) := by
    rw [← List.getElem?_eq_none_iff, last, List.getElem?_eq_none_iff]
  omega

end SameBytes

def swapBytes (n : Nat) : Nat :=
  n % 256 * 2 ^ 24 + n / 256 % 256 * 2 ^ 16 + n / 2 ^ 16 % 256 * 2 ^ 8 + n / 2 ^ 24 % 256

theorem swapBytes_leNat (a b c d : UInt8) :
    swapBytes (leNat [a, b, c, d]) = leNat [d, c, b, a] := by
  have ha := a.toNat_lt
  have hb := b.toNat_lt
  have hc := c.toNat_lt
  have hd := d.toNat_lt
  have first : leNat [a, b, c, d] % 256 = a.toNat := by
    simp only [leNat]
    omega
  have second : leNat [a, b, c, d] / 256 % 256 = b.toNat := by
    simp only [leNat]
    omega
  have third : leNat [a, b, c, d] / 2 ^ 16 % 256 = c.toNat := by
    simp only [leNat]
    omega
  have fourth : leNat [a, b, c, d] / 2 ^ 24 % 256 = d.toNat := by
    simp only [leNat]
    omega
  rw [swapBytes, first, second, third, fourth]
  simp only [leNat]
  omega

theorem leNat_injective {bs cs : List UInt8} (length : bs.length = cs.length)
    (same : leNat bs = leNat cs) : bs = cs := by
  induction bs generalizing cs with
  | nil => exact (List.length_eq_zero_iff.mp length.symm).symm
  | cons b bs ih =>
    cases cs with
    | nil => cases length
    | cons c cs =>
      have hb := b.toNat_lt
      have hc := c.toNat_lt
      simp only [leNat] at same
      have head : b = c := UInt8.toNat_inj.mp (by omega)
      rw [head, ih (Nat.succ.inj length) (by omega)]

end Rust
