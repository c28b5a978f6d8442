import AnotherPs4.Rust.Bytes
import AnotherPs4.Rust.Word

/-!
# Cursors

Readers over a byte string with a position. `Reads r n f` says that `r`
consumes exactly `n` bytes and returns `f data pos`, or fails with an
end-of-file error if they are not there; it composes along `do` blocks.
-/

namespace Rust

inductive IoError where
  | notFound
  | unexpectedEof
  deriving DecidableEq, Repr

/-- Error types that `?` converts I/O errors into. -/
class FromIo (ε : Type) where
  fromIo : IoError → ε

structure Cursor where
  data : List UInt8
  pos : Nat
  deriving DecidableEq, Repr

abbrev CursorM (ε : Type) := StateT Cursor (Outcome ε)

namespace CursorM

variable {ε α β : Type}

def fail (e : ε) : CursorM ε α := fun _ => .err e

/-- `if bad { return Err(e); }` -/
def failIf (bad : Prop) [Decidable bad] (e : ε) : CursorM ε Unit := if bad then fail e else pure ()

def lift (x : Outcome ε α) : CursorM ε α := StateT.lift x

/-- `ok_or(e)?` -/
def okOr (e : ε) (x : Option α) : CursorM ε α := x.elim (fail e) pure

/-- Seeking past the end is allowed; only reads fail there. -/
def seek (pos : Nat) : CursorM ε Unit := modify fun c => { c with pos := pos }

def position : CursorM ε Nat := do return (← get).pos

@[simp] theorem bind_apply (x : CursorM ε α) (f : α → CursorM ε β) (c : Cursor) :
    (x >>= f) c = x c >>= fun r => f r.1 r.2 := rfl

@[simp] theorem map_apply (f : α → β) (x : CursorM ε α) (c : Cursor) :
    (f <$> x) c = x c >>= fun r => .ok (f r.1, r.2) := rfl

@[simp] theorem pure_apply (a : α) (c : Cursor) : (pure a : CursorM ε α) c = .ok (a, c) := rfl

@[simp] theorem fail_apply (e : ε) (c : Cursor) : (fail e : CursorM ε α) c = .err e := rfl

theorem failIf_bind (bad : Prop) [Decidable bad] (e : ε) (k : Unit → CursorM ε α) (c : Cursor) :
    (failIf bad e >>= k) c = if bad then .err e else k () c := by
  unfold failIf
  split <;> rfl

@[simp] theorem seek_apply (pos : Nat) (c : Cursor) :
    (seek pos : CursorM ε Unit) c = .ok ((), { c with pos := pos }) := rfl

@[simp] theorem position_apply (c : Cursor) : (position : CursorM ε Nat) c = .ok (c.pos, c) := rfl

@[simp] theorem lift_ok (a : α) : (lift (.ok a) : CursorM ε α) = pure a := rfl

theorem lift_bind (x : Outcome ε α) (k : α → CursorM ε β) (c : Cursor) :
    (lift x >>= k) c = x >>= fun a => k a c := by cases x <;> rfl

@[simp] theorem okOr_some (e : ε) (a : α) : okOr e (some a) = pure a := rfl

@[simp] theorem okOr_none (e : ε) : okOr e (none : Option α) = fail e := rfl

/-- `r` reads `n` bytes and decodes them by position, and fails unless they are
there and satisfy `P`. -/
def Accepts (r : CursorM ε α) (n : Nat) (P : List UInt8 → Nat → Prop)
    (f : List UInt8 → Nat → α) : Prop :=
  ∀ c, (((n = 0 ∨ c.pos + n ≤ c.data.length) ∧ P c.data c.pos) ∧
      r c = .ok (f c.data c.pos, { c with pos := c.pos + n })) ∨
    (¬ ((n = 0 ∨ c.pos + n ≤ c.data.length) ∧ P c.data c.pos) ∧ ∃ e, r c = .err e)

theorem Accepts.bind {r : CursorM ε α} {n m : Nat} {P : List UInt8 → Nat → Prop}
    {f : List UInt8 → Nat → α} {s : α → CursorM ε β} {Q : α → List UInt8 → Nat → Prop}
    {g : α → List UInt8 → Nat → β} (first : Accepts r n P f)
    (next : ∀ a, Accepts (s a) m (Q a) (g a)) :
    Accepts (r >>= s) (n + m) (fun data pos => P data pos ∧ Q (f data pos) data (pos + n))
      fun data pos => g (f data pos) data (pos + n) := by
  intro c
  rw [bind_apply]
  rcases first c with ⟨accepted, read⟩ | ⟨rejected, e, failed⟩
  · rw [read, Outcome.ok_bind]
    rcases next (f c.data c.pos) ⟨c.data, c.pos + n⟩ with ⟨acceptedNext, readNext⟩ |
      ⟨rejected, e, failed⟩
    · refine .inl ⟨⟨?_, accepted.2, acceptedNext.2⟩, ?_⟩
      · rcases acceptedNext.1 with none | fits
        · exact accepted.1.imp (by omega) (by omega)
        · exact .inr (by rwa [← Nat.add_assoc])
      · rw [readNext, Nat.add_assoc]
    · refine .inr ⟨fun both => rejected ⟨?_, both.2.2⟩, e, failed⟩
      exact both.1.imp (by omega) (by simp only; omega)
  · rw [failed, Outcome.err_bind]
    exact .inr ⟨fun both => rejected ⟨both.1.imp (by omega) (by omega), both.2.1⟩, e, rfl⟩

theorem Accepts.congr {r : CursorM ε α} {n : Nat} {P Q : List UInt8 → Nat → Prop}
    {f : List UInt8 → Nat → α} (accepts : Accepts r n P f)
    (same : ∀ data pos, P data pos ↔ Q data pos) : Accepts r n Q f := by
  rwa [← show P = Q from funext₂ fun data pos => propext (same data pos)]

theorem failIf_accepts (bad : Prop) [Decidable bad] (e : ε) :
    Accepts (failIf bad e) 0 (fun _ _ => ¬ bad) fun _ _ => () := by
  intro c
  unfold failIf
  split
  · next holds => exact .inr ⟨fun accepted => accepted.2 holds, e, rfl⟩
  · next fails => exact .inl ⟨⟨.inl rfl, fails⟩, rfl⟩

variable [FromIo ε]

def readExact (n : Nat) : CursorM ε (List UInt8) := fun c =>
  if n = 0 ∨ c.pos + n ≤ c.data.length then
    .ok (bytesAt c.data c.pos n, { c with pos := c.pos + n })
  else .err (FromIo.fromIo .unexpectedEof)

def readUInt (n : Nat) : CursorM ε Nat := leNat <$> readExact n

def readU8 : CursorM ε Nat := readUInt 1

def readU16 : CursorM ε Nat := readUInt 2

def readU32 : CursorM ε Nat := readUInt 4

def readU64 : CursorM ε Nat := readUInt 8

def readI32 : CursorM ε Int := signed 32 <$> readU32

def readI64 : CursorM ε Int := signed 64 <$> readU64

/-- `for _ in 0..count { xs.push(r()?) }` -/
def readMany (r : CursorM ε α) : Nat → CursorM ε (List α)
  | 0 => pure []
  | count + 1 => do
    let x ← r
    let xs ← readMany r count
    return x :: xs

/-- `r` reads `n` bytes and decodes them by position. -/
def Reads (r : CursorM ε α) (n : Nat) (f : List UInt8 → Nat → α) : Prop :=
  ∀ c, r c = if n = 0 ∨ c.pos + n ≤ c.data.length then
    .ok (f c.data c.pos, { c with pos := c.pos + n })
  else .err (FromIo.fromIo .unexpectedEof)

namespace Reads

variable {r : CursorM ε α} {n m : Nat} {f : List UInt8 → Nat → α}

theorem ok (reads : Reads r n f) {c : Cursor} (fits : n = 0 ∨ c.pos + n ≤ c.data.length) :
    r c = .ok (f c.data c.pos, { c with pos := c.pos + n }) := by
  rw [reads c, if_pos fits]

theorem eof (reads : Reads r n f) {c : Cursor} (short : ¬ (n = 0 ∨ c.pos + n ≤ c.data.length)) :
    r c = .err (FromIo.fromIo .unexpectedEof) := by
  rw [reads c, if_neg short]

theorem pure (a : α) : Reads (ε := ε) (Pure.pure a) 0 fun _ _ => a := fun _ => rfl

theorem bind {s : α → CursorM ε β} {g : α → List UInt8 → Nat → β} (reads : Reads r n f)
    (next : ∀ a, Reads (s a) m (g a)) :
    Reads (r >>= s) (n + m) fun data pos => g (f data pos) data (pos + n) := by
  intro c
  change (r c >>= fun x => s x.1 x.2) = _
  by_cases fits : n = 0 ∨ c.pos + n ≤ c.data.length
  · rw [reads.ok fits, Outcome.ok_bind, next]
    by_cases fitsAll : m = 0 ∨ c.pos + n + m ≤ c.data.length
    · rw [if_pos fitsAll, if_pos (by omega), Nat.add_assoc]
    · rw [if_neg fitsAll, if_neg (by omega)]
  · rw [reads.eof fits, Outcome.err_bind, if_neg (by omega)]

theorem map (reads : Reads r n f) (g : α → β) :
    Reads (g <$> r) n fun data pos => g (f data pos) := by
  rw [map_eq_pure_bind]
  exact reads.bind fun a => pure (g a)

theorem readMany (reads : Reads r n f) (count : Nat) :
    Reads (CursorM.readMany r count) (count * n) fun data pos =>
      (List.range count).map fun i => f data (pos + i * n) := by
  induction count with
  | zero =>
    rw [Nat.zero_mul]
    exact pure []
  | succ count ih =>
    have step := reads.bind fun x => ih.bind fun xs => pure (x :: xs)
    have decoded : (fun data pos => f data pos ::
          (List.range count).map fun i => f data (pos + n + i * n)) =
        fun data pos => (List.range (count + 1)).map fun i => f data (pos + i * n) := by
      funext data pos
      rw [List.range_succ_eq_map, List.map_cons, List.map_map, Nat.zero_mul, Nat.add_zero]
      congr 1
      apply List.map_congr_left
      intro i _
      rw [Function.comp, Nat.succ_eq_add_one, Nat.add_one_mul, Nat.add_assoc, Nat.add_comm n]
    rw [show n + (count * n + 0) = (count + 1) * n by ring, decoded] at step
    exact step

theorem accepts (reads : Reads r n f) : Accepts r n (fun _ _ => True) f := by
  intro c
  by_cases fits : n = 0 ∨ c.pos + n ≤ c.data.length
  · exact .inl ⟨⟨fits, trivial⟩, reads.ok fits⟩
  · exact .inr ⟨fun accepted => fits accepted.1, _, reads.eof fits⟩

end Reads

theorem readExact_reads (n : Nat) :
    Reads (ε := ε) (readExact n) n fun data pos => bytesAt data pos n := fun _ => rfl

theorem readUInt_reads (n : Nat) :
    Reads (ε := ε) (readUInt n) n fun data pos => word data pos n :=
  (readExact_reads n).map leNat

theorem Reads.bind_eq {r : CursorM ε α} {n : Nat} {f : List UInt8 → Nat → α} (reads : Reads r n f)
    (positive : 0 < n) (k : α → CursorM ε β) (data : List UInt8) (pos : Nat) :
    (r >>= k) ⟨data, pos⟩ = if pos + n ≤ data.length then k (f data pos) ⟨data, pos + n⟩
      else .err (FromIo.fromIo .unexpectedEof) := by
  rw [bind_apply, reads ⟨data, pos⟩]
  by_cases fits : pos + n ≤ data.length
  · rw [if_pos (.inr fits), if_pos fits, Outcome.ok_bind]
  · rw [if_neg (by simp only; omega), if_neg fits, Outcome.err_bind]

theorem readU32_bind (k : Nat → CursorM ε α) (data : List UInt8) (pos : Nat) :
    (readU32 >>= k) ⟨data, pos⟩ = if pos + 4 ≤ data.length then
      k (word data pos 4) ⟨data, pos + 4⟩ else .err (FromIo.fromIo .unexpectedEof) :=
  (readUInt_reads 4).bind_eq (by omega) k data pos

theorem readI32_reads : Reads (ε := ε) readI32 4 fun data pos => signed 32 (word data pos 4) :=
  (readUInt_reads 4).map _

theorem readI64_reads : Reads (ε := ε) readI64 8 fun data pos => signed 64 (word data pos 8) :=
  (readUInt_reads 8).map _

end CursorM

end Rust
