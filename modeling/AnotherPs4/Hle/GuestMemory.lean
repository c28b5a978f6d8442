import AnotherPs4.Linker.Ram
import AnotherPs4.Rust.CString
import AnotherPs4.Rust.Encoding
import AnotherPs4.Rust.Outcome

/-!
# Guest memory

The exports read and write guest memory through the pointers they are passed.
Nothing checks these, so blocks may wrap around the end of the address space.
-/

namespace AnotherPs4

open Rust

/-- Why an export does not return: the guest exits, or a string has no end and
reading it leaves the memory. -/
inductive ExportStop where
  | exit
  | fault
  deriving DecidableEq, Repr

namespace Ram

/-- The memory from an address on, around the end of the address space. -/
def stream (ram : Ram) (addr : Nat) : Nat → UInt8 := fun k => ram ((addr + k) % 2 ^ 64)

/-- `CStr::from_ptr` and `to_bytes`. -/
def cstr (ram : Ram) (addr : Nat) : Outcome ExportStop (List UInt8) :=
  match scanText (2 ^ 64) (ram.stream addr) with
  | some text => .ok text
  | none => .err .fault

def readBytes (ram : Ram) (addr n : Nat) : List UInt8 := firstBytes (ram.stream addr) n

/-- A block, around the end of the address space if need be, has a cell. -/
def Covers (addr len x : Nat) : Prop := (x + 2 ^ 64 - addr) % 2 ^ 64 < len

instance (addr len x : Nat) : Decidable (Covers addr len x) :=
  inferInstanceAs (Decidable (_ < _))

variable {ram : Ram} {dest addr x : Nat} {bytes : List UInt8}

theorem Covers.mono {len len' : Nat} (covers : Covers addr len x) (le : len ≤ len') :
    Covers addr len' x :=
  lt_of_lt_of_le covers le

theorem write_uncovered (outside : ¬ Covers dest bytes.length x) :
    ram.write dest bytes x = ram x := by
  rw [write, List.getElem?_eq_none (not_lt.mp outside), Option.getD_none]

def Apart (addr len addr' len' : Nat) : Prop := ∀ k < len, ¬ Covers addr' len' ((addr + k) % 2 ^ 64)

instance (addr len addr' len' : Nat) : Decidable (Apart addr len addr' len') :=
  inferInstanceAs (Decidable (∀ k < len, _))

theorem apart_of_disjoint {len addr' len' : Nat} (bounded : addr + len ≤ 2 ^ 64)
    (bounded' : addr' + len' ≤ 2 ^ 64) (disjoint : addr + len ≤ addr' ∨ addr' + len' ≤ addr) :
    Apart addr len addr' len' := by
  intro k inside
  unfold Covers
  omega

theorem stream_mod (ram : Ram) (addr : Nat) : ram.stream (addr % 2 ^ 64) = ram.stream addr := by
  funext k
  rw [stream, stream, Nat.mod_add_mod]

theorem write_nil : ram.write dest [] = ram := funext fun _ => rfl

theorem stream_write (word : dest < 2 ^ 64) (short : bytes.length ≤ 2 ^ 64) {k : Nat}
    (inside : k < bytes.length) : (ram.write dest bytes).stream dest k = bytes[k] :=
  write_wrapped word inside short

theorem write_append {more : List UInt8} (word : dest < 2 ^ 64)
    (short : bytes.length + more.length ≤ 2 ^ 64) :
    (ram.write dest bytes).write ((dest + bytes.length) % 2 ^ 64) more =
      ram.write dest (bytes ++ more) := by
  funext x
  simp only [write]
  by_cases early : (x + 2 ^ 64 - dest) % 2 ^ 64 < bytes.length
  · have beyond : more.length ≤ (x + 2 ^ 64 - (dest + bytes.length) % 2 ^ 64) % 2 ^ 64 := by omega
    rw [List.getElem?_eq_none beyond, Option.getD_none, List.getElem?_append_left early]
  · have offset : (x + 2 ^ 64 - (dest + bytes.length) % 2 ^ 64) % 2 ^ 64 =
        (x + 2 ^ 64 - dest) % 2 ^ 64 - bytes.length := by omega
    rw [offset, List.getElem?_append_right (not_lt.mp early),
      List.getElem?_eq_none (not_lt.mp early), Option.getD_none]

theorem holdsText_write (word : dest < 2 ^ 64) {text : List UInt8} (nulFree : 0 ∉ text)
    (short : text.length < 2 ^ 64) : HoldsText ((ram.write dest (text ++ [0])).stream dest) text where
  bytes k inside := by
    rw [stream_write word (by simpa using short) (by simpa using inside.le),
      List.getElem_append_left inside]
  ended := by
    rw [stream_write word (by simpa using short) (by simp)]
    simp
  nulFree := nulFree

theorem cstr_eq_ok {text : List UInt8} :
    ram.cstr addr = .ok text ↔ HoldsText (ram.stream addr) text ∧ text.length < 2 ^ 64 := by
  rw [← scanText_eq_some_iff, cstr]
  split <;> simp_all

theorem readBytes_uncovered {n : Nat} (apart : Apart addr n dest bytes.length) :
    (ram.write dest bytes).readBytes addr n = ram.readBytes addr n :=
  firstBytes_congr fun k inside => write_uncovered (apart k inside)

theorem readBytes_write (word : dest < 2 ^ 64) (short : bytes.length ≤ 2 ^ 64) {offset n : Nat}
    (inside : offset + n ≤ bytes.length) :
    (ram.write dest bytes).readBytes (dest + offset) n = bytesAt bytes offset n := by
  refine List.ext_getElem ?_ fun k first second => ?_
  · rw [readBytes, length_firstBytes, length_bytesAt (.inr inside)]
  · rw [readBytes, length_firstBytes] at first
    have moved : (ram.write dest bytes).stream (dest + offset) k =
        (ram.write dest bytes).stream dest (offset + k) := by
      rw [stream, stream, Nat.add_assoc]
    simp only [readBytes, getElem_firstBytes, moved, bytesAt, List.getElem_take, List.getElem_drop]
    exact stream_write word short (by omega)

def readLe (ram : Ram) (addr size : Nat) : Nat := leNat (ram.readBytes addr size)

def writeLe (ram : Ram) (dest size value : Nat) : Ram := ram.write dest (leBytes size value)

theorem readLe_writeLe {size value : Nat} (word : dest < 2 ^ 64) (small : size ≤ 2 ^ 64)
    (fits : value < 256 ^ size) : (ram.writeLe dest size value).readLe dest size = value := by
  have read := @readBytes_write ram dest (leBytes size value) word (by simpa using small) 0 size
    (by simp)
  rw [Nat.add_zero, bytesAt, List.drop_zero, List.take_of_length_le (by simp)] at read
  rw [readLe, writeLe, read, leNat_leBytes fits]

theorem readBytes_writeLe {n size value : Nat} (apart : Apart addr n dest size) :
    (ram.writeLe dest size value).readBytes addr n = ram.readBytes addr n :=
  readBytes_uncovered (by rwa [length_leBytes])

theorem readLe_writeLe_apart {n size value : Nat} (apart : Apart addr n dest size) :
    (ram.writeLe dest size value).readLe addr n = ram.readLe addr n := by
  rw [readLe, readBytes_writeLe apart, readLe]

def readDword (ram : Ram) (addr : Nat) : UInt32 := UInt32.ofNat (ram.readLe addr 4)

def readDwords (ram : Ram) (addr n : Nat) : List UInt32 :=
  (List.range n).map fun i => ram.readDword (addr + i * 4)

def dwordBytes (dwords : List UInt32) : List UInt8 := dwords.flatMap fun dword => leBytes 4 dword.toNat

@[simp] theorem length_dwordBytes (dwords : List UInt32) :
    (dwordBytes dwords).length = dwords.length * 4 := by
  simp [dwordBytes, List.length_flatMap]

theorem dwordBytes_append (first second : List UInt32) :
    dwordBytes (first ++ second) = dwordBytes first ++ dwordBytes second :=
  List.flatMap_append

def writeDwords (ram : Ram) (dest : Nat) (dwords : List UInt32) : Ram :=
  ram.write dest (dwordBytes dwords)

theorem writeDwords_append {first second : List UInt32} (word : dest < 2 ^ 64)
    (short : (first.length + second.length) * 4 ≤ 2 ^ 64) :
    (ram.writeDwords dest first).writeDwords ((dest + first.length * 4) % 2 ^ 64) second =
      ram.writeDwords dest (first ++ second) := by
  have append := @write_append ram dest (dwordBytes first) (dwordBytes second) word
    (by simp only [length_dwordBytes]; omega)
  rwa [length_dwordBytes, ← dwordBytes_append] at append

def HoldsDwords (ram : Ram) (addr : Nat) (dwords : List UInt32) : Prop :=
  ram.readBytes addr (dwords.length * 4) = dwordBytes dwords

theorem holdsDwords_write {dwords : List UInt32} (word : dest < 2 ^ 64)
    (short : dwords.length * 4 ≤ 2 ^ 64) : (ram.writeDwords dest dwords).HoldsDwords dest dwords := by
  have read := @readBytes_write ram dest (dwordBytes dwords) word (by simpa using short) 0
    (dwords.length * 4) (by simp)
  rw [Nat.add_zero, bytesAt, List.drop_zero, List.take_of_length_le (by simp)] at read
  exact read

theorem readBytes_add (addr n m : Nat) :
    ram.readBytes addr (n + m) = ram.readBytes addr n ++ ram.readBytes (addr + n) m := by
  simp only [readBytes, firstBytes, List.range_add, List.map_append, List.map_map]
  refine congrArg (_ ++ ·) (List.map_congr_left fun k _ => ?_)
  simp only [Function.comp_apply, stream, Nat.add_assoc]

theorem HoldsDwords.readDwords {dwords : List UInt32} (holds : ram.HoldsDwords addr dwords) :
    ram.readDwords addr dwords.length = dwords := by
  have stands : Rust.Holds (ram.readBytes addr (dwords.length * 4)) 0
      (dwords.flatMap fun dword => leBytes 4 dword.toNat) := by
    rw [Rust.Holds, bytesAt, List.drop_zero, holds]
    exact List.take_of_length_le le_rfl
  have decoded := @Rust.Holds.table _ _ _ _ (fun data pos => UInt32.ofNat (Rust.word data pos 4)) 4
    dwords (fun dword => length_leBytes 4 dword.toNat) (fun dword _ pos there => by
      rw [there.word_eq (by have := dword.toNat_lt; omega), UInt32.ofNat_toNat]) stands
  refine Eq.trans (List.map_congr_left fun i member => ?_) decoded
  have inside := List.mem_range.mp member
  have piece : ram.readBytes (addr + i * 4) 4 =
      bytesAt (ram.readBytes addr (dwords.length * 4)) (i * 4) 4 := by
    have split : dwords.length * 4 = i * 4 + (4 + (dwords.length * 4 - i * 4 - 4)) := by omega
    rw [split, readBytes_add, readBytes_add, bytesAt,
      List.drop_left' (by simp [readBytes]), List.take_left' (by simp [readBytes])]
  rw [readDword, readLe, piece, Nat.zero_add, Rust.word]

end Ram

end AnotherPs4
