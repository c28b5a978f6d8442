import AnotherPs4.Hle.Stdio
import AnotherPs4.Rust.Read

/-!
# Whole items

`fread` counts items of a fixed size, but asks the host for their bytes in one
read. Where the host splits that read, the bytes of the last item that did
arrive are lost to the guest, and the next call starts in the middle of an
item. The number of bytes is a product of guest values that overflows.
-/

namespace AnotherPs4

open Rust Transition

variable {File : Type}

/-- The whole items among the bytes in the buffer. -/
def Reply.items (reply : Reply) (size : Nat) : List UInt8 := reply.written.take (size * reply.value)

/-- The call returns the items that the file has, up to `count`, its buffer holds
the bytes behind the cursor, and the cursor is behind the items or at the end of
the file. -/
structure DeliversItems (view : ReadView File) (size count : Nat) (file : File) (reply : Reply)
    (next : File) : Prop where
  items : view.ReadsItems size count file reply.value (reply.items size) next
  filled : reply.written = (view.rest file).take (size * count)

section Call

variable {p : Profile} {ops : FileOps File} {view : ReadView File} {stdio : Stdio File}
  {filePtr buf size count : Nat} {file : File}

theorem freadAlone_eq_ok {total : Nat} {stream : Option File} {result : Reply × Option File}
    (product : (p.mul 64 size count : Outcome Empty Nat) = .ok total) (buffer : buf ≠ 0)
    (returned : freadAlone p ops stream buf size count = .ok result) :
    result = if total = 0 then (⟨0, []⟩, stream)
      else onStream (freadFile ops size total) ⟨0, []⟩ stream := by
  rw [freadAlone, product, Outcome.ok_bind] at returned
  by_cases nothing : total = 0
  · rw [if_pos (.inr nothing)] at returned
    rw [if_pos nothing]
    exact (Outcome.ok.inj returned).symm
  · rw [if_neg (by simp [buffer, nothing])] at returned
    obtain ⟨_, -, returned⟩ := Outcome.bind_eq_ok.mp returned
    rw [if_neg nothing]
    exact (Outcome.ok.inj returned).symm

theorem freadFile_eq {total : Nat} {bytes : List UInt8} {next : File}
    (answer : ops.read file total = (some bytes, next)) :
    freadFile ops size total file = (⟨bytes.length / size, bytes⟩, next) := by
  rw [freadFile, answer]

theorem deliversItems_of_readsAll (contract : view.ReadsSome ops.read) (positive : 1 ≤ size)
    (all : view.ReadsAll ops.read file (size * count)) :
    DeliversItems view size count file (freadFile ops size (size * count) file).1
      (freadFile ops size (size * count) file).2 := by
  obtain ⟨next, answer, moved⟩ := contract.of_readsAll all
  have value : ((view.rest file).take (size * count)).length / size =
      min count (view.remaining file / size) := by
    rw [List.length_take, ReadView.length_rest, ReadView.min_mul_div positive]
  have within : size * min count (view.remaining file / size) ≤ size * count :=
    Nat.mul_le_mul_left _ (Nat.min_le_left _ _)
  rw [freadFile_eq answer]
  refine ⟨⟨value, ?_, moved⟩, rfl⟩
  rw [Reply.items, List.take_take, value, min_eq_left within]

/-- A call that fits delivers the items exactly if the host reads all of them at once. -/
theorem deliversItems_iff (contract : view.ReadsSome ops.read) (positive : 1 ≤ size)
    (buffer : buf ≠ 0) (small : size * count < 2 ^ 64) {reply : Reply} {stream : Option File}
    (returned : freadAlone p ops (some file) buf size count = .ok (reply, stream)) :
    (∃ next, stream = some next ∧ DeliversItems view size count file reply next) ↔
      view.ReadsAll ops.read file (size * count) := by
  have result := freadAlone_eq_ok (Profile.fit_of_lt small) buffer returned
  by_cases nothing : size * count = 0
  · rw [if_pos nothing] at result
    cases result
    obtain rfl : count = 0 := (Nat.mul_eq_zero.mp nothing).resolve_left (by omega)
    refine iff_of_true ⟨file, rfl, ?_, ?_⟩ (contract.readsAll_zero file)
    · exact .refl size file
    · rfl
  · rw [if_neg nothing] at result
    cases result
    constructor
    · rintro ⟨next, -, delivered⟩
      obtain ⟨n, next', answer, -⟩ := contract file (size * count)
      have filled := delivered.filled
      rw [freadFile_eq answer] at filled
      rw [ReadView.ReadsAll, answer]
      exact congrArg some filled
    · intro all
      exact ⟨_, rfl, deliversItems_of_readsAll contract positive all⟩

end Call

/-! ### Successive calls -/

def CFileCall.count : CFileCall → Nat
  | fread _ _ count => count
  | _ => 0

/-- An event that concerns a handle is a complete `fread` of items of a size. -/
structure OnlyReads {Thread : Type} (ops : FileOps File) (view : ReadView File) (filePtr size : Nat)
    (before : Stdio File) (event : StdioEvent Thread File) : Prop where
  kept : ∀ file, event.opens ≠ some (filePtr, file)
  reads : ∀ call reply, event.callOn filePtr = some (call, reply) →
    ∃ buf count, call = .fread buf size count ∧ buf ≠ 0 ∧ size * count < 2 ^ 64 ∧
      ∀ file, before.stream filePtr = some file → view.ReadsAll ops.read file (size * count)

/-- The calls on the handle are one read of all their items: none is skipped, split
or read twice. -/
def ReadsInOrder {Thread : Type} (view : ReadView File) (filePtr size : Nat) (file : File)
    (events : List (StdioEvent Thread File)) (next : Stdio File) : Prop :=
  let calls := callsOn filePtr events
  ∃ file', next.stream filePtr = some file' ∧
    view.ReadsItems size (calls.map fun own => own.1.count).sum file
      (calls.map fun own => own.2.value).sum (calls.flatMap fun own => own.2.items size) file'

section Runs

variable {Thread : Type} {p : Profile} {ops : FileOps File} {view : ReadView File}
  {filePtr size : Nat}

theorem callsOn_append_singleton (events : List (StdioEvent Thread File))
    (event : StdioEvent Thread File) :
    callsOn filePtr (events ++ [event]) =
      callsOn filePtr events ++ (event.callOn filePtr).toList := by
  rw [callsOn, List.filterMap_append]
  cases own : event.callOn filePtr <;> simp [callsOn, own]

theorem ReadsInOrder.step (contract : view.ReadsSome ops.read) (positive : 1 ≤ size) {file : File}
    {events : List (StdioEvent Thread File)} {before after : Stdio File}
    {event : StdioEvent Thread File} (inOrder : ReadsInOrder view filePtr size file events before)
    (taken : StdioStep p ops before event after)
    (only : OnlyReads ops view filePtr size before event) :
    ReadsInOrder view filePtr size file (events ++ [event]) after := by
  obtain ⟨middle, stream, items⟩ := inOrder
  rw [ReadsInOrder, callsOn_append_singleton]
  cases own : event.callOn filePtr with
  | none =>
    refine ⟨middle, (taken.foreign only.kept own).trans stream, ?_⟩
    simpa using items
  | some mine =>
    obtain ⟨call, reply⟩ := mine
    obtain ⟨buf, count, rfl, buffer, small, all⟩ := only.reads call reply own
    have alone := taken.alone own
    rw [stream] at alone
    obtain ⟨last, open_, delivered⟩ :=
      (deliversItems_iff contract positive buffer small alone).mpr (all middle stream)
    refine ⟨last, open_, ?_⟩
    simpa [CFileCall.count] using items.trans positive delivered.items

section Limited

variable {bytes : List UInt8} {most size count : Nat} (positive : 1 ≤ most)
  (more : most < min (size * count) bytes.length)

include more

include positive

end Limited

end Runs

end AnotherPs4
