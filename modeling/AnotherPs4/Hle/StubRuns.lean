import AnotherPs4.Hle.Stubs
import AnotherPs4.Transition.Trace

/-!
# Runs of the stub allocator

The base, the counter and the names stay in step over all calls, so that the
address of a slot leads back to the name it was handed out for.
-/

namespace AnotherPs4

open Transition

def StubAllocator.new (base : Nat) : StubAllocator := ⟨base, 0, []⟩

def StubCall (stubs : Option StubAllocator) (call : String × Nat) (stubs' : Option StubAllocator) :
    Prop :=
  allocateStub stubs call.1 = (call.2, stubs')

/-- The slots of the calls, up to the capacity. -/
structure StubAllocator.After (base : Nat) (calls : List (String × Nat)) (alloc : StubAllocator) :
    Prop where
  sameBase : alloc.base = base
  used : alloc.used = min calls.length maxStubs
  names : alloc.names = (calls.take maxStubs).map Prod.fst
  addresses : ∀ i call, calls[i]? = some call →
    call.2 = if i < maxStubs then base + i * stubSize else 0

def InSlot (calls : List (String × Nat)) (x : Nat) : Prop :=
  ∃ i < maxStubs, ∃ call, calls[i]? = some call ∧ call.2 ≤ x ∧ x < call.2 + stubSize

/-- The addresses of the calls identify the names, and nothing else is a stub. -/
structure StubsIdentify (calls : List (String × Nat)) (stubs : Option StubAllocator) : Prop where
  words : ∀ i < maxStubs, ∀ call, calls[i]? = some call →
    call.2 ≠ 0 ∧ call.2 + stubSize ≤ 2 ^ 64
  apart : ∀ i j call call', calls[i]? = some call → calls[j]? = some call' →
    i < j → j < maxStubs → call.2 + stubSize ≤ call'.2
  identified : ∀ i < maxStubs, ∀ call, calls[i]? = some call → ∀ k < stubSize,
    isStub stubs (call.2 + k) = true ∧
      ∃ idx, getStubIndex stubs (call.2 + k) = some idx ∧ getStubName stubs idx = call.1
  others : ∀ x, ¬ InSlot calls x → isStub stubs x = false ∧ getStubIndex stubs x = none
  beyond : ∀ i ≥ maxStubs, ∀ call, calls[i]? = some call → call.2 = 0
  full : maxStubs ≤ calls.length → ∀ name, allocateStub stubs name = (0, stubs)

namespace StubAllocator

variable {base : Nat} {calls : List (String × Nat)} {alloc : StubAllocator}

theorem new_after : (new base).After base [] := ⟨rfl, rfl, rfl, nofun⟩

theorem After.call (after : alloc.After base calls) {name : String} {addr : Nat}
    {stubs : Option StubAllocator} (called : StubCall (some alloc) (name, addr) stubs) :
    ∃ alloc', stubs = some alloc' ∧ alloc'.After base (calls ++ [(name, addr)]) := by
  obtain ⟨rfl, used, names, addresses⟩ := after
  have last : ∀ {addr}, (addr = if calls.length < maxStubs then alloc.base + calls.length * stubSize
      else 0) → ∀ i call, (calls ++ [(name, addr)])[i]? = some call →
      call.2 = if i < maxStubs then alloc.base + i * stubSize else 0 := by
    intro addr value i call found
    rcases Nat.lt_or_ge i calls.length with earlier | late
    · rw [List.getElem?_append_left earlier] at found
      exact addresses i call found
    · rw [List.getElem?_append_right late] at found
      obtain ⟨at_end, same⟩ := List.getElem?_eq_some_iff.mp found
      have position : i = calls.length := by
        rw [List.length_singleton] at at_end
        omega
      subst position
      simp only [Nat.sub_self, List.getElem_cons_zero] at same
      rw [← same, value]
  unfold StubCall allocateStub nextStub at called
  by_cases full : alloc.used ≥ maxStubs
  · simp only [full, if_true, Option.getD_none, Prod.mk.injEq] at called
    obtain ⟨rfl, rfl⟩ := called
    have many : maxStubs ≤ calls.length := by omega
    refine ⟨alloc, rfl, rfl, by rw [List.length_append]; omega, ?_, last (if_neg (by omega)).symm⟩
    rw [names, List.take_append_of_le_length many]
  · simp only [full, if_false, Option.getD_some, Prod.mk.injEq] at called
    obtain ⟨rfl, rfl⟩ := called
    have few : calls.length < maxStubs := by omega
    have count : alloc.used = calls.length := by omega
    refine ⟨_, rfl, rfl, ?_, ?_, last ?_⟩
    · rw [List.length_append, List.length_singleton, count, Nat.min_eq_left few]
    · rw [names, List.take_of_length_le few.le, List.take_of_length_le (by simpa using few)]
      simp
    · rw [if_pos few, count]

theorem after_of_trace {stubs : Option StubAllocator}
    (run : Trace StubCall (some (new base)) calls stubs) :
    ∃ alloc, stubs = some alloc ∧ alloc.After base calls := by
  induction run with
  | nil => exact ⟨_, rfl, new_after⟩
  | snoc _ called ih =>
    obtain ⟨alloc, rfl, after⟩ := ih
    exact after.call called

section After

variable (after : alloc.After base calls)

include after

theorem After.slot {i : Nat} (early : i < maxStubs) {call : String × Nat}
    (found : calls[i]? = some call) :
    call.2 = base + i * stubSize ∧ i < alloc.used ∧ alloc.names[i]? = some call.1 := by
  obtain ⟨inside, -⟩ := List.getElem?_eq_some_iff.mp found
  refine ⟨(after.addresses i call found).trans (if_pos early), ?_, ?_⟩
  · rw [after.used]
    omega
  · rw [after.names, List.getElem?_map, List.getElem?_take_of_lt early, found]
    rfl

theorem After.inSlot_iff {x : Nat} :
    InSlot calls x ↔ alloc.base ≤ x ∧ x < alloc.base + alloc.used * stubSize := by
  have base := after.sameBase
  constructor
  · rintro ⟨i, early, call, found, low, high⟩
    obtain ⟨address, inUse, -⟩ := after.slot early found
    unfold stubSize at *
    omega
  · rintro ⟨low, high⟩
    have used := after.used
    have inUse : (x - alloc.base) / 16 < alloc.used := by
      unfold stubSize at high
      omega
    have early : (x - alloc.base) / 16 < maxStubs := by omega
    obtain ⟨call, found⟩ : ∃ call, calls[(x - alloc.base) / 16]? = some call :=
      ⟨_, List.getElem?_eq_getElem (by omega)⟩
    obtain ⟨address, -, -⟩ := after.slot early found
    unfold stubSize at address
    exact ⟨_, early, call, found, by omega, by unfold stubSize; omega⟩

end After

end StubAllocator

/-- Over every run of calls the stubs identify their functions. -/
theorem stubsIdentify {base : Nat} (mapped : (StubAllocator.new base).Mapped)
    {calls : List (String × Nat)} {stubs : Option StubAllocator}
    (run : Trace StubCall (some (StubAllocator.new base)) calls stubs) :
    StubsIdentify calls stubs := by
  obtain ⟨alloc, rfl, after⟩ := StubAllocator.after_of_trace run
  have notNull : 0 < base := mapped.notNull
  have bounded : base + maxStubs * stubSize ≤ 2 ^ 64 := mapped.bounded
  have sameBase := after.sameBase
  refine ⟨?_, ?_, ?_, ?_, ?_, ?_⟩
  · intro i early call found
    obtain ⟨address, -, -⟩ := after.slot early found
    unfold maxStubs stubSize at *
    omega
  · intro i j call call' found found' before early
    obtain ⟨address, -, -⟩ := after.slot (before.trans early) found
    obtain ⟨address', -, -⟩ := after.slot early found'
    unfold stubSize at *
    omega
  · intro i early call found k inside
    obtain ⟨address, inUse, name⟩ := after.slot early found
    have slot : InSlot calls (call.2 + k) :=
      ⟨i, early, call, found, Nat.le_add_right _ _, Nat.add_lt_add_left inside _⟩
    have range := after.inSlot_iff.mp slot
    have index : (call.2 + k - alloc.base) / stubSize = i := by
      unfold stubSize at *
      omega
    refine ⟨by simp [isStub, range], i, ?_, ?_⟩
    · simp only [getStubIndex, Option.bind_some, if_pos range, index]
    · simp only [getStubName, Option.bind_some, name, Option.getD_some]
  · intro x outside
    have range := mt after.inSlot_iff.mpr outside
    refine ⟨?_, by simp only [getStubIndex, Option.bind_some, if_neg range]⟩
    simpa [isStub] using range
  · intro i late call found
    exact (after.addresses i call found).trans (if_neg (by omega))
  · intro many name
    have full : alloc.used ≥ maxStubs := by
      rw [after.used]
      omega
    unfold allocateStub StubAllocator.nextStub
    simp only [full, if_true, Option.getD_none]

theorem stubsIdentify_repeated :
    ∃ calls stubs, Trace StubCall (some (StubAllocator.new 0x7f1000000000)) calls stubs ∧
      calls = [("memcpy", 0x7f1000000000), ("memcpy", 0x7f1000000010)] ∧
      StubsIdentify calls stubs := by
  have first : StubCall (some (StubAllocator.new 0x7f1000000000)) ("memcpy", 0x7f1000000000)
      (some ⟨0x7f1000000000, 1, ["memcpy"]⟩) := by
    unfold StubCall
    decide
  have second : StubCall (some ⟨0x7f1000000000, 1, ["memcpy"]⟩) ("memcpy", 0x7f1000000010)
      (some ⟨0x7f1000000000, 2, ["memcpy", "memcpy"]⟩) := by
    unfold StubCall
    decide
  have run := (Trace.nil.snoc first).snoc second
  exact ⟨_, _, run, rfl, stubsIdentify ⟨by decide, by decide⟩ run⟩

end AnotherPs4
