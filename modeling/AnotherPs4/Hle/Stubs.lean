import Mathlib.Tactic

/-!
# Stubs

Unresolved imports get the address of the next unused trampoline.
-/

namespace AnotherPs4

def stubSize : Nat := 16

def maxStubs : Nat := 4096

structure StubAllocator where
  base : Nat
  used : Nat
  names : List String
  deriving DecidableEq, Repr

/-- The region of the stubs, as the kernel mapped it. -/
structure StubAllocator.Mapped (alloc : StubAllocator) : Prop where
  notNull : 0 < alloc.base
  bounded : alloc.base + maxStubs * stubSize ≤ 2 ^ 64

namespace StubAllocator

def nextStub (alloc : StubAllocator) (name : String) : Option Nat × StubAllocator :=
  if alloc.used ≥ maxStubs then (none, alloc)
  else (some (alloc.base + alloc.used * stubSize),
    { alloc with used := alloc.used + 1, names := alloc.names ++ [name] })

theorem nextStub_used {alloc : StubAllocator} (small : alloc.used ≤ maxStubs) (name : String) :
    (alloc.nextStub name).2.used ≤ maxStubs := by
  unfold nextStub
  split
  · exact small
  · next free => exact Nat.lt_of_not_ge free

end StubAllocator

/-- The stub address, or 0 if there is no allocator or no stub left. -/
def allocateStub (stubs : Option StubAllocator) (name : String) : Nat × Option StubAllocator :=
  match stubs with
  | none => (0, none)
  | some alloc =>
    let (addr, alloc) := alloc.nextStub name
    (addr.getD 0, some alloc)

def isStub (stubs : Option StubAllocator) (addr : Nat) : Bool :=
  stubs.any fun alloc => alloc.base ≤ addr && addr < alloc.base + alloc.used * stubSize

def getStubIndex (stubs : Option StubAllocator) (addr : Nat) : Option Nat :=
  stubs.bind fun alloc =>
    if alloc.base ≤ addr ∧ addr < alloc.base + alloc.used * stubSize then
      some ((addr - alloc.base) / stubSize)
    else none

def getStubName (stubs : Option StubAllocator) (idx : Nat) : String :=
  (stubs.bind (·.names[idx]?)).getD "UnknownStub"

/-- No stub has its trampoline at the address, in use or not. -/
def OutsideStubs (stubs : Option StubAllocator) (addr : Nat) : Prop :=
  ∀ alloc, stubs = some alloc →
    ¬ (alloc.base ≤ addr ∧ addr < alloc.base + maxStubs * stubSize)

/-- No more stubs are handed out than there are. -/
def StubsInRegion (stubs : Option StubAllocator) : Prop :=
  ∀ alloc, stubs = some alloc → alloc.used ≤ maxStubs

theorem stubsInRegion_none : StubsInRegion none := nofun

theorem allocateStub_inRegion {stubs : Option StubAllocator} (inRegion : StubsInRegion stubs)
    (name : String) : StubsInRegion (allocateStub stubs name).2 := by
  cases stubs with
  | none => nofun
  | some alloc =>
    rintro _ ⟨⟩
    exact StubAllocator.nextStub_used (inRegion alloc rfl) name

theorem isStub_of_outside {stubs : Option StubAllocator} (inRegion : StubsInRegion stubs)
    {addr : Nat} (outside : OutsideStubs stubs addr) : isStub stubs addr = false := by
  cases stubs with
  | none => rfl
  | some alloc =>
    have small := inRegion alloc rfl
    have beyond := outside alloc rfl
    have inside : alloc.used * stubSize ≤ maxStubs * stubSize := Nat.mul_le_mul_right _ small
    simp only [isStub, Option.any_some, Bool.and_eq_false_iff, decide_eq_false_iff_not]
    omega

end AnotherPs4
