import AnotherPs4.Hle.Patching
import AnotherPs4.Hle.Stubs

/-!
# The SIGILL handler

A `UD2` outside the stubs is taken for a patched system call. The handler sees
the patched bytes only, so it cannot tell them from a `UD2` of the guest.
-/

namespace AnotherPs4

open Rust

/-- `xmm0` with its high half, and the low half of `xmm1`. -/
structure FpRegisters where
  xmm0 : Nat × Nat
  xmm1 : Nat
  deriving DecidableEq, Repr

/-- Registers of the trapped thread, as far as the handler uses them. -/
structure Registers where
  rip : Nat
  rsp : Nat
  rax : Nat
  rdi : Nat
  rsi : Nat
  rdx : Nat
  rcx : Nat
  r8 : Nat
  r9 : Nat
  r10 : Nat
  fpregs : Option FpRegisters
  deriving DecidableEq, Repr

/-- Why the process ends in a handler. -/
inductive Stop where
  | exit
  | abort
  | realSigill
  deriving DecidableEq, Repr

/-- The implementations of the exported functions, called by name. -/
abbrev HleExports := String → List Nat → Ram → Except Stop (Nat × Ram)

/-- Functions that return in `xmm0`. -/
def isFloatFunction (name : String) : Bool :=
  ["sinf", "tanf", "asinf", "acosf", "cosf", "sqrtf", "atan2f", "floorf", "ceilf", "fabsf",
    "fmodf"].contains name

/-- The result of a system call, or none if the process exits. -/
def hleSyscallDispatcher (sysId _arg1 _arg2 _arg3 _arg4 _arg5 _arg6 : Nat) : Option Nat :=
  if sysId = 1 then none else some 0

def Ram.read64 (ram : Ram) (addr : Nat) : Nat :=
  leNat ((List.range 8).map fun k => ram (addr + k))

def dispatchSyscall (ram : Ram) (regs : Registers) : Except Stop (Registers × Ram) :=
  match hleSyscallDispatcher regs.rax regs.rdi regs.rsi regs.rdx regs.r10 regs.r8 regs.r9 with
  | none => .error .exit
  | some result => .ok ({ regs with rax := result, rip := regs.rip + 2 }, ram)

def callStub (exports : HleExports) (stubs : Option StubAllocator) (ram : Ram)
    (regs : Registers) : Except Stop (Registers × Ram) := do
  let stubName := getStubName stubs ((getStubIndex stubs regs.rip).getD 0)
  let stackArg7 := if regs.rsp ≠ 0 then ram.read64 (regs.rsp + 8) else 0
  let xmm0Bits := regs.fpregs.elim 0 (·.xmm0.1)
  let xmm1Bits := regs.fpregs.elim 0 (·.xmm1)
  let (result, ram) ← exports stubName
    [regs.rdi, regs.rsi, regs.rdx, regs.rcx, regs.r8, regs.r9, stackArg7, xmm0Bits, xmm1Bits] ram
  let regs :=
    if isFloatFunction stubName then
      { regs with fpregs := regs.fpregs.map ({ · with xmm0 := (result, 0) }), rax := 0 }
    else { regs with rax := result }
  return ({ regs with rsp := regs.rsp + 8, rip := ram.read64 regs.rsp }, ram)

/-- What becomes of a thread that trapped. Without the FS base of the host, 0
here, nothing of Rust is called. -/
def sigillHandler (exports : HleExports) (stubs : Option StubAllocator) (hostFs : Nat)
    (ram : Ram) (regs : Registers) : Except Stop (Registers × Ram) :=
  if hostFs = 0 then
    if ram.IsUd2 regs.rip then
      if isStub stubs regs.rip then
        .ok ({ regs with rsp := regs.rsp + 8, rip := ram.read64 regs.rsp, rax := 0 }, ram)
      else .ok ({ regs with rip := regs.rip + 2, rax := 0 }, ram)
    else .error .abort
  else if ram.IsUd2 regs.rip then
    if isStub stubs regs.rip then callStub exports stubs ram regs
    else dispatchSyscall ram regs
  else .error .realSigill

section Traps

variable {exports : HleExports} {stubs : Option StubAllocator} {hostFs : Nat} {ram : Ram}
  {regs : Registers}

theorem dispatchSyscall_ne_realSigill : dispatchSyscall ram regs ≠ .error .realSigill := by
  unfold dispatchSyscall
  split <;> simp

/-- Outside the stubs the handler takes every `UD2` for a system call. -/
theorem sigillHandler_of_ud2 (hosted : hostFs ≠ 0) (ud2 : ram.IsUd2 regs.rip)
    (outside : isStub stubs regs.rip = false) :
    sigillHandler exports stubs hostFs ram regs = dispatchSyscall ram regs := by
  rw [sigillHandler, if_neg hosted, if_pos ud2, outside]
  rfl

theorem sigillHandler_unhosted (ud2 : ram.IsUd2 regs.rip)
    (outside : isStub stubs regs.rip = false) :
    sigillHandler exports stubs 0 ram regs = .ok ({ regs with rip := regs.rip + 2, rax := 0 }, ram) := by
  rw [sigillHandler, if_pos rfl, if_pos ud2, outside]
  rfl

theorem sigillHandler_ne_realSigill (ud2 : ram.IsUd2 regs.rip)
    (outside : isStub stubs regs.rip = false) :
    sigillHandler exports stubs hostFs ram regs ≠ .error .realSigill := by
  by_cases hosted : hostFs = 0
  · rw [hosted, sigillHandler_unhosted ud2 outside]
    nofun
  · rw [sigillHandler_of_ud2 hosted ud2 outside]
    exact dispatchSyscall_ne_realSigill

end Traps

/-- Outside the stubs a trap is taken for a system call where there was one,
and a `UD2` of the guest is reported. -/
structure TrapsFaithful (exports : HleExports) (stubs : Option StubAllocator) (hostFs : Nat)
    (base size : Nat) (ram ram' : Ram) : Prop where
  syscalls : ∀ i, i + 1 < size → OutsideStubs stubs (base + i) → ram'.IsUd2 (base + i) →
    ∀ regs : Registers, regs.rip = base + i →
      (sigillHandler exports stubs hostFs ram' regs = dispatchSyscall ram' regs ↔
        ram.IsSyscall (base + i))
  reported : ∀ i, i + 1 < size → OutsideStubs stubs (base + i) → ram.IsUd2 (base + i) →
    ∀ regs : Registers, regs.rip = base + i →
      sigillHandler exports stubs hostFs ram' regs = .error .realSigill

/-- All registers 0 but the two that tell a dispatched system call. -/
def Registers.trappedAt (rip rax : Nat) : Registers where
  rip := rip
  rsp := 0
  rax := rax
  rdi := 0
  rsi := 0
  rdx := 0
  rcx := 0
  r8 := 0
  r9 := 0
  r10 := 0
  fpregs := none

/-- Traps are told apart exactly if the buffer had no `UD2` of its own, and, in
a thread without an FS base of the host, no system call either. -/
theorem sigillHandler_trapsFaithful_iff (p : Profile) (exports : HleExports)
    {stubs : Option StubAllocator} (inRegion : StubsInRegion stubs) (hostFs : Nat)
    {base size : Nat} (bounded : base + size ≤ 2 ^ 64) (ram : Ram) {result : Ram × Nat}
    (patched : patchSyscalls p base size ram = .ok result) :
    TrapsFaithful exports stubs hostFs base size ram result.1 ↔
      ∀ i, i + 1 < size → OutsideStubs stubs (base + i) →
        ¬ ram.IsUd2 (base + i) ∧ (hostFs = 0 → ¬ ram.IsSyscall (base + i)) := by
  have ud2 : ∀ i, i + 1 < size →
      (result.1.IsUd2 (base + i) ↔ ram.IsUd2 (base + i) ∨ ram.IsSyscall (base + i)) := by
    intro i inside
    have same : ∀ k ≤ i + 1, result.1 (base + k) = ram.patched base size (base + k) :=
      fun k le => patchSyscalls_eq_ok (by omega) bounded patched (by omega)
    have here : result.1.IsUd2 (base + i) ↔ (ram.patched base size).IsUd2 (base + i) :=
      and_congr (by rw [same i (by omega)]) (by rw [Nat.add_assoc, same (i + 1) le_rfl])
    rw [here, Ram.patched_isUd2]
    exact or_congr_right (and_iff_left ⟨by omega, by omega⟩)
  constructor
  · intro faithful i inside outside
    have notStub := isStub_of_outside inRegion outside
    refine ⟨fun own => ?_, fun unhosted pair => ?_⟩
    · have now := (ud2 i inside).mpr (.inl own)
      have reported := faithful.reported i inside outside own (.trappedAt (base + i) 0) rfl
      exact absurd reported (sigillHandler_ne_realSigill now notStub)
    · -- the exit that the dispatcher would have made tells the two apart
      have now := (ud2 i inside).mpr (.inr pair)
      subst unhosted
      have dispatched := (faithful.syscalls i inside outside now (.trappedAt (base + i) 1) rfl).mpr
        pair
      rw [sigillHandler_unhosted now notStub] at dispatched
      cases dispatched
  · intro clean
    refine ⟨fun i inside outside now regs here => ?_, fun i inside outside own => ?_⟩
    · obtain ⟨own, unhosted⟩ := clean i inside outside
      have pair := ((ud2 i inside).mp now).resolve_left own
      refine iff_of_true ?_ pair
      exact sigillHandler_of_ud2 (fun zero => unhosted zero pair) (here ▸ now)
        (here ▸ isStub_of_outside inRegion outside)
    · exact absurd own (clean i inside outside).1

def Ram.withCode (code : List UInt8) : Ram := Ram.write (fun _ => 0) 0x1000 code

theorem sigillHandler_trapsFaithful_iff_syscall :
    ∃ result, patchSyscalls .dev 0x1000 3 (.withCode [0x0F, 0x05, 0xC3]) = .ok result ∧
      TrapsFaithful (fun _ _ ram => .ok (0, ram)) none 1 0x1000 3
        (.withCode [0x0F, 0x05, 0xC3]) result.1 := by
  have few : (Ram.withCode [0x0F, 0x05, 0xC3]).syscallCount 0x1000 3 < 2 ^ 32 := by decide
  have returns : (patchSyscalls .dev 0x1000 3 (.withCode [0x0F, 0x05, 0xC3])).Returns :=
    (patchSyscalls_returns (by decide) (by decide)).mpr fun _ => few
  obtain ⟨result, patched⟩ := returns
  have clean : ∀ i < 2, ¬ (Ram.withCode [0x0F, 0x05, 0xC3]).IsUd2 (0x1000 + i) := by decide
  exact ⟨result, patched, (sigillHandler_trapsFaithful_iff .dev _ stubsInRegion_none 1
    (by decide) _ patched).mpr fun i inside _ => ⟨clean i (by omega), nofun⟩⟩

/-- A `UD2` of the guest is dispatched as a system call. -/
theorem sigillHandler_trapsFaithful_fails_ud2 :
    ∃ result, patchSyscalls .dev 0x1000 3 (.withCode [0x0F, 0x0B, 0xC3]) = .ok result ∧
      (Ram.withCode [0x0F, 0x0B, 0xC3]).IsUd2 0x1000 ∧
      sigillHandler (fun _ _ ram => .ok (0, ram)) none 1 result.1 (.trappedAt 0x1000 20) =
        .ok (.trappedAt 0x1002 0, result.1) ∧
      ¬ TrapsFaithful (fun _ _ ram => .ok (0, ram)) none 1 0x1000 3
        (.withCode [0x0F, 0x0B, 0xC3]) result.1 := by
  have few : (Ram.withCode [0x0F, 0x0B, 0xC3]).syscallCount 0x1000 3 < 2 ^ 32 := by decide
  have returns : (patchSyscalls .dev 0x1000 3 (.withCode [0x0F, 0x0B, 0xC3])).Returns :=
    (patchSyscalls_returns (by decide) (by decide)).mpr fun _ => few
  obtain ⟨result, patched⟩ := returns
  have own : (Ram.withCode [0x0F, 0x0B, 0xC3]).IsUd2 0x1000 := by decide
  have kept : ∀ x < 2 ^ 64, result.1 x = (Ram.withCode [0x0F, 0x0B, 0xC3]).patched 0x1000 3 x :=
    fun x word => patchSyscalls_eq_ok (by decide) (by decide) patched word
  have now : result.1.IsUd2 0x1000 :=
    ⟨(kept _ (by decide)).trans (by decide), (kept _ (by decide)).trans (by decide)⟩
  have handled : sigillHandler (fun _ _ ram => .ok (0, ram)) none 1 result.1
      (.trappedAt 0x1000 20) = .ok (.trappedAt 0x1002 0, result.1) :=
    sigillHandler_of_ud2 (by decide) now rfl
  refine ⟨result, patched, own, handled, fun faithful => ?_⟩
  have reported := faithful.reported 0 (by decide) nofun own (.trappedAt 0x1000 20) rfl
  rw [handled] at reported
  cases reported

end AnotherPs4
