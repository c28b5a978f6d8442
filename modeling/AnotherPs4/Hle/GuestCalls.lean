import AnotherPs4.Hle.Dispatcher
import AnotherPs4.Hle.ExportRuns
import AnotherPs4.Hle.ThreadFs
import AnotherPs4.Linker.Imports
import AnotherPs4.Linker.Order

/-!
# Calls through traps

The guest knows nothing of the exports. It jumps to a stub, traps, and the signal
handler calls the function that the stub stands for. What the guest sees is a
call by name.
-/

namespace AnotherPs4

open Rust RangeMap Kernel Transition

/-! ### The machine -/

/-- The arguments from the registers and the stack, in the order of the handler. -/
def ExportArgs.ofWords (words : List Nat) : ExportArgs :=
  let word k := UInt64.ofNat (words[k]?.getD 0)
  { rdi := word 0, rsi := word 1, rdx := word 2, rcx := word 3, r8 := word 4, r9 := word 5
    stackArg7 := word 6, xmm0Bits := word 7, xmm1Bits := word 8 }

def Registers.words (regs : Registers) (ram : Ram) : List Nat :=
  [regs.rdi, regs.rsi, regs.rdx, regs.rcx, regs.r8, regs.r9,
    if regs.rsp ≠ 0 then ram.read64 (regs.rsp + 8) else 0,
    regs.fpregs.elim 0 (·.xmm0.1), regs.fpregs.elim 0 (·.xmm1)]

def Registers.exportArgs (regs : Registers) (ram : Ram) : ExportArgs := .ofWords (regs.words ram)

def Registers.returned (regs : Registers) (name : String) (value ret : Nat) : Registers :=
  let regs :=
    if isFloatFunction name then
      { regs with fpregs := regs.fpregs.map ({ · with xmm0 := (value, 0) }), rax := 0 }
    else { regs with rax := value }
  { regs with rsp := regs.rsp + 8, rip := ret }

def stubAt (stubs : Option StubAllocator) (addr : Nat) : Option String :=
  if isStub stubs addr then some (getStubName stubs ((getStubIndex stubs addr).getD 0)) else none

section Model

variable {File : Type} (p : Profile) (ops : FileOps File) (host : ExportHost File)

/-- The dispatcher as the handler calls it. No panic leaves the handler. -/
def exportsAt (state : GuestState File) : HleExports := fun name words ram =>
  match hleExportDispatcher p ops host name (.ofWords words) { state with ram } with
  | .ok (value, next) => .ok (value, next.ram)
  | .err .exit => .error .exit
  | .err .fault => .error .abort
  | .panic _ => .error .abort

/-- What the export of a trap returned and left, if one was called. -/
def calledAt (stubs : Option StubAllocator) (hostFs : Nat) (regs : Registers)
    (state : GuestState File) : Nat × GuestState File :=
  match if hostFs = 0 then none else stubAt stubs regs.rip with
  | none => (0, state)
  | some name =>
    match hleExportDispatcher p ops host name (regs.exportArgs state.ram) state with
    | .ok result => result
    | _ => (0, state)

end Model

/-- Threads by their id, the FS bases that the handlers look up, and the guest. -/
structure Machine (File : Type) where
  threads : Nat → Registers
  fsMap : List FsSlot
  guest : GuestState File

/-- What a handler found and what it left. -/
structure Trap where
  hostFs : Nat
  regs : Registers
  ram : Ram
  value : Nat
  regs' : Registers
  ram' : Ram

/-- Between traps a thread stores and changes its registers as it likes. A thread that
the host starts writes to its TCB before it enters the guest. -/
inductive MachineEvent where
  | run (tid : Nat) (regs : Registers) (dest : Nat) (bytes : List UInt8)
  | register (tid fsBase : Nat)
  | start (thread : NativeThread)
  | trap (tid : Nat) (trap : Trap)

def MachineEvent.shows (stubs : Option StubAllocator) : MachineEvent → List GuestEvent
  | run _ _ dest bytes => [.store dest bytes]
  | register _ _ => []
  | start thread => [.start thread]
  | trap _ ⟨hostFs, regs, ram, value, _, _⟩ =>
    match if hostFs = 0 then none else stubAt stubs regs.rip with
    | none => []
    | some name => [.call name (regs.exportArgs ram) ram value]

section Steps

variable {File : Type}

inductive MachineStep (p : Profile) (ops : FileOps File) (stubs : Option StubAllocator) :
    Machine File → MachineEvent → Machine File → Prop where
  | run {machine tid regs dest bytes} :
      MachineStep p ops stubs machine (.run tid regs dest bytes)
        { machine with
          threads := Function.update machine.threads tid regs
          guest := { machine.guest with ram := machine.guest.ram.write dest bytes } }
  | register {machine tid fsBase} :
      MachineStep p ops stubs machine (.register tid fsBase)
        { machine with fsMap := registerThreadFs tid fsBase machine.fsMap }
  | start {machine thread guest} : GuestStep p ops machine.guest (.start thread) guest →
      MachineStep p ops stubs machine (.start thread) { machine with guest }
  | trap {machine tid hostFs regs called result} (host : ExportHost File) : host.Lawful →
      getThreadFs tid machine.fsMap = hostFs → machine.threads tid = regs →
      sigillHandler (exportsAt p ops host machine.guest) stubs hostFs machine.guest.ram regs =
        .ok result →
      calledAt p ops host stubs hostFs regs machine.guest = called →
      MachineStep p ops stubs machine
        (.trap tid ⟨hostFs, regs, machine.guest.ram, called.1, result.1, result.2⟩)
        { machine with
          threads := Function.update machine.threads tid result.1
          guest := called.2 }

end Steps

/-- The registers that a trap leaves. A stub returns to its caller, and every
other `UD2` is skipped as a system call that returns 0. -/
def Trap.Served (stubs : Option StubAllocator) (trap : Trap) : Prop :=
  match stubAt stubs trap.regs.rip with
  | some name =>
    if trap.hostFs = 0 then trap.regs' = { trap.regs with
        rsp := trap.regs.rsp + 8, rip := trap.ram.read64 trap.regs.rsp, rax := 0 }
    else trap.regs' = trap.regs.returned name trap.value (trap.ram'.read64 trap.regs.rsp)
  | none => trap.regs' = { trap.regs with rip := trap.regs.rip + 2, rax := 0 } ∧
      (trap.hostFs ≠ 0 → trap.regs.rax ≠ 1)

/-! ### One trap -/

section Traps

variable {File : Type} {p : Profile} {ops : FileOps File} {host : ExportHost File}
  {stubs : Option StubAllocator} {state : GuestState File} {regs : Registers}
  {result : Registers × Ram}

theorem stubAt_of_leadsTo {addr : Nat} {name : String} (leads : LeadsTo stubs addr name) :
    stubAt stubs addr = some name := by
  obtain ⟨inUse, idx, index, same⟩ := leads
  rw [stubAt, if_pos inUse, index, Option.getD_some, same]

theorem stubAt_eq_some {addr : Nat} {name : String} : stubAt stubs addr = some name ↔
    isStub stubs addr = true ∧ getStubName stubs ((getStubIndex stubs addr).getD 0) = name := by
  unfold stubAt
  split
  · next inUse => simp [inUse]
  · next outside => simp [outside]

theorem callStub_eq_ok {exports : HleExports} {ram : Ram} {name : String}
    (same : getStubName stubs ((getStubIndex stubs regs.rip).getD 0) = name) :
    callStub exports stubs ram regs = .ok result ↔
      ∃ value ram', exports name (regs.words ram) ram = .ok (value, ram') ∧
        result = (regs.returned name value (ram'.read64 regs.rsp), ram') := by
  unfold callStub
  rw [same]
  dsimp only
  change (exports name (regs.words ram) ram >>= _) = _ ↔ _
  cases exports name (regs.words ram) ram with
  | error stop =>
    constructor
    · intro handled
      cases handled
    · rintro ⟨_, _, called, -⟩
      cases called
  | ok reply =>
    obtain ⟨value, ram'⟩ := reply
    have back : ∀ outcome : Except Stop (Registers × Ram),
        outcome = .ok (regs.returned name value (ram'.read64 regs.rsp), ram') →
        (outcome = .ok result ↔ ∃ value₁ ram₁, (.ok (value, ram') : Except Stop (Nat × Ram)) =
          .ok (value₁, ram₁) ∧ result = (regs.returned name value₁ (ram₁.read64 regs.rsp), ram₁)) := by
      intro outcome same
      rw [same]
      constructor
      · intro handled
        exact ⟨value, ram', rfl, (Except.ok.inj handled).symm⟩
      · rintro ⟨value₁, ram₁, called, rfl⟩
        obtain ⟨rfl, rfl⟩ := Prod.mk.inj (Except.ok.inj called)
        rfl
    apply back
    unfold Registers.returned
    cases isFloatFunction name <;> rfl

theorem exportsAt_eq_ok {name : String} {words : List Nat} {value : Nat} {ram : Ram} :
    exportsAt p ops host state name words state.ram = .ok (value, ram) ↔
      ∃ next, hleExportDispatcher p ops host name (.ofWords words) state = .ok (value, next) ∧
        next.ram = ram := by
  unfold exportsAt
  cases hleExportDispatcher p ops host name (.ofWords words) state with
  | ok called =>
    obtain ⟨value', next⟩ := called
    simp
  | err stop => cases stop <;> simp
  | panic => simp

/-- The handler calls the function of the stub, with its arguments, and returns. -/
theorem sigillHandler_stub {hostFs : Nat} (hosted : hostFs ≠ 0) (ud2 : state.ram.IsUd2 regs.rip)
    {name : String} (stub : stubAt stubs regs.rip = some name) :
    sigillHandler (exportsAt p ops host state) stubs hostFs state.ram regs = .ok result ↔
      ∃ value next, hleExportDispatcher p ops host name (regs.exportArgs state.ram) state =
          .ok (value, next) ∧
        result = (regs.returned name value (next.ram.read64 regs.rsp), next.ram) := by
  obtain ⟨inUse, same⟩ := stubAt_eq_some.mp stub
  rw [sigillHandler, if_neg hosted, if_pos ud2, if_pos inUse]
  rw [callStub_eq_ok same]
  constructor
  · rintro ⟨value, ram, called, rfl⟩
    obtain ⟨next, returned, rfl⟩ := exportsAt_eq_ok.mp called
    exact ⟨value, next, returned, rfl⟩
  · rintro ⟨value, next, returned, rfl⟩
    exact ⟨value, next.ram, exportsAt_eq_ok.mpr ⟨next, returned, rfl⟩, rfl⟩

theorem sigillHandler_ud2 {exports : HleExports} {hostFs : Nat} {ram : Ram}
    (handled : sigillHandler exports stubs hostFs ram regs = .ok result) :
    ram.IsUd2 regs.rip := by
  by_contra foreign
  unfold sigillHandler at handled
  rw [if_neg foreign, if_neg foreign] at handled
  split at handled <;> cases handled

theorem calledAt_stub {hostFs : Nat} (hosted : hostFs ≠ 0) {name : String}
    (stub : stubAt stubs regs.rip = some name) {called : Nat × GuestState File}
    (returned : hleExportDispatcher p ops host name (regs.exportArgs state.ram) state = .ok called) :
    calledAt p ops host stubs hostFs regs state = called := by
  unfold calledAt
  rw [if_neg hosted, stub]
  dsimp only
  rw [returned]

theorem calledAt_other {hostFs : Nat} (other : hostFs = 0 ∨ stubAt stubs regs.rip = none) :
    calledAt p ops host stubs hostFs regs state = (0, state) := by
  unfold calledAt
  rcases other with unhosted | outside
  · rw [if_pos unhosted]
  · rw [outside, ite_self]

theorem dispatchSyscall_eq_ok {ram : Ram} (dispatched : dispatchSyscall ram regs = .ok result) :
    result = ({ regs with rip := regs.rip + 2, rax := 0 }, ram) ∧ regs.rax ≠ 1 := by
  unfold dispatchSyscall hleSyscallDispatcher at dispatched
  by_cases exits : regs.rax = 1
  · rw [if_pos exits] at dispatched
    cases dispatched
  · rw [if_neg exits] at dispatched
    obtain rfl := Except.ok.inj dispatched
    exact ⟨rfl, exits⟩

theorem sigillHandler_other {exports : HleExports} {hostFs : Nat} {ram : Ram}
    (handled : sigillHandler exports stubs hostFs ram regs = .ok result)
    (other : hostFs = 0 ∨ stubAt stubs regs.rip = none) (value : Nat) :
    result.2 = ram ∧ Trap.Served stubs ⟨hostFs, regs, ram, value, result.1, ram⟩ := by
  have ud2 := sigillHandler_ud2 handled
  unfold Trap.Served
  dsimp only
  by_cases inUse : isStub stubs regs.rip = true
  · have stub : stubAt stubs regs.rip = some _ := if_pos inUse
    have unhosted := other.resolve_right (by simp [stub])
    rw [sigillHandler, if_pos unhosted, if_pos ud2, if_pos inUse] at handled
    rw [stub]
    dsimp only
    obtain rfl := Except.ok.inj handled
    exact ⟨rfl, (if_pos unhosted).mpr rfl⟩
  · rw [stubAt, if_neg inUse]
    dsimp only
    unfold sigillHandler at handled
    rw [if_pos ud2, if_pos ud2, if_neg inUse, if_neg inUse] at handled
    split at handled
    · next unhosted =>
      obtain rfl := Except.ok.inj handled
      exact ⟨rfl, rfl, fun hosted => absurd unhosted hosted⟩
    · obtain ⟨rfl, stays⟩ := dispatchSyscall_eq_ok handled
      exact ⟨rfl, rfl, fun _ => stays⟩

end Traps

/-! ### Runs -/

section Runs

variable {File : Type} {p : Profile} {ops : FileOps File} {stubs : Option StubAllocator}
  {machine next start finish : Machine File}

theorem MachineEvent.shows_stub {tid : Nat} {trap : Trap} (hosted : trap.hostFs ≠ 0)
    {name : String} (stub : stubAt stubs trap.regs.rip = some name) :
    (MachineEvent.trap tid trap).shows stubs =
      [.call name (trap.regs.exportArgs trap.ram) trap.ram trap.value] := by
  unfold MachineEvent.shows
  dsimp only
  rw [if_neg hosted, stub]

/-- One step shows the steps of the guest that it is. -/
theorem MachineStep.shows {event : MachineEvent} (step : MachineStep p ops stubs machine event next) :
    Trace (GuestStep p ops) machine.guest (event.shows stubs) next.guest := by
  cases step with
  | run => exact Trace.snoc .nil .store
  | register => exact .nil
  | start step => exact Trace.snoc .nil step
  | @trap tid hostFs regs called result host lawful _ _ handled calls =>
    unfold MachineEvent.shows
    dsimp only
    cases stub : if hostFs = 0 then none else stubAt stubs regs.rip with
    | none =>
      dsimp only
      have other : hostFs = 0 ∨ stubAt stubs regs.rip = none := by
        by_cases unhosted : hostFs = 0
        · exact .inl unhosted
        · rw [if_neg unhosted] at stub
          exact .inr stub
      rw [calledAt_other other] at calls
      rw [← calls]
      exact .nil
    | some name =>
      dsimp only
      by_cases unhosted : hostFs = 0
      · rw [if_pos unhosted] at stub
        cases stub
      · rw [if_neg unhosted] at stub
        obtain ⟨value, after, returned, -⟩ :=
          (sigillHandler_stub unhosted (sigillHandler_ud2 handled) stub).mp handled
        rw [calledAt_stub unhosted stub returned] at calls
        rw [← calls]
        exact Trace.snoc .nil (.call host lawful returned)

theorem MachineStep.served {tid : Nat} {trap : Trap}
    (step : MachineStep p ops stubs machine (.trap tid trap) next) :
    trap.Served stubs ∧ next.guest.ram = trap.ram' := by
  cases step with
  | @trap _ hostFs regs called result host lawful _ _ handled calls =>
    by_cases other : hostFs = 0 ∨ stubAt stubs regs.rip = none
    · obtain ⟨same, served⟩ := sigillHandler_other handled other called.1
      rw [calledAt_other other] at calls
      rw [← calls] at served ⊢
      rw [same]
      exact ⟨served, rfl⟩
    · obtain ⟨hosted, inUse⟩ := not_or.mp other
      obtain ⟨name, stub⟩ := Option.ne_none_iff_exists'.mp inUse
      obtain ⟨value, after, returned, rfl⟩ :=
        (sigillHandler_stub hosted (sigillHandler_ud2 handled) stub).mp handled
      rw [calledAt_stub hosted stub returned] at calls
      rw [← calls]
      refine ⟨?_, rfl⟩
      unfold Trap.Served
      dsimp only
      rw [stub]
      exact (if_neg hosted).mpr rfl

theorem MachineStep.of_stub {tid : Nat} {host : ExportHost File} (lawful : host.Lawful)
    (hosted : getThreadFs tid machine.fsMap ≠ 0)
    (ud2 : machine.guest.ram.IsUd2 (machine.threads tid).rip) {name : String}
    (stub : stubAt stubs (machine.threads tid).rip = some name) {value : Nat}
    {after : GuestState File}
    (returned : hleExportDispatcher p ops host name
      ((machine.threads tid).exportArgs machine.guest.ram) machine.guest = .ok (value, after)) :
    let regs' := (machine.threads tid).returned name value
      (after.ram.read64 (machine.threads tid).rsp)
    MachineStep p ops stubs machine
      (.trap tid ⟨getThreadFs tid machine.fsMap, machine.threads tid, machine.guest.ram, value,
        regs', after.ram⟩)
      { machine with threads := Function.update machine.threads tid regs', guest := after } := by
  have handled := (sigillHandler_stub hosted ud2 stub).mpr ⟨value, after, returned, rfl⟩
  exact .trap host lawful rfl rfl handled (calledAt_stub hosted stub returned)

/-- The name of the stub at an address is the one it was handed out for. -/
theorem stubAt_eq_some_iff {base : Nat} (mapped : (StubAllocator.new base).Mapped)
    {calls : List (String × Nat)} (stubbed : Trace StubCall (some (.new base)) calls stubs)
    (addr : Nat) (name : String) : stubAt stubs addr = some name ↔
      ∃ i < maxStubs, ∃ call, calls[i]? = some call ∧ call.1 = name ∧ call.2 ≤ addr ∧
        addr < call.2 + stubSize := by
  have identify := stubsIdentify mapped stubbed
  have named : ∀ i < maxStubs, ∀ call, calls[i]? = some call → call.2 ≤ addr →
      addr < call.2 + stubSize → stubAt stubs addr = some call.1 := by
    intro i early call found low high
    have leads : LeadsTo stubs (call.2 + (addr - call.2)) call.1 :=
      identify.identified i early call found (addr - call.2) (by omega)
    rw [Nat.add_sub_cancel' low] at leads
    exact stubAt_of_leadsTo leads
  constructor
  · intro stub
    have inUse := (stubAt_eq_some.mp stub).1
    have slot : InSlot calls addr := by
      by_contra outside
      rw [(identify.others addr outside).1] at inUse
      cases inUse
    obtain ⟨i, early, call, found, low, high⟩ := slot
    have same := (named i early call found low high).symm.trans stub
    exact ⟨i, early, call, found, Option.some.inj same, low, high⟩
  · rintro ⟨i, early, call, found, rfl, low, high⟩
    exact named i early call found low high

theorem machine_shows {events : List MachineEvent}
    (run : Trace (MachineStep p ops stubs) start events finish) :
    Trace (GuestStep p ops) start.guest (events.flatMap (MachineEvent.shows stubs)) finish.guest := by
  induction run with
  | nil => exact .nil
  | snoc _ step inductionHypothesis =>
    rw [List.flatMap_append, List.flatMap_singleton]
    exact inductionHypothesis.append step.shows

/-- Through its traps the guest runs as if it called exports by name. Whatever the
threads do, memory, statics and answers are those of a run of calls. A trap in a
stub calls the function that the stub was handed out for, and the thread goes
on behind its call with the answer. Only in a thread without an FS base of the
host the call is skipped. -/
theorem machine_refines_calls {base : Nat} (mapped : (StubAllocator.new base).Mapped)
    {calls : List (String × Nat)} (stubbed : Trace StubCall (some (.new base)) calls stubs)
    {events : List MachineEvent} (run : Trace (MachineStep p ops stubs) start events finish) :
    Trace (GuestStep p ops) start.guest (events.flatMap (MachineEvent.shows stubs)) finish.guest ∧
    (∀ tid trap, .trap tid trap ∈ events → trap.Served stubs) ∧
    ∀ addr name, stubAt stubs addr = some name ↔ ∃ i < maxStubs, ∃ call, calls[i]? = some call ∧
      call.1 = name ∧ call.2 ≤ addr ∧ addr < call.2 + stubSize := by
  refine ⟨machine_shows run, ?_, stubAt_eq_some_iff mapped stubbed⟩
  intro tid trap member
  obtain ⟨earlier, later, rfl⟩ := List.append_of_mem member
  obtain ⟨_, _, -, step, -⟩ := run.split_at
  exact step.served.1

end Runs

def randStubs : StubAllocator := ⟨0x30000, 1, ["rand"]⟩

def Ram.withStub : Ram := Ram.write (fun _ => 1) 0x30000 [0x0F, 0x0B]

def Machine.atStub (guest : GuestState Unit) : Machine Unit where
  threads _ := { Registers.trappedAt 0x30000 5 with rsp := 0x9000 }
  fsMap := registerThreadFs 7 0x7000 threadFsMap
  guest

/-- A registered thread draws a random number. -/
theorem machine_refines_calls_rand :
    ∃ (finish : Machine Unit) (trap : Trap),
      Trace (MachineStep .dev .unreadable (some randStubs))
        (.atStub (.initial .booted .withStub none)) [.trap 7 trap] finish ∧
      Trace (GuestStep .dev .unreadable) (.initial .booted .withStub none)
        [.call "rand" (trap.regs.exportArgs trap.ram) trap.ram 207868892] finish.guest ∧
      trap.regs' = trap.regs.returned "rand" 207868892 0x101010101010101 := by
  obtain ⟨guest, start, seed, memory⟩ : ∃ guest : GuestState Unit,
      guest = .initial .booted .withStub none ∧ guest.randState = 12345 ∧ guest.ram = .withStub :=
    ⟨_, rfl, GuestState.initial_randState, GuestState.initial_ram⟩
  have stubbed : Trace StubCall (some (.new 0x30000)) [("rand", 0x30000)] (some randStubs) := by
    apply Trace.snoc .nil
    unfold StubCall
    decide
  have value : randValue (nextRand 12345) = 207868892 := by decide
  obtain ⟨after, drawn, kept⟩ : ∃ after, hleExportDispatcher .dev .unreadable .roomy "rand"
      (((Machine.atStub guest).threads 7).exportArgs guest.ram) guest = .ok (207868892, after) ∧
      after.ram = guest.ram := by
    rw [dispatch_rand (by decide), seed, value]
    exact ⟨_, rfl, rfl⟩
  have ud2 : guest.ram.IsUd2 0x30000 := by
    rw [memory]
    decide
  have hosted : getThreadFs 7 (registerThreadFs 7 0x7000 threadFsMap) ≠ 0 := by decide
  have stub : stubAt (some randStubs) 0x30000 = some "rand" := by decide
  have step := @MachineStep.of_stub Unit .dev .unreadable (some randStubs) (.atStub guest) 7 .roomy
    ExportHost.roomy_lawful hosted ud2 "rand" stub _ _ drawn
  have run := Trace.snoc Trace.nil step
  obtain ⟨shown, -, -⟩ := machine_refines_calls ⟨by decide, by decide⟩ stubbed run
  rw [List.nil_append, List.flatMap_singleton, MachineEvent.shows_stub hosted stub] at shown
  have ret : after.ram.read64 0x9000 = 0x101010101010101 := by
    rw [kept, memory]
    decide
  rw [← start]
  exact ⟨_, _, run, shown, congrArg (Registers.returned _ "rand" 207868892) ret⟩

section Runs

variable {File : Type} {p : Profile} {ops : FileOps File} {stubs : Option StubAllocator}
  {machine next start finish : Machine File}

/-! ### Imports -/

/-- The word is mapped, and no step so far was told to write to it. -/
structure KeptWord (stubs : Option StubAllocator) (start : Machine File)
    (events : List MachineEvent) (addr : Nat) : Prop where
  bounded : addr + 8 ≤ 2 ^ 64
  mapped : ∃ b, start.guest.InUse b ∧ ∀ k < 8, b.Contains (addr + k)
  untouched : ∀ event ∈ events, ∀ shown ∈ event.shows stubs, ∀ k < 8,
    ¬ Touched shown.touched (addr + k)

theorem Ram.read64_congr {ram ram' : Ram} {addr : Nat}
    (same : ∀ k < 8, ram (addr + k) = ram' (addr + k)) : ram.read64 addr = ram'.read64 addr := by
  unfold Ram.read64
  congr 1
  apply List.map_congr_left
  intro k member
  exact same k (List.mem_range.mp member)

theorem Ram.HoldsWord.read64 {ram : Ram} {addr value : Nat} (holds : ram.HoldsWord addr value)
    (bounded : addr + 8 ≤ 2 ^ 64) (word : value < 2 ^ 64) : ram.read64 addr = value := by
  have bytes : (List.range 8).map (fun k => ram (addr + k)) = leBytes 8 value := by
    apply List.ext_getElem?
    intro k
    by_cases inside : k < 8
    · rw [holds k inside, Nat.mod_eq_of_lt (by omega), List.getElem?_map,
        List.getElem?_range inside]
      rfl
    · rw [List.getElem?_eq_none (by simpa using inside),
        List.getElem?_eq_none (by simpa using inside)]
  rw [Ram.read64, bytes]
  exact leNat_leBytes word

theorem KeptWord.read64 (bounded : ops.Bounded) (managed : start.guest.Managed)
    {events : List MachineEvent} {addr : Nat} (kept : KeptWord stubs start events addr)
    (run : Trace (MachineStep p ops stubs) start events finish) :
    finish.guest.ram.read64 addr = start.guest.ram.read64 addr := by
  obtain ⟨b, inUse, inside⟩ := kept.mapped
  have shown := machine_shows run
  obtain ⟨-, same⟩ := (GuestTrace.private_ bounded shown managed).2 b inUse
  apply Ram.read64_congr
  intro k within
  apply same
  · have := kept.bounded
    omega
  · exact inside k within
  · intro event member
    obtain ⟨cause, listed, shows⟩ := List.mem_flatMap.mp member
    exact kept.untouched cause listed event shows k within

/-- From the name of an import to its function. The guest jumps through a slot that
was relocated before it started and that nobody wrote to since. Then the handler
calls the export of that name with the arguments of the guest, and it returns
to the caller, if the call does not write to the return address. -/
theorem import_calls_export (bounded : ops.Bounded) {base : Nat}
    (mapped : (StubAllocator.new base).Mapped) {registry : Registry}
    (libraries : registerAllLibraries (.new, some (.new base)) = registry) {linker : Linker}
    (hle : linker.hleSymbols = registry.1) {result : Linker × Option StubAllocator}
    (relocated : linker.relocateAll p registry.2 = .ok result) {i : Nat} {job : Job}
    (found : linker.worklist[i]? = some job) (symbolic : job.2.isSymbolic = true)
    (named : job.2.symbolName ≠ "") (addend : job.2.addend = 0) (last : linker.WritesLast i job)
    {events : List MachineEvent} (run : Trace (MachineStep p ops result.2) start events machine)
    (managed : start.guest.Managed) (kept : KeptWord result.2 start events job.slot)
    (linked : ∀ k < 8, start.guest.ram (job.slot + k) = result.1.guest.ram (job.slot + k))
    {tid : Nat} (hosted : getThreadFs tid machine.fsMap ≠ 0)
    (jumped : (machine.threads tid).rip = machine.guest.ram.read64 job.slot)
    (notNull : (machine.threads tid).rip ≠ 0)
    (ud2 : machine.guest.ram.IsUd2 (machine.threads tid).rip) (host : ExportHost File) :
    let regs := machine.threads tid
    let name := exportName libkernel job.2.symbolName
    let args := regs.exportArgs machine.guest.ram
    (∀ after, sigillHandler (exportsAt p ops host machine.guest) result.2
        (getThreadFs tid machine.fsMap) machine.guest.ram regs = .ok after ↔
      ∃ value next, hleExportDispatcher p ops host name args machine.guest = .ok (value, next) ∧
        after = (regs.returned name value (next.ram.read64 regs.rsp), next.ram)) ∧
    ∀ value next, host.Lawful →
      hleExportDispatcher p ops host name args machine.guest = .ok (value, next) →
      regs.rsp + 8 ≤ 2 ^ 64 → (∃ b, machine.guest.InUse b ∧ ∀ k < 8, b.Contains (regs.rsp + k) ∧
        ¬ Touched ((exportOf name).footprint machine.guest.ram args) (regs.rsp + k)) →
      next.ram.read64 regs.rsp = machine.guest.ram.read64 regs.rsp := by
  intro regs name args
  obtain ⟨calls, after⟩ := registerAllLibraries_after base
  rw [libraries] at after
  obtain ⟨word, leads⟩ := Linker.import_leadsTo mapped after hle relocated found symbolic named rfl
  have addr : regs.rip =
      importAddr linker.hleSymbols registry.2 (linker.stubsBefore i) job.2.symbolName := by
    have holds := Linker.importSlot_holds relocated found symbolic last
    have zero : unsigned 64 job.2.addend = 0 := by
      rw [addend]
      rfl
    rw [zero, Nat.add_zero, Nat.mod_eq_of_lt word] at holds
    rw [jumped, kept.read64 bounded managed run, Ram.read64_congr linked]
    exact holds.read64 kept.bounded word
  rw [← addr] at leads
  refine ⟨fun _ => sigillHandler_stub hosted ud2 (stubAt_of_leadsTo (leads notNull)), ?_⟩
  rintro value next lawful returned inside ⟨b, inUse, stack⟩
  have managed' := (GuestTrace.private_ bounded (machine_shows run) managed).1
  have call : GuestStep p ops machine.guest (.call name args machine.guest.ram value) next :=
    .call host lawful returned
  have same := ((GuestTrace.private_ bounded (.snoc .nil call) managed').2 b inUse).2
  apply Ram.read64_congr
  intro k within
  apply same
  · omega
  · exact (stack k within).1
  · intro event member
    obtain rfl := List.mem_singleton.mp member
    exact (stack k within).2

end Runs

def randImport : ParsedRelocation := ⟨0, rX86_64JumpSlot, 0, "cpCOXWMgha0#B#C", 1, 2, true⟩

def randJob : Job := (Linker.bareModule 0x1000000000 [randImport], randImport)

def randLinker (memory : MemoryManager) (hleSymbols : SymbolResolver) : Linker :=
  { Linker.new { Guest.booted with memory } with modules := [randJob.1], hleSymbols }

theorem randLinker_importAddr {registry : Registry} {calls : List (String × Nat)}
    (after : registry.After 0x7f1000000000 libkernel calls) :
    importAddr registry.1 registry.2 0 "cpCOXWMgha0#B#C" = 0x7f1000000670 := by
  have absent : ∀ name ∉ libkernel, registry.1.resolve name = none := by
    intro name foreign
    rw [← after.names] at foreign
    rw [after.files.resolve]
    apply List.lookup_eq_none_iff.mpr
    intro call member
    apply bne_iff_ne.mpr
    rintro rfl
    exact foreign (List.mem_map_of_mem member)
  have missing : hleAddress registry.1 "cpCOXWMgha0#B#C" = none := by
    rw [hleAddress, absent _ (by decide +kernel), absent _ (by decide +kernel)]
    rfl
  obtain ⟨alloc, same, state⟩ := StubAllocator.after_of_trace after.run
  have length : calls.length = 103 := by
    rw [← List.length_map, after.names]
    rfl
  have used : alloc.used = 103 := by
    rw [state.used, length]
    rfl
  rw [importAddr, if_neg (by decide), missing, Option.getD_none, same, slotAddr, used,
    state.sameBase]
  rfl

def Registers.atRand : Registers := { Registers.trappedAt 0x7f1000000670 5 with rsp := 0x9000 }

/-- A guest jumps through the slot of `rand`. -/
theorem import_calls_export_rand :
    ∃ (mm : MemoryManager) (registry : Registry) (result : Linker × Option StubAllocator)
      (machine : Machine Unit),
      registerAllLibraries (.new, some (.new 0x7f1000000000)) = registry ∧
      (randLinker mm registry.1).relocateAll .dev registry.2 = .ok result ∧
      (machine.threads 7).rip = machine.guest.ram.read64 0x1000000000 ∧
      ∃ after, sigillHandler (exportsAt .dev .unreadable .roomy machine.guest) result.2
          (getThreadFs 7 machine.fsMap) machine.guest.ram (machine.threads 7) = .ok after ∧
        after.1 = (machine.threads 7).returned "rand" 207868892 (after.2.read64 0x9000) := by
  obtain ⟨registry, libraries⟩ : ∃ registry,
      registerAllLibraries (.new, some (.new 0x7f1000000000)) = registry := ⟨_, rfl⟩
  obtain ⟨calls, after⟩ := registerAllLibraries_after 0x7f1000000000
  rw [libraries] at after
  -- a block of the guest over the slot
  have place : (fun called => (called.1, decide (SlotAllowed .dev
      ({ Guest.booted with memory := called.2 } : Guest).writable 0x1000000000))) <$>
      (MapRequest.heapAlloc "heap_alloc" 32).call .dev .roomy .booted =
      .ok (.ok 0x1000000000, true) := by decide +kernel
  obtain ⟨⟨reply, mm⟩, called, same⟩ := Outcome.map_eq_ok.mp place
  obtain ⟨rfl, allowed⟩ := Prod.mk.inj same
  have adds := MapRequest.call_adds Host.roomy_lawful
    (MemoryManager.new_wellFormed HostBoot.low_lawful MemoryManager.new_low).1 (by decide)
    (by decide) (by decide) called
  have size : roundUp (MapRequest.heapAlloc "heap_alloc" 32).size pageSize = pageSize := by decide
  rw [size] at adds
  obtain ⟨result, relocated⟩ : ((randLinker mm registry.1).relocateAll .dev registry.2).Returns := by
    apply Linker.relocateAll_returns.mpr
    intro job member
    obtain rfl := List.mem_singleton.mp member
    exact ⟨fun _ => by decide, fun _ => of_decide_eq_true allowed⟩
  have found : (randLinker mm registry.1).worklist[0]? = some randJob := rfl
  have last : (randLinker mm registry.1).WritesLast 0 randJob := by
    intro j other later listed
    cases (List.getElem?_eq_none (Nat.succ_le_of_lt later)).symm.trans listed
  have slot : result.1.guest.ram.HoldsWord 0x1000000000 0x7f1000000670 := by
    have holds := Linker.importSlot_holds relocated found (by decide) last
    have first : importAddr (randLinker mm registry.1).hleSymbols registry.2
        ((randLinker mm registry.1).stubsBefore 0) randJob.2.symbolName = 0x7f1000000670 :=
      randLinker_importAddr after
    rw [first] at holds
    exact holds
  obtain ⟨guest, manager, seed, memory⟩ : ∃ guest : GuestState Unit,
      guest.exports.memoryManager = some mm ∧ guest.randState = 12345 ∧
        guest.ram = result.1.guest.ram.write 0x7f1000000670 [0x0F, 0x0B] :=
    ⟨.initial mm _ none, rfl, GuestState.initial_randState, GuestState.initial_ram⟩
  have run : Trace (MachineStep .dev .unreadable result.2) ⟨fun _ => .atRand, threadFsMap, guest⟩
      [.register 7 0x7000] ⟨fun _ => .atRand, registerThreadFs 7 0x7000 threadFsMap, guest⟩ :=
    Trace.snoc Trace.nil MachineStep.register
  have linked : ∀ k < 8, guest.ram (0x1000000000 + k) = result.1.guest.ram (0x1000000000 + k) := by
    intro k within
    rw [memory]
    apply Ram.write_outside
    · decide
    · omega
    · rw [List.length_cons, List.length_singleton]
      omega
  have word : guest.ram.read64 0x1000000000 = 0x7f1000000670 := by
    rw [Ram.read64_congr linked]
    exact slot.read64 (by decide) (by decide)
  have ud2 : guest.ram.IsUd2 0x7f1000000670 := by
    rw [memory]
    constructor
    · exact Ram.write_inside (k := 0) (by decide) (by decide)
    · exact Ram.write_inside (k := 1) (by decide) (by decide)
  have place : randJob.slot = 0x1000000000 := by decide
  have kept : KeptWord result.2 ⟨fun _ => .atRand, threadFsMap, guest⟩ [.register 7 0x7000]
      randJob.slot := by
    rw [place]
    refine ⟨by decide, ⟨(0x1000000000, pageSize), ⟨mm, manager, adds.mapped⟩, ?_⟩, ?_⟩
    · intro k within
      unfold Block.Contains pageSize
      dsimp only
      omega
    · intro event member shown shows
      obtain rfl := List.mem_singleton.mp member
      cases shows
  have hosted : getThreadFs 7 (registerThreadFs 7 0x7000 threadFsMap) ≠ 0 := by decide
  have managed : guest.Managed := ⟨mm, manager, adds.wf⟩
  have bounded : FileOps.unreadable.Bounded := fun _ _ _ _ read => by cases read
  have jumped : Registers.atRand.rip = guest.ram.read64 randJob.slot := by
    rw [place, word]
    rfl
  have name : exportName libkernel randJob.2.symbolName = "rand" := by decide +kernel
  have value : randValue (nextRand 12345) = 207868892 := by decide
  obtain ⟨next, drawn⟩ : ∃ next, hleExportDispatcher .dev .unreadable .roomy "rand"
      (Registers.atRand.exportArgs guest.ram) guest = .ok (207868892, next) := by
    rw [dispatch_rand (by decide), seed, value]
    exact ⟨_, rfl⟩
  have notNull : Registers.atRand.rip ≠ 0 := by decide
  have called := (import_calls_export bounded ⟨by decide, by decide⟩ libraries rfl relocated found
    (by decide) (by decide) rfl last run managed kept (by rw [place]; exact linked) hosted jumped
    notNull ud2 .roomy).1
  rw [name] at called
  exact ⟨mm, registry, result, _, libraries, relocated, word.symm, _,
    (called _).mpr ⟨_, next, drawn, rfl⟩, rfl⟩

end AnotherPs4
