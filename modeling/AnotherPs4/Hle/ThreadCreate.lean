import AnotherPs4.Hle.DirectMemory
import AnotherPs4.Linker.Ram
import AnotherPs4.Memory.FirstRoom
import AnotherPs4.Rust.Utf8

/-!
# Thread creation

`scePthreadCreate` maps a TCB, maps a stack and spawns a host thread. Each of
the three may fail. A mapping that was made stays when the other fails, and
nobody looks at the outcome of the spawn.
-/

namespace AnotherPs4

open Rust RangeMap Transition

/-- What the closure of a spawned thread captures. -/
structure NativeThread where
  name : String
  startRoutine : Nat
  arg : Nat
  rsp : Nat
  tcbBase : Nat
  deriving DecidableEq, Repr

namespace NativeThread

def tcbSize : Nat := 4096

def stackSize : Nat := 2 * 1024 * 1024

/-- The mapping of the TCB, which takes a whole page. -/
def tcb (thread : NativeThread) : Block := (thread.tcbBase, pageSize)

/-- The mapping of the stack, which ends one word above the entry stack pointer. -/
def stack (thread : NativeThread) : Block := (thread.rsp + 8 - stackSize, stackSize)

/-- The first thing that the thread itself writes is the pointer of the TCB to itself. -/
def writeTcb (thread : NativeThread) (ram : Ram) : Ram :=
  ram.write64 thread.tcbBase thread.tcbBase

end NativeThread

/-- Arguments of `scePthreadCreate`. The name is the bytes of a C string. -/
structure ThreadCall where
  threadOut : Nat
  attr : Nat
  startRoutine : Nat
  arg : Nat
  name : Option (List UInt8)
  word : threadOut < 2 ^ 64

def ThreadCall.threadName (call : ThreadCall) : String := call.name.elim "unnamed" fromUtf8Lossy

/-- The host during one call: its answers to the two `mmap` calls, and whether
it can start a thread. -/
structure ThreadHost where
  tcb : Host
  stack : Host
  spawns : Bool

structure ThreadHost.Lawful (host : ThreadHost) : Prop where
  tcb : host.tcb.Lawful
  stack : host.stack.Lawful

structure ThreadState where
  exports : ExportState
  ram : Ram
  threads : List NativeThread

def MapRequest.threadData (name : String) (size : Nat) : MapRequest where
  virtualAddr := 0
  size := size
  prot := .union .cpuRead .cpuWrite
  flags := .union .anonymous .priv
  vmaType := .threadData
  name := name

/-- `map_memory(..).unwrap_or(0)`. Fresh pages hold zeros. -/
def mapThreadData (p : Profile) (host : Host) (mm : MemoryManager) (ram : Ram) (size : Nat)
    (name : String) : Outcome Empty (Nat × MemoryManager × Ram) := do
  let (result, mm) ← (MapRequest.threadData name size).call p host mm
  match result with
  | .ok addr => return (addr, mm, ram.zero addr (roundUp size pageSize))
  | .error _ => return (0, mm, ram)

def startNativeThread (p : Profile) (spawns : Bool) (state : ThreadState) (call : ThreadCall)
    (name : String) (tcbBase stackBase : Nat) : Outcome Empty (Nat × ThreadState) := do
  let stackEnd ← p.add 64 stackBase NativeThread.stackSize
  let rsp ← p.sub 64 (stackEnd &&& complement 64 0xF) 8
  let ram := state.ram.write64 rsp 0
  let ram := if call.threadOut = 0 then ram else ram.write64 call.threadOut tcbBase
  let thread : NativeThread :=
    { name, startRoutine := call.startRoutine, arg := call.arg, rsp, tcbBase }
  -- `let _ =` drops the error of the spawn
  let threads := if spawns then state.threads ++ [thread] else state.threads
  return (0, { state with ram, threads })

def scePthreadCreate (p : Profile) (host : ThreadHost) (state : ThreadState) (call : ThreadCall) :
    Outcome Empty (Nat × ThreadState) :=
  match state.exports.memoryManager with
  | none => .ok (hleOutOfMemory, state)
  | some mm => do
    let name := call.threadName
    let (tcbBase, mm, ram) ← mapThreadData p host.tcb mm state.ram NativeThread.tcbSize
      ("Thread TCB: " ++ name)
    let (stackBase, mm, ram) ← mapThreadData p host.stack mm ram NativeThread.stackSize
      ("Thread Stack: " ++ name)
    let state := { state with exports := { state.exports with memoryManager := some mm }, ram }
    if tcbBase ≠ 0 ∧ stackBase ≠ 0 then
      startNativeThread p host.spawns state call name tcbBase stackBase
    else return (hleOutOfMemory, state)

def ThreadState.vmaMap (state : ThreadState) : Option VMAMap :=
  state.exports.memoryManager.map (·.vmaMap)

/-- A thread was started for the call. It has a TCB and a stack that nobody had
before, so no other thread has them. -/
structure ThreadCall.Started (call : ThreadCall) (state next : ThreadState)
    (mm mm' : MemoryManager) (thread : NativeThread) : Prop where
  before : state.exports.memoryManager = some mm
  after : next.exports.memoryManager = some mm'
  spawned : next.threads = state.threads ++ [thread]
  entry : thread.startRoutine = call.startRoutine ∧ thread.arg = call.arg
  written : call.threadOut ≠ 0 → next.ram.HoldsWord call.threadOut thread.tcbBase
  tcb : mm'.InUse thread.tcb
  stack : mm'.InUse thread.stack
  apart : thread.tcb.Apart thread.stack
  unshared : ∀ b, mm.InUse b → b.Apart thread.tcb ∧ b.Apart thread.stack

structure AllOrNothing (call : ThreadCall) (state : ThreadState) (code : Nat)
    (next : ThreadState) : Prop where
  failed : code ≠ 0 → next.vmaMap = state.vmaMap ∧
    ∀ k < 8, next.ram ((call.threadOut + k) % 2 ^ 64) = state.ram ((call.threadOut + k) % 2 ^ 64)
  started : code = 0 → ∃ mm mm' thread, call.Started state next mm mm' thread

namespace ThreadHost

/-- There is room for the TCB and behind it for the stack, the host maps both,
not at address 0, and starts the thread. -/
def Complete (host : ThreadHost) (mm : MemoryManager) : Prop :=
  host.spawns = true ∧ ∃ tcbBase stackBase, tcbBase ≠ 0 ∧
    host.tcb.MapsFirst mm 0 pageSize tcbBase ∧
    host.stack.MapsFirst mm (tcbBase + pageSize) NativeThread.stackSize stackBase

def Neither (host : ThreadHost) (mm : MemoryManager) : Prop :=
  (∀ addr, ¬ host.tcb.MapsFirst mm 0 pageSize addr) ∧
    ∀ addr, ¬ host.stack.MapsFirst mm 0 NativeThread.stackSize addr

/-- The steps agree: there is no manager, nothing is missing, or nothing can be mapped. -/
def Unanimous (host : ThreadHost) (state : ThreadState) : Prop :=
  ∀ mm, state.exports.memoryManager = some mm → host.Complete mm ∨ host.Neither mm

end ThreadHost

/-! ### One call -/

section Call

variable {p : Profile} {host : Host} {mm : MemoryManager}

/-- A mapping fails and changes nothing, or goes to the first room. -/
theorem mapThreadData_cases (lawful : host.Lawful) (wf : mm.vmaMap.WellFormed) {size n : Nat}
    (rounds : roundUp size pageSize = n) (small : size ≤ hostLimit) (ram : Ram) (name : String) :
    (mapThreadData p host mm ram size name = .ok (0, mm, ram) ∧ ∀ addr, ¬ host.MapsFirst mm 0 n addr) ∨
      ∃ addr mm', mapThreadData p host mm ram size name = .ok (addr, mm', ram.zero addr n) ∧
        host.MapsFirst mm 0 n addr ∧ mm.Adds (addr, n) mm' ∧
        ∀ (next : Host) longer x, n ≤ longer →
          (next.MapsFirst mm' 0 longer x ↔ next.MapsFirst mm (addr + n) longer x) := by
  subst rounds
  have word : size < 2 ^ 64 := lt_of_le_of_lt small (by decide)
  have free : ¬ (MapRequest.threadData name size).fixed := fun fixed => fixed.1 rfl
  have plain : (MapRequest.threadData name size).prot.contains .cpuExec = false :=
    (by decide : (MemoryProt.cpuRead.union .cpuWrite).contains .cpuExec = false)
  have inUse : (MapRequest.threadData name size).vmaType ≠ .free :=
    (by decide : VMAType.threadData ≠ .free)
  have first : ∀ addr, (∃ mm', (MapRequest.threadData name size).call p host mm =
      .ok (.ok addr, mm')) ↔ host.MapsFirst mm 0 (roundUp size pageSize) addr :=
    fun addr => MapRequest.call_iff_mapsFirst lawful wf word free plain
  rcases MemoryManager.mapMemory_spec p (r := .threadData name size) lawful wf small with
    ⟨e, failed⟩ | ⟨addr, map, mapped, -⟩
  · refine .inl ⟨by simp [mapThreadData, failed], fun addr maps => ?_⟩
    obtain ⟨mm', returned⟩ := (first addr).mpr maps
    rw [failed] at returned
    cases returned
  · refine .inr ⟨addr, _, by simp [mapThreadData, mapped], (first addr).mp ⟨_, mapped⟩,
      MapRequest.call_adds lawful wf word free inUse mapped, fun next longer x le => ?_⟩
    exact MapRequest.mapsFirst_after_call lawful wf word mapped inUse free plain le next

theorem startNativeThread_eq {stackBase : Nat} (page : pageSize ∣ stackBase)
    (bounded : stackBase + NativeThread.stackSize ≤ hostLimit) (spawns : Bool)
    (state : ThreadState) (call : ThreadCall) (name : String) (tcbBase : Nat) :
    ∃ ram thread, startNativeThread p spawns state call name tcbBase stackBase =
        .ok (0, { state with
          ram, threads := if spawns then state.threads ++ [thread] else state.threads }) ∧
      (call.threadOut ≠ 0 → ram.HoldsWord call.threadOut tcbBase) ∧
      thread.tcbBase = tcbBase ∧ thread.stack = (stackBase, NativeThread.stackSize) ∧
      thread.startRoutine = call.startRoutine ∧ thread.arg = call.arg := by
  have word : stackBase + NativeThread.stackSize < 2 ^ 64 := lt_of_le_of_lt bounded (by decide)
  have aligned : (stackBase + NativeThread.stackSize) &&& complement 64 0xF =
      stackBase + NativeThread.stackSize := by
    have mask : 0xF = 2 ^ 4 - 1 := by decide
    rw [mask, land_complement_low word (by decide)]
    refine Nat.div_mul_cancel (Dvd.dvd.add ?_ (by decide))
    exact (by decide : 2 ^ 4 ∣ pageSize).trans page
  have room : 8 ≤ stackBase + NativeThread.stackSize := Nat.le_add_left_of_le (by decide)
  let rsp := stackBase + NativeThread.stackSize - 8
  let ram := state.ram.write64 rsp 0
  refine ⟨if call.threadOut = 0 then ram else ram.write64 call.threadOut tcbBase,
    ⟨name, call.startRoutine, call.arg, rsp, tcbBase⟩, ?_, ?_, rfl, ?_, rfl, rfl⟩
  · rw [startNativeThread, Profile.add_of_lt word, Outcome.ok_bind, aligned,
      Profile.sub_of_le room]
    rfl
  · intro pointer
    rw [if_neg pointer]
    exact Ram.holdsWord_write64 call.word tcbBase
  · simp only [NativeThread.stack, rsp, Nat.sub_add_cancel room, Nat.add_sub_cancel]

end Call

/-! ### All or nothing -/

theorem AllOrNothing.not_of_changed {call : ThreadCall} {state next : ThreadState}
    {mm mm' : MemoryManager} (manager : state.exports.memoryManager = some mm)
    (after : next.exports.memoryManager = some mm') (changed : mm'.vmaMap ≠ mm.vmaMap) :
    ¬ AllOrNothing call state hleOutOfMemory next := by
  intro all
  obtain ⟨same, -⟩ := all.failed (by decide)
  rw [ThreadState.vmaMap, ThreadState.vmaMap, after, manager] at same
  exact changed (Option.some.inj same)

section Unanimous

variable {p : Profile} {host : ThreadHost} {state : ThreadState} {mm mm₁ mm₂ : MemoryManager}
  (call : ThreadCall) {tcbBase stackBase : Nat}

/-- With both mappings the call succeeds, and it remains whether the host starts
the thread. -/
theorem startNativeThread_allOrNothing_iff (spawns : Bool) {ram : Ram} {name : String}
    (manager : state.exports.memoryManager = some mm) (tcb : mm.Adds (tcbBase, pageSize) mm₁)
    (stack : mm₁.Adds (stackBase, NativeThread.stackSize) mm₂) :
    ∃ code next, startNativeThread p spawns
        { state with exports := { state.exports with memoryManager := some mm₂ }, ram } call name
        tcbBase stackBase = .ok (code, next) ∧
      (AllOrNothing call state code next ↔ spawns = true) := by
  obtain ⟨ram', thread, started, written, tcbSame, stackSame, routine, arg⟩ :=
    startNativeThread_eq (p := p) stack.page stack.bounded spawns
      { state with exports := { state.exports with memoryManager := some mm₂ }, ram } call name
      tcbBase
  have tcbBlock : thread.tcb = (tcbBase, pageSize) := by rw [NativeThread.tcb, tcbSame]
  refine ⟨_, _, started, ?_⟩
  constructor
  · intro all
    obtain ⟨_, _, other, begun⟩ := all.started rfl
    by_contra refused
    have same := congrArg List.length begun.spawned
    simp [refused] at same
  · rintro rfl
    refine ⟨fun failed => absurd rfl failed, fun _ => ⟨mm, mm₂, thread, manager, rfl, rfl,
      ⟨routine, arg⟩, ?_, ?_, ?_, ?_, ?_⟩⟩
    · rw [tcbSame]
      exact written
    · rw [tcbBlock]
      exact stack.kept _ tcb.mapped
    · rw [stackSame]
      exact stack.mapped
    · rw [tcbBlock, stackSame]
      exact stack.apart _ tcb.mapped
    · intro b used
      rw [tcbBlock, stackSame]
      exact ⟨tcb.apart b used, stack.apart b (tcb.kept b used)⟩

theorem roundUp_tcbSize : roundUp NativeThread.tcbSize pageSize = pageSize := by decide

theorem roundUp_stackSize :
    roundUp NativeThread.stackSize pageSize = NativeThread.stackSize := by decide

theorem scePthreadCreate_eq {ram₁ ram₂ : Ram} (manager : state.exports.memoryManager = some mm)
    (tcb : mapThreadData p host.tcb mm state.ram NativeThread.tcbSize
      ("Thread TCB: " ++ call.threadName) = .ok (tcbBase, mm₁, ram₁))
    (stack : mapThreadData p host.stack mm₁ ram₁ NativeThread.stackSize
      ("Thread Stack: " ++ call.threadName) = .ok (stackBase, mm₂, ram₂)) :
    scePthreadCreate p host state call =
      if tcbBase ≠ 0 ∧ stackBase ≠ 0 then
        startNativeThread p host.spawns
          { state with exports := { state.exports with memoryManager := some mm₂ }, ram := ram₂ }
          call call.threadName tcbBase stackBase
      else .ok (hleOutOfMemory,
        { state with exports := { state.exports with memoryManager := some mm₂ }, ram := ram₂ }) := by
  rw [scePthreadCreate, manager]
  simp only [tcb, stack, Outcome.ok_bind]
  rfl

section Mapped

variable (lawful : host.stack.Lawful) (manager : state.exports.memoryManager = some mm)

include lawful manager

/-- Without a TCB the call fails, so the stack must not be mapped. -/
theorem scePthreadCreate_without_tcb (wf : mm.vmaMap.WellFormed)
    (tcbFailed : mapThreadData p host.tcb mm state.ram NativeThread.tcbSize
      ("Thread TCB: " ++ call.threadName) = .ok (0, mm, state.ram))
    (noTcb : ∀ addr, ¬ host.tcb.MapsFirst mm 0 pageSize addr) :
    ∃ code next, scePthreadCreate p host state call = .ok (code, next) ∧
      (AllOrNothing call state code next ↔ host.Complete mm ∨ host.Neither mm) := by
  have incomplete : ¬ host.Complete mm := fun ⟨_, addr, _, _, maps, _⟩ => noTcb addr maps
  rcases mapThreadData_cases (p := p) lawful wf roundUp_stackSize (by decide) state.ram
      ("Thread Stack: " ++ call.threadName) with
    ⟨stackFailed, noStack⟩ | ⟨stackBase, mm₂, stackMapped, stackFirst, stackAdds, -⟩
  · refine ⟨hleOutOfMemory, _, scePthreadCreate_eq call manager tcbFailed stackFailed,
      iff_of_true ⟨fun _ => ⟨?_, fun _ _ => rfl⟩, fun success => absurd success (by decide)⟩
        (.inr ⟨noTcb, noStack⟩)⟩
    exact congrArg (Option.map _) manager.symm
  · refine ⟨hleOutOfMemory, _, scePthreadCreate_eq call manager tcbFailed stackMapped,
      iff_of_false
        (AllOrNothing.not_of_changed manager rfl (stackAdds.changed stackAdds.mapped)) ?_⟩
    rintro (complete | ⟨-, noStack⟩)
    · exact incomplete complete
    · exact noStack stackBase stackFirst

/-- With a TCB the stack must be mapped and the thread started, and the address
of the TCB must not look like a failure. -/
theorem scePthreadCreate_with_tcb
    (tcbMapped : mapThreadData p host.tcb mm state.ram NativeThread.tcbSize
      ("Thread TCB: " ++ call.threadName) = .ok (tcbBase, mm₁, state.ram.zero tcbBase pageSize))
    (tcbFirst : host.tcb.MapsFirst mm 0 pageSize tcbBase)
    (tcbAdds : mm.Adds (tcbBase, pageSize) mm₁)
    (behind : ∀ x, host.stack.MapsFirst mm₁ 0 NativeThread.stackSize x ↔
      host.stack.MapsFirst mm (tcbBase + pageSize) NativeThread.stackSize x) :
    ∃ code next, scePthreadCreate p host state call = .ok (code, next) ∧
      (AllOrNothing call state code next ↔ host.Complete mm ∨ host.Neither mm) := by
  have some_room : ¬ host.Neither mm := fun neither => neither.1 tcbBase tcbFirst
  rcases mapThreadData_cases (p := p) lawful tcbAdds.wf roundUp_stackSize (by decide)
      (state.ram.zero tcbBase pageSize) ("Thread Stack: " ++ call.threadName) with
    ⟨stackFailed, noStack⟩ | ⟨stackBase, mm₂, stackMapped, stackFirst, stackAdds, -⟩
  · have run := scePthreadCreate_eq call manager tcbMapped stackFailed
    rw [if_neg fun both => both.2 rfl] at run
    refine ⟨hleOutOfMemory, _, run, iff_of_false
      (AllOrNothing.not_of_changed manager rfl (tcbAdds.changed tcbAdds.mapped)) ?_⟩
    rintro (⟨-, addr, stackBase, -, maps, maps'⟩ | neither)
    · obtain rfl := tcbFirst.1.unique maps.1
      exact noStack stackBase ((behind stackBase).mpr maps')
    · exact some_room neither
  · have run := scePthreadCreate_eq call manager tcbMapped stackMapped
    have stackBehind := (behind stackBase).mp stackFirst
    by_cases zero : tcbBase = 0
    · rw [if_neg fun both => both.1 zero] at run
      have changed := tcbAdds.changed (stackAdds.kept _ tcbAdds.mapped)
      refine ⟨hleOutOfMemory, _, run,
        iff_of_false (AllOrNothing.not_of_changed manager rfl changed) ?_⟩
      rintro (⟨-, addr, _, nonzero, maps, -⟩ | neither)
      · exact nonzero (maps.1.unique tcbFirst.1 ▸ zero)
      · exact some_room neither
    · have above : tcbBase + pageSize ≤ stackBase := stackBehind.1.1.1
      have positive : 0 < pageSize := pageSize_pos
      rw [if_pos ⟨zero, by omega⟩] at run
      obtain ⟨code, next, started, decided⟩ :=
        startNativeThread_allOrNothing_iff (p := p) call host.spawns manager tcbAdds stackAdds
      refine ⟨code, next, run.trans started, decided.trans ⟨fun spawns => ?_, ?_⟩⟩
      · exact .inl ⟨spawns, tcbBase, stackBase, zero, tcbFirst, stackBehind⟩
      · rintro (complete | neither)
        · exact complete.1
        · exact absurd neither some_room

end Mapped

/-- The call is all or nothing exactly if nothing is missing or neither mapping
can be made. -/
theorem scePthreadCreate_unanimous (lawful : host.Lawful) (wf : mm.vmaMap.WellFormed)
    (manager : state.exports.memoryManager = some mm) :
    ∃ code next, scePthreadCreate p host state call = .ok (code, next) ∧
      (AllOrNothing call state code next ↔ host.Complete mm ∨ host.Neither mm) := by
  rcases mapThreadData_cases (p := p) lawful.tcb wf roundUp_tcbSize (by decide) state.ram
      ("Thread TCB: " ++ call.threadName) with
    ⟨tcbFailed, noTcb⟩ | ⟨tcbBase, mm₁, tcbMapped, tcbFirst, tcbAdds, behind⟩
  · exact scePthreadCreate_without_tcb call lawful.stack manager wf tcbFailed noTcb
  · exact scePthreadCreate_with_tcb call lawful.stack manager tcbMapped tcbFirst tcbAdds
      fun x => behind host.stack NativeThread.stackSize x (by decide)

end Unanimous

/-! ### Runs -/

inductive ThreadEvent where
  | initializeExports (mm : MemoryManager)
  | create (host : ThreadHost) (call : ThreadCall) (code : Nat)
  | exports (event : ExportEvent)
  | store (ram : Ram)

/-- One step of the emulator or of the guest, which stores what it wants. -/
inductive ThreadStep (p : Profile) : ThreadState → ThreadEvent → ThreadState → Prop where
  | initializeExports {state boot mm} : boot.Lawful → MemoryManager.new boot = .ok mm →
      ThreadStep p state (.initializeExports mm) { state with exports := initializeExports mm }
  | create {state host call code next} : host.Lawful →
      scePthreadCreate p host state call = .ok (code, next) →
      ThreadStep p state (.create host call code) next
  | exports {state event exports} : ExportStep p state.exports event exports →
      ThreadStep p state (.exports event) { state with exports }
  | store {state ram} : ThreadStep p state (.store ram) { state with ram }

def ThreadState.initial (ram : Ram) : ThreadState where
  exports := { memoryManager := none, physMappings := none }
  ram := ram
  threads := []

/-- The invariant of all runs. -/
def ExportState.MapWellFormed (state : ExportState) : Prop :=
  ∀ mm, state.memoryManager = some mm → mm.vmaMap.WellFormed

theorem ExportStep.mapWellFormed {p : Profile} {state next : ExportState} {event : ExportEvent}
    (wf : state.MapWellFormed) (step : ExportStep p state event next) : next.MapWellFormed := by
  intro mm manager
  cases step with
  | @allocate host a result lawful word returned =>
    rw [a.run_eq] at returned
    rcases allocatePhys_cases lawful word returned with
      rfl | ⟨old, virtAddr, new, manager', called, rfl⟩
    · exact wf mm manager
    · obtain rfl := Option.some.inj manager
      exact ((MemoryCall.map lawful word called).effect (wf old manager')).1
  | @memory old event new manager' call =>
    obtain rfl := Option.some.inj manager
    exact (call.effect (wf old manager')).1

theorem startNativeThread_exports {p : Profile} {spawns : Bool} {state next : ThreadState}
    {call : ThreadCall} {name : String} {tcbBase stackBase code : Nat}
    (returned : startNativeThread p spawns state call name tcbBase stackBase = .ok (code, next)) :
    next.exports = state.exports := by
  obtain ⟨stackEnd, -, returned⟩ := Outcome.bind_eq_ok.mp returned
  obtain ⟨rsp, -, returned⟩ := Outcome.bind_eq_ok.mp returned
  cases returned
  rfl

theorem mapThreadData_wellFormed {p : Profile} {host : Host} {mm : MemoryManager}
    (lawful : host.Lawful) (wf : mm.vmaMap.WellFormed) {size : Nat} (small : size ≤ hostLimit)
    (ram : Ram) (name : String) :
    ∃ addr mm' ram', mapThreadData p host mm ram size name = .ok (addr, mm', ram') ∧
      mm'.vmaMap.WellFormed := by
  rcases mapThreadData_cases (p := p) lawful wf rfl small ram name with
    ⟨failed, -⟩ | ⟨addr, mm', mapped, -, adds, -⟩
  · exact ⟨_, _, _, failed, wf⟩
  · exact ⟨_, _, _, mapped, adds.wf⟩

theorem scePthreadCreate_mapWellFormed {p : Profile} {host : ThreadHost} (lawful : host.Lawful)
    {state next : ThreadState} {call : ThreadCall} {code : Nat}
    (wf : state.exports.MapWellFormed)
    (returned : scePthreadCreate p host state call = .ok (code, next)) :
    next.exports.MapWellFormed := by
  cases manager : state.exports.memoryManager with
  | none =>
    rw [scePthreadCreate, manager] at returned
    cases returned
    exact wf
  | some mm =>
    obtain ⟨tcbBase, mm₁, ram₁, tcb, wf₁⟩ := mapThreadData_wellFormed (p := p) lawful.tcb
      (wf mm manager) (show NativeThread.tcbSize ≤ hostLimit by decide) state.ram
      ("Thread TCB: " ++ call.threadName)
    obtain ⟨stackBase, mm₂, ram₂, stack, wf₂⟩ := mapThreadData_wellFormed (p := p) lawful.stack
      wf₁ (show NativeThread.stackSize ≤ hostLimit by decide) ram₁
      ("Thread Stack: " ++ call.threadName)
    have after : next.exports = { state.exports with memoryManager := some mm₂ } := by
      rw [scePthreadCreate_eq call manager tcb stack] at returned
      split at returned
      · exact startNativeThread_exports returned
      · cases returned
        rfl
    rintro last same
    rw [after] at same
    obtain rfl := Option.some.inj same
    exact wf₂

theorem ThreadStep.mapWellFormed {p : Profile} {state next : ThreadState} {event : ThreadEvent}
    (wf : state.exports.MapWellFormed) (step : ThreadStep p state event next) :
    next.exports.MapWellFormed := by
  cases step with
  | initializeExports lawful booted =>
    intro mm manager
    obtain rfl := Option.some.inj manager
    exact (MemoryManager.new_wellFormed lawful booted).1
  | create lawful returned => exact scePthreadCreate_mapWellFormed lawful wf returned
  | exports step => exact step.mapWellFormed wf
  | store => exact wf

theorem ThreadTrace.mapWellFormed {p : Profile} {ram : Ram} {events : List ThreadEvent}
    {state : ThreadState} (run : Trace (ThreadStep p) (.initial ram) events state) :
    state.exports.MapWellFormed := by
  let inv : ThreadState → Prop := fun state => state.exports.MapWellFormed
  have initial : inv (.initial ram) := fun mm manager => by cases manager
  have kept : ∀ {state event next}, inv state → ThreadStep p state event next → inv next :=
    fun wf step => step.mapWellFormed wf
  change inv state
  exact Trace.invariant initial kept run

/-- In every state of a run the call returns, and it is all or nothing exactly
if its steps agree. -/
theorem scePthreadCreate_allOrNothing_iff (p : Profile) {ram : Ram} {events : List ThreadEvent}
    {state : ThreadState} (run : Trace (ThreadStep p) (.initial ram) events state)
    {host : ThreadHost} (lawful : host.Lawful) (call : ThreadCall) :
    ∃ code next, scePthreadCreate p host state call = .ok (code, next) ∧
      (AllOrNothing call state code next ↔ host.Unanimous state) := by
  have wf := ThreadTrace.mapWellFormed run
  cases manager : state.exports.memoryManager with
  | none =>
    refine ⟨hleOutOfMemory, state, by rw [scePthreadCreate, manager], iff_of_true ?_ ?_⟩
    · exact ⟨fun _ => ⟨rfl, fun _ _ => rfl⟩, fun success => absurd success (by decide)⟩
    · intro mm found
      rw [manager] at found
      cases found
  | some mm =>
    obtain ⟨code, next, returned, decided⟩ :=
      scePthreadCreate_unanimous (p := p) call lawful (wf mm manager) manager
    refine ⟨code, next, returned, decided.trans ⟨fun agree found same => ?_, fun agree => ?_⟩⟩
    · obtain rfl := Option.some.inj (manager.symm.trans same)
      exact agree
    · exact agree mm manager

namespace ThreadCall

/-- A call for a thread without a name, by a guest that passes a pointer. -/
def plain : ThreadCall := ⟨0x1000, 0, 0x400000, 0, none, by decide⟩

end ThreadCall

def Host.full : Host where
  mmapFixed _ _ _ := false
  munmap _ _ := false

theorem Host.full_lawful : Host.full.Lawful := by
  constructor <;>
  · intro _ _
    simp [full]

def ThreadState.booted : ThreadState :=
  { ThreadState.initial (fun _ => 0) with exports := initializeExports .booted }

theorem ThreadStep.boot :
    ThreadStep .dev (.initial fun _ => 0) (.initializeExports .booted) .booted :=
  .initializeExports HostBoot.low_lawful MemoryManager.new_low

theorem Host.roomy_complete : ThreadHost.Complete ⟨.roomy, .roomy, true⟩ .booted := by
  have wf : MemoryManager.booted.vmaMap.WellFormed :=
    (MemoryManager.new_wellFormed HostBoot.low_lawful MemoryManager.new_low).1
  let area : VirtualMemoryArea :=
    { MemoryManager.freeAttributes with base := 0x1000000000, size := userSize }
  have stored : MemoryManager.booted.vmaMap[area.base]? = some area := by decide +kernel
  have room : MemoryManager.HasRoom pageSize area := by decide
  have behind : SpansRange area 0x1000004000 NativeThread.stackSize :=
    (by decide : 0x1000000000 ≤ 0x1000004000 ∧
      0x1000004000 + NativeThread.stackSize ≤ 0x1000000000 + userSize)
  have only : ∀ other : VirtualMemoryArea, MemoryManager.booted.vmaMap[other.base]? = some other →
      MemoryManager.HasRoom pageSize other → area.base ≤ other.base := by
    intro other found _
    by_contra above
    have elsewhere : 0x1000000000 ≠ other.base := fun same => above same.le
    rw [MemoryManager.booted, getElem?_insert, if_neg elsewhere] at found
    simp at found
  have first := MemoryManager.isLeast_room wf stored room only
  rw [(by decide : roundUp area.base pageSize = 0x1000000000)] at first
  refine ⟨rfl, 0x1000000000, 0x1000004000, by decide, ⟨first, by decide⟩,
    ⟨⟨⟨le_rfl, ?_⟩, ?_⟩, by decide⟩⟩
  · exact ⟨by decide, area.toVMAAttributes, ⟨area.base, area, stored, behind, rfl⟩, rfl⟩
  · exact fun x candidate => candidate.1

theorem scePthreadCreate_allOrNothing_iff_first :
    ∃ next, scePthreadCreate .dev ⟨.roomy, .roomy, true⟩ .booted .plain = .ok (0, next) ∧
      AllOrNothing .plain .booted 0 next := by
  have lawful : ThreadHost.Lawful ⟨.roomy, .roomy, true⟩ := ⟨Host.roomy_lawful, Host.roomy_lawful⟩
  have success : Prod.fst <$> scePthreadCreate .dev ⟨.roomy, .roomy, true⟩ .booted .plain =
      .ok 0 := by decide +kernel
  obtain ⟨code, next, returned, decided⟩ := scePthreadCreate_allOrNothing_iff .dev
    (.snoc .nil ThreadStep.boot) lawful .plain
  rw [returned] at success
  obtain rfl : code = 0 := Outcome.ok.inj success
  refine ⟨next, returned, decided.mpr fun mm manager => .inl ?_⟩
  obtain rfl := Option.some.inj manager
  exact Host.roomy_complete

/-- Where the host starts no thread, the call reports success. Where it has no
memory for the stack, the TCB stays mapped. -/
theorem scePthreadCreate_allOrNothing_fails :
    ∃ started leaked, ThreadStep .dev (.initial fun _ => 0) (.initializeExports .booted) .booted ∧
      ThreadHost.Lawful ⟨.roomy, .roomy, false⟩ ∧ ThreadHost.Lawful ⟨.roomy, .full, true⟩ ∧
      scePthreadCreate .dev ⟨.roomy, .roomy, false⟩ .booted .plain = .ok (0, started) ∧
      started.threads = [] ∧ ¬ AllOrNothing .plain .booted 0 started ∧
      scePthreadCreate .dev ⟨.roomy, .full, true⟩ .booted .plain = .ok (hleOutOfMemory, leaked) ∧
      leaked.vmaMap ≠ ThreadState.booted.vmaMap ∧
      ¬ AllOrNothing .plain .booted hleOutOfMemory leaked := by
  have refused : (fun result : Nat × ThreadState => (result.1, result.2.threads)) <$>
      scePthreadCreate .dev ⟨.roomy, .roomy, false⟩ .booted .plain = .ok (0, []) := by
    decide +kernel
  have failed : (fun result : Nat × ThreadState => (result.1, result.2.vmaMap.map (·.size))) <$>
      scePthreadCreate .dev ⟨.roomy, .full, true⟩ .booted .plain =
        .ok (hleOutOfMemory, some 2) := by decide +kernel
  obtain ⟨⟨code, started⟩, returned, outcome⟩ := Outcome.map_eq_ok.mp refused
  obtain ⟨rfl, none⟩ := Prod.mk.inj outcome
  obtain ⟨⟨code, leaked⟩, returned', outcome⟩ := Outcome.map_eq_ok.mp failed
  obtain ⟨rfl, two⟩ := Prod.mk.inj outcome
  have one : ThreadState.booted.vmaMap.map (·.size) = some 1 := by decide +kernel
  have changed : leaked.vmaMap ≠ ThreadState.booted.vmaMap := by
    intro same
    rw [same, one] at two
    exact absurd two (by decide)
  refine ⟨started, leaked, ThreadStep.boot, ⟨Host.roomy_lawful, Host.roomy_lawful⟩,
    ⟨Host.roomy_lawful, Host.full_lawful⟩, returned, none, ?_, returned', changed, ?_⟩
  · intro all
    obtain ⟨_, _, thread, begun⟩ := all.started rfl
    have spawned := begun.spawned
    rw [none] at spawned
    simp at spawned
  · intro all
    exact changed (all.failed (by decide)).1

end AnotherPs4
