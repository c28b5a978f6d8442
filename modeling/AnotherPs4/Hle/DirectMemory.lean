import AnotherPs4.Memory.Calls

/-!
# Exported direct memory allocators

The exports map pages of the user region and hand out their address as the
physical one. They look at the length only. So the requested alignment holds
where the first free area happens to start at such an address, and the capacity
is what the guest has not asked for.
-/

namespace AnotherPs4

open Rust RangeMap Transition

structure PhysMappingEntry where
  physStart : Nat
  virtStart : Nat
  size : Nat
  deriving DecidableEq, Repr

/-- The statics of the exports that the allocators use. -/
structure ExportState where
  memoryManager : Option MemoryManager
  physMappings : Option (List PhysMappingEntry)
  deriving DecidableEq

def initializeExports (memory : MemoryManager) : ExportState where
  memoryManager := some memory
  physMappings := some []

def registerPhysMapping (physMappings : Option (List PhysMappingEntry))
    (phys virtAddr size : Nat) : Option (List PhysMappingEntry) :=
  physMappings.map (· ++ [⟨phys, virtAddr, size⟩])

def hleGetDirectMemorySize : Nat := 5632 * 1024 * 1024

/-- What both allocators return when nothing was mapped. -/
def hleOutOfMemory : Nat := 0x8002000C

def MapRequest.directPhys (name : String) (len : Nat) : MapRequest where
  virtualAddr := 0
  size := len
  prot := .cpuRw
  flags := .union .anonymous .priv
  vmaType := .direct
  name := name

/-- The code, the guest's variable and the statics after a call. The guest may
pass a null pointer for the variable. -/
abbrev AllocationResult := Nat × Option Nat × ExportState

def allocatePhys (p : Profile) (host : Host) (state : ExportState) (name : String) (len : Nat)
    (physAddrOut : Option Nat) : Outcome Empty AllocationResult :=
  match state.memoryManager with
  | none => .ok (hleOutOfMemory, physAddrOut, state)
  | some mm => do
    let (result, mm) ← (MapRequest.directPhys name len).call p host mm
    match result with
    | .ok virtAddr =>
      return (0, physAddrOut.map fun _ => virtAddr,
        { memoryManager := some mm,
          physMappings := registerPhysMapping state.physMappings virtAddr virtAddr len })
    | .error _ => return (hleOutOfMemory, physAddrOut, { state with memoryManager := some mm })

def hleAllocateDirectMemory (p : Profile) (host : Host) (state : ExportState)
    (_searchStart _searchEnd len _alignment : Nat) (_memoryType : Int)
    (physAddrOut : Option Nat) : Outcome Empty AllocationResult :=
  allocatePhys p host state "direct_phys" len physAddrOut

def hleAllocateMainDirectMemory (p : Profile) (host : Host) (state : ExportState)
    (len _alignment : Nat) (_memoryType : Int) (physAddrOut : Option Nat) :
    Outcome Empty AllocationResult :=
  allocatePhys p host state "direct_main_phys" len physAddrOut

/-- A call of one of the two allocators with its arguments. -/
inductive DirectAllocation where
  | direct (searchStart searchEnd len alignment : Nat) (memoryType : Int)
      (physAddrOut : Option Nat)
  | main (len alignment : Nat) (memoryType : Int) (physAddrOut : Option Nat)

namespace DirectAllocation

def len : DirectAllocation → Nat
  | direct _ _ len _ _ _ | main len _ _ _ => len

def alignment : DirectAllocation → Nat
  | direct _ _ _ alignment _ _ | main _ alignment _ _ => alignment

def physAddrOut : DirectAllocation → Option Nat
  | direct _ _ _ _ _ physAddrOut | main _ _ _ physAddrOut => physAddrOut

def areaName : DirectAllocation → String
  | direct .. => "direct_phys"
  | main .. => "direct_main_phys"

def run (p : Profile) (host : Host) (state : ExportState) :
    DirectAllocation → Outcome Empty AllocationResult
  | direct searchStart searchEnd len alignment memoryType physAddrOut =>
    hleAllocateDirectMemory p host state searchStart searchEnd len alignment memoryType physAddrOut
  | main len alignment memoryType physAddrOut =>
    hleAllocateMainDirectMemory p host state len alignment memoryType physAddrOut

theorem run_eq (p : Profile) (host : Host) (state : ExportState) (a : DirectAllocation) :
    a.run p host state = allocatePhys p host state a.areaName a.len a.physAddrOut := by
  cases a <;> rfl

def request (a : DirectAllocation) : MapRequest := .directPhys a.areaName a.len

theorem request_not_fixed (a : DirectAllocation) : ¬ a.request.fixed := fun fixed => fixed.1 rfl

theorem request_not_executable (a : DirectAllocation) :
    a.request.prot.contains .cpuExec = false :=
  (by decide : MemoryProt.cpuRw.contains .cpuExec = false)

end DirectAllocation

/-- The bytes handed out so far, each block with the length it was asked for. -/
def ExportState.handedOut (state : ExportState) : Nat :=
  ((state.physMappings.getD []).map (·.size)).sum

/-- What the guest may expect of a call that returned. -/
structure HonoursRequest (state : ExportState) (a : DirectAllocation) (result : AllocationResult) :
    Prop where
  aligned : result.1 = 0 → ∀ addr, result.2.1 = some addr → a.alignment ∣ addr
  capacity : result.1 = 0 → result.2.2.handedOut ≤ hleGetDirectMemorySize
  unchanged : result.1 ≠ 0 → result.2 = (a.physAddrOut, state)

/-- If the host maps the range that the lowest free area has for the request,
its start is a multiple of the alignment, and the capacity suffices. -/
def DirectAllocation.Honourable (host : Host) (state : ExportState) (a : DirectAllocation) : Prop :=
  ∀ mm (vma : VirtualMemoryArea), state.memoryManager = some mm →
    mm.vmaMap[vma.base]? = some vma → MemoryManager.HasRoom (roundUp a.len pageSize) vma →
    (∀ other : VirtualMemoryArea, mm.vmaMap[other.base]? = some other →
      MemoryManager.HasRoom (roundUp a.len pageSize) other → vma.base ≤ other.base) →
    host.mmapFixed (roundUp vma.base pageSize) (roundUp a.len pageSize) false = true →
    (a.physAddrOut ≠ none → a.alignment ∣ roundUp vma.base pageSize) ∧
      state.handedOut + a.len ≤ hleGetDirectMemorySize

/-- A call that succeeded has mapped its block and registered it. -/
theorem allocatePhys_cases {p : Profile} {host : Host} {state : ExportState} {name : String}
    {len : Nat} {physAddrOut : Option Nat} {result : AllocationResult}
    (lawful : host.Lawful) (word : len < 2 ^ 64)
    (returned : allocatePhys p host state name len physAddrOut = .ok result) :
    result = (hleOutOfMemory, physAddrOut, state) ∨
      ∃ mm virtAddr mm', state.memoryManager = some mm ∧
        (MapRequest.directPhys name len).call p host mm = .ok (.ok virtAddr, mm') ∧
        result = (0, physAddrOut.map fun _ => virtAddr,
          ⟨some mm', registerPhysMapping state.physMappings virtAddr virtAddr len⟩) := by
  obtain ⟨memoryManager, physMappings⟩ := state
  cases memoryManager with
  | none =>
    cases returned
    exact .inl rfl
  | some mm =>
    obtain ⟨⟨mapped, mm'⟩, called, returned⟩ := Outcome.bind_eq_ok.mp returned
    cases mapped with
    | ok virtAddr =>
      cases returned
      exact .inr ⟨mm, virtAddr, mm', rfl, called, rfl⟩
    | error e =>
      cases returned
      have same : mm' = mm := (MemoryCall.map lawful word called).stored
      exact .inl (by rw [same])

inductive ExportEvent where
  | allocate (host : Host) (a : DirectAllocation) (code : Nat)
  | memory (event : MemoryEvent)

/-- One call. The other exports, the threads and the loader share the memory manager. -/
inductive ExportStep (p : Profile) : ExportState → ExportEvent → ExportState → Prop where
  | allocate {state host a result} : host.Lawful → a.len < 2 ^ 64 →
      a.run p host state = .ok result → ExportStep p state (.allocate host a result.1) result.2.2
  | memory {state mm event mm'} : state.memoryManager = some mm → MemoryCall p mm event mm' →
      ExportStep p state (.memory event) { state with memoryManager := some mm' }

def ExportEvent.handsOut : ExportEvent → Nat
  | .allocate _ a code => if code = 0 then a.len else 0
  | .memory _ => 0

def ExportEvent.Honourable (state : ExportState) : ExportEvent → Prop
  | .allocate host a _ => a.Honourable host state
  | .memory _ => True

/-- The invariant of all runs after `initialize_exports`. -/
structure ExportState.Initialized (state : ExportState) : Prop where
  manager : ∃ mm, state.memoryManager = some mm ∧ mm.vmaMap.WellFormed
  table : ∃ mappings, state.physMappings = some mappings

section Step

variable {p : Profile} {host : Host} {state next : ExportState}

theorem handedOut_register {memoryManager : Option MemoryManager} {virtAddr len : Nat}
    (initialized : state.Initialized) :
    ExportState.handedOut
        ⟨memoryManager, registerPhysMapping state.physMappings virtAddr virtAddr len⟩ =
      state.handedOut + len := by
  obtain ⟨mappings, table⟩ := initialized.table
  simp [ExportState.handedOut, registerPhysMapping, table]

theorem DirectAllocation.honours_iff {a : DirectAllocation} (lawful : host.Lawful)
    (word : a.len < 2 ^ 64) (initialized : state.Initialized) :
    (∀ result, a.run p host state = .ok result → HonoursRequest state a result) ↔
      a.Honourable host state := by
  obtain ⟨mm, manager, wf⟩ := initialized.manager
  constructor
  · intro honours mm' vma manager' stored room lowest accepted
    obtain rfl := Option.some.inj (manager.symm.trans manager')
    rw [← a.request_not_executable] at accepted
    obtain ⟨mm', called⟩ := MapRequest.call_of_lowest (p := p) lawful wf a.request_not_fixed stored
      room lowest accepted
    have returned : a.run p host state = .ok (0, a.physAddrOut.map fun _ => roundUp vma.base pageSize,
        ⟨some mm', registerPhysMapping state.physMappings (roundUp vma.base pageSize)
          (roundUp vma.base pageSize) a.len⟩) := by
      rw [a.run_eq, allocatePhys, manager]
      exact Outcome.bind_eq_ok.mpr ⟨_, called, rfl⟩
    have honoured := honours _ returned
    refine ⟨fun pointer => ?_, ?_⟩
    · obtain ⟨old, guest⟩ := Option.ne_none_iff_exists'.mp pointer
      exact honoured.aligned rfl _ (by rw [guest]; rfl)
    · rw [← handedOut_register initialized]
      exact honoured.capacity rfl
  · intro honourable result returned
    rw [a.run_eq] at returned
    rcases allocatePhys_cases lawful word returned with
      rfl | ⟨mm', virtAddr, next, manager', called, rfl⟩
    · have failed : hleOutOfMemory ≠ 0 := by decide
      exact ⟨fun success => absurd success failed, fun success => absurd success failed, fun _ => rfl⟩
    · obtain rfl := Option.some.inj (manager.symm.trans manager')
      obtain ⟨vma, stored, room, rfl, lowest⟩ :=
        (MemoryCall.map lawful word called).lowest wf a.request_not_fixed
      obtain ⟨-, accepted, -⟩ := MapRequest.call_eq_ok lawful word called
      replace accepted := a.request_not_executable ▸ accepted
      obtain ⟨aligned, capacity⟩ := honourable mm vma manager stored room lowest accepted
      refine ⟨fun _ addr found => ?_, fun _ => ?_, fun failed => absurd rfl failed⟩
      · obtain ⟨old, guest, rfl⟩ := Option.map_eq_some_iff.mp found
        exact aligned (by rw [guest]; exact Option.some_ne_none old)
      · rw [handedOut_register initialized]
        exact capacity

theorem ExportStep.keeps {event : ExportEvent} (initialized : state.Initialized)
    (step : ExportStep p state event next) :
    next.Initialized ∧ next.handedOut = state.handedOut + event.handsOut := by
  obtain ⟨mm, manager, wf⟩ := initialized.manager
  obtain ⟨mappings, table⟩ := initialized.table
  cases step with
  | @allocate host a result lawful word returned =>
    rw [a.run_eq] at returned
    rcases allocatePhys_cases lawful word returned with
      rfl | ⟨mm', virtAddr, next, manager', called, rfl⟩
    · exact ⟨initialized, rfl⟩
    · obtain rfl := Option.some.inj (manager.symm.trans manager')
      have wf' := ((MemoryCall.map lawful word called).effect wf).1
      refine ⟨⟨⟨next, rfl, wf'⟩, ?_⟩, handedOut_register initialized⟩
      exact ⟨_, congrArg (registerPhysMapping · virtAddr virtAddr a.len) table⟩
  | @memory _ event mm' manager' call =>
    obtain rfl := Option.some.inj (manager.symm.trans manager')
    exact ⟨⟨⟨mm', rfl, (call.effect wf).1⟩, mappings, table⟩, rfl⟩

theorem ExportStep.handedOut_le {event : ExportEvent} (initialized : state.Initialized)
    (capacity : state.handedOut ≤ hleGetDirectMemorySize) (step : ExportStep p state event next)
    (honourable : event.Honourable state) : next.handedOut ≤ hleGetDirectMemorySize := by
  cases step with
  | @allocate host a result lawful word returned =>
    have honoured := (DirectAllocation.honours_iff lawful word initialized).mpr honourable _ returned
    by_cases success : result.1 = 0
    · exact honoured.capacity success
    · rw [honoured.unchanged success]
      exact capacity
  | memory => exact capacity

end Step

theorem initializeExports_initialized {boot : HostBoot} (lawful : boot.Lawful)
    {mm : MemoryManager} (booted : MemoryManager.new boot = .ok mm) :
    (initializeExports mm).Initialized :=
  ⟨⟨mm, rfl, (MemoryManager.new_wellFormed lawful booted).1⟩, [], rfl⟩

/-- The invariant of runs whose calls can all be honoured. -/
structure ExportState.InCapacity (state : ExportState) : Prop where
  initialized : state.Initialized
  capacity : state.handedOut ≤ hleGetDirectMemorySize

/-- In every state the next allocation honours its request exactly if the lowest
area with room does. In runs of such allocations, the guest gets no more than
the size it is told. -/
theorem directMemory_honoured_iff (p : Profile) {boot : HostBoot} (lawful : boot.Lawful)
    {mm : MemoryManager} (booted : MemoryManager.new boot = .ok mm) :
    (∀ events state, Trace (ExportStep p) (initializeExports mm) events state →
      state.handedOut = (events.map ExportEvent.handsOut).sum ∧
      ∀ (host : Host) (a : DirectAllocation), host.Lawful → a.len < 2 ^ 64 →
        ((∀ result, a.run p host state = .ok result → HonoursRequest state a result) ↔
          a.Honourable host state)) ∧
    ∀ events state,
      Trace (fun state event next => ExportStep p state event next ∧ event.Honourable state)
        (initializeExports mm) events state →
      state.handedOut ≤ hleGetDirectMemorySize := by
  have start := initializeExports_initialized lawful booted
  constructor
  · intro events state run
    have total : ∀ {events state}, Trace (ExportStep p) (initializeExports mm) events state →
        state.Initialized ∧ state.handedOut = (events.map ExportEvent.handsOut).sum := by
      intro events state run
      induction run with
      | nil => exact ⟨start, rfl⟩
      | snoc _ step inductionHypothesis =>
        obtain ⟨initialized, before⟩ := inductionHypothesis
        obtain ⟨kept, after⟩ := step.keeps initialized
        exact ⟨kept, by simp [after, before]⟩
    obtain ⟨initialized, handed⟩ := total run
    exact ⟨handed, fun host a answers word => DirectAllocation.honours_iff answers word initialized⟩
  · intro events state run
    have kept : state.InCapacity :=
      Trace.invariant ⟨start, Nat.zero_le _⟩ (fun ⟨initialized, capacity⟩ ⟨step, honourable⟩ =>
        ⟨(step.keeps initialized).1, step.handedOut_le initialized capacity honourable⟩) run
    exact kept.capacity

/-- A block of main direct memory for a guest that passes a pointer. -/
def DirectAllocation.block (len alignment : Nat) : DirectAllocation := .main len alignment 0 (some 0)

def ExportState.withPage : ExportState where
  memoryManager := some
    { MemoryManager.booted with
      vmaMap := ((∅ : VMAMap).insert 0x1000004000
        { MemoryManager.freeAttributes with
          base := 0x1000004000, size := userSize - pageSize }).insert
        0x1000000000
        { (DirectAllocation.block pageSize pageSize).request.attributes with
          base := 0x1000000000, size := pageSize } }
  physMappings := some [⟨0x1000000000, 0x1000000000, pageSize⟩]

theorem ExportStep.firstPage :
    ExportStep .dev (initializeExports .booted)
      (.allocate .roomy (.block pageSize pageSize) 0) .withPage := by
  have returned : (DirectAllocation.block pageSize pageSize).run .dev .roomy
      (initializeExports .booted) = .ok (0, some 0x1000000000, .withPage) := by decide +kernel
  exact .allocate Host.roomy_lawful (by decide) returned

/-- One page with the alignment of pages is honoured at the start of the region. -/
theorem directMemory_honoured_iff_page :
    (∀ result, (DirectAllocation.block pageSize pageSize).run .dev .roomy
      (initializeExports .booted) = .ok result →
      HonoursRequest (initializeExports .booted) (.block pageSize pageSize) result) ∧
      ExportState.withPage.handedOut ≤ hleGetDirectMemorySize := by
  have limits := directMemory_honoured_iff .dev HostBoot.low_lawful MemoryManager.new_low
  have honourable : (DirectAllocation.block pageSize pageSize).Honourable .roomy
      (initializeExports .booted) := by
    intro mm vma manager stored _ _ _
    obtain rfl := Option.some.inj manager
    have base : vma.base = 0x1000000000 := by
      by_contra other
      rw [MemoryManager.booted, getElem?_insert, if_neg (Ne.symm other)] at stored
      simp at stored
    rw [base]
    exact ⟨fun _ => by decide, by decide⟩
  exact ⟨((limits.1 _ _ .nil).2 .roomy (.block pageSize pageSize) Host.roomy_lawful
    (by decide)).mpr honourable, limits.2 _ _ (.snoc .nil ⟨.firstPage, honourable⟩)⟩

/-- After one page, a block aligned to 2 MiB gets the next page. A first block of
6 GiB is more than there is. -/
theorem directMemory_not_honoured :
    ∃ mm state aligned large, MemoryManager.new .low = .ok mm ∧
      ExportStep .dev (initializeExports mm) (.allocate .roomy (.block pageSize pageSize) 0) state ∧
      (DirectAllocation.block pageSize 0x200000).run .dev .roomy state = .ok aligned ∧
      aligned.1 = 0 ∧ aligned.2.1 = some 0x1000004000 ∧
      ¬ HonoursRequest state (.block pageSize 0x200000) aligned ∧
      (DirectAllocation.block 0x180000000 0x10000).run .dev .roomy (initializeExports mm) =
        .ok large ∧
      large.1 = 0 ∧ large.2.2.handedOut = 0x180000000 ∧
      ¬ HonoursRequest (initializeExports mm) (.block 0x180000000 0x10000) large := by
  have second : (fun result : AllocationResult => (result.1, result.2.1)) <$>
      (DirectAllocation.block pageSize 0x200000).run .dev .roomy .withPage =
        .ok (0, some 0x1000004000) := by decide +kernel
  have whole : (fun result : AllocationResult => (result.1, result.2.2.handedOut)) <$>
      (DirectAllocation.block 0x180000000 0x10000).run .dev .roomy (initializeExports .booted) =
        .ok (0, 0x180000000) := by decide +kernel
  obtain ⟨aligned, placed, outcome⟩ := Outcome.map_eq_ok.mp second
  obtain ⟨code, address⟩ := Prod.mk.inj outcome
  obtain ⟨large, handed, outcome⟩ := Outcome.map_eq_ok.mp whole
  obtain ⟨code', total⟩ := Prod.mk.inj outcome
  refine ⟨.booted, .withPage, aligned, large, rfl, .firstPage, placed, code, address, ?_, handed,
    code', total, ?_⟩
  · intro honours
    exact absurd (honours.aligned code _ address) (by decide)
  · intro honours
    have fits := honours.capacity code'
    rw [total] at fits
    exact absurd fits (by decide)

end AnotherPs4
