import AnotherPs4.Congruential.Period
import AnotherPs4.Hle.ExportEffects

/-!
# Runs of a guest

Between its start and its exit the guest stores to memory and calls exports. The
host may answer differently at each call, and it starts the threads it was asked
for whenever it likes.
-/

namespace AnotherPs4

open Rust RangeMap Kernel Transition

/-- A call with the memory it found. -/
inductive GuestEvent where
  | store (dest : Nat) (bytes : List UInt8)
  | call (name : String) (args : ExportArgs) (ram : Ram) (value : Nat)
  | start (thread : NativeThread)

namespace GuestEvent

/-- The blocks that a step may write because the guest named them, or as a thread that
writes to its TCB. -/
def touched : GuestEvent → List Block
  | store dest bytes => [(dest, bytes.length)]
  | call name args ram _ => (exportOf name).footprint ram args
  | start thread => [(thread.tcbBase, 8)]

def submits : GuestEvent → List (List UInt32)
  | call name args ram _ => (exportOf name).submits ram args
  | store _ _ | start _ => []

def frames : GuestEvent → Nat
  | call name _ _ _ => (exportOf name).frames
  | store _ _ | start _ => 0

def draws : GuestEvent → Option Nat
  | call name _ _ value => if exportOf name = .rand then some value else none
  | store _ _ | start _ => none

end GuestEvent

section Model

variable {File : Type}

inductive GuestStep (p : Profile) (ops : FileOps File) :
    GuestState File → GuestEvent → GuestState File → Prop where
  | store {state dest bytes} :
      GuestStep p ops state (.store dest bytes) { state with ram := state.ram.write dest bytes }
  | call {state name args value next} (host : ExportHost File) : host.Lawful →
      hleExportDispatcher p ops host name args state = .ok (value, next) →
      GuestStep p ops state (.call name args state.ram value) next
  | start {state thread ram} : thread ∈ state.threads → thread ∉ state.started →
      thread.writeTcb state.ram = ram →
      GuestStep p ops state (.start thread)
        { state with ram, started := thread :: state.started }

/-- The block is mapped as an area of its own. -/
def GuestState.InUse (state : GuestState File) (b : Block) : Prop :=
  ∃ mm, state.exports.memoryManager = some mm ∧ mm.InUse b

def GuestState.Managed (state : GuestState File) : Prop :=
  ∃ mm, state.exports.memoryManager = some mm ∧ mm.vmaMap.WellFormed

/-- What an allocator hands out: no block that was in use has a byte of it, and it stays
mapped. It comes with zeros but for what the call itself was told to write, and
each byte stays as the call left it until a later step writes to it. -/
structure PrivateBlock (before after finish : GuestState File) (event : GuestEvent)
    (later : List GuestEvent) (b : Block) : Prop where
  page : pageSize ∣ b.1
  bounded : b.1 + b.2 ≤ hostLimit
  apart : ∀ c, before.InUse c → c.Apart b
  kept : finish.InUse b
  zeros : ∀ x, b.Contains x → ¬ Touched event.touched x → after.ram x = 0
  left : ∀ x, b.Contains x → (∀ event ∈ later, ¬ Touched event.touched x) →
    finish.ram x = after.ram x

end Model

/-! ### Memory -/

section Memory

variable {File : Type} {p : Profile} {ops : FileOps File} {state next finish : GuestState File}

/-- One step writes what it names and maps fresh pages. -/
theorem GuestStep.effect (bounded : ops.Bounded) {mm : MemoryManager}
    (manager : state.exports.memoryManager = some mm) (wf : mm.vmaMap.WellFormed)
    {event : GuestEvent} (step : GuestStep p ops state event next) :
    ∃ fresh mm', next.exports.memoryManager = some mm' ∧
      CallEffect event.touched mm state.ram fresh mm' next.ram := by
  cases step with
  | store =>
    refine ⟨[], mm, manager, .plain fun x _ outside => ?_⟩
    exact Ram.write_uncovered fun covers => outside (touched_singleton.mpr covers)
  | call host lawful returned => exact Export.run_effect bounded lawful wf manager returned
  | start _ _ written =>
    refine ⟨[], mm, manager, .plain fun x _ outside => ?_⟩
    rw [← written]
    exact NativeThread.writeTcb_untouched outside

/-- What is in use stays as it is while nobody names it. -/
theorem GuestTrace.private_ (bounded : ops.Bounded) {events : List GuestEvent}
    (run : Trace (GuestStep p ops) state events finish) (managed : state.Managed) :
    finish.Managed ∧ ∀ b, state.InUse b → finish.InUse b ∧
      ∀ x < 2 ^ 64, b.Contains x → (∀ event ∈ events, ¬ Touched event.touched x) →
        finish.ram x = state.ram x := by
  induction run with
  | nil => exact ⟨managed, fun b inUse => ⟨inUse, fun _ _ _ _ => rfl⟩⟩
  | @snoc events middle event finish _ step inductionHypothesis =>
    obtain ⟨⟨mm, manager, wf⟩, kept⟩ := inductionHypothesis
    obtain ⟨fresh, mm', manager', effect⟩ := step.effect bounded manager wf
    refine ⟨⟨mm', manager', effect.extension.wellFormed wf⟩, fun b inUse => ?_⟩
    obtain ⟨⟨mm₁, same, mapped⟩, before⟩ := kept b inUse
    obtain rfl := Option.some.inj (manager.symm.trans same)
    refine ⟨⟨mm', manager', (effect.extension.inUse_iff b).mpr (.inl mapped)⟩, ?_⟩
    intro x word inside untouched
    rw [← before x word inside fun event member => untouched event (List.mem_append_left _ member)]
    apply effect.kept x word (untouched event (by simp))
    intro c member new
    have apart := effect.extension.fresh.apart c member b mapped
    unfold Block.Apart at apart
    unfold Block.Contains at inside new
    omega

theorem CallEffect.privateBlock (bounded : ops.Bounded) {mm mm' : MemoryManager}
    {fresh : List Block} {event : GuestEvent} {later : List GuestEvent}
    (manager : state.exports.memoryManager = some mm) (wf : mm.vmaMap.WellFormed)
    (manager' : next.exports.memoryManager = some mm')
    (effect : CallEffect event.touched mm state.ram fresh mm' next.ram)
    (run : Trace (GuestStep p ops) next later finish) {b : Block} (member : b ∈ fresh) :
    PrivateBlock state next finish event later b := by
  have apart := effect.extension.fresh.apart b member
  have inUse : next.InUse b := ⟨mm', manager', (effect.extension.inUse_iff b).mpr (.inr member)⟩
  have inside : b.1 + b.2 ≤ hostLimit := effect.extension.fresh.bounded b member
  obtain ⟨kept, same⟩ :=
    (GuestTrace.private_ bounded run ⟨mm', manager', effect.extension.wellFormed wf⟩).2 b inUse
  have word : ∀ x, b.Contains x → x < 2 ^ 64 := by
    intro x here
    have limit : hostLimit < 2 ^ 64 := by decide
    unfold Block.Contains at here
    omega
  refine ⟨effect.extension.fresh.page b member, inside, ?_, kept, fun x here untouched => ?_,
    fun x here => same x (word x here) here⟩
  · rintro c ⟨mm₁, found, mapped⟩
    obtain rfl := Option.some.inj (manager.symm.trans found)
    exact apart c mapped
  · exact effect.zeros x (word x here) untouched b member here

/-- Whatever the guest does: a block that an export maps for it, and so each block
that `malloc` returns, overlaps nothing that was in use, stays mapped to the end
of the run, and keeps what the call left there in every cell that no step since
has been told to write, by its pointers and lengths or as the TCB of its thread. -/
theorem handedOut_private (p : Profile) (bounded : ops.Bounded) {boot : HostBoot}
    (lawful : boot.Lawful) {mm₀ mm : MemoryManager} (booted : MemoryManager.new boot = .ok mm₀)
    {loads : List MemoryEvent} (loaded : Trace (MemoryCall p) mm₀ loads mm) (ram : Ram)
    (fsMounts : Option (List Mount)) {earlier later : List GuestEvent} {event : GuestEvent}
    {before after : GuestState File}
    (first : Trace (GuestStep p ops) (.initial mm ram fsMounts) earlier before)
    (step : GuestStep p ops before event after)
    (rest : Trace (GuestStep p ops) after later finish) :
    (∀ b, ¬ before.InUse b → after.InUse b → PrivateBlock before after finish event later b) ∧
    ∀ name args ram value, event = .call name args ram value → exportOf name = .malloc →
      value ≠ 0 → PrivateBlock before after finish event later
        (value, roundUp (if args.rdi.toNat = 0 then 4096 else args.rdi.toNat) pageSize) := by
  have start : (.initial mm ram fsMounts : GuestState File).Managed :=
    ⟨mm, rfl, MemoryCall.run_wellFormed lawful booted loaded⟩
  obtain ⟨⟨mm₁, manager, wf⟩, -⟩ := GuestTrace.private_ bounded first start
  refine ⟨fun b new inUse => ?_, ?_⟩
  · obtain ⟨fresh, mm₂, manager', effect⟩ := step.effect bounded manager wf
    obtain ⟨mm₃, same, mapped⟩ := inUse
    obtain rfl := Option.some.inj (manager'.symm.trans same)
    rcases (effect.extension.inUse_iff b).mp mapped with old | member
    · exact absurd ⟨mm₁, manager, old⟩ new
    · exact effect.privateBlock bounded manager wf manager' rest member
  · rintro name args ram' value rfl arm allocated
    cases step with
    | call host answers returned =>
      rw [hleExportDispatcher, arm] at returned
      obtain ⟨fresh, mm₂, manager', effect, same⟩ := malloc_effect _ answers.mmap wf manager
        args.rdi.toNat_lt (Outcome.widen_eq_ok.mp returned)
      exact effect.privateBlock bounded manager wf manager' rest (by rw [same allocated]; simp)

end Memory

def ExportArgs.first (rdi : UInt64) : ExportArgs where
  rdi := rdi
  rsi := 0
  rdx := 0
  rcx := 0
  r8 := 0
  r9 := 0
  stackArg7 := 0
  xmm0Bits := 0
  xmm1Bits := 0

def FileOps.unreadable : FileOps Unit where
  read _ _ := (none, ())
  seek _ _ := (none, ())
  streamPosition _ := (none, ())

def ExportHost.roomy : ExportHost Unit where
  mmap := .roomy
  thread := ⟨.roomy, .roomy, true⟩
  files := ⟨fun _ => false, fun _ => none⟩
  memcmp _ _ := 0
  sin bits := bits
  tan bits := bits
  asin bits := bits
  acos bits := bits
  atan2 bits _ := bits

theorem ExportHost.roomy_lawful : ExportHost.roomy.Lawful :=
  ⟨Host.roomy_lawful, Host.roomy_lawful, Host.roomy_lawful⟩

/-- A call for a thread at 0x400000, and the thread, behind a block of one page. -/
def ExportArgs.firstThread : ExportArgs := { ExportArgs.first 0x3000 with rdx := 0x400000 }

def NativeThread.first : NativeThread where
  name := "unnamed"
  startRoutine := 0x400000
  arg := 0
  rsp := 0x1000207FF8
  tcbBase := 0x1000004000

def GuestState.areaAt (state : GuestState Unit) (addr : Nat) : Option (Nat × VMAType) :=
  (state.exports.memoryManager.bind (·.vmaMap[addr]?)).map fun area => (area.size, area.vmaType)

theorem GuestState.inUse_iff {state : GuestState Unit} {b : Block} :
    state.InUse b ↔ ∃ vmaType, vmaType ≠ .free ∧ state.areaAt b.1 = some (b.2, vmaType) := by
  unfold InUse areaAt MemoryManager.InUse
  cases state.exports.memoryManager with
  | none => simp
  | some mm =>
    constructor
    · rintro ⟨_, same, area, found, size, used⟩
      obtain rfl := Option.some.inj same
      exact ⟨area.vmaType, used, by rw [Option.bind_some, found, Option.map_some, size]⟩
    · rintro ⟨vmaType, used, found⟩
      obtain ⟨area, stored, same⟩ := Option.map_eq_some_iff.mp found
      obtain ⟨size, rfl⟩ := Prod.mk.inj same
      exact ⟨mm, rfl, area, stored, size, used⟩

/-- In memory of ones, `malloc` returns a page of zeros, and a thread gets a TCB of zeros
in which it writes one word. -/
theorem handedOut_private_thread :
    ∃ (ram : Ram) (finish : GuestState Unit),
      Trace (GuestStep .dev .unreadable) (.initial .booted (fun _ => 1) none)
        [.call "malloc" (.first 32) (fun _ => 1) 0x1000000000,
          .call "scePthreadCreate" .firstThread ram 0, .start .first, .store 0x2000 [7]] finish ∧
      finish.InUse (0x1000000000, pageSize) ∧ finish.ram 0x1000000010 = 0 ∧
      finish.InUse NativeThread.first.tcb ∧ finish.ram 0x1000004008 = 0 := by
  have evaluated : (fun calls => decide (calls.1.1 = 0x1000000000 ∧ calls.2.1 = 0 ∧
      calls.2.2.threads = [.first] ∧ calls.2.2.started = [] ∧
      calls.1.2.areaAt 0x1000004000 = some (userSize - pageSize, .free) ∧
      calls.2.2.areaAt 0x1000004000 = some (pageSize, .threadData))) <$> (do
      let first ← hleExportDispatcher .dev .unreadable .roomy "malloc" (.first 32)
        (.initial .booted (fun _ => 1) none)
      let second ← hleExportDispatcher .dev .unreadable .roomy "scePthreadCreate" .firstThread
        first.2
      return (first, second)) = .ok true := by
    decide +kernel
  obtain ⟨⟨⟨value, middle⟩, code, created⟩, calls, checked⟩ := Outcome.map_eq_ok.mp evaluated
  obtain ⟨rfl, rfl, spawned, none, free, mapped⟩ := of_decide_eq_true checked
  obtain ⟨_, allocated, calls⟩ := Outcome.bind_eq_ok.mp calls
  obtain ⟨_, started, calls⟩ := Outcome.bind_eq_ok.mp calls
  cases calls
  obtain ⟨tcb, written⟩ : ∃ tcb, NativeThread.first.writeTcb created.ram = tcb := ⟨_, rfl⟩
  have malloc := GuestStep.call .roomy ExportHost.roomy_lawful allocated
  have create := GuestStep.call .roomy ExportHost.roomy_lawful started
  have start : GuestStep .dev .unreadable created (.start .first) _ :=
    .start (by rw [spawned]; exact List.mem_singleton_self _) (by rw [none]; exact nofun) written
  have store := @GuestStep.store Unit .dev .unreadable
    { created with ram := tcb, started := .first :: created.started } 0x2000 [7]
  have bounded : FileOps.unreadable.Bounded := fun _ _ _ _ read => by cases read
  -- a page for `malloc`
  obtain ⟨-, block⟩ := handedOut_private .dev bounded HostBoot.low_lawful MemoryManager.new_low .nil
    _ _ .nil malloc (.snoc (.snoc (.snoc .nil create) start) store)
  have page := block "malloc" _ _ _ rfl (by decide) (by decide)
  have size : roundUp (if (ExportArgs.first 32).rdi.toNat = 0 then 4096
      else (ExportArgs.first 32).rdi.toNat) pageSize = pageSize := by decide
  rw [size] at page
  -- and a page for the TCB
  obtain ⟨fresh, -⟩ := handedOut_private .dev bounded HostBoot.low_lawful MemoryManager.new_low .nil
    _ _ (.snoc .nil malloc) create (.snoc (.snoc .nil start) store)
  have block := fresh NativeThread.first.tcb (by
    rintro inUse
    obtain ⟨vmaType, used, found⟩ := GuestState.inUse_iff.mp inUse
    obtain rfl := (Prod.mk.inj (Option.some.inj (free.symm.trans found))).2
    exact used rfl) (GuestState.inUse_iff.mpr ⟨.threadData, by decide, mapped⟩)
  have named : ∀ {x}, ¬ Ram.Covers 0x3000 8 x →
      ¬ Touched (GuestEvent.call "scePthreadCreate" .firstThread middle.ram 0).touched x := by
    intro x outside
    rw [GuestEvent.touched, (by decide : exportOf "scePthreadCreate" = .pthreadCreate),
      Export.footprint, touched_pointee]
    exact fun covers => outside covers.2
  have unnamed : ∀ {x}, ¬ Ram.Covers 0x1000004000 8 x → ¬ Ram.Covers 0x2000 1 x →
      ∀ event ∈ [GuestEvent.start .first, .store 0x2000 [7]], ¬ Touched event.touched x := by
    intro x tcbApart storeApart
    rw [List.forall_mem_cons, List.forall_mem_singleton]
    exact ⟨mt touched_singleton.mp tcbApart, mt touched_singleton.mp storeApart⟩
  refine ⟨middle.ram, _, .snoc (.snoc (.snoc (.snoc .nil malloc) create) start) store, page.kept, ?_,
    block.kept, ?_⟩
  · refine (page.left _ ⟨by decide, by decide⟩ ?_).trans
      (page.zeros _ ⟨by decide, by decide⟩ (by decide))
    exact List.forall_mem_cons.mpr ⟨named (by decide), unnamed (by decide) (by decide)⟩
  · refine (block.left _ ⟨by decide, by decide⟩ ?_).trans
      (block.zeros _ ⟨by decide, by decide⟩ (named (by decide)))
    exact unnamed (by decide) (by decide)

/-! ### Frames -/

section Frames

variable {File : Type} {p : Profile} {ops : FileOps File}

/-- Over a whole run the GPU processes the submitted buffers, each as it is in
memory at its submission, in the order of the calls. A frame is counted for
each `sceGnmSubmitDone` and for each look at the system status. -/
theorem gpu_processes_submissions {mm : MemoryManager} {ram : Ram} {fsMounts : Option (List Mount)}
    {events : List GuestEvent} {finish : GuestState File}
    (run : Trace (GuestStep p ops) (.initial mm ram fsMounts) events finish) :
    GpuContext.Processed (events.flatMap GuestEvent.submits) .default (finish.gpu.getD .default) ∧
    (finish.gpu.getD .default).framesSubmitted % 2 ^ 64 =
      (events.map GuestEvent.frames).sum % 2 ^ 64 := by
  induction run with
  | nil => exact ⟨.nil, rfl⟩
  | @snoc events middle event finish _ step inductionHypothesis =>
    obtain ⟨processed, frames⟩ := inductionHypothesis
    rw [List.flatMap_append, List.flatMap_singleton, List.map_append, List.sum_append,
      List.map_singleton, List.sum_singleton]
    cases step with
    | store => exact ⟨processed.append .nil, frames⟩
    | start => exact ⟨processed.append .nil, frames⟩
    | call host lawful returned =>
      have statics := Export.run_statics returned
      refine ⟨processed.append statics.processed, ?_⟩
      rw [statics.frames, Nat.add_mod, frames, ← Nat.add_mod]
      rfl

variable {host : ExportHost File} {name : String} {args : ExportArgs} {state : GuestState File}
  {gpu : Option GpuContext}

theorem dispatch_submit (arm : exportOf name = .submitCommandBuffers)
    (submitted : (sceGnmSubmitCommandBuffers p state.gpu state.ram args.rdi.toNat args.rsi.toNat
      args.rdx.toNat : Outcome ExportStop _) = .ok gpu) :
    hleExportDispatcher p ops host name args state = .ok (0, { state with gpu }) := by
  rw [hleExportDispatcher, arm, Export.run, submitted]
  rfl

theorem dispatch_submitDone (arm : exportOf name = .submitDone)
    (ended : (sceGnmSubmitDone p state.gpu : Outcome ExportStop _) = .ok gpu) :
    hleExportDispatcher p ops host name args state = .ok (0, { state with gpu }) := by
  rw [hleExportDispatcher, arm, Export.run, ended]
  rfl

end Frames

def Ram.oneBuffer : Ram :=
  ((Ram.writeDwords (fun _ => 0) 0x60000 [0xC0002F00, 5]).writeLe 0x40000 8 0x60000).writeLe
    0x50000 4 8

def ExportArgs.oneBuffer : ExportArgs := { ExportArgs.first 1 with rsi := 0x40000, rdx := 0x50000 }

/-- Five instances, whatever becomes of the buffer between its submission and the
end of the frame. -/
theorem gpu_processes_submissions_five :
    ∃ finish : GuestState Unit,
      Trace (GuestStep .dev .unreadable) (.initial .booted .oneBuffer none)
        [.call "zwY0YV91TTI" .oneBuffer .oneBuffer 0, .store 0x60000 [0, 0, 0, 0],
          .call "E90Gz79LdBQ" (.first 0) (Ram.oneBuffer.write 0x60000 [0, 0, 0, 0]) 0] finish ∧
      (finish.gpu.getD .default).commandProcessor.regs.numInstances = 5 ∧
      (finish.gpu.getD .default).framesSubmitted % 2 ^ 64 = 1 := by
  have both : (fun _ => ()) <$> (sceGnmSubmitCommandBuffers .dev none .oneBuffer
      ExportArgs.oneBuffer.rdi.toNat ExportArgs.oneBuffer.rsi.toNat
      ExportArgs.oneBuffer.rdx.toNat >>= sceGnmSubmitDone .dev : Outcome ExportStop _) = .ok () := by
    decide +kernel
  obtain ⟨ended, both, -⟩ := Outcome.map_eq_ok.mp both
  obtain ⟨gpu, submitted, done⟩ := Outcome.bind_eq_ok.mp both
  have names : exportOf "zwY0YV91TTI" = .submitCommandBuffers ∧
      exportOf "E90Gz79LdBQ" = .submitDone := by decide
  obtain ⟨state, start, noGpu, memory⟩ : ∃ state : GuestState Unit,
      state = .initial .booted .oneBuffer none ∧ state.gpu = none ∧ state.ram = .oneBuffer :=
    ⟨_, rfl, GuestState.initial_gpu, GuestState.initial_ram⟩
  have first := @dispatch_submit Unit .dev .unreadable .roomy "zwY0YV91TTI" .oneBuffer state gpu
    names.1 (by rw [noGpu, memory]; exact submitted)
  have last := @dispatch_submitDone Unit .dev .unreadable .roomy "E90Gz79LdBQ" (.first 0)
    { state with gpu, ram := state.ram.write 0x60000 [0, 0, 0, 0] } ended names.2 done
  have run := Trace.snoc (Trace.snoc (Trace.snoc Trace.nil
    (GuestStep.call .roomy ExportHost.roomy_lawful first)) .store)
    (GuestStep.call .roomy ExportHost.roomy_lawful last)
  simp only [memory] at run
  rw [start] at run
  obtain ⟨processed, frames⟩ := gpu_processes_submissions run
  refine ⟨_, run, processed.effects.numInstances.trans ?_, frames.trans ?_⟩
  · decide +kernel
  · decide +kernel

/-! ### Random numbers -/

/-- The numbers that the guest draws in turn. -/
def randStream (n : Nat) : Nat := randValue (nextRand^[n + 1] 12345)

/-- The step of the generator as far as its low 47 bits. -/
abbrev randStep : Nat → Nat := Congruential.step 1103515245 12345 (16 + 31)

theorem nextRand_low (n state : Nat) :
    nextRand^[n] state % 2 ^ 47 = randStep^[n] (state % 2 ^ 47) := by
  have one : Function.Semiconj (· % 2 ^ 47) nextRand randStep := by
    intro state
    simp only [nextRand, randStep, Congruential.step]
    omega
  exact one.iterate_right n state

theorem randValue_eq (state : Nat) : randValue state = state % 2 ^ 47 / 2 ^ 16 := by
  unfold randValue
  omega

theorem randStream_add (i n : Nat) :
    randStream (i + n) = randStep^[n] (nextRand^[i + 1] 12345 % 2 ^ 47) / 2 ^ 16 := by
  rw [randStream, randValue_eq, (by omega : i + n + 1 = n + (i + 1)), Function.iterate_add_apply,
    nextRand_low]

theorem dispatch_rand {File : Type} {p : Profile} {ops : FileOps File} {host : ExportHost File}
    {name : String} {args : ExportArgs} {state : GuestState File} (arm : exportOf name = .rand) :
    hleExportDispatcher p ops host name args state = .ok (randValue (nextRand state.randState),
      { state with randState := nextRand state.randState }) := by
  rw [hleExportDispatcher, arm, Export.run]

theorem window_range_map {α : Type} (f : Nat → α) {i m n : Nat} (inside : i + m ≤ n) :
    (((List.range n).map f).drop i).take m = (List.range m).map fun k => f (i + k) := by
  refine List.ext_getElem ?_ fun k _ _ => ?_
  · simp only [List.length_take, List.length_drop, List.length_map, List.length_range]
    omega
  · simp only [List.getElem_take, List.getElem_drop, List.getElem_map, List.getElem_range]

section Draws

variable {File : Type} {p : Profile} {ops : FileOps File}

/-- Calls other than `rand` do not disturb the stream. -/
theorem draws_of_run {mm : MemoryManager} {ram : Ram} {fsMounts : Option (List Mount)}
    {events : List GuestEvent} {finish : GuestState File}
    (run : Trace (GuestStep p ops) (.initial mm ram fsMounts) events finish) :
    finish.randState = nextRand^[(events.filterMap GuestEvent.draws).length] 12345 ∧
    events.filterMap GuestEvent.draws =
      (List.range (events.filterMap GuestEvent.draws).length).map randStream := by
  induction run with
  | nil => exact ⟨rfl, rfl⟩
  | @snoc events middle event finish _ step inductionHypothesis =>
    obtain ⟨state, drawn⟩ := inductionHypothesis
    rw [List.filterMap_append]
    cases step with
    | store | start =>
      rw [List.filterMap_cons_none rfl, List.filterMap_nil, List.append_nil]
      exact ⟨state, drawn⟩
    | @call name args value _ host lawful returned =>
      have statics := Export.run_statics returned
      by_cases arm : exportOf name = .rand
      · have own : [GuestEvent.call name args middle.ram value].filterMap GuestEvent.draws =
            [value] := by
          simp [GuestEvent.draws, arm]
        have next := statics.randState
        rw [if_pos arm, state, ← Function.iterate_succ_apply' nextRand] at next
        rw [own, List.length_append, List.length_singleton, List.range_succ, List.map_append, ← drawn,
          List.map_singleton, randStream, ← next, ← statics.draws arm]
        exact ⟨rfl, rfl⟩
      · have own : [GuestEvent.call name args middle.ram value].filterMap GuestEvent.draws = [] := by
          simp [GuestEvent.draws, arm]
        rw [own, List.append_nil, statics.randState, if_neg arm]
        exact ⟨state, drawn⟩

/-- Whatever else is called between, any `2 ^ 47` draws in a row take each of the
`2 ^ 31` values equally often, and the stream repeats itself after `2 ^ 47`
draws and not before. A call is one step, so no other call comes between the
load and the store of the state. -/
theorem rand_balanced {mm : MemoryManager} {ram : Ram} {fsMounts : Option (List Mount)}
    {events : List GuestEvent} {finish : GuestState File}
    (run : Trace (GuestStep p ops) (.initial mm ram fsMounts) events finish) :
    let drawn := events.filterMap GuestEvent.draws
    drawn = (List.range drawn.length).map randStream ∧
    (∀ i, i + 2 ^ 47 ≤ drawn.length → ∀ v < 2 ^ 31,
      ((drawn.drop i).take (2 ^ 47)).count v = 2 ^ 16) ∧
    ∀ d, Function.Periodic randStream d ↔ 2 ^ 47 ∣ d := by
  intro drawn
  have stream : drawn = (List.range drawn.length).map randStream := (draws_of_run run).2
  refine ⟨stream, fun i inside v below => ?_, fun d => ?_⟩
  · rw [stream, window_range_map randStream inside]
    simp only [randStream_add]
    exact Congruential.count_highBits (by decide) (by decide)
      (Nat.mod_lt _ (Nat.two_pow_pos _)) v below
  · have periodic := Congruential.highBits_periodic_iff (a := 1103515245) (c := 12345) (b := 16)
      (h := 31) (x := nextRand^[0 + 1] 12345 % 2 ^ 47) (by decide) (by decide)
      (Nat.mod_lt _ (Nat.two_pow_pos _)) (by decide) d
    have same : randStream = fun n => randStep^[n] (nextRand^[0 + 1] 12345 % 2 ^ 47) / 2 ^ 16 :=
      funext fun n => by rw [← randStream_add, Nat.zero_add]
    rw [same]
    exact periodic

end Draws

/-- The first draw after the start. -/
theorem rand_balanced_first :
    ∃ finish : GuestState Unit,
      Trace (GuestStep .dev .unreadable) (.initial .booted (fun _ => 1) none)
        [.call "rand" (.first 0) (fun _ => 1) 207868892] finish ∧
      randStream 0 = 207868892 ∧ ∀ d, Function.Periodic randStream d ↔ 2 ^ 47 ∣ d := by
  obtain ⟨state, start, seed, memory⟩ : ∃ state : GuestState Unit,
      state = .initial .booted (fun _ => 1) none ∧ state.randState = 12345 ∧
        state.ram = fun _ => 1 :=
    ⟨_, rfl, GuestState.initial_randState, GuestState.initial_ram⟩
  have value : randValue (nextRand 12345) = 207868892 := by decide
  have drawn := @dispatch_rand Unit .dev .unreadable .roomy "rand" (.first 0) state (by decide)
  have run := Trace.snoc Trace.nil (GuestStep.call .roomy ExportHost.roomy_lawful drawn)
  rw [seed, value, memory, start] at run
  obtain ⟨stream, -, periodic⟩ := rand_balanced run
  refine ⟨_, run, ?_, periodic⟩
  exact value

end AnotherPs4
