import AnotherPs4.Gpu.Context
import AnotherPs4.Hle.GuestMemory

/-!
# GNM exports

The guest lets two exports write packets into its command buffer, adds its own,
and submits the buffer. The exports do not look at what is submitted but for its
place and size.
-/

namespace AnotherPs4

open Rust

variable {ε : Type}

/-! ### Writing packets -/

def hwInitPacketSize : Nat := 0x100

def initSequence : List UInt32 :=
  [0xc0001200, 0x00000000, 0xc0017600, 0x00000216, 0xffffffff, 0xc0017600, 0x00000217,
   0xffffffff, 0xc0017600, 0x00000215, 0x00000000, 0xc0016900, 0x000002f9, 0x0000002d,
   0xc0016900, 0x00000282, 0x00000008, 0xc0016900, 0x00000280, 0x00080008, 0xc0016900,
   0x00000281, 0xffff0000, 0xc0016900, 0x00000204, 0x00000000, 0xc0016900, 0x00000206,
   0x0000043f, 0xc0016900, 0x00000083, 0x0000ffff, 0xc0016900, 0x00000317, 0x00000010,
   0xc0016900, 0x000002fa, 0x3f800000, 0xc0016900, 0x000002fc, 0x3f800000, 0xc0016900,
   0x000002fb, 0x3f800000, 0xc0016900, 0x000002fd, 0x3f800000, 0xc0016900, 0x00000202,
   0x00cc0010, 0xc0016900, 0x0000030e, 0xffffffff, 0xc0016900, 0x0000030f, 0xffffffff,
   0xc0002f00, 0x00000001, 0xc0017600, 0x00000007, 0x001701ff, 0xc0017600, 0x00000046,
   0x001701fd, 0xc0017600, 0x00000087, 0x001701ff, 0xc0017600, 0x000000c7, 0x001701fd,
   0xc0017600, 0x00000107, 0x00000017, 0xc0017600, 0x00000147, 0x001701fd, 0xc0017600,
   0x00000047, 0x0000001c, 0xc0016900, 0x000001b1, 0x00000002, 0xc0016900, 0x00000101,
   0x00000000, 0xc0016900, 0x00000100, 0xffffffff, 0xc0016900, 0x00000103, 0x00000000,
   0xc0016900, 0x00000284, 0x00000000, 0xc0016900, 0x00000290, 0x00000000, 0xc0016900,
   0x000002ae, 0x00000000, 0xc0016900, 0x00000102, 0x00000000, 0xc0016900, 0x00000292,
   0x00000000, 0xc0016900, 0x00000293, 0x06020000, 0xc0016900, 0x000002f8, 0x00000000,
   0xc0016900, 0x000002de, 0x000001e9, 0xc0036900, 0x00000295, 0x00000100, 0x00000100,
   0x00000004, 0xc0017900, 0x00000200, 0xe0000000, 0xc0016900, 0x000002aa, 0x000000ff]

def nopHeader : UInt32 := 0xC0001000

/-- The loop that fills the rest with empty packets. -/
def nopFill (offset : Nat) : List UInt32 :=
  if offset < hwInitPacketSize then
    if offset + 2 ≤ hwInitPacketSize then nopHeader :: 0 :: nopFill (offset + 2)
    else 0 :: nopFill (offset + 1)
  else []
termination_by hwInitPacketSize - offset

def hwInitPackets : List UInt32 := initSequence ++ nopFill initSequence.length

def sceGnmDrawInitDefaultHardwareState350 (ram : Ram) (cmdbuf size : Nat) : Nat × Ram :=
  if cmdbuf = 0 ∨ size % 2 ^ 32 < hwInitPacketSize then (0, ram)
  else ((cmdbuf + hwInitPacketSize * 4) % 2 ^ 64, ram.writeDwords cmdbuf hwInitPackets)

def waitFlipSize : Nat := 7

def waitFlipPacket : List UInt32 :=
  (nopHeader ||| (UInt32.ofNat (waitFlipSize - 1 - 1) <<< 16)) :: List.replicate (waitFlipSize - 1) 0

def sceGnmInsertWaitFlipDone (ram : Ram) (cmdbuf _videoOutHandle _bufIdx : Nat) : Nat × Ram :=
  if cmdbuf ≠ 0 then
    ((cmdbuf + waitFlipSize * 4) % 2 ^ 64, ram.writeDwords cmdbuf waitFlipPacket)
  else (0, ram)

/-! ### Submitting -/

/-- The buffer of an index, if its pointer and its size are taken. -/
def dcbAt (ram : Ram) (dcbAddrs dcbSizes i : Nat) : Option (List UInt32) :=
  let dcbPtr := ram.readLe (dcbAddrs + 8 * i) 8
  let dcbSizeDw := ram.readLe (dcbSizes + 4 * i) 4 / 4
  if dcbPtr ≠ 0 ∧ dcbPtr > 0x10000 ∧ dcbSizeDw > 0 ∧ dcbSizeDw < 0x1000000 then
    some (ram.readDwords dcbPtr dcbSizeDw)
  else none

def TablesTaken (count dcbAddrs dcbSizes : Nat) : Prop :=
  0 < count % 2 ^ 32 ∧ count % 2 ^ 32 < 100 ∧ dcbAddrs > 0x10000 ∧ dcbAddrs % 8 = 0 ∧
    dcbSizes > 0x10000 ∧ dcbSizes % 4 = 0

instance (count dcbAddrs dcbSizes : Nat) : Decidable (TablesTaken count dcbAddrs dcbSizes) :=
  inferInstanceAs (Decidable (_ ∧ _))

/-- The body of the loop over the buffers. A `dev` build makes no slice of `u32` at a
misaligned pointer. -/
def submitAt (p : Profile) (ram : Ram) (dcbAddrs dcbSizes : Nat) (gpu : Option GpuContext)
    (i : Nat) : Outcome ε (Option GpuContext) :=
  match dcbAt ram dcbAddrs dcbSizes i with
  | some dcb => do
    p.debugCheck .misaligned (ram.readLe (dcbAddrs + 8 * i) 8 % 4 = 0)
    withGpu gpu fun gpu => gpu.submitGfx p dcb []
  | none => .ok gpu

def sceGnmSubmitCommandBuffers (p : Profile) (gpu : Option GpuContext) (ram : Ram)
    (count dcbAddrs dcbSizes : Nat) : Outcome ε (Option GpuContext) :=
  if TablesTaken count dcbAddrs dcbSizes then
    (List.range (count % 2 ^ 32)).foldlM (submitAt p ram dcbAddrs dcbSizes) gpu
  else .ok gpu

def sceGnmSubmitDone (p : Profile) (gpu : Option GpuContext) : Outcome ε (Option GpuContext) :=
  withGpu gpu fun gpu => gpu.submitDone p

def submittedBuffers (ram : Ram) (count dcbAddrs dcbSizes : Nat) : List (List UInt32) :=
  if TablesTaken count dcbAddrs dcbSizes then
    (List.range (count % 2 ^ 32)).filterMap (dcbAt ram dcbAddrs dcbSizes)
  else []

section Submit

variable {p : Profile} {ram : Ram} {count dcbAddrs dcbSizes : Nat} {gpu gpu' : Option GpuContext}

theorem withGpu_eq_ok {f : GpuContext → Outcome ε GpuContext}
    (returned : withGpu gpu f = .ok gpu') : f (gpu.getD .default) = .ok (gpu'.getD .default) := by
  obtain ⟨context, done, same⟩ := Outcome.bind_eq_ok.mp returned
  cases same
  exact done

theorem submitted_of_indices {indices : List Nat}
    (run : (indices.foldlM (submitAt p ram dcbAddrs dcbSizes) gpu : Outcome ε _) = .ok gpu') :
    GpuContext.Processed (indices.filterMap (dcbAt ram dcbAddrs dcbSizes)) (gpu.getD .default)
      (gpu'.getD .default) ∧
    (gpu'.getD .default).framesSubmitted = (gpu.getD .default).framesSubmitted := by
  induction indices generalizing gpu with
  | nil =>
    cases run
    exact ⟨.nil, rfl⟩
  | cons i indices inductionHypothesis =>
    obtain ⟨middle, first, rest⟩ := Outcome.bind_eq_ok.mp run
    obtain ⟨later, frames⟩ := inductionHypothesis rest
    rw [List.filterMap_cons]
    cases found : dcbAt ram dcbAddrs dcbSizes i with
    | none =>
      rw [submitAt, found] at first
      cases first
      exact ⟨later, frames⟩
    | some dcb =>
      rw [submitAt, found] at first
      obtain ⟨_, -, first⟩ := Outcome.bind_eq_ok.mp first
      obtain ⟨processed, same⟩ := GpuContext.submitGfx_processed (withGpu_eq_ok first)
      exact ⟨processed.append later, frames.trans same⟩

theorem sceGnmSubmitCommandBuffers_processed
    (returned : (sceGnmSubmitCommandBuffers p gpu ram count dcbAddrs dcbSizes : Outcome ε _) =
      .ok gpu') :
    GpuContext.Processed (submittedBuffers ram count dcbAddrs dcbSizes) (gpu.getD .default)
      (gpu'.getD .default) ∧
    (gpu'.getD .default).framesSubmitted = (gpu.getD .default).framesSubmitted := by
  unfold sceGnmSubmitCommandBuffers at returned
  unfold submittedBuffers
  split at returned
  · next taken =>
    rw [if_pos taken]
    exact submitted_of_indices returned
  · next refused =>
    cases returned
    rw [if_neg refused]
    exact ⟨.nil, rfl⟩

end Submit

/-! ### A buffer from its first packet to the GPU -/

theorem nopFill_eq {offset : Nat} (count : Nat) (rest : offset + 2 * count = hwInitPacketSize) :
    nopFill offset = (List.replicate count [nopHeader, 0]).flatten := by
  induction count generalizing offset with
  | zero => rw [nopFill, if_neg (by omega), List.replicate_zero, List.flatten_nil]
  | succ count inductionHypothesis =>
    rw [nopFill, if_pos (by omega), if_pos (by omega), inductionHypothesis (by omega),
      List.replicate_succ, List.flatten_cons]
    rfl

theorem hwInitPackets_eq :
    hwInitPackets = initSequence ++ (List.replicate 65 [nopHeader, 0]).flatten := by
  have half : initSequence.length + 2 * 65 = hwInitPacketSize := by decide +kernel
  rw [hwInitPackets, nopFill_eq 65 half]

theorem length_hwInitPackets : hwInitPackets.length = hwInitPacketSize := by
  rw [hwInitPackets_eq]
  decide +kernel

theorem whole_hwInitPackets : wholeFrom 0 hwInitPackets = true := by
  rw [hwInitPackets_eq]
  decide +kernel

open CommandProcessor (dispatched)

def hwInitWrites : List RegisterWrite := (dispatched initSequence).flatMap registerWrites

def registersFit (command : Pm4Opcode × List UInt32) : Bool :=
  match registerFile? command.1, command.2 with
  | some _, base :: values => base.toNat + values.length ≤ 2 ^ 32
  | _, _ => true

theorem registersFit_iff {command : Pm4Opcode × List UInt32} :
    registersFit command = true ↔ RegistersFit command := by
  obtain ⟨opcode, body⟩ := command
  unfold registersFit RegistersFit
  cases registerFile? opcode with
  | none => exact iff_of_true rfl nofun
  | some file =>
    cases body with
    | nil => exact iff_of_true rfl nofun
    | cons base values =>
      simp only [decide_eq_true_eq]
      constructor
      · rintro fits _ - base' values' same
        cases same
        exact fits
      · exact fun fits => fits file rfl base values rfl

theorem registersFit_hwInitPackets :
    ∀ command ∈ dispatched hwInitPackets, RegistersFit command := by
  have all : (dispatched hwInitPackets).all registersFit = true := by
    rw [hwInitPackets_eq]
    decide +kernel
  exact fun command member => registersFit_iff.mp (List.all_eq_true.mp all command member)

/-- The initial state is one instance and the register writes. -/
theorem effects_hwInitPackets {cs : List (Pm4Opcode × List UInt32)} {regs regs' : GpuRegs}
    (effects : GpuRegs.Effects (dispatched hwInitPackets ++ cs) regs regs') :
    GpuRegs.Effects cs { regs with numInstances := 1, writes := regs.writes ++ hwInitWrites }
      regs' := by
  have quiet : (dispatched hwInitPackets).filterMap numInstances? = [1] ∧
      (dispatched hwInitPackets).filterMap indexBase? = [] ∧
      (dispatched hwInitPackets).filterMap indexType? = [] ∧
      (dispatched hwInitPackets).filterMap indexSize? = [] ∧
      (dispatched hwInitPackets).flatMap registerWrites = hwInitWrites := by
    rw [hwInitPackets_eq]
    decide +kernel
  obtain ⟨instances, base, type, size, writes⟩ := quiet
  have last : ∀ {γ : Type} (values : List γ) (first other : γ),
      ([first] ++ values).getLast?.getD other = values.getLast?.getD first := by
    intro γ values first other
    rw [List.getLast?_append]
    cases values.getLast? <;> rfl
  refine ⟨?_, ?_, ?_, ?_, ?_⟩
  · rw [effects.numInstances, List.filterMap_append, instances, last]
  · rw [effects.indexBase, List.filterMap_append, base, List.nil_append]
  · rw [effects.indexType, List.filterMap_append, type, List.nil_append]
  · rw [effects.indexSize, List.filterMap_append, size, List.nil_append]
  · rw [effects.writes, List.flatMap_append, writes, List.append_assoc]

theorem effects_waitFlipPacket {cs : List (Pm4Opcode × List UInt32)} {regs regs' : GpuRegs}
    (effects : GpuRegs.Effects (cs ++ dispatched waitFlipPacket) regs regs') :
    GpuRegs.Effects cs regs regs' := by
  have nothing : dispatched waitFlipPacket = [(.nop, List.replicate 6 0)] := by decide
  rw [nothing] at effects
  obtain ⟨instances, base, type, size, writes⟩ := effects
  simp only [List.filterMap_append, List.flatMap_append, List.filterMap_cons, List.filterMap_nil,
    List.flatMap_singleton, numInstances?, indexBase?, indexType?, indexSize?, registerWrites,
    registerFile?, List.append_nil] at instances base type size writes
  exact ⟨instances, base, type, size, writes⟩

/-- The guest's use of the exports: the initial state, packets of its own, a wait. -/
def buildBuffer (ram : Ram) (cmdbuf size : Nat) (own : List UInt32) (videoOutHandle bufIdx : Nat) :
    Nat × Ram :=
  let (next, ram) := sceGnmDrawInitDefaultHardwareState350 ram cmdbuf size
  let ram := ram.writeDwords next own
  sceGnmInsertWaitFlipDone ram ((next + own.length * 4) % 2 ^ 64) videoOutHandle bufIdx

def bufferOf (own : List UInt32) : List UInt32 := hwInitPackets ++ own ++ waitFlipPacket

theorem length_bufferOf (own : List UInt32) :
    (bufferOf own).length = hwInitPacketSize + own.length + waitFlipSize := by
  rw [bufferOf, List.length_append, List.length_append, length_hwInitPackets]
  rfl

section Build

variable {ram : Ram} {cmdbuf size : Nat} {own : List UInt32}

theorem buildBuffer_eq (notNull : cmdbuf ≠ 0) (large : hwInitPacketSize ≤ size % 2 ^ 32)
    (bounded : cmdbuf + (bufferOf own).length * 4 < 2 ^ 64) (videoOutHandle bufIdx : Nat) :
    buildBuffer ram cmdbuf size own videoOutHandle bufIdx =
      (cmdbuf + (bufferOf own).length * 4, ram.writeDwords cmdbuf (bufferOf own)) := by
  have length := length_bufferOf own
  have init := length_hwInitPackets
  have packet : hwInitPacketSize = 256 := rfl
  have wait : waitFlipPacket.length = 7 := by decide
  have waitSize : waitFlipSize = 7 := rfl
  have second : ((cmdbuf + hwInitPacketSize * 4) % 2 ^ 64 + own.length * 4) % 2 ^ 64 =
      (cmdbuf + (hwInitPackets ++ own).length * 4) % 2 ^ 64 := by
    rw [List.length_append]
    omega
  have notNull' : (cmdbuf + (hwInitPackets ++ own).length * 4) % 2 ^ 64 ≠ 0 := by
    rw [List.length_append]
    omega
  have stop : ((cmdbuf + (hwInitPackets ++ own).length * 4) % 2 ^ 64 + waitFlipSize * 4) % 2 ^ 64 =
      cmdbuf + (bufferOf own).length * 4 := by
    rw [List.length_append]
    omega
  have initFirst : (ram.writeDwords cmdbuf hwInitPackets).writeDwords
      ((cmdbuf + hwInitPacketSize * 4) % 2 ^ 64) own =
      ram.writeDwords cmdbuf (hwInitPackets ++ own) := by
    rw [← init]
    exact Ram.writeDwords_append (by omega) (by omega)
  have waitLast : (ram.writeDwords cmdbuf (hwInitPackets ++ own)).writeDwords
      ((cmdbuf + (hwInitPackets ++ own).length * 4) % 2 ^ 64) waitFlipPacket =
      ram.writeDwords cmdbuf (bufferOf own) :=
    Ram.writeDwords_append (by omega) (by rw [List.length_append]; omega)
  rw [buildBuffer, sceGnmDrawInitDefaultHardwareState350, if_neg (by omega)]
  simp only [initFirst, second]
  rw [sceGnmInsertWaitFlipDone, if_pos notNull', stop, waitLast]

end Build

section Round

variable {p : Profile} {gpu : Option GpuContext} {ram : Ram} {cmdbuf dcbAddrs dcbSizes : Nat}
  {own : List UInt32}

theorem sceGnmSubmitCommandBuffers_one {dcb : List UInt32} (taken : TablesTaken 1 dcbAddrs dcbSizes)
    (pointer : ram.readLe dcbAddrs 8 = cmdbuf) (bytes : ram.readLe dcbSizes 4 = dcb.length * 4)
    (aligned : cmdbuf % 4 = 0) (high : 0x10000 < cmdbuf) (nonempty : 0 < dcb.length) (small : dcb.length < 0x1000000)
    (holds : ram.HoldsDwords cmdbuf dcb) :
    (sceGnmSubmitCommandBuffers p gpu ram 1 dcbAddrs dcbSizes : Outcome ε _) =
      withGpu gpu fun gpu => gpu.submitGfx p dcb [] := by
  have size : dcb.length * 4 / 4 = dcb.length := Nat.mul_div_cancel _ (by decide)
  have valid : dcbAt ram dcbAddrs dcbSizes 0 = some dcb := by
    simp only [dcbAt, Nat.mul_zero, Nat.add_zero, pointer, bytes, size, holds.readDwords]
    exact if_pos ⟨by omega, high, nonempty, small⟩
  have one : List.range (1 % 2 ^ 32) = [0] := by decide
  have checked : (p.debugCheck .misaligned (decide (cmdbuf % 4 = 0)) : Outcome ε Unit) = .ok () :=
    Profile.debugCheck_of_valid (decide_eq_true aligned)
  rw [sceGnmSubmitCommandBuffers, if_pos taken, one, List.foldlM_cons]
  simp only [List.foldlM_nil, bind_pure, submitAt, valid, Nat.mul_zero, Nat.add_zero, pointer,
    checked, Outcome.ok_bind]

theorem dispatched_bufferOf (whole : wholeFrom 0 own = true) :
    dispatched (bufferOf own) = dispatched hwInitPackets ++ (dispatched own ++ dispatched waitFlipPacket) := by
  rw [bufferOf, List.append_assoc, CommandProcessor.dispatched_append whole_hwInitPackets,
    CommandProcessor.dispatched_append whole]

theorem registersFit_bufferOf (whole : wholeFrom 0 own = true) :
    (∀ command ∈ dispatched (bufferOf own), RegistersFit command) ↔
      ∀ command ∈ dispatched own, RegistersFit command := by
  have nothing : ∀ command ∈ dispatched waitFlipPacket, RegistersFit command := by
    have all : (dispatched waitFlipPacket).all registersFit = true := by decide
    exact fun command member => registersFit_iff.mp (List.all_eq_true.mp all command member)
  rw [dispatched_bufferOf whole]
  simp only [List.mem_append]
  constructor
  · exact fun all command member => all command (.inr (.inl member))
  · rintro own command (init | mine | wait)
    · exact registersFit_hwInitPackets command init
    · exact own command mine
    · exact nothing command wait

/-- From the first packet to the GPU. A guest that has the exports start and end its
buffer and writes whole packets between, whatever it does elsewhere before it
submits, has the GPU execute the initial state and then exactly its own
packets. The build changes the buffer only, and submitting it fails only where
its own packets overflow a check. -/
theorem guestBuffer_processed {later : Ram} {size : Nat} (whole : wholeFrom 0 own = true)
    (aligned : cmdbuf % 4 = 0) (high : 0x10000 < cmdbuf) (large : hwInitPacketSize ≤ size % 2 ^ 32)
    (bounded : cmdbuf + (bufferOf own).length * 4 < 2 ^ 64)
    (small : (bufferOf own).length < 0x1000000) (videoOutHandle bufIdx : Nat)
    (kept : later.readBytes cmdbuf ((bufferOf own).length * 4) =
      (buildBuffer ram cmdbuf size own videoOutHandle bufIdx).2.readBytes cmdbuf
        ((bufferOf own).length * 4))
    (taken : TablesTaken 1 dcbAddrs dcbSizes) (pointer : later.readLe dcbAddrs 8 = cmdbuf)
    (bytes : cmdbuf + later.readLe dcbSizes 4 =
      (buildBuffer ram cmdbuf size own videoOutHandle bufIdx).1) :
    (∀ x, ¬ Ram.Covers cmdbuf ((bufferOf own).length * 4) x →
      (buildBuffer ram cmdbuf size own videoOutHandle bufIdx).2 x = ram x) ∧
    ((sceGnmSubmitCommandBuffers p gpu later 1 dcbAddrs dcbSizes : Outcome Empty _).Returns ↔
      (p = .dev → (gpu.getD .default).commandProcessor.submitCount + 1 < 2 ^ 64 ∧
        ∀ command ∈ dispatched own, RegistersFit command)) ∧
    ∀ gpu', (sceGnmSubmitCommandBuffers p gpu later 1 dcbAddrs dcbSizes : Outcome Empty _) =
        .ok gpu' → ∃ context, gpu' = some context ∧
      GpuRegs.Effects (dispatched own)
        { (gpu.getD .default).commandProcessor.regs with
          numInstances := 1
          writes := (gpu.getD .default).commandProcessor.regs.writes ++ hwInitWrites }
        context.commandProcessor.regs ∧
      context.framesSubmitted = (gpu.getD .default).framesSubmitted := by
  rw [buildBuffer_eq (by omega) large bounded] at kept bytes ⊢
  have written : (ram.writeDwords cmdbuf (bufferOf own)).HoldsDwords cmdbuf (bufferOf own) :=
    Ram.holdsDwords_write (by omega) (by omega)
  have length : 0 < (bufferOf own).length := by
    rw [length_bufferOf]
    exact Nat.succ_pos _
  have alone := @sceGnmSubmitCommandBuffers_one Empty p gpu _ _ _ _ _ taken pointer
    (Nat.add_left_cancel bytes) aligned high length small (kept.trans written)
  refine ⟨fun x outside => ?_, ?_, fun gpu' returned => ?_⟩
  · exact Ram.write_uncovered (by rwa [Ram.length_dwordBytes])
  · rw [alone, ← registersFit_bufferOf whole]
    refine (Outcome.returns_bind_of_forall fun _ => ⟨_, rfl⟩).trans ?_
    refine (Outcome.returns_bind_of_forall fun _ => ⟨_, rfl⟩).trans ?_
    exact CommandProcessor.processCommandBuffer_returns_iff p _ (bufferOf own)
  · rw [alone] at returned
    obtain ⟨context, submitted, same⟩ := Outcome.bind_eq_ok.mp returned
    cases same
    obtain ⟨processed, frames⟩ := GpuContext.submitGfx_processed submitted
    have effects := processed.effects
    rw [List.flatMap_singleton, dispatched_bufferOf whole] at effects
    exact ⟨context, rfl, effects_waitFlipPacket (effects_hwInitPackets effects), frames⟩

end Round

def fiveInstances : List UInt32 := [0xC0002F00, 5]

def Ram.readyToSubmit : Ram :=
  ((buildBuffer (fun _ => 0) 0x20000 0x100 fiveInstances 1 0).2.writeLe 0x40000 8 0x20000).writeLe
    0x50000 4 1060

theorem guestBuffer_processed_five :
    (sceGnmSubmitCommandBuffers .dev none .readyToSubmit 1 0x40000 0x50000 :
      Outcome Empty _).Returns ∧
    ∀ gpu', (sceGnmSubmitCommandBuffers .dev none .readyToSubmit 1 0x40000 0x50000 :
        Outcome Empty _) = .ok gpu' →
      ∃ context, gpu' = some context ∧ context.commandProcessor.regs.numInstances = 5 ∧
        context.commandProcessor.regs.writes = hwInitWrites := by
  have length : (bufferOf fiveInstances).length = 265 := by
    rw [length_bufferOf]
    rfl
  have pointer : Ram.readyToSubmit.readLe 0x40000 8 = 0x20000 := by
    rw [Ram.readyToSubmit, Ram.readLe_writeLe_apart
      (Ram.apart_of_disjoint (by decide) (by decide) (by decide)),
      Ram.readLe_writeLe (by decide) (by decide) (by decide)]
  have bytes : Ram.readyToSubmit.readLe 0x50000 4 = 1060 := by
    rw [Ram.readyToSubmit, Ram.readLe_writeLe (by decide) (by decide) (by decide)]
  have built := @buildBuffer_eq (fun _ => 0) 0x20000 0x100 fiveInstances (by decide) (by decide)
    (by rw [length]; decide) 1 0
  have round := @guestBuffer_processed .dev none (fun _ => 0) 0x20000 0x40000 0x50000 fiveInstances
    .readyToSubmit 0x100 (by decide) (by decide) (by decide) (by decide)
    (by rw [length]; decide) (by rw [length]; decide) 1 0
    (by
      rw [length, Ram.readyToSubmit,
        Ram.readBytes_writeLe (Ram.apart_of_disjoint (by decide) (by decide) (by decide)),
        Ram.readBytes_writeLe (Ram.apart_of_disjoint (by decide) (by decide) (by decide))])
    (by decide) pointer (by rw [built, bytes, length])
  refine ⟨round.2.1.mpr fun _ => ⟨by decide, ?_⟩, fun gpu' returned => ?_⟩
  · have all : (dispatched fiveInstances).all registersFit = true := by decide
    exact fun command member => registersFit_iff.mp (List.all_eq_true.mp all command member)
  · obtain ⟨context, same, effects, -⟩ := round.2.2 gpu' returned
    have own : dispatched fiveInstances = [(.numInstances, [5])] := by decide
    rw [own] at effects
    refine ⟨context, same, effects.numInstances, effects.writes.trans ?_⟩
    exact (List.append_nil _).trans (List.nil_append _)

end AnotherPs4
