import AnotherPs4.Gpu.Pm4
import AnotherPs4.Rust.Slice

/-!
# Command processor

The walk over a command buffer and the effect of each packet on the register
state.
-/

namespace AnotherPs4

open Rust

variable {ε : Type}

inductive RegisterFile where
  | context
  | sh
  | config
  | uconfig
  deriving DecidableEq, Repr

structure RegisterWrite where
  file : RegisterFile
  offset : Nat
  value : UInt32
  deriving DecidableEq, Repr

/-- The registers that packets store directly, and the calls of the four
`write_*_reg` functions in order: the source logs these without decoding them. -/
structure GpuRegs where
  numInstances : UInt32
  indexBase : UInt64
  indexSize : UInt32
  indexType : UInt32
  writes : List RegisterWrite
  deriving DecidableEq, Repr

namespace GpuRegs

def default : GpuRegs := ⟨0, 0, 0, 0, []⟩

def write (file : RegisterFile) (regs : GpuRegs) (offset : Nat) (value : UInt32) : GpuRegs :=
  { regs with writes := regs.writes ++ [⟨file, offset, value⟩] }

def writeContextReg : GpuRegs → Nat → UInt32 → GpuRegs := write .context

def writeShReg : GpuRegs → Nat → UInt32 → GpuRegs := write .sh

def writeConfigReg : GpuRegs → Nat → UInt32 → GpuRegs := write .config

def writeUconfigReg : GpuRegs → Nat → UInt32 → GpuRegs := write .uconfig

/-- The loop of the four `SET_*_REG` packets: consecutive registers from the
offset in the first dword. -/
def setRegs (p : Profile) (write : GpuRegs → Nat → UInt32 → GpuRegs) (regs : GpuRegs) :
    List UInt32 → Outcome ε GpuRegs
  | regOffset :: value :: values =>
    (value :: values).zipIdx.foldlM (fun regs (value, i) => do
      let offset ← p.add 32 regOffset.toNat (i % 2 ^ 32)
      return write regs offset value) regs
  | _ => .ok regs

end GpuRegs

structure CommandProcessor where
  regs : GpuRegs
  submitCount : Nat
  deriving DecidableEq, Repr

namespace CommandProcessor

def new : CommandProcessor := ⟨.default, 0⟩

def processType3Packet (p : Profile) (cp : CommandProcessor) (opcode : Pm4Opcode)
    (body : List UInt32) : Outcome ε CommandProcessor :=
  match opcode with
  | .setContextReg => do return { cp with regs := ← cp.regs.setRegs p .writeContextReg body }
  | .setShReg => do return { cp with regs := ← cp.regs.setRegs p .writeShReg body }
  | .setConfigReg => do return { cp with regs := ← cp.regs.setRegs p .writeConfigReg body }
  | .setUconfigReg => do return { cp with regs := ← cp.regs.setRegs p .writeUconfigReg body }
  | .numInstances => match body with
    | value :: _ => .ok { cp with regs.numInstances := value }
    | [] => .ok cp
  | .indexBase => match body with
    | low :: high :: _ =>
      .ok { cp with regs.indexBase := low.toUInt64 ||| (high.toUInt64 <<< 32) }
    | _ => .ok cp
  | .indexType => match body with
    | value :: _ => .ok { cp with regs.indexType := value }
    | [] => .ok cp
  | .indexBufferSize => match body with
    | value :: _ => .ok { cp with regs.indexSize := value }
    | [] => .ok cp
  -- draws, dispatches, events and waits are stubs that only log
  | _ => .ok cp

/-- The loop of `process_command_buffer` from a given offset. Offsets stay
within the length of a slice, so their sums cannot overflow. -/
def processFrom (p : Profile) (dcb : List UInt32) (offset : Nat) (cp : CommandProcessor) :
    Outcome ε CommandProcessor :=
  if inRange : offset < dcb.length then
    let header := parsePm4Header dcb[offset]
    if header.packetType = .type2 then processFrom p dcb (offset + 1) cp
    else if header.packetType = .type3 then do
      let bodyDwords := header.count.toNat + 1
      let stop := min (offset + 1 + bodyDwords) dcb.length
      let body ← slice dcb (offset + 1) stop
      let cp ← header.opcode.elim (.ok cp) fun opcode => cp.processType3Packet p opcode body
      processFrom p dcb stop cp
    else processFrom p dcb (offset + 1) cp
  else .ok cp
termination_by dcb.length - offset

def processCommandBuffer (p : Profile) (cp : CommandProcessor) (dcb : List UInt32) :
    Outcome ε CommandProcessor := do
  let cp ← processFrom p dcb 0 cp
  let submitCount ← p.add 64 cp.submitCount 1
  return { cp with submitCount := submitCount }

end CommandProcessor

end AnotherPs4
