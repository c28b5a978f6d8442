import AnotherPs4.Rust.Outcome

/-!
# PM4 packets

Headers of the command stream: two type bits, a 14-bit count and an opcode.
-/

namespace AnotherPs4

/-- Indirect-transfer opcodes. -/
inductive Pm4Opcode where
  | nop
  | setBase
  | clearState
  | indexBufferSize
  | dispatchDirect
  | dispatchIndirect
  | atomicGds
  | occlusionQuery
  | setPredication
  | regRmw
  | drawIndirect
  | drawIndexIndirect
  | indexBase
  | drawIndex2
  | contextControl
  | indexType
  | drawIndexAuto
  | numInstances
  | drawIndexMultiAuto
  | indirectBufferConst
  | drawIndexOffset2
  | writeData
  | memSemaphore
  | waitRegMem
  | indirectBuffer
  | copyData
  | pfpSyncMe
  | surfaceSync
  | eventWrite
  | eventWriteEop
  | eventWriteEos
  | releaseMem
  | dmaData
  | acquireMem
  | loadShReg
  | loadContextReg
  | setConfigReg
  | setContextReg
  | setShReg
  | setUconfigReg
  | loadConstRam
  | writeConstRam
  | dumpConstRam
  | incrementCeCounter
  | incrementDeCounter
  | waitOnCeCounter
  | waitOnDeCounterDiff
  deriving DecidableEq, Repr

namespace Pm4Opcode

def fromU32 (value : UInt32) : Option Pm4Opcode :=
  match value with
  | 0x10 => some nop
  | 0x11 => some setBase
  | 0x12 => some clearState
  | 0x13 => some indexBufferSize
  | 0x15 => some dispatchDirect
  | 0x16 => some dispatchIndirect
  | 0x1D => some atomicGds
  | 0x1F => some occlusionQuery
  | 0x20 => some setPredication
  | 0x21 => some regRmw
  | 0x24 => some drawIndirect
  | 0x25 => some drawIndexIndirect
  | 0x26 => some indexBase
  | 0x27 => some drawIndex2
  | 0x28 => some contextControl
  | 0x2A => some indexType
  | 0x2D => some drawIndexAuto
  | 0x2F => some numInstances
  | 0x30 => some drawIndexMultiAuto
  | 0x33 => some indirectBufferConst
  | 0x35 => some drawIndexOffset2
  | 0x37 => some writeData
  | 0x39 => some memSemaphore
  | 0x3C => some waitRegMem
  | 0x3F => some indirectBuffer
  | 0x40 => some copyData
  | 0x42 => some pfpSyncMe
  | 0x43 => some surfaceSync
  | 0x46 => some eventWrite
  | 0x47 => some eventWriteEop
  | 0x48 => some eventWriteEos
  | 0x49 => some releaseMem
  | 0x50 => some dmaData
  | 0x58 => some acquireMem
  | 0x5F => some loadShReg
  | 0x61 => some loadContextReg
  | 0x68 => some setConfigReg
  | 0x69 => some setContextReg
  | 0x76 => some setShReg
  | 0x79 => some setUconfigReg
  | 0x80 => some loadConstRam
  | 0x81 => some writeConstRam
  | 0x83 => some dumpConstRam
  | 0x84 => some incrementCeCounter
  | 0x85 => some incrementDeCounter
  | 0x86 => some waitOnCeCounter
  | 0x88 => some waitOnDeCounterDiff
  | _ => none

end Pm4Opcode

inductive Pm4Type where
  | type0
  | type2
  | type3
  deriving DecidableEq, Repr

structure Pm4Header where
  packetType : Pm4Type
  count : UInt16
  opcode : Option Pm4Opcode
  deriving DecidableEq, Repr

def parsePm4Header (header : UInt32) : Pm4Header :=
  let packetType := match (header >>> 30) &&& 0x3 with
    | 0 => Pm4Type.type0
    | 2 => Pm4Type.type2
    | 3 => Pm4Type.type3
    | _ => Pm4Type.type2
  { packetType
    count := ((header >>> 16) &&& 0x3FFF).toUInt16
    opcode := if packetType == .type3 then Pm4Opcode.fromU32 ((header >>> 8) &&& 0xFF) else none }

example : parsePm4Header 0xC0001000 = ⟨.type3, 0, some .nop⟩ := by decide

end AnotherPs4
