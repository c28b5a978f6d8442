import AnotherPs4.Memory.PhysicalMemory

/-!
# Virtual memory areas

The memory manager keeps a map from base address to virtual memory area next
to the host mappings. The host kernel is a parameter: it decides for each call
whether `mmap` or `munmap` succeeds.
-/

namespace AnotherPs4

open Rust

variable {ε : Type}

/-- CPU and GPU protection bits. -/
structure MemoryProt where
  bits : Nat
  deriving DecidableEq, Repr

namespace MemoryProt

def none : MemoryProt := ⟨0⟩

def cpuRead : MemoryProt := ⟨1⟩

def cpuWrite : MemoryProt := ⟨2⟩

def cpuRw : MemoryProt := ⟨3⟩

def cpuExec : MemoryProt := ⟨4⟩

def contains (prot other : MemoryProt) : Bool := prot.bits &&& other.bits == other.bits

def union (prot other : MemoryProt) : MemoryProt := ⟨prot.bits ||| other.bits⟩

end MemoryProt

structure MemoryMapFlags where
  bits : Nat
  deriving DecidableEq, Repr

namespace MemoryMapFlags

def none : MemoryMapFlags := ⟨0⟩

def priv : MemoryMapFlags := ⟨2⟩

def fixed : MemoryMapFlags := ⟨0x10⟩

def anonymous : MemoryMapFlags := ⟨0x1000⟩

def noCoalesce : MemoryMapFlags := ⟨0x400000⟩

def contains (flags other : MemoryMapFlags) : Bool := flags.bits &&& other.bits == other.bits

def union (flags other : MemoryMapFlags) : MemoryMapFlags := ⟨flags.bits ||| other.bits⟩

end MemoryMapFlags

inductive VMAType where
  | free
  | reserved
  | direct
  | flexible
  | pooled
  | poolReserved
  | stack
  | threadData
  | code
  | file
  deriving DecidableEq, Repr

/-- What an area says about each of its bytes. -/
structure VMAAttributes where
  vmaType : VMAType
  prot : MemoryProt
  name : String
  disallowMerge : Bool
  deriving DecidableEq, Repr

/-- A contiguous region of virtual memory with uniform attributes. -/
structure VirtualMemoryArea extends VMAAttributes where
  base : Nat
  size : Nat
  deriving DecidableEq, Repr

namespace VirtualMemoryArea

/-- `addr < base + size && addr + size' > base`, evaluated from the left. -/
def overlaps (p : Profile) (vma : VirtualMemoryArea) (addr size : Nat) : Outcome ε Bool := do
  let vmaEnd ← p.add 64 vma.base vma.size
  if addr < vmaEnd then
    let stop ← p.add 64 addr size
    return decide (stop > vma.base)
  else return false

def isFree (vma : VirtualMemoryArea) : Bool := vma.vmaType == .free

instance : RangeMap.Segment VirtualMemoryArea VMAAttributes where
  base := base
  size := size
  attr := toVMAAttributes
  withRange vma b n := { vma with base := b, size := n }
  base_withRange _ _ _ := rfl
  size_withRange _ _ _ := rfl
  attr_withRange _ _ _ := rfl

end VirtualMemoryArea

abbrev VMAMap := RangeMap.Map VirtualMemoryArea

/-- Errors of the memory manager and the address space under it. -/
inductive MemoryError where
  | allocateFailed (size : Nat)
  | reserveFailed (size : Nat)
  | mmapFailed (addr size : Nat)
  | munmapFailed (addr size : Nat)
  | noFreeRegion (size : Nat)
  deriving DecidableEq, Repr

/-- The host kernel as seen by one call. -/
structure Host where
  mmapFixed : (addr size : Nat) → (executable : Bool) → Bool
  munmap : (addr size : Nat) → Bool

/-- Bound of the 47-bit user address space of an x86-64 host. -/
def hostLimit : Nat := 2 ^ 47

/-- `mmap` and `munmap` fail for a zero length and for a range that wraps or
leaves the host address space. -/
structure Host.Lawful (host : Host) : Prop where
  mmapFixed : ∀ {addr size executable}, host.mmapFixed addr size executable = true →
    0 < size ∧ addr + size ≤ hostLimit
  munmap : ∀ {addr size}, host.munmap addr size = true → 0 < size ∧ addr + size ≤ hostLimit

/-- Host answers to the four `mmap` calls of `AddressSpace::new`. -/
structure HostBoot where
  backing : Option Nat
  user : Option Nat
  systemManaged : Option Nat
  systemReserved : Option Nat

/-- A reservation that succeeds lies in the host address space. -/
def HostBoot.Lawful (boot : HostBoot) : Prop :=
  ∀ base, boot.user = some base → base + userSize ≤ hostLimit

structure AddressSpace where
  backingBase : Nat
  systemManagedBase : Nat
  systemReservedBase : Nat
  userBase : Nat
  userSize : Nat
  deriving DecidableEq

namespace AddressSpace

def backingSize : Nat := 8 * 1024 * 1024 * 1024

def new (boot : HostBoot) : Except MemoryError AddressSpace := do
  let backingBase ← boot.backing.elim (.error (.allocateFailed backingSize)) .ok
  let userBase ← boot.user.elim (.error (.reserveFailed AnotherPs4.userSize)) .ok
  let systemManagedBase ←
    boot.systemManaged.elim (.error (.reserveFailed systemManagedSize)) .ok
  let systemReservedBase ←
    boot.systemReserved.elim (.error (.reserveFailed systemReservedSize)) .ok
  return { backingBase, systemManagedBase, systemReservedBase, userBase,
           userSize := AnotherPs4.userSize }

def map (host : Host) (virtualAddr size : Nat) (executable : Bool) : Except MemoryError Nat :=
  if host.mmapFixed virtualAddr size executable then .ok virtualAddr
  else .error (.mmapFailed virtualAddr size)

def unmap (host : Host) (virtualAddr size : Nat) : Except MemoryError Unit :=
  if host.munmap virtualAddr size then .ok () else .error (.munmapFailed virtualAddr size)

end AddressSpace

structure MemoryManager where
  addressSpace : AddressSpace
  physical : PhysicalMemoryManager
  vmaMap : VMAMap
  totalDirectSize : Nat
  totalFlexibleSize : Nat
  flexibleUsage : Nat
  deriving DecidableEq

namespace MemoryManager

def freeAttributes : VMAAttributes where
  vmaType := .free
  prot := .none
  name := ""
  disallowMerge := false

def new (boot : HostBoot) : Except MemoryError MemoryManager := do
  let addressSpace ← AddressSpace.new boot
  let totalDirectSize := 5632 * 1024 * 1024
  let userBase := addressSpace.userBase
  return {
    addressSpace
    physical := .new totalDirectSize
    vmaMap := (∅ : VMAMap).insert userBase
      { freeAttributes with base := userBase, size := addressSpace.userSize }
    totalDirectSize
    totalFlexibleSize := 448 * 1024 * 1024
    flexibleUsage := 0 }

def firstFit (p : Profile) (size alignment : Nat) :
    List VirtualMemoryArea → Outcome ε (Except MemoryError Nat)
  | [] => .ok (.error (.noFreeRegion size))
  | vma :: rest =>
    if !vma.isFree then firstFit p size alignment rest
    else do
      let alignedBase ← alignUp p vma.base alignment
      let stop ← p.add 64 alignedBase size
      let vmaEnd ← p.add 64 vma.base vma.size
      if stop ≤ vmaEnd then return .ok alignedBase
      else firstFit p size alignment rest

def findFreeRegion (p : Profile) (mm : MemoryManager) (size alignment : Nat) :
    Outcome ε (Except MemoryError Nat) :=
  firstFit p size alignment (mm.vmaMap.toList.map Prod.snd)

def overlappingKeys (p : Profile) (addr size : Nat) :
    List (Nat × VirtualMemoryArea) → Outcome ε (List Nat)
  | [] => .ok []
  | (base, vma) :: rest => do
    let hit ← vma.overlaps p addr size
    let keys ← overlappingKeys p addr size rest
    return if hit then base :: keys else keys

def carveKey (p : Profile) (addr stop : Nat) (map : VMAMap) (base : Nat) : Outcome ε VMAMap :=
  match map[base]? with
  | none => .panic .unwrapNone
  | some vma => do
    let map := map.erase base
    let map ← if vma.base < addr then do
        let before ← p.sub 64 addr vma.base
        pure (map.insert vma.base { vma with size := before })
      else pure map
    let vmaEnd ← p.add 64 vma.base vma.size
    if vmaEnd > stop then
      let after ← p.sub 64 vmaEnd stop
      return map.insert stop { vma with base := stop, size := after }
    else return map

def carveVma (p : Profile) (map : VMAMap) (addr size : Nat) : Outcome ε VMAMap := do
  let stop ← p.add 64 addr size
  let overlapping ← overlappingKeys p addr size (map.toList.filter fun e => e.1 < stop)
  overlapping.foldlM (carveKey p addr stop) map

/-- Store an area over whatever its range held, as `map_memory` and
`unmap_memory` both do at their end. -/
def replaceVma (p : Profile) (mm : MemoryManager) (vma : VirtualMemoryArea) :
    Outcome ε MemoryManager := do
  let map ← carveVma p mm.vmaMap vma.base vma.size
  return { mm with vmaMap := map.insert vma.base vma }

/-- `map_memory` once the address is chosen. -/
def mapAt (p : Profile) (host : Host) (mm : MemoryManager) (addr alignedSize : Nat)
    (attributes : VMAAttributes) : Outcome ε (Except MemoryError Nat × MemoryManager) := do
  let executable := attributes.prot.contains .cpuExec
  match AddressSpace.map host addr alignedSize executable with
  | .error e => return (.error e, mm)
  | .ok _ =>
    let mm ← mm.replaceVma p { attributes with base := addr, size := alignedSize }
    return (.ok addr, mm)

def mapMemory (p : Profile) (host : Host) (mm : MemoryManager) (virtualAddr size : Nat)
    (prot : MemoryProt) (flags : MemoryMapFlags) (vmaType : VMAType) (name : String) :
    Outcome ε (Except MemoryError Nat × MemoryManager) := do
  let alignedSize ← alignUp p size pageSize
  let chosen ← if virtualAddr = 0 ∨ !flags.contains .fixed then
      mm.findFreeRegion p alignedSize pageSize
    else pure (.ok virtualAddr)
  match chosen with
  | .error e => return (.error e, mm)
  | .ok addr =>
    mm.mapAt p host addr alignedSize
      { vmaType, prot, name, disallowMerge := flags.contains .noCoalesce }

def unmapMemory (p : Profile) (host : Host) (mm : MemoryManager) (virtualAddr size : Nat) :
    Outcome ε (Except MemoryError Unit × MemoryManager) := do
  let alignedSize ← alignUp p size pageSize
  match AddressSpace.unmap host virtualAddr alignedSize with
  | .error e => return (.error e, mm)
  | .ok _ =>
    let mm ← mm.replaceVma p { freeAttributes with base := virtualAddr, size := alignedSize }
    return (.ok (), mm)

end MemoryManager

/-- Arguments of one `mapMemory` call. -/
structure MapRequest where
  virtualAddr : Nat
  size : Nat
  prot : MemoryProt
  flags : MemoryMapFlags
  vmaType : VMAType
  name : String
  deriving DecidableEq, Repr

namespace MapRequest

def attributes (r : MapRequest) : VMAAttributes where
  vmaType := r.vmaType
  prot := r.prot
  name := r.name
  disallowMerge := r.flags.contains .noCoalesce

def fixed (r : MapRequest) : Prop := r.virtualAddr ≠ 0 ∧ r.flags.contains .fixed = true

instance (r : MapRequest) : Decidable r.fixed :=
  inferInstanceAs (Decidable (r.virtualAddr ≠ 0 ∧ r.flags.contains .fixed = true))

theorem not_fixed {r : MapRequest} :
    ¬ r.fixed ↔ r.virtualAddr = 0 ∨ (!r.flags.contains .fixed) = true := by
  unfold fixed
  by_cases zero : r.virtualAddr = 0 <;> simp [zero]

def call (p : Profile) (host : Host) (mm : MemoryManager) (r : MapRequest) :
    Outcome Empty (Except MemoryError Nat × MemoryManager) :=
  mm.mapMemory p host r.virtualAddr r.size r.prot r.flags r.vmaType r.name

end MapRequest

end AnotherPs4
