import AnotherPs4.Common.Types
import AnotherPs4.RangeMap.Cut

/-!
# Physical memory allocation

The direct-memory manager: a map from base address to area, first-fit
allocation, and release by exact base and size.
-/

namespace AnotherPs4

open Rust

variable {ε : Type}

inductive PhysicalMemoryType where
  | free
  | allocated
  | mapped
  | pooled
  | committed
  | flexible
  deriving DecidableEq, Repr

structure PhysicalMemoryArea where
  base : Nat
  size : Nat
  memoryType : Int
  dmaType : PhysicalMemoryType
  deriving DecidableEq, Repr

namespace PhysicalMemoryArea

def areaEnd (p : Profile) (area : PhysicalMemoryArea) : Outcome ε Nat :=
  p.add 64 area.base area.size

def canMergeWith (p : Profile) (area next : PhysicalMemoryArea) : Outcome ε Bool := do
  let stop ← p.add 64 area.base area.size
  return stop == next.base && area.memoryType == next.memoryType && area.dmaType == next.dmaType

instance : RangeMap.Segment PhysicalMemoryArea (Int × PhysicalMemoryType) where
  base := base
  size := size
  attr area := (area.memoryType, area.dmaType)
  withRange area b n := { area with base := b, size := n }
  base_withRange _ _ _ := rfl
  size_withRange _ _ _ := rfl
  attr_withRange _ _ _ := rfl

end PhysicalMemoryArea

abbrev AreaMap := RangeMap.Map PhysicalMemoryArea

structure PhysicalMemoryManager where
  areas : AreaMap
  totalSize : Nat
  deriving DecidableEq

namespace PhysicalMemoryManager

def new (totalSize : Nat) : PhysicalMemoryManager where
  areas := (∅ : AreaMap).insert 0
    { base := 0, size := totalSize, memoryType := 0, dmaType := .free }
  totalSize := totalSize

def findFit (p : Profile) (searchStart searchEnd size alignment : Nat) :
    List PhysicalMemoryArea → Outcome ε (Option Nat)
  | [] => .ok none
  | area :: rest =>
    if area.dmaType ≠ .free then findFit p searchStart searchEnd size alignment rest
    else do
      let alignedBase ← alignUp p (max area.base searchStart) alignment
      let stop ← p.add 64 alignedBase size
      if alignedBase ≥ area.base then
        let areaEnd ← area.areaEnd p
        if stop ≤ areaEnd ∧ stop ≤ searchEnd then .ok (some alignedBase)
        else findFit p searchStart searchEnd size alignment rest
      else findFit p searchStart searchEnd size alignment rest

def findContaining (p : Profile) (addr : Nat) :
    List (Nat × PhysicalMemoryArea) → Outcome ε (Option Nat)
  | [] => .ok none
  | (base, area) :: rest =>
    if base ≤ addr then do
      let areaEnd ← area.areaEnd p
      if addr < areaEnd then .ok (some base) else findContaining p addr rest
    else findContaining p addr rest

/-- Carve `[addr, addr + size)` out of the area that contains `addr`. -/
def carveArea (p : Profile) (areas : AreaMap) (addr size : Nat) : Outcome ε AreaMap := do
  match ← findContaining p addr areas.toList with
  | none => return areas
  | some containingAddr =>
    match areas[containingAddr]? with
    | none => .panic .unwrapNone
    | some area =>
      let areas := areas.erase containingAddr
      let areas ← if addr > area.base then do
          let before ← p.sub 64 addr area.base
          pure (areas.insert area.base { area with size := before })
        else pure areas
      let areas := areas.insert addr { area with base := addr, size := size }
      let stop ← p.add 64 addr size
      let areaEnd ← area.areaEnd p
      if stop < areaEnd then
        let after ← p.sub 64 areaEnd stop
        return areas.insert stop { area with base := stop, size := after }
      else return areas

def allocate (p : Profile) (m : PhysicalMemoryManager)
    (searchStart searchEnd size alignment : Nat) :
    Outcome ε (Option Nat × PhysicalMemoryManager) := do
  let alignment := max alignment pageSize
  match ← findFit p searchStart searchEnd size alignment (m.areas.toList.map Prod.snd) with
  | none => return (none, m)
  | some addr =>
    let areas ← carveArea p m.areas addr size
    let areas := areas.modify addr fun area => { area with dmaType := .allocated }
    return (some addr, { m with areas := areas })

/-- The loop of `merge_adjacent` over the keys collected before it. -/
def mergeKeys (p : Profile) : List Nat → AreaMap → Outcome ε AreaMap
  | currentKey :: nextKey :: rest, areas =>
    match areas[currentKey]?, areas[nextKey]? with
    | some current, some next => do
      if ← current.canMergeWith p next then
        let merged ← p.add 64 current.size next.size
        let areas := (areas.erase nextKey).modify currentKey fun area =>
          { area with size := merged }
        mergeKeys p (nextKey :: rest) areas
      else mergeKeys p (nextKey :: rest) areas
    -- indexing a map with an absent key panics
    | _, _ => .panic .missingKey
  | _, areas => .ok areas

def mergeAdjacent (p : Profile) (areas : AreaMap) : Outcome ε AreaMap :=
  mergeKeys p areas.keys areas

def free (p : Profile) (m : PhysicalMemoryManager) (addr size : Nat) :
    Outcome ε (Bool × PhysicalMemoryManager) :=
  match m.areas[addr]? with
  | some area =>
    if area.size = size then do
      let marked := m.areas.modify addr fun area => { area with dmaType := .free }
      let areas ← mergeAdjacent p marked
      return (true, { m with areas := areas })
    else return (false, m)
  | none => return (false, m)

end PhysicalMemoryManager

end AnotherPs4
