import AnotherPs4.Linker.LoadRuns
import AnotherPs4.Memory.UserRegion

/-!
# Regions of loaded modules

The modules of a linker lie in regions of their own, which are page aligned and
inside the user region. So there are fewer of them than an index can count.
-/

namespace AnotherPs4

open Rust RangeMap Transition

variable {ε : Type}

theorem pairwise_getElem? {α : Type} {r : α → α → Prop} {xs : List α} (pairs : xs.Pairwise r)
    (symm : ∀ {a b}, r a b → r b a) {i j : Nat} {a b : α} (first : xs[i]? = some a)
    (second : xs[j]? = some b) (other : i ≠ j) : r a b := by
  rw [List.pairwise_iff_getElem] at pairs
  obtain ⟨bound, rfl⟩ := List.getElem?_eq_some_iff.mp first
  obtain ⟨bound', rfl⟩ := List.getElem?_eq_some_iff.mp second
  rcases Nat.lt_or_gt_of_ne other with before | after
  · exact pairs i j bound bound' before
  · exact symm (pairs j i bound' bound after)

theorem alignUp_page_dvd {p : Profile} {value aligned : Nat}
    (returned : (alignUp p value pageSize : Outcome ε Nat) = .ok aligned) :
    pageSize ∣ aligned ∧ aligned < 2 ^ 64 := by
  have masked : aligned = roundDown ((value + (2 ^ 14 - 1)) % 2 ^ 64) (2 ^ 14) :=
    alignUp_eq_ok (by decide) returned
  have word : (value + (2 ^ 14 - 1)) % 2 ^ 64 < 2 ^ 64 := Nat.mod_lt _ (by decide)
  rw [masked]
  exact ⟨Nat.dvd_mul_left _ _, lt_of_le_of_lt (Nat.div_mul_le_self _ _) word⟩

namespace Module

variable {p : Profile} {sys : Sys} {path : Path} {guest guest' : Guest} {tls tls' : Nat}

def block (module : Module) : Block := (module.baseVirtualAddr, module.alignedBaseSize)

/-- A region that is mapped was free, and holds zeros. -/
structure MapsRegion (space : AddressSpace) (base size : Nat) (guest guest' : Guest) : Prop where
  aligned : pageSize ∣ base
  whole : pageSize ∣ size
  nonempty : 0 < size
  inUser : space.InUser base size
  regional : guest'.memory.Regional space
  zeros : guest'.ram = guest.ram.zero base size
  live : ∀ {live}, LiveBlocks live (attrAt guest.memory.vmaMap) →
    LiveBlocks ((base, size) :: live) (attrAt guest'.memory.vmaMap)

theorem MapsRegion.bounded {space : AddressSpace} {base size : Nat}
    (region : MapsRegion space base size guest guest') (fixedSize : space.userSize = userSize)
    (bounded : space.userBase + userSize ≤ hostLimit) : base + size ≤ hostLimit := by
  rw [← fixedSize] at bounded
  exact region.inUser.2.trans bounded

theorem mapMemory_mapsRegion (lawful : sys.Lawful) {space : AddressSpace}
    (regional : guest.memory.Regional space) {size base : Nat} {prot : MemoryProt}
    {vmaType : VMAType} {name : String} (inUse : vmaType ≠ .free) (word : size < 2 ^ 64)
    (call : guest.mapMemory p sys size prot vmaType name = .ok (.ok base, guest')) :
    MapsRegion space base (roundUp size pageSize) guest guest' := by
  obtain ⟨returned, zeros⟩ := Guest.mapMemory_eq_ok call
  have mapped := MemoryCall.map (lawful _) word returned
  have free : ¬ (Guest.request size prot vmaType name).fixed := Guest.request_not_fixed _ _ _ _
  have inUser := mapped.chosen_inUser regional.wf regional.inside rfl free
  have regional' := mapped.regional regional fun fixed => absurd fixed free
  have effect := (mapped.effect regional.wf).2
  rw [Guest.request, regional.sameSpace] at inUser
  generalize memory' : guest'.memory = memory at effect regional'
  cases effect with
  | mapped nonempty bytes chosen =>
    rw [if_neg free] at chosen
    simp only [Guest.request] at nonempty bytes chosen
    refine ⟨chosen.1, dvd_roundUp _ _, nonempty, inUser, memory' ▸ regional', zeros,
      fun blocks => ?_⟩
    rw [memory', bytes]
    exact blocks.cons_free nonempty (by simpa [MapRequest.attributes] using inUse) chosen.2

theorem mapMemory_region (lawful : sys.Lawful) {space : AddressSpace}
    (regional : guest.memory.Regional space) {size alignedBaseSize base : Nat} {name : String}
    (rounded : (alignUp p size pageSize : Outcome Empty Nat) = .ok alignedBaseSize)
    (call : guest.mapMemory p sys alignedBaseSize codeProt .code name = .ok (.ok base, guest')) :
    MapsRegion space base alignedBaseSize guest guest' := by
  obtain ⟨whole, word⟩ := alignUp_page_dvd rounded
  have region := mapMemory_mapsRegion lawful regional (by decide) word call
  rwa [roundUp_eq_self pageSize_pos whole] at region

theorem load_error_memory (lawful : sys.Lawful) (wf : guest.memory.vmaMap.WellFormed)
    {e : LinkError} (failed : load p sys path guest tls = .ok (.error e, guest', tls')) :
    guest'.memory = guest.memory := by
  obtain ⟨-, rfl | ⟨size, alignedBaseSize, e', aligned, call⟩⟩ := load_eq_error failed
  · rfl
  · have mapped := MemoryCall.map (lawful _) (alignUp_page_dvd aligned).2
      (Guest.mapMemory_eq_ok call).1
    have effect := (mapped.effect wf).2
    generalize guest'.memory = memory at effect ⊢
    cases effect
    rfl

/-- Where a loaded module comes from and where it is. -/
structure Loaded (p : Profile) (sys : Sys) (space : AddressSpace) (module : Module) : Prop where
  name : module.name = moduleName module.file
  opened : Elf.openBytes p (sys.read module.file) = .ok module.elf
  extent : Extent p module.elf module.minAddr module.alignedBaseSize
  relocations : parseRelocations p module.elf = .ok module.relocations
  aligned : pageSize ∣ module.baseVirtualAddr
  whole : pageSize ∣ module.alignedBaseSize
  inUser : space.InUser module.baseVirtualAddr module.alignedBaseSize

theorem load_loaded (lawful : sys.Lawful) {space : AddressSpace} {module : Module}
    (regional : guest.memory.Regional space)
    (loaded : load p sys path guest tls = .ok (.ok module, guest', tls')) :
    module.Loaded p sys space ∧ module.name = moduleName path ∧
      guest'.memory.Regional space ∧
      ∀ {live}, LiveBlocks live (attrAt guest.memory.vmaMap) →
        LiveBlocks (module.block :: live) (attrAt guest'.memory.vmaMap) := by
  obtain ⟨opened, run⟩ := load_eq_ok loaded
  obtain ⟨extent, mapped, call, name, file, -, placed, same⟩ := loadElf_eq_ok run
  obtain ⟨_, _, -, -, rounded⟩ := extent.range
  have region := mapMemory_region lawful regional rounded call
  have memory : guest'.memory = mapped.memory := by rw [same]
  rw [memory]
  exact ⟨⟨name.trans (file ▸ rfl), file ▸ opened, extent, placed.relocations, region.aligned,
    region.whole, region.inUser⟩, name, region.regional, region.live⟩

end Module

namespace Linker

/-- The invariant of linkers: the modules have names and regions of their own,
and are what the files say. -/
structure Sound (p : Profile) (sys : Sys) (space : AddressSpace) (linker : Linker) : Prop where
  regional : linker.guest.memory.Regional space
  blocks : LiveBlocks (linker.modules.map Module.block).reverse
    (attrAt linker.guest.memory.vmaMap)
  names : (linker.modules.map (·.name)).Nodup
  loaded : ∀ module ∈ linker.modules, module.Loaded p sys space

variable {p : Profile} {sys : Sys} {path : Path} {space : AddressSpace} {linker linker' : Linker}

theorem loadedIndex_eq_none (fresh : linker.loadedIndex path = none) :
    moduleName path ∉ linker.modules.map (·.name) := by
  rw [loadedIndex, List.findIdx?_eq_none_iff] at fresh
  intro named
  obtain ⟨module, member, name⟩ := List.mem_map.mp named
  exact absurd (fresh module member) (by simp [name])

def registered (guest : Guest) (hleSymbols : SymbolResolver) : Linker :=
  { new guest with hleSymbols }

theorem registered_sound {guest : Guest} {boot : HostBoot} (lawful : boot.Lawful)
    (booted : MemoryManager.new boot = .ok guest.memory) (hleSymbols : SymbolResolver) :
    (registered guest hleSymbols).Sound p sys guest.memory.addressSpace where
  regional := ⟨(MemoryManager.new_wellFormed lawful booted).1,
    MemoryManager.new_freeInUser lawful booted, rfl⟩
  blocks := ⟨.nil, nofun, nofun⟩
  names := .nil
  loaded := nofun

namespace Sound

variable (sound : linker.Sound p sys space)

include sound

theorem block_apart {i j : Nat} {m m' : Module} (first : linker.modules[i]? = some m)
    (second : linker.modules[j]? = some m') (other : i ≠ j) : m.block.Apart m'.block := by
  have pairs := List.pairwise_map.mp (List.pairwise_reverse.mp sound.blocks.apart)
  exact (pairwise_getElem? pairs Or.symm first second other).symm

theorem length_lt (fixedSize : space.userSize = userSize) : linker.modules.length < 2 ^ 32 := by
  have count : (linker.modules.map Module.block).reverse.length ≤
      (space.userBase + space.userSize) / pageSize - space.userBase / pageSize := by
    refine Block.length_le_of_apart sound.blocks.apart (fun b member => ?_) fun b member => ?_ <;>
    obtain ⟨module, listed, rfl⟩ := List.mem_map.mp (List.mem_reverse.mp member)
    · have loaded := sound.loaded module listed
      exact ⟨loaded.aligned, loaded.whole, sound.blocks.nonempty _ member⟩
    · exact (sound.loaded module listed).inUser
  rw [List.length_reverse, List.length_map, fixedSize] at count
  unfold userSize pageSize at count
  omega

end Sound

end Linker

theorem LinkerStep.sound {p : Profile} {sys : Sys} {space : AddressSpace}
    {linker linker' : Linker} {event : LinkerEvent} (lawful : sys.Lawful)
    (sound : linker.Sound p sys space) (step : LinkerStep p sys linker event linker') :
    linker'.Sound p sys space := by
  obtain ⟨regional, blocks, names, modules⟩ := sound
  cases step with
  | warn => exact ⟨regional, blocks, names, modules⟩
  | install fresh installed =>
    rcases Linker.install_eq_ok installed with
      ⟨e, guest, tls, -, failed, rfl⟩ | ⟨module, guest, tls, needed, ram, -, loaded, -, rfl⟩
    · have memory := Module.load_error_memory lawful regional.wf failed
      exact ⟨by rwa [memory], by rwa [memory], names, modules⟩
    · obtain ⟨origin, name, regional', grow⟩ := Module.load_loaded lawful regional loaded
      refine ⟨regional', ?_, ?_, ?_⟩
      · rw [List.map_append, List.reverse_append]
        exact grow blocks
      · rw [List.map_append, List.nodup_append]
        refine ⟨names, List.nodup_singleton _, ?_⟩
        intro other old added named same
        rw [List.map_singleton, List.mem_singleton] at named
        exact Linker.loadedIndex_eq_none fresh (by rw [← name, ← named, ← same]; exact old)
      · intro other member
        rcases List.mem_append.mp member with member | member
        · exact modules other member
        · obtain rfl := List.mem_singleton.mp member
          exact origin

theorem MemoryManager.new_userSize {boot : HostBoot} (lawful : boot.Lawful) {mm : MemoryManager}
    (booted : new boot = .ok mm) : mm.addressSpace.userSize = userSize ∧
      mm.addressSpace.userBase + userSize ≤ hostLimit := by
  obtain ⟨reserved, size, -⟩ := new_eq_ok booted
  exact ⟨size, lawful _ reserved⟩

end AnotherPs4
