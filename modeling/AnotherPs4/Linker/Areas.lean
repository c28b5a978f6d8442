import AnotherPs4.Linker.Termination
import AnotherPs4.Memory.LiveAreas

/-!
# Areas of loaded modules

Before the guest runs, the areas in use are exactly the areas of the loaded
modules, one for each.
-/

namespace AnotherPs4

open Rust RangeMap Transition

def Module.area (module : Module) : VirtualMemoryArea where
  vmaType := .code
  prot := codeProt
  name := module.name
  disallowMerge := false
  base := module.baseVirtualAddr
  size := module.alignedBaseSize

/-- The stored areas in use are those of the modules. -/
def Linker.AreasOfModules (linker : Linker) : Prop :=
  ∀ (k : Nat) (t : VirtualMemoryArea), t.vmaType ≠ .free →
    (linker.guest.memory.vmaMap[k]? = some t ↔
      ∃ module ∈ linker.modules, k = module.baseVirtualAddr ∧ t = module.area)

def MemoryManager.getVmas (mm : MemoryManager) : List VirtualMemoryArea :=
  mm.vmaMap.toList.map Prod.snd

theorem MemoryManager.new_areas {boot : HostBoot} (lawful : boot.Lawful) {mm : MemoryManager}
    (booted : new boot = .ok mm) {k : Nat} {t : VirtualMemoryArea}
    (stored : mm.vmaMap[k]? = some t) : t.vmaType = .free := by
  obtain ⟨wf, initial⟩ := new_wellFormed lawful booted
  have positive : 0 < t.size := wf.positive stored
  have first : attrAt mm.vmaMap t.base = some t.toVMAAttributes :=
    (attrAt_eq_some wf.separated).mpr
      ⟨k, t, stored, ⟨le_rfl, Nat.lt_add_of_pos_right positive⟩, rfl⟩
  rw [initial] at first
  unfold AddressSpace.initialBytes at first
  split at first
  · exact (congrArg VMAAttributes.vmaType (Option.some.inj first)).symm
  · cases first

theorem Linker.registered_areas {boot : HostBoot} (lawful : boot.Lawful) {guest : Guest}
    (booted : MemoryManager.new boot = .ok guest.memory) (hleSymbols : SymbolResolver) :
    (registered guest hleSymbols).AreasOfModules := by
  intro k t inUse
  refine iff_of_false (fun stored => inUse ?_) nofun
  exact MemoryManager.new_areas lawful booted stored

theorem Module.load_areas {p : Profile} {sys : Sys} (lawful : sys.Lawful) {path : Path}
    {guest guest' : Guest} {tls tls' : Nat} {space : AddressSpace} {module : Module}
    (regional : guest.memory.Regional space)
    (loaded : load p sys path guest tls = .ok (.ok module, guest', tls')) (k : Nat)
    {t : VirtualMemoryArea} (inUse : t.vmaType ≠ .free) :
    guest'.memory.vmaMap[k]? = some t ↔ guest.memory.vmaMap[k]? = some t ∨
      (k = module.baseVirtualAddr ∧ t = module.area) := by
  obtain ⟨extent, mapped, call, name, -, -, -, same⟩ := loadElf_eq_ok (load_eq_ok loaded).2
  obtain ⟨_, _, -, -, rounded⟩ := extent.range
  obtain ⟨whole, word⟩ := alignUp_page_dvd rounded
  have areas := MapRequest.call_areas (lawful _) regional.wf word
    (Guest.request_not_fixed _ _ _ _) (Guest.mapMemory_eq_ok call).1 k inUse
  have memory : guest'.memory = mapped.memory := by rw [same]
  have exact : roundUp module.alignedBaseSize pageSize = module.alignedBaseSize :=
    roundUp_eq_self pageSize_pos whole
  have merges : (MemoryMapFlags.anonymous.union .priv).contains .noCoalesce = false := by decide
  rw [memory, areas, Guest.request, exact, ← name]
  simp only [MapRequest.attributes, merges, Module.area]

/-- A sound linker whose modules are what is mapped. -/
structure Linker.Tracked (p : Profile) (sys : Sys) (space : AddressSpace) (linker : Linker) :
    Prop where
  sound : linker.Sound p sys space
  areas : linker.AreasOfModules

theorem LinkerStep.tracked {p : Profile} {sys : Sys} {space : AddressSpace}
    {linker linker' : Linker} {event : LinkerEvent} (lawful : sys.Lawful)
    (tracked : linker.Tracked p sys space) (step : LinkerStep p sys linker event linker') :
    linker'.Tracked p sys space := by
  refine ⟨step.sound lawful tracked.sound, ?_⟩
  obtain ⟨sound, areas⟩ := tracked
  cases step with
  | warn => exact areas
  | install fresh installed =>
    rcases Linker.install_eq_ok installed with
      ⟨e, guest, tls, -, failed, rfl⟩ | ⟨module, guest, tls, needed, ram, -, loaded, -, rfl⟩
    · have memory := Module.load_error_memory lawful sound.regional.wf failed
      intro k t inUse
      rw [← areas k t inUse, ← memory]
    · intro k t inUse
      rw [Module.load_areas lawful sound.regional loaded k inUse, areas k t inUse]
      simp only [List.mem_append, List.mem_singleton, or_and_right, exists_or, exists_eq_left]

namespace Linker

theorem areasOfModules {p : Profile} {sys : Sys} (lawful : sys.Lawful) {boot : HostBoot}
    (bootLawful : boot.Lawful) {guest : Guest}
    (booted : MemoryManager.new boot = .ok guest.memory) {hleSymbols : SymbolResolver}
    {calls : List (Path × Except LinkError Nat)} {linker : Linker}
    (run : Trace (LoadCall p sys) (registered guest hleSymbols) calls linker) :
    linker.AreasOfModules := by
  have start : (registered guest hleSymbols).Tracked p sys guest.memory.addressSpace :=
    ⟨registered_sound bootLawful booted hleSymbols, registered_areas bootLawful booted hleSymbols⟩
  refine (Trace.invariant start (fun tracked call => ?_) run).areas
  obtain ⟨fuel, returned⟩ := call
  obtain ⟨_, _, extension⟩ := (loadModule_called fuel returned).extends_
  obtain ⟨events, run⟩ := extension.run
  exact Trace.invariant tracked (fun tracked step => step.tracked lawful tracked) run

/-- The area of the main executable, looked for by name. -/
def codeVma (linker : Linker) : Option VirtualMemoryArea :=
  linker.guest.memory.getVmas.find? fun vma => vma.name == "eboot.bin" && vma.vmaType == .code

variable {linker : Linker}

theorem codeVma_eq_some (areas : linker.AreasOfModules)
    (names : (linker.modules.map (·.name)).Nodup) {vma : VirtualMemoryArea} :
    linker.codeVma = some vma ↔
      ∃ module ∈ linker.modules, module.name = "eboot.bin" ∧ vma = module.area := by
  have listed : ∀ t, t ∈ linker.guest.memory.getVmas ↔
      ∃ k : Nat, linker.guest.memory.vmaMap[k]? = some t := by
    simp [MemoryManager.getVmas]
  have named : ∀ {t : VirtualMemoryArea}, (t.name == "eboot.bin" && t.vmaType == .code) = true →
      t.name = "eboot.bin" ∧ t.vmaType ≠ .free := by
    intro t both
    obtain ⟨name, type⟩ := Bool.and_eq_true_iff.mp both
    exact ⟨eq_of_beq name, fun isFree => by simp [isFree] at type⟩
  have stored : ∀ {t : VirtualMemoryArea}, linker.codeVma = some t →
      ∃ module ∈ linker.modules, module.name = "eboot.bin" ∧ t = module.area := by
    intro t found
    obtain ⟨k, stored⟩ := (listed t).mp (List.mem_of_find?_eq_some found)
    obtain ⟨name, inUse⟩ := named (List.find?_some (p := fun vma : VirtualMemoryArea =>
      vma.name == "eboot.bin" && vma.vmaType == .code) found)
    obtain ⟨module, member, -, rfl⟩ := (areas k t inUse).mp stored
    exact ⟨module, member, name, rfl⟩
  refine ⟨stored, ?_⟩
  rintro ⟨module, member, name, rfl⟩
  have there := (areas module.baseVirtualAddr module.area (by simp [Module.area])).mpr
    ⟨module, member, rfl, rfl⟩
  have isSome : linker.codeVma.isSome = true := by
    refine List.find?_isSome.mpr ⟨module.area, (listed _).mpr ⟨_, there⟩, ?_⟩
    simp [Module.area, name]
  obtain ⟨t, found⟩ := Option.isSome_iff_exists.mp isSome
  obtain ⟨other, member', name', rfl⟩ := stored found
  rw [found, List.inj_on_of_nodup_map names member' member (name'.trans name.symm)]

end Linker

end AnotherPs4
