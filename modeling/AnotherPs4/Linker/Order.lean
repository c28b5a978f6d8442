import AnotherPs4.Linker.LoadBias
import AnotherPs4.Linker.Stores
import AnotherPs4.Loader.RoundTrip
import AnotherPs4.Overlay.Apart

/-!
# Order of relocations

Relocations with slots of their own and resolved names do not depend on each
other: what each stores is known before the run. So any order of modules and
relocations gives the same memory, and so does a second run.
-/

namespace AnotherPs4

open Rust Overlay

/-! ### Stores as overlays -/

def Store.patch (store : Option Store) (x : Nat) : Option UInt8 :=
  store.bind fun store => (leBytes 8 store.value)[(x + 2 ^ 64 - store.addr) % 2 ^ 64]?

theorem Store.patch_some (store : Store) (x : Nat) : Store.patch (some store) x =
    (leBytes 8 store.value)[(x + 2 ^ 64 - store.addr) % 2 ^ 64]? := by
  rw [Store.patch, Option.bind_some]

theorem Ram.storeAll_eq_overlayAll (ram : Ram) (stores : List (Option Store)) :
    ram.storeAll stores = overlayAll ram (stores.map Store.patch) := by
  rw [overlayAll, List.foldl_map, Ram.storeAll]
  congr 1
  funext ram store
  cases store with
  | none => rfl
  | some store =>
    funext x
    rw [Option.elim_some, Ram.store, Ram.write64, Ram.write, overlay, Store.patch_some]

theorem Store.patch_eq_some {store : Store} (word : store.addr < 2 ^ 64) {x : Nat} {byte : UInt8}
    (found : Store.patch (some store) x = some byte) :
    ∃ k < 8, (store.addr + k) % 2 ^ 64 = x % 2 ^ 64 := by
  rw [Store.patch_some] at found
  have bound := (List.getElem?_eq_some_iff.mp found).1
  rw [length_leBytes] at bound
  exact ⟨_, bound, by omega⟩

theorem Store.patch_cell {store : Store} (word : store.addr < 2 ^ 64) {k : Nat} (inside : k < 8) :
    Store.patch (some store) ((store.addr + k) % 2 ^ 64) = (leBytes 8 store.value)[k]? := by
  have index : ((store.addr + k) % 2 ^ 64 + 2 ^ 64 - store.addr) % 2 ^ 64 = k := by omega
  rw [Store.patch_some, index]

theorem Store.patch_apart {first second : Option Store}
    (words : ∀ store, first = some store ∨ second = some store → store.addr < 2 ^ 64)
    (distinct : ∀ a b, first = some a → second = some b → ¬ SlotsMeet a.addr b.addr) :
    Apart (Store.patch first) (Store.patch second) := by
  intro x
  by_contra both
  rw [not_or] at both
  obtain ⟨⟨byte, here⟩, ⟨byte', there⟩⟩ := both.imp Option.ne_none_iff_exists'.mp
    Option.ne_none_iff_exists'.mp
  cases first with
  | none => cases here
  | some a =>
    cases second with
    | none => cases there
    | some b =>
      obtain ⟨k, low, same⟩ := Store.patch_eq_some (words a (.inl rfl)) here
      obtain ⟨l, low', same'⟩ := Store.patch_eq_some (words b (.inr rfl)) there
      exact distinct a b rfl rfl ⟨k, low, l, low', same.trans same'.symm⟩

/-! ### Resolved relocations -/

/-- The address of a registered name, and 0 for the empty name. -/
def registeredAddr (hleSymbols : SymbolResolver) (symbolName : String) : Nat :=
  importAddr hleSymbols none 0 symbolName

def Job.resolvedStore (hleSymbols : SymbolResolver) (job : Job) : Option Store :=
  job.2.storeAt job.1.baseVirtualAddr (registeredAddr hleSymbols job.2.symbolName)

/-- The name of an import is empty or registered. -/
def ParsedRelocation.Resolves (hleSymbols : SymbolResolver) (reloc : ParsedRelocation) : Prop :=
  reloc.isSymbolic = true → reloc.symbolName.isEmpty = false →
    (hleAddress hleSymbols reloc.symbolName).isSome

section Jobs

variable {p : Profile} {hleSymbols : SymbolResolver} {writable : Nat → Bool} {job : Job}
  {jobs : List Job}

theorem relocationStore_of_resolves (resolves : job.2.Resolves hleSymbols)
    (fits : p.SumFits job.1.baseVirtualAddr job.2.offset) (stubs : Option StubAllocator) :
    relocationStore p job.2 job.1.baseVirtualAddr hleSymbols stubs =
      .ok (job.resolvedStore hleSymbols, stubs) := by
  unfold relocationStore Job.resolvedStore ParsedRelocation.storeAt
  rw [Profile.add_eq_ok_iff.mpr ⟨fits, rfl⟩]
  by_cases relative : job.2.isRelative = true
  · simp [relative]
  by_cases symbolic : job.2.isSymbolic = true
  · have resolved : resolveSymbol job.2.symbolName hleSymbols stubs =
        (registeredAddr hleSymbols job.2.symbolName, stubs) := by
      have known := resolves symbolic
      unfold resolveSymbol registeredAddr importAddr
      unfold hleAddress at *
      cases unnamed : job.2.symbolName.isEmpty with
      | true => simp
      | false =>
        have found := known unnamed
        cases base : hleSymbols.resolve (baseName job.2.symbolName) with
        | some addr => simp
        | none =>
          rw [base, Option.none_or] at found
          obtain ⟨addr, full⟩ := Option.isSome_iff_exists.mp found
          simp [full]
    simp [relative, symbolic, resolved]
  · by_cases moduleId : job.2.isModuleId = true <;> simp [relative, symbolic, moduleId]

theorem checkedStore_of_resolves (resolves : job.2.Resolves hleSymbols)
    (lands : job.Lands p writable) (stubs : Option StubAllocator) :
    checkedStore p job.2 job.1.baseVirtualAddr hleSymbols writable stubs =
      .ok (job.resolvedStore hleSymbols, stubs) := by
  obtain ⟨⟨store, stubs'⟩, stored⟩ :=
    (@checkedStore_returns p hleSymbols writable job stubs).mpr lands
  have computed := (checkedStore_eq_ok stored).1
  rw [relocationStore_of_resolves resolves lands.1] at computed
  cases computed
  exact stored

/-- Relocations of resolved names perform their stores, where nothing stops them. -/
theorem relocateJobs_of_resolves (resolves : ∀ job ∈ jobs, job.2.Resolves hleSymbols)
    (lands : ∀ job ∈ jobs, job.Lands p writable) (memory : Ram × Option StubAllocator) :
    relocateJobs p hleSymbols writable jobs memory =
      .ok (memory.1.storeAll (jobs.map (Job.resolvedStore hleSymbols)), memory.2) := by
  induction jobs generalizing memory with
  | nil => rfl
  | cons job jobs inductionHypothesis =>
    rw [relocateJobs, List.foldlM_cons, applyRelocation,
      checkedStore_of_resolves (resolves job (.head _)) (lands job (.head _))]
    exact inductionHypothesis (fun other member => resolves other (.tail _ member))
      (fun other member => lands other (.tail _ member)) _

theorem Job.resolvedStore_relative (relative : job.2.isRelative = true) :
    job.resolvedStore hleSymbols =
      some ⟨job.slot, (job.1.baseVirtualAddr + unsigned 64 job.2.addend) % 2 ^ 64⟩ :=
  if_pos relative

theorem Job.resolvedStore_symbolic (symbolic : job.2.isSymbolic = true) :
    job.resolvedStore hleSymbols = some ⟨job.slot,
      (registeredAddr hleSymbols job.2.symbolName + unsigned 64 job.2.addend) % 2 ^ 64⟩ := by
  have other : ¬ job.2.isRelative = true := fun relative => by
    rw [not_symbolic_of_relative relative] at symbolic
    cases symbolic
  exact (if_neg other).trans (if_pos symbolic)

theorem Job.resolvedStore_moduleId (moduleId : job.2.isModuleId = true) :
    job.resolvedStore hleSymbols = some ⟨job.slot, 1⟩ :=
  ParsedRelocation.storeAt_moduleId moduleId _ _

theorem Job.resolvedStore_addr {store : Store} (stored : job.resolvedStore hleSymbols = some store) :
    store.addr = job.slot ∧ job.2.isKnown = true := by
  unfold Job.resolvedStore ParsedRelocation.storeAt at stored
  unfold ParsedRelocation.isKnown
  dsimp only at stored
  split at stored
  · next relative =>
    cases stored
    exact ⟨rfl, by simp [relative]⟩
  · split at stored
    · next symbolic =>
      cases stored
      exact ⟨rfl, by simp [symbolic]⟩
    · split at stored
      · next moduleId =>
        cases stored
        exact ⟨rfl, by simp [moduleId]⟩
      · cases stored

end Jobs

def Module.Shuffled (module module' : Module) : Prop :=
  ∃ relocations, module.relocations.Perm relocations ∧ module' = { module with relocations }

namespace Linker

/-- The modules in another order, each with its relocations in another order. -/
def Reordered (modules modules' : List Module) : Prop :=
  ∃ middle, modules.Perm middle ∧ List.Forall₂ Module.Shuffled middle modules'

def withModules (linker : Linker) (modules : List Module) : Linker := { linker with modules }

def withRam (linker : Linker) (ram : Ram) : Linker :=
  { linker with guest := { linker.guest with ram } }

/-- The slots of relocations of known types have no cell in common. -/
def SlotsApart (linker : Linker) : Prop :=
  linker.worklist.Pairwise fun a b => a.2.isKnown = true → b.2.isKnown = true →
    ¬ SlotsMeet a.slot b.slot

def ImportsResolve (linker : Linker) : Prop :=
  ∀ job ∈ linker.worklist, job.2.Resolves linker.hleSymbols

/-- A memory after relocation: the slots hold what their relocations say, and the cells
outside all slots what they held before. -/
structure Relocated (linker : Linker) (ram : Ram) : Prop where
  outside : ∀ x < 2 ^ 64, (∀ job ∈ linker.worklist, job.2.isKnown = true →
    ∀ k < 8, (job.slot + k) % 2 ^ 64 ≠ x) → ram x = linker.guest.ram x
  relative : ∀ job ∈ linker.worklist, job.2.isRelative = true →
    ram.HoldsWord job.slot ((job.1.baseVirtualAddr + unsigned 64 job.2.addend) % 2 ^ 64)
  named : ∀ job ∈ linker.worklist, job.2.isSymbolic = true → job.2.symbolName.isEmpty = false →
    ∀ addr, hleAddress linker.hleSymbols job.2.symbolName = some addr →
      ram.HoldsWord job.slot ((addr + unsigned 64 job.2.addend) % 2 ^ 64)
  unnamed : ∀ job ∈ linker.worklist, job.2.isSymbolic = true → job.2.symbolName.isEmpty = true →
    ram.HoldsWord job.slot ((0 + unsigned 64 job.2.addend) % 2 ^ 64)
  moduleId : ∀ job ∈ linker.worklist, job.2.isModuleId = true → ram.HoldsWord job.slot 1

variable {p : Profile} {linker : Linker} {stubs : Option StubAllocator}

/-- What relocations store at, and if so what, in the order of the worklist. -/
def resolvedStores (linker : Linker) : List (Option Store) :=
  linker.worklist.map (Job.resolvedStore linker.hleSymbols)

def AllLand (p : Profile) (linker : Linker) : Prop :=
  ∀ job ∈ linker.worklist, job.Lands p linker.guest.writable

theorem relocateAll_of_resolve (resolves : linker.ImportsResolve) (lands : linker.AllLand p) :
    linker.relocateAll p stubs =
      .ok (linker.withRam (linker.guest.ram.storeAll linker.resolvedStores), stubs) := by
  rw [relocateAll, relocateJobs_worklist, relocateJobs_of_resolves resolves lands]
  rfl

theorem resolvedStores_apart (apart : linker.SlotsApart) :
    (linker.resolvedStores.map Store.patch).Pairwise Apart := by
  rw [resolvedStores, List.map_map, List.pairwise_map]
  refine List.Pairwise.imp (fun {a b} distinct => ?_) apart
  refine Store.patch_apart ?_ fun first second stored stored' => ?_
  · rintro store (stored | stored)
    · rw [(Job.resolvedStore_addr stored).1]
      exact a.slot_lt
    · rw [(Job.resolvedStore_addr stored).1]
      exact b.slot_lt
  · obtain ⟨here, known⟩ := Job.resolvedStore_addr stored
    obtain ⟨there, known'⟩ := Job.resolvedStore_addr stored'
    rw [here, there]
    exact distinct known known'

/-! ### Reordering -/

theorem worklist_map {β : Type} (f : Nat → ParsedRelocation → β) (linker : Linker) :
    (linker.worklist.map fun job => f job.1.baseVirtualAddr job.2) =
      linker.modules.flatMap fun module => module.relocations.map (f module.baseVirtualAddr) := by
  simp [worklist, List.map_flatMap, Function.comp_def]

theorem Reordered.perm {β : Type} (f : Nat → ParsedRelocation → β) {modules modules' : List Module}
    (reordered : Reordered modules modules') :
    (modules.flatMap fun module => module.relocations.map (f module.baseVirtualAddr)).Perm
      (modules'.flatMap fun module => module.relocations.map (f module.baseVirtualAddr)) := by
  obtain ⟨middle, order, shuffled⟩ := reordered
  apply (order.flatMap_right _).trans
  clear order
  induction shuffled with
  | nil => exact .refl _
  | cons first _ inductionHypothesis =>
    obtain ⟨relocations, perm, rfl⟩ := first
    rw [List.flatMap_cons, List.flatMap_cons]
    exact (perm.map _).append inductionHypothesis

variable {modules' : List Module} (reordered : Reordered linker.modules modules')

include reordered

theorem worklist_perm {β : Type} (f : Nat → ParsedRelocation → β) :
    (linker.worklist.map fun job => f job.1.baseVirtualAddr job.2).Perm
      ((linker.withModules modules').worklist.map fun job =>
        f job.1.baseVirtualAddr job.2) := by
  rw [worklist_map, worklist_map]
  exact reordered.perm f

theorem forall_worklist_iff (holds : Nat → ParsedRelocation → Prop) :
    (∀ job ∈ (linker.withModules modules').worklist,
      holds job.1.baseVirtualAddr job.2) ↔
      ∀ job ∈ linker.worklist, holds job.1.baseVirtualAddr job.2 := by
  have same := worklist_perm reordered holds
  have all {jobs : List Job} : (∀ job ∈ jobs, holds job.1.baseVirtualAddr job.2) ↔
      ∀ claim ∈ jobs.map fun job => holds job.1.baseVirtualAddr job.2, claim := by
    rw [List.forall_mem_map]
  rw [all, all]
  exact forall_congr' fun claim => by rw [same.mem_iff]

/-- The memory does not depend on the order, nor does it whether there is one. -/
theorem relocateAll_reordered (apart : linker.SlotsApart) (resolves : linker.ImportsResolve) :
    ((linker.withModules modules').relocateAll p stubs).value?.map (·.1.guest.ram) =
      (linker.relocateAll p stubs).value?.map (·.1.guest.ram) := by
  have resolves' : (linker.withModules modules').ImportsResolve :=
    (forall_worklist_iff reordered fun _ reloc => reloc.Resolves linker.hleSymbols).mpr
      resolves
  have lands : (linker.withModules modules').AllLand p ↔ linker.AllLand p :=
    forall_worklist_iff reordered fun base reloc => (p = .dev → base + reloc.offset < 2 ^ 64) ∧
      (reloc.isKnown = true →
        SlotAllowed p linker.guest.writable ((base + reloc.offset) % 2 ^ 64))
  have stores : linker.resolvedStores.Perm (linker.withModules modules').resolvedStores :=
    worklist_perm reordered fun base reloc =>
      reloc.storeAt base (registeredAddr linker.hleSymbols reloc.symbolName)
  have memory : linker.guest.ram.storeAll (linker.withModules modules').resolvedStores =
      linker.guest.ram.storeAll linker.resolvedStores := by
    rw [Ram.storeAll_eq_overlayAll, Ram.storeAll_eq_overlayAll]
    exact (overlayAll_perm (resolvedStores_apart apart) (stores.map _)).symm
  by_cases all : linker.AllLand p
  · rw [relocateAll_of_resolve resolves all, relocateAll_of_resolve resolves' (lands.mpr all)]
    exact congrArg some memory
  · rw [Outcome.value?_eq_none (mt relocateAll_returns.mp all),
      Outcome.value?_eq_none (mt relocateAll_returns.mp (mt lands.mp all))]

omit reordered

/-! ### The memory after relocation -/

theorem storeAll_holdsWord (apart : linker.SlotsApart) (ram : Ram) {job : Job}
    (member : job ∈ linker.worklist) {store : Store}
    (stored : job.resolvedStore linker.hleSymbols = some store) :
    (ram.storeAll linker.resolvedStores).HoldsWord job.slot store.value := by
  have slot := (Job.resolvedStore_addr stored).1
  have word : store.addr < 2 ^ 64 := by
    rw [slot]
    exact job.slot_lt
  intro k inside
  have listed : Store.patch (some store) ∈ linker.resolvedStores.map Store.patch := by
    rw [← stored]
    exact List.mem_map_of_mem (List.mem_map_of_mem member)
  have bound : k < (leBytes 8 store.value).length := by rwa [length_leBytes]
  have cell := Store.patch_cell word inside
  rw [List.getElem?_eq_getElem bound] at cell
  rw [List.getElem?_eq_getElem bound, Ram.storeAll_eq_overlayAll, ← slot,
    overlayAll_of_some (resolvedStores_apart apart) listed cell]

theorem storeAll_outside {ram : Ram} {x : Nat} (word : x < 2 ^ 64)
    (outside : ∀ job ∈ linker.worklist, job.2.isKnown = true →
      ∀ k < 8, (job.slot + k) % 2 ^ 64 ≠ x) : ram.storeAll linker.resolvedStores x = ram x := by
  apply Ram.storeAll_other word
  intro store member
  obtain ⟨job, listed, stored⟩ := List.mem_map.mp member
  obtain ⟨slot, known⟩ := Job.resolvedStore_addr stored
  rw [slot]
  exact ⟨job.slot_lt, outside job listed known⟩

theorem storeAll_relocated (apart : linker.SlotsApart) :
    linker.Relocated (linker.guest.ram.storeAll linker.resolvedStores) where
  outside x word other := storeAll_outside word other
  relative job member relative :=
    storeAll_holdsWord apart _ member (Job.resolvedStore_relative relative)
  named job member symbolic named addr found := by
    have held := storeAll_holdsWord apart linker.guest.ram member
      (Job.resolvedStore_symbolic symbolic)
    rwa [registeredAddr, importAddr, if_neg (by simp [named]), found, Option.getD_some] at held
  unnamed job member symbolic unnamed := by
    have held := storeAll_holdsWord apart linker.guest.ram member
      (Job.resolvedStore_symbolic symbolic)
    rwa [registeredAddr, importAddr, if_pos unnamed] at held
  moduleId job member moduleId :=
    storeAll_holdsWord apart _ member (Job.resolvedStore_moduleId moduleId)

/-- A second run changes nothing. -/
theorem relocateAll_again (apart : linker.SlotsApart) (resolves : linker.ImportsResolve)
    {linker' : Linker} {stubs' : Option StubAllocator}
    (returned : linker.relocateAll p stubs = .ok (linker', stubs')) :
    linker'.relocateAll p stubs' = .ok (linker', stubs') ∧ linker.Relocated linker'.guest.ram := by
  have lands : linker.AllLand p := relocateAll_returns.mp ⟨_, returned⟩
  rw [relocateAll_of_resolve resolves lands] at returned
  cases returned
  refine ⟨?_, storeAll_relocated apart⟩
  have again : (linker.guest.ram.storeAll linker.resolvedStores).storeAll linker.resolvedStores =
      linker.guest.ram.storeAll linker.resolvedStores := by
    simp only [Ram.storeAll_eq_overlayAll]
    exact overlayAll_overlayAll (resolvedStores_apart apart)
  let relocated := linker.withRam (linker.guest.ram.storeAll linker.resolvedStores)
  have resolves' : relocated.ImportsResolve := resolves
  have lands' : relocated.AllLand p := lands
  apply (relocateAll_of_resolve resolves' lands').trans
  exact congrArg (fun ram => Outcome.ok (linker.withRam ram, stubs)) again

/-- Relocation is order-free, repeatable and framed: it returns exactly if nothing stops any
relocation, every order of modules and relocations leads to the same memory, a second run
changes nothing, and the slots hold what their relocations say while all other cells are
as before. -/
theorem relocateAll_orderFree (p : Profile) {linker : Linker} (apart : linker.SlotsApart)
    (resolves : linker.ImportsResolve) (stubs : Option StubAllocator) :
    ((∃ result, linker.relocateAll p stubs = .ok result) ↔ linker.AllLand p) ∧
    (∀ modules', Reordered linker.modules modules' →
      ((linker.withModules modules').relocateAll p stubs).value?.map (·.1.guest.ram) =
        (linker.relocateAll p stubs).value?.map (·.1.guest.ram)) ∧
    ∀ linker' stubs', linker.relocateAll p stubs = .ok (linker', stubs') →
      linker'.relocateAll p stubs' = .ok (linker', stubs') ∧
        linker.Relocated linker'.guest.ram :=
  ⟨relocateAll_returns, fun _ reordered => relocateAll_reordered reordered apart resolves,
    fun _ _ returned => relocateAll_again apart resolves returned⟩

def bareModule (base : Nat) (relocations : List ParsedRelocation) : Module where
  name := ""
  file := .empty
  elf :=
    { isSelf := false, selfHeader := none, selfSegments := [], header := Elf.smallImage.header,
      programHeaders := [], dynamicEntries := [], dynlibData := [], data := [] }
  baseVirtualAddr := base
  alignedBaseSize := 0x4000
  procParamAddr := 0
  ehFrameHdrAddr := 0
  ehFrameHdrSize := 0
  relocations
  tlsIndex := 0
  tlsImageAddr := 0
  tlsImageSize := 0
  tlsSize := 0
  tlsAlign := 0
  minAddr := 0
  initArrayAddr := 0
  initArraySize := 0
  initAddr := 0

def twoModules : Linker :=
  let area : VirtualMemoryArea :=
    { MemoryManager.freeAttributes with vmaType := .code, base := 0x10000, size := 0x8000 }
  { new { Guest.booted with
      memory := { MemoryManager.booted with vmaMap := (∅ : VMAMap).insert area.base area } } with
    modules :=
      [bareModule 0x10000 [⟨0, rX86_64Relative, -8, "", 0, 0, false⟩,
        ⟨8, rX86_64JumpSlot, 2, "a#b", 1, 2, true⟩],
        bareModule 0x14000 [⟨0x10, rX86_64Dtpmod64, 0, "", 0, 0, false⟩]]
    hleSymbols := ⟨(∅ : Std.HashMap String SymbolRecord).insert "a" ⟨"a", 0x5000⟩⟩ }

theorem relocateAll_orderFree_two : ∃ result, twoModules.relocateAll .dev none = .ok result ∧
    ((twoModules.withModules twoModules.modules.reverse).relocateAll .dev none).value?.map
      (·.1.guest.ram) = some result.1.guest.ram ∧
    result.1.relocateAll .dev result.2 = .ok result ∧
    result.1.guest.ram.HoldsWord 0x10000 0xFFF8 ∧ result.1.guest.ram.HoldsWord 0x10008 0x5002 := by
  have known : hleAddress twoModules.hleSymbols "a#b" = some 0x5000 := by
    have base : baseName "a#b" = "a" := by decide
    simp [hleAddress, base, twoModules, SymbolResolver.resolve]
  have apart : twoModules.SlotsApart := by
    unfold SlotsApart SlotsMeet
    decide +kernel
  have names : ∀ job ∈ twoModules.worklist, job.2.isSymbolic = true → job.2.symbolName = "a#b" := by
    decide +kernel
  have resolves : twoModules.ImportsResolve := by
    intro job member symbolic _
    rw [names job member symbolic, known]
    rfl
  have lands : twoModules.AllLand .dev := by
    unfold AllLand
    decide +kernel
  have reordered : Reordered twoModules.modules twoModules.modules.reverse :=
    ⟨_, (List.reverse_perm _).symm, List.forall₂_same.mpr fun _ _ => ⟨_, .refl _, rfl⟩⟩
  obtain ⟨returns, orderFree, settled⟩ := relocateAll_orderFree .dev apart resolves none
  obtain ⟨⟨linker', stubs'⟩, returned⟩ := returns.mpr lands
  obtain ⟨again, relocated⟩ := settled linker' stubs' returned
  refine ⟨_, returned, ?_, again, ?_, ?_⟩
  · have same := orderFree _ reordered
    rw [returned] at same
    exact same
  · exact relocated.relative _ (.head _) (by decide)
  · exact relocated.named _ (.tail _ (.head _)) (by decide) (by decide) 0x5000 known

end Linker

end AnotherPs4
