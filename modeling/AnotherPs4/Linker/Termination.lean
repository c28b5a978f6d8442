import AnotherPs4.Linker.LoadBias
import AnotherPs4.Linker.Regions

/-!
# Termination of load_module

Every module is in the list before its dependencies are looked at, so a call
recurs no deeper than there are names on disk that are not loaded yet.
-/

namespace AnotherPs4

open Rust RangeMap Transition

namespace Linker

variable {p : Profile} {sys : Sys} {α : Type}

/-- Outcome of a call that ends: it returns, or one of its loads panics, or the counter of
patched traps does. -/
inductive Ends (p : Profile) (sys : Sys) (linker : Linker) : Outcome OutOfFuel α → Prop where
  | returned (result : α) : Ends p sys linker (.ok result)
  | panicked {events reached path cause} : Trace (LinkerStep p sys) linker events reached →
      Module.load p sys path reached.guest reached.maxTlsIndex = .panic cause →
      Ends p sys linker (.panic cause)
  | miscounted {events reached path loaded module guest tls cause} :
      Trace (LinkerStep p sys) linker events reached →
      Module.load p sys path reached.guest reached.maxTlsIndex = .ok (.ok loaded, guest, tls) →
      module ∈ reached.modules ++ [loaded] →
      patchTraps p module.baseVirtualAddr module.alignedBaseSize guest.ram = .panic cause →
      Ends p sys linker (.panic cause)

theorem Ends.after {linker middle : Linker} {events : List LinkerEvent}
    {outcome : Outcome OutOfFuel α} (run : Trace (LinkerStep p sys) linker events middle)
    (ends : Ends p sys middle outcome) : Ends p sys linker outcome := by
  cases ends with
  | returned => exact .returned _
  | panicked run' panics => exact .panicked (run.append run') panics
  | miscounted run' load listed panics => exact .miscounted (run.append run') load listed panics

theorem Ends.bind {β : Type} {start linker : Linker} {x : LoadM α} {f : α → LoadM β}
    (first : Ends p sys start (x linker))
    (rest : ∀ a middle, x linker = .ok (a, middle) → Ends p sys start (f a middle)) :
    Ends p sys start ((x >>= f) linker) := by
  change Ends p sys start (x linker >>= _)
  cases ran : x linker with
  | ok result => exact rest result.1 result.2 ran
  | err e =>
    rw [ran] at first
    cases first
  | panic cause =>
    rw [ran] at first
    cases first with
    | panicked run panics => exact .panicked run panics
    | miscounted run load listed panics => exact .miscounted run load listed panics

theorem loadFile_ends (path : Path) (linker : Linker) :
    Ends p sys linker (loadFile p sys path linker) := by
  unfold loadFile
  cases ran : Module.load p sys path linker.guest linker.maxTlsIndex with
  | ok result => exact .returned _
  | err e => exact e.elim
  | panic cause => exact .panicked .nil ran

theorem patchModule_ends {path : Path} {loaded : Module} {name : String} {index tls : Nat}
    {start linker : Linker}
    (load : Module.load p sys path start.guest start.maxTlsIndex = .ok (.ok loaded, linker.guest, tls))
    (modules : linker.modules = start.modules ++ [loaded])
    (present : index < linker.modules.length) :
    Ends p sys start (patchModule p name index linker) := by
  unfold patchModule
  rw [List.getElem?_eq_getElem present]
  split
  · generalize same : linker.modules[index] = module
    have listed : module ∈ start.modules ++ [loaded] :=
      modules ▸ same ▸ List.getElem_mem present
    dsimp only
    cases ran : patchTraps p module.baseVirtualAddr module.alignedBaseSize linker.guest.ram with
    | ok result => exact .returned _
    | err e => exact e.elim
    | panic cause => exact .miscounted .nil load listed ran
  · exact .returned _

/-- Nothing but the load itself and the counter of the patch panics in `install`. -/
theorem install_ends (path : Path) (linker : Linker) :
    Ends p sys linker (install p sys path linker) := by
  apply (loadFile_ends path linker).bind
  intro result middle ran
  obtain ⟨guest, tls, loaded, rfl⟩ := loadFile_eq_ok ran
  cases result with
  | error e => exact .returned _
  | ok module =>
    obtain ⟨-, _, -, -, -, -, placed, -⟩ := Module.loadElf_eq_ok (Module.load_eq_ok loaded).2
    obtain ⟨needed, named⟩ := placed.needed
    dsimp only
    refine .bind (x := get) (.returned _) fun _ _ got => ?_
    cases got
    refine .bind (x := liftM _) (by rw [named]; exact .returned _) fun _ _ lifted => ?_
    obtain ⟨-, rfl⟩ := LoadM.lift_eq_ok.mp lifted
    refine .bind (x := push module) (.returned _) fun _ _ pushed => ?_
    cases pushed
    refine .bind (patchModule_ends loaded rfl ?_) fun _ _ _ => .returned _
    rw [List.length_append]
    exact Nat.lt_succ_of_le (Nat.mod_le _ _)

def remaining (names : Finset String) (linker : Linker) : Finset String :=
  names \ (linker.modules.map (·.name)).toFinset

theorem remaining_extends {names : Finset String} {linker linker' : Linker} {added : List Module}
    {warned : List (Path × LinkError)} (extension : Extends p sys linker added warned linker') :
    remaining names linker' ⊆ remaining names linker := by
  unfold remaining
  rw [extension.modules, List.map_append, List.toFinset_append]
  exact Finset.sdiff_subset_sdiff (Finset.Subset.refl _) Finset.subset_union_left

/-- An installed module uses up its name. -/
theorem remaining_install {names : Finset String} {linker linker' : Linker} {path : Path}
    {index : Nat} {needed : List String} (onDisk : moduleName path ∈ names)
    (fresh : linker.loadedIndex path = none)
    (installed : install p sys path linker = .ok (.ok (index, needed), linker')) :
    (remaining names linker').card < (remaining names linker).card := by
  obtain ⟨-, -, module, modules, -, name, -, -⟩ := install_step fresh installed
  refine Finset.card_lt_card (Finset.ssubset_iff_of_subset ?_ |>.mpr ⟨moduleName path, ?_, ?_⟩)
  · unfold remaining
    rw [modules, List.map_append, List.toFinset_append]
    exact Finset.sdiff_subset_sdiff (Finset.Subset.refl _) Finset.subset_union_left
  · exact Finset.mem_sdiff.mpr ⟨onDisk, fun named =>
      loadedIndex_eq_none fresh (List.mem_toFinset.mp named)⟩
  · simp [remaining, modules, name]

theorem dependencyPath_exists {parentDir path : Path} {dep : String}
    (found : dependencyPath sys parentDir dep = some path) : sys.pathExists path = true := by
  unfold dependencyPath at found
  dsimp only at found
  split at found
  · next present =>
    cases found
    exact present
  · split at found
    · next present =>
      cases found
      exact present
    · cases found

section Dependencies

variable {names : Finset String} {fuel : Nat} (parentDir : Path)
  {load load' : Path → LoadM (Except LinkError Nat)}
  (each : ∀ path linker, sys.pathExists path = true → (remaining names linker).card < fuel →
    Ends p sys linker (load path linker) ∧ load' path linker = load path linker)
  (called : ∀ {path linker result linker'}, load path linker = .ok (result, linker') →
    Called p sys path linker result linker')

include each

theorem loadDependency_ends (dep : String) (linker : Linker)
    (enough : (remaining names linker).card < fuel) :
    Ends p sys linker (loadDependency sys load parentDir dep linker) ∧
      loadDependency sys load' parentDir dep linker =
        loadDependency sys load parentDir dep linker := by
  unfold loadDependency
  cases found : dependencyPath sys parentDir dep with
  | none => exact ⟨.returned _, rfl⟩
  | some path =>
    obtain ⟨ends, same⟩ := each path linker (dependencyPath_exists found) enough
    refine ⟨ends.bind fun result middle _ => ?_, LoadM.bind_congr same fun _ _ _ => rfl⟩
    cases result <;> exact .returned _

include called

/-- The loop over the dependencies ends if each call does, and does not depend
on fuel either. -/
theorem loadDependencies_ends (deps : List String) (linker : Linker)
    (enough : (remaining names linker).card < fuel) :
    Ends p sys linker (loadDependencies sys load parentDir deps linker) ∧
      loadDependencies sys load' parentDir deps linker =
        loadDependencies sys load parentDir deps linker := by
  induction deps generalizing linker with
  | nil => exact ⟨.returned _, rfl⟩
  | cons dep rest ih =>
    obtain ⟨ends, same⟩ := loadDependency_ends parentDir each dep linker enough
    have later : ∀ u middle, loadDependency sys load parentDir dep linker = .ok (u, middle) →
        (remaining names middle).card < fuel ∧
          ∃ events, Trace (LinkerStep p sys) linker events middle := by
      intro u middle ran
      obtain ⟨added, warned, extension, -⟩ := loadDependency_spec called ran
      exact ⟨lt_of_le_of_lt (Finset.card_le_card (remaining_extends extension)) enough,
        extension.run⟩
    constructor
    · apply ends.bind
      intro u middle ran
      obtain ⟨enough', events, run⟩ := later u middle ran
      exact (ih middle enough').1.after run
    · exact LoadM.bind_congr same fun u middle ran => (ih middle (later u middle ran).1).2

end Dependencies

/-- With fuel for every name that is not loaded the call ends, and more fuel
changes nothing. -/
theorem loadModule_ends {names : Finset String}
    (onDisk : ∀ path, sys.pathExists path = true → moduleName path ∈ names) (fuel : Nat)
    {path : Path} (named : moduleName path ∈ names) (linker : Linker)
    (enough : (remaining names linker).card < fuel) :
    Ends p sys linker (loadModule p sys fuel path linker) ∧
      ∀ more, fuel ≤ more →
        loadModule p sys more path linker = loadModule p sys fuel path linker := by
  induction fuel generalizing path linker with
  | zero => cases enough
  | succ fuel ih =>
    have dependencies : ∀ more, fuel ≤ more → ∀ index needed middle,
        linker.loadedIndex path = none →
        install p sys path linker = .ok (.ok (index, needed), middle) →
        Ends p sys middle (loadDependencies sys (loadModule p sys fuel)
          (path.parent.getD .empty) needed middle) ∧
        loadDependencies sys (loadModule p sys more) (path.parent.getD .empty) needed middle =
          loadDependencies sys (loadModule p sys fuel) (path.parent.getD .empty) needed middle := by
      intro more le index needed middle fresh ran
      have less := remaining_install named fresh ran
      have each : ∀ path' linker', sys.pathExists path' = true →
          (remaining names linker').card < fuel →
          Ends p sys linker' (loadModule p sys fuel path' linker') ∧
            loadModule p sys more path' linker' = loadModule p sys fuel path' linker' := by
        intro path' linker' present enough'
        obtain ⟨ends, same⟩ := ih (onDisk path' present) linker' enough'
        exact ⟨ends, same more le⟩
      exact loadDependencies_ends _ each (loadModule_called fuel) _ _ (by omega)
    constructor
    · unfold loadModule
      apply Ends.bind (x := get) (.returned _)
      intro _ _ got
      cases got
      cases fresh : linker.loadedIndex path with
      | some idx => exact .returned _
      | none =>
        apply Ends.bind (install_ends path linker)
        intro installed middle ran
        cases installed with
        | error e => exact .returned _
        | ok installed =>
          obtain ⟨index, needed⟩ := installed
          have run : Trace (LinkerStep p sys) linker [_] middle := .snoc .nil (.install fresh ran)
          refine Ends.bind ?_ fun _ _ _ => .returned _
          exact (dependencies fuel le_rfl _ _ _ fresh ran).1.after run
    · intro more le
      obtain ⟨more, rfl⟩ : ∃ more', more = more' + 1 := ⟨more - 1, by omega⟩
      unfold loadModule
      apply LoadM.bind_congr rfl
      intro _ _ got
      cases got
      cases fresh : linker.loadedIndex path with
      | some idx => rfl
      | none =>
        apply LoadM.bind_congr rfl
        intro installed middle ran
        cases installed with
        | error e => rfl
        | ok installed =>
          exact LoadM.bind_congr (dependencies more (by omega) _ _ _ fresh ran).2 fun _ _ _ => rfl

/-- A call from outside that returned, with the fuel its recursion took. -/
def LoadCall (p : Profile) (sys : Sys) (linker : Linker) (call : Path × Except LinkError Nat)
    (linker' : Linker) : Prop :=
  ∃ fuel, loadModule p sys fuel call.1 linker = .ok (call.2, linker')

/-- The linker of a process, after any calls. -/
structure Running (p : Profile) (sys : Sys) (space : AddressSpace) (linker : Linker) : Prop where
  sound : linker.Sound p sys space
  fixedSize : space.userSize = userSize
  bounded : space.userBase + userSize ≤ hostLimit

theorem Running.start {boot : HostBoot} (lawful : boot.Lawful) {guest : Guest}
    (booted : MemoryManager.new boot = .ok guest.memory) (hleSymbols : SymbolResolver) :
    Running p sys guest.memory.addressSpace (registered guest hleSymbols) :=
  have ⟨fixedSize, bounded⟩ := MemoryManager.new_userSize lawful booted
  ⟨registered_sound lawful booted hleSymbols, fixedSize, bounded⟩

theorem Running.steps {space : AddressSpace} {linker linker' : Linker}
    {events : List LinkerEvent} (lawful : sys.Lawful) (running : Running p sys space linker)
    (run : Trace (LinkerStep p sys) linker events linker') : Running p sys space linker' :=
  ⟨Trace.invariant running.sound (fun sound step => step.sound lawful sound) run,
    running.fixedSize, running.bounded⟩

section Modules

variable {space : AddressSpace} {linker : Linker} (running : Running p sys space linker)
  {module : Module} (listed : module ∈ linker.modules)

include running listed

theorem Running.bounded_module :
    module.baseVirtualAddr + module.alignedBaseSize ≤ hostLimit := by
  have inUser := (running.sound.loaded module listed).inUser
  have bounded := running.bounded
  rw [← running.fixedSize] at bounded
  exact inUser.2.trans bounded

theorem Running.nonempty_module : 0 < module.alignedBaseSize :=
  running.sound.blocks.nonempty module.block
    (List.mem_reverse.mpr (List.mem_map_of_mem listed))

end Modules

theorem LoadCall.running {space : AddressSpace} {linker linker' : Linker}
    {call : Path × Except LinkError Nat} (lawful : sys.Lawful)
    (running : Running p sys space linker) (returned : LoadCall p sys linker call linker') :
    Running p sys space linker' := by
  obtain ⟨fuel, returned⟩ := returned
  obtain ⟨_, _, extension⟩ := (loadModule_called fuel returned).extends_
  obtain ⟨events, run⟩ := extension.run
  exact running.steps lawful run

theorem LoadCall.hleSymbols_eq {linker linker' : Linker} {call : Path × Except LinkError Nat}
    (returned : LoadCall p sys linker call linker') : linker'.hleSymbols = linker.hleSymbols := by
  obtain ⟨fuel, returned⟩ := returned
  obtain ⟨_, _, extension⟩ := (loadModule_called fuel returned).extends_
  obtain ⟨events, run⟩ := extension.run
  exact run.constant (·.hleSymbols) LinkerStep.hleSymbols_eq

theorem Running.calls {boot : HostBoot} {guest : Guest} {hleSymbols : SymbolResolver}
    {calls : List (Path × Except LinkError Nat)} {linker : Linker} (lawful : sys.Lawful)
    (bootLawful : boot.Lawful) (booted : MemoryManager.new boot = .ok guest.memory)
    (run : Trace (LoadCall p sys) (registered guest hleSymbols) calls linker) :
    Running p sys guest.memory.addressSpace linker :=
  Trace.invariant (.start bootLawful booted hleSymbols)
    (fun running call => call.running lawful running) run

/-- Every call of `load_module` ends. The names in the list stay distinct, it
only grows at its end, and a call that returns has loaded the module it was
asked for and has settled what the new modules need, or has changed nothing. -/
theorem loadModule_contract (p : Profile) {sys : Sys} (lawful : sys.Lawful)
    (finite : {name | ∃ path, sys.pathExists path = true ∧ moduleName path = name}.Finite)
    {boot : HostBoot} (bootLawful : boot.Lawful) {guest : Guest}
    (booted : MemoryManager.new boot = .ok guest.memory) {hleSymbols : SymbolResolver}
    {calls : List (Path × Except LinkError Nat)} {linker : Linker}
    (run : Trace (LoadCall p sys) (registered guest hleSymbols) calls linker) :
    (linker.modules.map (·.name)).Nodup ∧ ∀ path,
      (∃ enough outcome, Ends p sys linker outcome ∧
        ∀ fuel ≥ enough, loadModule p sys fuel path linker = outcome) ∧
      ∀ result linker', LoadCall p sys linker (path, result) linker' →
        (∀ i, result = .ok i → ∃ module, linker'.modules[i]? = some module ∧
          module.name = moduleName path) ∧
        (∀ e, result = .error e → linker'.modules = linker.modules ∧
          linker'.maxTlsIndex = linker.maxTlsIndex) ∧
        ∃ added warned, linker'.modules = linker.modules ++ added ∧
          (∀ module ∈ added, module.Handled p sys linker'.modules warned) ∧
          ∀ path e, (path, e) ∈ warned → linker.LoadFails p sys path e := by
  have running := Running.calls lawful bootLawful booted run
  refine ⟨running.sound.names, fun path => ⟨?_, fun result linker' call => ?_⟩⟩
  · let names := insert (moduleName path) finite.toFinset
    have onDisk : ∀ path', sys.pathExists path' = true → moduleName path' ∈ names :=
      fun path' present => Finset.mem_insert_of_mem (finite.mem_toFinset.mpr ⟨path', present, rfl⟩)
    obtain ⟨ends, same⟩ := loadModule_ends onDisk _ (Finset.mem_insert_self _ _) linker
      (Nat.lt_succ_self (remaining names linker).card)
    exact ⟨_, _, ends, same⟩
  · have running' := call.running lawful running
    obtain ⟨fuel, returned⟩ := call
    obtain ⟨⟨added, warned, extension⟩, index, failed⟩ := loadModule_called fuel returned
    refine ⟨fun i same => ?_, fun e same => ?_, added, warned, extension.modules,
      extension.handled, extension.failures⟩
    · obtain ⟨idx, module, rfl, listed, name⟩ := index i same
      obtain ⟨bound, -⟩ := List.getElem?_eq_some_iff.mp listed
      have small := running'.sound.length_lt running'.fixedSize
      rw [Nat.mod_eq_of_lt (bound.trans small)]
      exact ⟨module, listed, name⟩
    · obtain ⟨guest', tls, failure, rfl⟩ := failed e same
      exact ⟨rfl, (Module.load_eq_error failure).1⟩

end Linker

theorem Sys.files_finite (disk : List (Path × List UInt8)) :
    {name | ∃ path, (Sys.files disk).pathExists path = true ∧ moduleName path = name}.Finite := by
  refine (disk.map fun file => moduleName file.1).finite_toSet.subset ?_
  rintro name ⟨path, present, same⟩
  obtain ⟨file, listed, found⟩ := List.any_eq_true.mp present
  exact List.mem_map.mpr ⟨file, listed, eq_of_beq found ▸ same⟩

/-- A host where one module needs two others, one of which needs all three. -/
def cyclicHost : Sys := .files [
  (.new "main.prx", symbolImage [0x90, 0xC3] [] (nameBytes ["a.prx", "b.prx"]) [] [1, 7]),
  (.new "a.prx", symbolImage [0x90, 0xC3] [] (nameBytes ["main.prx", "b.prx"]) [] [1, 10]),
  (.new "b.prx", codeImage 0 [0x90, 0xC3])]

def returnedNames {ε : Type} :
    Outcome ε (Except LinkError Nat × Linker) → Option (Nat × List String)
  | .ok (.ok index, linker) => some (index, linker.modules.map (·.name))
  | _ => none

theorem returnedNames_eq_some {ε : Type} {run : Outcome ε (Except LinkError Nat × Linker)}
    {index : Nat} {names : List String} (returned : returnedNames run = some (index, names)) :
    ∃ linker, run = .ok (.ok index, linker) ∧ linker.modules.map (·.name) = names := by
  unfold returnedNames at returned
  split at returned
  · next index' linker =>
    cases returned
    exact ⟨linker, rfl, rfl⟩
  · cases returned

theorem Linker.loadModule_contract_cycle :
    ∃ linker warned, LoadCall .dev cyclicHost (registered .booted .new) (.new "main.prx", .ok 0)
        linker ∧
      linker.modules.map (·.name) = ["main.prx", "a.prx", "b.prx"] ∧
      (linker.modules.map (·.name)).Nodup ∧
      (∃ module, linker.modules[0]? = some module ∧ module.name = moduleName (.new "main.prx")) ∧
      (∀ module ∈ linker.modules, module.Handled .dev cyclicHost linker.modules warned) ∧
      ∃ enough outcome, Ends .dev cyclicHost linker outcome ∧
        ∀ fuel ≥ enough, loadModule .dev cyclicHost fuel (.new "b.prx") linker = outcome := by
  have returned : returnedNames
      (loadModule .dev cyclicHost 3 (.new "main.prx") (registered .booted .new)) =
      some (0, ["main.prx", "a.prx", "b.prx"]) := by
    decide +kernel
  obtain ⟨linker, run, names⟩ := returnedNames_eq_some returned
  have call : LoadCall .dev cyclicHost (registered .booted .new) (.new "main.prx", .ok 0) linker :=
    ⟨3, run⟩
  have lawful : cyclicHost.Lawful := fun _ => Host.roomy_lawful
  have contract {calls : List (Path × Except LinkError Nat)} {linker : Linker} :
      Trace (LoadCall .dev cyclicHost) (registered .booted .new) calls linker → _ :=
    loadModule_contract .dev lawful (Sys.files_finite _) HostBoot.low_lawful MemoryManager.new_low
  obtain ⟨-, each⟩ := contract .nil
  obtain ⟨nodup, later⟩ := contract (.snoc .nil call)
  obtain ⟨index, -, added, warned, modules, handled, -⟩ := (each _).2 _ _ call
  have all : linker.modules = added := modules
  exact ⟨linker, warned, call, names, nodup, index 0 rfl, all ▸ handled, (later _).1⟩

end AnotherPs4
