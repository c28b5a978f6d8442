import AnotherPs4.Linker.Linker
import AnotherPs4.Linker.Loading
import AnotherPs4.Transition.Trace

/-!
# Runs of load_module

A call is a sequence of installed modules and of warnings.
-/

namespace AnotherPs4

open Rust RangeMap Transition

namespace LoadM

variable {α β : Type}

theorem bind_eq_ok {x : LoadM α} {f : α → LoadM β} {linker linker' : Linker} {b : β} :
    (x >>= f) linker = .ok (b, linker') ↔
      ∃ a middle, x linker = .ok (a, middle) ∧ f a middle = .ok (b, linker') := by
  change x linker >>= _ = _ ↔ _
  rw [Outcome.bind_eq_ok]
  exact ⟨fun ⟨⟨a, middle⟩, first, rest⟩ => ⟨a, middle, first, rest⟩,
    fun ⟨a, middle, first, rest⟩ => ⟨(a, middle), first, rest⟩⟩

theorem bind_congr {x y : LoadM α} {f g : α → LoadM β} {linker : Linker}
    (first : x linker = y linker)
    (rest : ∀ a middle, y linker = .ok (a, middle) → f a middle = g a middle) :
    (x >>= f) linker = (y >>= g) linker := by
  change x linker >>= _ = y linker >>= _
  rw [first]
  cases ran : y linker with
  | ok result => exact rest result.1 result.2 ran
  | err e => rfl
  | panic cause => rfl

theorem lift_eq_ok {x : Outcome OutOfFuel α} {linker linker' : Linker} {a : α} :
    (liftM x : LoadM α) linker = .ok (a, linker') ↔ x = .ok a ∧ linker' = linker := by
  change x >>= _ = _ ↔ _
  rw [Outcome.bind_eq_ok]
  constructor
  · rintro ⟨a, found, same⟩
    cases same
    exact ⟨found, rfl⟩
  · rintro ⟨found, rfl⟩
    exact ⟨a, found, rfl⟩

end LoadM

namespace Linker

variable {p : Profile} {sys : Sys} {path : Path} {linker linker' : Linker}

theorem loadFile_eq_ok {result : Except LinkError Module}
    (returned : loadFile p sys path linker = .ok (result, linker')) :
    ∃ guest tls, Module.load p sys path linker.guest linker.maxTlsIndex
        = .ok (result, guest, tls) ∧
      linker' = { linker with guest, maxTlsIndex := tls } := by
  obtain ⟨⟨loaded, guest, tls⟩, load, returned⟩ := Outcome.bind_eq_ok.mp returned
  rw [Outcome.widen_eq_ok] at load
  cases returned
  exact ⟨guest, tls, load, rfl⟩

theorem patchModule_eq_ok {name : String} {index : Nat} {u : Unit}
    (returned : patchModule p name index linker = .ok (u, linker')) :
    ∃ ram, linker' = { linker with guest := { linker.guest with ram } } := by
  unfold patchModule at returned
  split at returned
  · split at returned
    · cases returned
    · obtain ⟨⟨ram, count⟩, -, same⟩ := Outcome.bind_eq_ok.mp returned
      cases same
      exact ⟨ram, rfl⟩
  · cases returned
    exact ⟨linker.guest.ram, rfl⟩

theorem install_eq_ok {result : Except LinkError (Nat × List String)}
    (returned : install p sys path linker = .ok (result, linker')) :
    (∃ e guest tls, result = .error e ∧
      Module.load p sys path linker.guest linker.maxTlsIndex = .ok (.error e, guest, tls) ∧
      linker' = { linker with guest, maxTlsIndex := tls }) ∨
    ∃ module guest tls needed ram, result = .ok (linker.modules.length % 2 ^ 32, needed) ∧
      Module.load p sys path linker.guest linker.maxTlsIndex = .ok (.ok module, guest, tls) ∧
      module.elf.neededModules p = (.ok needed : Outcome Empty _) ∧
      linker' = { linker with
        modules := linker.modules ++ [module]
        guest := { guest with ram }
        maxTlsIndex := tls } := by
  unfold install at returned
  obtain ⟨loaded, next, run, returned⟩ := LoadM.bind_eq_ok.mp returned
  obtain ⟨guest, tls, load, rfl⟩ := loadFile_eq_ok run
  cases loaded with
  | error e =>
    cases returned
    exact .inl ⟨e, guest, tls, rfl, load, rfl⟩
  | ok module =>
    obtain ⟨_, _, got, returned⟩ := LoadM.bind_eq_ok.mp returned
    cases got
    obtain ⟨needed, _, lifted, returned⟩ := LoadM.bind_eq_ok.mp returned
    obtain ⟨named, rfl⟩ := LoadM.lift_eq_ok.mp lifted
    obtain ⟨_, _, pushed, returned⟩ := LoadM.bind_eq_ok.mp returned
    cases pushed
    obtain ⟨_, _, patched, returned⟩ := LoadM.bind_eq_ok.mp returned
    obtain ⟨ram, rfl⟩ := patchModule_eq_ok patched
    cases returned
    exact .inr ⟨module, guest, tls, needed, ram, rfl, load, Outcome.widen_eq_ok.mp named, rfl⟩

/-- A call for a file that is not loaded: its load, the patch, and its dependencies. -/
theorem loadModule_new {module : Module} {guest : Guest} {tls fuel : Nat} {needed : List String}
    {patched : Linker} (fresh : linker.loadedIndex path = none)
    (loaded : Module.load p sys path linker.guest linker.maxTlsIndex = .ok (.ok module, guest, tls))
    (named : module.elf.neededModules p = (.ok needed : Outcome Empty _))
    (patch : patchModule p module.name (linker.modules.length % 2 ^ 32)
      { linker with modules := linker.modules ++ [module], guest, maxTlsIndex := tls } =
      .ok ((), patched))
    (dependencies : loadDependencies sys (loadModule p sys fuel) (path.parent.getD .empty) needed
      patched = .ok ((), linker')) :
    loadModule p sys (fuel + 1) path linker =
      .ok (.ok (linker.modules.length % 2 ^ 32), linker') := by
  have file : loadFile p sys path linker =
      .ok (.ok module, { linker with guest, maxTlsIndex := tls }) := by
    unfold loadFile
    rw [loaded]
    rfl
  have installed : install p sys path linker =
      .ok (.ok (linker.modules.length % 2 ^ 32, needed), patched) := by
    unfold install
    refine LoadM.bind_eq_ok.mpr ⟨_, _, file, ?_⟩
    refine LoadM.bind_eq_ok.mpr ⟨_, _, rfl, ?_⟩
    refine LoadM.bind_eq_ok.mpr ⟨needed, _, LoadM.lift_eq_ok.mpr ⟨by rw [named]; rfl, rfl⟩, ?_⟩
    refine LoadM.bind_eq_ok.mpr ⟨(), _, rfl, ?_⟩
    exact LoadM.bind_eq_ok.mpr ⟨(), _, patch, rfl⟩
  unfold loadModule
  refine LoadM.bind_eq_ok.mpr ⟨linker, _, rfl, ?_⟩
  rw [fresh]
  refine LoadM.bind_eq_ok.mpr ⟨_, _, installed, ?_⟩
  exact LoadM.bind_eq_ok.mpr ⟨(), _, dependencies, rfl⟩

end Linker

/-- What happens in a call: a module is installed or fails to load, or a
dependency is given up with a warning. -/
inductive LinkerEvent where
  | install (path : Path) (result : Except LinkError (Nat × List String))
  | warn (path : Path) (error : LinkError)

inductive LinkerStep (p : Profile) (sys : Sys) : Linker → LinkerEvent → Linker → Prop where
  | install {path linker result linker'} : linker.loadedIndex path = none →
      Linker.install p sys path linker = .ok (result, linker') →
      LinkerStep p sys linker (.install path result) linker'
  | warn {path error linker} : LinkerStep p sys linker (.warn path error)
      { linker with warnings := linker.warnings ++ [(path, error)] }

theorem LinkerStep.hleSymbols_eq {p : Profile} {sys : Sys} {linker linker' : Linker}
    {event : LinkerEvent} (step : LinkerStep p sys linker event linker') :
    linker'.hleSymbols = linker.hleSymbols := by
  cases step with
  | warn => rfl
  | install fresh installed =>
    rcases Linker.install_eq_ok installed with
      ⟨_, _, _, -, -, rfl⟩ | ⟨_, _, _, _, _, -, -, -, rfl⟩ <;> rfl

/-- A module with the file name of `target` is loaded, or its load failed. -/
def Settled (modules : List Module) (warned : List (Path × LinkError)) (target : Path) : Prop :=
  (∃ module ∈ modules, module.name = moduleName target) ∨ ∃ e, (target, e) ∈ warned

theorem Settled.mono {modules modules' : List Module} {warned warned' : List (Path × LinkError)}
    {target : Path} (settled : Settled modules warned target) (more : modules ⊆ modules')
    (later : warned ⊆ warned') : Settled modules' warned' target :=
  settled.imp (fun ⟨module, member, name⟩ => ⟨module, more member, name⟩)
    fun ⟨e, member⟩ => ⟨e, later member⟩

def SettlesAll (sys : Sys) (parentDir : Path) (needed : List String) (modules : List Module)
    (warned : List (Path × LinkError)) : Prop :=
  ∀ dep ∈ needed, ∀ target, Linker.dependencyPath sys parentDir dep = some target →
    Settled modules warned target

def Module.Handled (p : Profile) (sys : Sys) (module : Module) (modules : List Module)
    (warned : List (Path × LinkError)) : Prop :=
  ∀ needed, module.elf.neededModules p = (.ok needed : Outcome Empty _) →
    SettlesAll sys (module.file.parent.getD .empty) needed modules warned

/-- The load of a file fails in some state that the linker gets to. -/
def Linker.LoadFails (p : Profile) (sys : Sys) (linker : Linker) (path : Path) (e : LinkError) :
    Prop :=
  ∃ events reached guest tls, Trace (LinkerStep p sys) linker events reached ∧
    Module.load p sys path reached.guest reached.maxTlsIndex = .ok (.error e, guest, tls)

theorem Linker.LoadFails.after {p : Profile} {sys : Sys} {linker middle : Linker} {path : Path}
    {e : LinkError} {events : List LinkerEvent} (run : Trace (LinkerStep p sys) linker events middle)
    (fails : middle.LoadFails p sys path e) : linker.LoadFails p sys path e := by
  obtain ⟨_, reached, guest, tls, run', failed⟩ := fails
  exact ⟨_, reached, guest, tls, run.append run', failed⟩

/-- A part of a run that added modules and warnings, and has handled all
dependencies of what it added. -/
structure Extends (p : Profile) (sys : Sys) (linker : Linker) (added : List Module)
    (warned : List (Path × LinkError)) (linker' : Linker) : Prop where
  run : ∃ events, Trace (LinkerStep p sys) linker events linker'
  modules : linker'.modules = linker.modules ++ added
  warnings : linker'.warnings = linker.warnings ++ warned
  handled : ∀ module ∈ added, module.Handled p sys linker'.modules warned
  failures : ∀ path e, (path, e) ∈ warned → linker.LoadFails p sys path e

namespace Extends

variable {p : Profile} {sys : Sys} {linker middle linker' : Linker}
  {added added' : List Module} {warned warned' : List (Path × LinkError)}

theorem refl (linker : Linker) : Extends p sys linker [] [] linker :=
  ⟨⟨[], .nil⟩, by simp, by simp, by simp, by simp⟩

theorem trans (first : Extends p sys linker added warned middle)
    (second : Extends p sys middle added' warned' linker') :
    Extends p sys linker (added ++ added') (warned ++ warned') linker' := by
  obtain ⟨⟨events, run⟩, modules, warnings, handled, failures⟩ := first
  obtain ⟨⟨events', run'⟩, modules', warnings', handled', failures'⟩ := second
  refine ⟨⟨_, run.append run'⟩, by rw [modules', modules, List.append_assoc],
    by rw [warnings', warnings, List.append_assoc], fun module member => ?_,
    fun path e member => ?_⟩
  · intro needed named dep listed target found
    rcases List.mem_append.mp member with member | member
    · refine (handled module member needed named dep listed target found).mono ?_ ?_
      · exact modules' ▸ List.subset_append_left _ _
      · exact List.subset_append_left _ _
    · exact (handled' module member needed named dep listed target found).mono
        (List.Subset.refl _) (List.subset_append_right _ _)
  · rcases List.mem_append.mp member with member | member
    · exact failures path e member
    · exact (failures' path e member).after run

end Extends

namespace Linker

variable {p : Profile} {sys : Sys}

/-- What a call of `load_module` has done when it returned. -/
structure Called (p : Profile) (sys : Sys) (path : Path) (linker : Linker)
    (result : Except LinkError Nat) (linker' : Linker) : Prop where
  extends_ : ∃ added warned, Extends p sys linker added warned linker'
  index : ∀ i, result = .ok i → ∃ idx module, i = idx % 2 ^ 32 ∧
    linker'.modules[idx]? = some module ∧ module.name = moduleName path
  failed : ∀ e, result = .error e → ∃ guest tls,
    Module.load p sys path linker.guest linker.maxTlsIndex = .ok (.error e, guest, tls) ∧
    linker' = { linker with guest, maxTlsIndex := tls }

theorem loadedIndex_eq_some {linker : Linker} {path : Path} {idx : Nat}
    (found : linker.loadedIndex path = some idx) :
    ∃ module, linker.modules[idx]? = some module ∧ module.name = moduleName path := by
  obtain ⟨bound, named, -⟩ := List.findIdx?_eq_some_iff_getElem.mp found
  exact ⟨_, List.getElem?_eq_getElem bound, by simpa using named⟩

section Dependencies

variable {load : Path → LoadM (Except LinkError Nat)} {parentDir : Path}
  (each : ∀ {path linker result linker'}, load path linker = .ok (result, linker') →
    Called p sys path linker result linker')

include each

theorem loadDependency_spec {dep : String} {linker linker' : Linker} {u : Unit}
    (returned : loadDependency sys load parentDir dep linker = .ok (u, linker')) :
    ∃ added warned, Extends p sys linker added warned linker' ∧
      ∀ target, dependencyPath sys parentDir dep = some target →
        Settled linker'.modules warned target := by
  unfold loadDependency at returned
  cases present : dependencyPath sys parentDir dep with
  | none =>
    rw [present] at returned
    cases returned
    exact ⟨[], [], .refl _, fun target found => by cases found⟩
  | some path =>
    rw [present] at returned
    obtain ⟨result, middle, call, returned⟩ := LoadM.bind_eq_ok.mp returned
    have called := each call
    obtain ⟨added, warned, extension⟩ := called.extends_
    cases result with
    | ok i =>
      cases returned
      obtain ⟨idx, module, -, listed, name⟩ := called.index i rfl
      refine ⟨added, warned, extension, fun target found => ?_⟩
      cases found
      exact .inl ⟨module, List.mem_of_getElem? listed, name⟩
    | error e =>
      cases returned
      obtain ⟨guest, tls, failed, rfl⟩ := called.failed e rfl
      obtain ⟨events, run⟩ := extension.run
      have warning : Extends p sys linker [] [(path, e)]
          { linker with guest, maxTlsIndex := tls, warnings := linker.warnings ++ [(path, e)] } := by
        refine ⟨⟨_, .snoc run .warn⟩, by simp, rfl, by simp, fun path' e' member => ?_⟩
        cases List.mem_singleton.mp member
        exact ⟨[], linker, guest, tls, .nil, failed⟩
      refine ⟨_, _, warning, fun target found => ?_⟩
      cases found
      exact .inr ⟨e, by simp⟩

/-- The loop over the dependencies settles all that are on disk. -/
theorem loadDependencies_spec {deps : List String} {linker linker' : Linker} {u : Unit}
    (returned : loadDependencies sys load parentDir deps linker = .ok (u, linker')) :
    ∃ added warned, Extends p sys linker added warned linker' ∧
      SettlesAll sys parentDir deps linker'.modules warned := by
  induction deps generalizing linker with
  | nil =>
    cases returned
    exact ⟨[], [], .refl _, fun _ member => by cases member⟩
  | cons dep rest ih =>
    obtain ⟨_, middle, first, returned⟩ := LoadM.bind_eq_ok.mp returned
    obtain ⟨added, warned, extension, settled⟩ := loadDependency_spec each first
    obtain ⟨added', warned', extension', settledRest⟩ := ih returned
    refine ⟨_, _, extension.trans extension', fun name member target found => ?_⟩
    rcases List.mem_cons.mp member with rfl | member
    · refine (settled target found).mono ?_ (List.subset_append_left _ _)
      exact extension'.modules ▸ List.subset_append_left _ _
    · exact (settledRest name member target found).mono (List.Subset.refl _)
        (List.subset_append_right _ _)

end Dependencies

theorem install_step {path : Path} {linker linker' : Linker} {index : Nat} {needed : List String}
    (fresh : linker.loadedIndex path = none)
    (installed : install p sys path linker = .ok (.ok (index, needed), linker')) :
    LinkerStep p sys linker (.install path (.ok (index, needed))) linker' ∧
      index = linker.modules.length % 2 ^ 32 ∧ ∃ module,
      linker'.modules = linker.modules ++ [module] ∧ linker'.warnings = linker.warnings ∧
      module.name = moduleName path ∧ module.file = path ∧
      module.elf.neededModules p = (.ok needed : Outcome Empty _) := by
  refine ⟨.install fresh installed, ?_⟩
  rcases install_eq_ok installed with
    ⟨e, guest, tls, failed, -⟩ | ⟨module, guest, tls, names, ram, same, loaded, named, rfl⟩
  · cases failed
  · cases same
    obtain ⟨-, _, -, name, file, -⟩ := Module.loadElf_eq_ok (Module.load_eq_ok loaded).2
    exact ⟨rfl, module, rfl, rfl, name, file, named⟩

/-- A call finds its module loaded, or fails to install it, or installs it and
goes on with its dependencies. -/
theorem loadModule_eq_ok {fuel : Nat} {result : Except LinkError Nat}
    (returned : loadModule p sys (fuel + 1) path linker = .ok (result, linker')) :
    (∃ idx, linker.loadedIndex path = some idx ∧ result = .ok (idx % 2 ^ 32) ∧ linker' = linker) ∨
    (linker.loadedIndex path = none ∧ ∃ e, result = .error e ∧
      install p sys path linker = .ok (.error e, linker')) ∨
    (linker.loadedIndex path = none ∧ ∃ index needed middle, result = .ok index ∧
      install p sys path linker = .ok (.ok (index, needed), middle) ∧
      loadDependencies sys (loadModule p sys fuel) (path.parent.getD .empty) needed middle =
        .ok ((), linker')) := by
  unfold loadModule at returned
  obtain ⟨_, _, got, returned⟩ := LoadM.bind_eq_ok.mp returned
  cases got
  cases found : linker.loadedIndex path with
  | some idx =>
    rw [found] at returned
    cases returned
    exact .inl ⟨idx, rfl, rfl, rfl⟩
  | none =>
    rw [found] at returned
    obtain ⟨installed, middle, install, returned⟩ := LoadM.bind_eq_ok.mp returned
    cases installed with
    | error e =>
      cases returned
      exact .inr (.inl ⟨rfl, e, rfl, install⟩)
    | ok installed =>
      obtain ⟨_, _, dependencies, returned⟩ := LoadM.bind_eq_ok.mp returned
      cases returned
      exact .inr (.inr ⟨rfl, installed.1, installed.2, middle, rfl, install, dependencies⟩)

theorem loadModule_called (fuel : Nat) {path : Path} {linker linker' : Linker}
    {result : Except LinkError Nat}
    (returned : loadModule p sys fuel path linker = .ok (result, linker')) :
    Called p sys path linker result linker' := by
  induction fuel generalizing path linker result linker' with
  | zero => cases returned
  | succ fuel ih =>
    rcases loadModule_eq_ok returned with ⟨idx, found, rfl, rfl⟩ | ⟨fresh, e, rfl, install⟩ |
      ⟨fresh, index, needed, middle, rfl, install, dependencies⟩
    · obtain ⟨module, listed, name⟩ := loadedIndex_eq_some found
      refine ⟨⟨[], [], .refl _⟩, fun i same => ⟨idx, module, ?_, listed, name⟩, nofun⟩
      cases same
      rfl
    · rcases install_eq_ok install with
        ⟨e, guest, tls, same, failed, rfl⟩ | ⟨_, _, _, _, _, loaded, -⟩
      · cases same
        refine ⟨⟨[], [], ⟨_, .snoc .nil (.install fresh install)⟩, by simp, by simp, by simp,
          by simp⟩, nofun, fun e' same => ?_⟩
        cases same
        exact ⟨guest, tls, failed, rfl⟩
      · cases loaded
    · obtain ⟨step, rfl, module, modules, warnings, name, file, named⟩ := install_step fresh install
      obtain ⟨added, warned, ⟨⟨events, run⟩, modules', warnings', handled, failures⟩, settled⟩ :=
        loadDependencies_spec ih dependencies
      have installs : Trace (LinkerStep p sys) linker [_] middle := .snoc .nil step
      refine ⟨⟨module :: added, warned, ⟨_, installs.append run⟩, ?_, ?_, ?_,
        fun path e member => (failures path e member).after installs⟩, ?_, nofun⟩
      · rw [modules', modules, List.append_assoc, List.singleton_append]
      · rw [warnings', warnings]
      · intro other member names namesOther
        rcases List.mem_cons.mp member with rfl | member
        · cases named.symm.trans namesOther
          exact file ▸ settled
        · exact handled other member names namesOther
      · intro i same
        cases same
        refine ⟨linker.modules.length, module, rfl, ?_, name⟩
        rw [modules', modules]
        simp

end Linker

end AnotherPs4
