import AnotherPs4.Linker.Identity

/-!
# TLS module indices

Loading numbers the modules with a TLS segment in the order of their loads.
The relocation for the index of a module stores 1, whatever the module.
-/

namespace AnotherPs4

open Rust Transition

namespace Module

def hasTls (module : Module) : Bool := module.elf.tlsHeader.isSome

/-- The index of a module and the counter after its load. -/
structure TlsAssigned (p : Profile) (module : Module) (tls tls' : Nat) : Prop where
  next : module.hasTls = true → p.add 32 tls 1 = (.ok tls' : Outcome Empty Nat) ∧
    module.tlsIndex = tls'
  none : module.hasTls = false → module.tlsIndex = 0 ∧ tls' = tls

theorem place_tls {p : Profile} {path : Path} {elf : Elf} {base alignedBaseSize minAddr : Nat}
    {ram ram' : Ram} {tls tls' : Nat} {module : Module}
    (returned : place p path elf base alignedBaseSize minAddr ram tls
      = (.ok (module, ram', tls') : Outcome Empty _)) : module.TlsAssigned p tls tls' := by
  unfold place at returned
  obtain ⟨_, -, returned⟩ := Outcome.bind_eq_ok.mp returned
  obtain ⟨_, -, returned⟩ := Outcome.bind_eq_ok.mp returned
  obtain ⟨_, -, returned⟩ := Outcome.bind_eq_ok.mp returned
  obtain ⟨_, -, returned⟩ := Outcome.bind_eq_ok.mp returned
  obtain ⟨tlsIndex, assigned, returned⟩ := Outcome.bind_eq_ok.mp returned
  obtain ⟨_, -, returned⟩ := Outcome.bind_eq_ok.mp returned
  obtain ⟨_, -, returned⟩ := Outcome.bind_eq_ok.mp returned
  obtain ⟨_, -, returned⟩ := Outcome.bind_eq_ok.mp returned
  obtain ⟨_, -, returned⟩ := Outcome.bind_eq_ok.mp returned
  cases returned
  cases header : elf.tlsHeader with
  | none =>
    rw [header] at assigned
    cases assigned
    exact ⟨fun has => by simp [hasTls, header] at has, fun _ => ⟨rfl, by simp⟩⟩
  | some ph =>
    rw [header] at assigned
    exact ⟨fun _ => by simpa [header] using assigned, fun has => by simp [hasTls, header] at has⟩

theorem load_tls {p : Profile} {sys : Sys} {path : Path} {guest guest' : Guest} {tls tls' : Nat}
    {module : Module}
    (returned : load p sys path guest tls = (.ok (.ok module, guest', tls') : Outcome Empty _)) :
    module.TlsAssigned p tls tls' := by
  have placed := (load_eq_ok returned).2
  obtain ⟨extent, mapped, call, -⟩ := loadElf_eq_ok placed
  rw [loadElf_eq_place extent call] at placed
  obtain ⟨_, image, same⟩ := Outcome.bind_eq_ok.mp placed
  cases same
  exact place_tls image

end Module

namespace Linker

/-- The modules with TLS are numbered from 1 in load order, and the others have
no number. -/
structure Indexed (linker : Linker) : Prop where
  numbered : (linker.modules.filter (·.hasTls)).map (·.tlsIndex) =
    List.range' 1 linker.maxTlsIndex
  others : ∀ module ∈ linker.modules, module.hasTls = false → module.tlsIndex = 0

variable {p : Profile} {sys : Sys} {space : AddressSpace} {linker linker' : Linker}

theorem Indexed.count (indexed : linker.Indexed) :
    linker.maxTlsIndex = (linker.modules.filter (·.hasTls)).length := by
  have lengths := congrArg List.length indexed.numbered
  simpa using lengths.symm

/-- A step with fewer modules than numbers keeps them numbered. -/
theorem Indexed.step {event : LinkerEvent} (indexed : linker.Indexed)
    (step : LinkerStep p sys linker event linker') (few : linker'.modules.length < 2 ^ 32) :
    linker'.Indexed := by
  cases step with
  | warn => exact ⟨indexed.numbered, indexed.others⟩
  | install fresh installed =>
    rcases Linker.install_eq_ok installed with
      ⟨e, guest, tls, -, failed, rfl⟩ | ⟨module, guest, tls, needed, ram, -, loaded, -, rfl⟩
    · obtain ⟨rfl, -⟩ := Module.load_eq_error failed
      exact ⟨indexed.numbered, indexed.others⟩
    · have assigned := Module.load_tls loaded
      have others {other : Module} (member : other ∈ linker.modules ++ [module])
          (without : other.hasTls = false) : other.tlsIndex = 0 := by
        rcases List.mem_append.mp member with old | new
        · exact indexed.others other old without
        · obtain rfl := List.mem_singleton.mp new
          exact (assigned.none without).1
      refine ⟨?_, fun other member => others member⟩
      cases has : module.hasTls with
      | false =>
        obtain ⟨-, rfl⟩ := assigned.none has
        simpa [has] using indexed.numbered
      | true =>
        obtain ⟨added, index⟩ := assigned.next has
        have small : linker.maxTlsIndex + 1 < 2 ^ 32 := by
          have counted := List.length_filter_le (fun m : Module => m.hasTls) linker.modules
          have count := indexed.count
          simp only [List.length_append, List.length_singleton] at few
          omega
        rw [Profile.add_of_lt small] at added
        obtain rfl := Outcome.ok.inj added
        simp only [List.filter_append, List.map_append, indexed.numbered, has, List.filter_cons_of_pos,
          List.filter_nil, List.map_cons, List.map_nil, index]
        rw [List.range'_1_concat, Nat.add_comm 1]

/-- The linker of a process with its numbers. -/
structure Numbered (p : Profile) (sys : Sys) (space : AddressSpace) (linker : Linker) : Prop where
  running : Running p sys space linker
  indexed : linker.Indexed

theorem LoadCall.numbered {call : Path × Except LinkError Nat} (lawful : sys.Lawful)
    (numbered : linker.Numbered p sys space) (returned : LoadCall p sys linker call linker') :
    linker'.Numbered p sys space := by
  obtain ⟨fuel, returned⟩ := returned
  obtain ⟨_, _, extension⟩ := (loadModule_called fuel returned).extends_
  obtain ⟨events, run⟩ := extension.run
  refine Trace.invariant numbered (fun {state event next} numbered step => ?_) run
  have running : Running p sys space next := numbered.running.steps lawful (.snoc .nil step)
  exact ⟨running, numbered.indexed.step step (running.sound.length_lt running.fixedSize)⟩

theorem Numbered.calls {boot : HostBoot} {guest : Guest} {hleSymbols : SymbolResolver}
    {calls : List (Path × Except LinkError Nat)} {linker : Linker} (lawful : sys.Lawful)
    (bootLawful : boot.Lawful) (booted : MemoryManager.new boot = .ok guest.memory)
    (run : Trace (LoadCall p sys) (registered guest hleSymbols) calls linker) :
    linker.Numbered p sys guest.memory.addressSpace :=
  Trace.invariant ⟨.start bootLawful booted hleSymbols, rfl, nofun⟩
    (fun numbered call => call.numbered lawful numbered) run

theorem Numbered.tlsIndex_lt (numbered : linker.Numbered p sys space) {module : Module}
    (listed : module ∈ linker.modules) : module.tlsIndex < 2 ^ 32 := by
  have few := numbered.running.sound.length_lt numbered.running.fixedSize
  have counted := List.length_filter_le (fun m : Module => m.hasTls) linker.modules
  have count := numbered.indexed.count
  cases has : module.hasTls with
  | false => rw [numbered.indexed.others module listed has]; decide
  | true =>
    have member : module.tlsIndex ∈ (linker.modules.filter (·.hasTls)).map (·.tlsIndex) :=
      List.mem_map_of_mem (List.mem_filter.mpr ⟨listed, has⟩)
    rw [numbered.indexed.numbered, List.mem_range'_1] at member
    omega

/-! ### Slots for the index -/

/-- No later relocation stores into the slot of the one at position `i`. -/
def WritesLast (linker : Linker) (i : Nat) (job : Job) : Prop :=
  ∀ j other, i < j → linker.worklist[j]? = some other → other.2.isKnown = true →
    ¬ SlotsMeet job.slot other.slot

def TlsSlot (linker : Linker) (i : Nat) (job : Job) : Prop :=
  linker.worklist[i]? = some job ∧ job.2.isModuleId = true ∧ job.1.hasTls = true

def TlsSlotsHold (linker : Linker) (ram : Ram) : Prop :=
  ∀ i job, linker.TlsSlot i job → ram.HoldsWord job.slot job.1.tlsIndex

theorem stores_eq_some {stubs : Option StubAllocator} {j : Nat} {store : Store}
    (stored : (linker.stores p stubs)[j]? = some (some store)) :
    ∃ job : Job, linker.worklist[j]? = some job ∧ job.2.isKnown = true ∧
      store.addr = job.slot := by
  rw [stores, storesOf_getElem?, Option.map_eq_some_iff] at stored
  obtain ⟨job, found, computed⟩ := stored
  refine ⟨job, reached_getElem? found, ?_, ParsedRelocation.storeAt_addr computed⟩
  rw [← ParsedRelocation.storeAt_isSome, computed]
  rfl

theorem tlsSlot_holds_one {stubs : Option StubAllocator} {result : Linker × Option StubAllocator}
    (returned : linker.relocateAll p stubs = .ok result) {i : Nat} {job : Job}
    (found : linker.worklist[i]? = some job) (moduleId : job.2.isModuleId = true)
    (last : linker.WritesLast i job) : result.1.guest.ram.HoldsWord job.slot 1 := by
  have ram : result.1.guest.ram = linker.guest.ram.storeAll (linker.stores p stubs) := by
    rw [(relocateAll_eq_ok returned).1]
  have stored := stores_getElem? stubs ((reached_eq_of_returned returned).symm ▸ found)
  rw [ParsedRelocation.storeAt_moduleId moduleId] at stored
  rw [ram]
  refine Ram.storeAll_last (fun store member => ?_) stored ?_
  · obtain ⟨j, listed⟩ := List.mem_iff_getElem?.mp member
    obtain ⟨other, -, -, addr⟩ := stores_eq_some listed
    exact addr ▸ other.slot_lt
  · intro j other after listed
    obtain ⟨job', found', known, addr⟩ := stores_eq_some listed
    rw [addr]
    exact last j job' after found' known

/-- Over all runs of loads the numbers are right. The slots for them are right
exactly in the first module with TLS, as far as they are not stored to again. -/
theorem tlsIndices_iff (p : Profile) {sys : Sys} (lawful : sys.Lawful) {boot : HostBoot}
    (bootLawful : boot.Lawful) {guest : Guest}
    (booted : MemoryManager.new boot = .ok guest.memory) {hleSymbols : SymbolResolver}
    {calls : List (Path × Except LinkError Nat)} {linker : Linker}
    (run : Trace (LoadCall p sys) (registered guest hleSymbols) calls linker) :
    linker.Indexed ∧ ∀ stubs result, linker.relocateAll p stubs = .ok result →
      (∀ i job, linker.TlsSlot i job → linker.WritesLast i job →
        (result.1.guest.ram.HoldsWord job.slot job.1.tlsIndex ↔ job.1.tlsIndex = 1)) ∧
      ((∀ i job, linker.TlsSlot i job → linker.WritesLast i job) →
        (linker.TlsSlotsHold result.1.guest.ram ↔
          ∀ i job, linker.TlsSlot i job → job.1.tlsIndex = 1)) := by
  have numbered := Numbered.calls lawful bootLawful booted run
  have each {stubs result} (returned : linker.relocateAll p stubs = .ok result) {i job}
      (slot : linker.TlsSlot i job) (last : linker.WritesLast i job) :
      result.1.guest.ram.HoldsWord job.slot job.1.tlsIndex ↔ job.1.tlsIndex = 1 := by
    obtain ⟨found, moduleId, -⟩ := slot
    have one := tlsSlot_holds_one returned found moduleId last
    have listed := (mem_worklist.mp (List.mem_of_getElem? found)).1
    have small : job.1.tlsIndex < 2 ^ 64 := (numbered.tlsIndex_lt listed).trans (by decide)
    exact ⟨fun holds => holds.unique small (by decide) one, fun first => first ▸ one⟩
  refine ⟨numbered.indexed, fun stubs result returned => ⟨fun i job => each returned, ?_⟩⟩
  exact fun last => forall₃_congr fun i job slot => each returned slot (last i job slot)

def tlsImage (relocations : List UInt8) : List UInt8 :=
  entryHeaderBytes 0 4 ++ loadHeaderBytes 288 0 2 2 ++ tableHeaderBytes 2 290 96 ++
    tableHeaderBytes 0x61000000 386 relocations.length ++ tableHeaderBytes 7 288 2 ++
    [0x90, 0xC3] ++ (dynlibEntries 0 0 relocations.length).flatMap
      (fun entry => leBytes 8 entry.1 ++ leBytes 8 entry.2) ++ relocations

/-- Modules with and without TLS, two of them with a slot for their index. -/
def tlsHost : Sys :=
  let slot := relocationBytes 0 0 rX86_64Dtpmod64 0
  .files [(.new "a.prx", tlsImage slot), (.new "b.prx", tlsImage slot),
    (.new "plain.prx", codeImage 0 [0x90, 0xC3]), (.new "quiet.prx", tlsImage [])]

def loadAll (p : Profile) (sys : Sys) : List Path → Linker → Option Linker
  | [], linker => some linker
  | path :: rest, linker =>
    match loadModule p sys 1 path linker with
    | .ok (.ok _, linker) => loadAll p sys rest linker
    | _ => none

theorem loadAll_eq_some {paths : List Path} (loaded : loadAll p sys paths linker = some linker') :
    ∃ calls, Trace (LoadCall p sys) linker calls linker' := by
  induction paths generalizing linker with
  | nil =>
    cases loaded
    exact ⟨[], .nil⟩
  | cons path rest ih =>
    unfold loadAll at loaded
    split at loaded
    · next i middle returned =>
      obtain ⟨calls, run⟩ := ih loaded
      have first : Trace (LoadCall p sys) linker [(path, .ok i)] middle := .snoc .nil ⟨1, returned⟩
      exact ⟨_, first.append run⟩
    · cases loaded

/-- Of a job: that it lands, that it is for the index of a module with TLS, this index,
and the slot. -/
def tlsFacts (linker : Linker) (job : Job) : Bool × Bool × Nat × Nat :=
  (job.Lands .dev linker.guest.writable, job.2.isModuleId && job.1.hasTls, job.1.tlsIndex,
    job.slot)

theorem exists_run_of_tlsFacts (paths : List Path) (indices : List Nat)
    (facts : List (Bool × Bool × Nat × Nat))
    (evaluated : (loadAll .dev tlsHost paths (registered .booted .new)).map
      (fun linker => (linker.modules.map (·.tlsIndex), linker.worklist.map linker.tlsFacts)) =
      some (indices, facts))
    (lands : ∀ fact ∈ facts, fact.1 = true) :
    ∃ calls linker result, Trace (LoadCall .dev tlsHost) (registered .booted .new) calls linker ∧
      linker.relocateAll .dev (some freshStubs) = .ok result ∧
      linker.modules.map (·.tlsIndex) = indices ∧ linker.worklist.map linker.tlsFacts = facts := by
  obtain ⟨linker, loaded, same⟩ := Option.map_eq_some_iff.mp evaluated
  obtain ⟨modules, same⟩ := Prod.mk.inj same
  obtain ⟨calls, run⟩ := loadAll_eq_some loaded
  obtain ⟨result, returned⟩ : (linker.relocateAll .dev (some freshStubs)).Returns := by
    apply relocateAll_returns.mpr
    intro job member
    have listed : linker.tlsFacts job ∈ facts := same ▸ List.mem_map_of_mem member
    exact of_decide_eq_true (lands _ listed)
  exact ⟨calls, linker, result, run, returned, modules, same⟩

theorem writesLast_of_length {i : Nat} {job : Job} (length : linker.worklist.length = i + 1) :
    linker.WritesLast i job := by
  intro j other after found
  have bound := (List.getElem?_eq_some_iff.mp found).1
  omega

/-- With one slot, that of the first module with TLS, it holds the right index. -/
theorem tlsIndices_iff_three_modules :
    ∃ calls linker result, Trace (LoadCall .dev tlsHost) (registered .booted .new) calls linker ∧
      linker.relocateAll .dev (some freshStubs) = .ok result ∧
      linker.modules.map (·.tlsIndex) = [1, 0, 2] ∧ linker.Indexed ∧
      linker.worklist.length = 1 ∧ linker.TlsSlotsHold result.1.guest.ram := by
  obtain ⟨calls, linker, result, run, returned, indices, facts⟩ := exists_run_of_tlsFacts
    [.new "a.prx", .new "plain.prx", .new "quiet.prx"] [1, 0, 2]
    [(true, true, 1, 0x1000000000)] (by decide +kernel) (by decide)
  have length : linker.worklist.length = 1 := by
    rw [← List.length_map linker.tlsFacts, facts]
    rfl
  have first {i : Nat} {job : Job} (found : linker.worklist[i]? = some job) :
      i = 0 ∧ job.1.tlsIndex = 1 := by
    have bound := (List.getElem?_eq_some_iff.mp found).1
    have listed : linker.tlsFacts job ∈ [(true, true, 1, 0x1000000000)] :=
      facts ▸ List.mem_map_of_mem (List.mem_of_getElem? found)
    rw [List.mem_singleton] at listed
    simp only [tlsFacts, Prod.mk.injEq] at listed
    exact ⟨by omega, listed.2.2.1⟩
  obtain ⟨indexed, slots⟩ := tlsIndices_iff .dev (fun _ => Host.roomy_lawful)
    HostBoot.low_lawful MemoryManager.new_low run
  refine ⟨calls, linker, result, run, returned, indices, indexed, length, ?_⟩
  refine ((slots _ _ returned).2 fun i job slot => ?_).mpr fun i job slot => (first slot.1).2
  obtain ⟨rfl, -⟩ := first slot.1
  exact writesLast_of_length length

/-- With two slots both hold 1. -/
theorem tlsSlots_share_index :
    ∃ calls linker result job, Trace (LoadCall .dev tlsHost) (registered .booted .new)
        calls linker ∧
      linker.relocateAll .dev (some freshStubs) = .ok result ∧
      linker.TlsSlot 1 job ∧ job.1.tlsIndex = 2 ∧ job.slot = 0x1000004000 ∧
      result.1.guest.ram.HoldsWord 0x1000004000 1 ∧
      ¬ linker.TlsSlotsHold result.1.guest.ram := by
  obtain ⟨calls, linker, result, run, returned, -, facts⟩ := exists_run_of_tlsFacts
    [.new "a.prx", .new "b.prx"] [1, 2]
    [(true, true, 1, 0x1000000000), (true, true, 2, 0x1000004000)]
    (by decide +kernel) (by decide)
  have length : linker.worklist.length = 2 := by
    rw [← List.length_map linker.tlsFacts, facts]
    rfl
  obtain ⟨job, found⟩ : ∃ job, linker.worklist[1]? = some job :=
    ⟨_, List.getElem?_eq_getElem (by omega)⟩
  have fact : linker.tlsFacts job = (true, true, 2, 0x1000004000) := by
    have listed := congrArg (·[1]?) facts
    rw [List.getElem?_map, found] at listed
    exact Option.some.inj listed
  simp only [tlsFacts, Prod.mk.injEq, Bool.and_eq_true] at fact
  obtain ⟨-, ⟨moduleId, hasTls⟩, index, slot⟩ := fact
  have one := tlsSlot_holds_one returned found moduleId (writesLast_of_length length)
  refine ⟨calls, linker, result, job, run, returned, ⟨found, moduleId, hasTls⟩, index, slot,
    slot ▸ one, fun holds => ?_⟩
  have own := holds 1 job ⟨found, moduleId, hasTls⟩
  rw [index] at own
  exact absurd (own.unique (by decide) (by decide) one) (by decide)

end Linker

end AnotherPs4
