import AnotherPs4.Linker.Linker

/-!
# Stores of relocate_all

The relocations of all modules are one worklist, and applying it is a list of
stores. What is stored depends on the run so far only through the number of
stubs handed out, which is the number of unresolved imports before it.
-/

namespace AnotherPs4

open Rust

/-- A relocation and the module it belongs to. -/
abbrev Job := Module × ParsedRelocation

/-- All relocations in the order of `relocate_all`. -/
def Linker.worklist (linker : Linker) : List Job :=
  linker.modules.flatMap fun module => module.relocations.map (module, ·)

/-- What each relocation stores, up to the one where the run stops. -/
def storesOf (p : Profile) (hleSymbols : SymbolResolver) (writable : Nat → Bool) :
    Option StubAllocator → List Job → List (Option Store)
  | _, [] => []
  | stubs, (module, reloc) :: rest =>
    match checkedStore p reloc module.baseVirtualAddr hleSymbols writable stubs with
    | .ok (store, stubs) => store :: storesOf p hleSymbols writable stubs rest
    | .panic _ => []

def Ram.storeAll (ram : Ram) (stores : List (Option Store)) : Ram :=
  stores.foldl (fun ram store => store.elim ram ram.store) ram

@[simp] theorem Ram.storeAll_singleton (ram : Ram) (store : Store) :
    ram.storeAll [some store] = ram.store store := rfl

/-- Two words of memory share a cell. -/
def SlotsMeet (a b : Nat) : Prop := ∃ k < 8, ∃ l < 8, (a + k) % 2 ^ 64 = (b + l) % 2 ^ 64

theorem Ram.storeAll_other {ram : Ram} {stores : List (Option Store)} {x : Nat} (word : x < 2 ^ 64)
    (other : ∀ store, some store ∈ stores → store.addr < 2 ^ 64 ∧
      ∀ l < 8, (store.addr + l) % 2 ^ 64 ≠ x) : ram.storeAll stores x = ram x := by
  induction stores generalizing ram with
  | nil => rfl
  | cons store rest ih =>
    have first : store.elim ram ram.store x = ram x := by
      cases store with
      | none => rfl
      | some store =>
        obtain ⟨destWord, apart⟩ := other store (by simp)
        rw [Option.elim_some, Ram.store]
        exact Ram.write64_other word destWord apart
    rw [← first]
    exact ih fun store member => other store (List.mem_cons_of_mem _ member)

theorem Ram.storeAll_last {ram : Ram} {stores : List (Option Store)} {i : Nat} {store : Store}
    (words : ∀ store, some store ∈ stores → store.addr < 2 ^ 64)
    (found : stores[i]? = some (some store))
    (later : ∀ j other, i < j → stores[j]? = some (some other) →
      ¬ SlotsMeet store.addr other.addr) :
    (ram.storeAll stores).HoldsWord store.addr store.value := by
  obtain ⟨bound, here⟩ := List.getElem?_eq_some_iff.mp found
  have order : ram.storeAll stores =
      ((ram.storeAll (stores.take i)).store store).storeAll (stores.drop (i + 1)) := by
    calc ram.storeAll stores = ram.storeAll (stores.take i ++ stores.drop i) := by
          rw [List.take_append_drop]
      _ = _ := by
          rw [List.drop_eq_getElem_cons bound, here, storeAll, List.foldl_append]
          rfl
  have word := words store (List.mem_of_getElem? found)
  intro k inside
  have kept : ((ram.storeAll (stores.take i)).store store).HoldsWord store.addr store.value :=
    holdsWord_write64 word store.value
  rw [kept k inside, order]
  refine congrArg some (storeAll_other (Nat.mod_lt _ (Nat.two_pow_pos 64)) ?_).symm
  intro other member
  obtain ⟨j, listed⟩ := List.mem_iff_getElem?.mp member
  rw [List.getElem?_drop] at listed
  refine ⟨words other (List.mem_of_getElem? listed), fun l small same => ?_⟩
  exact later _ other (by omega) listed ⟨k, inside, l, small, same.symm⟩

def Linker.stores (p : Profile) (linker : Linker) (stubs : Option StubAllocator) :
    List (Option Store) :=
  storesOf p linker.hleSymbols linker.guest.writable stubs linker.worklist

section Run

variable {p : Profile} {hleSymbols : SymbolResolver} {writable : Nat → Bool}

def relocateJobs (p : Profile) (hleSymbols : SymbolResolver) (writable : Nat → Bool)
    (jobs : List Job) (memory : Ram × Option StubAllocator) :
    Outcome Empty (Ram × Option StubAllocator) :=
  jobs.foldlM (fun memory job =>
    applyRelocation p job.2 job.1.baseVirtualAddr hleSymbols writable memory.1 memory.2) memory

theorem relocateJobs_worklist (linker : Linker) (memory : Ram × Option StubAllocator) :
    linker.modules.foldlM
      (fun memory module =>
        relocateModule p module linker.hleSymbols linker.guest.writable memory) memory =
    relocateJobs p linker.hleSymbols linker.guest.writable linker.worklist memory := by
  unfold Linker.worklist
  generalize linker.modules = modules
  induction modules generalizing memory with
  | nil => rfl
  | cons module rest ih =>
    rw [List.foldlM_cons, List.flatMap_cons, relocateJobs, List.foldlM_append, List.foldlM_map]
    exact bind_congr fun memory => ih memory

theorem relocateJobs_eq_ok {jobs : List Job} {memory memory' : Ram × Option StubAllocator}
    (returned : relocateJobs p hleSymbols writable jobs memory = .ok memory') :
    memory'.1 = memory.1.storeAll (storesOf p hleSymbols writable memory.2 jobs) ∧
      (storesOf p hleSymbols writable memory.2 jobs).length = jobs.length := by
  induction jobs generalizing memory with
  | nil =>
    cases returned
    exact ⟨rfl, rfl⟩
  | cons job rest ih =>
    rw [relocateJobs, List.foldlM_cons] at returned
    obtain ⟨middle, applied, returned⟩ := Outcome.bind_eq_ok.mp returned
    obtain ⟨⟨store, stubs⟩, stored, same⟩ := Outcome.bind_eq_ok.mp applied
    cases same
    obtain ⟨ram, count⟩ := ih returned
    unfold storesOf
    rw [stored]
    exact ⟨ram, congrArg (· + 1) count⟩

/-- `relocate_all` performs its stores. -/
theorem Linker.relocateAll_eq_ok {linker linker' : Linker} {stubs stubs' : Option StubAllocator}
    (returned : linker.relocateAll p stubs = .ok (linker', stubs')) :
    linker' = { linker with guest := { linker.guest with
        ram := linker.guest.ram.storeAll (linker.stores p stubs) } } ∧
      (linker.stores p stubs).length = linker.worklist.length := by
  obtain ⟨memory, run, same⟩ := Outcome.bind_eq_ok.mp returned
  cases same
  rw [relocateJobs_worklist] at run
  obtain ⟨ram, count⟩ := relocateJobs_eq_ok run
  exact ⟨by rw [ram]; rfl, count⟩

end Run

def hleAddress (hleSymbols : SymbolResolver) (symbolName : String) : Option Nat :=
  (hleSymbols.resolve (baseName symbolName)).or (hleSymbols.resolve symbolName)

def slotAddr (stubs : Option StubAllocator) (k : Nat) : Nat :=
  match stubs with
  | none => 0
  | some alloc =>
    if alloc.used + k < maxStubs then alloc.base + (alloc.used + k) * stubSize else 0

theorem allocateStub_spec (stubs : Option StubAllocator) (name : String) :
    (allocateStub stubs name).1 = slotAddr stubs 0 ∧
      ∀ k, slotAddr (allocateStub stubs name).2 k = slotAddr stubs (k + 1) := by
  cases stubs with
  | none => exact ⟨rfl, fun _ => rfl⟩
  | some alloc =>
    unfold allocateStub StubAllocator.nextStub
    by_cases full : alloc.used ≥ maxStubs
    · simp only [full, if_true, Option.getD_none, slotAddr]
      exact ⟨(if_neg (by omega)).symm, fun k => by rw [if_neg (by omega), if_neg (by omega)]⟩
    · simp only [full, if_false, Option.getD_some, slotAddr]
      refine ⟨(if_pos (by omega)).symm, fun k => ?_⟩
      have shifted : alloc.used + 1 + k = alloc.used + (k + 1) := by omega
      rw [shifted]

def ParsedRelocation.isUnresolved (hleSymbols : SymbolResolver) (reloc : ParsedRelocation) : Bool :=
  reloc.isSymbolic && !reloc.symbolName.isEmpty && (hleAddress hleSymbols reloc.symbolName).isNone

def unresolved (hleSymbols : SymbolResolver) (jobs : List Job) : List String :=
  (jobs.filter (·.2.isUnresolved hleSymbols)).map (·.2.symbolName)

/-- The address a symbol gets when `before` stubs were handed out before. -/
def importAddr (hleSymbols : SymbolResolver) (stubs : Option StubAllocator) (before : Nat)
    (symbolName : String) : Nat :=
  if symbolName.isEmpty then 0
  else (hleAddress hleSymbols symbolName).getD (slotAddr stubs before)

theorem resolveSymbol_spec (symbolName : String) (hleSymbols : SymbolResolver)
    (stubs : Option StubAllocator) :
    (resolveSymbol symbolName hleSymbols stubs).1 = importAddr hleSymbols stubs 0 symbolName ∧
      ∀ k, slotAddr (resolveSymbol symbolName hleSymbols stubs).2 k =
        slotAddr stubs (k + if !symbolName.isEmpty && (hleAddress hleSymbols symbolName).isNone
          then 1 else 0) := by
  unfold resolveSymbol importAddr hleAddress
  by_cases unnamed : symbolName.isEmpty = true
  · simp [unnamed]
  · simp only [unnamed, Bool.false_eq_true, if_false, Bool.not_false, Bool.true_and]
    cases hleSymbols.resolve (baseName symbolName) with
    | some addr => exact ⟨rfl, fun _ => rfl⟩
    | none =>
      cases hleSymbols.resolve symbolName with
      | some addr => exact ⟨rfl, fun _ => rfl⟩
      | none => exact allocateStub_spec stubs _

def ParsedRelocation.storeAt (reloc : ParsedRelocation) (base resolvedAddr : Nat) : Option Store :=
  let targetAddr := (base + reloc.offset) % 2 ^ 64
  let addend := unsigned 64 reloc.addend
  if reloc.isRelative then some ⟨targetAddr, (base + addend) % 2 ^ 64⟩
  else if reloc.isSymbolic then some ⟨targetAddr, (resolvedAddr + addend) % 2 ^ 64⟩
  else if reloc.isModuleId then some ⟨targetAddr, 1⟩
  else none

def Job.slot (job : Job) : Nat := (job.1.baseVirtualAddr + job.2.offset) % 2 ^ 64

theorem Job.slot_lt (job : Job) : job.slot < 2 ^ 64 := Nat.mod_lt _ (Nat.two_pow_pos 64)

theorem ParsedRelocation.storeAt_moduleId {reloc : ParsedRelocation}
    (moduleId : reloc.isModuleId = true) (base resolvedAddr : Nat) :
    reloc.storeAt base resolvedAddr = some ⟨(base + reloc.offset) % 2 ^ 64, 1⟩ := by
  have type := eq_of_beq moduleId
  simp [storeAt, isRelative, isSymbolic, isModuleId, type, rX86_64Relative, rX86_64_64,
    rX86_64GlobDat, rX86_64JumpSlot, rX86_64Dtpmod64]

theorem ParsedRelocation.storeAt_addr {reloc : ParsedRelocation} {base resolvedAddr : Nat}
    {store : Store} (stored : reloc.storeAt base resolvedAddr = some store) :
    store.addr = (base + reloc.offset) % 2 ^ 64 := by
  unfold storeAt at stored
  dsimp only at stored
  split at stored
  · cases stored
    rfl
  · split at stored
    · cases stored
      rfl
    · split at stored
      · cases stored
        rfl
      · cases stored

theorem ParsedRelocation.storeAt_isSome {reloc : ParsedRelocation} {base resolvedAddr : Nat} :
    (reloc.storeAt base resolvedAddr).isSome = reloc.isKnown := by
  unfold storeAt isKnown
  dsimp only
  cases reloc.isRelative <;> cases reloc.isSymbolic <;> cases reloc.isModuleId <;> rfl

/-! ### Where a run stops -/

/-- The build and the host let a word be stored at the address. -/
def SlotAllowed (p : Profile) (writable : Nat → Bool) (addr : Nat) : Prop :=
  (p = .dev → addr % 8 = 0) ∧ ∀ k < 8, writable ((addr + k) % 2 ^ 64) = true

instance (p : Profile) (writable : Nat → Bool) (addr : Nat) :
    Decidable (SlotAllowed p writable addr) :=
  inferInstanceAs (Decidable (_ ∧ _))

/-- Nothing stops the relocation: the address of its slot passes the overflow check, and a
store there is allowed if there is one. -/
def Job.Lands (p : Profile) (writable : Nat → Bool) (job : Job) : Prop :=
  (p = .dev → job.1.baseVirtualAddr + job.2.offset < 2 ^ 64) ∧
    (job.2.isKnown = true → SlotAllowed p writable job.slot)

instance (p : Profile) (writable : Nat → Bool) : DecidablePred (Job.Lands p writable) :=
  fun _ => inferInstanceAs (Decidable (_ ∧ _))

/-- The relocations before the first one that stops the run. -/
def reached (p : Profile) (writable : Nat → Bool) (jobs : List Job) : List Job :=
  jobs.takeWhile fun job => job.Lands p writable

theorem Store.check_returns {p : Profile} {writable : Nat → Bool} {store : Store} :
    (store.check p writable).Returns ↔ SlotAllowed p writable store.addr := by
  have cells : ((if (List.range 8).all fun k => writable ((store.addr + k) % 2 ^ 64) then .ok ()
      else .panic .fault : Outcome Empty Unit).Returns) ↔
      ∀ k < 8, writable ((store.addr + k) % 2 ^ 64) = true := by
    by_cases all : ((List.range 8).all fun k => writable ((store.addr + k) % 2 ^ 64)) = true
    · rw [if_pos all]
      exact iff_of_true (Outcome.returns_ok _) (by simpa using all)
    · rw [if_neg all]
      exact iff_of_false (Outcome.not_returns_panic _) (by simpa using all)
  unfold Store.check SlotAllowed
  rw [Outcome.returns_bind_iff fun _ => cells, Profile.debugCheck_returns, beq_iff_eq]

section ClosedForm

variable {p : Profile} {hleSymbols : SymbolResolver} {writable : Nat → Bool}

theorem not_symbolic_of_relative {reloc : ParsedRelocation} (relative : reloc.isRelative = true) :
    reloc.isSymbolic = false := by
  have type := eq_of_beq relative
  simp [ParsedRelocation.isSymbolic, type, rX86_64Relative, rX86_64_64, rX86_64GlobDat,
    rX86_64JumpSlot]

theorem relocationStore_of_fits {job : Job}
    (fits : p.SumFits job.1.baseVirtualAddr job.2.offset) (stubs : Option StubAllocator) :
    ∃ stubs', relocationStore p job.2 job.1.baseVirtualAddr hleSymbols stubs =
        .ok (job.2.storeAt job.1.baseVirtualAddr (importAddr hleSymbols stubs 0 job.2.symbolName),
          stubs') ∧
      ∀ k, slotAddr stubs' k =
        slotAddr stubs (k + if job.2.isUnresolved hleSymbols then 1 else 0) := by
  unfold relocationStore ParsedRelocation.storeAt ParsedRelocation.isUnresolved
  rw [Profile.add_eq_ok_iff.mpr ⟨fits, rfl⟩]
  by_cases relative : job.2.isRelative = true
  · exact ⟨stubs, by simp [relative], by simp [not_symbolic_of_relative relative]⟩
  by_cases symbolic : job.2.isSymbolic = true
  · obtain ⟨addr, slots⟩ := resolveSymbol_spec job.2.symbolName hleSymbols stubs
    refine ⟨(resolveSymbol job.2.symbolName hleSymbols stubs).2, ?_, ?_⟩
    · simp [relative, symbolic, addr]
    · simpa only [symbolic, Bool.true_and] using slots
  · refine ⟨stubs, ?_, by simp [symbolic]⟩
    by_cases moduleId : job.2.isModuleId = true <;> simp [relative, symbolic, moduleId]

theorem checkedStore_of_lands {job : Job} (lands : job.Lands p writable)
    (stubs : Option StubAllocator) :
    ∃ stubs', checkedStore p job.2 job.1.baseVirtualAddr hleSymbols writable stubs =
        .ok (job.2.storeAt job.1.baseVirtualAddr (importAddr hleSymbols stubs 0 job.2.symbolName),
          stubs') ∧
      ∀ k, slotAddr stubs' k =
        slotAddr stubs (k + if job.2.isUnresolved hleSymbols then 1 else 0) := by
  obtain ⟨stubs', computed, slots⟩ :=
    @relocationStore_of_fits p hleSymbols job lands.1 stubs
  refine ⟨stubs', ?_, slots⟩
  unfold checkedStore
  rw [computed, Outcome.ok_bind]
  cases stored : job.2.storeAt job.1.baseVirtualAddr
      (importAddr hleSymbols stubs 0 job.2.symbolName) with
  | none => rfl
  | some store =>
    have known : job.2.isKnown = true := by
      rw [← ParsedRelocation.storeAt_isSome, stored]
      rfl
    have allowed : SlotAllowed p writable store.addr := by
      rw [ParsedRelocation.storeAt_addr stored]
      exact lands.2 known
    obtain ⟨⟨⟩, passed⟩ := Store.check_returns.mpr allowed
    change (store.check p writable >>= _) = _
    rw [passed]
    rfl

theorem checkedStore_eq_ok {reloc : ParsedRelocation} {base : Nat} {store : Option Store}
    {stubs stubs' : Option StubAllocator}
    (stored : checkedStore p reloc base hleSymbols writable stubs = .ok (store, stubs')) :
    relocationStore p reloc base hleSymbols stubs = .ok (store, stubs') ∧
      ∀ word, store = some word → SlotAllowed p writable word.addr := by
  obtain ⟨⟨store, stubs'⟩, computed, checked⟩ := Outcome.bind_eq_ok.mp stored
  obtain ⟨⟨⟩, passed, same⟩ := Outcome.bind_eq_ok.mp checked
  cases same
  refine ⟨computed, fun word same => ?_⟩
  rw [same] at passed
  exact Store.check_returns.mp ⟨_, passed⟩

theorem checkedStore_returns {job : Job} {stubs : Option StubAllocator} :
    (checkedStore p job.2 job.1.baseVirtualAddr hleSymbols writable stubs).Returns ↔
      job.Lands p writable := by
  constructor
  · rintro ⟨⟨store, stubs'⟩, stored⟩
    obtain ⟨computed, allowed⟩ := checkedStore_eq_ok stored
    obtain ⟨target, added, -⟩ := Outcome.bind_eq_ok.mp computed
    obtain ⟨fits, -⟩ := Profile.add_eq_ok_iff.mp added
    refine ⟨fits, fun known => ?_⟩
    obtain ⟨_, again, -⟩ := @relocationStore_of_fits p hleSymbols job fits stubs
    rw [computed] at again
    cases again
    obtain ⟨word, same⟩ := Option.isSome_iff_exists.mp (ParsedRelocation.storeAt_isSome.trans known)
    rw [Job.slot, ← ParsedRelocation.storeAt_addr same]
    exact allowed word same
  · intro lands
    obtain ⟨stubs', stored, -⟩ := @checkedStore_of_lands p hleSymbols writable job lands stubs
    exact ⟨_, stored⟩

theorem checkedStore_stops {job : Job} (stops : ¬ job.Lands p writable)
    (stubs : Option StubAllocator) :
    ∃ cause, checkedStore p job.2 job.1.baseVirtualAddr hleSymbols writable stubs =
      .panic cause := by
  cases stored : checkedStore p job.2 job.1.baseVirtualAddr hleSymbols writable stubs with
  | ok result => exact absurd (checkedStore_returns.mp ⟨result, stored⟩) stops
  | err e => exact e.elim
  | panic cause => exact ⟨cause, rfl⟩

theorem importAddr_shift {stubs stubs' : Option StubAllocator} {count : Nat}
    (slots : ∀ k, slotAddr stubs' k = slotAddr stubs (k + count)) (before : Nat)
    (symbolName : String) :
    importAddr hleSymbols stubs' before symbolName =
      importAddr hleSymbols stubs (before + count) symbolName := by
  unfold importAddr
  rw [slots]

theorem unresolved_cons_length (job : Job) (jobs : List Job) :
    (unresolved hleSymbols (job :: jobs)).length =
      (unresolved hleSymbols jobs).length + if job.2.isUnresolved hleSymbols then 1 else 0 := by
  unfold unresolved
  by_cases found : job.2.isUnresolved hleSymbols = true <;> simp [found]

theorem reached_cons_of_lands {job : Job} (lands : job.Lands p writable) (rest : List Job) :
    reached p writable (job :: rest) = job :: reached p writable rest :=
  List.takeWhile_cons_of_pos (decide_eq_true lands)

theorem reached_cons_of_stops {job : Job} (stops : ¬ job.Lands p writable) (rest : List Job) :
    reached p writable (job :: rest) = [] :=
  List.takeWhile_cons_of_neg (by simpa using stops)

theorem storesOf_getElem? (stubs : Option StubAllocator) (jobs : List Job) (i : Nat) :
    (storesOf p hleSymbols writable stubs jobs)[i]? = (reached p writable jobs)[i]?.map fun job =>
      job.2.storeAt job.1.baseVirtualAddr
        (importAddr hleSymbols stubs (unresolved hleSymbols (jobs.take i)).length
          job.2.symbolName) := by
  induction jobs generalizing stubs i with
  | nil => rfl
  | cons job rest ih =>
    unfold storesOf
    by_cases lands : job.Lands p writable
    · obtain ⟨stubs', stored, slots⟩ := checkedStore_of_lands lands stubs
      rw [stored, reached_cons_of_lands lands]
      cases i with
      | zero => rfl
      | succ i =>
        rw [List.getElem?_cons_succ, List.getElem?_cons_succ, List.take_succ_cons,
          unresolved_cons_length, ih stubs' i]
        simp only [importAddr_shift slots]
    · obtain ⟨cause, stored⟩ := checkedStore_stops lands stubs
      rw [stored, reached_cons_of_stops lands]
      rfl

theorem storesOf_length (stubs : Option StubAllocator) (jobs : List Job) :
    (storesOf p hleSymbols writable stubs jobs).length = (reached p writable jobs).length := by
  induction jobs generalizing stubs with
  | nil => rfl
  | cons job rest ih =>
    unfold storesOf
    by_cases lands : job.Lands p writable
    · obtain ⟨stubs', stored, -⟩ := checkedStore_of_lands lands stubs
      rw [stored, reached_cons_of_lands lands]
      exact congrArg (· + 1) (ih stubs')
    · obtain ⟨cause, stored⟩ := checkedStore_stops lands stubs
      rw [stored, reached_cons_of_stops lands]
      rfl

theorem relocateJobs_returns {jobs : List Job} (memory : Ram × Option StubAllocator) :
    (relocateJobs p hleSymbols writable jobs memory).Returns ↔
      ∀ job ∈ jobs, job.Lands p writable := by
  refine Outcome.foldlM_returns (fun memory job _ => ?_) memory
  refine Iff.trans ?_ (@checkedStore_returns p hleSymbols writable job memory.2)
  exact Outcome.returns_bind_of_forall fun _ => Outcome.returns_ok _

theorem reached_initial (jobs : List Job) : reached p writable jobs <+: jobs :=
  List.takeWhile_prefix _

theorem reached_getElem? {jobs : List Job} {i : Nat} {job : Job}
    (found : (reached p writable jobs)[i]? = some job) : jobs[i]? = some job := by
  obtain ⟨bound, -⟩ := List.getElem?_eq_some_iff.mp found
  obtain ⟨rest, split⟩ := @reached_initial p writable jobs
  rw [← split, List.getElem?_append_left bound, found]

end ClosedForm

namespace Linker

variable {p : Profile} {linker : Linker} {stubs : Option StubAllocator}

/-- The relocations that a run gets to. -/
def reached (p : Profile) (linker : Linker) : List Job :=
  AnotherPs4.reached p linker.guest.writable linker.worklist

theorem relocateAll_returns : (linker.relocateAll p stubs).Returns ↔
    ∀ job ∈ linker.worklist, job.Lands p linker.guest.writable := by
  refine Iff.trans ?_
    (@relocateJobs_returns p linker.hleSymbols linker.guest.writable _ (linker.guest.ram, stubs))
  rw [← relocateJobs_worklist]
  exact Outcome.returns_bind_of_forall fun _ => Outcome.returns_ok _

theorem reached_eq_of_returned {result : Linker × Option StubAllocator}
    (returned : linker.relocateAll p stubs = .ok result) : linker.reached p = linker.worklist := by
  have count := (relocateAll_eq_ok returned).2
  rw [stores, storesOf_length] at count
  exact (reached_initial linker.worklist).eq_of_length count

theorem stores_getElem? (stubs : Option StubAllocator) {i : Nat} {job : Job}
    (found : (linker.reached p)[i]? = some job) :
    (linker.stores p stubs)[i]? = some (job.2.storeAt job.1.baseVirtualAddr
      (importAddr linker.hleSymbols stubs
        (unresolved linker.hleSymbols (linker.worklist.take i)).length job.2.symbolName)) := by
  rw [stores, storesOf_getElem?, ← reached, found]
  rfl

end Linker

end AnotherPs4
