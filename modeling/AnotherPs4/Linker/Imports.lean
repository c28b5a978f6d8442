import AnotherPs4.Hle.Libraries
import AnotherPs4.Linker.Identity
import AnotherPs4.Linker.TlsIndices

/-!
# Imports

Registration and relocation hand out stubs from the same allocator. So the
address in the slot of an import leads back to the name of its function.
-/

namespace AnotherPs4

open Rust Transition

/-- What the stub of an import that is not registered is called. -/
def stubName (symbolName : String) : String :=
  (lookupKnownNid (baseName symbolName)).getD symbolName

def importCalls (hleSymbols : SymbolResolver) (stubs : Option StubAllocator) (jobs : List Job) :
    List (String × Nat) :=
  (unresolved hleSymbols jobs).mapIdx fun k symbolName => (stubName symbolName, slotAddr stubs k)

section Calls

variable {p : Profile} {hleSymbols : SymbolResolver} {stubs stubs' : Option StubAllocator}

theorem unresolved_cons (job : Job) (jobs : List Job) :
    unresolved hleSymbols (job :: jobs) =
      unresolved hleSymbols [job] ++ unresolved hleSymbols jobs := by
  unfold unresolved
  rw [← List.map_append, ← List.filter_append, List.singleton_append]

theorem unresolved_singleton (job : Job) : unresolved hleSymbols [job] =
    if job.2.isUnresolved hleSymbols = true then [job.2.symbolName] else [] := by
  split
  · next kept => simp [unresolved, kept]
  · next skipped => simp [unresolved, skipped]

theorem importCalls_cons {job : Job} {jobs : List Job}
    (slots : ∀ k, slotAddr stubs' k = slotAddr stubs (k + (unresolved hleSymbols [job]).length)) :
    importCalls hleSymbols stubs (job :: jobs) =
      importCalls hleSymbols stubs [job] ++ importCalls hleSymbols stubs' jobs := by
  unfold importCalls
  simp only [unresolved_cons job jobs, List.mapIdx_append, slots]

theorem resolveSymbol_calls (symbolName : String) :
    Trace StubCall stubs
      (if symbolName ≠ "" ∧ hleAddress hleSymbols symbolName = none then
        [(stubName symbolName, slotAddr stubs 0)] else [])
      (resolveSymbol symbolName hleSymbols stubs).2 := by
  by_cases unnamed : symbolName = ""
  · rw [if_neg (fun both : symbolName ≠ "" ∧ _ => both.1 unnamed), resolveSymbol,
      if_pos (by rw [unnamed]; rfl)]
    exact .nil
  · have named : ¬ symbolName.isEmpty = true := by simpa using unnamed
    rw [resolveSymbol, if_neg named]
    unfold hleAddress
    cases first : hleSymbols.resolve (baseName symbolName) with
    | some addr =>
      rw [if_neg (by simp)]
      exact .nil
    | none =>
      cases second : hleSymbols.resolve symbolName with
      | some addr =>
        rw [if_neg (by simp)]
        exact .nil
      | none =>
        rw [if_pos ⟨unnamed, rfl⟩]
        have taken : StubCall stubs (stubName symbolName, slotAddr stubs 0)
            (allocateStub stubs (stubName symbolName)).2 := by
          unfold StubCall
          rw [← (allocateStub_spec stubs (stubName symbolName)).1]
        exact Trace.snoc .nil taken

theorem relocationStore_stubs {reloc : ParsedRelocation} {base : Nat} {store : Option Store}
    (stored : relocationStore p reloc base hleSymbols stubs = .ok (store, stubs')) :
    stubs' =
      if reloc.isSymbolic then (resolveSymbol reloc.symbolName hleSymbols stubs).2 else stubs := by
  obtain ⟨targetAddr, -, rest⟩ := Outcome.bind_eq_ok.mp stored
  dsimp only at rest
  split at rest
  · next relative =>
    cases rest
    rw [not_symbolic_of_relative relative]
    rfl
  · split at rest
    · next symbolic =>
      cases rest
      exact (if_pos symbolic).symm
    · next other =>
      rw [if_neg other]
      split at rest <;> cases rest <;> rfl

theorem applyRelocation_calls {job : Job} {writable : Nat → Bool} {ram ram' : Ram}
    (applied : applyRelocation p job.2 job.1.baseVirtualAddr hleSymbols writable ram stubs =
      .ok (ram', stubs')) :
    Trace StubCall stubs (importCalls hleSymbols stubs [job]) stubs' ∧
      ∀ k, slotAddr stubs' k = slotAddr stubs (k + (unresolved hleSymbols [job]).length) := by
  obtain ⟨⟨store, rest⟩, stored, same⟩ := Outcome.bind_eq_ok.mp applied
  cases same
  have lands := checkedStore_returns.mp ⟨_, stored⟩
  obtain ⟨stubs₁, computed, slots⟩ := @checkedStore_of_lands p hleSymbols writable job lands stubs
  obtain rfl : stubs₁ = stubs' := by
    cases computed.symm.trans stored
    rfl
  rw [relocationStore_stubs (checkedStore_eq_ok stored).1] at slots ⊢
  have call := @resolveSymbol_calls hleSymbols stubs job.2.symbolName
  unfold importCalls
  rw [unresolved_singleton]
  by_cases kept : job.2.isUnresolved hleSymbols = true
  · obtain ⟨symbolic, named⟩ := Linker.ParsedRelocation.isUnresolved_iff.mp kept
    rw [if_pos named] at call
    rw [if_pos symbolic] at slots ⊢
    rw [if_pos kept] at slots ⊢
    exact ⟨call, slots⟩
  · rw [if_neg kept] at slots ⊢
    refine ⟨?_, slots⟩
    split
    · next symbolic =>
      rw [if_neg fun named => kept (Linker.ParsedRelocation.isUnresolved_iff.mpr ⟨symbolic, named⟩)]
        at call
      exact call
    · exact .nil

/-- Relocation calls the stub allocator once for each import that is not registered. -/
theorem relocateJobs_calls {writable : Nat → Bool} {jobs : List Job}
    {memory memory' : Ram × Option StubAllocator}
    (returned : relocateJobs p hleSymbols writable jobs memory = .ok memory') :
    Trace StubCall memory.2 (importCalls hleSymbols memory.2 jobs) memory'.2 := by
  induction jobs generalizing memory with
  | nil =>
    cases returned
    exact .nil
  | cons job rest inductionHypothesis =>
    rw [relocateJobs, List.foldlM_cons] at returned
    obtain ⟨middle, applied, later⟩ := Outcome.bind_eq_ok.mp returned
    obtain ⟨call, slots⟩ := applyRelocation_calls applied
    rw [importCalls_cons slots]
    apply call.append
    exact inductionHypothesis later

end Calls

def LeadsTo (stubs : Option StubAllocator) (addr : Nat) (name : String) : Prop :=
  isStub stubs addr = true ∧ ∃ idx, getStubIndex stubs addr = some idx ∧ getStubName stubs idx = name

theorem StubsIdentify.leadsTo {calls : List (String × Nat)} {stubs : Option StubAllocator}
    (identify : StubsIdentify calls stubs) {idx : Nat} {call : String × Nat}
    (found : calls[idx]? = some call) (nonzero : call.2 ≠ 0) : LeadsTo stubs call.2 call.1 := by
  have early : idx < maxStubs := by
    by_contra late
    exact nonzero (identify.beyond idx (Nat.le_of_not_lt late) call found)
  exact identify.identified idx early call found 0 (by decide)

theorem StubsIdentify.word {calls : List (String × Nat)} {stubs : Option StubAllocator}
    (identify : StubsIdentify calls stubs) {idx : Nat} {call : String × Nat}
    (found : calls[idx]? = some call) : call.2 < 2 ^ 64 := by
  rcases Nat.lt_or_ge idx maxStubs with early | late
  · have room := (identify.words idx early call found).2
    unfold stubSize at room
    omega
  · rw [identify.beyond idx late call found]
    exact Nat.two_pow_pos 64

/-- The name that the handler calls for an import. -/
def exportName (functions : List String) (symbolName : String) : String :=
  if baseName symbolName ∈ functions then baseName symbolName
  else if symbolName ∈ functions then symbolName
  else stubName symbolName

section Names

variable {base : Nat} {functions : List String} {registry : Registry}
  {calls : List (String × Nat)}

theorem Registry.After.of_resolve (after : registry.After base functions calls) {name : String}
    {addr : Nat} (found : registry.1.resolve name = some addr) :
    name ∈ functions ∧ ∃ idx : Nat, calls[idx]? = some (name, addr) := by
  rw [after.files.resolve] at found
  obtain ⟨before, rest, listed, -⟩ := List.lookup_eq_some_iff.mp found
  have member : (name, addr) ∈ calls := by
    rw [listed]
    exact List.mem_append_right _ List.mem_cons_self
  rw [← after.names]
  exact ⟨List.mem_map_of_mem member, List.mem_iff_getElem?.mp member⟩

theorem Registry.After.of_resolve_none (after : registry.After base functions calls)
    {name : String} (missing : registry.1.resolve name = none) : name ∉ functions := by
  rw [after.files.resolve] at missing
  rw [← after.names]
  intro member
  obtain ⟨call, listed, rfl⟩ := List.mem_map.mp member
  exact bne_iff_ne.mp (List.lookup_eq_none_iff.mp missing call listed) rfl

theorem Registry.After.import_called (after : registry.After base functions calls)
    {jobs : List Job} {i : Nat} {job : Job} (found : jobs[i]? = some job)
    (symbolic : job.2.isSymbolic = true) (named : job.2.symbolName ≠ "") :
    ∃ idx : Nat, (calls ++ importCalls registry.1 registry.2 jobs)[idx]? =
      some (exportName functions job.2.symbolName, importAddr registry.1 registry.2
        (unresolved registry.1 (jobs.take i)).length job.2.symbolName) := by
  have registered : ∀ {name addr}, registry.1.resolve name = some addr →
      hleAddress registry.1 job.2.symbolName = some addr →
      exportName functions job.2.symbolName = name → ∃ idx : Nat,
        (calls ++ importCalls registry.1 registry.2 jobs)[idx]? =
          some (exportName functions job.2.symbolName, importAddr registry.1 registry.2
            (unresolved registry.1 (jobs.take i)).length job.2.symbolName) := by
    intro name addr resolved address same
    obtain ⟨-, idx, listed⟩ := after.of_resolve resolved
    obtain ⟨inside, -⟩ := List.getElem?_eq_some_iff.mp listed
    refine ⟨idx, ?_⟩
    rw [List.getElem?_append_left inside, listed, same, importAddr,
      if_neg (by simpa using named), address]
    rfl
  cases first : registry.1.resolve (baseName job.2.symbolName) with
  | some addr =>
    apply registered first
    · rw [hleAddress, first]
      rfl
    · exact if_pos (after.of_resolve first).1
  | none =>
    have notBase := after.of_resolve_none first
    cases second : registry.1.resolve job.2.symbolName with
    | some addr =>
      apply registered second
      · rw [hleAddress, first, second]
        rfl
      · rw [exportName, if_neg notBase]
        exact if_pos (after.of_resolve second).1
    | none =>
      have missing : hleAddress registry.1 job.2.symbolName = none := by
        rw [hleAddress, first, second]
        rfl
      have kept := Linker.ParsedRelocation.isUnresolved_iff.mpr ⟨symbolic, named, missing⟩
      have position := Linker.unresolved_getElem? found kept
      refine ⟨calls.length + (unresolved registry.1 (jobs.take i)).length, ?_⟩
      rw [List.getElem?_append_right (Nat.le_add_right _ _), Nat.add_sub_cancel_left, importCalls,
        List.getElem?_mapIdx, position, exportName, if_neg notBase,
        if_neg (after.of_resolve_none second), importAddr, if_neg (by simpa using named), missing]
      rfl

end Names

namespace Linker

variable {p : Profile} {linker : Linker} {stubs : Option StubAllocator}
  {result : Linker × Option StubAllocator}

theorem relocateAll_calls (returned : linker.relocateAll p stubs = .ok result) :
    Trace StubCall stubs (importCalls linker.hleSymbols stubs linker.worklist) result.2 := by
  obtain ⟨memory, run, same⟩ := Outcome.bind_eq_ok.mp returned
  cases same
  rw [relocateJobs_worklist] at run
  exact relocateJobs_calls run

/-- The slot of an import holds the address of its function, unless it is stored
to again. -/
theorem importSlot_holds (returned : linker.relocateAll p stubs = .ok result) {i : Nat} {job : Job}
    (found : linker.worklist[i]? = some job) (symbolic : job.2.isSymbolic = true)
    (last : linker.WritesLast i job) : result.1.guest.ram.HoldsWord job.slot
      ((importAddr linker.hleSymbols stubs (linker.stubsBefore i) job.2.symbolName +
        unsigned 64 job.2.addend) % 2 ^ 64) := by
  have ram : result.1.guest.ram = linker.guest.ram.storeAll (linker.stores p stubs) := by
    rw [(relocateAll_eq_ok returned).1]
  have stored := stores_getElem? stubs ((reached_eq_of_returned returned).symm ▸ found)
  rw [storeAt_symbolic symbolic] at stored
  rw [ram]
  apply Ram.storeAll_last _ stored
  · intro j other after listed
    obtain ⟨job', found', known, addr⟩ := stores_eq_some listed
    rw [addr]
    exact last j job' after found' known
  · intro store member
    obtain ⟨j, listed⟩ := List.mem_iff_getElem?.mp member
    obtain ⟨other, -, -, addr⟩ := stores_eq_some listed
    exact addr ▸ other.slot_lt

/-- The address of an import leads to the name of its function. -/
theorem import_leadsTo {base : Nat} (mapped : (StubAllocator.new base).Mapped)
    {functions : List String} {registry : Registry} {calls : List (String × Nat)}
    (after : registry.After base functions calls) (hle : linker.hleSymbols = registry.1)
    (returned : linker.relocateAll p registry.2 = .ok result) {i : Nat} {job : Job}
    (found : linker.worklist[i]? = some job) (symbolic : job.2.isSymbolic = true)
    (named : job.2.symbolName ≠ "") {addr : Nat}
    (bound : importAddr linker.hleSymbols registry.2 (linker.stubsBefore i) job.2.symbolName =
      addr) :
    addr < 2 ^ 64 ∧ (addr ≠ 0 → LeadsTo result.2 addr (exportName functions job.2.symbolName)) := by
  have run := after.run.append (relocateAll_calls returned)
  unfold stubsBefore at bound
  rw [hle] at run bound
  obtain ⟨idx, listed⟩ := after.import_called found symbolic named
  rw [bound] at listed
  have identify := stubsIdentify mapped run
  exact ⟨identify.word listed, identify.leadsTo listed⟩

end Linker

end AnotherPs4
