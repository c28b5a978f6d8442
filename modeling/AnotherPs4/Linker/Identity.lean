import AnotherPs4.Linker.Bounds

/-!
# One address for one name

A name that is not registered gets a new stub at each relocation, as long as
there are stubs. So a symbol has one address exactly if all such names occur
once and the stubs suffice.
-/

namespace AnotherPs4

open Rust Transition

section Positions

variable {α : Type} {keep : α → Bool}

theorem filter_getElem?_take {xs : List α} {i : Nat} {x : α} (found : xs[i]? = some x)
    (kept : keep x = true) : (xs.filter keep)[((xs.take i).filter keep).length]? = some x := by
  obtain ⟨bound, rfl⟩ := List.getElem?_eq_some_iff.mp found
  calc (xs.filter keep)[((xs.take i).filter keep).length]?
      = ((xs.take i).filter keep ++ (xs.drop i).filter keep)[((xs.take i).filter keep).length]? := by
        rw [← List.filter_append, List.take_append_drop]
    _ = ((xs.drop i).filter keep)[0]? := by
        rw [List.getElem?_append_right le_rfl, Nat.sub_self]
    _ = some xs[i] := by
        rw [List.drop_eq_getElem_cons bound, List.filter_cons_of_pos kept]
        rfl

theorem exists_of_filter_getElem? {xs : List α} {k : Nat} {x : α}
    (found : (xs.filter keep)[k]? = some x) :
    ∃ i, xs[i]? = some x ∧ keep x = true ∧ ((xs.take i).filter keep).length = k := by
  induction xs generalizing k with
  | nil => cases found
  | cons y ys ih =>
    by_cases kept : keep y = true
    · rw [List.filter_cons_of_pos kept] at found
      cases k with
      | zero =>
        cases found
        exact ⟨0, rfl, kept, rfl⟩
      | succ k =>
        obtain ⟨i, found, keptX, count⟩ := ih found
        exact ⟨i + 1, found, keptX, by simp [kept, count]⟩
    · rw [List.filter_cons_of_neg kept] at found
      obtain ⟨i, found, keptX, count⟩ := ih found
      exact ⟨i + 1, found, keptX, by simp [kept, count]⟩

end Positions

def SymbolResolver.Words (hleSymbols : SymbolResolver) : Prop :=
  ∀ name addr, hleSymbols.resolve name = some addr → addr < 2 ^ 64

def SymbolResolver.single (record : SymbolRecord) : SymbolResolver :=
  ⟨(∅ : Std.HashMap String SymbolRecord).insert record.name record⟩

theorem SymbolResolver.resolve_single (record : SymbolRecord) (name : String) :
    (single record).resolve name =
      if record.name = name then some record.virtualAddress else none := by
  unfold resolve single
  rw [Std.HashMap.getElem?_insert]
  by_cases same : record.name = name
  · rw [if_pos (beq_iff_eq.mpr same), if_pos same]
  · rw [if_neg (mt beq_iff_eq.mp same), if_neg same, Std.HashMap.getElem?_empty]
    have others : ((∅ : Std.HashMap String SymbolRecord).insert record.name record).toList.find?
        (fun entry => entry.2.name == name) = none := by
      refine List.find?_eq_none.mpr fun entry listed => ?_
      have stored := Std.HashMap.mem_toList_iff_getElem?_eq_some.mp listed
      rw [Std.HashMap.getElem?_insert, Std.HashMap.getElem?_empty] at stored
      split at stored
      · obtain rfl := Option.some.inj stored
        simpa using same
      · cases stored
    rw [others]
    rfl

section Addresses

variable {hleSymbols : SymbolResolver} {stubs : Option StubAllocator}
  (mapped : ∀ alloc, stubs = some alloc → alloc.Mapped)

theorem hleAddress_lt (words : hleSymbols.Words) {symbolName : String} {addr : Nat}
    (found : hleAddress hleSymbols symbolName = some addr) : addr < 2 ^ 64 := by
  unfold hleAddress at found
  rcases Option.or_eq_some_iff.mp found with found | ⟨-, found⟩
  · exact words _ _ found
  · exact words _ _ found

include mapped

theorem slotAddr_lt (k : Nat) : slotAddr stubs k < 2 ^ 64 := by
  cases stubs with
  | none => exact Nat.two_pow_pos 64
  | some alloc =>
    have bounded := (mapped alloc rfl).bounded
    unfold slotAddr maxStubs stubSize at *
    dsimp only
    split <;> omega

theorem slotAddr_ne_zero_iff {k : Nat} :
    slotAddr stubs k ≠ 0 ↔ ∃ alloc, stubs = some alloc ∧ alloc.used + k < maxStubs := by
  cases stubs with
  | none => simp [slotAddr]
  | some alloc =>
    have notNull := (mapped alloc rfl).notNull
    unfold slotAddr
    dsimp only
    constructor
    · intro nonzero
      refine ⟨alloc, rfl, ?_⟩
      by_contra full
      exact nonzero (if_neg full)
    · rintro ⟨_, ⟨⟩, room⟩
      rw [if_pos room]
      omega

theorem slotAddr_inj {k l : Nat} (nonzero : slotAddr stubs k ≠ 0)
    (same : slotAddr stubs k = slotAddr stubs l) : k = l := by
  obtain ⟨alloc, rfl, room⟩ := (slotAddr_ne_zero_iff mapped).mp nonzero
  obtain ⟨_, ⟨⟩, room'⟩ := (slotAddr_ne_zero_iff mapped).mp (same ▸ nonzero)
  unfold slotAddr stubSize at same
  dsimp only at same
  rw [if_pos room, if_pos room'] at same
  omega

theorem importAddr_lt (words : hleSymbols.Words) (before : Nat) (symbolName : String) :
    importAddr hleSymbols stubs before symbolName < 2 ^ 64 := by
  unfold importAddr
  split
  · exact Nat.two_pow_pos 64
  · cases found : hleAddress hleSymbols symbolName with
    | none => exact slotAddr_lt mapped before
    | some addr => exact hleAddress_lt words found

end Addresses

namespace Linker

/-- The relocation at position `i` stores the address of a symbol, plus its
addend. -/
def Binds (p : Profile) (linker : Linker) (stubs : Option StubAllocator) (i : Nat)
    (symbolName : String) (addr : Nat) : Prop :=
  ∃ (job : Job) (store : Store), linker.worklist[i]? = some job ∧ job.2.isSymbolic = true ∧
    job.2.symbolName = symbolName ∧ (linker.stores p stubs)[i]? = some (some store) ∧
    addr < 2 ^ 64 ∧ store.value = (addr + unsigned 64 job.2.addend) % 2 ^ 64

/-- Every name has one address, and that is not null. -/
def OneIdentity (p : Profile) (linker : Linker) (stubs : Option StubAllocator) : Prop :=
  ∀ i j symbolName a b, symbolName ≠ "" → linker.Binds p stubs i symbolName a →
    linker.Binds p stubs j symbolName b → a = b ∧ a ≠ 0

/-- No import is registered at null, and the other ones occur once and have
stubs. -/
structure DistinctImports (linker : Linker) (stubs : Option StubAllocator) : Prop where
  registered : ∀ job ∈ linker.worklist, job.2.isSymbolic = true → job.2.symbolName ≠ "" →
    hleAddress linker.hleSymbols job.2.symbolName ≠ some 0
  distinct : (unresolved linker.hleSymbols linker.worklist).Nodup
  room : unresolved linker.hleSymbols linker.worklist ≠ [] → ∃ alloc, stubs = some alloc ∧
    alloc.used + (unresolved linker.hleSymbols linker.worklist).length ≤ maxStubs

def stubsBefore (linker : Linker) (i : Nat) : Nat :=
  (unresolved linker.hleSymbols (linker.worklist.take i)).length

variable {p : Profile} {linker : Linker} {stubs : Option StubAllocator}

theorem storeAt_symbolic {job : Job} (symbolic : job.2.isSymbolic = true) (addr : Nat) :
    job.2.storeAt job.1.baseVirtualAddr addr =
      some ⟨(job.1.baseVirtualAddr + job.2.offset) % 2 ^ 64,
        (addr + unsigned 64 job.2.addend) % 2 ^ 64⟩ := by
  have notRelative : job.2.isRelative = false := by
    by_contra relative
    rw [not_symbolic_of_relative (by simpa using relative)] at symbolic
    cases symbolic
  simp [ParsedRelocation.storeAt, notRelative, symbolic]

theorem binds_iff (words : linker.hleSymbols.Words)
    (mapped : ∀ alloc, stubs = some alloc → alloc.Mapped)
    {result : Linker × Option StubAllocator} (returned : linker.relocateAll p stubs = .ok result)
    {i : Nat} {symbolName : String} {addr : Nat} :
    linker.Binds p stubs i symbolName addr ↔ ∃ job : Job, linker.worklist[i]? = some job ∧
      job.2.isSymbolic = true ∧ job.2.symbolName = symbolName ∧
      addr = importAddr linker.hleSymbols stubs (linker.stubsBefore i) symbolName := by
  have small := importAddr_lt mapped words (linker.stubsBefore i) symbolName
  constructor
  · rintro ⟨job, store, found, symbolic, rfl, stored, word, value⟩
    refine ⟨job, found, symbolic, rfl, ?_⟩
    have computed := stores_getElem? stubs
      ((reached_eq_of_returned returned).symm ▸ found)
    rw [storeAt_symbolic symbolic, stored] at computed
    cases computed
    unfold stubsBefore at small ⊢
    dsimp only at value
    omega
  · rintro ⟨job, found, symbolic, rfl, rfl⟩
    have computed := stores_getElem? stubs
      ((reached_eq_of_returned returned).symm ▸ found)
    rw [storeAt_symbolic symbolic] at computed
    exact ⟨job, _, found, symbolic, rfl, computed, small, rfl⟩

section Unresolved

variable {hleSymbols : SymbolResolver} {jobs : List Job}

theorem ParsedRelocation.isUnresolved_iff {reloc : ParsedRelocation} :
    reloc.isUnresolved hleSymbols = true ↔ reloc.isSymbolic = true ∧ reloc.symbolName ≠ "" ∧
      hleAddress hleSymbols reloc.symbolName = none := by
  simp [ParsedRelocation.isUnresolved, and_assoc]

/-- An import without a registered address is in the list of these, where as
many come before it as stubs were handed out. -/
theorem unresolved_getElem? {i : Nat} {job : Job} (found : jobs[i]? = some job)
    (kept : job.2.isUnresolved hleSymbols = true) :
    (unresolved hleSymbols jobs)[(unresolved hleSymbols (jobs.take i)).length]? =
      some job.2.symbolName := by
  unfold unresolved
  rw [List.length_map, List.getElem?_map, filter_getElem?_take found kept]
  rfl

theorem exists_of_unresolved_getElem? {k : Nat} {symbolName : String}
    (found : (unresolved hleSymbols jobs)[k]? = some symbolName) :
    ∃ i job, jobs[i]? = some job ∧ job.2.isUnresolved hleSymbols = true ∧
      job.2.symbolName = symbolName ∧ (unresolved hleSymbols (jobs.take i)).length = k := by
  unfold unresolved at found ⊢
  rw [List.getElem?_map, Option.map_eq_some_iff] at found
  obtain ⟨job, found, name⟩ := found
  obtain ⟨i, listed, kept, count⟩ := exists_of_filter_getElem? found
  exact ⟨i, job, listed, kept, name, by rw [List.length_map, count]⟩

end Unresolved

theorem importAddr_of_some {symbolName : String} {addr before : Nat} (named : symbolName ≠ "")
    (found : hleAddress linker.hleSymbols symbolName = some addr) :
    importAddr linker.hleSymbols stubs before symbolName = addr := by
  simp [importAddr, named, found]

theorem importAddr_of_none {symbolName : String} {before : Nat} (named : symbolName ≠ "")
    (missing : hleAddress linker.hleSymbols symbolName = none) :
    importAddr linker.hleSymbols stubs before symbolName = slotAddr stubs before := by
  simp [importAddr, named, missing]

section Relocated

variable (words : linker.hleSymbols.Words) (mapped : ∀ alloc, stubs = some alloc → alloc.Mapped)
  {result : Linker × Option StubAllocator} (returned : linker.relocateAll p stubs = .ok result)

include words mapped returned

theorem binds_listed {i : Nat} {job : Job} (found : linker.worklist[i]? = some job)
    (symbolic : job.2.isSymbolic = true) : linker.Binds p stubs i job.2.symbolName
      (importAddr linker.hleSymbols stubs (linker.stubsBefore i) job.2.symbolName) :=
  (binds_iff words mapped returned).mpr ⟨job, found, symbolic, rfl, rfl⟩

/-- The name at each place of the list of unregistered names is bound to the stub
of that place. -/
theorem binds_slot {k : Nat} {symbolName : String}
    (found : (unresolved linker.hleSymbols linker.worklist)[k]? = some symbolName) :
    ∃ i, symbolName ≠ "" ∧ linker.Binds p stubs i symbolName (slotAddr stubs k) := by
  obtain ⟨i, job, listed, kept, rfl, rfl⟩ := exists_of_unresolved_getElem? found
  obtain ⟨symbolic, named, missing⟩ := ParsedRelocation.isUnresolved_iff.mp kept
  refine ⟨i, named, ?_⟩
  rw [← importAddr_of_none named missing]
  exact binds_listed words mapped returned listed symbolic

theorem OneIdentity.distinctImports (one : linker.OneIdentity p stubs) :
    linker.DistinctImports stubs := by
  refine ⟨?_, ?_, ?_⟩
  · intro job member symbolic named null
    obtain ⟨i, found⟩ := List.mem_iff_getElem?.mp member
    have bound := binds_listed words mapped returned found symbolic
    rw [importAddr_of_some named null] at bound
    exact (one i i _ 0 0 named bound bound).2 rfl
  · rw [List.nodup_iff_getElem?_ne_getElem?]
    intro k l before bound same
    obtain ⟨symbolName, found⟩ : ∃ symbolName,
        (unresolved linker.hleSymbols linker.worklist)[l]? = some symbolName :=
      ⟨_, List.getElem?_eq_getElem bound⟩
    obtain ⟨i, named, first⟩ := binds_slot words mapped returned (same.trans found)
    obtain ⟨j, -, second⟩ := binds_slot words mapped returned found
    obtain ⟨address, nonzero⟩ := one i j symbolName _ _ named first second
    exact absurd (slotAddr_inj mapped nonzero address) (by omega)
  · intro some_
    obtain ⟨last, found⟩ : ∃ last, (unresolved linker.hleSymbols linker.worklist)[
        (unresolved linker.hleSymbols linker.worklist).length - 1]? = some last :=
      ⟨_, List.getElem?_eq_getElem (Nat.sub_lt (List.length_pos_iff.mpr some_) one_pos)⟩
    obtain ⟨i, named, bound⟩ := binds_slot words mapped returned found
    obtain ⟨alloc, same, room⟩ :=
      (slotAddr_ne_zero_iff mapped).mp (one i i last _ _ named bound bound).2
    exact ⟨alloc, same, by omega⟩

theorem DistinctImports.oneIdentity (imports : linker.DistinctImports stubs) :
    linker.OneIdentity p stubs := by
  intro i j symbolName a b named first second
  obtain ⟨job, found, symbolic, rfl, rfl⟩ := (binds_iff words mapped returned).mp first
  obtain ⟨job', found', symbolic', name', rfl⟩ := (binds_iff words mapped returned).mp second
  cases address : hleAddress linker.hleSymbols job.2.symbolName with
  | some addr =>
    rw [importAddr_of_some named address, importAddr_of_some named address]
    refine ⟨rfl, fun null => ?_⟩
    exact imports.registered job (List.mem_of_getElem? found) symbolic named (null ▸ address)
  | none =>
    rw [importAddr_of_none named address, importAddr_of_none named address]
    have kept := ParsedRelocation.isUnresolved_iff.mpr ⟨symbolic, named, address⟩
    have kept' : job'.2.isUnresolved linker.hleSymbols = true :=
      ParsedRelocation.isUnresolved_iff.mpr ⟨symbolic', name' ▸ named, name' ▸ address⟩
    have position := unresolved_getElem? found kept
    have position' := name' ▸ unresolved_getElem? found' kept'
    obtain ⟨bound, -⟩ := List.getElem?_eq_some_iff.mp position
    -- the name occurs once, so both relocations are at its place
    have same : linker.stubsBefore i = linker.stubsBefore j :=
      (List.getElem?_inj bound imports.distinct).mp (position.trans position'.symm)
    rw [same]
    refine ⟨rfl, (slotAddr_ne_zero_iff mapped).mpr ?_⟩
    obtain ⟨alloc, present, enough⟩ :=
      imports.room (List.ne_nil_of_mem (List.mem_of_getElem? position))
    unfold stubsBefore at same ⊢
    exact ⟨alloc, present, by omega⟩

end Relocated

/-- After `relocate_all` every imported name has one address, which is not null,
exactly if no name is registered at null, the names that are not registered
occur once each, and there are stubs for them. -/
theorem oneIdentity_iff (p : Profile) {linker : Linker} {stubs : Option StubAllocator}
    (words : linker.hleSymbols.Words) (mapped : ∀ alloc, stubs = some alloc → alloc.Mapped)
    {result : Linker × Option StubAllocator} (returned : linker.relocateAll p stubs = .ok result) :
    linker.OneIdentity p stubs ↔ linker.DistinctImports stubs :=
  ⟨OneIdentity.distinctImports words mapped returned,
    DistinctImports.oneIdentity words mapped returned⟩

def importImage (slots : List (Nat × Nat)) : List UInt8 :=
  symbolImage [0x90, 0xC3] (symbolBytes 0 0 0 ++ symbolBytes 1 0 0 ++ symbolBytes 3 0 0)
    (nameBytes ["f", "g"])
    (slots.flatMap fun slot => relocationBytes slot.1 slot.2 rX86_64JumpSlot 0)

theorem SymbolResolver.resolve_new (name : String) : SymbolResolver.new.resolve name = none := by
  simp [SymbolResolver.resolve, SymbolResolver.new]

theorem SymbolResolver.new_words : SymbolResolver.new.Words := by
  intro name addr found
  rw [resolve_new] at found
  cases found

theorem hleAddress_new (symbolName : String) : hleAddress .new symbolName = none := by
  rw [hleAddress, SymbolResolver.resolve_new, SymbolResolver.resolve_new, Option.or_none]

def freshStubs : StubAllocator := ⟨0x7f1000000000, 0, []⟩

theorem freshStubs_mapped : ∀ alloc, some freshStubs = some alloc → alloc.Mapped := by
  rintro _ ⟨⟩
  exact ⟨by decide, by decide⟩

/-- Facts of the linker after it loaded an image are facts of a run. -/
theorem exists_run_of_afterLoad {α : Type} {sys : Sys} {hleSymbols : SymbolResolver}
    {facts : Linker → α} {found : α}
    (evaluated : (afterLoad .dev sys (.new "libc.prx") hleSymbols).map facts = some found) :
    ∃ calls linker, Trace (LoadCall .dev sys) (registered .booted hleSymbols) calls linker ∧
      linker.hleSymbols = hleSymbols ∧ facts linker = found := by
  obtain ⟨linker, loaded, same⟩ := Option.map_eq_some_iff.mp evaluated
  obtain ⟨calls, run⟩ := afterLoad_eq_some loaded
  exact ⟨calls, linker, run, run.constant (·.hleSymbols) LoadCall.hleSymbols_eq, same⟩

theorem exists_run_importImage {hleSymbols : SymbolResolver} {slots : List (Nat × Nat)}
    {names : List String}
    (evaluated : (afterLoad .dev (.single (importImage slots)) (.new "libc.prx") hleSymbols).map
      (fun linker => (linker.worklist.all (·.Lands .dev linker.guest.writable),
        linker.worklist.map fun job => (job.2.isSymbolic, job.2.symbolName))) =
      some (true, names.map (true, ·))) :
    ∃ calls linker result, Trace (LoadCall .dev (.single (importImage slots)))
        (registered .booted hleSymbols) calls linker ∧ linker.hleSymbols = hleSymbols ∧
      linker.relocateAll .dev (some freshStubs) = .ok result ∧
      linker.worklist.map (fun job => (job.2.isSymbolic, job.2.symbolName)) =
        names.map (true, ·) := by
  obtain ⟨calls, linker, run, hle, same⟩ := exists_run_of_afterLoad evaluated
  obtain ⟨lands, jobs⟩ := Prod.mk.inj same
  have lands : ∀ job ∈ linker.worklist, job.Lands .dev linker.guest.writable := by
    simpa using lands
  obtain ⟨result, returned⟩ : (linker.relocateAll .dev (some freshStubs)).Returns :=
    relocateAll_returns.mpr lands
  exact ⟨calls, linker, result, run, hle, returned, jobs⟩

def gSymbols : SymbolResolver := .single ⟨"g", 0x5000⟩

theorem gSymbols_words : gSymbols.Words := by
  intro name addr found
  rw [gSymbols, SymbolResolver.resolve_single] at found
  split at found
  · cases found
    decide
  · cases found

theorem oneIdentity_iff_three_slots :
    ∃ calls linker result,
      Trace (LoadCall .dev (.single (importImage [(0, 1), (8, 2), (16, 2)])))
        (registered .booted gSymbols) calls linker ∧
      linker.relocateAll .dev (some freshStubs) = .ok result ∧
      linker.worklist.map (·.2.symbolName) = ["f", "g", "g"] ∧
      linker.OneIdentity .dev (some freshStubs) := by
  obtain ⟨calls, linker, result, run, hle, returned, jobs⟩ :=
    @exists_run_importImage gSymbols [(0, 1), (8, 2), (16, 2)] ["f", "g", "g"] (by decide +kernel)
  obtain ⟨f, rest, listed, first, jobs⟩ := List.map_eq_cons_iff.mp jobs
  obtain ⟨g, rest, rfl, second, jobs⟩ := List.map_eq_cons_iff.mp jobs
  obtain ⟨g', rest, rfl, third, jobs⟩ := List.map_eq_cons_iff.mp jobs
  obtain rfl := List.map_eq_nil_iff.mp jobs
  obtain ⟨symbolic, first⟩ := Prod.mk.inj first
  obtain ⟨-, second⟩ := Prod.mk.inj second
  obtain ⟨-, third⟩ := Prod.mk.inj third
  have address (name : String) (plain : baseName name = name) :
      hleAddress linker.hleSymbols name = if "g" = name then some 0x5000 else none := by
    rw [hle, hleAddress, plain, Option.or_self]
    exact SymbolResolver.resolve_single _ _
  have isF : hleAddress linker.hleSymbols "f" = none := address "f" (by decide)
  have isG : hleAddress linker.hleSymbols "g" = some 0x5000 := address "g" (by decide)
  have imports : unresolved linker.hleSymbols linker.worklist = ["f"] := by
    simp [unresolved, listed, ParsedRelocation.isUnresolved, symbolic, first,
      second, third, isF, isG]
  refine ⟨calls, linker, result, run, returned, by simp [listed, first, second, third],
    (oneIdentity_iff .dev (hle ▸ gSymbols_words) freshStubs_mapped returned).mpr ?_⟩
  refine ⟨?_, imports ▸ List.nodup_singleton _, fun _ => ⟨freshStubs, rfl, ?_⟩⟩
  · rw [listed]
    simp [first, second, third, isF, isG]
  · rw [imports]
    decide

/-- Two slots that import the same function get the addresses of two stubs. -/
theorem oneIdentity_fails_two_slots :
    ∃ calls linker result, Trace (LoadCall .dev (.single (importImage [(0, 1), (8, 1)])))
        (registered .booted .new) calls linker ∧
      linker.relocateAll .dev (some freshStubs) = .ok result ∧
      linker.Binds .dev (some freshStubs) 0 "f" 0x7f1000000000 ∧
      linker.Binds .dev (some freshStubs) 1 "f" 0x7f1000000010 ∧
      ¬ linker.OneIdentity .dev (some freshStubs) := by
  obtain ⟨calls, linker, result, run, hle, returned, jobs⟩ :=
    @exists_run_importImage .new [(0, 1), (8, 1)] ["f", "f"] (by decide +kernel)
  obtain ⟨job, job', symbolic, symbolic', listed⟩ : ∃ job job' : Job,
      (job.2.isSymbolic = true ∧ job.2.symbolName = "f") ∧
      (job'.2.isSymbolic = true ∧ job'.2.symbolName = "f") ∧ linker.worklist = [job, job'] := by
    obtain ⟨job, rest, listed, first, jobs⟩ := List.map_eq_cons_iff.mp jobs
    obtain ⟨job', rest', rfl, second, jobs⟩ := List.map_eq_cons_iff.mp jobs
    obtain rfl := List.map_eq_nil_iff.mp jobs
    exact ⟨job, job', Prod.mk.inj first, Prod.mk.inj second, listed⟩
  have binds {i : Nat} {other : Job} (found : linker.worklist[i]? = some other)
      (symbol : other.2.isSymbolic = true ∧ other.2.symbolName = "f") :=
    (binds_iff (hle ▸ SymbolResolver.new_words) freshStubs_mapped returned).mpr
      ⟨other, found, symbol.1, symbol.2, rfl⟩
  have missing : hleAddress linker.hleSymbols "f" = none := hle ▸ hleAddress_new _
  have first := binds (i := 0) (by rw [listed]; rfl) symbolic
  have second := binds (i := 1) (by rw [listed]; rfl) symbolic'
  have earlier : linker.stubsBefore 1 = 1 := by
    simp [stubsBefore, unresolved, listed, ParsedRelocation.isUnresolved, symbolic, missing]
  have none : linker.stubsBefore 0 = 0 := rfl
  rw [importAddr_of_none (by decide) missing, none] at first
  rw [importAddr_of_none (by decide) missing, earlier] at second
  exact ⟨calls, linker, result, run, returned, first, second, fun one =>
    absurd (one 0 1 "f" _ _ (by decide) first second).1 (by decide)⟩

end Linker

end AnotherPs4
