import AnotherPs4.Hle.StubRuns
import AnotherPs4.Loader.Symbols

/-!
# Libraries

Before anything is loaded, every emulated library registers its functions. Each
gets a stub, and its name serves as its NID.
-/

namespace AnotherPs4

open Transition

def libkernel : List String :=
  ["sceKernelAllocateDirectMemory", "sceKernelMapDirectMemory", "sceKernelMapFlexibleMemory",
   "sceKernelMunmap", "sceKernelMprotect", "sceKernelQueryMemoryProtection",
   "sceKernelGetDirectMemorySize", "sceKernelAvailableDirectMemorySize", "sceKernelVirtualQuery",
   "sceKernelReserveVirtualRange", "sceKernelMapNamedFlexibleMemory",
   "sceKernelMapNamedDirectMemory", "scePthreadCreate", "scePthreadJoin", "scePthreadDetach",
   "scePthreadSelf", "scePthreadExit", "scePthreadSetaffinity", "scePthreadGetaffinity",
   "scePthreadSetprio", "scePthreadAttrInit", "scePthreadAttrDestroy", "scePthreadAttrSetstacksize",
   "scePthreadAttrSetdetachstate", "scePthreadRename", "scePthreadMutexInit",
   "scePthreadMutexDestroy", "scePthreadMutexLock", "scePthreadMutexUnlock",
   "scePthreadMutexTrylock", "scePthreadCondInit", "scePthreadCondDestroy", "scePthreadCondSignal",
   "scePthreadCondBroadcast", "scePthreadCondWait", "scePthreadCondTimedwait",
   "scePthreadRwlockInit", "scePthreadRwlockDestroy", "scePthreadRwlockRdlock",
   "scePthreadRwlockWrlock", "scePthreadRwlockUnlock", "sceKernelCreateSema", "sceKernelDeleteSema",
   "sceKernelWaitSema", "sceKernelSignalSema", "sceKernelCreateEqueue", "sceKernelDeleteEqueue",
   "sceKernelAddUserEvent", "sceKernelAddReadEvent", "sceKernelWaitEqueue",
   "sceKernelTriggerUserEvent", "sceKernelGetTscFrequency", "sceKernelGetProcessTime",
   "sceKernelGetProcessTimeCounter", "sceKernelGetProcessTimeCounterFrequency",
   "sceKernelClockGettime", "sceKernelGettimeofday", "sceKernelUsleep", "sceKernelSleep",
   "sceKernelNanosleep", "sceKernelOpen", "sceKernelClose", "sceKernelRead", "sceKernelWrite",
   "sceKernelLseek", "sceKernelStat", "sceKernelFstat", "sceKernelMkdir", "sceKernelGetdents",
   "sceKernelCheckReachability", "sceKernelGetCurrentCpu", "sceKernelGetProcessParam",
   "sceKernelGetCompiledSdkVersion", "sceKernelGetCpuFrequency", "sceKernelGetCpuMode",
   "sceKernelIsNeoMode", "sceKernelLoadStartModule", "sceKernelDlsym", "sceKernelGetModuleList",
   "sceKernelGetModuleInfo", "sceKernelGetModuleInfoByName", "sceKernelDebugOutText",
   "sceKernelDebugRaiseException", "pthread_create", "pthread_join", "pthread_mutex_init",
   "pthread_mutex_lock", "pthread_mutex_unlock", "pthread_mutex_destroy", "pthread_cond_init",
   "pthread_cond_signal", "pthread_cond_wait", "pthread_cond_destroy", "pthread_self", "malloc",
   "free", "calloc", "realloc", "memalign", "memcpy", "memset", "memmove", "strlen"]

def hleLibraries : List (String × List String) := [("libkernel", libkernel)]

def SymbolResolver.addSymbol (resolver : SymbolResolver) (nid : String) (record : SymbolRecord) :
    SymbolResolver :=
  ⟨resolver.symbols.insert nid record⟩

/-- The symbols and the stubs, which the registration fills together. -/
abbrev Registry := SymbolResolver × Option StubAllocator

def registerStub (registry : Registry) (nid name : String) : Registry :=
  let (addr, stubs) := allocateStub registry.2 name
  (registry.1.addSymbol nid ⟨name, addr⟩, stubs)

def register (functions : List String) (registry : Registry) : Registry :=
  functions.foldl (fun registry name => registerStub registry name name) registry

def registerAllLibraries (registry : Registry) : Registry :=
  hleLibraries.foldl (fun registry library => register library.2 registry) registry

/-- Each record is filed under its own name, and the records are those of the calls. -/
def SymbolResolver.Files (resolver : SymbolResolver) (calls : List (String × Nat)) : Prop :=
  ∀ nid, resolver.symbols[nid]? = (calls.lookup nid).map (⟨nid, ·⟩)

namespace SymbolResolver

theorem files_new : SymbolResolver.new.Files [] := by
  intro nid
  simp [SymbolResolver.new]

variable {resolver : SymbolResolver} {calls : List (String × Nat)}

/-- The search by name finds nothing that the search by NID did not find. -/
theorem Files.resolve (files : resolver.Files calls) (name : String) :
    resolver.resolve name = calls.lookup name := by
  unfold SymbolResolver.resolve
  rw [files name]
  cases found : calls.lookup name with
  | some addr => rfl
  | none =>
    have missing : resolver.symbols.toList.find? (fun entry => entry.2.name == name) = none := by
      apply List.find?_eq_none.mpr
      rintro ⟨nid, record⟩ member same
      have filed := Std.HashMap.mem_toList_iff_getElem?_eq_some.mp member
      rw [files nid] at filed
      obtain ⟨addr, listed, rfl⟩ := Option.map_eq_some_iff.mp filed
      obtain rfl : nid = name := eq_of_beq same
      cases found.symm.trans listed
    rw [Option.map_none, missing]
    rfl

theorem Files.addSymbol (files : resolver.Files calls) {name : String} (addr : Nat)
    (fresh : name ∉ calls.map Prod.fst) :
    (resolver.addSymbol name ⟨name, addr⟩).Files (calls ++ [(name, addr)]) := by
  intro nid
  have absent : calls.lookup name = none := by
    apply List.lookup_eq_none_iff.mpr
    intro call member
    apply bne_iff_ne.mpr
    rintro rfl
    exact fresh (List.mem_map_of_mem member)
  rw [SymbolResolver.addSymbol, Std.HashMap.getElem?_insert, List.lookup_append]
  by_cases same : name = nid
  · subst same
    rw [if_pos BEq.rfl, absent, List.lookup_cons_self]
    rfl
  · have other : [(name, addr)].lookup nid = none := by
      rw [List.lookup_cons, beq_eq_false_iff_ne.mpr (Ne.symm same)]
      rfl
    rw [if_neg (by simpa using same), files nid, other, Option.or_none]

end SymbolResolver

/-- A registry after calls of `register_stub` for different functions. -/
structure Registry.After (base : Nat) (functions : List String) (registry : Registry)
    (calls : List (String × Nat)) : Prop where
  names : calls.map Prod.fst = functions
  files : registry.1.Files calls
  run : Trace StubCall (some (.new base)) calls registry.2

theorem Registry.After.register {base : Nat} {done functions : List String} {registry : Registry}
    {calls : List (String × Nat)} (after : registry.After base done calls)
    (distinct : (done ++ functions).Nodup) :
    ∃ calls', (AnotherPs4.register functions registry).After base (done ++ functions) calls' := by
  induction functions generalizing done registry calls with
  | nil =>
    rw [List.append_nil]
    exact ⟨calls, after⟩
  | cons name functions inductionHypothesis =>
    rw [List.append_cons] at distinct ⊢
    have fresh : name ∉ calls.map Prod.fst := by
      rw [after.names]
      have upTo := List.Nodup.of_append_left distinct
      intro member
      exact List.disjoint_of_nodup_append upTo member (List.mem_singleton_self name)
    have next : Registry.After base (done ++ [name]) (registerStub registry name name)
        (calls ++ [(name, (allocateStub registry.2 name).1)]) := by
      refine ⟨?_, after.files.addSymbol _ fresh, after.run.snoc rfl⟩
      rw [List.map_append, after.names]
      rfl
    exact inductionHypothesis next distinct

theorem libkernel_nodup : libkernel.Nodup := by decide +kernel

/-- After `init` and `register_all_libraries` the functions have the first stubs,
and they are found under their names. -/
theorem registerAllLibraries_after (base : Nat) :
    ∃ calls, (registerAllLibraries (.new, some (.new base))).After base libkernel calls := by
  have start : Registry.After base [] (.new, some (.new base)) [] :=
    ⟨rfl, SymbolResolver.files_new, .nil⟩
  rw [registerAllLibraries, hleLibraries, List.foldl_cons, List.foldl_nil]
  exact start.register libkernel_nodup

end AnotherPs4
