import Mathlib.Tactic
import Std.Data.HashMap.Lemmas

/-!
# Symbols

Registered symbols are looked up by NID and then by name.
-/

namespace AnotherPs4

structure SymbolRecord where
  name : String
  virtualAddress : Nat
  deriving DecidableEq, Repr

/-- Symbols indexed by their encoded NID. -/
structure SymbolResolver where
  symbols : Std.HashMap String SymbolRecord

namespace SymbolResolver

def new : SymbolResolver := ⟨∅⟩

def resolve (resolver : SymbolResolver) (name : String) : Option Nat :=
  match resolver.symbols[name]? with
  | some record => some record.virtualAddress
  | none => (resolver.symbols.toList.find? fun entry => entry.2.name == name).map
      (·.2.virtualAddress)

end SymbolResolver

/-- The part of a symbol name before its library and module ids. -/
def baseName (name : String) : String := String.ofList (name.toList.takeWhile (· ≠ '#'))

def knownNids : List (String × String) :=
  [("bzQExy189ZI", "_init_env"), ("8G2LB+A3rzg", "atexit"), ("tsvEmnenz48", "__cxa_atexit"),
   ("3GPpjQdAMTw", "__cxa_guard_acquire"), ("9rAeANT2tyE", "__cxa_guard_release"),
   ("fJnpuVVBbKk", "_Znwm"), ("z+P+xCnWLBk", "_ZdlPv"), ("gQX+4GDQjpM", "malloc"),
   ("tIhsqj0qsFE", "free"), ("XKRegsFpEpk", "catchReturnFromMain"), ("uMei1W9uyNo", "exit"),
   ("Q3VBxCXhUHs", "memcpy"), ("8zTFvBIAIN8", "memset"), ("kiZSXIWd9vg", "strcpy"),
   ("j4ViWNHEgww", "strlen"), ("Ls4tzzhimqQ", "strcat"), ("Ovb2dSJOAuE", "strcmp"),
   ("DfivPArhucg", "memcmp"), ("cpCOXWMgha0", "rand"), ("ZtjspkJQ+vw", "sinf"),
   ("ZE6RNL+eLbk", "tanf"), ("GZWjF-YIFFk", "asinf"), ("QI-x0SL8jhw", "acosf"),
   ("EH-x713A99c", "atan2f"), ("hcuQgD53UxM", "printf"), ("YQ0navp+YIc", "puts"),
   ("xeYO4u7uyJ0", "fopen"), ("lbB+UlZqVG0", "fread"), ("uodLYyUip20", "fclose"),
   ("rQFVBXp-Cxg", "fseek"), ("Qazy8LmXTvw", "ftell"), ("MpxhMh8QFro", "fwrite"),
   ("KdP-nULpuGw", "fgets"), ("Q2V+iqvjgC0", "vsnprintf"),
   ("B+vc2AO2Zrc", "sceKernelAllocateMainDirectMemory"),
   ("pO96TwzOm5E", "sceKernelGetDirectMemorySize"), ("WslcK1FQcGI", "sceKernelIsNeoMode"),
   ("rTXw65xmLIA", "sceKernelAllocateDirectMemory"), ("L-Q3LEjIbgA", "sceKernelMapDirectMemory"),
   ("cQke9UuBQOk", "sceKernelMunmap"), ("MBuItvba6z8", "sceKernelReleaseDirectMemory"),
   ("2Of0f+3mhhE", "scePthreadMutexDestroy"), ("cmo1RIYva9o", "scePthreadMutexInit"),
   ("9UK1vLZQft4", "scePthreadMutexLock"), ("tn3VlD0hG60", "scePthreadMutexUnlock"),
   ("6UgtwV+0zb4", "scePthreadCreate"), ("D0OdFMjp46I", "sceKernelCreateEqueue"),
   ("jpFjmgAC5AE", "sceKernelDeleteEqueue"), ("Up36PTk687E", "sceVideoOutOpen"),
   ("CBiu4mCE1DA", "sceVideoOutSetFlipRate"), ("uquVH4-Du78", "sceVideoOutClose"),
   ("6kPnj51T62Y", "sceVideoOutGetResolutionStatus"),
   ("i6-sR91Wt-4", "sceVideoOutSetBufferAttribute"), ("w3BY+tAEiQY", "sceVideoOutRegisterBuffers"),
   ("b0xyllnVY-I", "sceGnmAddEqEvent"), ("PVT+fuoS9gU", "sceGnmDeleteEqEvent"),
   ("yb2cRhagD1I", "sceGnmDrawInitDefaultHardwareState350"),
   ("1qXLHIpROPE", "sceGnmInsertWaitFlipDone"), ("hv1luiJrqQM", "scePadInit"),
   ("xk0AcarP3V4", "scePadOpen"), ("6ncge5+l5Qs", "scePadClose"),
   ("YndgXqQVV7c", "scePadReadState"), ("j3YMu1MVNNo", "sceUserServiceInitialize"),
   ("bwFjS+bX9mA", "sceUserServiceTerminate"), ("CdWp0oHWGr0", "sceUserServiceGetInitialUser"),
   ("yH17Q6NWtVg", "sceUserServiceGetEvent"), ("fPhymKNvK-A", "sceUserServiceGetLoginUserIdList"),
   ("Vo5V8KAwCmk", "sceSystemServiceHideSplashScreen"),
   ("fZo48un7LK4", "sceSystemServiceParamGetInt"), ("656LMQSrg6U", "sceSystemServiceReceiveEvent"),
   ("rPo6tV8D9bM", "sceSystemServiceGetStatus"), ("g8cM39EUZ6o", "sceSysmoduleLoadModule"),
   ("uoUpLGNkygk", "sceCommonDialogInitialize"), ("TywrFKCoLGY", "sceSaveDataInitialize3"),
   ("yKDy8S5yLA0", "sceSaveDataTerminate"), ("KK3Bdg1RWK0", "sceSaveDataDialogUpdateStatus"),
   ("yEiJ-qqr6Cg", "sceSaveDataDialogGetResult"), ("A2CQ3kgSopQ", "sceNpSetContentRestriction"),
   ("Ec63y59l9tw", "sceNpSetNpTitleId"), ("GWnWQNXZH5M", "sceNpScoreCreateNpTitleCtxA"),
   ("q7U6tEAQf7c", "sceNpTrophyCreateHandle"), ("TJCAxto9SEU", "sceNpTrophyRegisterContext"),
   ("XbkjbobZlCY", "sceNpTrophyCreateContext"),
   ("73WQ4Jj0nJI", "sceScreenShotSetOverlayImageWithOrigin"), ("JfEPXVxhFqA", "sceAudioOutInit"),
   ("ekNvsT22rsY", "sceAudioOutOpen")]

def lookupKnownNid (nid : String) : Option String := knownNids.lookup (baseName nid)

end AnotherPs4
