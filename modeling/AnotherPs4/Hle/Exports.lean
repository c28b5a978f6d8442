import AnotherPs4.Hle.Gnm
import AnotherPs4.Hle.Guards
import AnotherPs4.Hle.Libc
import AnotherPs4.Hle.Stdio
import AnotherPs4.Hle.ThreadCreate

/-!
# Export dispatcher

All calls of the guest into the emulated libraries go through one match on the
name of the function. The arms share the statics of the exports and the memory
of the guest.
-/

namespace AnotherPs4

open Rust RangeMap Kernel

/-- The statics that no allocator uses. -/
structure Statics (File : Type) where
  stdio : Stdio File
  fsMounts : Option (List Mount)
  nextEqueueId : Nat
  gpu : Option GpuContext
  randState : Nat
  unhandledCalls : Nat

/-- Guest memory, its threads and which of them run, and the statics behind the exports. -/
structure GuestState (File : Type) extends ThreadState, Statics File where
  started : List NativeThread

/-- The argument registers, the first argument on the stack and two halves of
vector registers. -/
structure ExportArgs where
  rdi : UInt64
  rsi : UInt64
  rdx : UInt64
  rcx : UInt64
  r8 : UInt64
  r9 : UInt64
  stackArg7 : UInt64
  xmm0Bits : UInt64
  xmm1Bits : UInt64
  deriving DecidableEq, Repr

/-- What one call needs of the host: its answers to `mmap` and to the creation of
a thread, its files, `memcmp`, and the functions on bits of an `f32`. -/
structure ExportHost (File : Type) where
  mmap : Host
  thread : ThreadHost
  files : HostFiles File
  memcmp : List UInt8 → List UInt8 → Int
  sin : UInt32 → UInt32
  tan : UInt32 → UInt32
  asin : UInt32 → UInt32
  acos : UInt32 → UInt32
  atan2 : UInt32 → UInt32 → UInt32

/-- The arms of the match. Most functions only return a number. -/
inductive Export where
  | constant (value : Nat)
  | cxaGuardAcquire
  | cxaGuardRelease
  | exit
  | malloc
  | memcpy
  | memset
  | strcpy
  | strlen
  | strcmp
  | memcmp
  | strcat
  | printf
  | puts
  | vsnprintf
  | fopen
  | fread
  | fclose
  | fseek
  | ftell
  | allocateDirectMemory
  | allocateMainDirectMemory
  | mapDirectMemory
  | createEqueue
  | pthreadCreate
  | getResolutionStatus
  | setBufferAttribute
  | drawInitDefaultHardwareState350
  | insertWaitFlipDone
  | waitEqueue
  | submitCommandBuffers
  | submitDone
  | padOpen
  | padReadState
  | writeOne
  | getLoginUserIdList
  | getStatus
  | sinf
  | tanf
  | asinf
  | acosf
  | atan2f
  | rand
  | unhandled
  deriving DecidableEq, Repr

def userServiceNoEvent : Nat := 0x80990004

def systemServiceNoEvent : Nat := 0x80A10004

/-- The names of each arm, in the order of the match. -/
def exportArms : List (List String × Export) :=
  [(["_init_env"], .constant 0),
   (["atexit", "__cxa_atexit"], .constant 0),
   (["__cxa_guard_acquire"], .cxaGuardAcquire),
   (["__cxa_guard_release"], .cxaGuardRelease),
   (["sceKernelIsNeoMode"], .constant 0),
   (["catchReturnFromMain", "exit"], .exit),
   (["malloc", "_Znwm"], .malloc),
   (["free", "_ZdlPv"], .constant 0),
   (["memcpy"], .memcpy),
   (["memset"], .memset),
   (["strcpy"], .strcpy),
   (["strlen"], .strlen),
   (["strcmp"], .strcmp),
   (["memcmp"], .memcmp),
   (["strcat"], .strcat),
   (["printf", "sceClibPrintf"], .printf),
   (["puts"], .puts),
   (["vsnprintf"], .vsnprintf),
   (["fopen"], .fopen),
   (["fread"], .fread),
   (["fclose"], .fclose),
   (["fseek"], .fseek),
   (["ftell"], .ftell),
   (["sceKernelGetDirectMemorySize"], .constant hleGetDirectMemorySize),
   (["sceKernelAllocateDirectMemory"], .allocateDirectMemory),
   (["sceKernelAllocateMainDirectMemory"], .allocateMainDirectMemory),
   (["sceKernelMapDirectMemory"], .mapDirectMemory),
   (["sceKernelMunmap", "sceKernelReleaseDirectMemory"], .constant 0),
   (["sceKernelCreateEqueue"], .createEqueue),
   (["sceKernelDeleteEqueue"], .constant 0),
   (["scePthreadMutexDestroy", "scePthreadMutexInit", "scePthreadMutexLock",
     "scePthreadMutexUnlock"], .constant 0),
   (["scePthreadCreate"], .pthreadCreate),
   (["sceVideoOutOpen"], .constant 1),
   (["sceVideoOutSetFlipRate", "sceVideoOutClose"], .constant 0),
   (["sceVideoOutGetResolutionStatus"], .getResolutionStatus),
   (["sceVideoOutSetBufferAttribute"], .setBufferAttribute),
   (["sceVideoOutRegisterBuffers"], .constant 0),
   (["sceGnmAddEqEvent", "sceGnmDeleteEqEvent"], .constant 0),
   (["sceGnmDrawInitDefaultHardwareState350"], .drawInitDefaultHardwareState350),
   (["sceGnmInsertWaitFlipDone"], .insertWaitFlipDone),
   (["fzyMKs9kim0", "fzyMKs9kim0#R#S"], .waitEqueue),
   (["zwY0YV91TTI", "zwY0YV91TTI#R#S"], .submitCommandBuffers),
   (["E90Gz79LdBQ", "E90Gz79LdBQ#R#S"], .submitDone),
   (["W1Etj-jlW7Y", "W1Etj-jlW7Y#B#C", "5uFKckiJYRM", "5uFKckiJYRM#B#C", "+AFvOEXrKJk",
     "+AFvOEXrKJk#B#C", "GGsn7jMTxw4", "GGsn7jMTxw4#B#C", "7qZVNgEu+SY", "7qZVNgEu+SY#B#C",
     "gAhCn6UiU4Y", "gAhCn6UiU4Y#B#C", "HlTPoZ-oY7Y", "HlTPoZ-oY7Y#B#C", "xbxNatawohc",
     "xbxNatawohc#B#C", "yvZ73uQUqrk", "yvZ73uQUqrk#B#C"], .constant 0),
   (["scePadInit"], .constant 0),
   (["scePadOpen"], .padOpen),
   (["scePadReadState"], .padReadState),
   (["scePadClose"], .constant 0),
   (["sceUserServiceInitialize", "sceUserServiceTerminate"], .constant 0),
   (["sceUserServiceGetInitialUser"], .writeOne),
   (["sceUserServiceGetEvent"], .constant userServiceNoEvent),
   (["sceUserServiceGetLoginUserIdList"], .getLoginUserIdList),
   (["sceSystemServiceHideSplashScreen", "sceSystemServiceParamGetInt", "sceSysmoduleLoadModule",
     "sceCommonDialogInitialize", "sceSaveDataInitialize3", "sceSaveDataTerminate",
     "sceNpSetContentRestriction", "sceNpSetNpTitleId", "sceNpScoreCreateNpTitleCtxA",
     "sceScreenShotSetOverlayImageWithOrigin"], .constant 0),
   (["sceSystemServiceReceiveEvent"], .constant systemServiceNoEvent),
   (["sceSystemServiceGetStatus"], .getStatus),
   (["sceSaveDataDialogUpdateStatus"], .constant 0),
   (["sceSaveDataDialogGetResult"], .constant 0),
   (["sceNpTrophyCreateHandle"], .writeOne),
   (["sceNpTrophyCreateContext"], .writeOne),
   (["sceAudioOutInit"], .constant 0),
   (["sceAudioOutOpen"], .constant 1),
   (["sceNpTrophyRegisterContext"], .constant 0),
   (["sinf"], .sinf),
   (["tanf"], .tanf),
   (["asinf"], .asinf),
   (["acosf"], .acosf),
   (["atan2f"], .atan2f),
   (["rand"], .rand)]

def exportOf (name : String) : Export :=
  ((exportArms.find? fun arm => arm.1.contains name).map Prod.snd).getD .unhandled

/-- A store through a pointer that is looked at first. -/
def Ram.put (ram : Ram) (addr : Nat) (bytes : List UInt8) : Ram :=
  if addr = 0 then ram else ram.write addr bytes

/-- A text that is only logged or opened, in place of a null pointer the given one. -/
def textAt (ram : Ram) (addr : Nat) (default : String) : Outcome ExportStop String :=
  if addr = 0 then .ok default else fromUtf8Lossy <$> ram.cstr addr

namespace GuestState

variable {File : Type}

def initial (mm : MemoryManager) (ram : Ram) (fsMounts : Option (List Mount)) : GuestState File where
  exports := initializeExports mm
  ram := ram
  threads := []
  stdio := .initial
  fsMounts := fsMounts
  nextEqueueId := 1
  gpu := none
  randState := 12345
  unhandledCalls := 0
  started := []

@[simp] theorem initial_ram {mm : MemoryManager} {ram : Ram} {fsMounts : Option (List Mount)} :
    (initial mm ram fsMounts : GuestState File).ram = ram :=
  rfl

@[simp] theorem initial_gpu {mm : MemoryManager} {ram : Ram} {fsMounts : Option (List Mount)} :
    (initial mm ram fsMounts : GuestState File).gpu = none :=
  rfl

@[simp] theorem initial_randState {mm : MemoryManager} {ram : Ram}
    {fsMounts : Option (List Mount)} :
    (initial mm ram fsMounts : GuestState File).randState = 12345 :=
  rfl

def withRam (state : GuestState File) (result : Nat × Ram) : Nat × GuestState File :=
  (result.1, { state with ram := result.2 })

def withGpu (state : GuestState File) (gpu : Option GpuContext) : Nat × GuestState File :=
  (0, { state with gpu })

/-- `map_memory` on behalf of an allocator, `none` if nothing was mapped. -/
def mapFresh (p : Profile) (host : Host) (state : GuestState File) (r : MapRequest) :
    Outcome Empty (Option Nat × GuestState File) :=
  match state.exports.memoryManager with
  | none => .ok (none, state)
  | some mm => do
    let (result, mm) ← r.call p host mm
    let exports := { state.exports with memoryManager := some mm }
    match result with
    | .ok addr =>
      return (some addr, { state with exports, ram := state.ram.zero addr (roundUp r.size pageSize) })
    | .error _ => return (none, { state with exports })

end GuestState

section Arms

variable {File : Type} (p : Profile) (state : GuestState File)

def MapRequest.heapAlloc (name : String) (len : Nat) : MapRequest where
  virtualAddr := 0
  size := len
  prot := .cpuRw
  flags := .union .anonymous .priv
  vmaType := .flexible
  name := name

def allocMemory (host : Host) (len : Nat) (name : String) : Outcome Empty (Nat × GuestState File) := do
  let (addr, state) ← state.mapFresh p host (.heapAlloc name len)
  return (addr.getD 0, state)

def malloc (host : Host) (len : Nat) : Outcome Empty (Nat × GuestState File) :=
  allocMemory p state host (if len = 0 then 4096 else len) "heap_alloc"

def printf (ram : Ram) (fmt rsi rcx r8 : Nat) : Outcome ExportStop Unit := do
  let fmt ← textAt ram fmt "null"
  if containsText fmt "%s(%u): error in %s(): %s" then
    let _ ← textAt ram rsi "?"
    let _ ← textAt ram rcx "?"
    let _ ← textAt ram r8 "?"
  return ()

def hleFopen (files : HostFiles File) (filename mode : Nat) :
    Outcome ExportStop (Nat × GuestState File) :=
  if filename = 0 then return (0, state)
  else do
    let filename ← textAt state.ram filename ""
    let _mode ← textAt state.ram mode "r"
    let (file, stdio) := fopen files state.fsMounts state.stdio (some filename)
    return (file, { state with stdio })

/-- What a call on a stream leaves. Its bytes go to the buffer. -/
def GuestState.withReply (buf : Nat) (result : Reply × Stdio File) : Nat × GuestState File :=
  (result.1.value, { state with ram := state.ram.put buf result.1.written, stdio := result.2 })

/-- The body of the two allocators. What is allocated has the same physical and
virtual address. -/
def hleAllocatePhys (host : Host) (name : String) (len physAddrOut : Nat) :
    Outcome Empty (Nat × GuestState File) := do
  let (addr, state) ← state.mapFresh p host (.directPhys name len)
  match addr with
  | some virtAddr =>
    return (0, { state with
      exports := { state.exports with
        physMappings := registerPhysMapping state.exports.physMappings virtAddr virtAddr len }
      ram := state.ram.put physAddrOut (leBytes 8 virtAddr) })
  | none => return (hleOutOfMemory, state)

def hleCreateEqueue (eqOut name : Nat) : Outcome ExportStop (Nat × GuestState File) := do
  let _name ← textAt state.ram name "unnamed"
  let id := state.nextEqueueId
  return (0, { state with
    nextEqueueId := (id + 1) % 2 ^ 32, ram := state.ram.put eqOut (leBytes 4 id) })

def threadNameAt (ram : Ram) (addr : Nat) : Outcome ExportStop (Option (List UInt8)) :=
  if addr = 0 then .ok none else some <$> ram.cstr addr

def hlePthreadCreate (host : ThreadHost) (args : ExportArgs) :
    Outcome ExportStop (Nat × GuestState File) := do
  let name ← threadNameAt state.ram args.r8.toNat
  let (value, threadState) ← (scePthreadCreate p host state.toThreadState
    { threadOut := args.rdi.toNat, attr := args.rsi.toNat, startRoutine := args.rdx.toNat
      arg := args.rcx.toNat, name, word := args.rdi.toNat_lt }).widen
  return (value, { state with toThreadState := threadState })

/-- The pitch is the width unless it is given. -/
def bufferAttribute (args : ExportArgs) : List UInt32 :=
  let width := args.r8.toUInt32
  let pitch := if args.stackArg7 ≠ 0 then args.stackArg7.toUInt32 else width
  [args.rsi.toUInt32, args.rdx.toUInt32, args.rcx.toUInt32, width, args.r9.toUInt32, pitch, 0]

/-- Zeros, and then the two sizes of 1920 by 1080. -/
def writeResolutionStatus (ram : Ram) (status : Nat) : Ram :=
  (ram.put status (List.replicate 32 0)).put status (Ram.dwordBytes [1920, 1080, 1920, 1080])

/-- Zeros but for sticks in the middle and the connected flag. -/
def writePadState (ram : Ram) (data : Nat) : Ram :=
  if data = 0 then ram
  else ((ram.write data (List.replicate 80 0)).write ((data + 4) % 2 ^ 64)
    [128, 128, 128, 128]).write ((data + 19) % 2 ^ 64) [1]

/-- The handle is one more than the index, which is an `i32`, and at least 1. -/
def padOpen (index : Nat) : Outcome Empty Nat :=
  let handle := signed 32 index + 1
  if handle < 2 ^ 31 then .ok (max handle 1).toNat
  else match p with
    | .dev => .panic .overflow
    | .release => .ok 1

def nextRand (state : Nat) : Nat := (state * 1103515245 + 12345) % 2 ^ 64

def randValue (state : Nat) : Nat := state / 2 ^ 16 % 2 ^ 31

end Arms

variable {File : Type}

def Export.run (p : Profile) (ops : FileOps File) (host : ExportHost File) (args : ExportArgs)
    (state : GuestState File) : Export → Outcome ExportStop (Nat × GuestState File)
  | .constant value => .ok (value, state)
  | .cxaGuardAcquire => .ok (state.withRam (AnotherPs4.cxaGuardAcquire state.ram args.rdi.toNat))
  | .cxaGuardRelease => .ok (state.withRam (AnotherPs4.cxaGuardRelease state.ram args.rdi.toNat))
  | .exit => .err .exit
  | .malloc => (AnotherPs4.malloc p state host.mmap args.rdi.toNat).widen
  | .memcpy => do
      return state.withRam (← AnotherPs4.memcpy p state.ram args.rdi.toNat args.rsi.toNat
        args.rdx.toNat)
  | .memset => .ok (state.withRam
      (AnotherPs4.memset state.ram args.rdi.toNat args.rsi.toNat args.rdx.toNat))
  | .strcpy => .ok (state.withRam (AnotherPs4.strcpy state.ram args.rdi.toNat args.rsi.toNat))
  | .strlen => do return (← AnotherPs4.strlen state.ram args.rdi.toNat, state)
  | .strcmp => do return (← AnotherPs4.strcmp state.ram args.rdi.toNat args.rsi.toNat, state)
  | .memcmp => .ok (AnotherPs4.memcmp host.memcmp state.ram args.rdi.toNat args.rsi.toNat
      args.rdx.toNat, state)
  | .strcat => .ok (state.withRam (AnotherPs4.strcat state.ram args.rdi.toNat args.rsi.toNat))
  | .printf => do
      AnotherPs4.printf state.ram args.rdi.toNat args.rsi.toNat args.rcx.toNat args.r8.toNat
      return (0, state)
  | .puts => do
      let _ ← textAt state.ram args.rdi.toNat ""
      return (0, state)
  | .vsnprintf => do
      return state.withRam (← AnotherPs4.vsnprintf p state.ram args.rdi.toNat args.rsi.toNat
        args.rdx.toNat args.rcx.toNat)
  | .fopen => hleFopen state host.files args.rdi.toNat args.rsi.toNat
  | .fread => do
      return state.withReply args.rdi.toNat (← (AnotherPs4.fread p ops state.stdio args.rdi.toNat
        args.rsi.toNat args.rdx.toNat args.rcx.toNat).widen)
  | .fclose => .ok (state.withReply 0 (AnotherPs4.fclose state.stdio args.rdi.toNat))
  | .fseek => .ok (state.withReply 0
      (AnotherPs4.fseek ops state.stdio args.rdi.toNat args.rsi.toNat args.rdx.toNat))
  | .ftell => .ok (state.withReply 0 (AnotherPs4.ftell ops state.stdio args.rdi.toNat))
  | .allocateDirectMemory =>
      (hleAllocatePhys p state host.mmap "direct_phys" args.rdx.toNat args.r9.toNat).widen
  | .allocateMainDirectMemory =>
      (hleAllocatePhys p state host.mmap "direct_main_phys" args.rdi.toNat args.rcx.toNat).widen
  | .mapDirectMemory =>
      .ok (0, { state with ram := state.ram.put args.rdi.toNat (leBytes 8 args.r8.toNat) })
  | .createEqueue => hleCreateEqueue state args.rdi.toNat args.rsi.toNat
  | .pthreadCreate => hlePthreadCreate p state host.thread args
  | .getResolutionStatus =>
      .ok (0, { state with ram := writeResolutionStatus state.ram args.rsi.toNat })
  | .setBufferAttribute =>
      .ok (0, { state with
        ram := state.ram.put args.rdi.toNat (Ram.dwordBytes (bufferAttribute args)) })
  | .drawInitDefaultHardwareState350 => .ok (state.withRam
      (sceGnmDrawInitDefaultHardwareState350 state.ram args.rdi.toNat args.rsi.toNat))
  | .insertWaitFlipDone => .ok (state.withRam
      (sceGnmInsertWaitFlipDone state.ram args.rdi.toNat args.rsi.toNat args.rdx.toNat))
  | .waitEqueue => .ok (0, { state with ram := state.ram.put args.rcx.toNat (leBytes 4 0) })
  | .submitCommandBuffers => do
      return state.withGpu (← sceGnmSubmitCommandBuffers p state.gpu state.ram args.rdi.toNat
        args.rsi.toNat args.rdx.toNat)
  | .submitDone => do return state.withGpu (← sceGnmSubmitDone p state.gpu)
  | .padOpen => do return (← (AnotherPs4.padOpen p args.rdx.toUInt32.toNat).widen, state)
  | .padReadState => .ok (0, { state with ram := writePadState state.ram args.rsi.toNat })
  | .writeOne => .ok (0, { state with ram := state.ram.put args.rdi.toNat (leBytes 4 1) })
  | .getLoginUserIdList =>
      .ok (0, { state with
        ram := state.ram.put args.rdi.toNat
          (Ram.dwordBytes [1, 0xFFFFFFFF, 0xFFFFFFFF, 0xFFFFFFFF]) })
  | .getStatus => do
      let ram := state.ram.put args.rdi.toNat (List.replicate 64 0)
      return { state with ram }.withGpu (← sceGnmSubmitDone p state.gpu)
  | .sinf => .ok ((host.sin args.xmm0Bits.toUInt32).toNat, state)
  | .tanf => .ok ((host.tan args.xmm0Bits.toUInt32).toNat, state)
  | .asinf => .ok ((host.asin args.xmm0Bits.toUInt32).toNat, state)
  | .acosf => .ok ((host.acos args.xmm0Bits.toUInt32).toNat, state)
  | .atan2f => .ok ((host.atan2 args.xmm0Bits.toUInt32 args.xmm1Bits.toUInt32).toNat, state)
  | .rand => .ok (randValue (nextRand state.randState),
      { state with randState := nextRand state.randState })
  | .unhandled => .ok (0, { state with unhandledCalls := (state.unhandledCalls + 1) % 2 ^ 64 })

def hleExportDispatcher (p : Profile) (ops : FileOps File) (host : ExportHost File) (name : String)
    (args : ExportArgs) (state : GuestState File) : Outcome ExportStop (Nat × GuestState File) :=
  (exportOf name).run p ops host args state

end AnotherPs4
