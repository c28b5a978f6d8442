import AnotherPs4.Hle.Exports

/-!
# What one export call changes

Each export has a footprint, the blocks it may write because the guest named
them. Everything else a call does to guest memory is to map fresh pages.
-/

namespace AnotherPs4

open Rust RangeMap Kernel Transition

/-! ### Footprints -/

/-- The block that a pointer names, none if it is null. -/
def pointee (addr len : Nat) : List Block := if addr = 0 then [] else [(addr, len)]

/-- A cell of one of the blocks, which may wrap around. -/
def Touched (blocks : List Block) (x : Nat) : Prop := ∃ b ∈ blocks, Ram.Covers b.1 b.2 x

instance (blocks : List Block) (x : Nat) : Decidable (Touched blocks x) :=
  inferInstanceAs (Decidable (∃ b ∈ blocks, _))

def copyLength (ram : Ram) (dst src : Nat) : Nat :=
  (throughNul (firstBytes (copied ram src dst) (safetyLimit + 1))).length

def strcatBlock (ram : Ram) (dst src : Nat) : List Block :=
  if dst = 0 ∨ src = 0 then []
  else match endFrom ram dst 0 with
    | some i => [((dst + i) % 2 ^ 64, copyLength ram ((dst + i) % 2 ^ 64) src)]
    | none => []

/-- The blocks that a call may write. -/
def Export.footprint (ram : Ram) (args : ExportArgs) : Export → List Block
  | .cxaGuardAcquire => pointee args.rdi.toNat 8
  | .cxaGuardRelease => pointee args.rdi.toNat 1
  | .memcpy => pointee args.rdi.toNat args.rdx.toNat
  | .memset => pointee args.rdi.toNat args.rdx.toNat
  | .strcpy => pointee args.rdi.toNat (copyLength ram args.rdi.toNat args.rsi.toNat)
  | .strcat => strcatBlock ram args.rdi.toNat args.rsi.toNat
  | .vsnprintf => pointee args.rdi.toNat args.rsi.toNat
  | .fread => pointee args.rdi.toNat (args.rsi.toNat * args.rdx.toNat)
  | .allocateDirectMemory => pointee args.r9.toNat 8
  | .allocateMainDirectMemory => pointee args.rcx.toNat 8
  | .mapDirectMemory => pointee args.rdi.toNat 8
  | .createEqueue => pointee args.rdi.toNat 4
  | .pthreadCreate => pointee args.rdi.toNat 8
  | .getResolutionStatus => pointee args.rsi.toNat 32
  | .setBufferAttribute => pointee args.rdi.toNat 28
  | .drawInitDefaultHardwareState350 => pointee args.rdi.toNat (hwInitPacketSize * 4)
  | .insertWaitFlipDone => pointee args.rdi.toNat (waitFlipSize * 4)
  | .waitEqueue => pointee args.rcx.toNat 4
  | .padReadState => pointee args.rsi.toNat 80
  | .writeOne => pointee args.rdi.toNat 4
  | .getLoginUserIdList => pointee args.rdi.toNat 16
  | .getStatus => pointee args.rdi.toNat 64
  | _ => []

section Untouched

variable {ram : Ram} {addr dst src x : Nat} {bytes : List UInt8}

theorem touched_singleton {len : Nat} : Touched [(addr, len)] x ↔ Ram.Covers addr len x := by
  simp [Touched]

theorem touched_pointee {len : Nat} : Touched (pointee addr len) x ↔ addr ≠ 0 ∧ Ram.Covers addr len x := by
  unfold Touched pointee
  split <;> simp_all

theorem write_untouched {len : Nat} (notNull : addr ≠ 0) (short : bytes.length ≤ len)
    (outside : ¬ Touched (pointee addr len) x) : ram.write addr bytes x = ram x :=
  Ram.write_uncovered fun covers => outside (touched_pointee.mpr ⟨notNull, covers.mono short⟩)

theorem put_untouched {len : Nat} (short : bytes.length ≤ len)
    (outside : ¬ Touched (pointee addr len) x) : ram.put addr bytes x = ram x := by
  unfold Ram.put
  split
  · rfl
  · next notNull => exact write_untouched notNull short outside

theorem piece_untouched {len offset : Nat} (notNull : addr ≠ 0)
    (inside : offset + bytes.length ≤ len) (outside : ¬ Touched (pointee addr len) x) :
    ram.write ((addr + offset) % 2 ^ 64) bytes x = ram x := by
  refine Ram.write_uncovered fun covers => outside (touched_pointee.mpr ⟨notNull, ?_⟩)
  unfold Ram.Covers at *
  omega

theorem cxaGuardAcquire_untouched (outside : ¬ Touched (pointee addr 8) x) :
    (cxaGuardAcquire ram addr).2 x = ram x := by
  unfold cxaGuardAcquire
  split
  · next notNull =>
    split
    · exact write_untouched notNull (by simp) outside
    · rfl
  · rfl

theorem cxaGuardRelease_untouched (outside : ¬ Touched (pointee addr 1) x) :
    (cxaGuardRelease ram addr).2 x = ram x := by
  unfold cxaGuardRelease
  split
  · next notNull => exact write_untouched notNull le_rfl outside
  · rfl

theorem memcpy_untouched {p : Profile} {n value : Nat} {after : Ram}
    (returned : memcpy p ram dst src n = .ok (value, after))
    (outside : ¬ Touched (pointee dst n) x) : after x = ram x := by
  unfold memcpy at returned
  split at returned
  · next taken =>
    obtain ⟨copy, copied, returned⟩ := Outcome.bind_eq_ok.mp returned
    cases returned
    rw [copyNonoverlapping_eq_ok copied]
    exact write_untouched taken.1 (length_firstBytes _ _).le outside
  · cases returned
    rfl

theorem memset_untouched {val n : Nat} (outside : ¬ Touched (pointee dst n) x) :
    (memset ram dst val n).2 x = ram x := by
  unfold memset
  split
  · next taken => exact write_untouched taken.1 (by simp) outside
  · rfl

theorem strcpy_untouched (dstWord : dst < 2 ^ 64) (srcWord : src < 2 ^ 64)
    (outside : ¬ Touched (pointee dst (copyLength ram dst src)) x) :
    (strcpy ram dst src).2 x = ram x := by
  unfold strcpy
  split
  · next taken =>
    dsimp only
    rw [copyFrom_zero dstWord srcWord]
    exact write_untouched taken.1 (by rw [copyLength]) outside
  · rfl

theorem strcat_untouched (srcWord : src < 2 ^ 64) (outside : ¬ Touched (strcatBlock ram dst src) x) :
    (strcat ram dst src).2 x = ram x := by
  unfold strcat
  unfold strcatBlock at outside
  split
  · next taken =>
    rw [if_neg (by tauto)] at outside
    cases found : endFrom ram dst 0 with
    | none => rfl
    | some i =>
      rw [found] at outside
      dsimp only at outside ⊢
      rw [touched_singleton, copyLength] at outside
      rw [← copyFrom_mod, copyFrom_zero (Nat.mod_lt _ (Nat.two_pow_pos 64)) srcWord]
      exact Ram.write_uncovered outside
  · rfl

theorem vsnprintf_untouched {p : Profile} {size fmt vaList value : Nat} {after : Ram}
    (returned : vsnprintf p ram addr size fmt vaList = .ok (value, after))
    (outside : ¬ Touched (pointee addr size) x) : after x = ram x := by
  unfold vsnprintf at returned
  split at returned
  · cases returned
    rfl
  · next taken =>
    obtain ⟨notNull, positive⟩ := not_or.mp taken
    split at returned
    · obtain ⟨text, -, returned⟩ := Outcome.bind_eq_ok.mp returned
      obtain ⟨copy, copied, returned⟩ := Outcome.bind_eq_ok.mp returned
      obtain ⟨_, -, returned⟩ := Outcome.bind_eq_ok.mp returned
      cases returned
      have short : min text.length (size - 1) ≤ size - 1 := Nat.min_le_right _ _
      rw [piece_untouched notNull (by rw [List.length_singleton]; omega) outside,
        copyNonoverlapping_eq_ok copied]
      exact write_untouched notNull (by rw [Ram.readBytes, length_firstBytes]; omega) outside
    · cases returned
      exact write_untouched notNull (by rw [List.length_singleton]; omega) outside

theorem NativeThread.writeTcb_untouched {thread : NativeThread}
    (outside : ¬ Touched [(thread.tcbBase, 8)] x) : thread.writeTcb ram x = ram x := by
  apply Ram.write_uncovered
  rw [length_leBytes]
  exact mt touched_singleton.mpr outside

theorem drawInit_untouched {size : Nat}
    (outside : ¬ Touched (pointee addr (hwInitPacketSize * 4)) x) :
    (sceGnmDrawInitDefaultHardwareState350 ram addr size).2 x = ram x := by
  unfold sceGnmDrawInitDefaultHardwareState350
  split
  · rfl
  · next taken =>
    exact write_untouched (not_or.mp taken).1
      (by rw [Ram.length_dwordBytes, length_hwInitPackets]) outside

theorem insertWait_untouched {videoOutHandle bufIdx : Nat}
    (outside : ¬ Touched (pointee addr (waitFlipSize * 4)) x) :
    (sceGnmInsertWaitFlipDone ram addr videoOutHandle bufIdx).2 x = ram x := by
  unfold sceGnmInsertWaitFlipDone
  split
  · next notNull => exact write_untouched notNull (by rw [Ram.length_dwordBytes]; decide) outside
  · rfl

theorem writeResolutionStatus_untouched (outside : ¬ Touched (pointee addr 32) x) :
    writeResolutionStatus ram addr x = ram x := by
  rw [writeResolutionStatus, put_untouched (by rw [Ram.length_dwordBytes]; decide) outside,
    put_untouched (by rw [List.length_replicate]) outside]

theorem writePadState_untouched (outside : ¬ Touched (pointee addr 80) x) :
    writePadState ram addr x = ram x := by
  unfold writePadState
  split
  · rfl
  · next notNull =>
    rw [piece_untouched notNull (by decide) outside, piece_untouched notNull (by decide) outside]
    exact write_untouched notNull (by rw [List.length_replicate]) outside

end Untouched

/-! ### Calls -/

/-- Blocks came into use, and their cells hold zeros. Otherwise the memory is
the same but for the touched cells. -/
structure CallEffect (touched : List Block) (mm : MemoryManager) (ram : Ram) (fresh : List Block)
    (mm' : MemoryManager) (ram' : Ram) : Prop where
  extension : mm.ExtendsAll fresh mm'
  zeros : ∀ x < 2 ^ 64, ¬ Touched touched x → ∀ b ∈ fresh, b.Contains x → ram' x = 0
  kept : ∀ x < 2 ^ 64, ¬ Touched touched x → (∀ b ∈ fresh, ¬ b.Contains x) → ram' x = ram x

namespace CallEffect

variable {touched fresh fresh' : List Block} {mm mm' mm'' : MemoryManager} {ram ram' ram'' : Ram}

theorem plain (same : ∀ x < 2 ^ 64, ¬ Touched touched x → ram' x = ram x) :
    CallEffect touched mm ram [] mm ram' where
  extension := .nil
  zeros := nofun
  kept x word outside _ := same x word outside

theorem zero {b : Block} (extension : mm.Extends b mm') :
    CallEffect touched mm ram [b] mm' (ram.zero b.1 b.2) where
  extension := extension.all
  zeros x _ _ c member inside := by
    obtain rfl := List.mem_singleton.mp member
    exact Ram.zero_inside inside
  kept x _ _ outside := Ram.zero_outside (outside b (List.mem_singleton_self b))

theorem store (effect : CallEffect touched mm ram fresh mm' ram')
    (same : ∀ x < 2 ^ 64, ¬ Touched touched x → ram'' x = ram' x) :
    CallEffect touched mm ram fresh mm' ram'' where
  extension := effect.extension
  zeros x word outside b member inside :=
    (same x word outside).trans (effect.zeros x word outside b member inside)
  kept x word outside apart := (same x word outside).trans (effect.kept x word outside apart)

theorem trans (first : CallEffect touched mm ram fresh mm' ram')
    (second : CallEffect touched mm' ram' fresh' mm'' ram'') :
    CallEffect touched mm ram (fresh ++ fresh') mm'' ram'' where
  extension := first.extension.append second.extension
  zeros x word outside b member inside := by
    by_cases later : ∃ c ∈ fresh', c.Contains x
    · obtain ⟨c, found, holds⟩ := later
      exact second.zeros x word outside c found holds
    · push Not at later
      have early : b ∈ fresh := (List.mem_append.mp member).resolve_right
        fun found => later b found inside
      rw [second.kept x word outside later]
      exact first.zeros x word outside b early inside
  kept x word outside apart := by
    rw [second.kept x word outside fun b member => apart b (List.mem_append_right _ member)]
    exact first.kept x word outside fun b member => apart b (List.mem_append_left _ member)

end CallEffect

section Mapping

variable {File : Type} {p : Profile} (touched : List Block) {mm mm' : MemoryManager}

theorem MapRequest.call_effect (ram : Ram) {host : Host} (lawful : host.Lawful)
    (wf : mm.vmaMap.WellFormed) {r : MapRequest} (word : r.size < 2 ^ 64) (free : ¬ r.fixed) (inUse : r.vmaType ≠ .free)
    {result : Except MemoryError Nat} (returned : r.call p host mm = .ok (result, mm')) :
    (∃ e, result = .error e ∧ mm' = mm) ∨ ∃ addr, result = .ok addr ∧
      CallEffect touched mm ram [(addr, roundUp r.size pageSize)] mm'
        (ram.zero addr (roundUp r.size pageSize)) := by
  cases result with
  | error e => exact .inl ⟨e, rfl, (MemoryCall.map lawful word returned).stored⟩
  | ok addr => exact .inr ⟨addr, rfl, .zero (call_extends lawful wf word free inUse returned)⟩

variable {state next : GuestState File}

theorem mapFresh_effect {host : Host} (lawful : host.Lawful) (wf : mm.vmaMap.WellFormed)
    (manager : state.exports.memoryManager = some mm) {r : MapRequest} (word : r.size < 2 ^ 64)
    (free : ¬ r.fixed) (inUse : r.vmaType ≠ .free) {addr : Option Nat}
    (returned : state.mapFresh p host r = .ok (addr, next)) :
    (addr = none ∧ next = state) ∨ ∃ a mm', addr = some a ∧
      next.exports.memoryManager = some mm' ∧
      next.exports.physMappings = state.exports.physMappings ∧
      CallEffect touched mm state.ram [(a, roundUp r.size pageSize)] mm' next.ram := by
  unfold GuestState.mapFresh at returned
  rw [manager] at returned
  obtain ⟨⟨result, mm'⟩, called, rest⟩ := Outcome.bind_eq_ok.mp returned
  rcases MapRequest.call_effect touched state.ram lawful wf word free inUse called with ⟨e, rfl, rfl⟩ | ⟨a, rfl, effect⟩
  · cases rest
    refine .inl ⟨rfl, ?_⟩
    rw [← manager]
  · cases rest
    exact .inr ⟨a, mm', rfl, rfl, rfl, effect⟩

theorem hleAllocatePhys_effect {host : Host} (lawful : host.Lawful) (wf : mm.vmaMap.WellFormed)
    (manager : state.exports.memoryManager = some mm) {name : String} {len physAddrOut value : Nat}
    (word : len < 2 ^ 64)
    (returned : hleAllocatePhys p state host name len physAddrOut = .ok (value, next)) :
    ∃ fresh mm', next.exports.memoryManager = some mm' ∧
      CallEffect (pointee physAddrOut 8) mm state.ram fresh mm' next.ram := by
  obtain ⟨⟨addr, middle⟩, mapped, rest⟩ := Outcome.bind_eq_ok.mp returned
  have free : ¬ (MapRequest.directPhys name len).fixed := fun fixed => fixed.1 rfl
  have inUse : (MapRequest.directPhys name len).vmaType ≠ .free := (by decide : VMAType.direct ≠ .free)
  rcases mapFresh_effect (pointee physAddrOut 8) lawful wf manager word free inUse mapped with
    ⟨rfl, rfl⟩ | ⟨a, mm', rfl, stored, -, effect⟩
  · cases rest
    exact ⟨[], mm, manager, .plain fun _ _ _ => rfl⟩
  · cases rest
    exact ⟨_, mm', stored, effect.store fun x _ outside => put_untouched (by simp) outside⟩

theorem malloc_effect {host : Host} (lawful : host.Lawful) (wf : mm.vmaMap.WellFormed)
    (manager : state.exports.memoryManager = some mm) {len value : Nat} (word : len < 2 ^ 64)
    (returned : malloc p state host len = .ok (value, next)) :
    ∃ fresh mm', next.exports.memoryManager = some mm' ∧
      CallEffect touched mm state.ram fresh mm' next.ram ∧
      (value ≠ 0 → fresh = [(value, roundUp (if len = 0 then 4096 else len) pageSize)]) := by
  obtain ⟨⟨addr, middle⟩, mapped, rest⟩ := Outcome.bind_eq_ok.mp returned
  have small : (if len = 0 then 4096 else len) < 2 ^ 64 := by split <;> omega
  have free : ¬ (MapRequest.heapAlloc "heap_alloc" (if len = 0 then 4096 else len)).fixed :=
    fun fixed => fixed.1 rfl
  have inUse : (MapRequest.heapAlloc "heap_alloc" (if len = 0 then 4096 else len)).vmaType ≠ .free :=
    (by decide : VMAType.flexible ≠ .free)
  rcases mapFresh_effect touched lawful wf manager small free inUse mapped with
    ⟨rfl, rfl⟩ | ⟨a, mm', rfl, stored, -, effect⟩
  · cases rest
    exact ⟨[], mm, manager, .plain fun _ _ _ => rfl, fun nonzero => absurd rfl nonzero⟩
  · cases rest
    exact ⟨_, mm', stored, effect, fun _ => rfl⟩

theorem mapThreadData_effect {host : Host} (lawful : host.Lawful) (wf : mm.vmaMap.WellFormed)
    {size addr : Nat} (word : size < 2 ^ 64) {name : String} {ram ram' : Ram}
    (returned : mapThreadData p host mm ram size name = .ok (addr, mm', ram')) :
    (addr = 0 ∧ mm' = mm ∧ ram' = ram) ∨
      (mm.Extends (addr, roundUp size pageSize) mm' ∧ ram' = ram.zero addr (roundUp size pageSize)) := by
  obtain ⟨⟨result, mm₁⟩, called, rest⟩ := Outcome.bind_eq_ok.mp returned
  have free : ¬ (MapRequest.threadData name size).fixed := fun fixed => fixed.1 rfl
  have inUse : (MapRequest.threadData name size).vmaType ≠ .free :=
    (by decide : VMAType.threadData ≠ .free)
  cases result with
  | error e =>
    cases rest
    exact .inl ⟨rfl, (MemoryCall.map lawful word called).stored, rfl⟩
  | ok a =>
    cases rest
    exact .inr ⟨MapRequest.call_extends lawful wf word free inUse called, rfl⟩

end Mapping

/-! ### Threads -/

theorem Ram.write_zeros {ram : Ram} {dest n x : Nat} (zeros : Ram.Covers dest n x → ram x = 0) :
    ram.write dest (List.replicate n 0) x = ram x := by
  by_cases covers : Ram.Covers dest n x
  · rw [zeros covers, Ram.write, List.getElem?_replicate_of_lt covers, Option.getD_some]
  · exact Ram.write_uncovered (by rwa [List.length_replicate])

section Thread

variable {p : Profile} {mm : MemoryManager}

theorem startNativeThread_frame {spawns : Bool} {state next : ThreadState} {call : ThreadCall}
    {name : String} {tcbBase stackBase value : Nat} (page : pageSize ∣ stackBase)
    (bounded : stackBase + NativeThread.stackSize ≤ hostLimit)
    (returned : startNativeThread p spawns state call name tcbBase stackBase = .ok (value, next)) :
    next.exports = state.exports ∧ ∀ x, ¬ Touched (pointee call.threadOut 8) x →
      next.ram x = state.ram.write64 (stackBase + NativeThread.stackSize - 8) 0 x := by
  have word : stackBase + NativeThread.stackSize < 2 ^ 64 := lt_of_le_of_lt bounded (by decide)
  have aligned : (stackBase + NativeThread.stackSize) &&& complement 64 0xF =
      stackBase + NativeThread.stackSize := by
    have mask : 0xF = 2 ^ 4 - 1 := by decide
    rw [mask, land_complement_low word (by decide)]
    refine Nat.div_mul_cancel (Dvd.dvd.add ?_ (by decide))
    exact (by decide : 2 ^ 4 ∣ pageSize).trans page
  have room : 8 ≤ stackBase + NativeThread.stackSize := Nat.le_add_left_of_le (by decide)
  rw [startNativeThread, Profile.add_of_lt word, Outcome.ok_bind, aligned,
    Profile.sub_of_le room] at returned
  cases returned
  refine ⟨rfl, fun x outside => ?_⟩
  dsimp only
  split
  · rfl
  · next notNull => exact write_untouched notNull (by simp) outside

theorem scePthreadCreate_effect {host : ThreadHost} (lawful : host.Lawful)
    (wf : mm.vmaMap.WellFormed) {state next : ThreadState}
    (manager : state.exports.memoryManager = some mm) {call : ThreadCall} {value : Nat}
    (returned : scePthreadCreate p host state call = .ok (value, next)) :
    ∃ fresh mm', next.exports.memoryManager = some mm' ∧
      CallEffect (pointee call.threadOut 8) mm state.ram fresh mm' next.ram := by
  unfold scePthreadCreate at returned
  rw [manager] at returned
  obtain ⟨⟨tcbBase, mm₁, ram₁⟩, tcb, behind⟩ := Outcome.bind_eq_ok.mp returned
  obtain ⟨⟨stackBase, mm₂, ram₂⟩, stack, rest⟩ := Outcome.bind_eq_ok.mp behind
  have first : ∃ fresh, CallEffect (pointee call.threadOut 8) mm state.ram fresh mm₁ ram₁ := by
    rcases mapThreadData_effect lawful.tcb wf (by decide) tcb with ⟨-, rfl, rfl⟩ | ⟨added, rfl⟩
    · exact ⟨_, .plain fun _ _ _ => rfl⟩
    · exact ⟨_, .zero added⟩
  obtain ⟨fresh, first⟩ := first
  have wf₁ := first.extension.wellFormed wf
  rcases mapThreadData_effect lawful.stack wf₁ (by decide) stack with ⟨rfl, rfl, rfl⟩ | ⟨added, rfl⟩
  · dsimp only at rest
    rw [if_neg fun both => both.2 rfl] at rest
    cases rest
    exact ⟨fresh, _, rfl, first⟩
  · have both := first.trans (.zero added)
    rw [roundUp_stackSize] at both added
    dsimp only at rest
    split at rest
    · obtain ⟨same, frame⟩ := startNativeThread_frame added.page added.bounded rest
      refine ⟨_, mm₂, by rw [same], both.store fun x word outside => (frame x outside).trans ?_⟩
      -- the entry word is a zero in a fresh block
      rw [Ram.write64, (by decide : leBytes 8 0 = List.replicate 8 0)]
      refine Ram.write_zeros fun covers => Ram.zero_inside ?_
      have bounded : stackBase + NativeThread.stackSize ≤ hostLimit := added.bounded
      have limit : hostLimit < 2 ^ 64 := by decide
      have room : 8 ≤ NativeThread.stackSize := by decide
      unfold Ram.Covers at covers
      rw [roundUp_stackSize]
      dsimp only at covers ⊢
      omega
    · cases rest
      exact ⟨_, mm₂, rfl, both⟩

end Thread

/-! ### All exports -/

/-- `read` fills no more than its buffer. -/
def FileOps.Bounded {File : Type} (ops : FileOps File) : Prop :=
  ∀ file len bytes next, ops.read file len = (some bytes, next) → bytes.length ≤ len

section Calls

variable {File : Type} {p : Profile} {ops : FileOps File}

theorem fread_written_le (bounded : ops.Bounded) {stdio next : Stdio File} {reply : Reply}
    {buf size count filePtr : Nat}
    (returned : fread p ops stdio buf size count filePtr = .ok (reply, next)) :
    reply.written.length ≤ size * count := by
  obtain ⟨total, product, rest⟩ := Outcome.bind_eq_ok.mp returned
  have small : total ≤ size * count := by
    unfold Profile.mul Profile.fit at product
    split at product
    · cases product
      exact le_rfl
    · cases p <;> cases product
      exact Nat.mod_le _ _
  split at rest
  · cases rest
    exact Nat.zero_le _
  · obtain ⟨_, -, rest⟩ := Outcome.bind_eq_ok.mp rest
    obtain ⟨own, -⟩ := withFile_spec _ _ (Outcome.ok.inj rest)
    cases opened : stdio.stream filePtr with
    | none =>
      rw [opened] at own
      obtain ⟨rfl, -⟩ := Prod.mk.inj own
      exact Nat.zero_le _
    | some file =>
      rw [opened, onStream, freadFile] at own
      obtain ⟨rfl, -⟩ := Prod.mk.inj own
      split
      · next bytes after answer => exact (bounded file total bytes after answer).trans small
      · exact Nat.zero_le _

/-- The host's answers to both kinds of mapping. -/
structure ExportHost.Lawful (host : ExportHost File) : Prop where
  mmap : host.mmap.Lawful
  thread : host.thread.Lawful

variable {host : ExportHost File} {args : ExportArgs} {state next : GuestState File}
  {mm : MemoryManager}

/-- Whatever the export is, it writes its footprint and maps fresh pages, and
nothing else changes. -/
theorem Export.run_effect (bounded : ops.Bounded) (lawful : host.Lawful)
    (wf : mm.vmaMap.WellFormed) (manager : state.exports.memoryManager = some mm) {arm : Export}
    {value : Nat} (returned : arm.run p ops host args state = .ok (value, next)) :
    ∃ fresh mm', next.exports.memoryManager = some mm' ∧
      CallEffect (arm.footprint state.ram args) mm state.ram fresh mm' next.ram := by
  -- a call that leaves the memory manager alone
  have plain : ∀ {next : GuestState File}, next.exports = state.exports →
      (∀ x, ¬ Touched (arm.footprint state.ram args) x → next.ram x = state.ram x) →
      ∃ fresh mm', next.exports.memoryManager = some mm' ∧
        CallEffect (arm.footprint state.ram args) mm state.ram fresh mm' next.ram :=
    fun same frame => ⟨[], mm, by rw [same, manager], .plain fun x _ => frame x⟩
  cases arm with
  | constant _ | memcmp | sinf | tanf | asinf | acosf | atan2f | rand | unhandled =>
    cases returned
    exact plain rfl fun _ _ => rfl
  | exit => cases returned
  | cxaGuardAcquire =>
    cases returned
    exact plain rfl fun _ => cxaGuardAcquire_untouched
  | cxaGuardRelease =>
    cases returned
    exact plain rfl fun _ => cxaGuardRelease_untouched
  | memcpy =>
    obtain ⟨⟨_, after⟩, copied, rest⟩ := Outcome.bind_eq_ok.mp returned
    cases rest
    exact plain rfl fun _ => memcpy_untouched copied
  | memset =>
    cases returned
    exact plain rfl fun _ => memset_untouched
  | strcpy =>
    cases returned
    exact plain rfl fun _ => strcpy_untouched args.rdi.toNat_lt args.rsi.toNat_lt
  | strcat =>
    cases returned
    exact plain rfl fun _ => strcat_untouched args.rsi.toNat_lt
  | strlen | strcmp | printf | puts | padOpen =>
    obtain ⟨_, -, rest⟩ := Outcome.bind_eq_ok.mp returned
    cases rest
    exact plain rfl fun _ _ => rfl
  | vsnprintf =>
    obtain ⟨⟨_, after⟩, formatted, rest⟩ := Outcome.bind_eq_ok.mp returned
    cases rest
    exact plain rfl fun _ => vsnprintf_untouched formatted
  | fopen =>
    rw [Export.run, hleFopen] at returned
    split at returned
    · cases returned
      exact plain rfl fun _ _ => rfl
    · obtain ⟨_, -, rest⟩ := Outcome.bind_eq_ok.mp returned
      obtain ⟨_, -, last⟩ := Outcome.bind_eq_ok.mp rest
      cases last
      exact plain rfl fun _ _ => rfl
  | fread =>
    obtain ⟨⟨reply, stdio⟩, read, rest⟩ := Outcome.bind_eq_ok.mp returned
    cases rest
    have short := fread_written_le bounded (Outcome.widen_eq_ok.mp read)
    exact plain rfl fun _ => put_untouched short
  | fclose | fseek | ftell =>
    cases returned
    exact plain rfl fun _ _ => rfl
  | malloc =>
    obtain ⟨fresh, mm', stored, effect, -⟩ := malloc_effect _ lawful.mmap wf manager
      args.rdi.toNat_lt (Outcome.widen_eq_ok.mp returned)
    exact ⟨fresh, mm', stored, effect⟩
  | allocateDirectMemory =>
    exact hleAllocatePhys_effect lawful.mmap wf manager args.rdx.toNat_lt
      (Outcome.widen_eq_ok.mp returned)
  | allocateMainDirectMemory =>
    exact hleAllocatePhys_effect lawful.mmap wf manager args.rdi.toNat_lt
      (Outcome.widen_eq_ok.mp returned)
  | createEqueue =>
    obtain ⟨_, -, rest⟩ := Outcome.bind_eq_ok.mp returned
    cases rest
    exact plain rfl fun _ => put_untouched (by simp)
  | pthreadCreate =>
    rw [Export.run, hlePthreadCreate] at returned
    obtain ⟨name, -, rest⟩ := Outcome.bind_eq_ok.mp returned
    obtain ⟨⟨_, threadState⟩, created, last⟩ := Outcome.bind_eq_ok.mp rest
    cases last
    exact scePthreadCreate_effect lawful.thread wf manager (Outcome.widen_eq_ok.mp created)
  | mapDirectMemory | waitEqueue | writeOne | setBufferAttribute | getLoginUserIdList =>
    cases returned
    exact plain rfl fun _ => put_untouched (by simp [bufferAttribute])
  | getResolutionStatus =>
    cases returned
    exact plain rfl fun _ => writeResolutionStatus_untouched
  | padReadState =>
    cases returned
    exact plain rfl fun _ => writePadState_untouched
  | drawInitDefaultHardwareState350 =>
    cases returned
    exact plain rfl fun _ => drawInit_untouched
  | insertWaitFlipDone =>
    cases returned
    exact plain rfl fun _ => insertWait_untouched
  | submitCommandBuffers | submitDone =>
    obtain ⟨_, -, rest⟩ := Outcome.bind_eq_ok.mp returned
    cases rest
    exact plain rfl fun _ _ => rfl
  | getStatus =>
    obtain ⟨_, -, rest⟩ := Outcome.bind_eq_ok.mp returned
    cases rest
    exact plain rfl fun _ => put_untouched (by simp)

end Calls

/-! ### Statics -/

def Export.submits (ram : Ram) (args : ExportArgs) : Export → List (List UInt32)
  | .submitCommandBuffers => submittedBuffers ram args.rdi.toNat args.rsi.toNat args.rdx.toNat
  | _ => []

def Export.frames : Export → Nat
  | .submitDone | .getStatus => 1
  | _ => 0

section Statics

variable {File : Type} {p : Profile} {ops : FileOps File} {host : ExportHost File}
  {args : ExportArgs} {state next : GuestState File}

/-- What becomes of the GPU, of the random numbers and of the event queues. -/
structure StaticsEffect (arm : Export) (args : ExportArgs) (state : GuestState File) (value : Nat)
    (next : GuestState File) : Prop where
  processed : GpuContext.Processed (arm.submits state.ram args) (state.gpu.getD .default)
    (next.gpu.getD .default)
  frames : (next.gpu.getD .default).framesSubmitted % 2 ^ 64 =
    ((state.gpu.getD .default).framesSubmitted + arm.frames) % 2 ^ 64
  randState : next.randState = if arm = .rand then nextRand state.randState else state.randState
  draws : arm = .rand → value = randValue next.randState
  nextEqueueId : next.nextEqueueId =
    if arm = .createEqueue then (state.nextEqueueId + 1) % 2 ^ 32 else state.nextEqueueId

theorem StaticsEffect.rand {randState value : Nat} (advanced : randState = nextRand state.randState)
    (same : next = { state with randState }) (drawn : value = randValue randState) :
    StaticsEffect .rand args state value next := by
  subst same
  have none : Export.rand.frames = 0 := rfl
  refine ⟨.nil, by rw [none, Nat.add_zero], ?_, fun _ => drawn, ?_⟩
  · rw [if_pos rfl]
    exact advanced
  · rw [if_neg (by simp)]

theorem mapFresh_statics {host : Host} {r : MapRequest} {addr : Option Nat}
    (returned : state.mapFresh p host r = .ok (addr, next)) : next.toStatics = state.toStatics := by
  unfold GuestState.mapFresh at returned
  cases manager : state.exports.memoryManager with
  | none =>
    rw [manager] at returned
    cases returned
    rfl
  | some mm =>
    rw [manager] at returned
    obtain ⟨⟨result, mm'⟩, -, rest⟩ := Outcome.bind_eq_ok.mp returned
    cases result <;> cases rest <;> rfl

theorem malloc_statics {host : Host} {len value : Nat}
    (returned : malloc p state host len = .ok (value, next)) : next.toStatics = state.toStatics := by
  obtain ⟨⟨addr, middle⟩, mapped, rest⟩ := Outcome.bind_eq_ok.mp returned
  cases rest
  exact mapFresh_statics mapped

theorem hleAllocatePhys_statics {host : Host} {name : String} {len physAddrOut value : Nat}
    (returned : hleAllocatePhys p state host name len physAddrOut = .ok (value, next)) :
    next.toStatics = state.toStatics := by
  obtain ⟨⟨addr, middle⟩, mapped, rest⟩ := Outcome.bind_eq_ok.mp returned
  rw [← mapFresh_statics mapped]
  cases addr <;> cases rest <;> rfl

theorem Export.run_statics {arm : Export} {value : Nat}
    (returned : arm.run p ops host args state = .ok (value, next)) :
    StaticsEffect arm args state value next := by
  have still : ∀ {next : GuestState File}, arm.frames = 0 → next.gpu = state.gpu →
      (next.gpu.getD .default).framesSubmitted % 2 ^ 64 =
        ((state.gpu.getD .default).framesSubmitted + arm.frames) % 2 ^ 64 :=
    fun frames gpu => by rw [frames, gpu, Nat.add_zero]
  -- an arm that uses none of the three
  have quiet : ∀ {next : GuestState File}, arm.submits state.ram args = [] → arm.frames = 0 →
      arm ≠ .rand → arm ≠ .createEqueue → next.gpu = state.gpu →
      next.randState = state.randState → next.nextEqueueId = state.nextEqueueId →
      StaticsEffect arm args state value next := by
    intro next submits frames notRand notQueue gpu rand queue
    refine ⟨?_, still frames gpu, ?_, fun draws => absurd draws notRand, ?_⟩
    · rw [submits, gpu]
      exact .nil
    · rw [if_neg notRand, rand]
    · rw [if_neg notQueue, queue]
  have same : ∀ {next : GuestState File}, arm.submits state.ram args = [] → arm.frames = 0 →
      arm ≠ .rand → arm ≠ .createEqueue → next.toStatics = state.toStatics →
      StaticsEffect arm args state value next :=
    fun submits frames notRand notQueue statics => quiet submits frames notRand notQueue
      (congrArg Statics.gpu statics) (congrArg Statics.randState statics)
      (congrArg Statics.nextEqueueId statics)
  cases arm with
  | constant _ | memcmp | sinf | tanf | asinf | acosf | atan2f | cxaGuardAcquire | cxaGuardRelease
  | memset | strcpy | strcat | mapDirectMemory | waitEqueue | writeOne
  | setBufferAttribute | getLoginUserIdList | getResolutionStatus | padReadState
  | drawInitDefaultHardwareState350 | insertWaitFlipDone | fclose | fseek | ftell | unhandled =>
    cases returned
    exact quiet rfl rfl (by simp) (by simp) rfl rfl rfl
  | exit => cases returned
  | memcpy | strlen | strcmp | printf | puts | padOpen | vsnprintf | fread =>
    obtain ⟨_, -, rest⟩ := Outcome.bind_eq_ok.mp returned
    cases rest
    exact quiet rfl rfl (by simp) (by simp) rfl rfl rfl
  | fopen =>
    rw [Export.run, hleFopen] at returned
    split at returned
    · cases returned
      exact quiet rfl rfl (by simp) (by simp) rfl rfl rfl
    · obtain ⟨_, -, rest⟩ := Outcome.bind_eq_ok.mp returned
      obtain ⟨_, -, last⟩ := Outcome.bind_eq_ok.mp rest
      cases last
      exact quiet rfl rfl (by simp) (by simp) rfl rfl rfl
  | malloc =>
    exact same rfl rfl (by simp) (by simp) (malloc_statics (Outcome.widen_eq_ok.mp returned))
  | allocateDirectMemory | allocateMainDirectMemory =>
    exact same rfl rfl (by simp) (by simp)
      (hleAllocatePhys_statics (Outcome.widen_eq_ok.mp returned))
  | pthreadCreate =>
    rw [Export.run, hlePthreadCreate] at returned
    obtain ⟨_, -, rest⟩ := Outcome.bind_eq_ok.mp returned
    obtain ⟨_, -, last⟩ := Outcome.bind_eq_ok.mp rest
    cases last
    exact same rfl rfl (by simp) (by simp) rfl
  | createEqueue =>
    obtain ⟨_, -, rest⟩ := Outcome.bind_eq_ok.mp returned
    cases rest
    exact ⟨.nil, still rfl rfl, (if_neg (by simp)).symm, by simp, (if_pos rfl).symm⟩
  | rand =>
    obtain ⟨drawn, same⟩ := Prod.mk.inj (Outcome.ok.inj returned)
    exact .rand rfl same.symm drawn.symm
  | submitCommandBuffers =>
    obtain ⟨gpu, submitted, rest⟩ := Outcome.bind_eq_ok.mp returned
    cases rest
    obtain ⟨processed, frames⟩ := sceGnmSubmitCommandBuffers_processed submitted
    refine ⟨processed, ?_, (if_neg (by simp)).symm, by simp, (if_neg (by simp)).symm⟩
    have none : Export.submitCommandBuffers.frames = 0 := rfl
    rw [none, Nat.add_zero, ← frames]
  | submitDone | getStatus =>
    obtain ⟨gpu, ended, rest⟩ := Outcome.bind_eq_ok.mp returned
    cases rest
    obtain ⟨processed, frames⟩ := GpuContext.submitDone_processed (withGpu_eq_ok ended)
    refine ⟨processed, ?_, (if_neg (by simp)).symm, by simp, (if_neg (by simp)).symm⟩
    have one : Export.submitDone.frames = 1 ∧ Export.getStatus.frames = 1 := ⟨rfl, rfl⟩
    simp only [one.1, one.2]
    rw [← Nat.mod_mod (_ + 1), ← frames]

end Statics

end AnotherPs4
