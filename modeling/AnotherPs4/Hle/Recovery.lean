import AnotherPs4.Hle.Dispatcher

/-!
# The SIGSEGV handler

After a fault the handler lets the guest return from a frame of its RBP chain,
or, if none has a return address in guest code, from the word at RSP. Both cases
compute the new RSP from the last link of the chain. A `dev` build aborts at a
word that is not aligned.
-/

namespace AnotherPs4

open Rust

/-- The entries of `gregs` in a signal context. -/
inductive Reg where
  | r8 | r9 | r10 | r11 | r12 | r13 | r14 | r15
  | rdi | rsi | rbp | rbx | rdx | rax | rcx | rsp | rip
  | efl | csgsfs | err | trapno | oldmask | cr2
  deriving DecidableEq, Repr

abbrev Gregs := Reg → Nat

def Gregs.set (gregs : Gregs) (reg : Reg) (value : Nat) : Gregs :=
  fun other => if other = reg then value else gregs other

/-- What a signal handler can change of the thread it interrupted. -/
structure TrapContext where
  gregs : Gregs
  fsBase : Nat

def maxSigsegvRecoveries : Nat := 512

def guestBase : Nat := 0x1000000000

def guestEnd : Nat := 0x1001000000

def InGuest (addr : Nat) : Prop := guestBase ≤ addr ∧ addr < guestEnd

instance (addr : Nat) : Decidable (InGuest addr) :=
  inferInstanceAs (Decidable (guestBase ≤ addr ∧ addr < guestEnd))

/-- The variables of the handler after the walk over the frames. -/
structure Unwound where
  foundRet : Nat
  foundRbp : Nat
  frameRbp : Nat
  deriving DecidableEq, Repr

/-- The walk over at most `depth` frames. -/
def unwind (p : Profile) (ram : Ram) : Nat → Nat → Outcome Stop Unwound
  | 0, frameRbp => .ok ⟨0, 0, frameRbp⟩
  | depth + 1, frameRbp =>
    if frameRbp = 0 ∨ frameRbp < 0x1000 then .ok ⟨0, 0, frameRbp⟩
    else do
      p.debugCheck .misaligned (frameRbp % 8 = 0)
      let savedRbp := ram.read64 frameRbp
      let retAddr := ram.read64 (← p.add 64 frameRbp 8)
      if InGuest retAddr then .ok ⟨retAddr, savedRbp, frameRbp⟩
      else unwind p ram depth savedRbp

/-- Without a frame the word at RSP is taken, if it is guest code. -/
def Unwound.orStack (p : Profile) (walked : Unwound) (ram : Ram) (gregs : Gregs) :
    Outcome Stop Unwound :=
  if walked.foundRet = 0 then do
    p.debugCheck .misaligned (gregs .rsp % 8 = 0)
    let stackRet := ram.read64 (gregs .rsp)
    return if InGuest stackRet then
      { walked with foundRet := stackRet, foundRbp := gregs .rbp }
    else walked
  else return walked

/-- Go on at the return address, with the FS base of the guest. -/
def Unwound.resume (p : Profile) (hostFs : Nat) (context : TrapContext) (walked : Unwound) :
    Outcome Stop TrapContext :=
  let guestFs := context.fsBase
  let fsBase := if hostFs ≠ 0 then hostFs else guestFs
  if walked.foundRet ≠ 0 then do
    let past ← p.add 64 walked.frameRbp 16
    let gregs := (((context.gregs.set .rip walked.foundRet).set .rbp walked.foundRbp).set .rsp
      past).set .rax 0
    return { gregs, fsBase := if guestFs ≠ 0 then guestFs else fsBase }
  else .err .abort

def sigsegvHandler (p : Profile) (hostFs count : Nat) (ram : Ram) (context : TrapContext) :
    Outcome Stop (TrapContext × Nat) :=
  if count < maxSigsegvRecoveries then do
    let walked ← unwind p ram 16 (context.gregs .rbp)
    let walked ← walked.orStack p ram context.gregs
    let resumed ← walked.resume p hostFs context
    return (resumed, (count + 1) % 2 ^ 64)
  else .err .abort

/-! ### Returns -/

/-- The registers after `ret` from the slot, with 0 as the result and the given
frame pointer. -/
def Gregs.ret (ram : Ram) (gregs : Gregs) (slot savedRbp : Nat) : Gregs
  | .rip => ram.read64 slot
  | .rsp => (slot + 8) % 2 ^ 64
  | .rax => 0
  | .rbp => savedRbp
  | reg => gregs reg

namespace Ram

/-- Frame `k` of the chain that starts at `rbp`. -/
def link (ram : Ram) (rbp k : Nat) : Nat := ram.read64^[k] rbp

def returnSlot (frame : Nat) : Nat := (frame + 8) % 2 ^ 64

/-- The first `k` frames do not return to guest code. -/
def Passes (ram : Ram) (rbp k : Nat) : Prop :=
  ∀ j < k, 0x1000 ≤ ram.link rbp j ∧ ¬ InGuest (ram.read64 (returnSlot (ram.link rbp j)))

/-- The chain stops at frame `k`, and no frame before it returns to guest code. -/
def ChainEnds (ram : Ram) (rbp k : Nat) : Prop :=
  k ≤ 16 ∧ ram.Passes rbp k ∧ (k = 16 ∨ ram.link rbp k < 0x1000)

end Ram

/-- Where the return address lies that the handler is to use, and the frame
pointer of the caller. -/
inductive ReturnsFrom (ram : Ram) (gregs : Gregs) : Nat → Nat → Prop where
  | frame {k} : k < 16 → ram.Passes (gregs .rbp) k → 0x1000 ≤ ram.link (gregs .rbp) k →
      InGuest (ram.read64 (Ram.returnSlot (ram.link (gregs .rbp) k))) →
      ReturnsFrom ram gregs (Ram.returnSlot (ram.link (gregs .rbp) k))
        (ram.read64 (ram.link (gregs .rbp) k))
  | stack {k} : ram.ChainEnds (gregs .rbp) k → InGuest (ram.read64 (gregs .rsp)) →
      ReturnsFrom ram gregs (gregs .rsp) (gregs .rbp)

/-- When the guest is resumed, it has returned. -/
def ResumesByReturn (p : Profile) (hostFs count : Nat) (ram : Ram) (context : TrapContext) : Prop :=
  ∀ resumed count', sigsegvHandler p hostFs count ram context = .ok (resumed, count') →
    ∃ slot savedRbp, ReturnsFrom ram context.gregs slot savedRbp ∧
      resumed.gregs = context.gregs.ret ram slot savedRbp

def ReadsWord (p : Profile) (addr : Nat) : Prop := p = .dev → addr % 8 = 0

def ReadsFrame (p : Profile) (frame : Nat) : Prop := ReadsWord p frame ∧ p.SumFits frame 8

/-- If the return address is taken from RSP, the chain has ended right below it. -/
def FallbackLinked (p : Profile) (count : Nat) (ram : Ram) (gregs : Gregs) : Prop :=
  count < maxSigsegvRecoveries → InGuest (ram.read64 (gregs .rsp)) →
    ∀ k, ram.ChainEnds (gregs .rbp) k → (∀ j < k, ReadsFrame p (ram.link (gregs .rbp) j)) →
      ReadsWord p (gregs .rsp) → p.SumFits (ram.link (gregs .rbp) k) 16 →
      (ram.link (gregs .rbp) k + 16) % 2 ^ 64 = (gregs .rsp + 8) % 2 ^ 64

section Walk

variable {p : Profile} {ram : Ram}

namespace Ram

@[simp] theorem link_zero (rbp : Nat) : ram.link rbp 0 = rbp := rfl

@[simp] theorem link_succ (rbp k : Nat) :
    ram.link rbp (k + 1) = ram.link (ram.read64 rbp) k := by
  simp only [link, Function.iterate_succ_apply]

theorem passes_zero (rbp : Nat) : ram.Passes rbp 0 := fun _ below => absurd below (by omega)

theorem passes_succ {rbp k : Nat} : ram.Passes rbp (k + 1) ↔
    (0x1000 ≤ rbp ∧ ¬ InGuest (ram.read64 (returnSlot rbp))) ∧ ram.Passes (ram.read64 rbp) k := by
  simp only [Passes, Nat.forall_lt_succ_left, link_zero, link_succ]

end Ram

theorem readsWord_iff {addr : Nat} :
    (p.debugCheck .misaligned (decide (addr % 8 = 0)) : Outcome Stop Unit).Returns ↔
      ReadsWord p addr := by
  rw [Profile.debugCheck_returns, decide_eq_true_eq]
  rfl

/-- A walk that came to its end has left a frame or passed them all. -/
theorem unwind_eq_ok {depth rbp : Nat} {walked : Unwound}
    (run : unwind p ram depth rbp = .ok walked) :
    (∃ k < depth, ram.Passes rbp k ∧ 0x1000 ≤ ram.link rbp k ∧
      InGuest (ram.read64 (Ram.returnSlot (ram.link rbp k))) ∧
      walked = ⟨ram.read64 (Ram.returnSlot (ram.link rbp k)), ram.read64 (ram.link rbp k),
        ram.link rbp k⟩) ∨
    (∃ k ≤ depth, ram.Passes rbp k ∧ (k = depth ∨ ram.link rbp k < 0x1000) ∧
      (∀ j < k, ReadsFrame p (ram.link rbp j)) ∧ walked = ⟨0, 0, ram.link rbp k⟩) := by
  induction depth generalizing rbp with
  | zero =>
    cases run
    exact .inr ⟨0, le_rfl, Ram.passes_zero rbp, .inl rfl, nofun, rfl⟩
  | succ depth inductionHypothesis =>
    unfold unwind at run
    split at run
    · next small =>
      cases run
      exact .inr ⟨0, by omega, Ram.passes_zero rbp, .inr (by simp; omega), nofun, rfl⟩
    · next large =>
      obtain ⟨_, aligned, run⟩ := Outcome.bind_eq_ok.mp run
      obtain ⟨slot, added, run⟩ := Outcome.bind_eq_ok.mp run
      have fits : ReadsFrame p rbp :=
        ⟨readsWord_iff.mp ⟨_, aligned⟩, Profile.add_returns.mp ⟨slot, added⟩⟩
      obtain rfl : slot = Ram.returnSlot rbp := Profile.add_eq_ok added
      dsimp only at run
      split at run
      · next found =>
        obtain rfl := Outcome.ok.inj run
        refine .inl ⟨0, by omega, Ram.passes_zero rbp, ?_⟩
        simp only [Ram.link_zero, and_true]
        exact ⟨by omega, found⟩
      · next skipped =>
        have here : 0x1000 ≤ rbp ∧ ¬ InGuest (ram.read64 (Ram.returnSlot rbp)) :=
          ⟨by omega, skipped⟩
        rcases inductionHypothesis run with ⟨k, shallow, passes, rest⟩ |
          ⟨k, shallow, passes, ends, sums, rest⟩
        · refine .inl ⟨k + 1, by omega, Ram.passes_succ.mpr ⟨here, passes⟩, ?_⟩
          simpa only [Ram.link_succ] using rest
        · refine .inr ⟨k + 1, by omega, Ram.passes_succ.mpr ⟨here, passes⟩, ?_⟩
          simp only [Ram.link_succ, Nat.forall_lt_succ_left, Ram.link_zero]
          exact ⟨ends.imp_left (congrArg (· + 1)), ⟨fits, sums⟩, rest⟩

theorem unwind_of_ends {depth rbp k : Nat} (shallow : k ≤ depth) (passes : ram.Passes rbp k)
    (ends : k = depth ∨ ram.link rbp k < 0x1000)
    (fits : ∀ j < k, ReadsFrame p (ram.link rbp j)) :
    unwind p ram depth rbp = .ok ⟨0, 0, ram.link rbp k⟩ := by
  induction depth generalizing rbp k with
  | zero =>
    obtain rfl : k = 0 := by omega
    rfl
  | succ depth inductionHypothesis =>
    cases k with
    | zero =>
      have small : rbp < 0x1000 := by simpa using ends
      simp [unwind, small]
    | succ k =>
      obtain ⟨⟨large, skipped⟩, passes⟩ := Ram.passes_succ.mp passes
      simp only [Nat.forall_lt_succ_left, Ram.link_succ, Ram.link_zero] at fits
      obtain ⟨⟨aligned, fit⟩, fits⟩ := fits
      obtain ⟨_, checked⟩ := readsWord_iff.mpr aligned
      obtain ⟨slot, added⟩ : (p.add 64 rbp 8 : Outcome Stop Nat).Returns :=
        Profile.add_returns.mpr fit
      have walked := inductionHypothesis (by omega) passes (by simpa using ends) fits
      have inside : ¬ (rbp = 0 ∨ rbp < 0x1000) := by omega
      obtain rfl : slot = Ram.returnSlot rbp := Profile.add_eq_ok added
      simp only [unwind, if_neg inside, checked, added, Outcome.ok_bind, if_neg skipped, walked,
        Ram.link_succ]

end Walk

theorem InGuest.ne_zero {addr : Nat} (inside : InGuest addr) : addr ≠ 0 := by
  unfold InGuest guestBase at inside
  omega

theorem set_eq_ret {ram : Ram} {gregs : Gregs} {slot savedRbp past : Nat}
    (rsp : past = (slot + 8) % 2 ^ 64) :
    (((gregs.set .rip (ram.read64 slot)).set .rbp savedRbp).set .rsp past).set .rax 0 =
      gregs.ret ram slot savedRbp := by
  funext reg
  cases reg <;> simp [Gregs.set, Gregs.ret, rsp]

section Resume

variable {p : Profile} {hostFs count : Nat} {ram : Ram} {context : TrapContext}

theorem Unwound.resume_eq_ok {walked : Unwound} {resumed : TrapContext}
    (run : walked.resume p hostFs context = .ok resumed) :
    walked.foundRet ≠ 0 ∧ p.SumFits walked.frameRbp 16 ∧ resumed.gregs =
      (((context.gregs.set .rip walked.foundRet).set .rbp walked.foundRbp).set .rsp
        ((walked.frameRbp + 16) % 2 ^ 64)).set .rax 0 := by
  unfold resume at run
  by_cases found : walked.foundRet ≠ 0
  · rw [if_pos found] at run
    obtain ⟨past, added, run⟩ := Outcome.bind_eq_ok.mp run
    cases run
    exact ⟨found, Profile.add_returns.mp ⟨past, added⟩, by rw [Profile.add_eq_ok added]⟩
  · rw [if_neg found] at run
    cases run

theorem Unwound.resume_returns {walked : Unwound} (found : walked.foundRet ≠ 0)
    (fit : p.SumFits walked.frameRbp 16) : (walked.resume p hostFs context).Returns := by
  unfold resume
  rw [if_pos found]
  exact (Outcome.returns_bind_of_forall fun past => Outcome.returns_ok _).mpr
    (Profile.add_returns.mpr fit)

theorem Unwound.orStack_found {foundRet : Nat} (found : foundRet ≠ 0) (foundRbp frameRbp : Nat)
    (gregs : Gregs) : Unwound.orStack p ⟨foundRet, foundRbp, frameRbp⟩ ram gregs =
      .ok ⟨foundRet, foundRbp, frameRbp⟩ :=
  if_neg found

theorem Unwound.orStack_none {frameRbp : Nat} {walked : Unwound} {gregs : Gregs} :
    Unwound.orStack p ⟨0, 0, frameRbp⟩ ram gregs = .ok walked ↔ ReadsWord p (gregs .rsp) ∧
      walked = if InGuest (ram.read64 (gregs .rsp)) then
        ⟨ram.read64 (gregs .rsp), gregs .rbp, frameRbp⟩ else ⟨0, 0, frameRbp⟩ := by
  rw [orStack, if_pos rfl, Outcome.bind_eq_ok]
  constructor
  · rintro ⟨_, aligned, same⟩
    exact ⟨readsWord_iff.mp ⟨_, aligned⟩, (Outcome.ok.inj same).symm⟩
  · rintro ⟨aligned, same⟩
    obtain ⟨_, checked⟩ := readsWord_iff.mpr aligned
    exact ⟨_, checked, congrArg Outcome.ok same.symm⟩

theorem Ram.ChainEnds.no_frame {rbp k j : Nat} (ends : ram.ChainEnds rbp k) (shallow : j < 16)
    (passes : ram.Passes rbp j) (large : 0x1000 ≤ ram.link rbp j)
    (found : InGuest (ram.read64 (returnSlot (ram.link rbp j)))) : False := by
  obtain ⟨-, passed, last⟩ := ends
  rcases Nat.lt_or_ge j k with before | behind
  · exact (passed j before).2 found
  · rcases last with deepest | small
    · omega
    · rcases Nat.eq_or_lt_of_le behind with same | before
      · subst same
        omega
      · have := (passes k before).1
        omega

/-- Once the chain has ended, the return address is the word at RSP. -/
theorem ReturnsFrom.slot_eq {gregs : Gregs} {slot savedRbp k : Nat}
    (source : ReturnsFrom ram gregs slot savedRbp) (ends : ram.ChainEnds (gregs .rbp) k) :
    slot = gregs .rsp := by
  cases source with
  | frame shallow passes large found => exact (ends.no_frame shallow passes large found).elim
  | stack => rfl

theorem sigsegvHandler_of_ends {k : Nat} (few : count < maxSigsegvRecoveries)
    (onStack : InGuest (ram.read64 (context.gregs .rsp)))
    (ends : ram.ChainEnds (context.gregs .rbp) k)
    (fits : ∀ j < k, ReadsFrame p (ram.link (context.gregs .rbp) j))
    (aligned : ReadsWord p (context.gregs .rsp)) (fit : p.SumFits (ram.link (context.gregs .rbp) k) 16) :
    ∃ resumed, sigsegvHandler p hostFs count ram context = .ok (resumed, (count + 1) % 2 ^ 64) ∧
      resumed.gregs .rip = ram.read64 (context.gregs .rsp) ∧
      resumed.gregs .rsp = (ram.link (context.gregs .rbp) k + 16) % 2 ^ 64 := by
  obtain ⟨shallow, passes, last⟩ := ends
  have walked := unwind_of_ends shallow passes last fits
  have stack : Unwound.orStack p ⟨0, 0, ram.link (context.gregs .rbp) k⟩ ram context.gregs =
      .ok ⟨ram.read64 (context.gregs .rsp), context.gregs .rbp, ram.link (context.gregs .rbp) k⟩ :=
    Unwound.orStack_none.mpr ⟨aligned, (if_pos onStack).symm⟩
  obtain ⟨resumed, resumes⟩ : (Unwound.resume p hostFs context
      ⟨ram.read64 (context.gregs .rsp), context.gregs .rbp, ram.link (context.gregs .rbp) k⟩).Returns :=
    Unwound.resume_returns onStack.ne_zero fit
  refine ⟨resumed, ?_, ?_, ?_⟩
  · rw [sigsegvHandler, if_pos few, walked, Outcome.ok_bind, stack, Outcome.ok_bind, resumes]
    rfl
  all_goals
    rw [(Unwound.resume_eq_ok resumes).2.2]
    simp [Gregs.set]

end Resume

/-- Every recovery is a return exactly if those that use RSP find the last link
of the chain right below it. -/
theorem sigsegvHandler_returns_iff (p : Profile) (hostFs count : Nat) (ram : Ram)
    (context : TrapContext) :
    ResumesByReturn p hostFs count ram context ↔ FallbackLinked p count ram context.gregs := by
  constructor
  · intro returns few onStack k ends fits aligned fit
    obtain ⟨resumed, run, -, rsp⟩ := sigsegvHandler_of_ends few onStack ends fits aligned fit
    obtain ⟨slot, savedRbp, source, same⟩ := returns _ _ run
    rw [← rsp, same, ← source.slot_eq ends]
    rfl
  · intro linked resumed count' run
    unfold sigsegvHandler at run
    split at run
    · next few =>
      obtain ⟨walked, walk, run⟩ := Outcome.bind_eq_ok.mp run
      obtain ⟨after, stack, run⟩ := Outcome.bind_eq_ok.mp run
      obtain ⟨resumed', resume, run⟩ := Outcome.bind_eq_ok.mp run
      cases run
      obtain ⟨found, fit, gregs⟩ := Unwound.resume_eq_ok resume
      rcases unwind_eq_ok walk with ⟨k, shallow, passes, large, inGuest, rfl⟩ |
        ⟨k, shallow, passes, last, fits, rfl⟩
      · rw [Unwound.orStack_found inGuest.ne_zero] at stack
        rw [← Outcome.ok.inj stack] at gregs
        refine ⟨_, _, .frame shallow passes large inGuest, gregs.trans (set_eq_ret ?_)⟩
        simp only [Ram.returnSlot, Nat.mod_add_mod]
      · have ends : ram.ChainEnds (context.gregs .rbp) k := ⟨shallow, passes, last⟩
        obtain ⟨aligned, same⟩ := Unwound.orStack_none.mp stack
        by_cases onStack : InGuest (ram.read64 (context.gregs .rsp))
        · rw [same, if_pos onStack] at fit gregs
          exact ⟨_, _, .stack ends onStack,
            gregs.trans (set_eq_ret (linked few onStack k ends fits aligned fit))⟩
        · rw [same, if_neg onStack] at found
          exact absurd rfl found
    · cases run

/-- Resuming leaves the guest its FS base, unless that was 0. -/
theorem sigsegvHandler_fsBase {p : Profile} {hostFs count count' : Nat} {ram : Ram}
    {context resumed : TrapContext}
    (run : sigsegvHandler p hostFs count ram context = .ok (resumed, count')) :
    resumed.fsBase = if context.fsBase ≠ 0 then context.fsBase else hostFs := by
  unfold sigsegvHandler at run
  split at run
  · obtain ⟨walked, -, run⟩ := Outcome.bind_eq_ok.mp run
    obtain ⟨after, -, run⟩ := Outcome.bind_eq_ok.mp run
    obtain ⟨resumed', resume, run⟩ := Outcome.bind_eq_ok.mp run
    cases run
    unfold Unwound.resume at resume
    by_cases found : after.foundRet ≠ 0
    · rw [if_pos found] at resume
      obtain ⟨past, -, resume⟩ := Outcome.bind_eq_ok.mp resume
      cases resume
      by_cases set : context.fsBase = 0 <;> by_cases hosted : hostFs = 0 <;> simp [set, hosted]
    · rw [if_neg found] at resume
      cases resume
  · cases run

/-- A leaf function without a frame of its own, called by code that keeps no
frames: RBP is 0 and the word at RSP is the return address. -/
def TrapContext.frameless : TrapContext where
  gregs
    | .rsp => 0x2000
    | _ => 0
  fsBase := 0

/-- The recovery of such a function leaves RSP at 16. -/
theorem sigsegvHandler_misplaces_stack :
    ∃ ram : Ram, ∃ resumed : TrapContext,
      ram.read64 0x2000 = 0x1000000010 ∧
      sigsegvHandler .dev 0 0 ram .frameless = .ok (resumed, 1) ∧
      resumed.gregs .rip = 0x1000000010 ∧ resumed.gregs .rsp = 16 ∧
      ¬ ResumesByReturn .dev 0 0 ram .frameless := by
  let ram : Ram := Ram.write64 (fun _ => 0) 0x2000 0x1000000010
  have word : ram.read64 0x2000 = 0x1000000010 := by decide
  have onStack : InGuest (ram.read64 0x2000) := word ▸ by decide
  have ends : ram.ChainEnds 0 0 := ⟨by omega, Ram.passes_zero 0, .inr (by simp)⟩
  have few : 0 < maxSigsegvRecoveries := by decide
  obtain ⟨resumed, run, rip, rsp⟩ : ∃ resumed,
      sigsegvHandler .dev 0 0 ram .frameless = .ok (resumed, (0 + 1) % 2 ^ 64) ∧
        resumed.gregs .rip = ram.read64 (TrapContext.frameless.gregs .rsp) ∧
        resumed.gregs .rsp = (ram.link (TrapContext.frameless.gregs .rbp) 0 + 16) % 2 ^ 64 :=
    sigsegvHandler_of_ends few onStack ends nofun (fun _ => by decide)
      fun _ => by simp [TrapContext.frameless]
  have top : resumed.gregs .rsp = 16 := by simpa [TrapContext.frameless] using rsp
  refine ⟨ram, resumed, word, run, rip.trans word, top, fun returns => ?_⟩
  obtain ⟨slot, savedRbp, source, same⟩ := returns _ _ run
  rw [same, source.slot_eq ends] at top
  simp [Gregs.ret, TrapContext.frameless] at top

end AnotherPs4
