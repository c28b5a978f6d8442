import AnotherPs4.Gpu.Walk

/-!
# GPU context

The context that the exports submit command buffers to. A buffer whose last
packet is not cut off can be followed by another one, as if the two were one.
-/

namespace AnotherPs4

open Rust

variable {ε : Type}

/-- The processor and the count of frames. A renderer only presents blank frames. -/
structure GpuContext where
  commandProcessor : CommandProcessor
  framesSubmitted : Nat
  deriving DecidableEq, Repr

namespace GpuContext

def default : GpuContext := ⟨.new, 0⟩

def submitGfx (p : Profile) (gpu : GpuContext) (dcb _ccb : List UInt32) : Outcome ε GpuContext := do
  return { gpu with commandProcessor := ← gpu.commandProcessor.processCommandBuffer p dcb }

def submitDone (p : Profile) (gpu : GpuContext) : Outcome ε GpuContext := do
  return { gpu with framesSubmitted := ← p.add 64 gpu.framesSubmitted 1 }

end GpuContext

/-- `with_gpu` on the global context, which is made when it is first used. -/
def withGpu (gpu : Option GpuContext) (f : GpuContext → Outcome ε GpuContext) :
    Outcome ε (Option GpuContext) := do
  return some (← f (gpu.getD .default))

/-! ### Whole buffers -/

/-- No packet is cut off at the end. `skip` counts words of the last packet that
are still to come. -/
def wholeFrom : (skip : Nat) → List UInt32 → Bool
  | 0, [] => true
  | _ + 1, [] => false
  | skip + 1, _ :: words => wholeFrom skip words
  | 0, word :: words =>
    if typeBits word = 3 then wholeFrom (countBits word + 1) words else wholeFrom 0 words

theorem skip_le_of_wholeFrom {skip : Nat} {words : List UInt32}
    (whole : wholeFrom skip words = true) : skip ≤ words.length := by
  induction words generalizing skip with
  | nil =>
    cases skip with
    | zero => exact Nat.zero_le _
    | succ skip => cases whole
  | cons word words inductionHypothesis =>
    cases skip with
    | zero => exact Nat.zero_le _
    | succ skip => exact Nat.succ_le_succ (inductionHypothesis whole)

theorem walk_append_of_whole {skip position : Nat} {words : List UInt32}
    (whole : wholeFrom skip words = true) (rest : List UInt32) :
    walk skip position (words ++ rest) =
      walk skip position words ++ walk 0 (position + words.length) rest := by
  induction words generalizing skip position with
  | nil =>
    cases skip with
    | zero => rfl
    | succ skip => cases whole
  | cons word words inductionHypothesis =>
    have next : position + (word :: words).length = position + 1 + words.length := by
      rw [List.length_cons]
      omega
    rw [List.cons_append, next]
    cases skip with
    | succ skip =>
      rw [walk, walk]
      exact inductionHypothesis whole
    | zero =>
      rw [wholeFrom] at whole
      rw [walk, walk]
      by_cases isType3 : typeBits word = 3
      · rw [if_pos isType3] at whole ⊢
        rw [if_pos isType3, inductionHypothesis whole, List.cons_append,
          List.take_append_of_le_length (skip_le_of_wholeFrom whole)]
      · rw [if_neg isType3] at whole ⊢
        rw [if_neg isType3]
        exact inductionHypothesis whole

/-- The packets of a walk do not depend on where the buffer stands. -/
theorem walk_commands (skip position position' : Nat) (words : List UInt32) :
    (walk skip position words).filterMap Taken.command =
      (walk skip position' words).filterMap Taken.command := by
  induction words generalizing skip position position' with
  | nil => rfl
  | cons word words inductionHypothesis =>
    cases skip with
    | succ skip => exact inductionHypothesis skip (position + 1) (position' + 1)
    | zero =>
      have rest := inductionHypothesis (countBits word + 1) (position + 1) (position' + 1)
      rw [walk, walk]
      split
      · simp only [List.filterMap_cons, Taken.command, rest]
      · exact inductionHypothesis 0 (position + 1) (position' + 1)

namespace CommandProcessor

theorem dispatched_append {words : List UInt32} (whole : wholeFrom 0 words = true)
    (rest : List UInt32) : dispatched (words ++ rest) = dispatched words ++ dispatched rest := by
  rw [dispatched, walk_append_of_whole whole, List.filterMap_append, walk_commands 0 _ 0 rest]
  rfl

end CommandProcessor

theorem GpuRegs.Effects.append {cs ds : List (Pm4Opcode × List UInt32)} {regs regs' regs'' : GpuRegs}
    (first : Effects cs regs regs') (second : Effects ds regs' regs'') :
    Effects (cs ++ ds) regs regs'' := by
  have last : ∀ {γ : Type} (select : Pm4Opcode × List UInt32 → Option γ) (value : γ),
      (ds.filterMap select).getLast?.getD ((cs.filterMap select).getLast?.getD value) =
        ((cs ++ ds).filterMap select).getLast?.getD value := by
    intro γ select value
    rw [List.filterMap_append, List.getLast?_append]
    cases (ds.filterMap select).getLast? <;> rfl
  exact {
    numInstances := by rw [second.numInstances, first.numInstances, last]
    indexBase := by rw [second.indexBase, first.indexBase, last]
    indexType := by rw [second.indexType, first.indexType, last]
    indexSize := by rw [second.indexSize, first.indexSize, last]
    writes := by rw [second.writes, first.writes, List.flatMap_append, List.append_assoc] }

namespace GpuContext

/-- The buffers that were processed, and what has become of the registers. -/
structure Processed (buffers : List (List UInt32)) (gpu gpu' : GpuContext) : Prop where
  effects : GpuRegs.Effects (buffers.flatMap CommandProcessor.dispatched)
    gpu.commandProcessor.regs gpu'.commandProcessor.regs
  submitCount : gpu'.commandProcessor.submitCount % 2 ^ 64 =
    (gpu.commandProcessor.submitCount + buffers.length) % 2 ^ 64

variable {p : Profile} {gpu gpu' gpu'' : GpuContext}

theorem Processed.nil : Processed [] gpu gpu where
  effects := ⟨rfl, rfl, rfl, rfl, by simp⟩
  submitCount := rfl

theorem Processed.append {first second : List (List UInt32)} (before : Processed first gpu gpu')
    (after : Processed second gpu' gpu'') : Processed (first ++ second) gpu gpu'' where
  effects := by
    rw [List.flatMap_append]
    exact before.effects.append after.effects
  submitCount := by
    have first := before.submitCount
    have second := after.submitCount
    rw [List.length_append]
    omega

theorem submitGfx_processed {dcb ccb : List UInt32}
    (returned : (gpu.submitGfx p dcb ccb : Outcome ε _) = .ok gpu') :
    Processed [dcb] gpu gpu' ∧ gpu'.framesSubmitted = gpu.framesSubmitted := by
  obtain ⟨cp, processed, same⟩ := Outcome.bind_eq_ok.mp returned
  cases same
  rw [CommandProcessor.processCommandBuffer_eq_walk] at processed
  obtain ⟨executed, run, last⟩ := Outcome.bind_eq_ok.mp processed
  obtain ⟨count, counted, same⟩ := Outcome.bind_eq_ok.mp last
  cases same
  rw [CommandProcessor.foldlM_execute_submitCount run] at counted
  have effects := CommandProcessor.foldlM_execute_effects run
  refine ⟨⟨?_, ?_⟩, rfl⟩
  · rw [List.flatMap_singleton]
    exact effects
  · rw [Profile.add_eq_ok counted, Nat.mod_mod]
    rfl

theorem submitDone_processed (returned : (gpu.submitDone p : Outcome ε _) = .ok gpu') :
    Processed [] gpu gpu' ∧ gpu'.framesSubmitted = (gpu.framesSubmitted + 1) % 2 ^ 64 := by
  obtain ⟨frames, counted, same⟩ := Outcome.bind_eq_ok.mp returned
  cases same
  exact ⟨⟨Processed.nil.effects, rfl⟩, Profile.add_eq_ok counted⟩

end GpuContext

end AnotherPs4
