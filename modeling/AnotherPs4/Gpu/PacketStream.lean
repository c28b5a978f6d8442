import AnotherPs4.Gpu.CommandProcessor

/-!
# Packet streams

A command stream is a list of complete packets. Processing its encoding is the
fold of its packets, whatever follows them in the buffer.
-/

namespace AnotherPs4

open Rust

variable {ε : Type}

/-! ### Header fields -/

def typeBits (word : UInt32) : Nat := word.toNat / 2 ^ 30

def countBits (word : UInt32) : Nat := word.toNat / 2 ^ 16 % 2 ^ 14

def opcodeBits (word : UInt32) : Nat := word.toNat / 2 ^ 8 % 2 ^ 8

theorem shift_and_toNat (word shift mask : UInt32) {k : Nat} (small : shift.toNat < 32)
    (low : mask.toNat = 2 ^ k - 1) :
    ((word >>> shift) &&& mask).toNat = word.toNat / 2 ^ shift.toNat % 2 ^ k := by
  rw [UInt32.toNat_and, UInt32.toNat_shiftRight, low, Nat.and_two_pow_sub_one_eq_mod,
    Nat.mod_eq_of_lt small, Nat.shiftRight_eq_div_pow]

theorem type_field (word : UInt32) : (word >>> 30) &&& 0x3 = UInt32.ofNat (typeBits word) := by
  have bounded := word.toNat_lt
  apply UInt32.toNat_inj.mp
  rw [shift_and_toNat word 30 3 (k := 2) (by decide) (by decide), UInt32.toNat_ofNat']
  change word.toNat / 2 ^ 30 % 2 ^ 2 = word.toNat / 2 ^ 30 % 2 ^ 32
  omega

theorem count_field (word : UInt32) :
    ((word >>> 16) &&& 0x3FFF).toUInt16.toNat = countBits word := by
  rw [UInt32.toNat_toUInt16, shift_and_toNat word 16 0x3FFF (k := 14) (by decide) (by decide)]
  change word.toNat / 2 ^ 16 % 2 ^ 14 % 2 ^ 16 = word.toNat / 2 ^ 16 % 2 ^ 14
  omega

theorem opcode_field (word : UInt32) : (word >>> 8) &&& 0xFF = UInt32.ofNat (opcodeBits word) := by
  apply UInt32.toNat_inj.mp
  rw [shift_and_toNat word 8 0xFF (k := 8) (by decide) (by decide), UInt32.toNat_ofNat']
  change word.toNat / 2 ^ 8 % 2 ^ 8 = word.toNat / 2 ^ 8 % 2 ^ 8 % 2 ^ 32
  omega

theorem parsePm4Header_filler {word : UInt32} (isFiller : typeBits word = 1 ∨ typeBits word = 2) :
    (parsePm4Header word).packetType = .type2 := by
  unfold parsePm4Header
  rcases isFiller with one | two
  · rw [type_field, one]
    rfl
  · rw [type_field, two]
    rfl

theorem parsePm4Header_type3 {word : UInt32} (isType3 : typeBits word = 3) :
    (parsePm4Header word).packetType = .type3 ∧
    (parsePm4Header word).count.toNat = countBits word ∧
    (parsePm4Header word).opcode = Pm4Opcode.fromU32 (UInt32.ofNat (opcodeBits word)) := by
  unfold parsePm4Header
  rw [type_field, isType3, opcode_field]
  exact ⟨rfl, count_field word, rfl⟩

/-! ### Packets -/

/-- One complete packet: a filler dword, or a header with all its body. -/
inductive Packet where
  | filler (word : UInt32) (isFiller : typeBits word = 1 ∨ typeBits word = 2)
  | type3 (header : UInt32) (body : List UInt32) (isType3 : typeBits header = 3)
    (complete : body.length = countBits header + 1)

namespace Packet

def encode : Packet → List UInt32
  | filler word _ => [word]
  | type3 header body _ _ => header :: body

/-- The packet as the processor sees it, if its opcode is known. -/
def command : Packet → Option (Pm4Opcode × List UInt32)
  | filler .. => none
  | type3 header body _ _ =>
    (Pm4Opcode.fromU32 (UInt32.ofNat (opcodeBits header))).map fun opcode => (opcode, body)

end Packet

def commands (packets : List Packet) : List (Pm4Opcode × List UInt32) :=
  packets.filterMap Packet.command

/-! ### Effects -/

def numInstances? : Pm4Opcode × List UInt32 → Option UInt32
  | (.numInstances, value :: _) => some value
  | _ => none

def indexBase? : Pm4Opcode × List UInt32 → Option UInt64
  | (.indexBase, low :: high :: _) => some (low.toUInt64 ||| (high.toUInt64 <<< 32))
  | _ => none

def indexType? : Pm4Opcode × List UInt32 → Option UInt32
  | (.indexType, value :: _) => some value
  | _ => none

def indexSize? : Pm4Opcode × List UInt32 → Option UInt32
  | (.indexBufferSize, value :: _) => some value
  | _ => none

def registerFile? : Pm4Opcode → Option RegisterFile
  | .setContextReg => some .context
  | .setShReg => some .sh
  | .setConfigReg => some .config
  | .setUconfigReg => some .uconfig
  | _ => none

/-- One write for each dword after the first, to consecutive registers. -/
def registerWrites (command : Pm4Opcode × List UInt32) : List RegisterWrite :=
  match registerFile? command.1, command.2 with
  | some file, base :: values =>
    values.zipIdx.map fun (value, i) => ⟨file, (base.toNat + i) % 2 ^ 32, value⟩
  | _, _ => []

theorem foldl_getD_eq_getLast? {β γ : Type} (select : β → Option γ) (xs : List β) (first : γ) :
    xs.foldl (fun v x => (select x).getD v) first =
      (xs.filterMap select).getLast?.getD first := by
  induction xs generalizing first with
  | nil => rfl
  | cons x xs ih =>
    rw [List.foldl_cons, ih, List.filterMap_cons]
    cases select x with
    | none => rfl
    | some v => rw [List.getLast?_cons, Option.getD_some, Option.getD_some]

namespace GpuRegs

def after (regs : GpuRegs) (command : Pm4Opcode × List UInt32) : GpuRegs where
  numInstances := (numInstances? command).getD regs.numInstances
  indexBase := (indexBase? command).getD regs.indexBase
  indexSize := (indexSize? command).getD regs.indexSize
  indexType := (indexType? command).getD regs.indexType
  writes := regs.writes ++ registerWrites command

theorem writeLoop_eq {p : Profile} {file : RegisterFile} {base : Nat}
    {values : List (UInt32 × Nat)} {regs regs' : GpuRegs}
    (returned : (values.foldlM (fun regs (value, i) => do
      let offset ← p.add 32 base (i % 2 ^ 32)
      return write file regs offset value) regs : Outcome ε _) = .ok regs') :
    regs' = { regs with
      writes := regs.writes ++ values.map fun (value, i) => ⟨file, (base + i) % 2 ^ 32, value⟩ } := by
  induction values generalizing regs with
  | nil =>
    cases returned
    simp
  | cons entry values ih =>
    obtain ⟨value, i⟩ := entry
    rw [List.foldlM_cons, Outcome.bind_eq_ok] at returned
    obtain ⟨middle, first, rest⟩ := returned
    obtain ⟨offset, sum, written⟩ := Outcome.bind_eq_ok.mp first
    cases written
    have sum' : offset = (base + i) % 2 ^ 32 := by
      rw [Profile.add_eq_ok sum, Nat.add_mod_mod]
    rw [ih rest, sum']
    simp [write]

/-- The registers after a list of commands: the last value of each kind, and all
register writes. -/
structure Effects (cs : List (Pm4Opcode × List UInt32)) (regs regs' : GpuRegs) : Prop where
  numInstances : regs'.numInstances = (cs.filterMap numInstances?).getLast?.getD regs.numInstances
  indexBase : regs'.indexBase = (cs.filterMap indexBase?).getLast?.getD regs.indexBase
  indexType : regs'.indexType = (cs.filterMap indexType?).getLast?.getD regs.indexType
  indexSize : regs'.indexSize = (cs.filterMap indexSize?).getLast?.getD regs.indexSize
  writes : regs'.writes = regs.writes ++ cs.flatMap registerWrites

theorem setRegs_eq {p : Profile} {file : RegisterFile} {regs regs' : GpuRegs}
    {c : Pm4Opcode × List UInt32} (sets : registerFile? c.1 = some file)
    (returned : (regs.setRegs p (write file) c.2 : Outcome ε _) = .ok regs') :
    regs' = { regs with writes := regs.writes ++ registerWrites c } := by
  obtain ⟨opcode, body⟩ := c
  unfold registerWrites
  rw [sets]
  match body with
  | [] =>
    cases returned
    simp
  | [_] =>
    cases returned
    simp
  | base :: value :: values => exact writeLoop_eq returned

theorem after_of_registerFile {regs : GpuRegs} {opcode : Pm4Opcode} {body : List UInt32}
    {file : RegisterFile} (sets : registerFile? opcode = some file) :
    regs.after (opcode, body) =
      { regs with writes := regs.writes ++ registerWrites (opcode, body) } := by
  cases opcode <;> first | rfl | cases sets

end GpuRegs

namespace CommandProcessor

def execute (p : Profile) (cp : CommandProcessor) (command : Pm4Opcode × List UInt32) :
    Outcome ε CommandProcessor :=
  cp.processType3Packet p command.1 command.2

/-- A packet updates the registers as `after` says and nothing else. -/
theorem execute_eq {p : Profile} {cp cp' : CommandProcessor} {c : Pm4Opcode × List UInt32}
    (returned : (cp.execute p c : Outcome ε _) = .ok cp') :
    cp' = { cp with regs := cp.regs.after c } := by
  obtain ⟨opcode, body⟩ := c
  have sets {file : RegisterFile} (known : registerFile? opcode = some file)
      (returned : (do return { cp with regs := ← cp.regs.setRegs p (.write file) body } :
        Outcome ε _) = .ok cp') : cp' = { cp with regs := cp.regs.after (opcode, body) } := by
    obtain ⟨regs, stored, rest⟩ := Outcome.bind_eq_ok.mp returned
    cases rest
    rw [GpuRegs.setRegs_eq (c := (opcode, body)) known stored,
      GpuRegs.after_of_registerFile known]
  cases opcode with
  | setContextReg | setShReg | setConfigReg | setUconfigReg => exact sets rfl returned
  | numInstances | indexType | indexBufferSize =>
    cases body <;> cases returned <;> simp [GpuRegs.after, numInstances?, indexBase?, indexType?,
      indexSize?, registerWrites, registerFile?]
  | indexBase =>
    rcases body with _ | ⟨low, _ | ⟨high, rest⟩⟩ <;> cases returned <;> simp [GpuRegs.after,
      numInstances?, indexBase?, indexType?, indexSize?, registerWrites, registerFile?]
  | _ =>
    cases returned
    simp [GpuRegs.after, numInstances?, indexBase?, indexType?, indexSize?, registerWrites,
      registerFile?]

theorem processFrom_append (p : Profile) (before dcb : List UInt32) (offset : Nat)
    (cp : CommandProcessor) :
    (processFrom p (before ++ dcb) (before.length + offset) cp : Outcome ε _) =
      processFrom p dcb offset cp := by
  induction left : dcb.length - offset using Nat.strong_induction_on generalizing offset cp with
  | _ left ih =>
    rw [processFrom, processFrom.eq_def p dcb]
    by_cases inRange : offset < dcb.length
    · have inRange' : before.length + offset < (before ++ dcb).length := by simpa using inRange
      have same : (before ++ dcb)[before.length + offset] = dcb[offset] := by simp
      have next : (processFrom p (before ++ dcb) (before.length + offset + 1) cp : Outcome ε _) =
          processFrom p dcb (offset + 1) cp := ih _ (by omega) (offset + 1) cp rfl
      have clip (n : Nat) : min (before.length + offset + 1 + n) (before ++ dcb).length =
          before.length + min (offset + 1 + n) dcb.length := by
        rw [List.length_append]
        omega
      have body (n : Nat) : (slice (before ++ dcb) (before.length + offset + 1)
          (before.length + n) : Outcome ε _) = slice dcb (offset + 1) n :=
        slice_append_right before dcb (offset + 1) n
      have later (n : Nat) (cp : CommandProcessor) :
          (processFrom p (before ++ dcb) (before.length + min (offset + 1 + (n + 1)) dcb.length) cp :
            Outcome ε _) = processFrom p dcb (min (offset + 1 + (n + 1)) dcb.length) cp :=
        ih _ (by omega) _ cp rfl
      rw [dif_pos inRange, dif_pos inRange', same]
      simp only [next, clip, body, later]
    · rw [dif_neg inRange, dif_neg (by simpa using inRange)]

theorem processFrom_packet (p : Profile) (packet : Packet) (rest : List UInt32)
    (cp : CommandProcessor) :
    (processFrom p (packet.encode ++ rest) 0 cp : Outcome ε _) =
      packet.command.elim (.ok cp) (cp.execute p) >>= processFrom p rest 0 := by
  have skip (cp : CommandProcessor) :
      (processFrom p (packet.encode ++ rest) packet.encode.length cp : Outcome ε _) =
        processFrom p rest 0 cp := processFrom_append p packet.encode rest 0 cp
  cases packet with
  | filler word isFiller =>
    rw [processFrom, dif_pos (by simp [Packet.encode])]
    simp only [Packet.encode, List.cons_append, List.nil_append, List.getElem_cons_zero,
      parsePm4Header_filler isFiller, if_true]
    exact skip cp
  | type3 header body isType3 complete =>
    obtain ⟨type, count, opcode⟩ := parsePm4Header_type3 isType3
    have stop : min (0 + 1 + (countBits header + 1)) (header :: (body ++ rest)).length =
        (header :: body).length := by
      simp only [List.length_cons, List.length_append]
      omega
    have whole : (slice (header :: (body ++ rest)) (0 + 1) (header :: body).length :
        Outcome ε _) = .ok body := by
      have := slice_append (ε := ε) [header] body rest
      rwa [List.length_singleton, Nat.add_comm 1 body.length] at this
    have later (cp : CommandProcessor) : (processFrom p (header :: (body ++ rest))
        (header :: body).length cp : Outcome ε _) = processFrom p rest 0 cp := skip cp
    rw [processFrom, dif_pos (by simp [Packet.encode])]
    simp only [Packet.encode, List.cons_append, List.getElem_cons_zero, type, count, opcode,
      reduceCtorEq, if_false, if_true, stop, whole, later, Outcome.ok_bind, Packet.command]
    cases Pm4Opcode.fromU32 (UInt32.ofNat (opcodeBits header)) with
    | none => rfl
    | some known => rfl

theorem processFrom_packets (p : Profile) (packets : List Packet) (rest : List UInt32)
    (cp : CommandProcessor) :
    (processFrom p (packets.flatMap Packet.encode ++ rest) 0 cp : Outcome ε _) =
      (commands packets).foldlM (execute p) cp >>= processFrom p rest 0 := by
  induction packets generalizing cp with
  | nil => simp [commands]
  | cons packet packets ih =>
    rw [List.flatMap_cons, List.append_assoc, processFrom_packet]
    simp only [commands, List.filterMap_cons]
    cases packet.command with
    | none => exact ih cp
    | some command =>
      simp only [Option.elim, List.foldlM_cons, bind_assoc]
      congr 1
      funext cp
      exact ih cp

theorem foldlM_execute_submitCount {p : Profile} {cs : List (Pm4Opcode × List UInt32)}
    {cp cp' : CommandProcessor} (run : (cs.foldlM (execute p) cp : Outcome ε _) = .ok cp') :
    cp'.submitCount = cp.submitCount := by
  refine (Outcome.foldlM_component (g := submitCount) (h := fun n _ => n) ?_ run).trans ?_
  · intro s c s' step
    rw [execute_eq step]
  · induction cs <;> simp_all

theorem foldlM_execute_effects {p : Profile} {cs : List (Pm4Opcode × List UInt32)}
    {cp cp' : CommandProcessor} (run : (cs.foldlM (execute p) cp : Outcome ε _) = .ok cp') :
    GpuRegs.Effects cs cp.regs cp'.regs := by
  have component {γ : Type} (field : GpuRegs → γ) (update : γ → Pm4Opcode × List UInt32 → γ)
      (updates : ∀ regs c, field (GpuRegs.after regs c) = update (field regs) c) :
      field cp'.regs = cs.foldl update (field cp.regs) :=
    Outcome.foldlM_component (g := fun cp => field cp.regs) (fun step => by
      rw [execute_eq step]
      exact updates _ _) run
  constructor
  · exact (component _ _ fun _ _ => rfl).trans (foldl_getD_eq_getLast? numInstances? _ _)
  · exact (component _ _ fun _ _ => rfl).trans (foldl_getD_eq_getLast? indexBase? _ _)
  · exact (component _ _ fun _ _ => rfl).trans (foldl_getD_eq_getLast? indexType? _ _)
  · exact (component _ _ fun _ _ => rfl).trans (foldl_getD_eq_getLast? indexSize? _ _)
  · rw [List.flatMap_def, ← List.foldl_append_eq_append]
    exact component GpuRegs.writes _ fun _ _ => rfl

theorem processFrom_submitCount {p : Profile} {dcb : List UInt32} {offset : Nat}
    {cp cp' : CommandProcessor} (run : (processFrom p dcb offset cp : Outcome ε _) = .ok cp') :
    cp'.submitCount = cp.submitCount := by
  induction left : dcb.length - offset using Nat.strong_induction_on generalizing offset cp with
  | _ left ih =>
    rw [processFrom] at run
    split at run
    · next inRange =>
      simp only at run
      split at run
      · exact ih _ (by omega) run rfl
      · split at run
        · obtain ⟨body, -, run⟩ := Outcome.bind_eq_ok.mp run
          obtain ⟨middle, executed, run⟩ := Outcome.bind_eq_ok.mp run
          have same : middle.submitCount = cp.submitCount := by
            cases found : (parsePm4Header dcb[offset]).opcode with
            | none =>
              rw [found] at executed
              cases executed
              rfl
            | some opcode =>
              rw [found] at executed
              rw [execute_eq (c := (opcode, body)) executed]
          rw [← same]
          exact ih _ (by omega) run rfl
        · exact ih _ (by omega) run rfl
    · cases run
      rfl

/-- Command-buffer processing is the fold of its packets: the known packets are
executed in order with their bodies, whatever follows them is processed from
the state they lead to, every register ends with the last value stored in it,
register writes accumulate, and each buffer counts once. -/
theorem processCommandBuffer_fold (p : Profile) (packets : List Packet) (cp : CommandProcessor) :
    (∀ rest, (cp.processCommandBuffer p (packets.flatMap Packet.encode ++ rest) : Outcome ε _) =
      (commands packets).foldlM (execute p) cp >>= fun cp => cp.processCommandBuffer p rest) ∧
    (∀ reached, ((commands packets).foldlM (execute p) cp : Outcome ε _) = .ok reached →
      GpuRegs.Effects (commands packets) cp.regs reached.regs ∧
      reached.submitCount = cp.submitCount) ∧
    (∀ final, (cp.processCommandBuffer p (packets.flatMap Packet.encode) : Outcome ε _) =
        .ok final → GpuRegs.Effects (commands packets) cp.regs final.regs) ∧
    ∀ dcb final, (cp.processCommandBuffer p dcb : Outcome ε _) = .ok final →
      (p.add 64 cp.submitCount 1 : Outcome ε Nat) = .ok final.submitCount := by
  have stream (rest : List UInt32) :
      (cp.processCommandBuffer p (packets.flatMap Packet.encode ++ rest) : Outcome ε _) =
        (commands packets).foldlM (execute p) cp >>= fun cp => cp.processCommandBuffer p rest := by
    unfold processCommandBuffer
    rw [processFrom_packets, bind_assoc]
  refine ⟨stream, ?_, ?_, ?_⟩
  · intro reached run
    exact ⟨foldlM_execute_effects run, foldlM_execute_submitCount run⟩
  · intro final run
    rw [← List.append_nil (packets.flatMap Packet.encode), stream] at run
    obtain ⟨reached, executed, last⟩ := Outcome.bind_eq_ok.mp run
    obtain ⟨walked, walk, last⟩ := Outcome.bind_eq_ok.mp last
    obtain ⟨count, -, last⟩ := Outcome.bind_eq_ok.mp last
    rw [processFrom, dif_neg (by simp)] at walk
    cases walk
    have effects := foldlM_execute_effects executed
    cases last
    exact effects
  · intro dcb final run
    obtain ⟨walked, walk, last⟩ := Outcome.bind_eq_ok.mp run
    obtain ⟨count, counted, last⟩ := Outcome.bind_eq_ok.mp last
    cases last
    rw [← processFrom_submitCount walk]
    exact counted

end CommandProcessor

end AnotherPs4
