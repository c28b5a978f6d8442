import AnotherPs4.Gpu.PacketStream

/-!
# The walk over a command buffer

Which packets the command processor takes from a buffer depends only on the
buffer. Processing the buffer executes them in order, so it returns exactly if
each of them does. A packet of register writes is not taken: its data is read as
headers.
-/

namespace AnotherPs4

open Rust

variable {ε : Type}

/-- A type-3 packet of a walk: where its header is, and its body up to the end of the
buffer. -/
structure Taken where
  position : Nat
  header : UInt32
  body : List UInt32
  deriving DecidableEq, Repr

def Taken.command (taken : Taken) : Option (Pm4Opcode × List UInt32) :=
  (Pm4Opcode.fromU32 (UInt32.ofNat (opcodeBits taken.header))).map fun opcode => (opcode, taken.body)

/-- The type-3 packets in the words from a position on. `skip` counts words of the last
packet that are still to come. -/
def walk : (skip position : Nat) → List UInt32 → List Taken
  | _, _, [] => []
  | skip + 1, position, _ :: words => walk skip (position + 1) words
  | 0, position, word :: words =>
    if typeBits word = 3 then
      ⟨position, word, words.take (countBits word + 1)⟩ ::
        walk (countBits word + 1) (position + 1) words
    else walk 0 (position + 1) words

theorem walk_skip (skip position : Nat) (words : List UInt32) :
    walk skip position words = walk 0 (position + skip) (words.drop skip) := by
  induction words generalizing skip position with
  | nil => rw [List.drop_nil, walk, walk]
  | cons word words inductionHypothesis =>
    cases skip with
    | zero => rfl
    | succ skip =>
      rw [walk, inductionHypothesis, List.drop_succ_cons, Nat.add_assoc, Nat.add_comm 1]

theorem walk_append_of_length (position : Nat) (words rest : List UInt32) :
    walk words.length position (words ++ rest) = walk 0 (position + words.length) rest := by
  rw [walk_skip, List.drop_left]

theorem countBits_lt (word : UInt32) : countBits word < 2 ^ 14 := Nat.mod_lt _ (by decide)

theorem walk_body_length {skip position : Nat} {words : List UInt32} {taken : Taken}
    (member : taken ∈ walk skip position words) : taken.body.length ≤ 2 ^ 14 := by
  induction words generalizing skip position with
  | nil =>
    rw [walk] at member
    cases member
  | cons word words inductionHypothesis =>
    cases skip with
    | succ skip => exact inductionHypothesis member
    | zero =>
      rw [walk] at member
      split at member
      · rcases List.mem_cons.mp member with rfl | member
        · have count := countBits_lt word
          exact (List.length_take_le _ _).trans count
        · exact inductionHypothesis member
      · exact inductionHypothesis member

theorem parsePm4Header_other {word : UInt32} (other : typeBits word ≠ 3) :
    (parsePm4Header word).packetType = .type2 ∨ (parsePm4Header word).packetType = .type0 := by
  have bounded : typeBits word < 4 := Nat.div_lt_of_lt_mul word.toNat_lt
  by_cases filler : typeBits word = 1 ∨ typeBits word = 2
  · exact .inl (parsePm4Header_filler filler)
  · have zero : typeBits word = 0 := by omega
    unfold parsePm4Header
    rw [type_field, zero]
    exact .inr rfl

namespace CommandProcessor

def dispatched (dcb : List UInt32) : List (Pm4Opcode × List UInt32) :=
  (walk 0 0 dcb).filterMap Taken.command

theorem slice_body {dcb : List UInt32} {offset : Nat} (inRange : offset < dcb.length) (count : Nat) :
    (slice dcb (offset + 1) (min (offset + 1 + count) dcb.length) : Outcome ε _) =
      .ok ((dcb.drop (offset + 1)).take count) := by
  rw [slice_of_le (by omega) (Nat.min_le_right _ _), List.drop_take, Outcome.ok.injEq,
    List.take_eq_take_iff, List.length_drop]
  omega

theorem walk_behind_body (dcb : List UInt32) (offset count : Nat) :
    walk count (offset + 1) (dcb.drop (offset + 1)) =
      walk 0 (min (offset + 1 + count) dcb.length)
        (dcb.drop (min (offset + 1 + count) dcb.length)) := by
  rw [walk_skip, List.drop_drop]
  rcases Nat.le_total (offset + 1 + count) dcb.length with whole | cut
  · rw [Nat.min_eq_left whole]
  · rw [Nat.min_eq_right cut, List.drop_eq_nil_of_le cut, List.drop_length, walk, walk]

/-- The loop executes the packets of the walk. -/
theorem processFrom_eq_walk (p : Profile) (dcb : List UInt32) (offset : Nat)
    (cp : CommandProcessor) :
    (processFrom p dcb offset cp : Outcome ε _) =
      ((walk 0 offset (dcb.drop offset)).filterMap Taken.command).foldlM (execute p) cp := by
  induction left : dcb.length - offset using Nat.strong_induction_on generalizing offset cp with
  | _ left inductionHypothesis =>
    rw [processFrom]
    by_cases inRange : offset < dcb.length
    · rw [dif_pos inRange, List.drop_eq_getElem_cons inRange, walk]
      generalize dcb[offset] = word
      by_cases isType3 : typeBits word = 3
      · obtain ⟨type, count, opcode⟩ := parsePm4Header_type3 isType3
        rw [if_pos isType3, walk_behind_body, List.filterMap_cons]
        simp only [type, count, opcode, reduceCtorEq, if_false, if_true, slice_body inRange,
          Outcome.ok_bind, Taken.command]
        cases Pm4Opcode.fromU32 (UInt32.ofNat (opcodeBits word)) with
        | none => exact inductionHypothesis _ (by omega) _ cp rfl
        | some known =>
          rw [Option.map_some, List.foldlM_cons]
          refine congrArg _ (funext fun cp => ?_)
          exact inductionHypothesis _ (by omega) _ cp rfl
      · rw [if_neg isType3, ← inductionHypothesis _ (by omega) (offset + 1) cp rfl]
        rcases parsePm4Header_other isType3 with type | type
        · simp only [type, if_true]
        · simp only [type, reduceCtorEq, if_false]
    · rw [dif_neg inRange, List.drop_eq_nil_of_le (Nat.not_lt.mp inRange), walk]
      rfl

theorem processCommandBuffer_eq_walk (p : Profile) (cp : CommandProcessor) (dcb : List UInt32) :
    (cp.processCommandBuffer p dcb : Outcome ε _) = do
      let cp ← (dispatched dcb).foldlM (execute p) cp
      let submitCount ← p.add 64 cp.submitCount 1
      return { cp with submitCount := submitCount } := by
  rw [processCommandBuffer, processFrom_eq_walk]
  rfl

end CommandProcessor

/-! ### Overflow -/

def RegistersFit (command : Pm4Opcode × List UInt32) : Prop :=
  ∀ file, registerFile? command.1 = some file → ∀ base values, command.2 = base :: values →
    base.toNat + values.length ≤ 2 ^ 32

namespace GpuRegs

theorem setRegs_returns {p : Profile} {write : GpuRegs → Nat → UInt32 → GpuRegs} {regs : GpuRegs}
    {body : List UInt32} (short : body.length ≤ 2 ^ 14) :
    (regs.setRegs p write body : Outcome ε _).Returns ↔
      (p = .dev → ∀ base values, body = base :: values → base.toNat + values.length ≤ 2 ^ 32) := by
  match body with
  | [] => exact iff_of_true (Outcome.returns_ok _) nofun
  | [base] =>
    apply iff_of_true (Outcome.returns_ok _)
    rintro - _ _ ⟨rfl⟩
    exact base.toNat_lt.le
  | base :: value :: values =>
    have each (regs : GpuRegs) : ∀ entry ∈ (value :: values).zipIdx,
        (do let offset ← p.add 32 base.toNat (entry.2 % 2 ^ 32)
            return write regs offset entry.1 : Outcome ε GpuRegs).Returns ↔
          (p = .dev → base.toNat + entry.2 < 2 ^ 32) := by
      intro entry member
      have index := (List.mem_zipIdx' member).1
      simp only [List.length_cons] at index short
      refine (Outcome.returns_bind_of_forall fun _ => Outcome.returns_ok _).trans ?_
      rw [Profile.add_returns, Nat.mod_eq_of_lt (by omega)]
    refine (Outcome.foldlM_returns each regs).trans ⟨fun fits dev => ?_, fun fits => ?_⟩
    · rintro _ _ ⟨rfl⟩
      have last := fits ((value :: values)[values.length], values.length)
        (List.mem_zipIdx_iff_getElem?.mpr (List.getElem?_eq_getElem (by simp))) dev
      rw [List.length_cons]
      omega
    · rintro ⟨_, i⟩ member dev
      have index := (List.mem_zipIdx' member).1
      have room := fits dev base (value :: values) rfl
      dsimp only
      omega

end GpuRegs

namespace CommandProcessor

theorem execute_returns {p : Profile} {cp : CommandProcessor} {c : Pm4Opcode × List UInt32}
    (short : c.2.length ≤ 2 ^ 14) :
    (cp.execute p c : Outcome ε _).Returns ↔ (p = .dev → RegistersFit c) := by
  obtain ⟨opcode, body⟩ := c
  have sets {file : RegisterFile} (known : registerFile? opcode = some file) :
      (do return { cp with regs := ← cp.regs.setRegs p (.write file) body } :
        Outcome ε CommandProcessor).Returns ↔ (p = .dev → RegistersFit (opcode, body)) := by
    refine (Outcome.returns_bind_of_forall fun _ => Outcome.returns_ok _).trans ?_
    rw [GpuRegs.setRegs_returns short, RegistersFit, known]
    simp
  cases opcode with
  | setContextReg | setShReg | setConfigReg | setUconfigReg => exact sets rfl
  | numInstances | indexType | indexBufferSize =>
    cases body <;> exact iff_of_true (Outcome.returns_ok _) fun _ _ sets => nomatch sets
  | indexBase =>
    rcases body with _ | ⟨low, _ | ⟨high, rest⟩⟩ <;>
      exact iff_of_true (Outcome.returns_ok _) fun _ _ sets => nomatch sets
  | _ => exact iff_of_true (Outcome.returns_ok _) fun _ _ sets => nomatch sets

/-- A command buffer is processed to its end exactly if, in a build with overflow checks,
the registers that its packets set have 32-bit offsets and the buffers can be counted. -/
theorem processCommandBuffer_returns_iff (p : Profile) (cp : CommandProcessor) (dcb : List UInt32) :
    (∃ final, (cp.processCommandBuffer p dcb : Outcome Empty _) = .ok final) ↔
      (p = .dev → cp.submitCount + 1 < 2 ^ 64 ∧ ∀ command ∈ dispatched dcb, RegistersFit command) := by
  have executes : (processFrom p dcb 0 cp : Outcome Empty _).Returns ↔
      ∀ command ∈ dispatched dcb, p = .dev → RegistersFit command := by
    rw [processFrom_eq_walk, List.drop_zero]
    refine Outcome.foldlM_returns (f := execute p) (fun cp command member => execute_returns ?_) cp
    obtain ⟨taken, listed, known⟩ := List.mem_filterMap.mp member
    obtain ⟨opcode, -, rfl⟩ := Option.map_eq_some_iff.mp known
    exact walk_body_length listed
  have counts : (cp.processCommandBuffer p dcb : Outcome Empty _).Returns ↔
      (processFrom p dcb 0 cp : Outcome Empty _).Returns ∧
        (p = .dev → cp.submitCount + 1 < 2 ^ 64) := by
    unfold processCommandBuffer
    rw [← Profile.add_returns (ε := Empty), Outcome.returns_bind]
    constructor
    · rintro ⟨walked, walk, counted⟩
      obtain ⟨count, added, -⟩ := Outcome.returns_bind.mp counted
      rw [processFrom_submitCount walk] at added
      exact ⟨⟨walked, walk⟩, count, added⟩
    · rintro ⟨⟨walked, walk⟩, count, added⟩
      rw [← processFrom_submitCount walk] at added
      refine ⟨walked, walk, ?_⟩
      rw [added]
      exact Outcome.returns_ok _
  apply counts.trans
  rw [executes]
  tauto

/-- SET_CONTEXT_REG with the last register offset and two values. -/
def lastRegisters : List UInt32 := [0xC0026900, 0xFFFFFFFF, 1, 2]

theorem processCommandBuffer_returns_fails_last :
    (new.processCommandBuffer .dev lastRegisters : Outcome Empty _).Panics ∧
      ¬ ∃ final, (new.processCommandBuffer .dev lastRegisters : Outcome Empty _) = .ok final := by
  have stopped : (new.processCommandBuffer .dev lastRegisters : Outcome Empty _) =
      .panic .overflow := by
    rw [processCommandBuffer_eq_walk]
    decide +kernel
  rw [stopped]
  exact ⟨trivial, nofun⟩

end CommandProcessor

/-! ### Register-write packets -/

/-- A part of a command stream: a packet or a filler, or the data of register writes behind
their header. -/
inductive StreamItem where
  | packet (packet : Packet)
  | type0 (header : UInt32) (data : List UInt32) (isType0 : typeBits header = 0)
    (complete : data.length = countBits header + 1)

namespace StreamItem

def encode : StreamItem → List UInt32
  | .packet part => part.encode
  | .type0 header data _ _ => header :: data

/-- The type-3 packet that an item at a position is. -/
def taken? (position : Nat) : StreamItem → Option Taken
  | .packet (.type3 header body _ _) => some ⟨position, header, body⟩
  | _ => none

/-- No data of register writes looks like a type-3 header. -/
def Quiet : StreamItem → Prop
  | .packet _ => True
  | .type0 _ data _ _ => ∀ word ∈ data, typeBits word ≠ 3

end StreamItem

def packetsOf (position : Nat) : List StreamItem → List Taken
  | [] => []
  | item :: items =>
    (item.taken? position).toList ++ packetsOf (position + item.encode.length) items

theorem position_le_of_mem_packetsOf {position : Nat} {items : List StreamItem} {taken : Taken}
    (member : taken ∈ packetsOf position items) : position ≤ taken.position := by
  induction items generalizing position with
  | nil => cases member
  | cons item items inductionHypothesis =>
    rcases List.mem_append.mp member with first | later
    · have same := Option.mem_toList.mp first
      unfold StreamItem.taken? at same
      split at same
      · cases same
        exact le_rfl
      · cases same
    · exact (Nat.le_add_right _ _).trans (inductionHypothesis later)

theorem walk_quiet {position : Nat} {words rest : List UInt32}
    (quiet : ∀ word ∈ words, typeBits word ≠ 3) :
    walk 0 position (words ++ rest) = walk 0 (position + words.length) rest := by
  induction words generalizing position with
  | nil => rfl
  | cons word words inductionHypothesis =>
    rw [List.cons_append, walk, if_neg (quiet word (.head _)),
      inductionHypothesis fun other member => quiet other (.tail _ member), List.length_cons,
      Nat.add_assoc, Nat.add_comm 1]

theorem walk_item {position : Nat} {item : StreamItem} {rest : List UInt32} (quiet : item.Quiet) :
    walk 0 position (item.encode ++ rest) =
      (item.taken? position).toList ++ walk 0 (position + item.encode.length) rest := by
  match item with
  | .packet (.filler word isFiller) =>
    apply walk_quiet
    intro other member
    cases List.mem_singleton.mp member
    omega
  | .packet (.type3 header body isType3 complete) =>
    have whole : (body ++ rest).take (countBits header + 1) = body := by
      rw [← complete, List.take_left]
    have passed := walk_append_of_length (position + 1) body rest
    rw [complete] at passed
    change walk 0 position (header :: (body ++ rest)) = _
    rw [walk, if_pos isType3, whole, passed]
    simp [StreamItem.taken?, StreamItem.encode, Packet.encode, complete, Nat.add_assoc, Nat.add_comm 1]
  | .type0 header data isType0 complete =>
    apply walk_quiet
    intro word member
    rcases List.mem_cons.mp member with rfl | inData
    · omega
    · exact quiet word inData

theorem walk_loud (position : Nat) {words : List UInt32} (rest : List UInt32)
    (loud : ∃ word ∈ words, typeBits word = 3) :
    ∃ taken ∈ walk 0 position (words ++ rest), taken.position < position + words.length := by
  induction words generalizing position with
  | nil =>
    obtain ⟨word, member, -⟩ := loud
    cases member
  | cons word words inductionHypothesis =>
    rw [List.cons_append, walk, List.length_cons]
    by_cases isType3 : typeBits word = 3
    · rw [if_pos isType3]
      exact ⟨_, .head _, by dsimp only; omega⟩
    · obtain ⟨other, member, looks⟩ := loud
      have later : other ∈ words := (List.mem_cons.mp member).resolve_left fun same =>
        isType3 (same ▸ looks)
      obtain ⟨taken, listed, below⟩ := inductionHypothesis (position + 1) ⟨other, later, looks⟩
      rw [if_neg isType3]
      exact ⟨taken, listed, by omega⟩

/-- The walk takes the packets of a stream exactly if all items are quiet. -/
theorem walk_eq_packetsOf_iff {position : Nat} {items : List StreamItem} :
    walk 0 position (items.flatMap StreamItem.encode) = packetsOf position items ↔
      ∀ item ∈ items, item.Quiet := by
  induction items generalizing position with
  | nil => exact iff_of_true rfl nofun
  | cons item items inductionHypothesis =>
    rw [List.flatMap_cons, List.forall_mem_cons]
    by_cases quiet : item.Quiet
    · rw [walk_item quiet, packetsOf, List.append_cancel_left_eq, inductionHypothesis]
      exact (and_iff_right quiet).symm
    · refine iff_of_false (fun same => ?_) fun both => quiet both.1
      -- the first packet that is taken is none of the stream
      match item with
      | .packet part => exact quiet trivial
      | .type0 header data isType0 complete =>
        have loud : ∃ word ∈ header :: data, typeBits word = 3 := by
          simp only [StreamItem.Quiet, not_forall, not_not] at quiet
          obtain ⟨word, member, looks⟩ := quiet
          exact ⟨word, .tail _ member, looks⟩
        obtain ⟨taken, listed, below⟩ := walk_loud position
          (items.flatMap StreamItem.encode) loud
        have member : taken ∈ packetsOf (position + (header :: data).length) items := same ▸ listed
        exact absurd (position_le_of_mem_packetsOf member) (Nat.not_le.mpr below)

namespace CommandProcessor

/-- Processing a stream executes the packets that the walk takes, and these are the packets of
the stream exactly if no data of register writes looks like a type-3 header. -/
theorem processCommandBuffer_inStep_iff (items : List StreamItem) :
    (∀ p cp, (cp.processCommandBuffer p (items.flatMap StreamItem.encode) : Outcome Empty _) = do
      let cp ← ((walk 0 0 (items.flatMap StreamItem.encode)).filterMap Taken.command).foldlM
        (execute p) cp
      let submitCount ← p.add 64 cp.submitCount 1
      return { cp with submitCount := submitCount }) ∧
    (walk 0 0 (items.flatMap StreamItem.encode) = packetsOf 0 items ↔ ∀ item ∈ items, item.Quiet) :=
  ⟨fun p cp => processCommandBuffer_eq_walk p cp _, walk_eq_packetsOf_iff⟩

/-- A write of one register whose value looks like NUM_INSTANCES, and a filler. -/
def loudStream : List StreamItem :=
  [.type0 0 [0xC0002F00] (by decide) (by decide), .packet (.filler 0x80000000 (.inr (by decide)))]

/-- The value is taken for a packet, which changes the number of instances. -/
theorem processCommandBuffer_inStep_fails_loud :
    packetsOf 0 loudStream = [] ∧
    walk 0 0 (loudStream.flatMap StreamItem.encode) = [⟨1, 0xC0002F00, [0x80000000]⟩] ∧
    (new.processCommandBuffer .release (loudStream.flatMap StreamItem.encode) :
      Outcome Empty _) = .ok ⟨{ GpuRegs.default with numInstances := 0x80000000 }, 1⟩ := by
  refine ⟨rfl, by decide +kernel, ?_⟩
  rw [processCommandBuffer_eq_walk]
  decide +kernel

end CommandProcessor

end AnotherPs4
