import AnotherPs4.Hle.Patching
import AnotherPs4.Linker.Linker
import AnotherPs4.Patterns.Replace

/-!
# Patches of code

Two passes go over the code of the executable, one for assertion traps and one
for system calls. Each replaces all occurrences of its pattern, and they have no
letter in common that would make one depend on the other.
-/

namespace AnotherPs4

open Rust Patterns

def syscallPattern : List UInt8 := [0x0F, 0x05]

/-- `ud2` -/
def syscallPatch : List UInt8 := [0x0F, 0x0B]

/-- What a pass leaves and what it counts, in a `u32`. -/
structure PassReplaces (p : Profile) (pass : Ram → Outcome Empty (Ram × Nat))
    (pattern replacement : List UInt8) (base size : Nat) : Prop where
  returns : ∀ ram, (pass ram).Returns ↔ (p = .dev → occurrences ram pattern base size < 2 ^ 32)
  replaces : ∀ ram ram' count, pass ram = .ok (ram', count) →
    Replaces pattern replacement base size (2 ^ 64) ram ram' ∧
      count = occurrences ram pattern base size % 2 ^ 32

def PassIdempotent (pass : Ram → Outcome Empty (Ram × Nat)) : Prop :=
  ∀ ram ram' count, pass ram = .ok (ram', count) →
    ∃ ram'', pass ram' = .ok (ram'', 0) ∧ ∀ x < 2 ^ 64, ram'' x = ram' x

/-- The passes leave the same bytes in either order, and none of the patterns. -/
def PassesCommute (base size : Nat) (pass pass' : Ram → Outcome Empty (Ram × Nat))
    (pattern pattern' : List UInt8) : Prop :=
  ∀ ram ram' ram'' count count', pass ram = .ok (ram', count) → pass' ram = .ok (ram'', count') →
    ∃ both both', pass' ram' = .ok (both, count') ∧ pass ram'' = .ok (both', count) ∧
      (∀ x < 2 ^ 64, both x = both' x) ∧
      ∀ a, ¬ OccursAt both pattern base size a ∧ ¬ OccursAt both pattern' base size a

section Traps

variable {p : Profile} {base codeSize i patched : Nat} {ram : Ram}

theorem trapPattern_spelled {a : Nat} :
    (List.range 6).map (fun k => ram (a + k)) = Linker.trapPattern ↔
      MatchesAt ram Linker.trapPattern a := by
  constructor
  · intro spelled k inside
    simp only [← spelled, List.getElem_map, List.getElem_range]
  · intro spelled
    refine List.ext_getElem rfl fun k inside inside' => ?_
    rw [List.getElem_map, List.getElem_range]
    exact spelled k inside'

theorem trapPattern_unbordered : Unbordered Linker.trapPattern := by
  unfold Unbordered
  decide

theorem trapPattern_inert : Inert Linker.trapPattern Linker.trapPatch where
  length := rfl
  other := by decide
  letters := by decide

theorem syscallPattern_inert : Inert syscallPattern syscallPatch where
  length := rfl
  other := by decide
  letters := by decide

section Scan

variable {result : Ram × Nat} (bounded : base + codeSize ≤ 2 ^ 64)

include bounded

theorem write_trapPatch (ram : Ram) (more : i + 5 < codeSize) :
    (∀ k (_ : k < Linker.trapPatch.length),
      ram.write (base + i) Linker.trapPatch (base + i + k) = Linker.trapPatch[k]) ∧
    ∀ x < 2 ^ 64, ¬ (base + i ≤ x ∧ x < base + i + Linker.trapPattern.length) →
      ram.write (base + i) Linker.trapPatch x = ram x := by
  have fits : base + i + Linker.trapPatch.length ≤ 2 ^ 64 :=
    (by omega : base + i + 6 ≤ 2 ^ 64)
  exact ⟨fun k inside => Ram.write_inside fits inside,
    fun x word outside => Ram.write_outside fits word outside⟩

theorem traps_step (more : i + 5 < codeSize) (here : MatchesAt ram Linker.trapPattern (base + i)) :
    occurrences ram Linker.trapPattern (base + i) (codeSize - i) =
      occurrences (ram.write (base + i) Linker.trapPatch) Linker.trapPattern (base + (i + 6))
        (codeSize - (i + 6)) + 1 := by
  have length : Linker.trapPattern.length = 6 := rfl
  rw [Replaces.occurrences_eq trapPattern_unbordered here (by omega) (by omega)
    (write_trapPatch bounded ram more).2 (by decide), length, Nat.add_assoc, Nat.sub_sub]

omit bounded in
theorem traps_skip (more : i + 5 < codeSize)
    (other : ¬ MatchesAt ram Linker.trapPattern (base + i)) :
    occurrences ram Linker.trapPattern (base + i) (codeSize - i) =
      occurrences ram Linker.trapPattern (base + (i + 1)) (codeSize - (i + 1)) := by
  have length : Linker.trapPattern.length = 6 := rfl
  rw [occurrences_step (by omega) (by omega), if_neg other, Nat.sub_sub]
  rfl

omit bounded in
theorem traps_done (done : ¬ i + 5 < codeSize) :
    occurrences ram Linker.trapPattern (base + i) (codeSize - i) = 0 :=
  occurrences_short (by change codeSize - i < 6; omega)

theorem patchTrapsFrom_eq_ok (small : patched < 2 ^ 32)
    (returned : patchTrapsFrom p base codeSize i ram patched = .ok result) :
    Replaces Linker.trapPattern Linker.trapPatch (base + i) (codeSize - i) (2 ^ 64) ram result.1 ∧
      result.2 = (patched + occurrences ram Linker.trapPattern (base + i) (codeSize - i)) % 2 ^ 32 := by
  have length : Linker.trapPattern.length = 6 := rfl
  induction i, ram, patched using patchTrapsFrom.induct base codeSize with
  | case1 i ram patched more spelled ih =>
    rw [patchTrapsFrom, if_pos more, if_pos spelled] at returned
    obtain ⟨count, added, returned⟩ := Outcome.bind_eq_ok.mp returned
    have next : count = (patched + 1) % 2 ^ 32 := Profile.add_eq_ok added
    obtain ⟨replaces, counted⟩ := ih count (by omega) returned
    obtain ⟨written, frame⟩ := write_trapPatch bounded ram more
    have here := trapPattern_spelled.mp spelled
    have rest : codeSize - i - Linker.trapPattern.length = codeSize - (i + 6) := by omega
    refine ⟨.step trapPattern_unbordered here (by omega) (by omega) frame rfl written ?_, ?_⟩
    · rw [rest]
      exact replaces
    · rw [counted, next, traps_step bounded more here]
      omega
  | case2 i ram patched more other ih =>
    rw [patchTrapsFrom, if_pos more, if_neg other] at returned
    obtain ⟨replaces, counted⟩ := ih small returned
    have none : ¬ MatchesAt ram Linker.trapPattern (base + i) := mt trapPattern_spelled.mpr other
    refine ⟨.skip (by omega) none ?_, by rw [counted, traps_skip more none]⟩
    rw [Nat.sub_sub]
    exact replaces
  | case3 i ram patched done =>
    rw [patchTrapsFrom, if_neg done] at returned
    cases returned
    refine ⟨.short (by omega), ?_⟩
    rw [traps_done done, Nat.add_zero, Nat.mod_eq_of_lt small]

theorem patchTrapsFrom_returns (small : patched < 2 ^ 32) :
    (patchTrapsFrom p base codeSize i ram patched).Returns ↔ (p = .dev →
      patched + occurrences ram Linker.trapPattern (base + i) (codeSize - i) < 2 ^ 32) := by
  induction i, ram, patched using patchTrapsFrom.induct base codeSize with
  | case1 i ram patched more spelled ih =>
    rw [patchTrapsFrom, if_pos more, if_pos spelled,
      traps_step bounded more (trapPattern_spelled.mp spelled)]
    cases p with
    | release =>
      rw [Profile.add_release, Outcome.ok_bind, ih _ (Nat.mod_lt _ (Nat.two_pow_pos 32))]
      exact iff_of_true nofun nofun
    | dev =>
      rw [Profile.add_dev]
      by_cases fits : patched + 1 < 2 ^ 32
      · rw [if_pos fits, Outcome.ok_bind, ih _ fits, Nat.add_right_comm, Nat.add_assoc]
      · rw [if_neg fits]
        apply iff_of_false (Outcome.not_returns_panic _)
        intro all
        have := all rfl
        omega
  | case2 i ram patched more other ih =>
    rw [patchTrapsFrom, if_pos more, if_neg other, ih small,
      traps_skip more (mt trapPattern_spelled.mpr other)]
  | case3 i ram patched done =>
    rw [patchTrapsFrom, if_neg done, traps_done done]
    exact iff_of_true (Outcome.returns_ok _) fun _ => small

end Scan

end Traps

section Passes

variable {p : Profile} {base size : Nat} (nonempty : 0 < size) (bounded : base + size ≤ 2 ^ 64)

include bounded

theorem patchTraps_replaces :
    PassReplaces p (patchTraps p base size) Linker.trapPattern Linker.trapPatch base size where
  returns ram := by
    rw [patchTraps, patchTrapsFrom_returns bounded (Nat.two_pow_pos 32), Nat.zero_add]
    rfl
  replaces ram ram' count returned := by
    obtain ⟨replaces, counted⟩ :=
      patchTrapsFrom_eq_ok bounded (Nat.two_pow_pos 32) returned
    rw [Nat.zero_add] at counted
    exact ⟨replaces, counted⟩

omit bounded in
theorem isSyscall_iff {ram : Ram} {a : Nat} : ram.IsSyscall a ↔ MatchesAt ram syscallPattern a := by
  constructor
  · rintro ⟨first, second⟩ k inside
    match k, inside with
    | 0, _ => exact first
    | 1, _ => exact second
  · exact fun spelled => ⟨spelled 0 (by decide), spelled 1 (by decide)⟩

omit bounded in
theorem syscallCount_eq (ram : Ram) :
    ram.syscallCount base size = occurrences ram syscallPattern base size := by
  have places : List.range' base (size + 1 - syscallPattern.length) =
      (List.range' 0 (size - 1 - 0)).map (base + ·) := by
    rw [List.map_add_range']
    rfl
  unfold occurrences
  rw [places, List.countP_map]
  exact List.countP_congr fun k _ => by simp [isSyscall_iff]

include nonempty

theorem patchSyscalls_replaces :
    PassReplaces p (patchSyscalls p base size) syscallPattern syscallPatch base size where
  returns ram := by rw [patchSyscalls_returns nonempty bounded, syscallCount_eq]
  replaces ram ram' count returned := by
    have bytes : ∀ x < 2 ^ 64, ram' x = ram.patched base size x :=
      fun x word => patchSyscalls_eq_ok nonempty bounded returned word
    have counted : count = ram.syscallCount base size % 2 ^ 32 :=
      patchSyscalls_count nonempty bounded returned
    have length : syscallPattern.length = 2 := rfl
    refine ⟨⟨fun a ⟨low, high, spelled⟩ k inside => ?_, fun x word outside => ?_⟩, ?_⟩
    · obtain ⟨first, second⟩ := isSyscall_iff.mpr spelled
      match k, inside with
      | 0, _ =>
        rw [bytes _ (by omega)]
        exact Ram.patched_first.mpr first
      | 1, _ =>
        rw [bytes _ (by omega)]
        exact if_pos ⟨by omega, by omega, first, second⟩
    · rw [bytes x word]
      refine if_neg fun ⟨above, below, pair⟩ => ?_
      exact outside (x - 1) ⟨by omega, by omega, isSyscall_iff.mp pair⟩ ⟨by omega, by omega⟩
    · rw [counted, syscallCount_eq]

end Passes

namespace PassReplaces

variable {p : Profile} {pass pass' : Ram → Outcome Empty (Ram × Nat)}
  {pattern replacement pattern' replacement' : List UInt8} {base size : Nat}
  (replaces : PassReplaces p pass pattern replacement base size)

include replaces

theorem of_none {ram : Ram} (none : ∀ a, ¬ OccursAt ram pattern base size a) :
    ∃ ram', pass ram = .ok (ram', 0) ∧ ∀ x < 2 ^ 64, ram' x = ram x := by
  have zero := occurrences_eq_zero none
  obtain ⟨⟨ram', count⟩, returned⟩ := (replaces.returns ram).mpr fun _ => by
    rw [zero]
    exact Nat.two_pow_pos 32
  obtain ⟨bytes, counted⟩ := replaces.replaces ram ram' count returned
  rw [zero] at counted
  subst counted
  exact ⟨ram', returned, fun x word => bytes.kept_of_none none word⟩

variable (bounded : base + size ≤ 2 ^ 64) (inert : Inert pattern replacement)

include bounded inert

theorem idempotent : PassIdempotent pass := by
  intro ram ram' count returned
  obtain ⟨bytes, -⟩ := replaces.replaces ram ram' count returned
  exact replaces.of_none (bytes.none_left inert bounded)

/-- After a foreign pass there is as much to replace as before. -/
theorem after_foreign (foreign : Foreign pattern' pattern replacement)
    (replaces' : PassReplaces p pass' pattern' replacement' base size)
    {ram ram' ram'' : Ram} {count count' : Nat} (returned : pass ram = .ok (ram', count))
    (returned' : pass' ram = .ok (ram'', count')) : ∃ both, pass' ram' = .ok (both, count') := by
  obtain ⟨bytes, -⟩ := replaces.replaces ram ram' count returned
  have same : occurrences ram' pattern' base size = occurrences ram pattern' base size :=
    occurrences_congr fun a _ inside =>
      bytes.matchesAt_iff inert.length foreign (inside.trans bounded)
  obtain ⟨⟨both, count''⟩, again⟩ := (replaces'.returns ram').mpr (by
    rw [same]
    exact (replaces'.returns ram).mp ⟨_, returned'⟩)
  have counted := (replaces'.replaces _ _ _ again).2
  rw [same, ← (replaces'.replaces _ _ _ returned').2] at counted
  exact ⟨both, counted ▸ again⟩

theorem commute (inert' : Inert pattern' replacement')
    (replaces' : PassReplaces p pass' pattern' replacement' base size)
    (foreign : Foreign pattern' pattern replacement)
    (foreign' : Foreign pattern pattern' replacement') :
    PassesCommute base size pass pass' pattern pattern' := by
  intro ram ram' ram'' count count' returned returned'
  obtain ⟨both, again⟩ := after_foreign replaces bounded inert foreign replaces' returned returned'
  obtain ⟨both', again'⟩ :=
    after_foreign replaces' bounded inert' foreign' replaces returned' returned
  have first := (replaces.replaces _ _ _ returned).1
  have second := (replaces'.replaces _ _ _ again).1
  have first' := (replaces'.replaces _ _ _ returned').1
  have second' := (replaces.replaces _ _ _ again').1
  refine ⟨both, both', again, again', fun x word => first.commute inert.length inert'.length foreign
    foreign' bounded second first' second' word, fun a => ⟨fun occurs => ?_,
    second.none_left inert' bounded a⟩⟩
  exact first.none_left inert bounded a
    ((second.occursAt_iff inert'.length foreign' bounded).mp occurs)

end PassReplaces

/-- The two passes are exact and do not interfere. -/
structure PatchesExact (p : Profile) (base size : Nat) : Prop where
  traps : PassReplaces p (patchTraps p base size) Linker.trapPattern Linker.trapPatch base size
  syscalls : PassReplaces p (patchSyscalls p base size) syscallPattern syscallPatch base size
  trapsTwice : PassIdempotent (patchTraps p base size)
  syscallsTwice : PassIdempotent (patchSyscalls p base size)
  commute : PassesCommute base size (patchTraps p base size) (patchSyscalls p base size)
    Linker.trapPattern syscallPattern

theorem patchesExact (p : Profile) {base size : Nat} (nonempty : 0 < size)
    (bounded : base + size ≤ 2 ^ 64) : PatchesExact p base size := by
  have traps := patchTraps_replaces (p := p) bounded
  have syscalls := patchSyscalls_replaces (p := p) nonempty bounded
  have foreign : Foreign syscallPattern Linker.trapPattern Linker.trapPatch := by decide
  have foreign' : Foreign Linker.trapPattern syscallPattern syscallPatch := by decide
  exact ⟨traps, syscalls, traps.idempotent bounded trapPattern_inert,
    syscalls.idempotent bounded syscallPattern_inert,
    traps.commute bounded trapPattern_inert syscallPattern_inert syscalls foreign foreign'⟩

theorem patchesExact_page : PatchesExact .dev 0x1000000000 0x4000 :=
  patchesExact .dev (by decide) (by decide)

def Ram.syscallsOnly : Ram := fun x => if x % 2 = 0 then 0x0F else 0x05

theorem occurrences_syscallsOnly (n : Nat) {base : Nat} (even : base % 2 = 0) :
    occurrences Ram.syscallsOnly syscallPattern base (2 * n) = n := by
  have length : syscallPattern.length = 2 := rfl
  induction n generalizing base with
  | zero => exact occurrences_short (by decide)
  | succ n ih =>
    have here : MatchesAt Ram.syscallsOnly syscallPattern base :=
      isSyscall_iff.mp ⟨if_pos even, if_neg (by omega)⟩
    have between : ∀ k < 1, ¬ MatchesAt Ram.syscallsOnly syscallPattern (base + 1 + k) := by
      intro k first spelled
      have letter : Ram.syscallsOnly (base + 1 + k) = 0x0F := (isSyscall_iff.mpr spelled).1
      unfold Ram.syscallsOnly at letter
      rw [if_neg (by omega)] at letter
      exact absurd letter (by decide)
    rw [occurrences_step (by omega) (by omega), if_pos here,
      occurrences_skip 1 (by omega) between]
    exact congrArg (· + 1) (ih (by omega))

/-- The counter wraps around at 2^32 system calls. -/
theorem patchSyscalls_count_wraps :
    ∃ ram', patchSyscalls .release 0x1000000000 (2 ^ 33) Ram.syscallsOnly = .ok (ram', 0) ∧
      occurrences Ram.syscallsOnly syscallPattern 0x1000000000 (2 ^ 33) = 2 ^ 32 := by
  have replaces : PassReplaces .release (patchSyscalls .release 0x1000000000 (2 ^ 33))
      syscallPattern syscallPatch 0x1000000000 (2 ^ 33) :=
    patchSyscalls_replaces (by decide) (by decide)
  have count : occurrences Ram.syscallsOnly syscallPattern 0x1000000000 (2 ^ 33) = 2 ^ 32 := by
    rw [pow_succ' 2 32]
    exact occurrences_syscallsOnly (2 ^ 32) (by decide)
  obtain ⟨⟨ram', counted⟩, returned⟩ := (replaces.returns Ram.syscallsOnly).mpr nofun
  have wrapped := (replaces.replaces _ _ _ returned).2
  rw [count, Nat.mod_self] at wrapped
  exact ⟨ram', wrapped ▸ returned, count⟩

end AnotherPs4
