import AnotherPs4.Linker.Segments

/-!
# The end of the dynlib data

A truncated file is accepted with the dynlib data that is left of it, and nothing
checks the tables against this data. Reading the relocations returns exactly if
every entry, symbol and name starts in the data, and a name is the one in the
string table exactly if it ends there.
-/

namespace AnotherPs4

open Rust

/-! ### Ends of strings -/

section Strings

variable {data : List UInt8} {start stop : Nat}

/-- A null byte or the end of the data between two positions. -/
def EndsBy (data : List UInt8) (start stop : Nat) : Prop :=
  ∃ k, start ≤ k ∧ k ≤ stop ∧ (k = data.length ∨ data[k]? = some 0)

theorem getElem?_length_takeWhile {α : Type} (keep : α → Bool) (xs : List α) :
    (xs.takeWhile keep).length = xs.length ∨
      ∃ x, xs[(xs.takeWhile keep).length]? = some x ∧ keep x = false := by
  induction xs with
  | nil => exact .inl rfl
  | cons x xs inductionHypothesis =>
    by_cases kept : keep x = true
    · rw [List.takeWhile_cons_of_pos kept, List.length_cons, List.length_cons,
        List.getElem?_cons_succ]
      exact inductionHypothesis.imp_left (congrArg (· + 1))
    · rw [List.takeWhile_cons_of_neg kept]
      exact .inr ⟨x, rfl, Bool.not_eq_true _ ▸ kept⟩

theorem stringEnd_closes (inside : start ≤ data.length) :
    stringEnd data start = data.length ∨ data[stringEnd data start]? = some 0 := by
  unfold stringEnd
  rcases getElem?_length_takeWhile (· ≠ 0) (data.drop start) with whole | ⟨byte, found, nul⟩
  · rw [whole, List.length_drop]
    exact .inl (Nat.add_sub_cancel' inside)
  · rw [List.getElem?_drop] at found
    rw [decide_eq_false_iff_not, not_not] at nul
    exact .inr (nul ▸ found)

theorem stringEnd_le {k : Nat} (low : start ≤ k) (closed : k = data.length ∨ data[k]? = some 0) :
    stringEnd data start ≤ k := by
  have whole : (data.drop start).takeWhile (· ≠ 0) <+: data.drop start := List.takeWhile_prefix _
  have short := whole.length_le
  rw [List.length_drop] at short
  unfold stringEnd
  rcases closed with rfl | nul
  · omega
  · by_contra beyond
    have bound : k - start < ((data.drop start).takeWhile (· ≠ 0)).length := by omega
    have found : (data.drop start)[k - start]? = some 0 := by
      rw [List.getElem?_drop, Nat.add_sub_cancel' low, nul]
    have kept : ((data.drop start).takeWhile (· ≠ 0))[k - start]? = some 0 := by
      rw [List.prefix_iff_eq_take.mp whole, List.getElem?_take_of_lt bound, found]
    have nonNull := List.all_eq_true.mp List.all_takeWhile 0 (List.mem_of_getElem? kept)
    exact absurd nonNull (by decide)

theorem EndsBy.of_stringEnd_le (inside : start ≤ data.length) (ends : stringEnd data start ≤ stop) :
    EndsBy data start stop :=
  ⟨_, Nat.le_add_right _ _, ends, stringEnd_closes inside⟩

theorem EndsBy.inside (ends : EndsBy data start stop) : start ≤ data.length := by
  obtain ⟨k, low, -, rfl | nul⟩ := ends
  · exact low
  · exact low.trans (List.getElem?_eq_some_iff.mp nul).1.le

theorem EndsBy.stringEnd_le (ends : EndsBy data start stop) : stringEnd data start ≤ stop := by
  obtain ⟨k, low, high, closed⟩ := ends
  exact (AnotherPs4.stringEnd_le low closed).trans high

end Strings

/-! ### The two lookups -/

namespace Module

/-- What the string table, bounded by its size, holds from an offset up to the first
null byte. -/
def tableString (data : List UInt8) (strtabOff strtabSz offset : Nat) : List UInt8 :=
  ((bytesAt data strtabOff strtabSz).drop offset).takeWhile (· ≠ 0)

/-- Both lookups return the string of the table, and decode no byte outside it. -/
structure LooksUpInTable (p : Profile) (elf : Elf) (strtabOff strtabSz offset : Nat) : Prop where
  dynamic : elf.getDynamicString p offset =
    (.ok (fromUtf8Lossy (tableString elf.dynlibData strtabOff strtabSz offset)) : Outcome Empty String)
  relocation : getString p elf.dynlibData strtabOff strtabSz offset =
    .ok (fromUtf8Lossy (tableString elf.dynlibData strtabOff strtabSz offset))
  inside : offset < strtabSz → ∀ k, (strtabOff + offset) % 2 ^ 64 ≤ k →
    k < stringEnd elf.dynlibData ((strtabOff + offset) % 2 ^ 64) →
    strtabOff ≤ k ∧ k < strtabOff + strtabSz

/-- A string that starts in the table ends in it or right behind it. An offset past the
end of the address space goes unnoticed only where it meets a null byte. -/
def NameEnds (p : Profile) (data : List UInt8) (strtabOff strtabSz offset : Nat) : Prop :=
  offset < strtabSz → if strtabOff + offset < 2 ^ 64 then
      EndsBy data (strtabOff + offset) (strtabOff + strtabSz)
    else p = .release ∧
      EndsBy data (strtabOff + offset - 2 ^ 64) (strtabOff + offset - 2 ^ 64)

variable {p : Profile} {elf : Elf} {data : List UInt8} {strtabOff strtabSz offset start : Nat}

theorem getDynamicString_eq {ε : Type} (strtab : elf.dynamicValue dtSceStrtab = some strtabOff)
    (strsz : elf.dynamicValue dtSceStrsz = some strtabSz) (within : offset < strtabSz)
    (added : (p.add 64 strtabOff offset : Outcome ε Nat) = .ok start) :
    (elf.getDynamicString p offset : Outcome ε String) =
      .ok (fromUtf8Lossy ((elf.dynlibData.drop start).takeWhile (· ≠ 0))) := by
  unfold Elf.getDynamicString
  rw [strtab, strsz]
  dsimp only
  rw [if_neg (Nat.not_le.mpr within), added, Outcome.ok_bind]
  split
  · next behind =>
    rw [List.drop_eq_nil_of_le behind]
    rfl
  · next inside =>
    rw [slice_stringEnd (Nat.not_le.mp inside).le]
    rfl

theorem getString_eq (within : offset < strtabSz)
    (added : (p.add 64 strtabOff offset : Outcome Empty Nat) = .ok start)
    (inside : start ≤ data.length) :
    getString p data strtabOff strtabSz offset =
      .ok (fromUtf8Lossy ((data.drop start).takeWhile (· ≠ 0))) := by
  rw [getString, if_neg (Nat.not_le.mpr within), added, Outcome.ok_bind, slice_stringEnd inside]
  rfl

theorem tableString_eq : tableString data strtabOff strtabSz offset =
    ((data.drop (strtabOff + offset)).takeWhile (· ≠ 0)).take (strtabSz - offset) := by
  rw [tableString, bytesAt, List.drop_take, List.drop_drop, List.take_takeWhile]

theorem looksUpInTable_of_le (strtab : elf.dynamicValue dtSceStrtab = some strtabOff)
    (strsz : elf.dynamicValue dtSceStrsz = some strtabSz) (behind : strtabSz ≤ offset) :
    LooksUpInTable p elf strtabOff strtabSz offset := by
  have empty : tableString elf.dynlibData strtabOff strtabSz offset = [] := by
    rw [tableString_eq, Nat.sub_eq_zero_of_le behind, List.take_zero]
  refine ⟨?_, ?_, fun within => absurd within (Nat.not_lt.mpr behind)⟩
  · rw [empty, Elf.getDynamicString, strtab, strsz]
    exact if_pos behind
  · rw [empty]
    exact if_pos behind

theorem looksUpInTable_iff_of_lt (strtab : elf.dynamicValue dtSceStrtab = some strtabOff)
    (strsz : elf.dynamicValue dtSceStrsz = some strtabSz) (within : offset < strtabSz)
    (fits : strtabOff + offset < 2 ^ 64) :
    LooksUpInTable p elf strtabOff strtabSz offset ↔
      EndsBy elf.dynlibData (strtabOff + offset) (strtabOff + strtabSz) := by
  have added {ε : Type} : (p.add 64 strtabOff offset : Outcome ε Nat) = .ok (strtabOff + offset) :=
    Profile.add_of_lt fits
  constructor
  · intro looksUp
    have starts := getString_returns.mp ⟨_, looksUp.relocation⟩ within
    rw [StartsIn, Nat.mod_eq_of_lt fits] at starts
    have inside := looksUp.inside within (strtabOff + strtabSz)
    rw [Nat.mod_eq_of_lt fits] at inside
    refine .of_stringEnd_le starts.2 ?_
    by_contra beyond
    exact absurd (inside (by omega) (Nat.not_le.mp beyond)).2 (lt_irrefl _)
  · intro ends
    have stops := ends.stringEnd_le
    have whole : tableString elf.dynlibData strtabOff strtabSz offset =
        (elf.dynlibData.drop (strtabOff + offset)).takeWhile (· ≠ 0) := by
      rw [tableString_eq]
      unfold stringEnd at stops
      exact List.take_of_length_le (by omega)
    refine ⟨?_, ?_, fun _ k low high => ?_⟩
    · rw [whole, getDynamicString_eq strtab strsz within added]
    · rw [whole, getString_eq within added ends.inside]
    · rw [Nat.mod_eq_of_lt fits] at low high
      omega

/-- Where the sum wraps, the string is empty or not in the table. -/
theorem looksUpInTable_iff_of_wraps (strtab : elf.dynamicValue dtSceStrtab = some strtabOff)
    (strsz : elf.dynamicValue dtSceStrsz = some strtabSz) (within : offset < strtabSz)
    (word : strtabOff < 2 ^ 64) (index : offset < 2 ^ 32) (length : elf.dynlibData.length < 2 ^ 63)
    (wraps : 2 ^ 64 ≤ strtabOff + offset) :
    LooksUpInTable p elf strtabOff strtabSz offset ↔ p = .release ∧
      EndsBy elf.dynlibData (strtabOff + offset - 2 ^ 64) (strtabOff + offset - 2 ^ 64) := by
  have start : (strtabOff + offset) % 2 ^ 64 = strtabOff + offset - 2 ^ 64 := by
    rw [Nat.mod_eq_sub_mod wraps, Nat.mod_eq_of_lt (by omega)]
  have empty : tableString elf.dynlibData strtabOff strtabSz offset = [] := by
    rw [tableString_eq, List.drop_eq_nil_of_le (by omega), List.takeWhile_nil, List.take_nil]
  constructor
  · intro looksUp
    have starts := getString_returns.mp ⟨_, looksUp.relocation⟩ within
    rw [StartsIn, start] at starts
    refine ⟨?_, .of_stringEnd_le starts.2 ?_⟩
    · cases p with
      | dev => exact absurd (starts.1 rfl) (by omega)
      | release => rfl
    · by_contra beyond
      have inside := looksUp.inside within (strtabOff + offset - 2 ^ 64)
      rw [start] at inside
      have low := (inside le_rfl (Nat.not_le.mp beyond)).1
      omega
  · rintro ⟨rfl, ends⟩
    have added {ε : Type} : (Profile.release.add 64 strtabOff offset : Outcome ε Nat) =
        .ok (strtabOff + offset - 2 ^ 64) := by rw [Profile.add_release, start]
    have stops := ends.stringEnd_le
    have nothing : (elf.dynlibData.drop (strtabOff + offset - 2 ^ 64)).takeWhile (· ≠ 0) = [] := by
      unfold stringEnd at stops
      exact List.eq_nil_of_length_eq_zero (by omega)
    refine ⟨?_, ?_, fun _ k low high => ?_⟩
    · rw [empty, getDynamicString_eq strtab strsz within added, nothing]
    · rw [empty, getString_eq within added ends.inside, nothing]
    · rw [start] at low high
      omega

/-- The lookups agree on the string in the table exactly if it ends there. -/
theorem looksUpInTable_iff (p : Profile) {elf : Elf} {strtabOff strtabSz offset : Nat}
    (strtab : elf.dynamicValue dtSceStrtab = some strtabOff)
    (strsz : elf.dynamicValue dtSceStrsz = some strtabSz) (word : strtabOff < 2 ^ 64)
    (index : offset < 2 ^ 32) (length : elf.dynlibData.length < 2 ^ 63) :
    LooksUpInTable p elf strtabOff strtabSz offset ↔
      NameEnds p elf.dynlibData strtabOff strtabSz offset := by
  unfold NameEnds
  by_cases within : offset < strtabSz
  · simp only [within, true_imp_iff]
    split
    · next fits => exact looksUpInTable_iff_of_lt strtab strsz within fits
    · next wraps =>
      exact looksUpInTable_iff_of_wraps strtab strsz within word index length (by omega)
  · exact iff_of_true (looksUpInTable_of_le strtab strsz (Nat.not_lt.mp within))
      fun inside => absurd inside within

def parsed (p : Profile) (file : List UInt8) : Option Elf :=
  match Elf.parse p file with
  | .ok elf => some elf
  | _ => none

theorem parsed_eq_some {file : List UInt8} (found : parsed p file = some elf) :
    Elf.parse p file = .ok elf := by
  unfold parsed at found
  split at found
  · next result same =>
    rw [same, Option.some.inj found]
  · cases found

/-- An image with the string "libc" in a table of five bytes. -/
def stringImage : List UInt8 := symbolImage [0x90, 0xC3] [] (utf8 "libc" ++ [0]) []

theorem looksUpInTable_iff_libc :
    ∃ elf, Elf.parse .dev stringImage = .ok elf ∧ LooksUpInTable .dev elf 0 5 1 ∧
      tableString elf.dynlibData 0 5 1 = utf8 "ibc" := by
  have facts : (parsed .dev stringImage).map (fun elf =>
      (elf.dynamicValue dtSceStrtab, elf.dynamicValue dtSceStrsz, elf.dynlibData)) =
      some (some 0, some 5, utf8 "libc" ++ [0]) := by decide +kernel
  obtain ⟨elf, found, same⟩ := Option.map_eq_some_iff.mp facts
  simp only [Prod.mk.injEq] at same
  obtain ⟨strtab, strsz, dynlib⟩ := same
  refine ⟨elf, parsed_eq_some found, (looksUpInTable_iff .dev strtab strsz (by decide) (by decide)
    (by rw [dynlib]; decide +kernel)).mpr fun _ => ?_, by rw [dynlib]; decide +kernel⟩
  rw [if_pos (by decide), dynlib]
  exact ⟨4, by decide, by decide, by decide +kernel⟩

/-- An image with a table of one byte without a null byte, and relocations behind it. -/
def runOnImage : List UInt8 :=
  symbolImage [0x90, 0xC3] [] (utf8 "A") (relocationBytes 0x42 0 rX86_64Relative 0)

/-- Both lookups run on behind the table, and only one of them notices that a table is
behind the data. -/
theorem looksUpInTable_fails_run_on :
    (∃ elf, Elf.parse .dev runOnImage = .ok elf ∧ elf.dynamicValue dtSceStrtab = some 0 ∧
      elf.dynamicValue dtSceStrsz = some 1 ∧ tableString elf.dynlibData 0 1 0 = utf8 "A" ∧
      elf.getDynamicString .dev 0 = (.ok "AB" : Outcome Empty String) ∧
      ¬ LooksUpInTable .dev elf 0 1 0) ∧
    ∃ elf, Elf.parse .dev strayTableImage = .ok elf ∧ elf.dynamicValue dtSceStrtab = some 0 ∧
      elf.dynamicValue dtSceStrsz = some 8 ∧
      elf.getDynamicString .dev 1 = (.ok "" : Outcome Empty String) ∧
      (getString .dev elf.dynlibData 0 8 1).Panics ∧ ¬ LooksUpInTable .dev elf 0 8 1 := by
  constructor
  · have facts : (parsed .dev runOnImage).map (fun elf =>
        (elf.dynamicValue dtSceStrtab, elf.dynamicValue dtSceStrsz,
          tableString elf.dynlibData 0 1 0,
          (elf.getDynamicString .dev 0 : Outcome Empty String))) =
        some (some 0, some 1, utf8 "A", .ok "AB") := by decide +kernel
    obtain ⟨elf, found, same⟩ := Option.map_eq_some_iff.mp facts
    simp only [Prod.mk.injEq] at same
    obtain ⟨strtab, strsz, table, read⟩ := same
    refine ⟨elf, parsed_eq_some found, strtab, strsz, table, read, fun looksUp => ?_⟩
    have agreed := looksUp.dynamic
    rw [read, table, fromUtf8Lossy_utf8] at agreed
    exact absurd agreed (by decide)
  · have facts : (parsed .dev strayTableImage).map (fun elf =>
        (elf.dynamicValue dtSceStrtab, elf.dynamicValue dtSceStrsz,
          (elf.getDynamicString .dev 1 : Outcome Empty String), getString .dev elf.dynlibData 0 8 1)) =
        some (some 0, some 8, .ok "", .panic .sliceRange) := by decide +kernel
    obtain ⟨elf, found, same⟩ := Option.map_eq_some_iff.mp facts
    simp only [Prod.mk.injEq] at same
    obtain ⟨strtab, strsz, dynamic, relocation⟩ := same
    refine ⟨elf, parsed_eq_some found, strtab, strsz, dynamic, by rw [relocation]; trivial,
      fun looksUp => ?_⟩
    have returned := looksUp.relocation
    rw [relocation] at returned
    cases returned

/-! ### The relocations -/

/-- `parse_relocations` returns exactly if all entries of the tables, their symbols and
the names of these start in the dynlib data. -/
theorem parseRelocations_total_iff (p : Profile) (elf : Elf) :
    (∃ relocations, parseRelocations p elf = .ok relocations) ↔ TablesReadable p elf :=
  parseRelocations_returns

/-- An image with two relocations, cut off in the first one. -/
def cutTableImage : List UInt8 :=
  (symbolImage [0x90, 0xC3] [] []
    (relocationBytes 0 0 rX86_64Relative 0x10 ++ relocationBytes 8 0 rX86_64Relative 0x10)).take 350

/-- The file is parsed with the 20 bytes that are left of its dynlib data, and the second
relocation starts behind them. -/
theorem parseRelocations_total_fails_truncated :
    (∃ elf, Elf.parse .dev cutTableImage = .ok elf ∧ elf.dynlibData.length = 20 ∧
      (parseRelocations .dev elf).Panics) ∧
    ∃ elf, Elf.parse .release cutTableImage = .ok elf ∧ elf.dynlibData.length = 20 ∧
      (parseRelocations .release elf).Panics := by
  constructor
  · have facts : (parsed .dev cutTableImage).map (fun elf =>
        (elf.dynlibData.length, parseRelocations .dev elf)) =
        some (20, .panic .sliceRange) := by decide +kernel
    obtain ⟨elf, found, same⟩ := Option.map_eq_some_iff.mp facts
    obtain ⟨size, panicked⟩ := Prod.mk.inj same
    exact ⟨elf, parsed_eq_some found, size, by rw [panicked]; trivial⟩
  · have facts : (parsed .release cutTableImage).map (fun elf =>
        (elf.dynlibData.length, parseRelocations .release elf)) =
        some (20, .panic .sliceRange) := by decide +kernel
    obtain ⟨elf, found, same⟩ := Option.map_eq_some_iff.mp facts
    obtain ⟨size, panicked⟩ := Prod.mk.inj same
    exact ⟨elf, parsed_eq_some found, size, by rw [panicked]; trivial⟩

end Module

end AnotherPs4
