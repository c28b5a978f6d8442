import AnotherPs4.Kernel.FileSystem

/-!
# Mount tables and hash order

The mount tables are hash maps, so a resolution meets the mounts in any order.
It takes the first one whose prefix the path has, and that is one answer for all
orders exactly when the nested mounts lie in the host's directories as their
prefixes do in the guest's.
-/

namespace List

variable {α β : Type} {p : α → Bool} {f : α → β} {l : List α}

/-- What the first match maps to is the same in every order when all matches
map to it. -/
theorem find?_map_perm_iff {a : α} (present : ∃ b ∈ l, p b) :
    (∀ l' : List α, l'.Perm l → (l'.find? p).map f = some (f a)) ↔
      ∀ b ∈ l, p b → f b = f a := by
  constructor
  · intro same b member matched
    obtain ⟨before, after, rfl⟩ := List.append_of_mem member
    have first := same (b :: (before ++ after)) List.perm_middle.symm
    rw [List.find?_cons_of_pos matched] at first
    exact Option.some.inj first
  · intro same l' perm
    obtain ⟨b, member, matched⟩ := present
    cases found : l'.find? p with
    | none => exact absurd matched (List.find?_eq_none.mp found b (perm.mem_iff.mpr member))
    | some b' =>
      have member' : b' ∈ l := perm.mem_iff.mp (List.mem_of_find?_eq_some found)
      rw [Option.map_some, same b' member' (List.find?_some found)]

theorem find?_perm_eq_none_iff {l' : List α} (perm : l'.Perm l) :
    l'.find? p = none ↔ ∀ b ∈ l, ¬ p b := by
  rw [List.find?_eq_none]
  exact ⟨fun absent b member => absent b (perm.mem_iff.mpr member),
    fun absent b member => absent b (perm.mem_iff.mp member)⟩

end List

namespace Rust.Path

/-- The segments in front of those of a relative path joined to this one. -/
def directory (path : Path) : List PathSegment :=
  if path.segments.getLast? = some [] then path.segments.dropLast else path.segments

theorem join_relative (path other : Path) (relative : other.isAbsolute = false) :
    path.join other = ⟨path.directory ++ other.segments⟩ := by
  by_cases trailing : path.segments.getLast? = some [] <;>
    simp [join, directory, relative, trailing]

theorem parts_cons {first : PathSegment} {rest : List PathSegment} (some_part : first ≠ [] ∨ rest ≠ []) :
    parts ⟨first :: rest⟩ = first :: rest.filter isName := by
  unfold parts
  split
  · next none => cases none
  · next bare =>
    obtain ⟨rfl, rfl⟩ := List.cons.inj bare
    simp at some_part
  · next whole =>
    obtain ⟨rfl, rfl⟩ := List.cons.inj whole
    rfl

theorem parts_directory {path : Path} (directory : path.directory ≠ [])
    {segments : List PathSegment} (some_segment : segments ≠ []) :
    parts ⟨path.directory ++ segments⟩ = path.parts ++ segments.filter isName := by
  obtain ⟨whole⟩ := path
  obtain ⟨first, rest, front⟩ := List.exists_cons_of_ne_nil directory
  have parts_whole : parts ⟨whole⟩ = first :: rest.filter isName := by
    unfold Path.directory at front
    dsimp only at front
    split at front
    · next trailing =>
      obtain ⟨init, rfl⟩ := List.getLast?_eq_some_iff.mp trailing
      rw [List.dropLast_concat] at front
      rw [front, List.cons_append, parts_cons (.inr (by simp)), List.filter_append]
      simp [isName]
    · next bare =>
      subst front
      apply parts_cons
      by_contra empty
      rw [not_or, not_not, not_not] at empty
      obtain ⟨rfl, rfl⟩ := empty
      exact bare rfl
  rw [front, parts_whole, List.cons_append, List.cons_append, parts_cons (.inr (by simp [some_segment])),
    List.filter_append]

theorem parts_relative {path : Path} (relative : path.isAbsolute = false) :
    path.parts = path.lead.1 ++ path.names := by
  obtain ⟨segments⟩ := path
  match segments with
  | [] => rfl
  | [[]] => rfl
  | [] :: _ :: _ => cases relative
  | (byte :: bytes) :: rest =>
    rw [parts_cons (.inl (List.cons_ne_nil _ _))]
    unfold lead names
    by_cases current : byte :: bytes = currentDir
    · simp [current, isName]
    · simp [current, isName]

theorem length_names_le {bytes more : List UInt8} (suffix : bytes <:+ more) :
    (ofBytes bytes).names.length ≤ (ofBytes more).names.length := by
  obtain ⟨front, rfl⟩ := suffix
  induction front with
  | nil => rfl
  | cons byte front inductionHypothesis =>
    apply inductionHypothesis.trans
    obtain ⟨first, rest, whole⟩ :=
      List.exists_cons_of_ne_nil (ofBytes_segments_ne_nil (front ++ bytes))
    simp only [ofBytes, List.splitOn] at whole
    simp only [ofBytes, names, List.splitOn, List.cons_append,
      List.splitOnP_cons_eq_if_modifyHead, whole]
    split
    · exact le_of_eq (by simp [isName])
    · have grows : isName first = true → isName (byte :: first) = true := by
        unfold isName currentDir
        simp only [decide_eq_true_eq, List.cons.injEq, ne_eq]
        rintro ⟨named, -⟩
        exact ⟨List.cons_ne_nil _ _, fun both => named both.2⟩
      rw [List.modifyHead_cons, List.filter_cons, List.filter_cons]
      split
      · next named => rw [if_pos (grows named), List.length_cons, List.length_cons]
      · split
        · exact Nat.le_succ _
        · exact le_rfl

end Rust.Path

namespace Kernel

open Rust

/-! ### The tables -/

namespace FileSystem

def new : FileSystem where
  mounts := []

def mount (fs : FileSystem) (ps4Path : String) (hostPath : Path) : FileSystem where
  mounts := fs.mounts.filter (fun mount => mount.ps4Prefix ≠ ps4Path) ++ [⟨ps4Path, hostPath⟩]

end FileSystem

def mountFilesystem (fsMounts : Option (List Mount)) (ps4Prefix : String) (hostPath : Path) :
    Option (List Mount) :=
  match fsMounts with
  | some mounts => some (((FileSystem.mk mounts).mount ps4Prefix hostPath).mounts)
  | none => none

/-! ### The longest prefix -/

namespace Mount

def prefixLength (mount : Mount) : Nat := mount.ps4Prefix.toUTF8.toList.length

def IsLongest (mounts : List Mount) (ps4Path : String) (longest : Mount) : Prop :=
  longest ∈ mounts ∧ longest.StartsWith ps4Path ∧
    ∀ mount ∈ mounts, mount.StartsWith ps4Path → mount.prefixLength ≤ longest.prefixLength

def hostPath (mount : Mount) (ps4Path : String) : Path :=
  mount.hostBase.join (mount.relative ps4Path)

/-- What is in front of the names of the path: the host directory. An empty one
leaves a leading `.` of the path. -/
def front (mount : Mount) (ps4Path : String) : List PathSegment :=
  if mount.hostBase.directory = [] then (mount.relative ps4Path).lead.1 else mount.hostBase.parts

/-- The host directory of `longest` is the one of `mount`, followed by what the
path names between the two prefixes. -/
def Contains (mount longest : Mount) (ps4Path : String) : Prop :=
  ∃ names, longest.front ps4Path = mount.front ps4Path ++ names ∧
    (mount.relative ps4Path).names = names ++ (longest.relative ps4Path).names

variable {mount longest : Mount} {mounts : List Mount} {ps4Path : String}

theorem parts_hostPath (mount : Mount) (ps4Path : String) :
    (mount.hostPath ps4Path).parts =
      mount.front ps4Path ++ (mount.relative ps4Path).names := by
  have relative : (mount.relative ps4Path).isAbsolute = false := Path.ofBytes_relative _
  unfold hostPath front
  rw [Path.join_relative _ _ relative]
  split
  · next bare =>
    rw [bare]
    exact Path.parts_relative relative
  · next directory => exact Path.parts_directory directory (Path.ofBytes_segments_ne_nil _)

theorem length_relative_le (shorter : mount.prefixLength ≤ longest.prefixLength) :
    (longest.relative ps4Path).names.length ≤ (mount.relative ps4Path).names.length := by
  apply Path.length_names_le
  obtain ⟨more, lengths⟩ := Nat.exists_eq_add_of_le shorter
  unfold prefixLength at lengths
  rw [lengths, ← List.drop_drop]
  generalize ps4Path.toUTF8.toList.drop mount.ps4Prefix.toUTF8.toList.length = rest
  conv_rhs => rw [← List.take_append_drop more rest]
  rw [List.dropWhile_append]
  split
  · exact List.suffix_refl _
  · exact (List.dropWhile_suffix _).trans (List.suffix_append ..)

theorem hostPath_eq_iff (shorter : mount.prefixLength ≤ longest.prefixLength) :
    (mount.hostPath ps4Path).parts = (longest.hostPath ps4Path).parts ↔
      mount.Contains longest ps4Path := by
  rw [parts_hostPath, parts_hostPath, List.append_eq_append_iff]
  unfold Contains
  constructor
  · rintro (⟨names, host, rest⟩ | ⟨names, host, rest⟩)
    · exact ⟨names, host, rest⟩
    · have fewer : (longest.relative ps4Path).names.length ≤
          (mount.relative ps4Path).names.length := length_relative_le shorter
      rw [rest, List.length_append] at fewer
      obtain rfl : names = [] := List.eq_nil_of_length_eq_zero (by omega)
      exact ⟨[], by simpa using host.symm, by simpa using rest.symm⟩
  · rintro ⟨names, host, rest⟩
    exact .inl ⟨names, host, rest⟩

/-- The mounts agree on a path that has more slashes than it needs. -/
example : (hostPath ⟨"/app0/", .new "/games/app"⟩ "/app0/patch//eboot.bin").parts =
    (hostPath ⟨"/app0/patch/", .new "/games/app/patch"⟩ "/app0/patch//eboot.bin").parts := by
  decide +kernel

theorem exists_isLongest (present : ∃ mount ∈ mounts, mount.StartsWith ps4Path) :
    ∃ longest, IsLongest mounts ps4Path longest := by
  classical
  let matching := (mounts.filter fun mount => mount.StartsWith ps4Path).toFinset
  have mem_matching : ∀ mount, mount ∈ matching ↔ mount ∈ mounts ∧ mount.StartsWith ps4Path := by
    simp [matching]
  obtain ⟨mount, member, starts⟩ := present
  obtain ⟨longest, chosen, greatest⟩ := Finset.exists_max_image matching prefixLength
    ⟨mount, (mem_matching mount).mpr ⟨member, starts⟩⟩
  obtain ⟨listed, applies⟩ := (mem_matching longest).mp chosen
  exact ⟨longest, listed, applies, fun other listed' starts' =>
    greatest other ((mem_matching other).mpr ⟨listed', starts'⟩)⟩

end Mount

/-! ### Resolution in every order -/

/-- The answer is the same path in every order of the table: the one of the
longest mounted prefix, and none when no prefix matches. -/
def OrderFree (resolve : List Mount → Option Path) (mounts : List Mount) (ps4Path : String) :
    Prop :=
  ∀ order, order.Perm mounts →
    (∀ longest, Mount.IsLongest mounts ps4Path longest →
      (resolve order).map Path.parts = some (longest.hostPath ps4Path).parts) ∧
    (resolve order = none ↔ ∀ mount ∈ mounts, ¬ mount.StartsWith ps4Path)

theorem OrderFree.eq_of_perm {resolve : List Mount → Option Path} {mounts : List Mount}
    {ps4Path : String} (free : OrderFree resolve mounts ps4Path) {order order' : List Mount}
    (perm : order.Perm mounts) (perm' : order'.Perm mounts) :
    (resolve order).map Path.parts = (resolve order').map Path.parts := by
  by_cases present : ∃ mount ∈ mounts, mount.StartsWith ps4Path
  · obtain ⟨longest, chosen⟩ := Mount.exists_isLongest present
    rw [(free order perm).1 longest chosen, (free order' perm').1 longest chosen]
  · have absent : ∀ mount ∈ mounts, ¬ mount.StartsWith ps4Path :=
      fun mount member starts => present ⟨mount, member, starts⟩
    rw [(free order perm).2.mpr absent, (free order' perm').2.mpr absent]

/-- Every mounted prefix of the path contains the longest one on the host, too. -/
def Nested (mounts : List Mount) (ps4Path : String) : Prop :=
  ∀ mount ∈ mounts, mount.StartsWith ps4Path →
    ∀ longest, Mount.IsLongest mounts ps4Path longest → mount.Contains longest ps4Path

theorem resolveIn_orderFree_iff (mounts : List Mount) (ps4Path : String) :
    OrderFree (resolveIn · ps4Path) mounts ps4Path ↔ Nested mounts ps4Path := by
  have absent : ∀ order : List Mount, order.Perm mounts →
      (resolveIn order ps4Path = none ↔ ∀ mount ∈ mounts, ¬ mount.StartsWith ps4Path) := by
    intro order perm
    rw [resolveIn_eq, Option.map_eq_none_iff, List.find?_perm_eq_none_iff perm]
    simp
  have one_answer : ∀ longest, Mount.IsLongest mounts ps4Path longest →
      ((∀ order : List Mount, order.Perm mounts →
          (resolveIn order ps4Path).map Path.parts = some (longest.hostPath ps4Path).parts) ↔
        ∀ mount ∈ mounts, mount.StartsWith ps4Path → mount.Contains longest ps4Path) := by
    intro longest chosen
    have answers := List.find?_map_perm_iff (p := fun mount => decide (mount.StartsWith ps4Path))
      (f := fun mount => (mount.hostPath ps4Path).parts) (l := mounts) (a := longest)
      ⟨longest, chosen.1, by simpa using chosen.2.1⟩
    simp only [decide_eq_true_eq] at answers
    simp only [resolveIn_eq, Option.map_map]
    refine answers.trans (forall₃_congr fun mount member starts => ?_)
    exact Mount.hostPath_eq_iff (chosen.2.2 mount member starts)
  constructor
  · intro free mount member starts longest chosen
    exact (one_answer longest chosen).mp (fun order perm => (free order perm).1 longest chosen)
      mount member starts
  · intro nested order perm
    refine ⟨fun longest chosen => ?_, absent order perm⟩
    exact (one_answer longest chosen).mpr
      (fun mount member starts => nested mount member starts longest chosen) order perm

/-- Both resolutions are free of the hash order exactly for the paths whose
mounted prefixes are nested on the host, too. -/
theorem resolvePath_orderFree_iff (fsMounts : Option (List Mount)) (fs : FileSystem)
    (ps4Path : String) :
    (OrderFree (fun order => resolvePs4Path (fsMounts.map fun _ => order) ps4Path)
        (fsMounts.getD []) ps4Path ↔
      Nested (fsMounts.getD []) ps4Path) ∧
    (OrderFree (fun order => (FileSystem.mk order).resolvePath ps4Path) fs.mounts ps4Path ↔
      Nested fs.mounts ps4Path) := by
  refine ⟨?_, resolveIn_orderFree_iff fs.mounts ps4Path⟩
  cases fsMounts with
  | none => simp [OrderFree, Nested, resolvePs4Path, Mount.IsLongest]
  | some mounts => exact resolveIn_orderFree_iff mounts ps4Path

/-- With a patch directory mounted inside the game's, the order decides which of
the two a file is read from. -/
theorem resolvePath_depends_on_order :
    ∃ game patched : Mount, ∃ ps4Path : String,
      ((FileSystem.new.mount game.ps4Prefix game.hostBase).mount patched.ps4Prefix
        patched.hostBase).mounts = [game, patched] ∧
      (mountFilesystem (mountFilesystem (some []) game.ps4Prefix game.hostBase)
        patched.ps4Prefix patched.hostBase) = some [game, patched] ∧
      resolvePs4Path (some [game, patched]) ps4Path =
        some (Path.new "/games/app/patch/eboot.bin") ∧
      resolvePs4Path (some [patched, game]) ps4Path = some (Path.new "/games/patch/eboot.bin") ∧
      ¬ OrderFree (fun order => (FileSystem.mk order).resolvePath ps4Path) [game, patched]
        ps4Path ∧
      ¬ OrderFree (fun order => resolvePs4Path (some order) ps4Path) [game, patched] ps4Path := by
  have first : resolveIn [⟨"/app0/", Path.new "/games/app"⟩,
        ⟨"/app0/patch/", Path.new "/games/patch"⟩] "/app0/patch/eboot.bin" =
      some (Path.new "/games/app/patch/eboot.bin") := by decide +kernel
  have second : resolveIn [⟨"/app0/patch/", Path.new "/games/patch"⟩,
        ⟨"/app0/", Path.new "/games/app"⟩] "/app0/patch/eboot.bin" =
      some (Path.new "/games/patch/eboot.bin") := by decide +kernel
  have different : (Path.new "/games/app/patch/eboot.bin").parts ≠
      (Path.new "/games/patch/eboot.bin").parts := by decide +kernel
  have dependent : ¬ OrderFree (resolveIn · "/app0/patch/eboot.bin")
      [⟨"/app0/", Path.new "/games/app"⟩, ⟨"/app0/patch/", Path.new "/games/patch"⟩]
      "/app0/patch/eboot.bin" := by
    intro free
    have same := free.eq_of_perm (.refl _) (.swap _ _ _)
    simp only [first, second] at same
    exact different (Option.some.inj same)
  refine ⟨⟨"/app0/", Path.new "/games/app"⟩, ⟨"/app0/patch/", Path.new "/games/patch"⟩,
    "/app0/patch/eboot.bin", ?_, ?_, first, second, dependent, dependent⟩ <;>
    simp [FileSystem.mount, FileSystem.new, mountFilesystem]

end Kernel
