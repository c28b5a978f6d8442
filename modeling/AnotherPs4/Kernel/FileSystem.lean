import AnotherPs4.Rust.Path
import AnotherPs4.Lexical.Walk

/-!
# File system

Resolution of guest paths through the mount table, by `fopen` and by
`sceKernelOpen`, and the condition under which the host path stays in a mounted
directory. The table is in the order in which the hash map is iterated.
-/

namespace Rust.Path

open Lexical

def component (segment : PathSegment) : Option (Component PathSegment) :=
  if segment = [] ∨ segment = currentDir then none
  else if segment = parentDir then some .parent
  else some (.name segment)

def components (path : Path) : List (Component PathSegment) :=
  path.segments.filterMap component

/-- Where the path leads when `.` and `..` are taken lexically. -/
def normalize (path : Path) : Place PathSegment :=
  (Place.origin path.isAbsolute).walk path.components

theorem components_join (path other : Path) (relative : other.isAbsolute = false) :
    (path.join other).components = path.components ++ other.components := by
  simp only [components, join, relative, Bool.false_eq_true, if_false]
  split
  next trailing =>
    obtain ⟨segments, eq⟩ := List.getLast?_eq_some_iff.mp trailing
    simp [eq, component]
  next => simp

theorem isAbsolute_iff (path : Path) :
    path.isAbsolute = true ↔ ∃ rest, rest ≠ [] ∧ path.segments = [] :: rest := by
  rcases path with ⟨segments⟩
  match segments with
  | [] => simp [isAbsolute]
  | [segment] => cases segment <;> simp [isAbsolute]
  | first :: second :: rest => cases first <;> simp [isAbsolute]

theorem isAbsolute_join (path other : Path) (relative : other.isAbsolute = false)
    (some_segment : other.segments ≠ []) :
    (path.join other).isAbsolute = path.isAbsolute := by
  rcases path with ⟨segments⟩
  have alone : Path.isAbsolute ⟨other.segments⟩ = false := relative
  simp only [join, relative, Bool.false_eq_true, if_false]
  match segments with
  | [] => simpa [isAbsolute] using relative
  | [[]] => simpa [isAbsolute] using relative
  | [byte :: bytes] => simp [isAbsolute]
  | first :: second :: rest =>
    have more : ∀ front : List PathSegment, front ++ other.segments ≠ [] := by simp [some_segment]
    rw [Bool.eq_iff_iff, isAbsolute_iff, isAbsolute_iff]
    split <;> simp [more]

theorem normalize_join (path other : Path) (relative : other.isAbsolute = false)
    (some_segment : other.segments ≠ []) :
    (path.join other).normalize = path.normalize.walk other.components := by
  rw [normalize, isAbsolute_join path other relative some_segment,
    components_join path other relative, Place.walk_append, normalize]

theorem ofBytes_segments_ne_nil (bytes : List UInt8) : (ofBytes bytes).segments ≠ [] :=
  List.splitOnP_ne_nil _ _

theorem ofBytes_relative (bytes : List UInt8) :
    (ofBytes (bytes.dropWhile (· = 0x2F))).isAbsolute = false := by
  rw [Bool.eq_false_iff, Ne, isAbsolute_iff]
  rintro ⟨rest, some_rest, eq⟩
  match cut : bytes.dropWhile (· = 0x2F) with
  | [] => simp_all [ofBytes]
  | byte :: more =>
    have not_slash : byte ≠ 0x2F := by
      have := List.head_dropWhile_not (l := bytes) (· = 0x2F) (by simp [cut])
      simpa [cut] using this
    rw [cut] at eq
    simp only [ofBytes, List.splitOn, List.splitOnP_cons_eq_if_modifyHead, beq_iff_eq, not_slash, if_false] at eq
    cases spl : more.splitOnP (· == 0x2F) <;> simp [spl] at eq

end Rust.Path

namespace Kernel

open Rust Lexical

structure Mount where
  ps4Prefix : String
  hostBase : Path

namespace Mount

def StartsWith (mount : Mount) (ps4Path : String) : Prop :=
  mount.ps4Prefix.toUTF8.toList <+: ps4Path.toUTF8.toList

instance (mount : Mount) (ps4Path : String) : Decidable (mount.StartsWith ps4Path) :=
  inferInstanceAs (Decidable (_ <+: _))

def relative (mount : Mount) (ps4Path : String) : Path :=
  .ofBytes ((ps4Path.toUTF8.toList.drop mount.ps4Prefix.toUTF8.toList.length).dropWhile (· = 0x2F))

end Mount

def resolveIn : List Mount → String → Option Path
  | [], _ => none
  | mount :: mounts, ps4Path =>
    if mount.StartsWith ps4Path then some (mount.hostBase.join (mount.relative ps4Path))
    else resolveIn mounts ps4Path

/-- `fsMounts` is `FS_MOUNTS`. -/
def resolvePs4Path (fsMounts : Option (List Mount)) (ps4Path : String) : Option Path :=
  match fsMounts with
  | some mounts => resolveIn mounts ps4Path
  | none => none

structure FileSystem where
  mounts : List Mount

def FileSystem.resolvePath (fs : FileSystem) (ps4Path : String) : Option Path :=
  resolveIn fs.mounts ps4Path

namespace Mount

def route (mount : Mount) (ps4Path : String) : Route PathSegment :=
  .ofComponents (mount.relative ps4Path).components

theorem normalize_resolved (mount : Mount) (ps4Path : String) :
    (mount.hostBase.join (mount.relative ps4Path)).normalize =
      mount.hostBase.normalize.walk (mount.relative ps4Path).components :=
  Path.normalize_join _ _ (Path.ofBytes_relative _) (Path.ofBytes_segments_ne_nil _)

end Mount

/-- The host path is the directory of a mount whose prefix the guest path has,
or lies below it. -/
def Confined (mounts : List Mount) (ps4Path : String) (hostPath : Path) : Prop :=
  ∃ mount ∈ mounts, mount.StartsWith ps4Path ∧ hostPath.normalize.Below mount.hostBase.normalize

/-- The levels that the guest path climbs above the directory of the mount it is
resolved in stay under the directory of a mount with its prefix, or its names
lead back to one. -/
def StaysBelow (mounts : List Mount) (ps4Path : String) : Prop :=
  ∀ first, mounts.find? (fun mount => mount.StartsWith ps4Path) = some first →
    ∃ mount ∈ mounts, mount.StartsWith ps4Path ∧
      ((first.hostBase.normalize.climb (first.route ps4Path).levels).Below
          mount.hostBase.normalize ∨
        ∃ back, mount.hostBase.normalize =
            (first.hostBase.normalize.climb (first.route ps4Path).levels).descend back ∧
          back <+: (first.route ps4Path).names)

section Resolution

variable {mounts : List Mount} {ps4Path : String} {hostPath : Path}

theorem resolveIn_eq (mounts : List Mount) (ps4Path : String) :
    resolveIn mounts ps4Path =
      (mounts.find? fun mount => mount.StartsWith ps4Path).map fun mount =>
        mount.hostBase.join (mount.relative ps4Path) := by
  induction mounts with
  | nil => rfl
  | cons mount mounts inductionHypothesis =>
    by_cases starts : mount.StartsWith ps4Path
    · simp [resolveIn, starts]
    · simp [resolveIn, starts, inductionHypothesis]

/-- A path whose `..` components each have a name before them stays. -/
theorem staysBelow_of_levels_eq_zero
    (level : ∀ mount ∈ mounts, mount.StartsWith ps4Path → (mount.route ps4Path).levels = 0) :
    StaysBelow mounts ps4Path := by
  intro first found
  have member : first ∈ mounts := List.mem_of_find?_eq_some found
  have starts : first.StartsWith ps4Path := by simpa using List.find?_some found
  refine ⟨first, member, starts, .inl ?_⟩
  rw [level first member starts, Place.climb_zero]
  exact .refl _

theorem resolveIn_confined_iff (mounts : List Mount) (ps4Path : String) :
    (∀ hostPath, resolveIn mounts ps4Path = some hostPath → Confined mounts ps4Path hostPath) ↔
      StaysBelow mounts ps4Path := by
  have resolved (first : Mount) :
      Confined mounts ps4Path (first.hostBase.join (first.relative ps4Path)) ↔
        ∃ mount ∈ mounts, mount.StartsWith ps4Path ∧
          (first.hostBase.normalize.walk (first.relative ps4Path).components).Below
            mount.hostBase.normalize := by
    simp only [Confined, first.normalize_resolved]
  simp only [resolveIn_eq, Option.map_eq_some_iff, forall_exists_index, and_imp,
    forall_apply_eq_imp_iff₂, resolved, Place.walk_below_iff, StaysBelow, Mount.route]

end Resolution

/-- Both resolutions stay in a mounted directory exactly for the paths that stay
below in their table. -/
theorem resolvePath_confined_iff (fsMounts : Option (List Mount)) (fs : FileSystem)
    (ps4Path : String) :
    ((∀ hostPath, resolvePs4Path fsMounts ps4Path = some hostPath →
        Confined (fsMounts.getD []) ps4Path hostPath) ↔
      StaysBelow (fsMounts.getD []) ps4Path) ∧
    ((∀ hostPath, fs.resolvePath ps4Path = some hostPath →
        Confined fs.mounts ps4Path hostPath) ↔
      StaysBelow fs.mounts ps4Path) := by
  refine ⟨?_, resolveIn_confined_iff fs.mounts ps4Path⟩
  cases fsMounts with
  | none => simp [resolvePs4Path, StaysBelow]
  | some mounts => exact resolveIn_confined_iff mounts ps4Path

/-- Two levels above the game directory is the root of the host. -/
theorem resolvePath_escapes :
    ∃ mounts : List Mount, ∃ ps4Path : String, ∃ hostPath : Path,
      resolvePs4Path (some mounts) ps4Path = some hostPath ∧
        (FileSystem.mk mounts).resolvePath ps4Path = some hostPath ∧
        hostPath.normalize = (Path.new "/etc/passwd").normalize ∧
        ¬ Confined mounts ps4Path hostPath := by
  refine ⟨[⟨"/app0/", Path.new "/games/app"⟩], "/app0/../../etc/passwd",
    Path.new "/games/app/../../etc/passwd", ?_, ?_, ?_, ?_⟩
  · decide +kernel
  · decide +kernel
  · decide +kernel
  · have outside : ¬ (Path.new "/games/app/../../etc/passwd").normalize.Below
        (Path.new "/games/app").normalize := by
      decide +kernel
    rintro ⟨mount, member, -, below⟩
    obtain rfl := List.mem_singleton.mp member
    exact outside below

end Kernel
