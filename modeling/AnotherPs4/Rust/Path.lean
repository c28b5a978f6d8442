import AnotherPs4.Rust.Utf8

/-!
# Paths

Unix paths as byte strings cut at each `/`, so that `"a//b"` has the segments
`"a"`, `""` and `"b"`, and an absolute path starts with an empty one.
-/

namespace Rust

abbrev PathSegment := List UInt8

structure Path where
  segments : List PathSegment
  deriving DecidableEq, Repr

namespace Path

def ofBytes (bytes : List UInt8) : Path := ⟨bytes.splitOn 0x2F⟩

def new (s : String) : Path := ofBytes s.toUTF8.toList

def empty : Path := ⟨[[]]⟩

def currentDir : PathSegment := [0x2E]

def parentDir : PathSegment := [0x2E, 0x2E]

def isAbsolute (path : Path) : Bool :=
  match path.segments with
  | [] :: _ :: _ => true
  | _ => false

/-- The root or a leading `.`, and the segments after it. -/
def lead (path : Path) : List PathSegment × List PathSegment :=
  match path.segments with
  | [] :: second :: rest => ([[]], second :: rest)
  | first :: rest => if first = currentDir then ([first], rest) else ([], first :: rest)
  | [] => ([], [])

/-- The segment is a component wherever it stands. -/
def isName (segment : PathSegment) : Bool := segment ≠ [] ∧ segment ≠ currentDir

def names (path : Path) : List PathSegment := path.segments.filter isName

/-- The components, with the root as an empty segment. Paths are compared by these. -/
def parts (path : Path) : List PathSegment :=
  match path.segments with
  | [] | [[]] => []
  | first :: rest => first :: rest.filter isName

def trimRight (body : List PathSegment) : List PathSegment :=
  (body.reverse.dropWhile fun segment => segment = [] ∨ segment = currentDir).reverse

def fileName (path : Path) : Option PathSegment :=
  match (trimRight path.lead.2).getLast? with
  | some segment => if segment = parentDir then none else some segment
  | none => none

/-- The path before the last component, if that is not the root. -/
def parent (path : Path) : Option Path :=
  let (front, body) := path.lead
  match trimRight body with
  | [] => if front = [currentDir] then some empty else none
  | body =>
    match trimRight body.dropLast with
    | [] => some ⟨if front = [[]] then [[], []] else if front = [] then [[]] else front⟩
    | rest => some ⟨front ++ rest⟩

def join (path other : Path) : Path :=
  if other.isAbsolute then other
  else if path.segments.getLast? = some [] then ⟨path.segments.dropLast ++ other.segments⟩
  else ⟨path.segments ++ other.segments⟩

/-- Parents of file names, with the cases of the root and of a bare name. -/
example : (new "/app0/eboot.bin").parent = some (new "/app0") ∧
    (new "/eboot.bin").parent = some (new "/") ∧ (new "eboot.bin").parent = some empty ∧
    (new "a//b/.").parent = some (new "a") ∧ (new "a/..").fileName = none ∧
    (new "/").join (new "libc.prx") = new "/libc.prx" ∧
    (empty.join (new "libc.prx")) = new "libc.prx" := by
  decide +kernel

example : (new "/app//patch/./eboot.bin/").parts = (new "/app/patch/eboot.bin").parts ∧
    (new "./a").parts ≠ (new "a").parts ∧ (new "/a").parts ≠ (new "a").parts := by
  decide +kernel

end Path

end Rust
