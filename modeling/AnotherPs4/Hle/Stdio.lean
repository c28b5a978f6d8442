import AnotherPs4.Kernel.FileSystem
import AnotherPs4.Rust.Outcome
import AnotherPs4.Rust.Word
import AnotherPs4.Transition.Trace

/-!
# C streams

`fopen` hands out invented `FILE*` values, and the other calls find the host
file under them in one table. Each call changes the entry of its own handle
only, so the calls on a handle are a run of a stream of its own.
-/

namespace AnotherPs4

open Rust Kernel Transition

inductive SeekFrom where
  | start (offset : Nat)
  | current (offset : Int)
  | end_ (offset : Int)
  deriving DecidableEq, Repr

/-- What the host does on an open file, with the file afterwards. `none` is an
error. -/
structure FileOps (File : Type) where
  read : File → (len : Nat) → Option (List UInt8) × File
  seek : File → SeekFrom → Option Nat × File
  streamPosition : File → Option Nat × File

structure HostFiles (File : Type) where
  exists_ : Path → Bool
  open_ : Path → Option File

structure OpenCFile (File : Type) where
  file : File
  path : String

/-- `NEXT_FILE_PTR` and `OPEN_CFILES`. -/
structure Stdio (File : Type) where
  nextFilePtr : Nat
  openCFiles : Option (Nat → Option (OpenCFile File))

/-- What the guest sees of a call: its result, and the bytes in its buffer. -/
structure Reply where
  value : Nat
  written : List UInt8
  deriving DecidableEq, Repr

/-- `-1i64 as u64`. -/
def eof : Nat := 0xFFFF_FFFF_FFFF_FFFF

inductive CFileCall where
  | fread (buf size count : Nat)
  | fclose
  | fseek (offset whence : Nat)
  | ftell
  deriving DecidableEq, Repr

section Calls

variable {File : Type}

def Stdio.initial : Stdio File := ⟨0xBEEF_0000_0000, some fun _ => none⟩

def Stdio.stream (stdio : Stdio File) (filePtr : Nat) : Option File :=
  (stdio.openCFiles.bind fun map => map filePtr).map OpenCFile.file

/-- The host file that `fopen` opens, if the path is mounted and the file is there. -/
def fopenFile (host : HostFiles File) (fsMounts : Option (List Mount)) (filename : String) :
    Option File :=
  match resolvePs4Path fsMounts filename with
  | some hostPath => if host.exists_ hostPath then host.open_ hostPath else none
  | none => none

/-- `filename` is `none` where the guest passes a null pointer. -/
def fopen (host : HostFiles File) (fsMounts : Option (List Mount)) (stdio : Stdio File)
    (filename : Option String) : Nat × Stdio File :=
  match filename with
  | none => (0, stdio)
  | some filename =>
    match fopenFile host fsMounts filename with
    | some file =>
      let fakePtr := stdio.nextFilePtr
      (fakePtr,
        { nextFilePtr := (stdio.nextFilePtr + 0x100) % 2 ^ 64
          openCFiles := stdio.openCFiles.map fun map =>
            Function.update map fakePtr (some ⟨file, filename⟩) })
    | none => (0, stdio)

/-- The lookup under the lock: what a call does with the file of a valid
`FILE*`, and its reply for another one. -/
def withFile (stdio : Stdio File) (filePtr : Nat) (onFile : File → Reply × File)
    (invalid : Reply) : Reply × Stdio File :=
  match stdio.openCFiles with
  | some map =>
    match map filePtr with
    | some openFile =>
      let (reply, file) := onFile openFile.file
      (reply, { stdio with
        openCFiles := some (Function.update map filePtr (some { openFile with file })) })
    | none => (invalid, stdio)
  | none => (invalid, stdio)

def freadFile (ops : FileOps File) (size total : Nat) (file : File) : Reply × File :=
  match ops.read file total with
  | (some bytes, file) => (⟨bytes.length / size, bytes⟩, file)
  | (none, file) => (⟨0, []⟩, file)

/-- `from_raw_parts_mut`, once the file is found. -/
def checkSlice (p : Profile) (stream : Option File) (total : Nat) : Outcome Empty Unit :=
  p.debugCheck .sliceTooLong (stream.isNone || total < 2 ^ 63)

def fread (p : Profile) (ops : FileOps File) (stdio : Stdio File) (buf size count filePtr : Nat) :
    Outcome Empty (Reply × Stdio File) := do
  let total ← p.mul 64 size count
  if buf = 0 ∨ total = 0 then return (⟨0, []⟩, stdio)
  checkSlice p (stdio.stream filePtr) total
  return withFile stdio filePtr (freadFile ops size total) ⟨0, []⟩

def fclose (stdio : Stdio File) (filePtr : Nat) : Reply × Stdio File :=
  match stdio.openCFiles with
  | some map =>
    match map filePtr with
    | some _ => (⟨0, []⟩, { stdio with openCFiles := some (Function.update map filePtr none) })
    | none => (⟨eof, []⟩, stdio)
  | none => (⟨eof, []⟩, stdio)

/-- `whence` is the low half of its register. -/
def seekFrom (offset whence : Nat) : Option SeekFrom :=
  let offset := signed 64 offset
  match whence % 2 ^ 32 with
  | 0 => some (.start (unsigned 64 offset))
  | 1 => some (.current offset)
  | 2 => some (.end_ offset)
  | _ => none

def fseekFile (ops : FileOps File) (seekFrom : SeekFrom) (file : File) : Reply × File :=
  match ops.seek file seekFrom with
  | (some _, file) => (⟨0, []⟩, file)
  | (none, file) => (⟨eof, []⟩, file)

def fseek (ops : FileOps File) (stdio : Stdio File) (filePtr offset whence : Nat) :
    Reply × Stdio File :=
  match seekFrom offset whence with
  | some seekFrom => withFile stdio filePtr (fseekFile ops seekFrom) ⟨eof, []⟩
  | none => (⟨eof, []⟩, stdio)

def ftellFile (ops : FileOps File) (file : File) : Reply × File :=
  match ops.streamPosition file with
  | (some pos, file) => (⟨pos, []⟩, file)
  | (none, file) => (⟨eof, []⟩, file)

def ftell (ops : FileOps File) (stdio : Stdio File) (filePtr : Nat) : Reply × Stdio File :=
  withFile stdio filePtr (ftellFile ops) ⟨eof, []⟩

namespace CFileCall

def run (p : Profile) (ops : FileOps File) (stdio : Stdio File) (filePtr : Nat) :
    CFileCall → Outcome Empty (Reply × Stdio File)
  | fread buf size count => AnotherPs4.fread p ops stdio buf size count filePtr
  | fclose => .ok (AnotherPs4.fclose stdio filePtr)
  | fseek offset whence => .ok (AnotherPs4.fseek ops stdio filePtr offset whence)
  | ftell => .ok (AnotherPs4.ftell ops stdio filePtr)

def failure : CFileCall → Reply
  | fread _ _ _ => ⟨0, []⟩
  | fclose => ⟨eof, []⟩
  | fseek _ _ => ⟨eof, []⟩
  | ftell => ⟨eof, []⟩

end CFileCall

/-- What `onFile` does with the file of a stream that nobody else has, where it
is open. -/
def onStream (onFile : File → Reply × File) (closed : Reply) : Option File → Reply × Option File
  | some file => ((onFile file).1, some (onFile file).2)
  | none => (closed, none)

def freadAlone (p : Profile) (ops : FileOps File) (stream : Option File) (buf size count : Nat) :
    Outcome Empty (Reply × Option File) := do
  let total ← p.mul 64 size count
  if buf = 0 ∨ total = 0 then return (⟨0, []⟩, stream)
  checkSlice p stream total
  return onStream (freadFile ops size total) ⟨0, []⟩ stream

def fcloseAlone : Option File → Reply × Option File
  | some _ => (⟨0, []⟩, none)
  | none => (⟨eof, []⟩, none)

def fseekAlone (ops : FileOps File) (stream : Option File) (offset whence : Nat) :
    Reply × Option File :=
  match seekFrom offset whence with
  | some seekFrom => onStream (fseekFile ops seekFrom) ⟨eof, []⟩ stream
  | none => (⟨eof, []⟩, stream)

/-- The call on a stream that nobody else has, `none` when it is closed. -/
def CFileCall.runAlone (p : Profile) (ops : FileOps File) (stream : Option File) :
    CFileCall → Outcome Empty (Reply × Option File)
  | fread buf size count => freadAlone p ops stream buf size count
  | fclose => .ok (fcloseAlone stream)
  | fseek offset whence => .ok (fseekAlone ops stream offset whence)
  | ftell => .ok (onStream (ftellFile ops) ⟨eof, []⟩ stream)

end Calls

inductive StdioEvent (Thread File : Type) where
  | fopen (thread : Thread) (filename : Option String) (file : Option File) (result : Nat)
  | call (thread : Thread) (filePtr : Nat) (call : CFileCall) (reply : Reply)

/-- One call of a thread. What is mounted and what the host has is up to the
environment at each `fopen`. -/
inductive StdioStep {Thread File : Type} (p : Profile) (ops : FileOps File) :
    Stdio File → StdioEvent Thread File → Stdio File → Prop where
  | fopen {stdio thread filename result next} (host : HostFiles File)
      (fsMounts : Option (List Mount)) :
      AnotherPs4.fopen host fsMounts stdio filename = (result, next) →
      StdioStep p ops stdio
        (.fopen thread filename (filename.bind (fopenFile host fsMounts)) result) next
  | call {stdio thread filePtr call reply next} :
      call.run p ops stdio filePtr = .ok (reply, next) →
      StdioStep p ops stdio (.call thread filePtr call reply) next

def AloneStep {File : Type} (p : Profile) (ops : FileOps File) (stream : Option File)
    (own : CFileCall × Reply) (next : Option File) : Prop :=
  own.1.runAlone p ops stream = .ok (own.2, next)

section Events

variable {Thread File : Type}

def StdioEvent.opens : StdioEvent Thread File → Option (Nat × File)
  | .fopen _ _ (some file) result => some (result, file)
  | _ => none

def StdioEvent.callOn (filePtr : Nat) : StdioEvent Thread File → Option (CFileCall × Reply)
  | .call _ other own reply => if other = filePtr then some (own, reply) else none
  | .fopen _ _ _ _ => none

def opened (events : List (StdioEvent Thread File)) : List (Nat × File) :=
  events.filterMap StdioEvent.opens

def callsOn (filePtr : Nat) (events : List (StdioEvent Thread File)) : List (CFileCall × Reply) :=
  events.filterMap (StdioEvent.callOn filePtr)

/-- Handles are streams of their own: `fopen` succeeds with new ones, the calls
on one run as on a stream that nobody else has, and a closed one stays closed. -/
structure IndependentStreams (p : Profile) (ops : FileOps File)
    (events : List (StdioEvent Thread File)) (stdio : Stdio File) : Prop where
  success : ∀ thread filename file result, .fopen thread filename file result ∈ events →
    (result ≠ 0 ↔ file.isSome)
  fresh : ((opened events).map Prod.fst).Nodup
  alone : ∀ earlier thread filename file filePtr later,
    events = earlier ++ .fopen thread filename (some file) filePtr :: later →
      ∃ stream, Trace (AloneStep p ops) (some file) (callsOn filePtr later) stream
  closed : ∀ thread filePtr reply, .call thread filePtr .fclose reply ∈ events →
    reply.value = 0 → ∀ thread' call reply' next,
      StdioStep p ops stdio (.call (thread' : Thread) filePtr call reply') next →
        reply' = call.failure ∧ next = stdio

end Events

namespace Stdio

variable {File : Type}

/-- A call on a handle leaves all other handles alone, and everything if the
handle has no file. -/
structure Keeps (stdio : Stdio File) (filePtr : Nat) (next : Stdio File) : Prop where
  nextFilePtr : next.nextFilePtr = stdio.nextFilePtr
  table : next.openCFiles.isSome = stdio.openCFiles.isSome
  others : ∀ other, other ≠ filePtr → next.stream other = stdio.stream other
  invalid : stdio.stream filePtr = none → next = stdio

theorem Keeps.refl (stdio : Stdio File) (filePtr : Nat) : stdio.Keeps filePtr stdio :=
  ⟨rfl, rfl, fun _ _ => rfl, fun _ => rfl⟩

theorem keeps_update {stdio : Stdio File} {map : Nat → Option (OpenCFile File)} {filePtr : Nat}
    {openFile : OpenCFile File} (table : stdio.openCFiles = some map)
    (entry : map filePtr = some openFile) (new : Option (OpenCFile File)) :
    stdio.Keeps filePtr { stdio with openCFiles := some (Function.update map filePtr new) } where
  nextFilePtr := rfl
  table := by simp [table]
  others other different := by simp [stream, table, different]
  invalid none := by simp [stream, table, entry] at none

end Stdio

section Spec

variable {File : Type} {p : Profile} {ops : FileOps File} {stdio next : Stdio File}
  {filePtr : Nat} {reply : Reply}

theorem withFile_spec (onFile : File → Reply × File) (closed : Reply)
    (looked : withFile stdio filePtr onFile closed = (reply, next)) :
    onStream onFile closed (stdio.stream filePtr) = (reply, next.stream filePtr) ∧
      stdio.Keeps filePtr next := by
  unfold withFile at looked
  split at looked
  next map table =>
    split at looked
    next openFile entry =>
      cases looked
      exact ⟨by simp [onStream, Stdio.stream, table, entry], Stdio.keeps_update table entry _⟩
    next missing =>
      cases looked
      exact ⟨by simp [onStream, Stdio.stream, table, missing], .refl _ _⟩
  next table =>
    cases looked
    exact ⟨by simp [onStream, Stdio.stream, table], .refl _ _⟩

theorem fclose_spec (closed : fclose stdio filePtr = (reply, next)) :
    fcloseAlone (stdio.stream filePtr) = (reply, next.stream filePtr) ∧
      stdio.Keeps filePtr next := by
  unfold fclose at closed
  split at closed
  next map table =>
    split at closed
    next openFile entry =>
      cases closed
      exact ⟨by simp [fcloseAlone, Stdio.stream, table, entry], Stdio.keeps_update table entry _⟩
    next missing =>
      cases closed
      exact ⟨by simp [fcloseAlone, Stdio.stream, table, missing], .refl _ _⟩
  next table =>
    cases closed
    exact ⟨by simp [fcloseAlone, Stdio.stream, table], .refl _ _⟩

theorem fread_spec {buf size count : Nat}
    (returned : fread p ops stdio buf size count filePtr = .ok (reply, next)) :
    freadAlone p ops (stdio.stream filePtr) buf size count =
        .ok (reply, next.stream filePtr) ∧
      stdio.Keeps filePtr next := by
  rw [fread, Outcome.bind_eq_ok] at returned
  obtain ⟨total, product, rest⟩ := returned
  rw [freadAlone, product, Outcome.ok_bind]
  split at rest
  next nothing =>
    cases rest
    exact ⟨if_pos nothing, .refl _ _⟩
  next some_bytes =>
    obtain ⟨_, checked, rest⟩ := Outcome.bind_eq_ok.mp rest
    obtain ⟨own, keeps⟩ := withFile_spec _ _ (Outcome.ok.inj rest)
    rw [if_neg some_bytes, checked, Outcome.ok_bind, own]
    exact ⟨rfl, keeps⟩

theorem fseek_spec {offset whence : Nat}
    (sought : fseek ops stdio filePtr offset whence = (reply, next)) :
    fseekAlone ops (stdio.stream filePtr) offset whence = (reply, next.stream filePtr) ∧
      stdio.Keeps filePtr next := by
  unfold fseek at sought
  unfold fseekAlone
  cases target : seekFrom offset whence with
  | some target' =>
    rw [target] at sought
    exact withFile_spec _ _ sought
  | none =>
    rw [target] at sought
    cases sought
    exact ⟨rfl, .refl _ _⟩

/-- A call acts on its own handle as on a stream of its own. -/
theorem run_spec {call : CFileCall} (returned : call.run p ops stdio filePtr = .ok (reply, next)) :
    call.runAlone p ops (stdio.stream filePtr) = .ok (reply, next.stream filePtr) ∧
      stdio.Keeps filePtr next := by
  cases call with
  | fread buf size count => exact fread_spec returned
  | fclose =>
    obtain ⟨own, keeps⟩ := fclose_spec (Outcome.ok.inj returned)
    exact ⟨congrArg _ own, keeps⟩
  | fseek offset whence =>
    obtain ⟨own, keeps⟩ := fseek_spec (Outcome.ok.inj returned)
    exact ⟨congrArg _ own, keeps⟩
  | ftell =>
    obtain ⟨own, keeps⟩ := withFile_spec _ _ (Outcome.ok.inj returned)
    exact ⟨congrArg _ own, keeps⟩

theorem runAlone_closed {call : CFileCall} {stream : Option File}
    (returned : call.runAlone p ops none = .ok (reply, stream)) :
    reply = call.failure ∧ stream = none := by
  cases call with
  | fread buf size count =>
    rw [CFileCall.runAlone, freadAlone, Outcome.bind_eq_ok] at returned
    obtain ⟨total, -, rest⟩ := returned
    split at rest
    · cases rest
      exact ⟨rfl, rfl⟩
    · obtain ⟨_, -, rest⟩ := Outcome.bind_eq_ok.mp rest
      cases rest
      exact ⟨rfl, rfl⟩
  | fclose => cases returned; exact ⟨rfl, rfl⟩
  | fseek offset whence =>
    have sought := Outcome.ok.inj returned
    unfold fseekAlone at sought
    split at sought <;> cases sought <;> exact ⟨rfl, rfl⟩
  | ftell => cases returned; exact ⟨rfl, rfl⟩

theorem fopen_cases {host : HostFiles File} {fsMounts : Option (List Mount)}
    {filename : Option String} {result : Nat}
    (called : fopen host fsMounts stdio filename = (result, next)) :
    (filename.bind (fopenFile host fsMounts) = none ∧ result = 0 ∧ next = stdio) ∨
      ∃ name file, filename.bind (fopenFile host fsMounts) = some file ∧
        result = stdio.nextFilePtr ∧
        next = ⟨(stdio.nextFilePtr + 0x100) % 2 ^ 64, stdio.openCFiles.map fun map =>
          Function.update map stdio.nextFilePtr (some ⟨file, name⟩)⟩ := by
  unfold fopen at called
  split at called
  next => cases called; exact .inl ⟨rfl, rfl, rfl⟩
  next filename =>
    split at called
    next file found => cases called; exact .inr ⟨filename, file, found, rfl, rfl⟩
    next missing => cases called; exact .inl ⟨missing, rfl, rfl⟩

theorem fopen_spec {host : HostFiles File} {fsMounts : Option (List Mount)}
    {filename : Option String} {result : Nat} (table : stdio.openCFiles.isSome)
    (called : fopen host fsMounts stdio filename = (result, next)) :
    (filename.bind (fopenFile host fsMounts) = none ∧ result = 0 ∧ next = stdio) ∨
      ∃ file, filename.bind (fopenFile host fsMounts) = some file ∧
        result = stdio.nextFilePtr ∧
        next.nextFilePtr = (stdio.nextFilePtr + 0x100) % 2 ^ 64 ∧
        next.openCFiles.isSome ∧
        next.stream = Function.update stdio.stream result (some file) := by
  obtain ⟨map, some_map⟩ := Option.isSome_iff_exists.mp table
  rcases fopen_cases called with unopened | ⟨name, file, found, rfl, rfl⟩
  · exact .inl unopened
  · refine .inr ⟨file, found, rfl, rfl, by simp [some_map], ?_⟩
    funext other
    by_cases same : other = stdio.nextFilePtr <;> simp [Stdio.stream, some_map, same]

theorem fopen_stream {host : HostFiles File} {fsMounts : Option (List Mount)}
    {filename : Option String} {result : Nat}
    (called : fopen host fsMounts stdio filename = (result, next))
    (other : ∀ file, filename.bind (fopenFile host fsMounts) = some file → result ≠ filePtr) :
    next.stream filePtr = stdio.stream filePtr := by
  rcases fopen_cases called with ⟨-, -, rfl⟩ | ⟨name, file, found, rfl, rfl⟩
  · rfl
  · have different : filePtr ≠ stdio.nextFilePtr := (other file found).symm
    cases table : stdio.openCFiles <;> simp [Stdio.stream, table, different]

end Spec

section Runs

variable {Thread File : Type} {p : Profile} {ops : FileOps File}
  {events : List (StdioEvent Thread File)} {stdio : Stdio File}

theorem opened_append (earlier later : List (StdioEvent Thread File)) :
    opened (earlier ++ later) = opened earlier ++ opened later :=
  List.filterMap_append

/-- The handle of an open, by the number of opens before it. -/
def handleAt (index : Nat) : Nat := 0xBEEF_0000_0000 + 0x100 * index

/-- The counter and the table after the events: the handles are numbered, and
only those that were handed out have a file. -/
structure Tracks (events : List (StdioEvent Thread File)) (stdio : Stdio File) : Prop where
  table : stdio.openCFiles.isSome
  next : stdio.nextFilePtr = handleAt (opened events).length
  numbered : (opened events).map Prod.fst = (List.range (opened events).length).map handleAt
  valid : ∀ filePtr, stdio.stream filePtr ≠ none → filePtr ∈ (opened events).map Prod.fst

theorem Tracks.keeps {filePtr : Nat} {next : Stdio File} (held : Tracks events stdio)
    (keeps : stdio.Keeps filePtr next) {event : StdioEvent Thread File}
    (no_open : event.opens = none) : Tracks (events ++ [event]) next := by
  have same : opened (events ++ [event]) = opened events := by simp [opened, no_open]
  refine ⟨?_, ?_, ?_, fun other open_ => ?_⟩
  · rw [keeps.table]
    exact held.table
  · rw [same, keeps.nextFilePtr]
    exact held.next
  · rw [same]
    exact held.numbered
  · rw [same]
    refine held.valid other fun closed => open_ ?_
    by_cases own : other = filePtr
    · subst own
      rw [keeps.invalid closed]
      exact closed
    · rw [keeps.others other own]
      exact closed

theorem Tracks.opens {file : File} {next : Stdio File} (held : Tracks events stdio)
    (few : (opened events).length < 2 ^ 48) (table : next.openCFiles.isSome)
    (counter : next.nextFilePtr = (stdio.nextFilePtr + 0x100) % 2 ^ 64)
    (added : next.stream = Function.update stdio.stream stdio.nextFilePtr (some file))
    {event : StdioEvent Thread File} (opens : event.opens = some (stdio.nextFilePtr, file)) :
    Tracks (events ++ [event]) next := by
  have more : opened (events ++ [event]) = opened events ++ [(stdio.nextFilePtr, file)] := by
    simp [opened, opens]
  refine ⟨table, ?_, ?_, fun other open_ => ?_⟩
  · rw [counter, more, held.next, List.length_append, List.length_singleton]
    unfold handleAt
    omega
  · rw [more, List.map_append, List.length_append, List.length_singleton, List.range_succ,
      List.map_append, held.numbered, List.map_singleton, List.map_singleton, held.next]
  · rw [more, List.map_append, List.mem_append]
    by_cases own : other = stdio.nextFilePtr
    · exact .inr (by simp [own])
    · refine .inl (held.valid other ?_)
      rwa [added, Function.update_of_ne own] at open_

theorem tracks (trace : Trace (StdioStep p ops) .initial events stdio)
    (few : (opened events).length < 2 ^ 48) : Tracks events stdio := by
  induction trace with
  | nil => exact ⟨rfl, rfl, rfl, fun _ open_ => absurd rfl open_⟩
  | snoc _ taken inductionHypothesis =>
    rw [opened_append, List.length_append] at few
    have held := inductionHypothesis (by omega)
    cases taken with
    | call returned => exact held.keeps (run_spec returned).2 rfl
    | fopen host fsMounts called =>
      rcases fopen_spec held.table called with
        ⟨missing, rfl, rfl⟩ | ⟨file, found, rfl, counter, table, added⟩
      · exact held.keeps (Stdio.Keeps.refl _ 0) (by rw [missing]; rfl)
      · exact held.opens (by omega) table counter added (by rw [found]; rfl)

theorem handles_nodup (held : Tracks events stdio) :
    ((opened events).map Prod.fst).Nodup := by
  rw [held.numbered]
  apply List.nodup_range.map
  intro first second same
  unfold handleAt at same
  omega

/-- Between two events no open hands out a handle that an earlier one did. -/
theorem not_reopened {earlier later : List (StdioEvent Thread File)} {filePtr : Nat}
    (fresh : ((opened (earlier ++ later)).map Prod.fst).Nodup)
    (taken : filePtr ∈ (opened earlier).map Prod.fst) :
    ∀ event ∈ later, ∀ file, event.opens ≠ some (filePtr, file) := by
  intro event member file opens
  rw [opened_append, List.map_append, List.nodup_append] at fresh
  have again : filePtr ∈ (opened later).map Prod.fst :=
    List.mem_map.mpr ⟨(filePtr, file), List.mem_filterMap.mpr ⟨event, member, opens⟩, rfl⟩
  exact fresh.2.2 filePtr taken filePtr again rfl

theorem StdioStep.of_fopen {before after : Stdio File} {thread : Thread}
    {filename : Option String} {file : Option File} {result : Nat}
    (taken : StdioStep p ops before (.fopen thread filename file result) after) :
    ∃ host fsMounts, filename.bind (fopenFile host fsMounts) = file ∧
      AnotherPs4.fopen host fsMounts before filename = (result, after) := by
  generalize same : StdioEvent.fopen thread filename file result = event at taken
  cases taken with
  | call => cases same
  | fopen host fsMounts called =>
    cases same
    exact ⟨host, fsMounts, rfl, called⟩

theorem StdioStep.alone {before after : Stdio File} {event : StdioEvent Thread File}
    (taken : StdioStep p ops before event after) {filePtr : Nat} {mine : CFileCall × Reply}
    (own : event.callOn filePtr = some mine) :
    AloneStep p ops (before.stream filePtr) mine (after.stream filePtr) := by
  cases taken with
  | fopen => cases own
  | @call _ other _ _ _ returned =>
    by_cases same : other = filePtr
    · subst same
      simp only [StdioEvent.callOn, if_true, Option.some.injEq] at own
      subst own
      exact (run_spec returned).1
    · simp [StdioEvent.callOn, same] at own

theorem StdioStep.foreign {before after : Stdio File} {event : StdioEvent Thread File}
    (taken : StdioStep p ops before event after) {filePtr : Nat}
    (kept : ∀ file, event.opens ≠ some (filePtr, file)) (other : event.callOn filePtr = none) :
    after.stream filePtr = before.stream filePtr := by
  cases taken with
  | fopen host fsMounts called =>
    refine fopen_stream called fun file found same => kept file ?_
    rw [found, same]
    rfl
  | @call _ called _ _ _ returned =>
    have different : filePtr ≠ called := by
      rintro rfl
      simp [StdioEvent.callOn] at other
    exact (run_spec returned).2.others filePtr different

/-- The calls on a handle that is not handed out again are a run of its stream. -/
theorem runs_alone {start : Stdio File} (trace : Trace (StdioStep p ops) start events stdio)
    {filePtr : Nat} (kept : ∀ event ∈ events, ∀ file, event.opens ≠ some (filePtr, file)) :
    Trace (AloneStep p ops) (start.stream filePtr) (callsOn filePtr events)
      (stdio.stream filePtr) := by
  refine (trace.guarded kept).project (fun stdio => stdio.stream filePtr)
    (StdioEvent.callOn filePtr) (AloneStep p ops) ?_ ?_
  · intro before event after mine taken own
    exact taken.1.alone own
  · intro before event after taken other
    exact taken.1.foreign taken.2 other

theorem alone_closed {calls : List (CFileCall × Reply)} {start stream : Option File}
    (trace : Trace (AloneStep p ops) start calls stream) (closed : start = none) :
    stream = none := by
  induction trace with
  | nil => exact closed
  | snoc _ taken inductionHypothesis =>
    rw [inductionHypothesis] at taken
    exact (runAlone_closed taken).2

theorem fclose_succeeds {stream next : Option File} {reply : Reply}
    (returned : CFileCall.fclose.runAlone p ops stream = .ok (reply, next))
    (zero : reply.value = 0) : stream ≠ none ∧ next = none := by
  cases stream with
  | none =>
    cases returned
    cases zero
  | some file =>
    cases returned
    exact ⟨by simp, rfl⟩

section Interleaving

variable (trace : Trace (StdioStep p ops) .initial events stdio)
  (few : (opened events).length < 2 ^ 48)

include few in
theorem tracks_earlier {earlier later : List (StdioEvent Thread File)} {before : Stdio File}
    (all : events = earlier ++ later) (first : Trace (StdioStep p ops) .initial earlier before) :
    Tracks earlier before := by
  apply tracks first
  rw [all, opened_append, List.length_append] at few
  omega

include trace few

theorem fopen_succeeds {thread : Thread} {filename : Option String} {file : Option File}
    {result : Nat} (member : .fopen thread filename file result ∈ events) :
    result ≠ 0 ↔ file.isSome := by
  obtain ⟨earlier, later, all⟩ := List.append_of_mem member
  obtain ⟨before, after, first, taken, -⟩ := (all ▸ trace).split_at
  have held : Tracks earlier before := tracks_earlier few all first
  obtain ⟨host, fsMounts, rfl, called⟩ := taken.of_fopen
  rcases fopen_spec held.table called with ⟨missing, rfl, -⟩ | ⟨file, found, rfl, -⟩
  · simp [missing]
  · rw [found, held.next]
    simp [handleAt]

theorem fopen_alone {earlier later : List (StdioEvent Thread File)} {thread : Thread}
    {filename : Option String} {file : File} {filePtr : Nat}
    (all : events = earlier ++ .fopen thread filename (some file) filePtr :: later) :
    ∃ stream, Trace (AloneStep p ops) (some file) (callsOn filePtr later) stream := by
  have fresh : ((opened events).map Prod.fst).Nodup := handles_nodup (tracks trace few)
  obtain ⟨before, after, first, taken, rest⟩ := (all ▸ trace).split_at
  have held : Tracks earlier before := tracks_earlier few all first
  obtain ⟨host, fsMounts, found, called⟩ := taken.of_fopen
  rw [all, List.append_cons] at fresh
  have handed : filePtr ∈ (opened (earlier ++
      [StdioEvent.fopen thread filename (some file) filePtr])).map Prod.fst := by
    simp [opened, StdioEvent.opens]
  have own := runs_alone rest (not_reopened fresh handed)
  rcases fopen_spec held.table called with ⟨missing, -⟩ | ⟨file', found', -, -, -, added⟩
  · rw [missing] at found
    cases found
  · rw [found] at found'
    cases found'
    rw [added, Function.update_self] at own
    exact ⟨_, own⟩

theorem fclose_closes {thread : Thread} {filePtr : Nat} {reply : Reply}
    (member : .call thread filePtr .fclose reply ∈ events) (zero : reply.value = 0) :
    stdio.stream filePtr = none := by
  have fresh : ((opened events).map Prod.fst).Nodup := handles_nodup (tracks trace few)
  obtain ⟨earlier, rest, all⟩ := List.append_of_mem member
  obtain ⟨before, after, first, taken, second⟩ := (all ▸ trace).split_at
  have held : Tracks earlier before := tracks_earlier few all first
  rw [all] at fresh
  cases taken with
  | call closing =>
    obtain ⟨open_, closed⟩ := fclose_succeeds (run_spec closing).1 zero
    have handed : filePtr ∈ (opened earlier).map Prod.fst := held.valid filePtr open_
    have own := runs_alone second fun event inside =>
      not_reopened fresh handed event (List.mem_cons_of_mem _ inside)
    exact alone_closed own closed

end Interleaving

/-- Over every interleaving of calls, each handle is a stream of its own. -/
theorem stdio_independentStreams (trace : Trace (StdioStep p ops) .initial events stdio)
    (few : (opened events).length < 2 ^ 48) : IndependentStreams p ops events stdio := by
  refine ⟨fun _ _ _ _ member => fopen_succeeds trace few member,
    handles_nodup (tracks trace few), fun _ _ _ _ _ _ all => fopen_alone trace few all, ?_⟩
  intro thread filePtr reply member zero thread' call reply' next later
  have still : stdio.stream filePtr = none := fclose_closes trace few member zero
  cases later with
  | call returned =>
    obtain ⟨failed, keeps⟩ := run_spec returned
    rw [still] at failed
    exact ⟨(runAlone_closed failed).1, keeps.invalid still⟩

end Runs

section RegularFile

/-- A regular file: its bytes, and the cursor of one open. Offsets are signed. -/
def regularFile : FileOps (List UInt8 × Nat) where
  read := fun (bytes, pos) len =>
    let got := (bytes.drop pos).take len
    (some got, bytes, pos + got.length)
  seek := fun (bytes, pos) target =>
    let goal : Int := match target with
      | .start offset => signed 64 offset
      | .current offset => pos + offset
      | .end_ offset => bytes.length + offset
    if 0 ≤ goal ∧ goal < 2 ^ 63 then (some goal.toNat, bytes, goal.toNat)
    else (none, bytes, pos)
  streamPosition := fun (bytes, pos) => (some pos, bytes, pos)

/-- Two threads with the same file open, and one that uses a closed handle. -/
def sharedFileEvents : List (StdioEvent Nat (List UInt8 × Nat)) :=
  [.fopen 1 (some "/app0/a") (some ([7, 8, 9], 0)) 0xBEEF_0000_0000,
    .fopen 2 (some "/app0/a") (some ([7, 8, 9], 0)) 0xBEEF_0000_0100,
    .call 1 0xBEEF_0000_0000 (.fread 0x1000 1 2) ⟨2, [7, 8]⟩,
    .call 2 0xBEEF_0000_0100 (.fread 0x2000 1 2) ⟨2, [7, 8]⟩,
    .call 1 0xBEEF_0000_0000 .fclose ⟨0, []⟩,
    .call 2 0xBEEF_0000_0000 .ftell ⟨eof, []⟩]

theorem stdio_independentStreams_shared :
    ∃ stdio, IndependentStreams .dev regularFile sharedFileEvents stdio := by
  let host : HostFiles (List UInt8 × Nat) := ⟨fun _ => true, fun _ => some ([7, 8, 9], 0)⟩
  let mounts : List Mount := [⟨"/app0/", Path.new "/games/app"⟩]
  have found : (some "/app0/a").bind (fopenFile host (some mounts)) = some ([7, 8, 9], 0) := by
    decide +kernel
  have opens (stdio : Stdio (List UInt8 × Nat)) (thread filePtr : Nat)
      (counter : stdio.nextFilePtr = filePtr) :
      StdioStep .dev regularFile stdio
        (.fopen thread (some "/app0/a") (some ([7, 8, 9], 0)) filePtr)
        ⟨(filePtr + 0x100) % 2 ^ 64, stdio.openCFiles.map fun map =>
          Function.update map filePtr (some ⟨([7, 8, 9], 0), "/app0/a"⟩)⟩ := by
    subst counter
    rw [← found]
    refine .fopen host (some mounts) ?_
    rw [Option.bind_some] at found
    simp only [fopen, found]
  have calls {stdio next : Stdio (List UInt8 × Nat)} (thread filePtr : Nat) (call : CFileCall)
      (reply : Reply) (returned : call.run .dev regularFile stdio filePtr = .ok (reply, next)) :
      StdioStep .dev regularFile stdio (.call thread filePtr call reply) next :=
    .call returned
  have opening : Trace (StdioStep .dev regularFile) .initial (sharedFileEvents.take 2) _ :=
    (Trace.nil.snoc (opens _ 1 0xBEEF_0000_0000 rfl)).snoc (opens _ 2 0xBEEF_0000_0100 rfl)
  have reading := (opening.snoc (calls 1 0xBEEF_0000_0000 (.fread 0x1000 1 2) ⟨2, [7, 8]⟩ rfl)).snoc
    (calls 2 0xBEEF_0000_0100 (.fread 0x2000 1 2) ⟨2, [7, 8]⟩ rfl)
  have closing : Trace (StdioStep .dev regularFile) .initial sharedFileEvents _ :=
    (reading.snoc (calls 1 0xBEEF_0000_0000 .fclose ⟨0, []⟩ rfl)).snoc
    (calls 2 0xBEEF_0000_0000 .ftell ⟨eof, []⟩ rfl)
  have few : (opened sharedFileEvents).length < 2 ^ 48 := by
    have two : (opened sharedFileEvents).length = 2 := rfl
    rw [two]
    norm_num
  exact ⟨_, stdio_independentStreams closing few⟩

end RegularFile

end AnotherPs4
