import AnotherPs4.Hle.Dispatcher
import AnotherPs4.Transition.Trace

/-!
# Guards of static initialisation

The compiler brackets the initialiser of a static object by
`__cxa_guard_acquire` and `__cxa_guard_release`. The guard is set at the
acquire, so from then on it looks the same as the guard of an initialised
object.
-/

namespace AnotherPs4

open Transition

def cxaGuardAcquire (ram : Ram) (guardPtr : Nat) : Nat × Ram :=
  if guardPtr ≠ 0 then
    if ram.read64 guardPtr = 0 then (1, ram.write64 guardPtr 1) else (0, ram)
  else (0, ram)

/-- `__cxa_guard_release`, which writes the first byte only. -/
def cxaGuardRelease (ram : Ram) (guardPtr : Nat) : Nat × Ram :=
  if guardPtr ≠ 0 then (0, ram.write guardPtr [1]) else (0, ram)

/-- Where a thread is in the sequence of the compiler. -/
inductive GuardPhase where
  | before
  | initialising
  | using
  deriving DecidableEq, Repr

inductive GuardEvent (Thread : Type) where
  | acquire (thread : Thread) (result : Nat)
  | release (thread : Thread)
  | run (thread : Thread)
  deriving DecidableEq, Repr

structure GuardState (Thread : Type) where
  ram : Ram
  phase : Thread → GuardPhase

section Model

variable {Thread : Type} [DecidableEq Thread]

/-- One call, or a step of code that does not write the guard. -/
inductive GuardStep (guardPtr : Nat) :
    GuardState Thread → GuardEvent Thread → GuardState Thread → Prop where
  | acquire {state thread result ram} : state.phase thread = .before →
      cxaGuardAcquire state.ram guardPtr = (result, ram) →
      GuardStep guardPtr state (.acquire thread result)
        ⟨ram, Function.update state.phase thread (if result = 1 then .initialising else .using)⟩
  | release {state thread} : state.phase thread = .initialising →
      GuardStep guardPtr state (.release thread)
        ⟨(cxaGuardRelease state.ram guardPtr).2, Function.update state.phase thread .using⟩
  | run {state thread ram} : (∀ k < 8, ram (guardPtr + k) = state.ram (guardPtr + k)) →
      GuardStep guardPtr state (.run thread) { state with ram }

def winners (events : List (GuardEvent Thread)) : List Thread :=
  events.filterMap fun
    | .acquire thread 1 => some thread
    | _ => none

/-- One acquire returns 1, and none returns 0 before the release that follows it. -/
structure Excludes (events : List (GuardEvent Thread)) : Prop where
  once : ∀ thread result, .acquire thread result ∈ events → ∃ winner, winners events = [winner]
  ordered : ∀ earlier thread later, events = earlier ++ .acquire thread 0 :: later →
    ∃ winner ∈ winners earlier, .release winner ∈ earlier

/-- No acquire is called while a thread is in the initialiser. -/
def Undisturbed (state : GuardState Thread) (event : GuardEvent Thread) : Prop :=
  ∀ thread result, event = .acquire thread result →
    ∀ other, state.phase other ≠ .initialising

/-- Nobody has called anything yet. -/
structure GuardState.Fresh (guardPtr : Nat) (state : GuardState Thread) : Prop where
  zero : state.ram.read64 guardPtr = 0
  before : ∀ thread, state.phase thread = .before

/-- The guard after the events: still clear, or set by the one winner, which is
in the initialiser until its release. -/
inductive Guarded (guardPtr : Nat) (events : List (GuardEvent Thread))
    (state : GuardState Thread) : Prop where
  | clear : state.Fresh guardPtr → (∀ event ∈ events, ∃ thread, event = .run thread) →
      Guarded guardPtr events state
  | set (winner : Thread) : state.ram guardPtr = 1 → winners events = [winner] →
      (∀ thread, state.phase thread = .initialising ↔
        thread = winner ∧ .release winner ∉ events) →
      Guarded guardPtr events state

end Model

section Winners

variable {Thread : Type} {events : List (GuardEvent Thread)}

theorem winners_append (event : GuardEvent Thread) :
    winners (events ++ [event]) = winners events ++ winners [event] :=
  List.filterMap_append

theorem mem_winners {thread : Thread} : thread ∈ winners events ↔ .acquire thread 1 ∈ events := by
  unfold winners
  rw [List.mem_filterMap]
  constructor
  · rintro ⟨event, member, found⟩
    split at found
    · cases found
      exact member
    · cases found
  · exact fun member => ⟨_, member, rfl⟩

theorem winners_of_runs (runs : ∀ event ∈ events, ∃ thread, event = .run thread) :
    winners events = [] := by
  apply List.eq_nil_iff_forall_not_mem.mpr
  intro thread won
  obtain ⟨_, same⟩ := runs _ (mem_winners.mp won)
  cases same

end Winners

theorem Ram.read64_ne_zero {ram : Ram} {addr : Nat} (set : ram addr = 1) :
    ram.read64 addr ≠ 0 := by
  have first : ram.read64 addr =
      1 + 256 * Rust.leNat ((List.range' 1 7).map fun k => ram (addr + k)) := by
    unfold read64
    rw [List.range_eq_range', List.range'_succ, List.map_cons, Rust.leNat, Nat.add_zero, set]
    rfl
  omega

section Step

variable {Thread : Type} [DecidableEq Thread] {guardPtr : Nat} {start state next : GuardState Thread}
  {event : GuardEvent Thread} {events : List (GuardEvent Thread)} (nonnull : guardPtr ≠ 0)
  (bounded : guardPtr + 8 ≤ 2 ^ 64)

omit [DecidableEq Thread] in
/-- Only the winner is ever in the initialiser. -/
theorem Guarded.of_initialising {thread : Thread} (guarded : Guarded guardPtr events state)
    (initialising : state.phase thread = .initialising) :
    state.ram guardPtr = 1 ∧ winners events = [thread] ∧ .release thread ∉ events ∧
      ∀ other, state.phase other = .initialising ↔ other = thread ∧ .release thread ∉ events := by
  cases guarded with
  | clear fresh runs =>
    rw [fresh.before] at initialising
    cases initialising
  | set winner byte won phases =>
    obtain ⟨rfl, unreleased⟩ := (phases thread).mp initialising
    exact ⟨byte, won, unreleased, phases⟩

include nonnull

theorem cxaGuardAcquire_set {ram : Ram} (set : ram guardPtr = 1) :
    cxaGuardAcquire ram guardPtr = (0, ram) := by
  rw [cxaGuardAcquire, if_pos nonnull, if_neg (Ram.read64_ne_zero set)]

/-- A second acquire in the middle of the initialiser returns 0 before the release. -/
theorem GuardStep.undisturbed (guarded : Guarded guardPtr events state)
    (step : GuardStep guardPtr state event next)
    (ordered : ∀ thread, event = .acquire thread 0 →
      ∃ winner ∈ winners events, .release winner ∈ events) : Undisturbed state event := by
  rintro thread result rfl other initialising
  obtain ⟨byte, won, unreleased, -⟩ := guarded.of_initialising initialising
  cases step with
  | acquire idle called =>
    cases (cxaGuardAcquire_set nonnull byte).symm.trans called
    obtain ⟨winner, member, released⟩ := ordered thread rfl
    rw [won, List.mem_singleton] at member
    exact unreleased (member ▸ released)

include bounded

theorem cxaGuardAcquire_clear {ram : Ram} (clear : ram.read64 guardPtr = 0) :
    ∃ ram', cxaGuardAcquire ram guardPtr = (1, ram') ∧ ram' guardPtr = 1 := by
  refine ⟨ram.write64 guardPtr 1, by rw [cxaGuardAcquire, if_pos nonnull, if_pos clear], ?_⟩
  have length : (Rust.leBytes 8 1).length = 8 := Rust.length_leBytes _ _
  exact Ram.write_inside (k := 0) (by omega) (by omega)

theorem cxaGuardRelease_sets (ram : Ram) : (cxaGuardRelease ram guardPtr).2 guardPtr = 1 := by
  rw [cxaGuardRelease, if_pos nonnull]
  exact (Ram.write_byte (by omega) (by omega)).trans (if_pos rfl)

theorem Guarded.acquire {thread : Thread} {result : Nat} {ram : Ram}
    (guarded : Guarded guardPtr events state) (idle : state.phase thread = .before)
    (called : cxaGuardAcquire state.ram guardPtr = (result, ram)) :
    Guarded guardPtr (events ++ [.acquire thread result])
      ⟨ram, Function.update state.phase thread (if result = 1 then .initialising else .using)⟩ := by
  cases guarded with
  | clear fresh runs =>
    obtain ⟨ram', won, set⟩ := cxaGuardAcquire_clear nonnull bounded fresh.zero
    cases won.symm.trans called
    refine .set thread set (by rw [winners_append, winners_of_runs runs]; rfl) fun other => ?_
    have unreleased : .release thread ∉ events ++ [.acquire thread 1] := by
      intro member
      rcases List.mem_append.mp member with member | member
      · obtain ⟨_, same⟩ := runs _ member
        cases same
      · simp at member
    by_cases same : other = thread
    · simp [same, unreleased]
    · simp [same, fresh.before other]
  | set winner byte won phases =>
    cases (cxaGuardAcquire_set nonnull byte).symm.trans called
    refine .set winner byte (by rw [winners_append, won]; rfl) fun other => ?_
    have kept := phases other
    by_cases same : other = thread
    · subst same
      rw [idle] at kept
      simpa using kept
    · simpa [same] using kept

omit nonnull bounded [DecidableEq Thread] in
theorem Guarded.run {thread : Thread} {ram : Ram} (guarded : Guarded guardPtr events state)
    (kept : ∀ k < 8, ram (guardPtr + k) = state.ram (guardPtr + k)) :
    Guarded guardPtr (events ++ [.run thread]) { state with ram } := by
  cases guarded with
  | clear fresh runs =>
    refine .clear ⟨?_, fresh.before⟩ fun event member => ?_
    · have bytes : ram.read64 guardPtr = state.ram.read64 guardPtr := by
        unfold Ram.read64
        exact congrArg Rust.leNat (List.map_congr_left fun k member =>
          kept k (List.mem_range.mp member))
      exact bytes.trans fresh.zero
    · rcases List.mem_append.mp member with member | member
      · exact runs event member
      · exact ⟨thread, List.mem_singleton.mp member⟩
  | set winner byte won phases =>
    refine .set winner ((kept 0 (by decide)).trans byte)
      (by rw [winners_append, won]; rfl) fun other => ?_
    simpa using phases other

theorem GuardStep.guarded (guarded : Guarded guardPtr events state)
    (step : GuardStep guardPtr state event next) : Guarded guardPtr (events ++ [event]) next := by
  cases step with
  | acquire idle called => exact guarded.acquire nonnull bounded idle called
  | @release thread initialising =>
    obtain ⟨-, won, -, phases⟩ := guarded.of_initialising initialising
    refine .set thread (cxaGuardRelease_sets nonnull bounded _)
      (by rw [winners_append, won]; rfl) fun other => ?_
    by_cases same : other = thread
    · simp [same]
    · have kept := phases other
      simp [same, kept]
  | run kept => exact guarded.run kept

theorem guarded_of_trace (fresh : start.Fresh guardPtr)
    (run : Trace (GuardStep guardPtr) start events state) : Guarded guardPtr events state := by
  induction run with
  | nil => exact .clear fresh nofun
  | snoc _ step ih => exact step.guarded nonnull bounded ih

/-- An acquire that returns 0 comes after the release, unless it was called in
the middle of the initialiser. -/
theorem GuardStep.ordered (guarded : Guarded guardPtr events state)
    (quiet : Undisturbed state event) (step : GuardStep guardPtr state event next)
    {thread : Thread} (zero : event = .acquire thread 0) :
    ∃ winner ∈ winners events, .release winner ∈ events := by
  subst zero
  cases step with
  | acquire idle called =>
    cases guarded with
    | clear fresh runs =>
      obtain ⟨ram', won, -⟩ := cxaGuardAcquire_clear nonnull bounded fresh.zero
      cases won.symm.trans called
    | set winner byte won phases =>
      refine ⟨winner, by rw [won]; simp, ?_⟩
      by_contra unreleased
      exact quiet thread 0 rfl winner ((phases winner).mpr ⟨rfl, unreleased⟩)

end Step

/-- In every run the guard excludes exactly if no thread calls the acquire while
another one is in the initialiser. -/
theorem excludes_iff {Thread : Type} [DecidableEq Thread] {guardPtr : Nat} (nonnull : guardPtr ≠ 0)
    (bounded : guardPtr + 8 ≤ 2 ^ 64) {start state : GuardState Thread}
    (fresh : start.Fresh guardPtr) {events : List (GuardEvent Thread)}
    (run : Trace (GuardStep guardPtr) start events state) :
    Excludes events ↔ Trace (fun state event next =>
      GuardStep guardPtr state event next ∧ Undisturbed state event) start events state := by
  constructor
  · rintro ⟨-, ordered⟩
    induction run with
    | nil => exact .nil
    | @snoc events state event next earlier step ih =>
      refine .snoc (ih fun before thread later same => ?_) ⟨step, ?_⟩
      · exact ordered before thread (later ++ [event]) (by rw [same]; simp)
      · refine step.undisturbed nonnull (guarded_of_trace nonnull bounded fresh earlier)
          fun thread same => ordered events thread [] (by rw [same])
  · intro quiet
    refine ⟨fun thread result member => ?_, ?_⟩
    · cases guarded_of_trace nonnull bounded fresh run with
      | clear _ runs =>
        obtain ⟨_, same⟩ := runs _ member
        cases same
      | set winner _ won _ => exact ⟨winner, won⟩
    · clear run
      induction quiet with
      | nil => simp
      | @snoc events state event next earlier step ih =>
        intro before thread later same
        have guarded := guarded_of_trace nonnull bounded fresh (earlier.mono And.left)
        rcases List.eq_nil_or_concat later with rfl | ⟨rest, last, rfl⟩
        · obtain ⟨rfl, zero⟩ := List.append_inj' same rfl
          exact step.1.ordered nonnull bounded guarded step.2 (List.cons.inj zero).1
        · rw [List.concat_eq_append, ← List.cons_append, ← List.append_assoc] at same
          exact ih before thread rest (List.append_inj' same rfl).1

def GuardState.zeroed : GuardState Nat := ⟨fun _ => 0, fun _ => .before⟩

theorem GuardState.zeroed_fresh : zeroed.Fresh 0x1000 := ⟨by decide, fun _ => rfl⟩

theorem GuardState.zeroed_acquire : ∃ ram, ram 0x1000 = 1 ∧
    GuardStep 0x1000 zeroed (.acquire 0 1) ⟨ram, Function.update zeroed.phase 0 .initialising⟩ := by
  have clear : ∃ ram, cxaGuardAcquire zeroed.ram 0x1000 = (1, ram) ∧ ram 0x1000 = 1 :=
    cxaGuardAcquire_clear (by decide) (by decide) zeroed_fresh.zero
  obtain ⟨ram, won, set⟩ := clear
  exact ⟨ram, set, .acquire rfl won⟩

theorem excludes_iff_released :
    ∃ state, Trace (GuardStep 0x1000) .zeroed [.acquire 0 1, .release 0, .acquire 1 0] state ∧
      Excludes ([.acquire 0 1, .release 0, .acquire 1 0] : List (GuardEvent Nat)) := by
  obtain ⟨ram, set, won⟩ := GuardState.zeroed_acquire
  have release : GuardStep 0x1000 ⟨ram, Function.update GuardState.zeroed.phase 0 .initialising⟩
      (.release 0) _ :=
    .release rfl
  have still : (cxaGuardRelease ram 0x1000).2 0x1000 = 1 :=
    cxaGuardRelease_sets (by decide) (by decide) ram
  have late : GuardStep 0x1000 ⟨(cxaGuardRelease ram 0x1000).2, Function.update
      (Function.update GuardState.zeroed.phase 0 .initialising) 0 .using⟩ (.acquire 1 0) _ :=
    .acquire rfl (cxaGuardAcquire_set (by decide) still)
  have run := ((Trace.nil.snoc won).snoc release).snoc late
  refine ⟨_, run, (excludes_iff (by decide) (by decide) GuardState.zeroed_fresh run).mpr ?_⟩
  have idle : ∀ other, GuardState.zeroed.phase other ≠ .initialising := nofun
  have released : ∀ other, Function.update (Function.update GuardState.zeroed.phase 0 .initialising)
      0 .using other ≠ .initialising := by
    intro other
    by_cases same : other = 0 <;> simp [same, GuardState.zeroed]
  exact ((Trace.nil.snoc ⟨won, fun _ _ _ => idle⟩).snoc ⟨release, nofun⟩).snoc
    ⟨late, fun _ _ _ => released⟩

/-- A second thread that arrives while the first is in the initialiser is told
that the object is there. -/
theorem not_excludes_race :
    ∃ state, Trace (GuardStep 0x1000) .zeroed [.acquire 0 1, .acquire 1 0] state ∧
      state.phase 0 = .initialising ∧ state.phase 1 = .using ∧
      ¬ Excludes ([.acquire 0 1, .acquire 1 0] : List (GuardEvent Nat)) := by
  obtain ⟨ram, set, won⟩ := GuardState.zeroed_acquire
  have early : GuardStep 0x1000 ⟨ram, Function.update GuardState.zeroed.phase 0 .initialising⟩
      (.acquire 1 0) _ :=
    .acquire rfl (cxaGuardAcquire_set (by decide) set)
  refine ⟨_, (Trace.nil.snoc won).snoc early, rfl, rfl, fun excludes => ?_⟩
  obtain ⟨winner, -, released⟩ := excludes.ordered [.acquire 0 1] 1 [] rfl
  simp at released

end AnotherPs4
