import AnotherPs4.Transition.Trace

/-!
# Event queues

`trigger_event` appends to the pending events, `wait` takes a batch from their
front. A `wait` with a timeout that finds nothing gives up the lock once, sleeps,
and takes its batch from whatever is pending then.
-/

namespace Kernel

open Transition

structure Event where
  ident : Nat
  filter : Int
  flags : Nat
  fflags : Nat
  data : Int
  udata : Nat
  deriving DecidableEq, Repr

namespace EventQueue

def triggerEvent (events : List Event) (event : Event) : List Event := events ++ [event]

def drain (events : List Event) (maxEvents : Nat) : List Event × List Event :=
  let count := min events.length maxEvents
  (events.take count, events.drop count)

/-- `wait` up to where it gives up the lock: `none` when it goes to sleep. -/
def waitLocked (events : List Event) (maxEvents : Nat) (timeout : Option Nat) :
    Option (List Event × List Event) :=
  if events.isEmpty ∧ timeout.isSome then none else some (drain events maxEvents)

theorem drain_append (events : List Event) (maxEvents : Nat) :
    (drain events maxEvents).1 ++ (drain events maxEvents).2 = events :=
  List.take_append_drop _ _

theorem drain_length (events : List Event) (maxEvents : Nat) :
    (drain events maxEvents).1.length ≤ maxEvents := by
  simp [drain]

end EventQueue

/-- The pending events, and the `max_events` of each thread that sleeps in `wait`. -/
structure EventQueue (Thread : Type) where
  events : List Event
  asleep : Thread → Option Nat

inductive QueueEvent (Thread : Type) where
  | trigger (thread : Thread) (event : Event)
  | sleep (thread : Thread) (maxEvents : Nat)
  | batch (thread : Thread) (maxEvents : Nat) (events : List Event)
  deriving DecidableEq, Repr

section Model

variable {Thread : Type} [DecidableEq Thread]

def EventQueue.new : EventQueue Thread := ⟨[], fun _ => none⟩

/-- What one thread does under the lock. -/
inductive QueueStep : EventQueue Thread → QueueEvent Thread → EventQueue Thread → Prop where
  | trigger {queue thread event} : queue.asleep thread = none →
      QueueStep queue (.trigger thread event)
        { queue with events := EventQueue.triggerEvent queue.events event }
  | wait {queue thread maxEvents batch rest} (timeout : Option Nat) :
      queue.asleep thread = none →
      EventQueue.waitLocked queue.events maxEvents timeout = some (batch, rest) →
      QueueStep queue (.batch thread maxEvents batch) { queue with events := rest }
  | sleep {queue thread maxEvents} (timeout : Option Nat) : queue.asleep thread = none →
      EventQueue.waitLocked queue.events maxEvents timeout = none →
      QueueStep queue (.sleep thread maxEvents)
        { queue with asleep := Function.update queue.asleep thread (some maxEvents) }
  | wake {queue thread maxEvents batch rest} : queue.asleep thread = some maxEvents →
      EventQueue.drain queue.events maxEvents = (batch, rest) →
      QueueStep queue (.batch thread maxEvents batch)
        ⟨rest, Function.update queue.asleep thread none⟩

end Model

section History

variable {Thread : Type}

def triggered (history : List (QueueEvent Thread)) : List Event :=
  history.filterMap fun
    | .trigger _ event => some event
    | _ => none

def batches (history : List (QueueEvent Thread)) : List (List Event) :=
  history.filterMap fun
    | .batch _ _ events => some events
    | _ => none

/-- What was returned and what is pending is what was triggered, in order. -/
structure DeliversOnce (history : List (QueueEvent Thread)) (queue : EventQueue Thread) : Prop where
  ordered : (batches history).flatten ++ queue.events = triggered history
  bounded : ∀ thread maxEvents events, .batch thread maxEvents events ∈ history →
    events.length ≤ maxEvents

variable {history : List (QueueEvent Thread)} {queue next : EventQueue Thread}

theorem triggered_append (earlier later : List (QueueEvent Thread)) :
    triggered (earlier ++ later) = triggered earlier ++ triggered later :=
  List.filterMap_append

theorem batches_append (earlier later : List (QueueEvent Thread)) :
    batches (earlier ++ later) = batches earlier ++ batches later :=
  List.filterMap_append

theorem DeliversOnce.trigger (delivers : DeliversOnce history queue) (thread : Thread)
    (event : Event) (appended : next.events = queue.events ++ [event]) :
    DeliversOnce (history ++ [.trigger thread event]) next where
  ordered := by
    rw [batches_append, triggered_append, ← delivers.ordered, appended]
    simp [batches, triggered]
  bounded other maxEvents events member := by
    apply delivers.bounded other maxEvents events
    simpa using member

theorem DeliversOnce.sleep (delivers : DeliversOnce history queue) (thread : Thread)
    (maxEvents : Nat) (kept : next.events = queue.events) :
    DeliversOnce (history ++ [.sleep thread maxEvents]) next where
  ordered := by
    rw [batches_append, triggered_append, ← delivers.ordered, kept]
    simp [batches, triggered]
  bounded other otherMax events member := by
    apply delivers.bounded other otherMax events
    simpa using member

/-- A batch moves from the front of the pending events to the end of the returned ones. -/
theorem DeliversOnce.batch (delivers : DeliversOnce history queue) (thread : Thread)
    {maxEvents : Nat} {events : List Event}
    (drained : EventQueue.drain queue.events maxEvents = (events, next.events)) :
    DeliversOnce (history ++ [.batch thread maxEvents events]) next where
  ordered := by
    have whole : events ++ next.events = queue.events := by
      have := EventQueue.drain_append queue.events maxEvents
      rwa [drained] at this
    rw [batches_append, triggered_append, ← delivers.ordered, ← whole]
    simp [batches, triggered]
  bounded other otherMax batch member := by
    rcases List.mem_append.mp member with earlier | now
    · exact delivers.bounded other otherMax batch earlier
    · have short := EventQueue.drain_length queue.events maxEvents
      rw [drained] at short
      cases List.mem_singleton.mp now
      exact short

variable [DecidableEq Thread]

theorem waitLocked_drains {events batch rest : List Event} {maxEvents : Nat} {timeout : Option Nat}
    (returned : EventQueue.waitLocked events maxEvents timeout = some (batch, rest)) :
    EventQueue.drain events maxEvents = (batch, rest) := by
  unfold EventQueue.waitLocked at returned
  split at returned
  · cases returned
  · exact Option.some.inj returned

theorem QueueStep.delivers {event : QueueEvent Thread} (step : QueueStep queue event next)
    (delivers : DeliversOnce history queue) : DeliversOnce (history ++ [event]) next := by
  cases step with
  | trigger => exact delivers.trigger _ _ rfl
  | wait timeout _ returned => exact delivers.batch _ (waitLocked_drains returned)
  | sleep => exact delivers.sleep _ _ rfl
  | wake _ drained => exact delivers.batch _ drained

/-- No schedule of triggers and waits loses or duplicates an event. -/
theorem deliversOnce (run : Trace QueueStep .new history queue) : DeliversOnce history queue := by
  induction run with
  | nil => exact ⟨rfl, nofun⟩
  | snoc _ taken inductionHypothesis => exact taken.delivers inductionHypothesis

/-- Two threads find nothing, and one event comes: the first of them to wake has it. -/
theorem deliversOnce_contended :
    ∃ queue : EventQueue Nat, DeliversOnce
      [.sleep 1 4, .sleep 2 4, .trigger 3 ⟨7, -11, 0, 0, 0, 0⟩,
        .batch 2 4 [⟨7, -11, 0, 0, 0, 0⟩], .batch 1 4 []] queue := by
  have waiting : Trace QueueStep (.new : EventQueue Nat) [.sleep 1 4, .sleep 2 4] _ :=
    (Trace.nil.snoc (.sleep (some 16) rfl rfl)).snoc (.sleep (some 16) rfl rfl)
  have triggered : Trace QueueStep (.new : EventQueue Nat)
      [.sleep 1 4, .sleep 2 4, .trigger 3 ⟨7, -11, 0, 0, 0, 0⟩] _ :=
    waiting.snoc (.trigger rfl)
  have first : Trace QueueStep (.new : EventQueue Nat)
      [.sleep 1 4, .sleep 2 4, .trigger 3 ⟨7, -11, 0, 0, 0, 0⟩,
        .batch 2 4 [⟨7, -11, 0, 0, 0, 0⟩]] _ :=
    triggered.snoc (.wake rfl rfl)
  exact ⟨_, deliversOnce (first.snoc (.wake rfl rfl))⟩

end History

end Kernel
