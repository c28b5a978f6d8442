import Mathlib.Tactic

/-!
# Traces of labelled transition systems

A trace lists the events of a finite run, the latest last. `Trace.ghost` is the
one induction over runs: a relation between a history fold and the state that
every step preserves holds at the end of every trace.
-/

namespace Transition

variable {State Event Ghost : Type}

inductive Trace (step : State → Event → State → Prop) (start : State) :
    List Event → State → Prop where
  | nil : Trace step start [] start
  | snoc {events middle event finish} :
      Trace step start events middle → step middle event finish →
      Trace step start (events ++ [event]) finish

namespace Trace

variable {step : State → Event → State → Prop} {start finish : State} {events : List Event}

theorem ghost (update : Ghost → Event → Ghost) (related : Ghost → State → Prop) (first : Ghost)
    (initial : related first start)
    (preserves : ∀ {ghost state event next}, related ghost state → step state event next →
      related (update ghost event) next)
    (trace : Trace step start events finish) : related (events.foldl update first) finish := by
  induction trace with
  | nil => exact initial
  | snoc _ taken ih =>
      rw [List.foldl_append, List.foldl_cons, List.foldl_nil]
      exact preserves ih taken

theorem invariant {inv : State → Prop} (initial : inv start)
    (preserves : ∀ {state event next}, inv state → step state event next → inv next)
    (trace : Trace step start events finish) : inv finish :=
  ghost (fun (_ : Unit) _ => ()) (fun _ => inv) () initial preserves trace

theorem mono {step' : State → Event → State → Prop}
    (weaker : ∀ {state event next}, step state event next → step' state event next)
    (trace : Trace step start events finish) : Trace step' start events finish := by
  induction trace with
  | nil => exact .nil
  | snoc _ taken ih => exact .snoc ih (weaker taken)

theorem constant {View : Type} (view : State → View)
    (same : ∀ {state event next}, step state event next → view next = view state)
    (trace : Trace step start events finish) : view finish = view start := by
  induction trace with
  | nil => rfl
  | snoc _ taken ih => exact (same taken).trans ih

/-- A simulation: if each step from a state in the invariant acts on the
abstraction as its event says, so does the whole run. -/
theorem refines {Abstract : Type} (abstraction : State → Abstract)
    (apply : Abstract → Event → Abstract) (inv : State → Prop) (initial : inv start)
    (preserves : ∀ {state event next}, inv state → step state event next →
      inv next ∧ abstraction next = apply (abstraction state) event)
    (trace : Trace step start events finish) :
    inv finish ∧ abstraction finish = events.foldl apply (abstraction start) :=
  ghost apply (fun abstract state => inv state ∧ abstraction state = abstract) _ ⟨initial, rfl⟩
    (fun ⟨kept, same⟩ taken => by
      obtain ⟨kept', simulated⟩ := preserves kept taken
      exact ⟨kept', by rw [simulated, same]⟩) trace

theorem append {middle : State} {later : List Event} (first : Trace step start events middle)
    (second : Trace step middle later finish) : Trace step start (events ++ later) finish := by
  induction second with
  | nil => simpa using first
  | snoc _ taken ih =>
    rw [← List.append_assoc]
    exact .snoc ih taken

theorem of_snoc {event : Event} (trace : Trace step start (events ++ [event]) finish) :
    ∃ middle, Trace step start events middle ∧ step middle event finish := by
  generalize all : events ++ [event] = through at trace
  cases trace with
  | nil => simp at all
  | snoc before taken =>
    obtain ⟨rfl, same⟩ := List.append_inj' all rfl
    cases same
    exact ⟨_, before, taken⟩

theorem split {earlier later : List Event}
    (trace : Trace step start (earlier ++ later) finish) :
    ∃ middle, Trace step start earlier middle ∧ Trace step middle later finish := by
  induction later using List.reverseRecOn generalizing finish with
  | nil => exact ⟨finish, by simpa using trace, .nil⟩
  | append_singleton later event inductionHypothesis =>
    rw [← List.append_assoc] at trace
    obtain ⟨last, before, taken⟩ := trace.of_snoc
    obtain ⟨middle, first, second⟩ := inductionHypothesis before
    exact ⟨middle, first, .snoc second taken⟩

/-- The step that an event of a trace names, and the runs around it. -/
theorem split_at {earlier later : List Event} {event : Event}
    (trace : Trace step start (earlier ++ event :: later) finish) :
    ∃ before after, Trace step start earlier before ∧ step before event after ∧
      Trace step after later finish := by
  rw [List.append_cons] at trace
  obtain ⟨after, through, rest⟩ := trace.split
  obtain ⟨before, first, taken⟩ := through.of_snoc
  exact ⟨before, after, first, taken, rest⟩

/-- The events that concern one view of the state are a run of that view. -/
theorem project {View Own : Type} (view : State → View) (own : Event → Option Own)
    (ownStep : View → Own → View → Prop)
    (concerned : ∀ {state event next mine}, step state event next → own event = some mine →
      ownStep (view state) mine (view next))
    (foreign : ∀ {state event next}, step state event next → own event = none →
      view next = view state)
    (trace : Trace step start events finish) :
    Trace ownStep (view start) (events.filterMap own) (view finish) := by
  induction trace with
  | nil => exact .nil
  | @snoc _ _ event _ _ taken inductionHypothesis =>
    rw [List.filterMap_append]
    cases mine : own event with
    | none => simpa [mine, foreign taken mine] using inductionHypothesis
    | some concern =>
      simpa [mine] using Trace.snoc inductionHypothesis (concerned taken mine)

/-- A property of all events of a trace can be assumed at each step. -/
theorem guarded {allowed : Event → Prop} (trace : Trace step start events finish)
    (all : ∀ event ∈ events, allowed event) :
    Trace (fun state event next => step state event next ∧ allowed event) start events finish := by
  induction trace with
  | nil => exact .nil
  | snoc _ taken ih =>
    exact .snoc (ih fun event member => all event (List.mem_append_left _ member))
      ⟨taken, all _ (by simp)⟩

end Trace

end Transition
