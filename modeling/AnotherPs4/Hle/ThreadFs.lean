import Mathlib.Tactic

/-!
# Host FS bases

The signal handler finds the host FS base of a thread in a table of 64 slots. A
thread takes the first slot that is empty or its own, and keeps it for good.
-/

namespace AnotherPs4

/-- A thread id, zero in an empty slot, and its FS base. -/
abbrev FsSlot := Nat × Nat

def threadFsMap : List FsSlot := List.replicate 64 (0, 0)

/-- `register_thread_fs`, called by the thread `tid`. -/
def registerThreadFs (tid fsBase : Nat) : List FsSlot → List FsSlot
  | [] => []
  | slot :: slots =>
    if slot.1 = 0 ∨ slot.1 = tid then (tid, fsBase) :: slots
    else slot :: registerThreadFs tid fsBase slots

/-- `get_thread_fs`, called by the thread `tid`. -/
def getThreadFs (tid : Nat) : List FsSlot → Nat
  | [] => 0
  | slot :: slots => if slot.1 = tid then slot.2 else getThreadFs tid slots

/-- The table after calls of `register_thread_fs`, each by a thread with an FS base. -/
def registered (calls : List (Nat × Nat)) : List FsSlot :=
  calls.foldl (fun slots call => registerThreadFs call.1 call.2 slots) threadFsMap

def arrive (tids : List Nat) (tid : Nat) : List Nat := if tid ∈ tids then tids else tids ++ [tid]

/-- The threads in the order of their first calls. -/
def arrivals (calls : List (Nat × Nat)) : List Nat :=
  calls.foldl (fun tids call => arrive tids call.1) []

section Slots

variable {tid other fsBase : Nat} {slots : List FsSlot}

def takeSlot (tid : Nat) : List Nat → List Nat
  | [] => []
  | owner :: owners => if owner = 0 ∨ owner = tid then tid :: owners else owner :: takeSlot tid owners

theorem registerThreadFs_owners (tid fsBase : Nat) (slots : List FsSlot) :
    (registerThreadFs tid fsBase slots).map Prod.fst = takeSlot tid (slots.map Prod.fst) := by
  induction slots with
  | nil => rfl
  | cons slot slots inductionHypothesis =>
    simp only [registerThreadFs, takeSlot, List.map_cons]
    split
    · rfl
    · rw [List.map_cons, inductionHypothesis]

theorem takeSlot_of_mem {owners : List Nat} (nonzero : ∀ owner ∈ owners, owner ≠ 0)
    (own : tid ∈ owners) (free : List Nat) : takeSlot tid (owners ++ free) = owners ++ free := by
  induction owners with
  | nil => simp at own
  | cons owner owners inductionHypothesis =>
    by_cases same : owner = tid
    · simp [takeSlot, same]
    · have rest : tid ∈ owners := (List.mem_cons.mp own).resolve_left (Ne.symm same)
      have occupied : owner ≠ 0 := nonzero owner (by simp)
      simp [takeSlot, same, occupied,
        inductionHypothesis (fun other member => nonzero other (by simp [member])) rest]

theorem takeSlot_of_not_mem {owners : List Nat} (nonzero : ∀ owner ∈ owners, owner ≠ 0)
    (foreign : tid ∉ owners) (free : List Nat) :
    takeSlot tid (owners ++ free) = owners ++ takeSlot tid free := by
  induction owners with
  | nil => rfl
  | cons owner owners inductionHypothesis =>
    have different : owner ≠ tid := fun same => foreign (by simp [same])
    have occupied : owner ≠ 0 := nonzero owner (by simp)
    simp [takeSlot, different, occupied, inductionHypothesis
      (fun other member => nonzero other (by simp [member])) fun member => foreign (by simp [member])]

theorem getThreadFs_of_not_owner (foreign : tid ∉ slots.map Prod.fst) :
    getThreadFs tid slots = 0 := by
  induction slots with
  | nil => rfl
  | cons slot slots inductionHypothesis =>
    rw [List.map_cons, List.mem_cons, not_or] at foreign
    rw [getThreadFs, if_neg (Ne.symm foreign.1), inductionHypothesis foreign.2]

theorem getThreadFs_register (tid fsBase : Nat) (slots : List FsSlot) :
    getThreadFs tid (registerThreadFs tid fsBase slots) =
      if tid ∈ (registerThreadFs tid fsBase slots).map Prod.fst then fsBase else 0 := by
  induction slots with
  | nil => rfl
  | cons slot slots inductionHypothesis =>
    by_cases taken : slot.1 = 0 ∨ slot.1 = tid
    · simp [registerThreadFs, taken, getThreadFs]
    · have different : ¬ slot.1 = tid := fun same => taken (.inr same)
      simp only [registerThreadFs, if_neg taken, getThreadFs, if_neg different,
        inductionHypothesis, List.map_cons, List.mem_cons, Ne.symm different, false_or]

theorem getThreadFs_register_ne (nonzero : tid ≠ 0) (different : other ≠ tid) :
    getThreadFs tid (registerThreadFs other fsBase slots) = getThreadFs tid slots := by
  induction slots with
  | nil => rfl
  | cons slot slots inductionHypothesis =>
    by_cases taken : slot.1 = 0 ∨ slot.1 = other
    · have foreign : slot.1 ≠ tid := by
        rcases taken with empty | owned
        · rw [empty]
          exact Ne.symm nonzero
        · rw [owned]
          exact different
      simp [registerThreadFs, taken, getThreadFs, different, foreign]
    · simp [registerThreadFs, taken, getThreadFs, inductionHypothesis]

end Slots

section Calls

variable {calls earlier later : List (Nat × Nat)} {tid fsBase : Nat}

theorem registered_append_singleton (calls : List (Nat × Nat)) (call : Nat × Nat) :
    registered (calls ++ [call]) = registerThreadFs call.1 call.2 (registered calls) := by
  simp [registered]

theorem arrivals_append_singleton (calls : List (Nat × Nat)) (call : Nat × Nat) :
    arrivals (calls ++ [call]) = arrive (arrivals calls) call.1 := by
  simp [arrivals]

theorem mem_arrive {tids : List Nat} {other : Nat} :
    other ∈ arrive tids tid ↔ other ∈ tids ∨ other = tid := by
  unfold arrive
  split
  next known => exact (or_iff_left_of_imp fun same => same ▸ known).symm
  next => simp

theorem mem_arrivals : tid ∈ arrivals calls ↔ ∃ call ∈ calls, call.1 = tid := by
  induction calls using List.reverseRecOn with
  | nil => simp [arrivals]
  | append_singleton calls call inductionHypothesis =>
    rw [arrivals_append_singleton, mem_arrive, inductionHypothesis]
    simp only [List.mem_append, List.mem_singleton, or_and_right, exists_or, exists_eq_left]
    exact or_congr_right eq_comm

theorem mem_take_arrive {tids : List Nat} {other : Nat} (different : other ≠ tid) :
    tid ∈ (arrive tids other).take 64 ↔ tid ∈ tids.take 64 := by
  unfold arrive
  split
  · rfl
  · rw [List.take_append, List.mem_append]
    refine or_iff_left fun member => different ?_
    exact (List.mem_singleton.mp (List.mem_of_mem_take member)).symm

theorem takeSlot_arrivals {tids : List Nat} (nonzero : ∀ owner ∈ tids, owner ≠ 0) (tid : Nat) :
    takeSlot tid (tids.take 64 ++ List.replicate (64 - tids.length) 0) =
      (arrive tids tid).take 64 ++ List.replicate (64 - (arrive tids tid).length) 0 := by
  have occupied : ∀ owner ∈ tids.take 64, owner ≠ 0 :=
    fun owner member => nonzero owner (List.mem_of_mem_take member)
  by_cases known : tid ∈ tids
  · rw [arrive, if_pos known]
    by_cases served : tid ∈ tids.take 64
    · exact takeSlot_of_mem occupied served _
    · have full : 64 - tids.length = 0 := by
        by_contra room
        rw [List.take_of_length_le (by omega)] at served
        exact served known
      rw [takeSlot_of_not_mem occupied served, full]
      rfl
  · have foreign : tid ∉ tids.take 64 := fun member => known (List.mem_of_mem_take member)
    rw [takeSlot_of_not_mem occupied foreign, arrive, if_neg known, List.length_append,
      List.length_singleton, List.take_append]
    by_cases room : tids.length < 64
    · obtain ⟨free, eq⟩ : ∃ free, 64 - tids.length = free + 1 := ⟨63 - tids.length, by omega⟩
      have rest : 64 - (tids.length + 1) = free := by omega
      simp [eq, rest, List.replicate_succ, takeSlot]
    · have full : 64 - tids.length = 0 := by omega
      have beyond : 64 - (tids.length + 1) = 0 := by omega
      simp [full, beyond, takeSlot]

/-- The first 64 threads have the first slots, and the others are empty. -/
theorem registered_owners (nonzero : ∀ call ∈ calls, call.1 ≠ 0) :
    (registered calls).map Prod.fst =
      (arrivals calls).take 64 ++ List.replicate (64 - (arrivals calls).length) 0 := by
  induction calls using List.reverseRecOn with
  | nil => decide
  | append_singleton calls call inductionHypothesis =>
    have before : ∀ call ∈ calls, call.1 ≠ 0 := fun other member => nonzero other (by simp [member])
    have owners : ∀ owner ∈ arrivals calls, owner ≠ 0 := by
      intro owner member
      obtain ⟨other, called, rfl⟩ := mem_arrivals.mp member
      exact before other called
    rw [registered_append_singleton, registerThreadFs_owners, inductionHypothesis before,
      takeSlot_arrivals owners, arrivals_append_singleton]

theorem mem_owners_iff (nonzero : ∀ call ∈ calls, call.1 ≠ 0) (thread : tid ≠ 0) :
    tid ∈ (registered calls).map Prod.fst ↔ tid ∈ (arrivals calls).take 64 := by
  rw [registered_owners nonzero, List.mem_append]
  exact or_iff_left fun empty => thread (List.eq_of_mem_replicate empty)

theorem registered_others (earlier : List (Nat × Nat)) (thread : tid ≠ 0) (others : ∀ call ∈ later, call.1 ≠ tid) :
    getThreadFs tid (registered (earlier ++ later)) = getThreadFs tid (registered earlier) ∧
      (tid ∈ (arrivals (earlier ++ later)).take 64 ↔ tid ∈ (arrivals earlier).take 64) := by
  induction later using List.reverseRecOn with
  | nil => simp
  | append_singleton later call inductionHypothesis =>
    have different : call.1 ≠ tid := others call (by simp)
    obtain ⟨same, served⟩ :=
      inductionHypothesis fun other member => others other (by simp [member])
    rw [← List.append_assoc, registered_append_singleton, arrivals_append_singleton]
    exact ⟨(getThreadFs_register_ne thread different).trans same,
      (mem_take_arrive different).trans served⟩

/-- The first 64 threads find the FS base of their last call, and all others find zero. -/
theorem getThreadFs_registered (nonzero : ∀ call ∈ calls, call.1 ≠ 0) :
    (∀ earlier tid fsBase later, calls = earlier ++ (tid, fsBase) :: later →
      (∀ call ∈ later, call.1 ≠ tid) →
        getThreadFs tid (registered calls) =
          if tid ∈ (arrivals calls).take 64 then fsBase else 0) ∧
    ∀ tid ≠ 0, (∀ call ∈ calls, call.1 ≠ tid) → getThreadFs tid (registered calls) = 0 := by
  refine ⟨fun earlier tid fsBase later all last => ?_, fun tid thread never => ?_⟩
  · have thread : tid ≠ 0 := nonzero (tid, fsBase) (by simp [all])
    have sofar : ∀ call ∈ earlier ++ [(tid, fsBase)], call.1 ≠ 0 :=
      fun call member => nonzero call
        (by rw [all, List.append_cons]; exact List.mem_append_left _ member)
    rw [List.append_cons] at all
    obtain ⟨same, served⟩ := registered_others (earlier ++ [(tid, fsBase)]) thread last
    have own := getThreadFs_register tid fsBase (registered earlier)
    rw [← registered_append_singleton earlier (tid, fsBase)] at own
    simp only [mem_owners_iff sofar thread] at own
    subst all
    rw [same, own]
    simp only [served]
  · have none := (registered_others [] thread never).1
    rw [List.nil_append] at none
    rw [none]
    exact getThreadFs_of_not_owner (by simp [registered, threadFsMap, thread])

end Calls

theorem getThreadFs_registered_again :
    getThreadFs 11 (registered [(11, 0x7000), (12, 0x8000), (11, 0x9000)]) = 0x9000 :=
  (getThreadFs_registered (by decide)).1 [(11, 0x7000), (12, 0x8000)] 11 0x9000 [] rfl (by simp)

/-- The 65th thread finds no FS base. -/
theorem getThreadFs_fails_full :
    ∃ calls : List (Nat × Nat), (∀ call ∈ calls, call.1 ≠ 0) ∧ (calls.map Prod.fst).Nodup ∧
      (65, 0x7000) ∈ calls ∧ getThreadFs 65 (registered calls) = 0 := by
  refine ⟨(List.range 65).map fun index => (index + 1, 0x7000), ?_, ?_, ?_, ?_⟩ <;> decide +kernel

end AnotherPs4
