import Mathlib.Data.List.Pairwise
import Mathlib.Tactic

/-!
# Overlays

A partial function laid over a total one replaces its values where it is defined.
Where overlays are defined at different points, their order does not matter, and
laying them once more changes nothing.
-/

namespace Overlay

variable {α β : Type*}

/-- The values of `patch` where it has some, and those of `base` elsewhere. -/
def overlay (base : α → β) (patch : α → Option β) : α → β := fun x => (patch x).getD (base x)

def overlayAll (base : α → β) (patches : List (α → Option β)) : α → β := patches.foldl overlay base

def Apart (first second : α → Option β) : Prop := ∀ x, first x = none ∨ second x = none

theorem Apart.symm {first second : α → Option β} (apart : Apart first second) :
    Apart second first :=
  fun x => (apart x).symm

theorem Apart.eq_none {first second : α → Option β} (apart : Apart first second) {x : α} {y : β}
    (found : first x = some y) : second x = none :=
  (apart x).resolve_left (by simp [found])

variable {base : α → β} {patches : List (α → Option β)} {patch : α → Option β} {x : α} {y : β}

theorem overlay_of_none (absent : patch x = none) : overlay base patch x = base x := by
  rw [overlay, absent, Option.getD_none]

theorem overlay_of_some (found : patch x = some y) : overlay base patch x = y := by
  rw [overlay, found, Option.getD_some]

theorem overlayAll_of_none (absent : ∀ patch ∈ patches, patch x = none) :
    overlayAll base patches x = base x := by
  induction patches generalizing base with
  | nil => rfl
  | cons patch patches inductionHypothesis =>
    have first : overlay base patch x = base x := overlay_of_none (absent patch (.head _))
    rw [← first]
    exact inductionHypothesis fun other member => absent other (.tail _ member)

theorem overlayAll_of_some (apart : patches.Pairwise Apart) (member : patch ∈ patches)
    (found : patch x = some y) : overlayAll base patches x = y := by
  induction patches generalizing base with
  | nil => cases member
  | cons first patches inductionHypothesis =>
    rw [List.pairwise_cons] at apart
    rcases List.mem_cons.mp member with rfl | later
    · have kept : overlayAll (overlay base patch) patches x = overlay base patch x :=
        overlayAll_of_none fun other listed => (apart.1 other listed).eq_none found
      exact kept.trans (overlay_of_some found)
    · exact inductionHypothesis apart.2 later

/-- The result depends on which overlays there are, and where none has a value on the
base. -/
theorem overlayAll_congr {base' : α → β} {patches' : List (α → Option β)}
    (apart : patches.Pairwise Apart) (apart' : patches'.Pairwise Apart)
    (same : ∀ patch, patch ∈ patches ↔ patch ∈ patches')
    (outside : ∀ x, (∀ patch ∈ patches, patch x = none) → base x = base' x) :
    overlayAll base patches = overlayAll base' patches' := by
  funext x
  by_cases absent : ∀ patch ∈ patches, patch x = none
  · rw [overlayAll_of_none absent, overlayAll_of_none fun patch member => absent patch
      ((same patch).mpr member), outside x absent]
  · push Not at absent
    obtain ⟨patch, member, defined⟩ := absent
    obtain ⟨y, found⟩ := Option.ne_none_iff_exists'.mp defined
    rw [overlayAll_of_some apart member found,
      overlayAll_of_some apart' ((same patch).mp member) found]

theorem overlayAll_perm {patches' : List (α → Option β)} (apart : patches.Pairwise Apart)
    (order : patches.Perm patches') : overlayAll base patches = overlayAll base patches' :=
  overlayAll_congr apart (order.pairwise apart fun apart => apart.symm) (fun _ => order.mem_iff)
    fun _ _ => rfl

theorem overlayAll_overlayAll (apart : patches.Pairwise Apart) :
    overlayAll (overlayAll base patches) patches = overlayAll base patches :=
  overlayAll_congr apart apart (fun _ => Iff.rfl) fun _ absent => overlayAll_of_none absent

end Overlay
