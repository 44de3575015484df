import Listfile.Proofs.Destination

/-!
Adding two files in either order. Each goes to the section it would have gone to without the other,
and changes of different sections commute. In one section the two files follow one another as they
were added, or the order of the section settles where they stand, as far as it tells them apart.
-/

namespace Listfile

namespace Document

variable {d : Document} {target file other : Text} {hint : Option Text}
  {statements : List Sources} {place : Address}

def AcceptsAt (policy : Policy) (statements : List Sources) (place : Address) (file : Text) :
    Prop :=
  ∃ g, Placement.section? statements place = some g ∧ policy.Accepts file g

def editedTwice (d : Document) (target : Text) (given : List Sources) : Document :=
  { { d.withTarget target given with dirty := true }.notify with dirty := true }.notify

theorem AcceptsAt.swap {policy : Policy} {first second : Address}
    (h : AcceptsAt policy statements first file)
    (h' : AcceptsAt policy (Placement.reviseAt statements first (policy.grow file)) second other) :
    AcceptsAt policy statements second other ∧
      AcceptsAt policy (Placement.reviseAt statements second (policy.grow other)) first file := by
  obtain ⟨g, hg, accepted⟩ := h
  obtain ⟨g', hg', accepted'⟩ := h'
  by_cases hplace : first = second
  · subst hplace
    rw [Placement.section?_reviseAt_self, hg] at hg'
    cases hg'
    obtain ⟨hother, hfile⟩ := accepted.swap accepted'
    refine ⟨⟨g, hg, hother⟩, policy.grow other g, ?_, hfile⟩
    rw [Placement.section?_reviseAt_self, hg]
    rfl
  · rw [Placement.section?_reviseAt_of_ne hplace] at hg'
    refine ⟨⟨g', hg', accepted'⟩, g, ?_, accepted⟩
    rw [Placement.section?_reviseAt_of_ne (Ne.symm hplace), hg]

/-- Two files go to one section of a document, and this is what becomes of it when they are added
in one order and in the other. -/
def MeetAt (d last last' : Document) (target file other : Text) (hint : Option Text)
    (place : Address) : Prop :=
  ∃ statements g, d.landing? target file hint = some (statements, place) ∧
    d.landing? target other hint = some (statements, place) ∧
    Placement.section? statements place = some g ∧
    last = (d.prepared target).editedTwice target
      (Placement.reviseAt statements place (d.policy.grow other ∘ d.policy.grow file)) ∧
    last' = (d.prepared target).editedTwice target
      (Placement.reviseAt statements place (d.policy.grow file ∘ d.policy.grow other))

section Meet

variable {last last' : Document}

theorem sourcesOf_editedTwice (h : d.landing? target file hint = some (statements, place))
    (f : Section → Section) :
    ((d.prepared target).editedTwice target (Placement.reviseAt statements place f)).sourcesOf
      target = Placement.reviseAt statements place f := by
  obtain ⟨own, hlen⟩ := landing_own h
  exact sourcesOf_withTarget (reviseAt_own own _ _) ((length_reviseAt _ _ _).trans hlen)

theorem filesAt_editedTwice (h : d.landing? target file hint = some (statements, place))
    {g : Section} (there : Placement.section? statements place = some g) (f : Section → Section) :
    ((d.prepared target).editedTwice target
      (Placement.reviseAt statements place f)).filesAt target place = (f g).files := by
  rw [filesAt, sourcesOf_editedTwice h, Placement.filesAt, Placement.section?_reviseAt_self, there]
  rfl

/-- Without sorting, the two files follow the others in the order in which they were added, and the
layout stays with the place. -/
theorem MeetAt.files (h : d.MeetAt last last' target file other hint place)
    (unsorted : d.policy.sorting = false) :
    ∃ layout,
      last.filesAt target place = d.filesAt target place ++
        [⟨file, needsQuotation file, layout, none⟩,
          ⟨other, needsQuotation other, inheritSeparator layout, none⟩] ∧
      last'.filesAt target place = d.filesAt target place ++
        [⟨other, needsQuotation other, layout, none⟩,
          ⟨file, needsQuotation file, inheritSeparator layout, none⟩] := by
  obtain ⟨statements, g, lands, -, there, rfl, rfl⟩ := h
  have hold : d.filesAt target place = g.files := by
    rw [← filesAt_prepared, filesAt, ← Placement.filesAt_settled (insertion_of_landing lands),
      Placement.filesAt, there]
    rfl
  refine ⟨layoutAfter d.policy.separator g, ?_, ?_⟩
  · rw [filesAt_editedTwice lands there, hold]
    exact Policy.files_grow_grow unsorted file other g
  · rw [filesAt_editedTwice lands there, hold]
    exact Policy.files_grow_grow unsorted other file g

end Meet

end Document

open Document

end Listfile
