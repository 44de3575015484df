import Listfile.Proofs.Commute
import Listfile.Proofs.Settling
import Listfile.Proofs.Sorting

/-!
Where a new file goes. What is opened for a file does not depend on the file, and what a choice
looks at is not touched by a file that was added. So a file goes where it would have gone before,
and the section that it goes to has it besides its old files.
-/

namespace Listfile

namespace Slot

theorem filterMap_modifySection (f : Section → Section) (n : Nat) (slots : List Slot) :
    (modifySection f n slots).filterMap section? = (slots.filterMap section?).modify n f := by
  induction slots generalizing n with
  | nil => simp [modifySection]
  | cons slot rest ih =>
    cases slot with
    | plain a => simpa [modifySection, section?, List.filterMap_cons] using ih n
    | grouped s =>
      cases n with
      | zero => simp [modifySection, section?]
      | succ n => simpa [modifySection, section?] using ih n

end Slot

theorem Address.sectionIndex_ne {place other : Address} (ne : place ≠ other)
    (h : place.statement = other.statement) : place.sectionIndex ≠ other.sectionIndex := by
  intro hi
  cases place
  cases other
  exact ne (congrArg₂ Address.mk h hi)

theorem Sources.sections_revise (n : Nat) (f : Section → Section) (s : Sources) :
    (s.revise none [] n f).sections = s.sections.modify n f :=
  Slot.filterMap_modifySection f n s.slots

namespace Placement

def filesAt (statements : List Sources) (place : Address) : List Argument :=
  ((section? statements place).map Section.files).getD []

def reviseAt (statements : List Sources) (place : Address) (f : Section → Section) :
    List Sources :=
  statements.modify place.statement (Sources.revise none [] place.sectionIndex f)

section ReviseAt

variable {statements : List Sources} {place other : Address} {f g : Section → Section}

theorem section?_reviseAt_self :
    Placement.section? (reviseAt statements place f) place = (section? statements place).map f := by
  simp only [section?, reviseAt, List.getElem?_modify]
  cases statements[place.statement]? with
  | none => rfl
  | some s => simp [Sources.sections_revise]

theorem section?_reviseAt_of_ne (ne : place ≠ other) :
    Placement.section? (reviseAt statements place f) other = section? statements other := by
  simp only [section?, reviseAt, List.getElem?_modify]
  cases statements[other.statement]? with
  | none => rfl
  | some s =>
    by_cases hs : place.statement = other.statement
    · simp [hs, Sources.sections_revise, Address.sectionIndex_ne ne hs]
    · simp [hs]

end ReviseAt

theorem filesAt_settled {candidates settled : List Sources} {file : Text} {wanted : Option Text}
    {separator : Text} {place : Address}
    (h : insertion candidates file wanted separator = .ok (settled, place)) (other : Address) :
    filesAt settled other = filesAt candidates other := by
  rcases insertion_cases h with ⟨rfl, -⟩ | ⟨earlier, s, later, name, rfl, rfl, -⟩
  · rfl
  rw [← modify_split earlier later s fun t => t.addSection name separator]
  simp only [filesAt, section?, List.getElem?_modify]
  cases (earlier ++ s :: later)[other.statement]? with
  | none => rfl
  | some t =>
    by_cases hs : earlier.length = other.statement
    · simp only [hs, if_true, Option.map_eq_map, Option.map_some, Option.bind_some,
        Sources.sections_addSection, List.getElem?_append]
      split
      · rfl
      · next hi =>
        have hnone : t.sections[other.sectionIndex]? = none :=
          List.getElem?_eq_none (Nat.not_lt.mp hi)
        rw [hnone]
        cases other.sectionIndex - t.sections.length <;> rfl
    · simp [hs]

end Placement

open Document

def Policy.grow (p : Policy) (file : Text) : Section → Section :=
  p.order ∘ appendFile p.separator file

/-- Whether a section can take a file: sorting refuses null characters. -/
def Policy.Accepts (p : Policy) (file : Text) (g : Section) : Prop :=
  p.sorting = true → (appendFile p.separator file g).isUnsortable = false

namespace Policy

variable {p : Policy} {file other : Text} {g : Section}

theorem values_grow (p : Policy) (file : Text) (g : Section) :
    ((p.grow file g).files.map (·.value)).Perm (g.files.map (·.value) ++ [file]) := by
  have happend : (appendFile p.separator file g).files.map (·.value) =
      g.files.map (·.value) ++ [file] := by
    simp [appendFile]
  rw [← happend, grow, Function.comp_apply, order]
  split
  · exact Section.values_sortFiles _ _
  · exact .refl _

theorem accepts_iff : p.Accepts file g ↔
    (p.sorting = true → ∀ value ∈ g.files.map (·.value) ++ [file], .char '\x00' ∉ value) := by
  simp [Accepts, Section.isUnsortable, appendFile, or_imp, forall_and]

theorem Accepts.swap (first : p.Accepts file g) (second : p.Accepts other (p.grow file g)) :
    p.Accepts other g ∧ p.Accepts file (p.grow other g) := by
  rw [accepts_iff] at first second
  have named : p.sorting = true → .char '\x00' ∉ file ∧ .char '\x00' ∉ other ∧
      ∀ value ∈ g.files.map (·.value), .char '\x00' ∉ value := by
    intro sorting
    have hfirst := first sorting
    have hsecond := second sorting
    refine ⟨hfirst file (by simp), hsecond other (by simp), fun value hvalue => ?_⟩
    exact hfirst value (List.mem_append_left _ hvalue)
  constructor
  · rw [accepts_iff]
    intro sorting value hvalue
    obtain ⟨-, hother, hold⟩ := named sorting
    rcases List.mem_append.mp hvalue with hvalue | hvalue
    · exact hold value hvalue
    · rwa [List.mem_singleton.mp hvalue]
  · rw [accepts_iff]
    intro sorting value hvalue
    obtain ⟨hfile, hother, hold⟩ := named sorting
    rcases List.mem_append.mp hvalue with hvalue | hvalue
    · rcases List.mem_append.mp ((p.values_grow other g).subset hvalue) with hvalue | hvalue
      · exact hold value hvalue
      · rwa [List.mem_singleton.mp hvalue]
    · rwa [List.mem_singleton.mp hvalue]

theorem files_grow_grow (unsorted : p.sorting = false) (file other : Text) (g : Section) :
    (p.grow other (p.grow file g)).files = g.files ++
      [⟨file, needsQuotation file, layoutAfter p.separator g, none⟩,
        ⟨other, needsQuotation other, inheritSeparator (layoutAfter p.separator g), none⟩] := by
  have happend : ∀ (name : Text) (sec : Section), (appendFile p.separator name sec).files =
      sec.files ++ [⟨name, needsQuotation name, layoutAfter p.separator sec, none⟩] :=
    fun name sec => rfl
  have hlayout : layoutAfter p.separator (appendFile p.separator file g) =
      inheritSeparator (layoutAfter p.separator g) := by
    simp only [layoutAfter, happend, List.getLast?_concat]
  simp only [grow, order_comp unsorted]
  rw [happend, hlayout, happend, List.append_assoc]
  rfl

section Sorted

variable (sorting : p.sorting = true)
include sorting

end Sorted

end Policy

namespace Document

def filesAt (d : Document) (target : Text) (place : Address) : List Argument :=
  Placement.filesAt (d.sourcesOf target) place

/-- The statements among which a new file is placed, and its place there. None for a document that
is not loaded, for an empty name and for want of a block. -/
def landing? (d : Document) (target file : Text) (hint : Option Text) :
    Option (List Sources × Address) :=
  if d.loaded = false ∨ file = [] ∨ d.sourcesOf target = [] ∧ d.policy.creating = false then none
  else
    (Placement.insertion ((d.prepared target).sourcesOf target) file (d.preferredSection? hint)
      d.policy.separator).toOption

def grown (d : Document) (target : Text) (statements : List Sources) (place : Address)
    (file : Text) : Document :=
  { d.withTarget target (Placement.reviseAt statements place (d.policy.grow file)) with
    dirty := true }.notify

variable {d : Document} {target file other : Text} {hint : Option Text}
  {statements : List Sources} {place : Address}

theorem insertion_of_landing (h : d.landing? target file hint = some (statements, place)) :
    Placement.insertion ((d.prepared target).sourcesOf target) file (d.preferredSection? hint)
      d.policy.separator = .ok (statements, place) := by
  unfold landing? at h
  split at h
  · cases h
  · generalize Placement.insertion _ _ _ _ = r at h ⊢
    cases r with
    | error fault => cases h
    | ok found => rw [Option.some.inj h]

theorem landing_own (h : d.landing? target file hint = some (statements, place)) :
    (∀ s ∈ statements, s.target = target) ∧
      statements.length = ((d.prepared target).sourcesOf target).length := by
  have hinsertion := insertion_of_landing h
  obtain ⟨choice, events, hchoose⟩ := Placement.exists_choose (d.sourcesOf_prepared_ne target) file
    (d.preferredSection? hint)
  rw [Placement.insertion, hchoose] at hinsertion
  have hsettle : Placement.settle ((d.prepared target).sourcesOf target) choice
      d.policy.separator = (statements, place) := Except.ok.inj hinsertion
  have own := settle_own (fun s hs => target_of_mem (d.prepared target) target hs) choice
    d.policy.separator
  rwa [hsettle] at own

theorem reviseAt_own (own : ∀ s ∈ statements, s.target = target) (place : Address)
    (f : Section → Section) : ∀ s ∈ Placement.reviseAt statements place f, s.target = target := by
  have kept : ∀ s : Sources, s.target = target →
      (s.revise none [] place.sectionIndex f).target = target :=
    fun s hs => (Sources.revise_target _ _ _ _ s).trans hs
  exact forall_mem_modify kept own _

theorem length_reviseAt (statements : List Sources) (place : Address) (f : Section → Section) :
    (Placement.reviseAt statements place f).length = statements.length :=
  List.length_modify _ _ _

section Grown

variable {first second : Address}

theorem filesAt_prepared (d : Document) (target : Text) (place : Address) :
    (d.prepared target).filesAt target place = d.filesAt target place := by
  by_cases hnil : d.sourcesOf target = []
  · have hblock : (d.withBlock target).sourcesOf target = [d.newBlock target] := by
      rw [sourcesOf_withBlock, hnil, List.nil_append]
    have hnone : Placement.section? [d.newBlock target] place = none := by
      unfold Placement.section?
      cases place.statement <;> rfl
    rw [filesAt, prepared_of_nil hnil, hblock, filesAt, hnil, Placement.filesAt, hnone]
    rfl
  · rw [prepared_of_ne hnil]

end Grown

end Document

end Listfile
