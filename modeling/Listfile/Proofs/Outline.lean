import Listfile.Placement

/-!
What the choice of a section looks at. Sections count by their names and by the directories they
were read with, in the order of the statements; files, layout, plain arguments and marks are passed
over. Statements of the same outline therefore send a new file to the same place.
-/

namespace Listfile

def Section.outline (g : Section) : Section := { name := g.name, directories := g.directories }

def Sources.outline (s : Sources) : Sources :=
  { s with slots := s.sections.map fun g => .grouped g.outline, dirty := false }

namespace Sources

@[simp] theorem sections_outline (s : Sources) :
    s.outline.sections = s.sections.map Section.outline := by
  have hsome : Slot.section? ∘ (fun g => .grouped g.outline) = some ∘ Section.outline := rfl
  simp only [outline]
  rw [sections, List.filterMap_map, hsome, List.filterMap_eq_map]

theorem findSection?_outline (s : Sources) (name : Text) :
    s.outline.findSection? name = s.findSection? name := by
  have walk : ∀ (groups : List Section) (n : Nat) (found : Option Nat),
      findSection?.go name n found (groups.map Section.outline) =
        findSection?.go name n found groups := by
    intro groups
    induction groups with
    | nil => exact fun n found => rfl
    | cons g groups ih => exact fun n found => ih (n + 1) _
  rw [findSection?, sections_outline, walk, findSection?]

end Sources

namespace Placement

variable (candidates : List Sources)

theorem allSections_outline :
    allSections (candidates.map Sources.outline) =
      (allSections candidates).map (Prod.map id Section.outline) := by
  have haddressed : ∀ (n : Nat) (s : Sources),
      addressed n s.outline = (addressed n s).map (Prod.map id Section.outline) := by
    intro n s
    apply List.ext_getElem?
    intro i
    simp [addressed, Function.comp_def]
  have hmap : (candidates.map Sources.outline).mapIdx addressed =
      (candidates.mapIdx addressed).map (List.map (Prod.map id Section.outline)) := by
    apply List.ext_getElem?
    intro i
    simp [haddressed, Function.comp_def]
  rw [allSections, hmap, ← List.map_flatten, allSections]

theorem eligible_outline (wanted : Option Text) :
    eligible wanted (candidates.map Sources.outline) =
      (eligible wanted candidates).map (Prod.map id Section.outline) := by
  cases wanted with
  | none => exact allSections_outline candidates
  | some name =>
    rw [eligible, allSections_outline, List.filter_map]
    rfl

theorem best?_outline (directory : Text) (sections : List (Address × Section)) :
    best? directory (sections.map (Prod.map id Section.outline)) = best? directory sections := by
  have walk : ∀ (best : Option Address) (score : Score),
      bestFrom directory best score (sections.map (Prod.map id Section.outline)) =
        bestFrom directory best score sections := by
    induction sections with
    | nil => exact fun best score => rfl
    | cons p rest ih =>
      intro best score
      simp only [List.map_cons, bestFrom, ih]
      rfl
  exact walk none .noFiles

theorem firstNamed?_outline (name : Text) (passed : Nat) :
    firstNamed? name passed (candidates.map Sources.outline) =
      firstNamed? name passed candidates := by
  induction candidates generalizing passed with
  | nil => rfl
  | cons s rest ih => simp only [List.map_cons, firstNamed?, Sources.findSection?_outline, ih]

theorem preferred?_outline :
    preferred? (candidates.map Sources.outline) =
      (preferred? candidates).map (Prod.map id Sources.outline) := by
  have hmap : (candidates.map Sources.outline).mapIdx Prod.mk =
      (candidates.mapIdx Prod.mk).map (Prod.map id Sources.outline) := by
    apply List.ext_getElem?
    intro i
    simp [Function.comp_def]
  rw [preferred?, hmap, List.find?_map]
  rfl

theorem namedIn_outline (n : Nat) (s : Sources) (name : Text) :
    namedIn n s.outline name = namedIn n s name := by
  rw [namedIn, Sources.findSection?_outline, namedIn]

theorem chooseByScore_outline (first : Sources) (file : Text) (wanted : Option Text) :
    chooseByScore first.outline (candidates.map Sources.outline) file wanted =
      chooseByScore first candidates file wanted := by
  have hlist : first.outline :: candidates.map Sources.outline =
      (first :: candidates).map Sources.outline := rfl
  simp only [chooseByScore, hlist, firstNamed?_outline, eligible_outline, best?_outline,
    namedIn_outline]
  rfl

/-- Where a file goes depends on outlines alone. -/
theorem choose_outline (file : Text) (wanted : Option Text) :
    choose (candidates.map Sources.outline) file wanted = choose candidates file wanted := by
  cases candidates with
  | nil => rfl
  | cons first rest =>
    have hlist : first.outline :: rest.map Sources.outline =
        (first :: rest).map Sources.outline := rfl
    simp only [List.map_cons, choose, chooseByScore_outline]
    rw [hlist, preferred?_outline]
    cases preferred? (first :: rest) with
    | none => rfl
    | some p => simp only [Option.map_some, Prod.map, namedIn_outline]; rfl

end Placement

end Listfile
