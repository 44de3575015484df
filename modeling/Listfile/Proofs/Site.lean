import Listfile.Proofs.Edit

/-!
The site of an edit. An edit reaches one section of one statement of its target, which stands there
or is opened for it, and leaves the statements and the slots around it alone. A file that is looked
for is the first of its name: none before the site has it.
-/

namespace Listfile

theorem Policy.order_unsorted {p : Policy} (h : p.sorting = false) (g : Section) :
    p.order g = g := by
  simp [order, h]

/-- A section among the slots of a statement, or one that is opened after all of them. -/
inductive Sources.Room (separator : Text) (s : Sources) :
    List Slot → Section → List Slot → Prop where
  | standing {left g right} : s.slots = left ++ .grouped g :: right → Room separator s left g right
  | opened {name} : s.preferred = true ∨ name = s.defaultSection → s.findSection? name = none →
      Room separator s s.slots (Section.opened name separator) []

/-- A section of one of several statements, with all that stands around it. -/
structure Site (separator : Text) (candidates : List Sources) where
  earlier : List Sources
  statement : Sources
  later : List Sources
  left : List Slot
  group : Section
  right : List Slot
  candidates_eq : candidates = earlier ++ statement :: later
  room : statement.Room separator left group right

def Site.edited {separator : Text} {candidates : List Sources} (x : Site separator candidates)
    (f : Section → Section) : Sources :=
  { x.statement with slots := x.left ++ .grouped (f x.group) :: x.right, dirty := true }

def Site.replaced {separator : Text} {candidates : List Sources} (x : Site separator candidates)
    (g : Section) : Sources :=
  { x.statement with slots := x.left ++ .grouped g :: x.right }

/-- Among statements a place names the section of a site, which has been opened there if need be. -/
structure Site.At {separator : Text} {candidates : List Sources} (x : Site separator candidates)
    (settled : List Sources) (place : Address) : Prop where
  statements : settled = x.earlier ++ x.replaced x.group :: x.later
  statement : x.earlier.length = place.statement
  sectionIndex : (x.left.filterMap Slot.section?).length = place.sectionIndex

/-- The site holds the first file of a name, between the other files of its section. -/
structure Site.Finds {separator : Text} {candidates : List Sources} (x : Site separator candidates)
    (file : Text) (before : List Argument) (a : Argument) (after : List Argument) : Prop where
  standing : x.statement.slots = x.left ++ .grouped x.group :: x.right
  files : x.group.files = before ++ a :: after
  value : a.value = file
  before : ∀ b ∈ before, b.value ≠ file
  left : ∀ g ∈ x.left.filterMap Slot.section?, ∀ b ∈ g.files, b.value ≠ file
  earlier : ∀ s ∈ x.earlier, ∀ g ∈ s.sections, ∀ b ∈ g.files, b.value ≠ file

namespace Slot

theorem modifySection_split (f : Section → Section) (left : List Slot) (g : Section)
    (right : List Slot) :
    modifySection f (left.filterMap section?).length (left ++ .grouped g :: right) =
      left ++ .grouped (f g) :: right := by
  induction left with
  | nil => rfl
  | cons slot left ih =>
    cases slot with
    | plain a => simpa [modifySection, section?, List.filterMap_cons] using ih
    | grouped s => simpa [modifySection, section?] using ih

theorem section?_eq_some {slot : Slot} {g : Section} (h : slot.section? = some g) :
    slot = .grouped g := by
  cases slot with
  | plain a => cases h
  | grouped s => cases h; rfl

theorem split_of_sections {slots : List Slot} {before after : List Section} {g : Section}
    (h : slots.filterMap section? = before ++ g :: after) :
    ∃ left right, slots = left ++ .grouped g :: right ∧ left.filterMap section? = before := by
  obtain ⟨left, rest, rfl, hleft, hrest⟩ := List.filterMap_eq_append_iff.mp h
  obtain ⟨plain, slot, right, rfl, hplain, hslot, -⟩ := List.filterMap_eq_cons_iff.mp hrest
  rw [section?_eq_some hslot]
  refine ⟨left ++ plain, right, by simp, ?_⟩
  rw [List.filterMap_append, hleft, List.filterMap_eq_nil_iff.mpr hplain, List.append_nil]

end Slot

namespace Placement

theorem mem_allSections {candidates : List Sources} {place : Address} {g : Section} :
    (place, g) ∈ allSections candidates ↔
      ∃ s, candidates[place.statement]? = some s ∧ s.sections[place.sectionIndex]? = some g := by
  simp only [allSections, List.mem_flatten, List.mem_mapIdx, addressed]
  constructor
  · rintro ⟨_, ⟨n, hn, rfl⟩, hmem⟩
    obtain ⟨i, hi, heq⟩ := List.mem_mapIdx.mp hmem
    cases heq
    exact ⟨_, List.getElem?_eq_getElem hn, List.getElem?_eq_getElem hi⟩
  · rintro ⟨s, hs, hg⟩
    obtain ⟨hn, rfl⟩ := List.getElem?_eq_some_iff.mp hs
    obtain ⟨hi, rfl⟩ := List.getElem?_eq_some_iff.mp hg
    exact ⟨_, ⟨place.statement, hn, rfl⟩, List.mem_mapIdx.mpr ⟨place.sectionIndex, hi, rfl⟩⟩

theorem split_addressed {n : Nat} {s : Sources} {place : Address} {g : Section}
    {before after : List (Address × Section)}
    (h : addressed n s = before ++ (place, g) :: after) :
    n = place.statement ∧ ∃ left right, s.slots = left ++ .grouped g :: right ∧
      (left.filterMap Slot.section?).length = place.sectionIndex ∧
      before.map (·.2) = left.filterMap Slot.section? := by
  obtain ⟨front, back, hsections, hfront, hback⟩ := List.mapIdx_eq_append_iff.mp h
  obtain ⟨g', back', rfl, hplace, -⟩ := List.mapIdx_eq_cons_iff.mp hback
  cases hplace
  obtain ⟨left, right, hslots, hleft⟩ := Slot.split_of_sections hsections
  refine ⟨rfl, left, right, hslots, by simp [hleft], ?_⟩
  rw [hleft, ← hfront]
  simp [List.mapIdx_eq_zipIdx_map, Function.comp_def]

/-- The sections before one of them: all those of the statements before its own, and those before
it there. -/
theorem split_allSections {candidates : List Sources} {place : Address} {g : Section}
    {before after : List (Address × Section)}
    (h : allSections candidates = before ++ (place, g) :: after) :
    ∃ earlier s later left right, candidates = earlier ++ s :: later ∧
      s.slots = left ++ .grouped g :: right ∧ earlier.length = place.statement ∧
      (left.filterMap Slot.section?).length = place.sectionIndex ∧
      before.map (·.2) = earlier.flatMap Sources.sections ++ left.filterMap Slot.section? := by
  -- The statements are counted on from any number.
  suffices general : ∀ (candidates : List Sources) (n : Nat) (before : List (Address × Section)),
      (candidates.mapIdx fun i s => addressed (n + i) s).flatten =
        before ++ (place, g) :: after →
      ∃ earlier s later left right, candidates = earlier ++ s :: later ∧
        s.slots = left ++ .grouped g :: right ∧ n + earlier.length = place.statement ∧
        (left.filterMap Slot.section?).length = place.sectionIndex ∧
        before.map (·.2) = earlier.flatMap Sources.sections ++ left.filterMap Slot.section? by
    have := general candidates 0 before (by simpa [allSections] using h)
    simpa using this
  intro candidates
  induction candidates with
  | nil =>
    intro n before h
    simp at h
  | cons s rest ih =>
    intro n before h
    have hnext : (fun i s => addressed (n + (i + 1)) s) = fun i s => addressed (n + 1 + i) s := by
      funext i s
      congr 1
      omega
    rw [List.mapIdx_cons, List.flatten_cons, hnext] at h
    have passed : ∀ more, before = addressed n s ++ more →
        (rest.mapIdx fun i s => addressed (n + 1 + i) s).flatten = more ++ (place, g) :: after →
        ∃ earlier t later left right, s :: rest = earlier ++ t :: later ∧
          t.slots = left ++ .grouped g :: right ∧ n + earlier.length = place.statement ∧
          (left.filterMap Slot.section?).length = place.sectionIndex ∧
          before.map (·.2) =
            earlier.flatMap Sources.sections ++ left.filterMap Slot.section? := by
      intro more hbefore hmore
      obtain ⟨earlier, t, later, left, right, rfl, hslots, hn, hi, hmap⟩ := ih (n + 1) more hmore
      refine ⟨s :: earlier, t, later, left, right, rfl, hslots, ?_, hi, ?_⟩
      · rw [List.length_cons]
        omega
      · rw [hbefore, List.map_append, hmap, List.flatMap_cons, List.append_assoc]
        congr 1
        simp [addressed, List.mapIdx_eq_zipIdx_map, Function.comp_def]
    rcases List.append_eq_append_iff.mp h with ⟨more, hbefore, hmore⟩ | ⟨inner, hs, hrest⟩
    · exact passed more hbefore hmore
    · cases inner with
      | nil => exact passed [] (by simpa using hs.symm) (by simpa using hrest.symm)
      | cons p inner =>
        rw [List.cons_append, List.cons.injEq] at hrest
        rw [← hrest.1] at hs
        obtain ⟨hn, left, right, hslots, hi, hmap⟩ := split_addressed hs
        exact ⟨[], s, rest, left, right, rfl, hslots, hn, hi, by simpa using hmap⟩

theorem exists_mem_of_best? {directory : Text} {sections : List (Address × Section)}
    {place : Address} (h : best? directory sections = some place) :
    ∃ g, (place, g) ∈ sections := by
  have walk : ∀ (sections : List (Address × Section)) (best : Option Address) (score : Score),
      bestFrom directory best score sections = some place →
        best = some place ∨ ∃ g, (place, g) ∈ sections := by
    intro sections
    induction sections with
    | nil => exact fun best score hb => Or.inl hb
    | cons p rest ih =>
      intro best score hb
      have skipped : (∃ g, (place, g) ∈ rest) → ∃ g, (place, g) ∈ p :: rest :=
        fun ⟨g, hg⟩ => ⟨g, List.mem_cons_of_mem p hg⟩
      rw [bestFrom] at hb
      split at hb
      · cases hb
        exact Or.inr ⟨p.2, List.mem_cons_self⟩
      split at hb
      · rcases ih _ _ hb with heq | hmem
        · cases heq
          exact Or.inr ⟨p.2, List.mem_cons_self⟩
        · exact Or.inr (skipped hmem)
      · exact (ih _ _ hb).imp_right skipped
  rcases walk sections none .noFiles h with hnone | hmem
  · cases hnone
  · exact hmem

theorem exists_section_of_findSection? {s : Sources} {name : Text} {n : Nat}
    (h : s.findSection? name = some n) : ∃ g, s.sections[n]? = some g := by
  have walk : ∀ (groups : List Section) (passed : Nat) (found : Option Nat),
      Sources.findSection?.go name passed found groups = some n →
        found = some n ∨ ∃ i g, n = passed + i ∧ groups[i]? = some g := by
    intro groups
    induction groups with
    | nil => exact fun passed found hf => Or.inl hf
    | cons g groups ih =>
      intro passed found hf
      rcases ih _ _ hf with hfound | ⟨i, g', rfl, hg'⟩
      · by_cases hname : g.name = name.upper
        · rw [if_pos hname] at hfound
          cases hfound
          exact Or.inr ⟨0, g, rfl, rfl⟩
        · rw [if_neg hname] at hfound
          exact Or.inl hfound
      · exact Or.inr ⟨i + 1, g', by omega, hg'⟩
  rcases walk s.sections 0 none h with hnone | ⟨i, g, rfl, hg⟩
  · cases hnone
  · exact ⟨g, by simpa using hg⟩

theorem exists_mem_of_firstNamed? {candidates : List Sources} {name : Text} {place : Address}
    (h : firstNamed? name 0 candidates = some place) :
    ∃ g, (place, g) ∈ allSections candidates := by
  have walk : ∀ (candidates : List Sources) (passed : Nat),
      firstNamed? name passed candidates = some place →
        ∃ i s, place.statement = passed + i ∧ candidates[i]? = some s ∧
          s.findSection? name = some place.sectionIndex := by
    intro candidates
    induction candidates with
    | nil =>
      intro passed hf
      cases hf
    | cons s rest ih =>
      intro passed hf
      rw [firstNamed?] at hf
      split at hf
      · next n hn =>
        cases hf
        exact ⟨0, s, rfl, rfl, hn⟩
      · obtain ⟨i, t, hi, ht, hfind⟩ := ih _ hf
        exact ⟨i + 1, t, by omega, ht, hfind⟩
  obtain ⟨i, s, hi, hs, hfind⟩ := walk candidates 0 h
  obtain ⟨g, hg⟩ := exists_section_of_findSection? hfind
  refine ⟨g, mem_allSections.mpr ⟨s, ?_, hg⟩⟩
  rw [hi, Nat.zero_add, hs]

theorem getElem?_of_preferred? {candidates : List Sources} {n : Nat} {s : Sources}
    (h : preferred? candidates = some (n, s)) : candidates[n]? = some s := by
  obtain ⟨i, hi, heq⟩ := List.mem_mapIdx.mp (List.mem_of_find?_eq_some h)
  cases heq
  exact List.getElem?_eq_getElem hi

theorem exists_mem_of_namedIn {candidates : List Sources} {n : Nat} {s : Sources} {name : Text}
    {place : Address} (hs : candidates[n]? = some s)
    (h : namedIn n s name = .existing place) : ∃ g, (place, g) ∈ allSections candidates := by
  unfold namedIn at h
  split at h
  · next i hi =>
    cases h
    obtain ⟨g, hg⟩ := exists_section_of_findSection? hi
    exact ⟨g, mem_allSections.mpr ⟨s, hs, hg⟩⟩
  · cases h

theorem exists_choose {candidates : List Sources} (some_ : candidates ≠ []) (file : Text)
    (wanted : Option Text) :
    ∃ choice events, choose candidates file wanted = .ok (choice, events) := by
  cases candidates with
  | nil => exact absurd rfl some_
  | cons first rest =>
    unfold choose
    simp only
    split
    · exact ⟨_, _, rfl⟩
    · exact ⟨_, _, rfl⟩

theorem exists_mem_of_choose {candidates : List Sources} {file : Text} {wanted : Option Text}
    {place : Address} {events : List Event}
    (h : choose candidates file wanted = .ok (.existing place, events)) :
    ∃ g, (place, g) ∈ allSections candidates := by
  unfold choose at h
  split at h
  · cases h
  next first rest =>
  split at h
  · next n s hp =>
    simp only [Except.ok.injEq, Prod.mk.injEq] at h
    exact exists_mem_of_namedIn (getElem?_of_preferred? hp) h.1
  simp only [Except.ok.injEq] at h
  unfold chooseByScore at h
  simp only at h
  split at h
  · next found hbest =>
    cases h
    obtain ⟨g, hg⟩ := exists_mem_of_best? hbest
    refine ⟨g, ?_⟩
    unfold eligible at hg
    split at hg
    · exact hg
    · exact List.mem_of_mem_filter hg
  split at h
  · next found hnamed =>
    cases h
    obtain ⟨name, -, hfirst⟩ := Option.bind_eq_some_iff.mp hnamed
    exact exists_mem_of_firstNamed? hfirst
  split at h
  · next found hnamed =>
    cases h
    exact exists_mem_of_namedIn (n := 0) rfl hnamed
  · cases h

end Placement

theorem modify_split {α : Type} (before after : List α) (a : α) (f : α → α) :
    (before ++ a :: after).modify before.length f = before ++ f a :: after := by
  induction before with
  | nil => rfl
  | cons b before ih => simpa using ih

theorem split_of_getElem? {α : Type} {l : List α} {n : Nat} {a : α} (h : l[n]? = some a) :
    ∃ before after, l = before ++ a :: after ∧ before.length = n := by
  obtain ⟨hn, rfl⟩ := List.getElem?_eq_some_iff.mp h
  exact ⟨l.take n, l.drop (n + 1), by simp, by simp; omega⟩

namespace Site

variable {separator : Text} {candidates : List Sources}

theorem statement_mem (x : Site separator candidates) : x.statement ∈ candidates := by
  have hmem : x.statement ∈ x.earlier ++ x.statement :: x.later := by simp
  rwa [← x.candidates_eq] at hmem

theorem replaced_of_standing {x : Site separator candidates}
    (h : x.statement.slots = x.left ++ .grouped x.group :: x.right) :
    x.replaced x.group = x.statement := by
  rw [replaced, ← h]

namespace At

variable {x : Site separator candidates} {settled : List Sources} {place : Address}

theorem modify (h : x.At settled place) (f : Section → Section) :
    settled.modify place.statement (fun s => s.modifySection place.sectionIndex f) =
      x.earlier ++ x.replaced (f x.group) :: x.later := by
  rw [h.statements, ← h.statement, modify_split, ← h.sectionIndex]
  simp only [Sources.modifySection, replaced, Slot.modifySection_split]

theorem revise (h : x.At settled place) (f : Section → Section) :
    settled.modify place.statement (Sources.revise none [] place.sectionIndex f) =
      x.earlier ++ x.edited f :: x.later := by
  rw [h.statements, ← h.statement, modify_split, ← h.sectionIndex]
  simp only [Sources.revise, Sources.modifySection, replaced, Slot.modifySection_split, edited]

theorem section?_replaced (h : x.At settled place) (g : Section) :
    Placement.section? (x.earlier ++ x.replaced g :: x.later) place = some g := by
  have hsections : (x.replaced g).sections =
      x.left.filterMap Slot.section? ++ g :: x.right.filterMap Slot.section? := by
    simp [Sources.sections, replaced, Slot.section?]
  simp [Placement.section?, ← h.statement, ← h.sectionIndex, hsections]

theorem section? (h : x.At settled place) : Placement.section? settled place = some x.group := by
  have := h.section?_replaced x.group
  rwa [← h.statements] at this

end At

theorem exists_standing (separator : Text) {place : Address} {g : Section}
    {before after : List (Address × Section)}
    (h : Placement.allSections candidates = before ++ (place, g) :: after) :
    ∃ x : Site separator candidates,
      x.statement.slots = x.left ++ .grouped x.group :: x.right ∧ x.group = g ∧
      before.map (·.2) = x.earlier.flatMap Sources.sections ++ x.left.filterMap Slot.section? ∧
      x.At candidates place := by
  obtain ⟨earlier, s, later, left, right, rfl, hslots, hn, hi, hbefore⟩ :=
    Placement.split_allSections h
  let x : Site separator (earlier ++ s :: later) :=
    ⟨earlier, s, later, left, g, right, rfl, .standing hslots⟩
  have hstatement : x.replaced x.group = s := replaced_of_standing hslots
  exact ⟨x, hslots, rfl, hbefore, by rw [hstatement], hn, hi⟩

/-- What a choice settles on is a site. -/
theorem exists_settled {file : Text} {wanted : Option Text} {choice : Choice}
    {events : List Event} (h : Placement.choose candidates file wanted = .ok (choice, events))
    (separator : Text) :
    ∃ x : Site separator candidates,
      x.At (Placement.settle candidates choice separator).1
        (Placement.settle candidates choice separator).2 := by
  cases choice with
  | existing place =>
    obtain ⟨g, hg⟩ := Placement.exists_mem_of_choose h
    obtain ⟨before, after, hsplit⟩ := List.append_of_mem hg
    obtain ⟨x, -, -, -, hat⟩ := exists_standing separator hsplit
    exact ⟨x, hat⟩
  | fresh n name =>
    obtain ⟨s, hs, hname, hmissing⟩ := Document.choose_fresh h
    obtain ⟨earlier, later, rfl, rfl⟩ := split_of_getElem? hs
    refine ⟨⟨earlier, s, later, s.slots, Section.opened name separator, [], rfl,
      .opened hname hmissing⟩, ?_, rfl, ?_⟩
    · rw [Placement.settle, modify_split]
      rfl
    · simp [Placement.settle, Sources.sections]

end Site

theorem Section.split_of_indexOf? {g : Section} {file : Text} {k : Nat}
    (h : g.indexOf? file = some k) :
    ∃ before a after, g.files = before ++ a :: after ∧ a.value = file ∧
      (∀ b ∈ before, b.value ≠ file) ∧ before.length = k := by
  obtain ⟨hk, hvalue, hbefore⟩ := List.findIdx?_eq_some_iff_getElem.mp h
  refine ⟨g.files.take k, g.files[k], g.files.drop (k + 1), by simp, ?_, ?_, by simp; omega⟩
  · simpa [Argument.matchesValue] using hvalue
  · intro b hb
    obtain ⟨i, hi, rfl⟩ := List.getElem_of_mem hb
    have hlt : i < k := by
      rw [List.length_take] at hi
      omega
    simpa [Argument.matchesValue] using hbefore i hlt

theorem Section.ne_of_indexOf? {g : Section} {file : Text} (h : g.indexOf? file = none) :
    ∀ a ∈ g.files, a.value ≠ file := by
  intro a ha
  simpa [Argument.matchesValue] using List.findIdx?_eq_none_iff.mp h a ha

namespace Document

theorem findFile?_eq_none {candidates : List Sources} {file : Text}
    (h : findFile? candidates file = none) :
    ∀ s ∈ candidates, ∀ g ∈ s.sections, ∀ a ∈ g.files, a.value ≠ file := by
  intro s hs g hg
  obtain ⟨n, hn, rfl⟩ := List.getElem_of_mem hs
  obtain ⟨i, hi, rfl⟩ := List.getElem_of_mem hg
  have hmem : ((⟨n, i⟩ : Address), candidates[n].sections[i]) ∈
      Placement.allSections candidates :=
    Placement.mem_allSections.mpr
      ⟨_, List.getElem?_eq_getElem hn, List.getElem?_eq_getElem hi⟩
  have hnone := List.findSome?_eq_none_iff.mp h _ hmem
  exact Section.ne_of_indexOf? (Option.map_eq_none_iff.mp hnone)

/-- The first file of a name is found at a site. -/
theorem exists_found (separator : Text) {candidates : List Sources} {file : Text}
    {place : Address} {k : Nat} (h : findFile? candidates file = some (place, k)) :
    ∃ (x : Site separator candidates) (before : List Argument) (a : Argument)
      (after : List Argument), x.Finds file before a after ∧ before.length = k ∧
      x.At candidates place := by
  obtain ⟨passed, ⟨at_, g⟩, rest, hsplit, hfound, hpassed⟩ := List.findSome?_eq_some_iff.mp h
  obtain ⟨n, hindex, hplace⟩ := Option.map_eq_some_iff.mp hfound
  cases hplace
  obtain ⟨x, hstanding, rfl, hbefore, hat⟩ := Site.exists_standing separator hsplit
  obtain ⟨before, a, after, hfiles, hvalue, hfirst, hk⟩ := Section.split_of_indexOf? hindex
  -- The sections before the one found were searched in vain.
  have missed : ∀ t ∈ x.earlier.flatMap Sources.sections ++ x.left.filterMap Slot.section?,
      ∀ b ∈ t.files, b.value ≠ file := by
    intro t ht
    rw [← hbefore] at ht
    obtain ⟨p, hp, rfl⟩ := List.mem_map.mp ht
    exact Section.ne_of_indexOf? (Option.map_eq_none_iff.mp (hpassed p hp))
  refine ⟨x, before, a, after, ⟨hstanding, hfiles, hvalue, hfirst, ?_, ?_⟩, hk, hat⟩
  · intro t ht
    exact missed t (List.mem_append_right _ ht)
  · intro s hs t ht
    exact missed t (List.mem_append_left _ (List.mem_flatMap.mpr ⟨s, hs, ht⟩))

theorem target_statement (d : Document) (target : Text) {separator : Text}
    (x : Site separator (d.sourcesOf target)) : x.statement.target = target := by
  simpa using (List.mem_filter.mp x.statement_mem).2

def editAt (d : Document) (target : Text) {separator : Text}
    (x : Site separator (d.sourcesOf target)) (f : Section → Section) : Document :=
  { d.withTarget target (x.earlier ++ x.edited f :: x.later) with dirty := true }.notify

def leaveAt (d : Document) (target : Text) {separator : Text}
    (x : Site separator (d.sourcesOf target)) (f : Section → Section) : Document :=
  d.withTarget target (x.earlier ++ x.replaced (f x.group) :: x.later)

/-- What comes of a change at a site: it is carried out, or it stops half-way because the policy
sorts and the section cannot be sorted. -/
inductive Changes (d : Document) (target : Text) {separator : Text}
    (x : Site separator (d.sourcesOf target)) (f : Section → Section) (r : Reply Document Bool) :
    Prop where
  | done (sortable : d.policy.sorting = true → (f x.group).isUnsortable = false)
      (answer : r.result = .ok true) (state : r.state = d.editAt target x (d.policy.order ∘ f))
  | stuck (sorting : d.policy.sorting = true) (unsortable : (f x.group).isUnsortable = true)
      (answer : r.result = .error .nullInValue) (state : r.state = d.leaveAt target x f)

theorem changeSection_changes (d : Document) (target : Text) {separator : Text}
    {x : Site separator (d.sourcesOf target)} {candidates : List Sources} {place : Address}
    (h : x.At candidates place) (f : Section → Section) (events : List Event) :
    d.Changes target x f (d.changeSection target candidates place f events) := by
  have hsection : Placement.section? (candidates.modify place.statement fun s =>
      s.modifySection place.sectionIndex f) place = some (f x.group) := by
    rw [h.modify, h.section?_replaced]
  by_cases hstuck : d.policy.sorting = true ∧ (f x.group).isUnsortable = true
  · have herr : d.changeSection target candidates place f events =
        ⟨d.leaveAt target x f, .error .nullInValue, events⟩ := by
      simp only [changeSection, h.modify, h.section?_replaced, Option.any_some, hstuck.1,
        hstuck.2, Bool.and_self, if_true, leaveAt]
    exact .stuck hstuck.1 hstuck.2 (by rw [herr]) (by rw [herr])
  · rcases changeSection_cases d target candidates place f events with herr | ⟨hok, hstate⟩
    · exfalso
      simp only [changeSection, hsection, Option.any_some, Bool.and_eq_true, hstuck, if_false,
        reduceCtorEq] at herr
    · refine .done (fun sorting => ?_) hok (by rw [hstate, h.revise, editAt])
      simpa [sorting] using hstuck

theorem addTo_changes {d : Document} {target : Text} (some_ : d.sourcesOf target ≠ [])
    (file : Text) (hint : Option Text) (events : List Event) :
    ∃ choice chosen, Placement.choose (d.sourcesOf target) file (d.preferredSection? hint) =
        .ok (choice, chosen) ∧
      ∃ x : Site d.policy.separator (d.sourcesOf target),
        x.At (Placement.settle (d.sourcesOf target) choice d.policy.separator).1
          (Placement.settle (d.sourcesOf target) choice d.policy.separator).2 ∧
        d.Changes target x (appendFile d.policy.separator file)
          (d.addTo target file hint events) := by
  obtain ⟨choice, chosen, hchoose⟩ :=
    Placement.exists_choose some_ file (d.preferredSection? hint)
  obtain ⟨x, hat⟩ := Site.exists_settled hchoose d.policy.separator
  refine ⟨choice, chosen, hchoose, x, hat, ?_⟩
  simp only [addTo, hchoose]
  exact d.changeSection_changes target hat _ _

theorem addTo_editAt {d : Document} {target : Text} (some_ : d.sourcesOf target ≠ [])
    (file : Text) (hint : Option Text) (events : List Event) :
    (d.policy.sorting = true ∧ ∃ fault, (d.addTo target file hint events).result = .error fault) ∨
    (d.addTo target file hint events).result = .ok true ∧
      ∃ x : Site d.policy.separator (d.sourcesOf target),
        (d.addTo target file hint events).state =
          d.editAt target x (d.policy.order ∘ appendFile d.policy.separator file) := by
  obtain ⟨-, -, -, x, -, changes⟩ := addTo_changes some_ file hint events
  cases changes with
  | done _ answer state => exact Or.inr ⟨answer, x, state⟩
  | stuck sorting _ answer _ => exact Or.inl ⟨sorting, _, answer⟩

def withBlock (d : Document) (target : Text) : Document :=
  { d with pending := d.pending ++ [d.newBlock target] }

theorem sources_withBlock (d : Document) (target : Text) :
    (d.withBlock target).sources = d.sources ++ [d.newBlock target] := by
  simp [withBlock, sources]

theorem items_withBlock (d : Document) (target : Text) :
    (d.withBlock target).items = d.items ++ [.listing (d.newBlock target)] := by
  simp [items, withBlock]

theorem sourcesOf_withBlock (d : Document) (target : Text) :
    (d.withBlock target).sourcesOf target = d.sourcesOf target ++ [d.newBlock target] := by
  simp [sourcesOf, sources_withBlock, newBlock]

/-- Adding a file edits a site, in a new block if the target has no sources. It is refused for a
document that is not loaded, for an empty name, and for want of a block. -/
theorem addFile_editAt (d : Document) (target file : Text) (hint : Option Text) :
    (d.policy.sorting = true ∧ ∃ fault, (d.addFile target file hint).result = .error fault) ∨
    ((d.addFile target file hint).result = .ok false ∧ (d.addFile target file hint).state = d ∧
      (d.loaded = false ∨ file = [] ∨ (d.sourcesOf target = [] ∧ d.policy.creating = false))) ∨
    ((d.addFile target file hint).result = .ok true ∧ d.sourcesOf target ≠ [] ∧
      ∃ x : Site d.policy.separator (d.sourcesOf target),
        (d.addFile target file hint).state =
          d.editAt target x (d.policy.order ∘ appendFile d.policy.separator file)) ∨
    ((d.addFile target file hint).result = .ok true ∧ d.sourcesOf target = [] ∧
      d.policy.creating = true ∧
      ∃ x : Site d.policy.separator ((d.withBlock target).sourcesOf target),
        (d.addFile target file hint).state =
          (d.withBlock target).editAt target x
            (d.policy.order ∘ appendFile d.policy.separator file)) := by
  unfold addFile
  split
  · next hloaded => exact Or.inr (Or.inl ⟨rfl, rfl, Or.inl (by simpa using hloaded)⟩)
  split
  · next hfile => exact Or.inr (Or.inl ⟨rfl, rfl, Or.inr (Or.inl (by simpa using hfile))⟩)
  split
  · next hsome =>
    have hne : d.sourcesOf target ≠ [] := by simpa using hsome
    rcases addTo_editAt hne file hint [] with herr | ⟨hok, x, hstate⟩
    · exact Or.inl herr
    · exact Or.inr (Or.inr (Or.inl ⟨hok, hne, x, hstate⟩))
  next hnone =>
  have hnil : d.sourcesOf target = [] := by simpa using hnone
  split
  · next hcreating =>
    have hne : (d.withBlock target).sourcesOf target ≠ [] := by simp [sourcesOf_withBlock]
    rcases addTo_editAt hne file hint [.blockCreated Classify.targetSources target] with
      herr | ⟨hok, x, hstate⟩
    · exact Or.inl herr
    · exact Or.inr (Or.inr (Or.inr ⟨hok, hnil, hcreating, x, hstate⟩))
  · next hcreating =>
    exact Or.inr (Or.inl ⟨rfl, rfl, Or.inr (Or.inr ⟨hnil, by simpa using hcreating⟩)⟩)

theorem changeFile_changes (d : Document) (target file : Text) (f : Nat → Section → Section) :
    ((d.changeFile target file f).result = .ok false ∧ (d.changeFile target file f).state = d ∧
      findFile? (d.sourcesOf target) file = none) ∨
    ∃ place, ∃ (x : Site d.policy.separator (d.sourcesOf target)) (before : List Argument)
      (a : Argument) (after : List Argument),
      findFile? (d.sourcesOf target) file = some (place, before.length) ∧
      x.At (d.sourcesOf target) place ∧ x.Finds file before a after ∧
      d.Changes target x (f before.length) (d.changeFile target file f) := by
  unfold changeFile
  simp only
  split
  · next hempty =>
    have hnil : d.sourcesOf target = [] := by simpa using hempty
    exact Or.inl ⟨rfl, rfl, by rw [hnil]; rfl⟩
  split
  · next hnone => exact Or.inl ⟨rfl, rfl, hnone⟩
  · next place k hfound =>
    obtain ⟨x, before, a, after, finds, rfl, hat⟩ := exists_found d.policy.separator hfound
    exact Or.inr ⟨place, x, before, a, after, hfound, hat, finds,
      d.changeSection_changes target hat _ _⟩

theorem changeFile_editAt (d : Document) (target file : Text) (f : Nat → Section → Section) :
    (d.policy.sorting = true ∧ ∃ fault, (d.changeFile target file f).result = .error fault) ∨
    ((d.changeFile target file f).result = .ok false ∧ (d.changeFile target file f).state = d ∧
      ∀ s ∈ d.sourcesOf target, ∀ g ∈ s.sections, ∀ a ∈ g.files, a.value ≠ file) ∨
    ((d.changeFile target file f).result = .ok true ∧
      ∃ (x : Site d.policy.separator (d.sourcesOf target)) (before : List Argument) (a : Argument)
        (after : List Argument), x.Finds file before a after ∧
        (d.changeFile target file f).state =
          d.editAt target x (d.policy.order ∘ f before.length)) := by
  rcases changeFile_changes d target file f with ⟨hno, hstate, hnone⟩ |
    ⟨-, x, before, a, after, -, -, finds, changes⟩
  · exact Or.inr (Or.inl ⟨hno, hstate, findFile?_eq_none hnone⟩)
  cases changes with
  | done _ answer state => exact Or.inr (Or.inr ⟨answer, x, before, a, after, finds, state⟩)
  | stuck sorting _ answer _ => exact Or.inl ⟨sorting, _, answer⟩

theorem removeFile_of_loaded {d : Document} (loaded : d.loaded = true) (target file : Text) :
    d.removeFile target file = d.changeFile target file removeAt := by
  rw [removeFile, loaded]
  rfl

theorem renameFile_of_loaded {d : Document} (loaded : d.loaded = true) (target old : Text)
    {new : Text} (hnew : new ≠ []) :
    d.renameFile target old new = d.changeFile target old (renameAt new) := by
  rw [renameFile, loaded, if_neg (by decide), if_neg (by simpa using hnew)]
  rfl

theorem restoreTarget_self (target : Text) (all : List Sources) :
    restoreTarget target all (all.filter fun s => s.target = target) = all := by
  induction all with
  | nil => rfl
  | cons s rest ih =>
    by_cases ht : s.target = target
    · simp [restoreTarget, ht, ih]
    · simp [restoreTarget, ht, ih]

theorem restoreTarget_split {target : Text} {all earlier later : List Sources} {s : Sources}
    (h : (all.filter fun s => s.target = target) = earlier ++ s :: later) (s' : Sources) :
    ∃ before after, all = before ++ s :: after ∧
      restoreTarget target all (earlier ++ s' :: later) = before ++ s' :: after ∧
      (before.filter fun s => s.target = target) = earlier ∧
      (after.filter fun s => s.target = target) = later := by
  induction all generalizing earlier with
  | nil => simp at h
  | cons c rest ih =>
    by_cases ht : c.target = target
    · rw [List.filter_cons_of_pos (by simpa using ht)] at h
      cases earlier with
      | nil =>
        obtain ⟨rfl, rfl⟩ : c = s ∧ (rest.filter fun s => s.target = target) = later := by
          simpa using h
        refine ⟨[], rest, rfl, ?_, rfl, rfl⟩
        simp [restoreTarget, ht, restoreTarget_self]
      | cons e earlier =>
        rw [List.cons_append, List.cons.injEq] at h
        obtain ⟨rfl, hrest⟩ := h
        obtain ⟨before, after, rfl, hrestore, hbefore, hafter⟩ := ih hrest
        refine ⟨c :: before, after, rfl, ?_, ?_, hafter⟩
        · simp [restoreTarget, ht, hrestore]
        · simp [ht, hbefore]
    · rw [List.filter_cons_of_neg (by simpa using ht)] at h
      obtain ⟨before, after, rfl, hrestore, hbefore, hafter⟩ := ih h
      refine ⟨c :: before, after, rfl, ?_, ?_, hafter⟩
      · simp [restoreTarget, ht, hrestore]
      · simpa [ht] using hbefore

theorem refillItems_self (items : List Block) :
    refillItems items (items.filterMap Block.sources?) = items := by
  induction items with
  | nil => rfl
  | cons b rest ih =>
    cases b with
    | other s => simp [List.filterMap_cons, refillItems, ih]
    | listing s => simp [refillItems, ih]

theorem refillItems_split {items : List Block} {earlier later : List Sources} {s : Sources}
    (h : items.filterMap Block.sources? = earlier ++ s :: later) (s' : Sources) :
    ∃ before after, items = before ++ .listing s :: after ∧
      refillItems items (earlier ++ s' :: later) = before ++ .listing s' :: after ∧
      before.filterMap Block.sources? = earlier ∧ after.filterMap Block.sources? = later := by
  induction items generalizing earlier with
  | nil => simp at h
  | cons b rest ih =>
    cases b with
    | other t =>
      obtain ⟨before, after, rfl, hrefill, hbefore, hafter⟩ :=
        ih (by simpa [List.filterMap_cons] using h)
      refine ⟨.other t :: before, after, rfl, ?_, ?_, hafter⟩
      · simp [refillItems, hrefill]
      · simpa [List.filterMap_cons] using hbefore
    | listing t =>
      simp only [List.filterMap_cons, Block.sources?_listing] at h
      cases earlier with
      | nil =>
        obtain ⟨rfl, rfl⟩ : t = s ∧ rest.filterMap Block.sources? = later := by simpa using h
        refine ⟨[], rest, rfl, ?_, rfl, rfl⟩
        simp [refillItems, refillItems_self]
      | cons e earlier =>
        rw [List.cons_append, List.cons.injEq] at h
        obtain ⟨before, after, rfl, hrefill, hbefore, hafter⟩ := ih h.2
        refine ⟨.listing t :: before, after, rfl, ?_, ?_, hafter⟩
        · simp [refillItems, hrefill, h.1]
        · simp [hbefore, h.1]

theorem items_withTarget (d : Document) (target : Text) {separator : Text}
    (x : Site separator (d.sourcesOf target)) (s : Sources) :
    ∃ before after, d.items = before ++ .listing x.statement :: after ∧
      (d.withTarget target (x.earlier ++ s :: x.later)).items = before ++ .listing s :: after ∧
      ((before.filterMap Block.sources?).filter fun s => s.target = target) = x.earlier ∧
      ((after.filterMap Block.sources?).filter fun s => s.target = target) = x.later := by
  obtain ⟨front, back, hsources, hrestore, hfront, hback⟩ :=
    restoreTarget_split x.candidates_eq s
  obtain ⟨before, after, hitems, hrefill, hbefore, hafter⟩ :=
    refillItems_split (by rw [← sources_eq_items, hsources]) s
  refine ⟨before, after, hitems, ?_, by rw [hbefore, hfront], by rw [hafter, hback]⟩
  have hlen := length_restoreTarget target d.sources (x.earlier ++ s :: x.later)
  calc (d.withTarget target (x.earlier ++ s :: x.later)).items
    _ = refillItems d.items (restoreTarget target d.sources (x.earlier ++ s :: x.later)) :=
      items_withSources hlen
    _ = before ++ .listing s :: after := by rw [hrestore, hrefill]

/-- An edit puts one statement in the place of another and keeps all statements around it. -/
theorem items_editAt (d : Document) (target : Text) {separator : Text}
    (x : Site separator (d.sourcesOf target)) (f : Section → Section) :
    ∃ before after, d.items = before ++ .listing x.statement :: after ∧
      (d.editAt target x f).items = before ++ .listing (x.edited f) :: after ∧
      ((before.filterMap Block.sources?).filter fun s => s.target = target) = x.earlier ∧
      ((after.filterMap Block.sources?).filter fun s => s.target = target) = x.later :=
  d.items_withTarget target x (x.edited f)

end Document

end Listfile
