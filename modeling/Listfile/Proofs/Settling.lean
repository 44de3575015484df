import Listfile.Proofs.Placement

/-!
A choice settles where a file goes. If it opens a section, that section has no files and stands at
the end of its statement, and nothing else changes. Choosing again then finds it: among sections
without files its name decides, whether the name was wanted at first or is the default.
-/

namespace Listfile

theorem Section.LastNamed.eq_length {name : Text} {groups : List Section} {g : Section} {n : Nat}
    (h : LastNamed name (groups ++ [g]) n) (hg : g.name = name.upper) : n = groups.length := by
  obtain ⟨before, g', after, hsplit, rfl, -, hafter⟩ := h
  cases after using List.reverseRecOn with
  | nil =>
    obtain ⟨rfl, -⟩ := List.append_inj' hsplit rfl
    rfl
  | append_singleton after last =>
    rw [← List.cons_append, ← List.append_assoc] at hsplit
    obtain ⟨-, hlast⟩ := List.append_inj' hsplit rfl
    cases hlast
    exact absurd hg (hafter g (by simp))

namespace Sources

@[simp] theorem sections_addSection (s : Sources) (name separator : Text) :
    (s.addSection name separator).sections = s.sections ++ [Section.opened name separator] := by
  simp [addSection, sections, Slot.section?]

theorem grouped_mem {s : Sources} {g : Section} (h : g ∈ s.sections) : .grouped g ∈ s.slots := by
  obtain ⟨slot, hslot, heq⟩ := List.mem_filterMap.mp h
  rwa [Slot.section?_eq_some heq] at hslot

theorem findSection?_addSection (s : Sources) (name separator : Text) :
    (s.addSection name separator).findSection? name = some s.sections.length := by
  cases hfind : (s.addSection name separator).findSection? name with
  | none =>
    have missing := findSection?_eq_none hfind
    rw [sections_addSection] at missing
    exact absurd rfl (missing (Section.opened name separator) (by simp))
  | some n =>
    have last := findSection?_eq_some hfind
    rw [sections_addSection] at last
    rw [last.eq_length rfl]

end Sources

namespace Placement

theorem preferred?_eq_some_iff {candidates : List Sources} {n : Nat} {s : Sources} :
    preferred? candidates = some (n, s) ↔ s.preferred = true ∧ ∃ earlier later,
      candidates = earlier ++ s :: later ∧ earlier.length = n ∧
      ∀ t ∈ earlier, t.preferred = false := by
  rw [preferred?, List.find?_eq_some_iff_append]
  refine and_congr_right fun hs => ?_
  constructor
  · rintro ⟨front, back, hsplit, hfront⟩
    obtain ⟨earlier, others, rfl, rfl, hothers⟩ := List.mapIdx_eq_append_iff.mp hsplit
    obtain ⟨_, later, rfl, heq, -⟩ := List.mapIdx_eq_cons_iff.mp hothers
    cases heq
    refine ⟨earlier, later, rfl, by simp, fun t ht => ?_⟩
    obtain ⟨i, hi, rfl⟩ := List.getElem_of_mem ht
    have := hfront (i, earlier[i]) (List.mem_mapIdx.mpr ⟨i, hi, rfl⟩)
    simpa using this
  · rintro ⟨earlier, later, rfl, rfl, hearlier⟩
    refine ⟨earlier.mapIdx Prod.mk, later.mapIdx fun i t => (i + 1 + earlier.length, t), ?_, ?_⟩
    · simp [List.mapIdx_append, List.mapIdx_cons]
    · intro p hp
      obtain ⟨i, hi, rfl⟩ := List.mem_mapIdx.mp hp
      simp [hearlier _ (List.getElem_mem hi)]

theorem unpreferred_of_preferred? {candidates : List Sources} (h : preferred? candidates = none) :
    ∀ s ∈ candidates, s.preferred = false := by
  intro s hs
  obtain ⟨i, hi, rfl⟩ := List.getElem_of_mem hs
  have := List.find?_eq_none.mp h (i, candidates[i]) (List.mem_mapIdx.mpr ⟨i, hi, rfl⟩)
  simpa using this

theorem section_of_mem_contenders {wanted : Option Text} {candidates : List Sources}
    {p : Address × Section} (h : p ∈ contenders wanted candidates) :
    ∃ s ∈ candidates, p.2 ∈ s.sections := by
  have hmem : p ∈ allSections candidates := by
    unfold contenders eligible at h
    split at h
    · exact h
    · exact List.mem_of_mem_filter h
  obtain ⟨s, hs, hg⟩ := mem_allSections.mp hmem
  exact ⟨s, List.mem_of_getElem? hs, List.mem_of_getElem? hg⟩

theorem forall_of_contenders {P : Section → Prop} {wanted : Option Text}
    {candidates : List Sources} (free : restriction? wanted candidates = none)
    (h : ∀ q ∈ contenders wanted candidates, P q.2) : ∀ s ∈ candidates, ∀ g ∈ s.sections, P g := by
  intro s hs g hg
  obtain ⟨n, hn, rfl⟩ := List.getElem_of_mem hs
  obtain ⟨i, hi, rfl⟩ := List.getElem_of_mem hg
  have hmem : ((⟨n, i⟩ : Address), candidates[n].sections[i]) ∈ allSections candidates :=
    mem_allSections.mpr ⟨_, List.getElem?_eq_getElem hn, List.getElem?_eq_getElem hi⟩
  refine h (⟨n, i⟩, candidates[n].sections[i]) ?_
  rwa [contenders, free, eligible]

section Opened

variable {first : Sources} {rest : List Sources} {separator : Text} {wanted : Option Text}

theorem firstNamed_opened {name : Text} {place : Address}
    (free : restriction? wanted (first :: rest) = none)
    (restricted : restriction? wanted
      (first.addSection first.defaultSection separator :: rest) = some name)
    (h : FirstNamed name (first.addSection first.defaultSection separator :: rest) place) :
    place = ⟨0, first.sections.length⟩ := by
  -- The name is wanted in vain at first, so only the new section has it.
  have hname : (Section.opened first.defaultSection separator).name = name.upper := by
    obtain ⟨rfl, hfound⟩ := Option.filter_eq_some_iff.mp restricted
    rw [restriction?, Option.filter_eq_none_iff] at free
    have hmissing := free name rfl
    simp only [List.flatMap_cons, Sources.sections_addSection, List.any_append, List.any_cons,
      List.any_nil, Bool.or_false, Bool.and_eq_true, Bool.or_eq_true, decide_eq_true_eq]
      at hfound hmissing
    tauto
  obtain ⟨earlier, s, later, hsplit, hstatement, hearlier, hlast⟩ := h
  cases earlier with
  | nil =>
    cases hsplit
    rw [Sources.sections_addSection] at hlast
    exact congrArg₂ Address.mk hstatement.symm (hlast.eq_length hname)
  | cons t earlier =>
    cases hsplit
    exact absurd hname (hearlier _ List.mem_cons_self _ (by simp))

/-- Where no section has files, the one that was opened takes the file when it is placed again. -/
theorem lands_opened {file : Text} {settled : List Sources} {place : Address}
    (unfiled : ∀ s ∈ first :: rest, ∀ g ∈ s.sections, g.directories = [])
    (free : restriction? wanted (first :: rest) = none)
    (h : Lands (first.addSection first.defaultSection separator) rest file wanted separator
      settled place) :
    settled = first.addSection first.defaultSection separator :: rest ∧
      place = ⟨0, first.sections.length⟩ := by
  cases h with
  | best filed hbest =>
    exfalso
    obtain ⟨s, hs, hg⟩ := section_of_mem_contenders hbest.mem
    rcases List.mem_cons.mp hs with rfl | hs
    · rw [Sources.sections_addSection] at hg
      rcases List.mem_append.mp hg with hg | hg
      · exact filed (unfiled first List.mem_cons_self _ hg)
      · rw [List.mem_singleton.mp hg] at filed
        exact filed rfl
    · exact filed (unfiled s (.tail _ hs) _ hg)
  | named _ restricted hnamed => exact ⟨rfl, firstNamed_opened free restricted hnamed⟩
  | default _ _ hlast =>
    rw [Sources.sections_addSection] at hlast
    exact ⟨rfl, by rw [hlast.eq_length rfl]⟩
  | opened _ _ missing =>
    exact absurd rfl (missing (Section.opened first.defaultSection separator) (by simp))

end Opened

theorem choose_of_preferred? {candidates : List Sources} {n : Nat} {s : Sources}
    (h : preferred? candidates = some (n, s)) (file : Text) (wanted : Option Text) :
    choose candidates file wanted =
      .ok (namedIn n s ((preference wanted).getD s.defaultSection), []) := by
  cases candidates with
  | nil => cases h
  | cons first rest => simp only [choose, h]

theorem insertion_settled_preferred {candidates settled : List Sources} {n : Nat} {s : Sources}
    (preferred : preferred? candidates = some (n, s)) {file : Text} {wanted : Option Text}
    {separator : Text} {place : Address}
    (h : insertion candidates file wanted separator = .ok (settled, place)) :
    insertion settled file wanted separator = .ok (settled, place) := by
  have hchoose := h
  rw [insertion, choose_of_preferred? preferred] at hchoose
  cases hfind : s.findSection? ((preference wanted).getD s.defaultSection) with
  | some i =>
    simp only [namedIn, hfind, settle, Except.map, Except.ok.injEq, Prod.mk.injEq] at hchoose
    rwa [hchoose.1] at h
  | none =>
    obtain ⟨hs, earlier, later, rfl, rfl, hearlier⟩ := preferred?_eq_some_iff.mp preferred
    simp only [namedIn, hfind, settle, Except.map, modify_split, Except.ok.injEq,
      Prod.mk.injEq] at hchoose
    obtain ⟨rfl, rfl⟩ := hchoose
    let opened := s.addSection ((preference wanted).getD s.defaultSection) separator
    have again : preferred? (earlier ++ opened :: later) = some (earlier.length, opened) :=
      preferred?_eq_some_iff.mpr ⟨hs, earlier, later, rfl, rfl, hearlier⟩
    have hfound : opened.findSection? ((preference wanted).getD opened.defaultSection) =
        some s.sections.length := s.findSection?_addSection _ separator
    rw [insertion, choose_of_preferred? again, namedIn, hfound]
    simp [Except.map, settle]

theorem insertion_settled_unpreferred {first : Sources} {rest settled : List Sources}
    (unpreferred : ∀ s ∈ first :: rest, s.preferred = false) {file : Text} {wanted : Option Text}
    {separator : Text} {place : Address}
    (h : insertion (first :: rest) file wanted separator = .ok (settled, place)) :
    insertion settled file wanted separator = .ok (settled, place) := by
  obtain ⟨_, _, heq, lands⟩ := exists_lands unpreferred file wanted separator
  rw [h] at heq
  cases heq
  cases lands with
  | best _ _ => exact h
  | named _ _ _ => exact h
  | default _ _ _ => exact h
  | opened unfiled free _ =>
    have unpreferred' : ∀ s ∈ first.addSection first.defaultSection separator :: rest,
        s.preferred = false := by
      obtain ⟨hfirst, hrest⟩ := List.forall_mem_cons.mp unpreferred
      exact List.forall_mem_cons.mpr ⟨hfirst, hrest⟩
    obtain ⟨_, _, again, lands⟩ := exists_lands unpreferred' file wanted separator
    obtain ⟨rfl, rfl⟩ := lands_opened (forall_of_contenders free unfiled) free lands
    exact again

theorem insertion_cases {candidates settled : List Sources} {file : Text} {wanted : Option Text}
    {separator : Text} {place : Address}
    (h : insertion candidates file wanted separator = .ok (settled, place)) :
    (settled = candidates ∧
      ∃ events, choose candidates file wanted = .ok (.existing place, events)) ∨
    ∃ earlier s later name, candidates = earlier ++ s :: later ∧
      settled = earlier ++ s.addSection name separator :: later ∧
      place = ⟨earlier.length, s.sections.length⟩ := by
  rw [insertion] at h
  cases hchoose : choose candidates file wanted with
  | error fault =>
    rw [hchoose] at h
    cases h
  | ok c =>
    obtain ⟨choice, events⟩ := c
    rw [hchoose] at h
    cases choice with
    | existing found =>
      cases h
      exact Or.inl ⟨rfl, events, rfl⟩
    | fresh n name =>
      obtain ⟨s, hs, -, -⟩ := Document.choose_fresh hchoose
      obtain ⟨earlier, later, rfl, rfl⟩ := split_of_getElem? hs
      simp only [Except.map, settle, modify_split, hs, Option.map_some, Option.getD_some,
        Except.ok.injEq, Prod.mk.injEq] at h
      exact Or.inr ⟨earlier, s, later, name, rfl, h.1.symm, h.2.symm⟩

/-- Placing a file again among the statements that were settled on finds the same section. -/
theorem insertion_settled {candidates settled : List Sources} {file : Text} {wanted : Option Text}
    {separator : Text} {place : Address}
    (h : insertion candidates file wanted separator = .ok (settled, place)) :
    insertion settled file wanted separator = .ok (settled, place) := by
  cases hpreferred : preferred? candidates with
  | some found => exact insertion_settled_preferred hpreferred h
  | none =>
    cases candidates with
    | nil => cases h
    | cons first rest =>
      exact insertion_settled_unpreferred (unpreferred_of_preferred? hpreferred) h

end Placement

/-- A file can always be placed among statements. The section for it stands in the statement that
the place names. The statements are as before, or one of them has got that section at its end,
without files. Placing the file again finds the same section and changes nothing. -/
theorem insertion_stable (first : Sources) (rest : List Sources) (file : Text)
    (wanted : Option Text) (separator : Text) :
    ∃ settled place,
      Placement.insertion (first :: rest) file wanted separator = .ok (settled, place) ∧
      (∃ s g, settled[place.statement]? = some s ∧ s.sections[place.sectionIndex]? = some g ∧
        Slot.grouped g ∈ s.slots) ∧
      (settled = first :: rest ∨ ∃ earlier s later g opened, first :: rest = earlier ++ s :: later ∧
        settled = earlier ++ opened :: later ∧ g.files = [] ∧
        opened = { s with slots := s.slots ++ [.grouped g] } ∧
        opened.sections = s.sections ++ [g] ∧ place = ⟨earlier.length, s.sections.length⟩) ∧
      Placement.insertion settled file wanted separator = .ok (settled, place) := by
  obtain ⟨choice, events, hchoose⟩ :=
    Placement.exists_choose (List.cons_ne_nil first rest) file wanted
  have hinsertion : Placement.insertion (first :: rest) file wanted separator =
      .ok (Placement.settle (first :: rest) choice separator) := by
    rw [Placement.insertion, hchoose]
    rfl
  refine ⟨_, _, hinsertion, ?_, ?_, Placement.insertion_settled hinsertion⟩
  · obtain ⟨x, hat⟩ := Site.exists_settled hchoose separator
    obtain ⟨s, hs, hg⟩ := Option.bind_eq_some_iff.mp hat.section?
    exact ⟨s, x.group, hs, hg, Sources.grouped_mem (List.mem_of_getElem? hg)⟩
  · rcases Placement.insertion_cases hinsertion with
      ⟨hsettled, -⟩ | ⟨earlier, s, later, name, hsplit, hsettled, hplace⟩
    · exact Or.inl hsettled
    · exact Or.inr ⟨earlier, s, later, Section.opened name separator, _, hsplit, hsettled, rfl, rfl,
        s.sections_addSection name separator, hplace⟩

end Listfile
