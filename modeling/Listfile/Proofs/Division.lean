import Listfile.Proofs.Classify
import Listfile.Proofs.Legible

/-!
How arguments divide. After the target stand plain arguments and then groups of files. Which
arguments may stand where is a matter of their keywords alone, and it decides the division: the
arguments of a division are divided in the same way again.
-/

namespace Listfile

namespace Classify

/-- Passes over a keyword of a target or its value: whether a value is to come next; none for a
file. -/
def passes? (expectValue : Bool) (a : Argument) : Option Bool :=
  if expectValue then some false
  else if targetModifiers.contains (keywordOf a) then some false
  else if valueKeywords.contains (keywordOf a) then some true
  else if a.value.isEmpty then some false
  else none

/-- Whether a value is still to come after arguments; none where one of them is a file. -/
def awaits? (expectValue : Bool) (arguments : List Argument) : Option Bool :=
  arguments.foldlM passes? expectValue

theorem targetSlots_cons (expectValue : Bool) (a : Argument) (rest : List Argument) :
    targetSlots expectValue (a :: rest) =
      match passes? expectValue a with
      | some after => .plain a :: targetSlots after rest
      | none => [.grouped { name := [], files := a :: rest }] := by
  rw [targetSlots, passes?]
  repeat' split
  all_goals simp_all

def Unkeyed (command : Text) (a : Argument) : Prop :=
  if command = targetSources then sectionKeyword? a = none
  else keywordOf a ∉ targetModifiers ++ valueKeywords ++ sourcelessKeywords

def Opens (command name : Text) (keyword : Option Argument) : Prop :=
  if command = targetSources then ∃ a, keyword = some a ∧ sectionKeyword? a = some name
  else keyword = none ∧ name = []

/-- Plain arguments after the target, and sections after them. -/
structure Divided (command : Text) (plains : List Argument) (groups : List Section) : Prop where
  plains : if command = targetSources then ∀ a ∈ plains, sectionKeyword? a = none
    else awaits? false plains = some false ∧ isSourceless plains = false ∧ groups.length ≤ 1
  opens : ∀ g ∈ groups, Opens command g.name g.keyword
  files : ∀ g ∈ groups, ∀ a ∈ g.files, Unkeyed command a

theorem leadingSlots_append {plains : List Argument}
    (h : ∀ a ∈ plains, sectionKeyword? a = none) (rest : List Argument) :
    leadingSlots (plains ++ rest) = plains.map .plain ++ leadingSlots rest := by
  induction plains with
  | nil => rfl
  | cons a plains ih =>
    simp [leadingSlots, h a List.mem_cons_self, ih fun b hb => h b (.tail _ hb)]

theorem sectionSlots_append {files : List Argument}
    (h : ∀ a ∈ files, sectionKeyword? a = none) (current : Section) (rest : List Argument) :
    sectionSlots current (files ++ rest) =
      sectionSlots { current with files := current.files ++ files } rest := by
  induction files generalizing current with
  | nil => simp
  | cons a files ih =>
    simp [sectionSlots, h a List.mem_cons_self, ih fun b hb => h b (.tail _ hb)]

def bare (g : Section) : Section := { g with directories := [] }

theorem sectionSlots_groups {groups : List Section}
    (opens : ∀ g ∈ groups, ∃ a, g.keyword = some a ∧ sectionKeyword? a = some g.name)
    (files : ∀ g ∈ groups, ∀ a ∈ g.files, sectionKeyword? a = none) (current : Section) :
    sectionSlots current (groups.flatMap Section.arguments) =
      (current :: groups.map bare).map .grouped := by
  induction groups generalizing current with
  | nil => rfl
  | cons g groups ih =>
    obtain ⟨a, ha, hname⟩ := opens g List.mem_cons_self
    have hrest := ih (fun k hk => opens k (.tail _ hk)) (fun k hk => files k (.tail _ hk))
    simp only [List.flatMap_cons, Section.arguments, ha, Option.toList_some, List.cons_append,
      List.nil_append, sectionSlots, hname, List.map_cons, List.cons.injEq, true_and]
    rw [sectionSlots_append (files g List.mem_cons_self), hrest]
    simp [bare, ha]

theorem leadingSlots_groups {groups : List Section}
    (opens : ∀ g ∈ groups, ∃ a, g.keyword = some a ∧ sectionKeyword? a = some g.name)
    (files : ∀ g ∈ groups, ∀ a ∈ g.files, sectionKeyword? a = none) :
    leadingSlots (groups.flatMap Section.arguments) = (groups.map bare).map .grouped := by
  cases groups with
  | nil => rfl
  | cons g groups =>
    obtain ⟨a, ha, hname⟩ := opens g List.mem_cons_self
    simp only [List.flatMap_cons, Section.arguments, ha, Option.toList_some, List.cons_append,
      List.nil_append, leadingSlots, hname]
    rw [sectionSlots_append (files g List.mem_cons_self),
      sectionSlots_groups (fun k hk => opens k (.tail _ hk)) fun k hk => files k (.tail _ hk)]
    simp [bare, ha]

theorem targetSlots_append {before middle : Bool} {plains : List Argument}
    (h : awaits? before plains = some middle) (rest : List Argument) :
    targetSlots before (plains ++ rest) = plains.map .plain ++ targetSlots middle rest := by
  induction plains generalizing before with
  | nil =>
    cases h
    rfl
  | cons a plains ih =>
    simp only [awaits?, List.foldlM_cons, Option.bind_eq_bind, Option.bind_eq_some_iff] at h
    obtain ⟨after, hafter, hrest⟩ := h
    rw [List.cons_append, targetSlots_cons, hafter]
    exact congrArg (Slot.plain a :: ·) (ih hrest)

def anonymous (files : List Argument) : List Section :=
  if files.isEmpty then [] else [{ name := [], files := files }]

/-- Files without a name that come first are read as plain arguments. -/
theorem targetSlots_files {files : List Argument}
    (h : ∀ a ∈ files, keywordOf a ∉ targetModifiers ++ valueKeywords ++ sourcelessKeywords) :
    targetSlots false files = (files.takeWhile (·.value.isEmpty)).map .plain ++
      (anonymous (files.dropWhile (·.value.isEmpty))).map .grouped := by
  induction files with
  | nil => rfl
  | cons a files ih =>
    have ha := h a List.mem_cons_self
    simp only [List.mem_append, not_or] at ha
    have hrest := ih fun b hb => h b (.tail _ hb)
    by_cases he : a.value = []
    · simp [targetSlots_cons, passes?, ha, he, hrest]
    · simp [targetSlots_cons, passes?, ha, he, anonymous]

theorem awaits?_unnamed {plains : List Argument} (h : ∀ a ∈ plains, a.value.isEmpty = true) :
    awaits? false plains = some false := by
  induction plains with
  | nil => rfl
  | cons a plains ih =>
    have ha : a.value = [] := by simpa using h a List.mem_cons_self
    have hkey : keywordOf a = [] := by simp [keywordOf, ha, Text.upper]
    have hnone : ([] : Text) ∉ targetModifiers ∧ ([] : Text) ∉ valueKeywords := by decide
    have hpass : passes? false a = some false := by simp [passes?, hkey, hnone, ha]
    rw [awaits?, List.foldlM_cons, hpass]
    exact ih fun b hb => h b (.tail _ hb)

def filesOf (groups : List Section) : List Argument := groups.flatMap (·.files)

def readPlains (command : Text) (plains : List Argument) (groups : List Section) :
    List Argument :=
  if command = targetSources then plains
  else plains ++ (filesOf groups).takeWhile (·.value.isEmpty)

def readGroups (command : Text) (groups : List Section) : List Section :=
  if command = targetSources then groups.map bare
  else anonymous ((filesOf groups).dropWhile (·.value.isEmpty))

theorem mem_filesOf {groups : List Section} {a : Argument} (h : a ∈ filesOf groups) :
    a ∈ groups.flatMap Section.arguments := by
  obtain ⟨g, hg, ha⟩ := List.mem_flatMap.mp h
  exact List.mem_flatMap.mpr ⟨g, hg, List.mem_append_right _ ha⟩

theorem readPlains_eq (command : Text) (plains : List Argument) (groups : List Section) :
    ∃ more, readPlains command plains groups = plains ++ more ∧
      ∀ a ∈ more, a ∈ groups.flatMap Section.arguments := by
  unfold readPlains
  split
  · exact ⟨[], by simp, by simp⟩
  · exact ⟨_, rfl, fun a ha => mem_filesOf ((List.takeWhile_sublist _).subset ha)⟩

theorem mem_readGroups {command : Text} {groups : List Section} {g : Section}
    (hg : g ∈ readGroups command groups) {a : Argument} (ha : a ∈ g.arguments) :
    a ∈ groups.flatMap Section.arguments := by
  unfold readGroups at hg
  split at hg
  · obtain ⟨k, hk, rfl⟩ := List.mem_map.mp hg
    exact List.mem_flatMap.mpr ⟨k, hk, ha⟩
  · unfold anonymous at hg
    split at hg
    · simp at hg
    · rw [List.mem_singleton.mp hg] at ha
      exact mem_filesOf ((List.dropWhile_sublist _).subset ha)

def slotsOf (command : Text) (arguments : List Argument) : List Slot :=
  if command = targetSources then leadingSlots arguments else targetSlots false arguments

namespace Divided

variable {command : Text} {plains : List Argument} {groups : List Section}

theorem arguments_eq_files (h : Divided command plains groups) (hc : command ≠ targetSources) :
    groups.flatMap Section.arguments = filesOf groups := by
  have hg : ∀ g ∈ groups, g.arguments = g.files := by
    intro g hg
    have := h.opens g hg
    rw [Opens, if_neg hc] at this
    simp [Section.arguments, this.1]
  rw [filesOf, List.flatMap_def, List.flatMap_def, List.map_congr_left hg]

theorem files_unkeyed (h : Divided command plains groups) :
    ∀ a ∈ filesOf groups, Unkeyed command a := by
  intro a ha
  obtain ⟨g, hg, ha⟩ := List.mem_flatMap.mp ha
  exact h.files g hg a ha

/-- The arguments of a division are divided in the same way again. -/
theorem slots (h : Divided command plains groups) :
    slotsOf command (plains ++ groups.flatMap Section.arguments) =
      (readPlains command plains groups).map .plain ++
        (readGroups command groups).map .grouped := by
  by_cases hc : command = targetSources
  · have hplains := h.plains
    have hopens := h.opens
    have hfiles := h.files
    simp only [Opens, Unkeyed, hc, if_true] at hplains hopens hfiles
    rw [slotsOf, readPlains, readGroups, if_pos hc, if_pos hc, if_pos hc,
      leadingSlots_append hplains, leadingSlots_groups hopens hfiles]
  · have hplains := h.plains
    have hfiles := h.files_unkeyed
    simp only [Unkeyed, hc, if_false] at hplains hfiles
    rw [slotsOf, readPlains, readGroups, if_neg hc, if_neg hc, if_neg hc,
      h.arguments_eq_files hc, targetSlots_append hplains.1, targetSlots_files hfiles]
    simp

theorem read (h : Divided command plains groups) :
    Divided command (readPlains command plains groups) (readGroups command groups) := by
  by_cases hc : command = targetSources
  · simp only [readPlains, readGroups, hc, if_true]
    subst hc
    refine ⟨by simpa using h.plains, ?_, ?_⟩
    · simp only [List.mem_map, forall_exists_index, and_imp, forall_apply_eq_imp_iff₂]
      exact h.opens
    · simp only [List.mem_map, forall_exists_index, and_imp, forall_apply_eq_imp_iff₂]
      exact h.files
  · have hplains := h.plains
    have hfiles := h.files_unkeyed
    simp only [readPlains, readGroups, hc, if_false] at hplains ⊢
    -- Files without a name that come first are read as plain arguments before the section.
    have hunnamed := awaits?_unnamed fun a (ha : a ∈ (filesOf groups).takeWhile
      (·.value.isEmpty)) => List.all_eq_true.mp List.all_takeWhile a ha
    refine ⟨?_, ?_, ?_⟩
    · rw [if_neg hc]
      have hboth : awaits? false (plains ++ (filesOf groups).takeWhile (·.value.isEmpty)) =
          some false := by
        rw [awaits?, List.foldlM_append, ← awaits?, hplains.1]
        exact hunnamed
      refine ⟨hboth, ?_, ?_⟩
      · rw [isSourceless, List.any_append, Bool.or_eq_false_iff]
        refine ⟨hplains.2.1, List.any_eq_false.mpr fun a ha => ?_⟩
        have := hfiles a ((List.takeWhile_sublist _).subset ha)
        simp only [Unkeyed, hc, if_false, List.mem_append, not_or] at this
        simpa using this.2
      · unfold anonymous
        split <;> simp
    · intro g hg
      unfold anonymous at hg
      split at hg
      · simp at hg
      · rw [List.mem_singleton.mp hg, Opens, if_neg hc]
        exact ⟨rfl, rfl⟩
    · intro g hg a ha
      unfold anonymous at hg
      split at hg
      · simp at hg
      · rw [List.mem_singleton.mp hg] at ha
        exact hfiles a ((List.dropWhile_sublist _).subset ha)

theorem map (h : Divided command plains groups) {f : Section → Section}
    (hf : ∀ g, (f g).name = g.name ∧ (f g).keyword = g.keyword ∧ (f g).files = g.files) :
    Divided command plains (groups.map f) := by
  refine ⟨by simpa using h.plains, ?_, ?_⟩
  · simp only [List.mem_map, forall_exists_index, and_imp, forall_apply_eq_imp_iff₂]
    intro g hg
    rw [(hf g).1, (hf g).2.1]
    exact h.opens g hg
  · simp only [List.mem_map, forall_exists_index, and_imp, forall_apply_eq_imp_iff₂]
    intro g hg a ha
    rw [(hf g).2.2] at ha
    exact h.files g hg a ha

end Divided

theorem exists_sections (current : Section) (rest : List Argument)
    (opens : Opens targetSources current.name current.keyword)
    (files : ∀ a ∈ current.files, Unkeyed targetSources a) :
    ∃ groups : List Section, sectionSlots current rest = groups.map .grouped ∧
      ∀ g ∈ groups, Opens targetSources g.name g.keyword ∧
        ∀ a ∈ g.files, Unkeyed targetSources a := by
  induction rest generalizing current with
  | nil => exact ⟨[current], rfl, by simpa using ⟨opens, files⟩⟩
  | cons a rest ih =>
    rw [sectionSlots]
    split
    · next name hname =>
      obtain ⟨groups, hslots, hgroups⟩ :=
        ih { name := name, keyword := some a } (by simp [Opens, hname]) (by simp)
      exact ⟨current :: groups, by rw [hslots]; rfl,
        List.forall_mem_cons.mpr ⟨⟨opens, files⟩, hgroups⟩⟩
    · next hnone =>
      apply ih { current with files := current.files ++ [a] } opens
      intro b hb
      rcases List.mem_append.mp hb with hb | hb
      · exact files b hb
      · rw [List.mem_singleton.mp hb]
        simpa [Unkeyed] using hnone

/-- The slots of any arguments are a division. -/
theorem exists_divided (arguments : List Argument) :
    ∃ (plains : List Argument) (groups : List Section), slotsOf targetSources arguments =
        plains.map .plain ++ groups.map .grouped ∧ Divided targetSources plains groups := by
  simp only [slotsOf, if_true]
  induction arguments with
  | nil => exact ⟨[], [], rfl, by simp, by simp, by simp⟩
  | cons a rest ih =>
    rw [leadingSlots]
    split
    · next name hname =>
      obtain ⟨groups, hslots, hgroups⟩ :=
        exists_sections { name := name, keyword := some a } rest (by simp [Opens, hname]) (by simp)
      exact ⟨[], groups, hslots, by simp, fun g hg => (hgroups g hg).1,
        fun g hg => (hgroups g hg).2⟩
    · next hnone =>
      obtain ⟨plains, groups, hslots, hdivided⟩ := ih
      refine ⟨a :: plains, groups, by rw [hslots]; rfl, ?_, hdivided.opens, hdivided.files⟩
      have := hdivided.plains
      simp only [if_true] at this ⊢
      exact List.forall_mem_cons.mpr ⟨hnone, this⟩

/-- The slots of the arguments of a target: keywords up to the first file, if there is one. -/
theorem exists_target (before : Bool) (arguments : List Argument) :
    ∃ (plains : List Argument) (groups : List Section),
      targetSlots before arguments = plains.map .plain ++ groups.map .grouped ∧
      ((groups = [] ∧ plains = arguments ∧ ∃ b, awaits? before plains = some b) ∨
        (awaits? before plains = some false ∧
          ∃ files, groups = [{ name := [], files := files }])) := by
  induction arguments generalizing before with
  | nil => exact ⟨[], [], rfl, Or.inl ⟨rfl, rfl, before, rfl⟩⟩
  | cons a rest ih =>
    rw [targetSlots_cons]
    cases hp : passes? before a with
    | none =>
      refine ⟨[], [{ name := [], files := a :: rest }], rfl, Or.inr ⟨?_, a :: rest, rfl⟩⟩
      cases before with
      | false => rfl
      | true => simp [passes?] at hp
    | some after =>
      obtain ⟨plains, groups, hslots, hcases⟩ := ih after
      have hawaits : awaits? before (a :: plains) = awaits? after plains := by
        rw [awaits?, List.foldlM_cons, hp]
        rfl
      refine ⟨a :: plains, groups, congrArg (Slot.plain a :: ·) hslots, ?_⟩
      rw [hawaits]
      rcases hcases with ⟨rfl, rfl, hb⟩ | hfiles
      · exact Or.inl ⟨rfl, rfl, hb⟩
      · exact Or.inr hfiles

end Classify

def Section.asRead (g : Section) : Section :=
  { g with keyword := g.keyword.map Argument.asRead, files := g.files.map Argument.asRead }

theorem Section.arguments_asRead (groups : List Section) :
    (groups.map Section.asRead).flatMap Section.arguments =
      (groups.flatMap Section.arguments).map Argument.asRead := by
  rw [List.flatMap_map, List.map_flatMap]
  refine congrArg (groups.flatMap ·) (funext fun g => ?_)
  cases hk : g.keyword <;> simp [Section.asRead, Section.arguments, hk]

theorem Classify.filesOf_asRead (groups : List Section) :
    filesOf (groups.map Section.asRead) = (filesOf groups).map Argument.asRead := by
  rw [filesOf, List.flatMap_map, filesOf, List.map_flatMap]
  rfl

theorem Classify.Divided.asRead {command : Text} {plains : List Argument} {groups : List Section}
    (h : Divided command plains groups) :
    Divided command (plains.map Argument.asRead) (groups.map Section.asRead) := by
  refine ⟨?_, ?_, ?_⟩
  · have hplains := h.plains
    by_cases hc : command = targetSources
    · simp only [hc, if_true, List.mem_map, forall_exists_index, and_imp,
        forall_apply_eq_imp_iff₂] at hplains ⊢
      exact hplains
    · simp only [hc, if_false, awaits?, isSourceless, List.length_map, List.foldlM_map,
        List.any_map] at hplains ⊢
      exact hplains
  · simp only [List.mem_map, forall_exists_index, and_imp, forall_apply_eq_imp_iff₂]
    intro g hg
    have hopens := h.opens g hg
    unfold Opens at hopens ⊢
    split at hopens
    · next hc =>
      obtain ⟨a, ha, hname⟩ := hopens
      rw [if_pos hc]
      exact ⟨a.asRead, by simp [Section.asRead, ha], hname⟩
    · next hc =>
      rw [if_neg hc]
      exact ⟨by simp [Section.asRead, hopens.1], hopens.2⟩
  · simp only [List.mem_map, forall_exists_index, and_imp, forall_apply_eq_imp_iff₂,
      Section.asRead]
    exact h.files

theorem Sources.ofStatement?_eq {s : Statement} {first : Argument} {rest : List Argument}
    (arguments : s.arguments = first :: rest) (named : first.value ≠ [])
    (form : s.command.name = Classify.targetSources ∨
      s.command.name ∈ Classify.targetCommands ∧ Classify.isSourceless rest = false)
    (line : Nat) (default : Text) :
    (Sources.ofStatement? s line default).1 = some
      { command := s.command, target := first.value,
        slots := (Slot.plain first :: Classify.slotsOf s.command.name rest).map Classify.collect,
        defaultSection :=
          if s.command.name = Classify.targetSources then default.upper else [] } := by
  by_cases hc : s.command.name = Classify.targetSources
  · simp [Sources.ofStatement?, hc, arguments, named, Classify.slotsOf]
  · obtain ⟨hmem, hsource⟩ := form.resolve_left hc
    simp [Sources.ofStatement?, hc, hmem, hsource, arguments, named, Classify.slotsOf]

theorem Sources.ofStatement?_none {s : Statement} {line line' : Nat} {default default' : Text}
    (h : (Sources.ofStatement? s line default).1 = none) :
    (Sources.ofStatement? s line' default').1 = none := by
  cases hsome : (Sources.ofStatement? s line' default').1 with
  | none => rfl
  | some found =>
    obtain ⟨first, rest, hargs, hnamed, hform⟩ := Sources.ofStatement?_cases hsome
    rw [Sources.ofStatement?_eq hargs hnamed
      (hform.imp (·.1) fun hf => ⟨hf.2.1, hf.2.2.1⟩)] at h
    cases h

end Listfile
