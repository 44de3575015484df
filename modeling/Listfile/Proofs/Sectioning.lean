import Listfile.Proofs.Regular
import Listfile.Proofs.Sorting

/-!
How classification splits a statement. The arguments after the target fall into plain ones and
sections by their keywords alone: a list of sources is split at each section keyword, and the files
of a target that is declared start at the first argument that is neither a keyword of the target nor
the value of one. No argument is lost or moved, and each section knows the directories of its files.
-/

namespace Listfile

/-- An argument that stands for one of the given keywords, in whatever case it is written. A quoted
one never does. -/
def Argument.IsKeyword (keywords : List Text) (a : Argument) : Prop :=
  a.quoted = false ∧ a.value.upper ∈ keywords

instance (keywords : List Text) : DecidablePred (Argument.IsKeyword keywords) :=
  fun a => inferInstanceAs (Decidable (a.quoted = false ∧ a.value.upper ∈ keywords))

def Text.Directory (name directory : Text) : Prop :=
  (∃ base, name = directory ++ .char '/' :: base ∧ .char '/' ∉ base) ∨
    .char '/' ∉ name ∧ directory = []

def Statement.ListsSources (s : Statement) : Prop :=
  ∃ first rest, s.arguments = first :: rest ∧ first.value ≠ [] ∧
    (s.command.name = Classify.targetSources ∨ s.command.name ∈ Classify.targetCommands ∧
      ∀ a ∈ rest, ¬ a.IsKeyword Classify.sourcelessKeywords)

namespace Classify

/-- Whether the argument at a place is the value of the keyword before it. `expected` tells of the
first one. A value is itself never read as a keyword. -/
def isValueAt (expected : Bool) (arguments : List Argument) : Nat → Bool
  | 0 => expected
  | n + 1 => (arguments[n]?).any (fun a => decide (a.IsKeyword valueKeywords)) &&
      !isValueAt expected arguments n

/-- A file stands at a place: an argument with a value that is no keyword of the target and not the
value of one. -/
def FileAt (expected : Bool) (arguments : List Argument) (n : Nat) : Prop :=
  ∃ a, arguments[n]? = some a ∧ a.value ≠ [] ∧ ¬ a.IsKeyword targetModifiers ∧
    ¬ a.IsKeyword valueKeywords ∧ isValueAt expected arguments n = false

/-- A list of sources split at its keywords: the arguments before the first are plain, and the
section of each has the arguments up to the next one. -/
structure SplitAtKeywords (first : Argument) (rest : List Argument) (found : Sources) : Prop where
  slots : found.slots =
    (first :: rest.takeWhile fun a => !a.IsKeyword sectionKeywords).map .plain ++
      found.sections.map .grouped
  count : found.sections.length = rest.countP (·.IsKeyword sectionKeywords)
  sections : ∀ n g, found.sections[n]? = some g → ∃ front a back, rest = front ++ a :: back ∧
    a.IsKeyword sectionKeywords ∧ front.countP (·.IsKeyword sectionKeywords) = n ∧
    g.name = a.value.upper ∧ g.keyword = some a ∧
    g.files = back.takeWhile fun b => !b.IsKeyword sectionKeywords

/-- A declared target split at its first file: that and all after it are the files, in one section
without a name, and the arguments before it are plain. -/
def SplitAtFile (first : Argument) (rest : List Argument) (found : Sources) : Prop :=
  (∃ n g, FileAt false rest n ∧ (∀ m < n, ¬ FileAt false rest m) ∧
    found.slots = (first :: rest.take n).map .plain ++ [.grouped g] ∧ found.sections = [g] ∧
    g.name = [] ∧ g.keyword = none ∧ g.files = rest.drop n) ∨
  (∀ n, ¬ FileAt false rest n) ∧ found.slots = (first :: rest).map .plain ∧ found.sections = []

section Keywords

variable {a : Argument}

theorem sectionKeyword?_eq : sectionKeyword? a =
    if a.IsKeyword sectionKeywords then some a.value.upper else none := by
  unfold sectionKeyword?
  by_cases hq : a.quoted = true
  · rw [if_pos hq, if_neg (by simp [Argument.IsKeyword, hq])]
  · by_cases hk : a.value.upper ∈ sectionKeywords
    · rw [if_neg hq, if_pos (by simpa using hk), if_pos ⟨by simpa using hq, hk⟩]
    · rw [if_neg hq, if_neg (by simpa using hk), if_neg fun h => hk h.2]

theorem sectionKeyword?_eq_some {name : Text} :
    sectionKeyword? a = some name ↔ a.IsKeyword sectionKeywords ∧ name = a.value.upper := by
  rw [sectionKeyword?_eq, Option.ite_none_right_eq_some, Option.some.injEq, eq_comm (b := name)]

theorem sectionKeyword?_eq_none :
    sectionKeyword? a = none ↔ ¬ a.IsKeyword sectionKeywords := by
  rw [sectionKeyword?_eq]
  simp

theorem keywordOf_mem {keywords : List Text} (hempty : [] ∉ keywords) :
    keywordOf a ∈ keywords ↔ a.IsKeyword keywords := by
  unfold keywordOf Argument.IsKeyword
  split
  · next hq => simp [hq, hempty]
  · next hq => simp [hq]

theorem modifier_iff : keywordOf a ∈ targetModifiers ↔ a.IsKeyword targetModifiers :=
  keywordOf_mem (by decide)

theorem valueKeyword_iff : keywordOf a ∈ valueKeywords ↔ a.IsKeyword valueKeywords :=
  keywordOf_mem (by decide)

theorem isSourceless_eq_false {arguments : List Argument} : isSourceless arguments = false ↔
    ∀ a ∈ arguments, ¬ a.IsKeyword sourcelessKeywords := by
  have hkeyword : ∀ a, keywordOf a ∈ sourcelessKeywords ↔ a.IsKeyword sourcelessKeywords :=
    fun a => keywordOf_mem (by decide)
  simp [isSourceless, hkeyword]

theorem passes?_eq_none {expected : Bool} : passes? expected a = none ↔
    a.value ≠ [] ∧ ¬ a.IsKeyword targetModifiers ∧ ¬ a.IsKeyword valueKeywords ∧
      expected = false := by
  rw [← modifier_iff, ← valueKeyword_iff]
  unfold passes?
  cases expected with
  | true => simp
  | false =>
    by_cases hm : keywordOf a ∈ targetModifiers
    · simp [hm]
    · by_cases hv : keywordOf a ∈ valueKeywords
      · simp [hm, hv]
      · simp [hm, hv]

theorem passes?_eq_some {expected after : Bool} (h : passes? expected a = some after) :
    after = (decide (a.IsKeyword valueKeywords) && !expected) := by
  -- No keyword is both a modifier and one that takes a value.
  have hapart : ∀ k ∈ targetModifiers, k ∉ valueKeywords := by decide
  have hdecide : decide (a.IsKeyword valueKeywords) = decide (keywordOf a ∈ valueKeywords) :=
    decide_eq_decide.mpr valueKeyword_iff.symm
  rw [hdecide]
  unfold passes? at h
  cases expected with
  | true => simpa using h.symm
  | false =>
    by_cases hm : keywordOf a ∈ targetModifiers
    · simpa [hm, hapart _ hm] using h.symm
    · by_cases hv : keywordOf a ∈ valueKeywords
      · simpa [hm, hv] using h.symm
      · simp only [List.contains_iff_mem, hm, hv, if_false, Bool.false_eq_true] at h
        split at h
        · simpa [hv] using h.symm
        · cases h

end Keywords

section Files

variable {expected after : Bool} {a : Argument} {rest : List Argument}

theorem isValueAt_cons (expected : Bool) (a : Argument) (rest : List Argument) (n : Nat) :
    isValueAt expected (a :: rest) (n + 1) =
      isValueAt (decide (a.IsKeyword valueKeywords) && !expected) rest n := by
  induction n with
  | zero => simp [isValueAt]
  | succ n ih =>
    rw [isValueAt, ih, isValueAt, List.getElem?_cons_succ]

theorem fileAt_zero : FileAt expected (a :: rest) 0 ↔ passes? expected a = none := by
  simp [FileAt, passes?_eq_none, isValueAt]

theorem fileAt_succ (h : passes? expected a = some after) (n : Nat) :
    FileAt expected (a :: rest) (n + 1) ↔ FileAt after rest n := by
  rw [FileAt, FileAt, isValueAt_cons, ← passes?_eq_some h, List.getElem?_cons_succ]

theorem targetSlots_split (expected : Bool) (rest : List Argument) :
    (∃ n, FileAt expected rest n ∧ (∀ m < n, ¬ FileAt expected rest m) ∧
      targetSlots expected rest = (rest.take n).map .plain ++
        [.grouped { name := [], files := rest.drop n }]) ∨
    (∀ n, ¬ FileAt expected rest n) ∧ targetSlots expected rest = rest.map .plain := by
  induction rest generalizing expected with
  | nil => exact Or.inr ⟨by simp [FileAt], rfl⟩
  | cons a rest ih =>
    rw [targetSlots_cons]
    cases hp : passes? expected a with
    | none => exact Or.inl ⟨0, fileAt_zero.mpr hp, by simp, rfl⟩
    | some after =>
      have hfirst : ¬ FileAt expected (a :: rest) 0 := by
        rw [fileAt_zero, hp]
        simp
      rcases ih after with ⟨n, hfile, hbefore, hslots⟩ | ⟨hnone, hslots⟩
      · refine Or.inl ⟨n + 1, (fileAt_succ hp n).mpr hfile, ?_, ?_⟩
        · intro m hm
          cases m with
          | zero => exact hfirst
          | succ m =>
            rw [fileAt_succ hp]
            exact hbefore m (by omega)
        · simp only [hslots]
          rfl
      · refine Or.inr ⟨?_, ?_⟩
        · intro n
          cases n with
          | zero => exact hfirst
          | succ n =>
            rw [fileAt_succ hp]
            exact hnone n
        · simp only [hslots]
          rfl

end Files

section Sections

variable {groups : List Section}

/-- Sections that are opened by a keyword each, with no other keyword among their files. -/
def Keyed (groups : List Section) : Prop :=
  ∀ g ∈ groups, (∃ a, g.keyword = some a ∧ a.IsKeyword sectionKeywords ∧ g.name = a.value.upper) ∧
    ∀ a ∈ g.files, ¬ a.IsKeyword sectionKeywords

theorem Divided.keyed {plains : List Argument} (h : Divided targetSources plains groups) :
    Keyed groups := by
  intro g hg
  have hopens := h.opens g hg
  have hfiles := h.files g hg
  simp only [Opens, Unkeyed, if_true, sectionKeyword?_eq_some, sectionKeyword?_eq_none]
    at hopens hfiles
  exact ⟨hopens, hfiles⟩

theorem Keyed.tail {g : Section} (h : Keyed (g :: groups)) : Keyed groups :=
  fun k hk => h k (List.mem_cons_of_mem g hk)

theorem Keyed.countP (h : Keyed groups) {front : List Argument}
    (hfront : ∀ a ∈ front, ¬ a.IsKeyword sectionKeywords) :
    (front ++ groups.flatMap Section.arguments).countP (·.IsKeyword sectionKeywords) =
      groups.length := by
  induction groups generalizing front with
  | nil => simpa [List.countP_eq_zero] using hfront
  | cons g groups ih =>
    obtain ⟨⟨a, hkeyword, ha, -⟩, hfiles⟩ := h g List.mem_cons_self
    have hsplit : front ++ (g :: groups).flatMap Section.arguments =
        front ++ a :: (g.files ++ groups.flatMap Section.arguments) := by
      simp [Section.arguments, hkeyword]
    have hnone : front.countP (·.IsKeyword sectionKeywords) = 0 := by
      simpa [List.countP_eq_zero] using hfront
    rw [hsplit, List.countP_append, hnone, Nat.zero_add,
      List.countP_cons_of_pos (by simpa using ha), ih h.tail hfiles, List.length_cons]

theorem Keyed.takeWhile (h : Keyed groups) {front : List Argument}
    (hfront : ∀ a ∈ front, ¬ a.IsKeyword sectionKeywords) :
    (front ++ groups.flatMap Section.arguments).takeWhile
      (fun a => !a.IsKeyword sectionKeywords) = front := by
  rw [List.takeWhile_append_of_pos (by simpa using hfront)]
  cases groups with
  | nil => simp
  | cons g groups =>
    obtain ⟨⟨a, hkeyword, ha, -⟩, -⟩ := h g List.mem_cons_self
    simp [Section.arguments, hkeyword, ha]

theorem Keyed.section_at (h : Keyed groups) {plains : List Argument}
    (hplains : ∀ a ∈ plains, ¬ a.IsKeyword sectionKeywords) {n : Nat} {g : Section}
    (hg : groups[n]? = some g) :
    ∃ front a back, plains ++ groups.flatMap Section.arguments = front ++ a :: back ∧
      a.IsKeyword sectionKeywords ∧ front.countP (·.IsKeyword sectionKeywords) = n ∧
      g.name = a.value.upper ∧ g.keyword = some a ∧
      g.files = back.takeWhile fun b => !b.IsKeyword sectionKeywords := by
  obtain ⟨before, rest, rfl, rfl⟩ := split_of_getElem? hg
  obtain ⟨⟨a, hkeyword, ha, hname⟩, hfiles⟩ := h g (by simp)
  have hbefore : Keyed before := fun k hk => h k (by simp [hk])
  have hrest : Keyed rest := fun k hk => h k (by simp [hk])
  refine ⟨plains ++ before.flatMap Section.arguments, a,
    g.files ++ rest.flatMap Section.arguments, ?_, ha, ?_, hname, hkeyword, ?_⟩
  · simp [Section.arguments, hkeyword]
  · exact hbefore.countP hplains
  · rw [hrest.takeWhile hfiles]

end Sections

end Classify

section Directories

theorem directoryOf_of_directory {name directory : Text} (h : name.Directory directory) :
    directoryOf name = directory := by
  rcases h with ⟨base, rfl, hbase⟩ | ⟨hslash, rfl⟩
  · simp [directoryOf, lastIndexOf?_append hbase]
  · simp [directoryOf, lastIndexOf?_eq_none hslash]

theorem directoryOf_iff {name directory : Text} :
    directoryOf name = directory ↔ name.Directory directory := by
  constructor
  · rintro rfl
    by_cases hslash : Glyph.char '/' ∈ name
    · obtain ⟨base, front, hsplit, hbase⟩ :=
        List.eq_append_cons_of_mem (List.mem_reverse.mpr hslash)
      have hdirectory : name.Directory front.reverse := by
        refine Or.inl ⟨base.reverse, ?_, by simpa using hbase⟩
        rw [← List.reverse_reverse name, hsplit]
        simp
      rwa [directoryOf_of_directory hdirectory]
    · rw [directoryOf_of_directory (Or.inr ⟨hslash, rfl⟩)]
      exact Or.inr ⟨hslash, rfl⟩
  · exact directoryOf_of_directory

def Text.Before (s t : Text) : Prop := s.map Glyph.code < t.map Glyph.code

theorem mem_insertSorted {s t : Text} {texts : List Text} :
    s ∈ Text.insertSorted t texts ↔ s = t ∨ s ∈ texts := by
  induction texts with
  | nil => simp [Text.insertSorted]
  | cons u texts ih =>
    rw [Text.insertSorted]
    split
    · next heq => simp [heq]
    · split
      · simp
      · rw [List.mem_cons, ih, List.mem_cons, or_left_comm]

theorem pairwise_insertSorted {t : Text} {texts : List Text} (sorted : texts.Pairwise Text.Before) :
    (Text.insertSorted t texts).Pairwise Text.Before := by
  induction texts with
  | nil => simp [Text.insertSorted]
  | cons u texts ih =>
    obtain ⟨hu, hrest⟩ := List.pairwise_cons.mp sorted
    rw [Text.insertSorted]
    split
    · exact sorted
    next hne =>
    have hcodes : t.map Glyph.code ≠ u.map Glyph.code := fun heq =>
      hne (List.map_injective_iff.mpr (fun _ _ => Glyph.code_injective) heq)
    split
    · next hle =>
      have htu : t.Before u := lt_of_le_of_ne ((Text.le_iff t u).mp hle) hcodes
      refine List.pairwise_cons.mpr ⟨?_, sorted⟩
      intro v hv
      rcases List.mem_cons.mp hv with rfl | hv
      · exact htu
      · exact lt_trans htu (hu v hv)
    · next hle =>
      refine List.pairwise_cons.mpr ⟨?_, ih hrest⟩
      intro v hv
      rcases mem_insertSorted.mp hv with rfl | hv
      · exact not_le.mp fun h => hle ((Text.le_iff v u).mpr h)
      · exact hu v hv

/-- The directories of a section are those of its files that have a name, each of them once. -/
structure Section.Collected (g : Section) : Prop where
  sorted : g.directories.Pairwise Text.Before
  mem : ∀ directory, directory ∈ g.directories ↔
    ∃ a ∈ g.files, a.value ≠ [] ∧ a.value.Directory directory

theorem Section.collected_collectDirectories (g : Section) : g.collectDirectories.Collected := by
  have hfold : ∀ texts : List Text,
      (texts.foldr Text.insertSorted []).Pairwise Text.Before ∧
      ∀ t, t ∈ texts.foldr Text.insertSorted [] ↔ t ∈ texts := by
    intro texts
    induction texts with
    | nil => simp
    | cons t texts ih =>
      refine ⟨pairwise_insertSorted ih.1, fun u => ?_⟩
      rw [List.foldr_cons, mem_insertSorted, ih.2, List.mem_cons]
  obtain ⟨sorted, mem⟩ := hfold g.fileDirectories
  refine ⟨sorted, fun directory => (mem directory).trans ?_⟩
  simp only [fileDirectories, List.mem_map, List.mem_filter, ← directoryOf_iff]
  simp [collectDirectories, and_assoc]

end Directories

open Classify

namespace Sources

variable {found : Sources} {first : Argument} {rest : List Argument}

theorem collected_of_slots {slots : List Slot} (h : found.slots = slots.map collect) :
    ∀ g ∈ found.sections, g.Collected := by
  intro g hg
  rw [sections, h, List.mem_filterMap] at hg
  obtain ⟨slot, hslot, hg⟩ := hg
  obtain ⟨slot, -, rfl⟩ := List.mem_map.mp hslot
  cases slot with
  | plain a => cases hg
  | grouped k =>
    cases hg
    exact k.collected_collectDirectories

theorem splitAtKeywords_of_slots (arguments : found.arguments = first :: rest)
    (h : found.slots = (Slot.plain first :: leadingSlots rest).map collect) :
    SplitAtKeywords first rest found := by
  obtain ⟨plains, groups, hslots, hdivided⟩ := exists_divided rest
  rw [slotsOf, if_pos rfl] at hslots
  rw [hslots, map_collect] at h
  have hsections := sections_of_slots h
  have hplains : ∀ a ∈ plains, ¬ a.IsKeyword sectionKeywords := by
    have := hdivided.plains
    simpa [sectionKeyword?_eq_none] using this
  have hkeyed : Keyed found.sections := by
    rw [hsections]
    exact (hdivided.map (f := Section.collectDirectories) fun g => ⟨rfl, rfl, rfl⟩).keyed
  have hrest : rest = plains ++ found.sections.flatMap Section.arguments := by
    have hall := arguments_of_slots h
    rw [arguments, ← hsections] at hall
    simpa using hall
  have hleading : rest.takeWhile (fun a => !a.IsKeyword sectionKeywords) = plains := by
    rw [hrest]
    exact hkeyed.takeWhile hplains
  refine ⟨?_, ?_, ?_⟩
  · rw [hleading, h, hsections]
  · rw [hrest]
    exact (hkeyed.countP hplains).symm
  · intro n g hg
    rw [hrest]
    exact hkeyed.section_at hplains hg

theorem splitAtFile_of_slots
    (h : found.slots = (Slot.plain first :: targetSlots false rest).map collect) :
    SplitAtFile first rest found := by
  rcases targetSlots_split false rest with ⟨n, hfile, hbefore, hslots⟩ | ⟨hnone, hslots⟩
  · have hwhole := map_collect first (rest.take n) [{ name := [], files := rest.drop n }]
    rw [hslots] at h
    have hgrouped := h.trans hwhole
    exact Or.inl ⟨n, _, hfile, hbefore, hgrouped, sections_of_slots hgrouped, rfl, rfl, rfl⟩
  · have hwhole := map_collect first rest []
    rw [hslots] at h
    have hplain : found.slots = (first :: rest).map .plain ++ ([] : List Section).map .grouped := by
      rw [h]
      simpa using hwhole
    exact Or.inr ⟨hnone, by simpa using hplain, sections_of_slots hplain⟩

/-- Classification loses nothing and splits exactly at keywords. It takes the statements that list
sources and no others. The arguments come back as they were, a list of sources is split at its
section keywords, a declared target at its first file, and every section knows the directories of
its files. -/
theorem classification_splits (s : Statement) (line : Nat) (default : Text) :
    ((∃ found, (Sources.ofStatement? s line default).1 = some found) ↔ s.ListsSources) ∧
    ∀ found, (Sources.ofStatement? s line default).1 = some found →
      found.arguments = s.arguments ∧ (∀ g ∈ found.sections, g.Collected) ∧
      ∃ first rest, s.arguments = first :: rest ∧ found.target = first.value ∧
        (s.command.name = targetSources → SplitAtKeywords first rest found) ∧
        (s.command.name ≠ targetSources → SplitAtFile first rest found) := by
  refine ⟨⟨?_, ?_⟩, ?_⟩
  · rintro ⟨found, h⟩
    obtain ⟨first, rest, harguments, hnamed, hform⟩ := ofStatement?_cases h
    refine ⟨first, rest, harguments, hnamed, ?_⟩
    rcases hform with ⟨hname, -⟩ | ⟨-, hmem, hsource, -⟩
    · exact Or.inl hname
    · exact Or.inr ⟨hmem, isSourceless_eq_false.mp hsource⟩
  · rintro ⟨first, rest, harguments, hnamed, hform⟩
    rw [← isSourceless_eq_false] at hform
    exact ⟨_, ofStatement?_eq harguments hnamed hform line default⟩
  · intro found h
    obtain ⟨-, hlossless, -⟩ := ofStatement?_lossless h
    obtain ⟨first, rest, harguments, -, ⟨hname, hfound⟩ | ⟨hname, -, -, hfound⟩⟩ :=
      ofStatement?_cases h
    · have hslots := congrArg slots hfound
      refine ⟨hlossless, collected_of_slots hslots, first, rest, harguments, by rw [hfound], ?_, ?_⟩
      · intro _
        exact splitAtKeywords_of_slots (hlossless.trans harguments) hslots
      · intro hother
        exact absurd hname hother
    · have hslots := congrArg slots hfound
      refine ⟨hlossless, collected_of_slots hslots, first, rest, harguments, by rw [hfound], ?_, ?_⟩
      · intro hlist
        exact absurd hlist hname
      · intro _
        exact splitAtFile_of_slots hslots

/-- A value that looks like a modifier, and a quoted modifier, which is a file. -/
theorem classification_splits_valued :
    let words : List (Text × Bool) :=
      [("a", false), ("class_name", false), ("STATIC", false), ("", false), ("SHARED", true),
        ("d/x.c", false)]
    let arguments := words.map fun w => ({ value := w.1, quoted := w.2 } : Argument)
    ∃ found, (Sources.ofStatement? ⟨.named "add_library" [] [] [], arguments⟩ 1 "PRIVATE").1 =
        some found ∧ found.arguments = arguments ∧
      SplitAtFile { value := "a" } arguments.tail found ∧
      found.sections.map (·.files) = [arguments.drop 4] ∧
      found.sections.map (·.directories) = [[[], "d"]] := by
  intro words arguments
  obtain ⟨accepted, splits⟩ :=
    classification_splits ⟨.named "add_library" [] [] [], arguments⟩ 1 "PRIVATE"
  obtain ⟨found, hfound⟩ := accepted.mpr
    ⟨_, _, rfl, by decide, Or.inr ⟨by decide +kernel, by decide +kernel⟩⟩
  obtain ⟨hlossless, -, first, rest, harguments, -, -, hsplit⟩ := splits found hfound
  cases harguments
  have hsections : ((Sources.ofStatement? ⟨.named "add_library" [] [] [], arguments⟩ 1
      "PRIVATE").1.map fun f => (f.sections.map (·.files), f.sections.map (·.directories))) =
        some ([arguments.drop 4], [[[], "d"]]) := by decide +kernel
  rw [hfound, Option.map_some, Option.some.injEq, Prod.mk.injEq] at hsections
  exact ⟨found, hfound, hlossless, hsplit (by decide +kernel), hsections⟩

end Sources

end Listfile
