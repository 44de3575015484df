import Listfile.Proofs.Session
import Listfile.Proofs.Site

/-!
Edits as operations on lists of files. Seen from outside, a document is a list of targets and a
list of files for each of them. Adding puts a file into the list of its target, removing takes the
first of a name out of it, renaming gives the first of a name another one; nothing else changes. A
policy that sorts moves the files of the section that was edited, and no others.
-/

namespace Listfile

/-- The names in a list of files. An empty argument is no name. -/
def Section.namesOf (files : List Argument) : List Text :=
  (files.map (·.value)).filter fun v => !v.isEmpty

def Section.names (g : Section) : List Text := namesOf g.files

def Sources.listed (statements : List Sources) : List (List Text) :=
  statements.flatMap fun s => s.sections.map Section.names

def Document.groups (d : Document) (target : Text) : List (List Text) :=
  Sources.listed (d.sourcesOf target)

/-- The files of a target become the given ones and those of the others stay. Sorting leaves the
files in their sections and moves them in one section at most, the one that was changed. -/
structure Document.Relists (d d' : Document) (target : Text) (files : List Text) : Prop where
  others : ∀ t, t ≠ target → d'.sourceFiles t = d.sourceFiles t
  unsorted : d.policy.sorting = false → d'.sourceFiles target = files
  sorted : ∃ before plain sorted after,
    (d.groups target = before ++ after ∨ ∃ old, d.groups target = before ++ old :: after) ∧
    files = before.flatten ++ plain ++ after.flatten ∧
    d'.groups target = before ++ sorted :: after ∧ sorted.Perm plain

/-- An edit answers whether it was possible, does nothing if not, and has an effect otherwise. It
always answers unless files are sorted. -/
structure Document.Performs (d : Document) (r : Reply Document Bool) (possible : Prop)
    (effect : Document → Prop) : Prop where
  returns : d.policy.sorting = false → ∃ b, r.result = .ok b
  answer : ∀ b, r.result = .ok b → (b = true ↔ possible)
  refused : r.result = .ok false → r.state = d
  done : r.result = .ok true → effect r.state

namespace Section

theorem perm_insertFile (key : Text → Text) (a : Nat × Argument) (l : List (Nat × Argument)) :
    (insertFile key a l).Perm (a :: l) := by
  induction l with
  | nil => exact .refl _
  | cons b rest ih =>
    rw [insertFile]
    split
    · exact .refl _
    · exact (ih.cons b).trans (.swap a b rest)

theorem perm_foldr_insertFile (key : Text → Text) (l : List (Nat × Argument)) :
    (l.foldr (insertFile key) []).Perm l := by
  induction l with
  | nil => exact .refl _
  | cons a l ih => exact (perm_insertFile key a _).trans (ih.cons a)

theorem perm_numbered (key : Text → Text) (files : List Argument) :
    (sortedFiles key files).Perm (files.mapIdx Prod.mk) :=
  perm_foldr_insertFile key _

theorem map_numbered (files : List Argument) : (files.mapIdx Prod.mk).map (·.2) = files := by
  simp [List.mapIdx_eq_zipIdx_map, Function.comp_def]

theorem perm_sortedFiles (key : Text → Text) (files : List Argument) :
    ((sortedFiles key files).map (·.2)).Perm files :=
  ((perm_numbered key files).map (·.2)).trans (.of_eq (map_numbered files))

theorem values_restoreLayout (oldFirst : Argument) (sorted : List (Nat × Argument)) :
    (restoreLayout oldFirst sorted).map (·.value) = sorted.map (·.2.value) := by
  fun_cases restoreLayout oldFirst sorted with
  | case1 => rfl
  | case2 first rest => simp
  | case3 n first rest _ => simp
  | case4 n first rest _ =>
    simp only [List.map_cons, List.map_map, List.cons.injEq, true_and]
    apply List.map_congr_left
    rintro ⟨m, a⟩ _
    simp only [Function.comp_apply]
    split <;> rfl

theorem values_sortFiles (key : Text → Text) (files : List Argument) :
    ((sortFiles key files).map (·.value)).Perm (files.map (·.value)) := by
  cases files with
  | nil => exact .refl _
  | cons first rest =>
    have hperm := (perm_sortedFiles key (first :: rest)).map (·.value)
    rw [List.map_map] at hperm
    rw [sortFiles, values_restoreLayout]
    exact hperm

theorem names_order (p : Policy) (g : Section) : (p.order g).names.Perm g.names := by
  unfold Policy.order
  split
  · exact (values_sortFiles p.collation g.files).filter _
  · exact .refl _

theorem names_append {separator file : Text} (hfile : file ≠ []) (g : Section) :
    (Document.appendFile separator file g).names = g.names ++ [file] := by
  simp [names, namesOf, Document.appendFile, hfile]

theorem not_mem_namesOf {files : List Argument} {file : Text} (h : ∀ a ∈ files, a.value ≠ file) :
    file ∉ namesOf files := by
  intro hmem
  obtain ⟨a, ha, hvalue⟩ := List.mem_map.mp (List.mem_of_mem_filter hmem)
  exact h a ha hvalue

theorem namesOf_split {before after : List Argument} {a : Argument} (ha : a.value ≠ []) :
    namesOf (before ++ a :: after) = namesOf before ++ a.value :: namesOf after := by
  simp [namesOf, ha]

end Section

namespace Sources

theorem listed_append (s t : List Sources) : listed (s ++ t) = listed s ++ listed t := by
  simp [listed]

theorem listed_cons (s : Sources) (rest : List Sources) :
    listed (s :: rest) = s.sections.map Section.names ++ listed rest := by
  simp [listed]

theorem flatten_listed (statements : List Sources) :
    (listed statements).flatten = statements.flatMap fileNames := by
  induction statements with
  | nil => rfl
  | cons s rest ih =>
    have hs : (s.sections.map Section.names).flatten = s.fileNames := by
      rw [fileNames, List.filter_flatMap]
      rfl
    rw [listed_cons, List.flatten_append, hs, ih, List.flatMap_cons]

theorem not_mem_listed {statements : List Sources} {file : Text}
    (h : ∀ s ∈ statements, ∀ g ∈ s.sections, ∀ a ∈ g.files, a.value ≠ file) :
    file ∉ (listed statements).flatten := by
  intro hmem
  obtain ⟨group, hgroup, hfile⟩ := List.mem_flatten.mp hmem
  obtain ⟨s, hs, hsection⟩ := List.mem_flatMap.mp hgroup
  obtain ⟨g, hg, rfl⟩ := List.mem_map.mp hsection
  exact Section.not_mem_namesOf (h s hs g hg) hfile

end Sources

namespace Site

variable {separator : Text} {candidates : List Sources}

def before (x : Site separator candidates) : List (List Text) :=
  Sources.listed x.earlier ++ (x.left.filterMap Slot.section?).map Section.names

def after (x : Site separator candidates) : List (List Text) :=
  (x.right.filterMap Slot.section?).map Section.names ++ Sources.listed x.later

theorem listed_edited (x : Site separator candidates) (f : Section → Section) :
    Sources.listed (x.earlier ++ x.edited f :: x.later) =
      x.before ++ (f x.group).names :: x.after := by
  simp [Sources.listed_append, Sources.listed_cons, edited, Sources.sections, Slot.section?,
    before, after]

theorem listed_standing {x : Site separator candidates}
    (h : x.statement.slots = x.left ++ .grouped x.group :: x.right) :
    Sources.listed candidates = x.before ++ x.group.names :: x.after := by
  refine (congrArg Sources.listed x.candidates_eq).trans ?_
  simp [Sources.listed_append, Sources.listed_cons, Sources.sections, h, Slot.section?, before,
    after]

/-- The section of a site is listed, or it is a new one without files. -/
theorem listed_cases (x : Site separator candidates) :
    Sources.listed candidates = x.before ++ x.group.names :: x.after ∨
      (x.group.names = [] ∧ Sources.listed candidates = x.before ++ x.after) := by
  obtain ⟨earlier, s, later, left, g, right, hcandidates, room⟩ := x
  cases room with
  | standing hslots => exact Or.inl (listed_standing hslots)
  | opened _ _ =>
    refine Or.inr ⟨rfl, ?_⟩
    simp [hcandidates, Sources.listed_append, Sources.listed_cons, Sources.sections, before, after]

theorem flatten_candidates (x : Site separator candidates) :
    (Sources.listed candidates).flatten = x.before.flatten ++ x.group.names ++ x.after.flatten := by
  rcases x.listed_cases with h | ⟨hnames, h⟩
  · simp [h]
  · simp [h, hnames]

theorem Finds.not_mem {x : Site separator candidates} {file : Text} {front back : List Argument}
    {a : Argument} (h : x.Finds file front a back) :
    file ∉ x.before.flatten ++ Section.namesOf front := by
  rw [List.mem_append, Site.before, List.flatten_append, List.mem_append]
  rintro ((hmem | hmem) | hmem)
  · exact Sources.not_mem_listed h.earlier hmem
  · obtain ⟨names, hnames, hfile⟩ := List.mem_flatten.mp hmem
    obtain ⟨g, hg, rfl⟩ := List.mem_map.mp hnames
    exact Section.not_mem_namesOf (h.left g hg) hfile
  · exact Section.not_mem_namesOf h.before hmem

end Site

namespace Document

theorem sourceFiles_eq (d : Document) (target : Text) :
    d.sourceFiles target = (d.groups target).flatten :=
  (Sources.flatten_listed _).symm

section editAt

variable (d : Document) (target : Text) {separator : Text}
  (x : Site separator (d.sourcesOf target)) (f : Section → Section)

theorem sourcesOf_editAt :
    (d.editAt target x f).sourcesOf target = x.earlier ++ x.edited f :: x.later := by
  obtain ⟨before, after, -, hitems, hbefore, hafter⟩ := d.items_editAt target x f
  have htarget : (x.edited f).target = target := d.target_statement target x
  rw [sourcesOf, sources_eq_items, hitems, List.filterMap_append, List.filter_append, hbefore,
    List.filterMap_cons_some (Block.sources?_listing _),
    List.filter_cons_of_pos (by simpa using htarget), hafter]

theorem sourcesOf_editAt_of_ne {t : Text} (ht : t ≠ target) :
    (d.editAt target x f).sourcesOf t = d.sourcesOf t := by
  obtain ⟨before, after, hold, hnew, -, -⟩ := d.items_editAt target x f
  have dropped : ∀ s : Sources, s.target ≠ t →
      ((before ++ .listing s :: after).filterMap Block.sources?).filter (fun s => s.target = t) =
        (before.filterMap Block.sources?).filter (fun s => s.target = t) ++
          (after.filterMap Block.sources?).filter (fun s => s.target = t) := by
    intro s hs
    simp [hs]
  have hs : x.statement.target ≠ t := by
    rw [d.target_statement target x]
    exact ht.symm
  rw [sourcesOf, sourcesOf, sources_eq_items, sources_eq_items, hold, hnew, dropped _ hs,
    dropped (x.edited f) hs]

theorem targets_editAt : (d.editAt target x f).targets = d.targets := by
  obtain ⟨before, after, hold, hnew, -, -⟩ := d.items_editAt target x f
  have hs : (x.edited f).target = x.statement.target := rfl
  simp [targets, sources_eq_items, hold, hnew, hs]

theorem relists_editAt :
    d.Relists (d.editAt target x (d.policy.order ∘ f)) target
      (x.before.flatten ++ (f x.group).names ++ x.after.flatten) := by
  have hgroups : (d.editAt target x (d.policy.order ∘ f)).groups target =
      x.before ++ (d.policy.order (f x.group)).names :: x.after := by
    rw [groups, sourcesOf_editAt, x.listed_edited, Function.comp_apply]
  refine ⟨?_, ?_, ?_⟩
  · intro t ht
    rw [sourceFiles, sourceFiles, sourcesOf_editAt_of_ne d target x _ ht]
  · intro unsorted
    rw [sourceFiles_eq, hgroups, Policy.order_unsorted unsorted]
    simp
  · refine ⟨x.before, _, _, x.after, ?_, rfl, hgroups, Section.names_order _ _⟩
    rcases x.listed_cases with h | ⟨-, h⟩
    · exact Or.inr ⟨_, h⟩
    · exact Or.inl h

end editAt

theorem mem_distinct {texts : List Text} {t : Text} : t ∈ distinct texts ↔ t ∈ texts := by
  have walk : ∀ (texts seen : List Text),
      t ∈ texts.foldl (fun seen t => if seen.contains t then seen else seen ++ [t]) seen ↔
        t ∈ seen ∨ t ∈ texts := by
    intro texts
    induction texts with
    | nil => simp
    | cons u rest ih =>
      intro seen
      rw [List.foldl_cons, ih]
      by_cases hu : u ∈ seen
      · simp only [List.contains_iff_mem, hu, if_true, List.mem_cons]
        constructor
        · rintro (h | h)
          · exact Or.inl h
          · exact Or.inr (Or.inr h)
        · rintro (h | rfl | h)
          · exact Or.inl h
          · exact Or.inl hu
          · exact Or.inr h
      · simp [hu, or_assoc]
  exact (walk texts []).trans (by simp)

theorem mem_targets {d : Document} {target : Text} :
    target ∈ d.targets ↔ d.sourcesOf target ≠ [] := by
  rw [targets, mem_distinct, List.mem_map]
  constructor
  · rintro ⟨s, hs, ht⟩ hnil
    have hmem : s ∈ d.sourcesOf target := List.mem_filter.mpr ⟨hs, by simpa using ht⟩
    rw [hnil] at hmem
    cases hmem
  · intro hne
    obtain ⟨s, hs⟩ := List.exists_mem_of_ne_nil _ hne
    obtain ⟨hmem, ht⟩ := List.mem_filter.mp hs
    exact ⟨s, hmem, by simpa using ht⟩

theorem targets_withBlock {d : Document} {target : Text} (h : target ∉ d.targets) :
    (d.withBlock target).targets = d.targets ++ [target] := by
  have hnew : (d.newBlock target).target = target := rfl
  have hseen : (distinct (d.sources.map (·.target))).contains target = false := by
    rw [← targets]
    simpa using h
  rw [targets, sources_withBlock, List.map_append, distinct, List.foldl_append]
  simp only [List.map_cons, List.map_nil, List.foldl_cons, List.foldl_nil, hnew]
  rw [← distinct, hseen]
  rfl

theorem groups_withBlock (d : Document) (target t : Text) :
    (d.withBlock target).groups t = d.groups t := by
  rw [groups, groups, sourcesOf, sources_withBlock, List.filter_append, Sources.listed_append]
  by_cases ht : target = t
  · simp [sourcesOf, Sources.listed, newBlock, ht, Sources.sections, Slot.section?]
  · simp [sourcesOf, Sources.listed, newBlock, ht]

theorem Relists.of_groups {d d₁ d' : Document} {target : Text} {files : List Text}
    (h : d₁.Relists d' target files) (policy : d₁.policy = d.policy)
    (groups : ∀ t, d₁.groups t = d.groups t) : d.Relists d' target files := by
  refine ⟨?_, ?_, ?_⟩
  · intro t ht
    rw [h.others t ht, sourceFiles_eq, sourceFiles_eq, groups]
  · intro unsorted
    exact h.unsorted (by rw [policy, unsorted])
  · rw [← groups]
    exact h.sorted

namespace Performs

variable {d : Document} {r : Reply Document Bool} {possible : Prop} {effect : Document → Prop}

theorem failed (sorting : d.policy.sorting = true) {fault : Fault} (h : r.result = .error fault) :
    d.Performs r possible effect := by
  refine ⟨?_, ?_, ?_, ?_⟩
  · intro unsorted
    rw [sorting] at unsorted
    cases unsorted
  · intro b hb
    rw [h] at hb
    cases hb
  · intro hb
    rw [h] at hb
    cases hb
  · intro hb
    rw [h] at hb
    cases hb

theorem declined (h : r.result = .ok false) (state : r.state = d) (impossible : ¬ possible) :
    d.Performs r possible effect := by
  refine ⟨fun _ => ⟨false, h⟩, ?_, fun _ => state, ?_⟩
  · intro b hb
    rw [h] at hb
    cases hb
    simpa using impossible
  · intro hb
    rw [h] at hb
    cases hb

theorem succeeded (h : r.result = .ok true) (hp : possible) (he : effect r.state) :
    d.Performs r possible effect := by
  refine ⟨fun _ => ⟨true, h⟩, ?_, ?_, fun _ => he⟩
  · intro b hb
    rw [h] at hb
    cases hb
    simpa using hp
  · intro hb
    rw [h] at hb
    cases hb

end Performs

variable {d : Document} {target : Text}

theorem relists_append (x : Site d.policy.separator (d.sourcesOf target)) {file : Text}
    (hfile : file ≠ []) :
    ∃ l₁ l₂, d.sourceFiles target = l₁ ++ l₂ ∧
      d.Relists (d.editAt target x (d.policy.order ∘ appendFile d.policy.separator file)) target
        (l₁ ++ [file] ++ l₂) := by
  refine ⟨x.before.flatten ++ x.group.names, x.after.flatten, ?_, ?_⟩
  · rw [sourceFiles_eq]
    exact x.flatten_candidates
  · have h := d.relists_editAt target x (appendFile d.policy.separator file)
    rw [Section.names_append hfile] at h
    simpa using h

theorem addFile_performs (loaded : d.loaded = true) {file : Text} (hfile : file ≠ [])
    (hint : Option Text) :
    d.Performs (d.addFile target file hint) (target ∈ d.targets ∨ d.policy.creating = true)
      fun d' => (∃ l₁ l₂, d.sourceFiles target = l₁ ++ l₂ ∧
          d.Relists d' target (l₁ ++ [file] ++ l₂)) ∧
        d'.targets = if target ∈ d.targets then d.targets else d.targets ++ [target] := by
  rcases addFile_editAt d target file hint with ⟨sorting, fault, herr⟩ | ⟨hno, hstate, hwhy⟩ |
    ⟨hyes, hsome, x, hstate⟩ | ⟨hyes, hnone, hcreating, x, hstate⟩
  · exact .failed sorting herr
  · refine .declined hno hstate ?_
    rcases hwhy with hloaded | hnil | ⟨hnone, hcreating⟩
    · rw [loaded] at hloaded
      cases hloaded
    · exact absurd hnil hfile
    · simp [mem_targets, hnone, hcreating]
  · refine .succeeded hyes (Or.inl (mem_targets.mpr hsome)) ?_
    rw [hstate]
    refine ⟨relists_append x hfile, ?_⟩
    rw [targets_editAt, if_pos (mem_targets.mpr hsome)]
  · refine .succeeded hyes (Or.inr hcreating) ?_
    have habsent : target ∉ d.targets := by simp [mem_targets, hnone]
    rw [hstate]
    constructor
    · -- The new block brings no files, so the target is edited as if it had been there.
      obtain ⟨l₁, l₂, hfiles, hrelists⟩ := relists_append (d := d.withBlock target) x hfile
      have hgroups := d.groups_withBlock target
      refine ⟨l₁, l₂, ?_, hrelists.of_groups rfl hgroups⟩
      rw [← hfiles, sourceFiles_eq, sourceFiles_eq, hgroups]
    · rw [targets_editAt, targets_withBlock habsent, if_neg habsent]

theorem split_sourceFiles {separator : Text} {x : Site separator (d.sourcesOf target)}
    {file : Text} {before after : List Argument} {a : Argument}
    (finds : x.Finds file before a after) (hfile : file ≠ []) :
    d.sourceFiles target = x.before.flatten ++ Section.namesOf before ++
      file :: (Section.namesOf after ++ x.after.flatten) := by
  have hnames : x.group.names = Section.namesOf before ++ file :: Section.namesOf after := by
    have hvalue : a.value ≠ [] := by rwa [finds.value]
    have hsplit := @Section.namesOf_split before after a hvalue
    rw [finds.value, ← finds.files] at hsplit
    exact hsplit
  rw [sourceFiles_eq, groups, Site.listed_standing finds.standing, hnames]
  simp

theorem not_mem_sourceFiles {file : Text}
    (h : ∀ s ∈ d.sourcesOf target, ∀ g ∈ s.sections, ∀ a ∈ g.files, a.value ≠ file) :
    file ∉ d.sourceFiles target := by
  rw [sourceFiles_eq]
  exact Sources.not_mem_listed h

theorem removeFile_performs (loaded : d.loaded = true) {file : Text} (hfile : file ≠ []) :
    d.Performs (d.removeFile target file) (file ∈ d.sourceFiles target)
      fun d' => d.Relists d' target ((d.sourceFiles target).erase file) ∧
        d'.targets = d.targets := by
  rw [removeFile_of_loaded loaded]
  rcases changeFile_editAt d target file removeAt with ⟨sorting, fault, herr⟩ |
    ⟨hno, hstate, hmissing⟩ | ⟨hyes, x, before, a, after, finds, hstate⟩
  · exact .failed sorting herr
  · exact .declined hno hstate (not_mem_sourceFiles hmissing)
  · have hsplit := split_sourceFiles finds hfile
    have herase : (d.sourceFiles target).erase file =
        x.before.flatten ++ (removeAt before.length x.group).names ++ x.after.flatten := by
      have hfiles : (removeAt before.length x.group).files = before ++ after := by
        simp [removeAt, finds.files, List.eraseIdx_append_of_length_le]
      rw [hsplit, List.erase_append_right _ finds.not_mem, List.erase_cons_head]
      simp [Section.names, hfiles, Section.namesOf]
    refine .succeeded hyes (by rw [hsplit]; simp) ?_
    rw [hstate, herase]
    exact ⟨d.relists_editAt target x _, d.targets_editAt target x _⟩

theorem renameFile_performs (loaded : d.loaded = true) {old new : Text} (hold : old ≠ [])
    (hnew : new ≠ []) :
    d.Performs (d.renameFile target old new) (old ∈ d.sourceFiles target)
      fun d' => d.Relists d' target ((d.sourceFiles target).replace old new) ∧
        d'.targets = d.targets := by
  rw [renameFile_of_loaded loaded target old hnew]
  rcases changeFile_editAt d target old (renameAt new) with ⟨sorting, fault, herr⟩ |
    ⟨hno, hstate, hmissing⟩ | ⟨hyes, x, before, a, after, finds, hstate⟩
  · exact .failed sorting herr
  · exact .declined hno hstate (not_mem_sourceFiles hmissing)
  · have hsplit := split_sourceFiles finds hold
    have hreplace : (d.sourceFiles target).replace old new =
        x.before.flatten ++ (renameAt new before.length x.group).names ++ x.after.flatten := by
      have hfiles : (renameAt new before.length x.group).files =
          before ++ renameArgument new a :: after := by
        simp [renameAt, finds.files, modify_split]
      rw [hsplit, List.replace_append_right finds.not_mem, List.replace_cons_self]
      simp [Section.names, hfiles, Section.namesOf, renameArgument, Argument.setValue, hnew]
    refine .succeeded hyes (by rw [hsplit]; simp) ?_
    rw [hstate, hreplace]
    exact ⟨d.relists_editAt target x _, d.targets_editAt target x _⟩

end Document

/-- The edits of a loaded document are operations on the lists of files of its targets. -/
theorem edits_refine (d : Document) (loaded : d.loaded = true) (target : Text) :
    (∀ file hint, file ≠ [] → d.Performs (d.addFile target file hint)
      (target ∈ d.targets ∨ d.policy.creating = true)
      fun d' => (∃ l₁ l₂, d.sourceFiles target = l₁ ++ l₂ ∧
          d.Relists d' target (l₁ ++ [file] ++ l₂)) ∧
        d'.targets = if target ∈ d.targets then d.targets else d.targets ++ [target]) ∧
    (∀ file, file ≠ [] → d.Performs (d.removeFile target file) (file ∈ d.sourceFiles target)
      fun d' => d.Relists d' target ((d.sourceFiles target).erase file) ∧
        d'.targets = d.targets) ∧
    (∀ old new, old ≠ [] → new ≠ [] → d.Performs (d.renameFile target old new)
      (old ∈ d.sourceFiles target)
      fun d' => d.Relists d' target ((d.sourceFiles target).replace old new) ∧
        d'.targets = d.targets) := by
  refine ⟨?_, ?_, ?_⟩
  · intro file hint hfile
    exact Document.addFile_performs loaded hfile hint
  · intro file hfile
    exact Document.removeFile_performs loaded hfile
  · intro old new hold hnew
    exact Document.renameFile_performs loaded hold hnew

theorem edits_refine_listed_twice :
    ∃ d : Document, d.loaded = true ∧ d.policy.sorting = false ∧
      d.targets = [Text.ofString "a", Text.ofString "b"] ∧
      d.sourceFiles "a" = [Text.ofString "x", Text.ofString "y", Text.ofString "x"] ∧
      (d.removeFile "a" "x").result = .ok true ∧
      (d.removeFile "a" "x").state.sourceFiles "a" = [Text.ofString "y", Text.ofString "x"] ∧
      (d.removeFile "a" "x").state.sourceFiles "b" = d.sourceFiles "b" ∧
      (d.removeFile "a" "x").state.targets = d.targets := by
  let d := (Document.ofBuffer (.ofString
    "add_library(a x \"\" y)\nadd_library(b x)\ntarget_sources(a PUBLIC x)") {}).state
  have loaded : d.loaded = true := by decide +kernel
  have unsorted : d.policy.sorting = false := by decide +kernel
  have files : d.sourceFiles "a" = [Text.ofString "x", Text.ofString "y", Text.ofString "x"] := by
    decide +kernel
  have removal := (edits_refine d loaded "a").2.1 "x" (by decide)
  obtain ⟨b, hb⟩ := removal.returns unsorted
  obtain rfl : b = true := (removal.answer b hb).mpr (by rw [files]; decide)
  obtain ⟨hrelists, htargets⟩ := removal.done hb
  refine ⟨d, loaded, unsorted, by decide +kernel, files, hb, ?_, hrelists.others "b" (by decide),
    htargets⟩
  rw [hrelists.unsorted unsorted, files]
  decide

end Listfile
