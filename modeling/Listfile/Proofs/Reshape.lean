import Listfile.Proofs.Edit
import Listfile.Proofs.Shape

/-!
Edits keep the shape of a statement. A file that an edit adds, renames, removes or moves is a word
set apart by layout as before, and a section that is opened for a file is opened as the command
reads it.
-/

namespace Listfile

open Scan

/-- An argument that a command takes for a file wherever it stands among files. -/
structure Argument.FileOf (command : Text) (a : Argument) : Prop where
  fit : a.Fit
  unpaired : a.Unpaired
  unkeyed : Classify.Unkeyed command a

structure Section.Sound (command : Text) (g : Section) : Prop where
  opens : Classify.Opens command g.name g.keyword
  keyword : ∀ a ∈ g.keyword, a.Fit ∧ a.Unpaired
  files : ∀ a ∈ g.files, a.FileOf command

/-- A change of the files of a section that leaves files. -/
def Section.Steady (command : Text) (f : Section → Section) : Prop :=
  ∀ g : Section, (∀ a ∈ g.files, a.FileOf command) →
    (f g).name = g.name ∧ (f g).keyword = g.keyword ∧ ∀ a ∈ (f g).files, a.FileOf command

namespace Section

variable {command : Text}

theorem Steady.comp {f k : Section → Section} (hf : Steady command f) (hk : Steady command k) :
    Steady command (k ∘ f) := by
  intro g hg
  obtain ⟨hname, hkeyword, hfiles⟩ := hf g hg
  obtain ⟨hname', hkeyword', hfiles'⟩ := hk (f g) hfiles
  exact ⟨hname'.trans hname, hkeyword'.trans hkeyword, hfiles'⟩

theorem Steady.sound {f : Section → Section} (hf : Steady command f) {g : Section}
    (h : g.Sound command) : (f g).Sound command := by
  obtain ⟨hname, hkeyword, hfiles⟩ := hf g h.files
  exact ⟨by rw [hname, hkeyword]; exact h.opens, by rw [hkeyword]; exact h.keyword, hfiles⟩

end Section

theorem Classify.unkeyed_of_plain {command : Text} {a : Argument} (plain : a.value.Plain) :
    Classify.Unkeyed command a := by
  have hword := plain.unreserved
  simp only [reservedWords, List.mem_append, not_or] at hword
  unfold Classify.Unkeyed
  split
  · simp [sectionKeyword?, hword]
  · simp only [Classify.keywordOf]
    split
    · decide
    · simp [hword]

theorem Argument.fileOf_of_plain {command : Text} {a : Argument} (raw : a.raw = none)
    (plain : a.value.Plain) (quoted : needsQuotation a.value = true → a.quoted = true)
    (spacing : Spacing a.separator) (stable : Utf8.Stable a.separator) : a.FileOf command := by
  obtain ⟨spells, unpaired⟩ := Argument.spells_of_verbatim raw plain.verbatim quoted
  exact ⟨⟨spells, spacing, stable, Argument.stable_of_verbatim raw plain.verbatim⟩, unpaired,
    Classify.unkeyed_of_plain plain⟩

theorem Argument.FileOf.moved {command : Text} {a b : Argument} (ha : a.FileOf command)
    (hb : b.FileOf command) : Argument.FileOf command { a with separator := b.separator } :=
  ⟨⟨⟨ha.fit.spells.word, ha.fit.spells.whole, ha.fit.spells.source⟩, hb.fit.spacing,
    hb.fit.stable.1, ha.fit.stable.2⟩, ha.unpaired, ha.unkeyed⟩

theorem upper_keyword {name : Text} (h : name ∈ sectionKeywords) : name.upper = name := by
  simp only [sectionKeywords, List.mem_cons, List.not_mem_nil, or_false] at h
  rcases h with rfl | rfl | rfl <;> decide

namespace Section

theorem mem_insertFile {key : Text → Text} {x a : Nat × Argument} {l : List (Nat × Argument)}
    (h : x ∈ insertFile key a l) : x = a ∨ x ∈ l := by
  fun_induction insertFile key a l with
  | case1 => simpa using h
  | case2 b rest _ => simpa using h
  | case3 b rest _ ih =>
    rcases List.mem_cons.mp h with rfl | h
    · exact Or.inr List.mem_cons_self
    · exact (ih h).imp_right (.tail _)

theorem mem_sortedFiles {key : Text → Text} {files : List Argument} {x : Nat × Argument}
    (h : x ∈ sortedFiles key files) : x.2 ∈ files := by
  have sorted : ∀ l : List (Nat × Argument), x ∈ l.foldr (insertFile key) [] → x ∈ l := by
    intro l
    induction l with
    | nil => simp
    | cons y l ih =>
      intro hx
      rcases mem_insertFile hx with rfl | hx
      · exact List.mem_cons_self
      · exact .tail _ (ih hx)
  obtain ⟨i, hi, rfl⟩ := List.mem_mapIdx.mp (sorted _ h)
  exact List.getElem_mem hi

theorem mem_restoreLayout {oldFirst x : Argument} {sorted : List (Nat × Argument)}
    (h : x ∈ restoreLayout oldFirst sorted) :
    ∃ a ∈ sorted.map (·.2), ∃ b ∈ oldFirst :: sorted.map (·.2),
      x = { a with separator := b.separator } := by
  have kept : ∀ l : List (Nat × Argument), x ∈ l.map (·.2) →
      ∃ a ∈ l.map (·.2), ∃ b ∈ oldFirst :: l.map (·.2), x = { a with separator := b.separator } :=
    fun l hx => ⟨x, hx, x, .tail _ hx, rfl⟩
  revert h
  fun_cases restoreLayout oldFirst sorted with
  | case1 => simp
  | case2 first rest => exact kept ((0, first) :: rest)
  | case3 n first rest _ => exact kept ((n + 1, first) :: rest)
  | case4 n first rest _ =>
    intro h
    rcases List.mem_cons.mp h with rfl | h
    · exact ⟨first, by simp, oldFirst, by simp, rfl⟩
    · obtain ⟨⟨m, a⟩, ha, rfl⟩ := List.mem_map.mp h
      have hmem : a ∈ ((n + 1, first) :: rest).map (·.2) :=
        List.mem_map_of_mem (f := Prod.snd) (.tail _ ha)
      dsimp only
      split
      · exact ⟨a, hmem, first, by simp, rfl⟩
      · exact ⟨a, hmem, a, .tail _ hmem, rfl⟩

theorem mem_sortFiles {key : Text → Text} {files : List Argument} {x : Argument}
    (h : x ∈ sortFiles key files) :
    ∃ a ∈ files, ∃ b ∈ files, x = { a with separator := b.separator } := by
  cases files with
  | nil => simp [sortFiles] at h
  | cons oldFirst rest =>
    have hsorted : ∀ a ∈ (sortedFiles key (oldFirst :: rest)).map (·.2),
        a ∈ oldFirst :: rest := by
      intro a ha
      obtain ⟨p, hp, rfl⟩ := List.mem_map.mp ha
      exact mem_sortedFiles hp
    obtain ⟨a, ha, b, hb, rfl⟩ := mem_restoreLayout h
    refine ⟨a, hsorted a ha, b, ?_, rfl⟩
    rcases List.mem_cons.mp hb with rfl | hb
    · exact List.mem_cons_self
    · exact hsorted b hb

theorem steady_order (command : Text) (p : Policy) : Steady command p.order := by
  intro g hg
  unfold Policy.order
  split
  · refine ⟨rfl, rfl, fun x hx => ?_⟩
    obtain ⟨a, ha, b, hb, rfl⟩ := mem_sortFiles hx
    exact (hg a ha).moved (hg b hb)
  · exact ⟨rfl, rfl, hg⟩

theorem steady_append {command separator file : Text} (spacing : Spacing separator)
    (stable : Utf8.Stable separator) (plain : file.Plain) :
    Steady command (Document.appendFile separator file) := by
  intro g hg
  refine ⟨rfl, rfl, fun x hx => ?_⟩
  rcases List.mem_append.mp hx with hx | hx
  · exact hg x hx
  · rw [List.mem_singleton.mp hx]
    cases hlast : g.files.getLast? with
    | none => exact Argument.fileOf_of_plain rfl plain id spacing stable
    | some last =>
      have hfit := (hg last (List.mem_of_getLast? hlast)).fit
      exact Argument.fileOf_of_plain rfl plain id hfit.spacing.inherit
        (Spacing.stable_inherit hfit.stable.1)

theorem steady_rename {command new : Text} (plain : new.Plain) (k : Nat) :
    Steady command (Document.renameAt new k) := by
  intro g hg
  refine ⟨rfl, rfl, fun x hx => ?_⟩
  obtain ⟨i, hi⟩ := List.mem_iff_getElem?.mp hx
  rw [Document.renameAt, List.getElem?_modify] at hi
  obtain ⟨a, ha, rfl⟩ := Option.map_eq_some_iff.mp hi
  have hfile := hg a (List.mem_of_getElem? ha)
  split
  · exact Argument.fileOf_of_plain rfl plain
      (fun hq => by simp [Document.renameArgument, Argument.setValue] at hq ⊢; exact Or.inr hq)
      hfile.fit.spacing hfile.fit.stable.1
  · exact hfile

theorem steady_remove (command : Text) (k : Nat) : Steady command (Document.removeAt k) :=
  fun _ hg => ⟨rfl, rfl, fun x hx => hg x (List.mem_of_mem_eraseIdx hx)⟩

theorem opened_of_keyword {name : Text} (keyword : name ∈ sectionKeywords) (separator : Text) :
    opened name separator =
      { name := name, keyword := some ⟨name, false, separator, none⟩ } := by
  have hempty : name.isEmpty = false := by
    simp only [sectionKeywords, List.mem_cons, List.not_mem_nil, or_false] at keyword
    rcases keyword with rfl | rfl | rfl <;> decide
  simp [opened, upper_keyword keyword, hempty]

/-- The section that a policy opens is one that is read back. -/
theorem sound_opened {name separator : Text} (keyword : name ∈ sectionKeywords)
    (spacing : Spacing separator) (stable : Utf8.Stable separator) :
    (opened name separator).Sound Classify.targetSources := by
  have hupper := upper_keyword keyword
  obtain ⟨hwhole, hplain, hstable⟩ : Whole .identifier name ∧ .char '\\' ∉ name ∧
      Utf8.Stable name := by
    simp only [sectionKeywords, List.mem_cons, List.not_mem_nil, or_false] at keyword
    rcases keyword with rfl | rfl | rfl <;> decide
  have hword : Argument.Spells ⟨name, false, separator, none⟩ ∧
      Argument.Unpaired ⟨name, false, separator, none⟩ :=
    Argument.spells_of_whole hwhole (by decide) (by decide) fun other => by
      simp [Parse.delimiterOf, Argument.ofSource?, Argument.asRead, Argument.sourceText,
        unescape_of_not_mem hplain]
  rw [opened_of_keyword keyword]
  refine ⟨?_, ?_, by simp⟩
  · simp [Classify.Opens, sectionKeyword?, hupper, keyword]
  · rintro a ⟨⟩
    exact ⟨⟨hword.1, spacing, stable, hstable⟩, hword.2⟩

end Section

theorem forall_mem_modify {α : Type} {P : α → Prop} {f : α → α} (hf : ∀ a, P a → P (f a))
    {l : List α} (h : ∀ a ∈ l, P a) (n : Nat) : ∀ a ∈ l.modify n f, P a := by
  intro x hx
  obtain ⟨i, hi⟩ := List.mem_iff_getElem?.mp hx
  rw [List.getElem?_modify] at hi
  obtain ⟨a, ha, rfl⟩ := Option.map_eq_some_iff.mp hi
  have := h a (List.mem_of_getElem? ha)
  split
  · exact hf a this
  · exact this

theorem Slot.modifySection_eq (f : Section → Section) (n : Nat) (plains : List Argument)
    (groups : List Section) :
    Slot.modifySection f n (plains.map .plain ++ groups.map .grouped) =
      plains.map .plain ++ (groups.modify n f).map .grouped := by
  induction plains with
  | nil =>
    induction groups generalizing n with
    | nil => simp [Slot.modifySection]
    | cons g groups ih =>
      cases n with
      | zero => rfl
      | succ n => simpa [Slot.modifySection] using ih n
  | cons a plains ih => simpa [Slot.modifySection] using ih

theorem Sources.findSection?_eq_none {s : Sources} {name : Text}
    (h : s.findSection? name = none) : ∀ g ∈ s.sections, g.name ≠ name.upper := by
  have go : ∀ (groups : List Section) (n : Nat) (found : Option Nat),
      Sources.findSection?.go name n found groups = none →
        found = none ∧ ∀ g ∈ groups, g.name ≠ name.upper := by
    intro groups
    induction groups with
    | nil => exact fun n found hf => ⟨hf, by simp⟩
    | cons g groups ih =>
      intro n found hf
      obtain ⟨hfound, hgroups⟩ := ih _ _ hf
      by_cases hg : g.name = name.upper
      · simp [hg] at hfound
      · rw [if_neg hg] at hfound
        exact ⟨hfound, List.forall_mem_cons.mpr ⟨hg, hgroups⟩⟩
  exact (go s.sections 0 none h).2

namespace Sources.Shape

variable {s : Sources} {first : Argument} {plains : List Argument} {groups : List Section}

theorem sound (h : s.Shape first plains groups) : ∀ g ∈ groups, g.Sound s.command.name := by
  intro g hg
  refine ⟨h.divided.opens g hg, fun a ha => ?_, fun a ha => ?_⟩
  · exact h.groupFit g hg a (List.mem_append_left _ (by simpa using ha))
  · obtain ⟨fit, unpaired⟩ := h.groupFit g hg a (List.mem_append_right _ ha)
    exact ⟨fit, unpaired, h.divided.files g hg a ha⟩

theorem regroup (h : s.Shape first plains groups) {groups' : List Section}
    (sound : ∀ g ∈ groups', g.Sound s.command.name)
    (single : s.command.name ≠ Classify.targetSources → groups'.length ≤ 1) (marked : Bool) :
    Shape { s with
      slots := (first :: plains).map .plain ++ groups'.map .grouped, dirty := marked }
      first plains groups' := by
  refine ⟨rfl, h.target, h.named, h.form, h.preferred, ⟨?_, fun g hg => (sound g hg).opens,
    fun g hg a ha => ((sound g hg).files a ha).unkeyed⟩, h.command, h.head, h.plainFit, ?_,
    h.nested⟩
  · have hplains := h.divided.plains
    split at hplains
    · next hc => rwa [if_pos hc]
    · next hc =>
      rw [if_neg hc]
      exact ⟨hplains.1, hplains.2.1, single hc⟩
  · intro g hg a ha
    rcases List.mem_append.mp ha with ha | ha
    · exact (sound g hg).keyword a (by simpa using ha)
    · exact ⟨((sound g hg).files a ha).fit, ((sound g hg).files a ha).unpaired⟩

theorem revise (h : s.Shape first plains groups) {f : Section → Section}
    (steady : Section.Steady s.command.name f) (separator : Text) (n : Nat) :
    (s.revise none separator n f).Shape first plains (groups.modify n f) := by
  have hrevise : s.revise none separator n f = { s with
      slots := (first :: plains).map .plain ++ (groups.modify n f).map .grouped,
      dirty := true } := by
    rw [← Slot.modifySection_eq, ← h.slots]
    rfl
  rw [hrevise]
  refine h.regroup (forall_mem_modify (fun g hg => steady.sound hg) h.sound n) ?_ true
  intro hc
  have hplains := h.divided.plains
  rw [if_neg hc] at hplains
  rw [List.length_modify]
  exact hplains.2.2

/-- The section that a statement asks for may be opened where there is none. -/
theorem addSection (h : s.Shape first plains groups) {separator : Text}
    (missing : s.findSection? s.defaultSection = none)
    (keyword : s.command.name = Classify.targetSources → s.defaultSection ∈ sectionKeywords)
    (spacing : Spacing separator) (stable : Utf8.Stable separator) :
    (s.addSection s.defaultSection separator).Shape first plains
      (groups ++ [Section.opened s.defaultSection separator]) := by
  have hadd : s.addSection s.defaultSection separator = { s with
      slots := (first :: plains).map .plain ++
        (groups ++ [Section.opened s.defaultSection separator]).map .grouped,
      dirty := s.dirty } := by
    rw [List.map_append, ← List.append_assoc, ← h.slots]
    rfl
  rw [hadd]
  by_cases hc : s.command.name = Classify.targetSources
  · refine h.regroup ?_ (fun hn => absurd hc hn) s.dirty
    intro g hg
    rcases List.mem_append.mp hg with hg | hg
    · exact h.sound g hg
    · rw [List.mem_singleton.mp hg, hc]
      exact Section.sound_opened (keyword hc) spacing stable
  · -- All sections of a target are anonymous, so there is none yet.
    obtain ⟨-, hdefault⟩ := h.form.resolve_left hc
    have hnone : groups = [] := by
      apply List.eq_nil_iff_forall_not_mem.mpr
      intro g hg
      have hopens := h.divided.opens g hg
      rw [Classify.Opens, if_neg hc] at hopens
      rw [hdefault] at missing
      exact findSection?_eq_none missing g (by rw [sections_of_slots h.slots]; exact hg) hopens.2
    refine h.regroup ?_ (fun _ => by simp [hnone]) s.dirty
    intro g hg
    rw [hnone, hdefault] at hg
    rw [List.mem_singleton.mp hg]
    refine ⟨?_, by simp [Section.opened, Text.upper], by simp [Section.opened]⟩
    rw [Classify.Opens, if_neg hc]
    exact ⟨rfl, rfl⟩

end Sources.Shape

end Listfile
