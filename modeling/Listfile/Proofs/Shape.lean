import Listfile.Proofs.Division
import Listfile.Proofs.Wording

/-!
The shape of a statement that lists sources and can be edited and read back: its target, plain
arguments, and sections whose files are words set apart by layout. Such a statement is legible, and
what is read from its text has the same shape.
-/

namespace Listfile

open Scan Parse

/-- An argument that is read back wherever it stands after another. -/
structure Argument.Fit (a : Argument) : Prop where
  spells : a.Spells
  spacing : Spacing a.separator
  stable : Utf8.Stable a.separator ∧ Utf8.Stable a.sourceText

/-- A statement with a target, plain arguments and sections that is read back as such. -/
structure Sources.Shape (s : Sources) (first : Argument) (plains : List Argument)
    (groups : List Section) : Prop where
  slots : s.slots = (first :: plains).map .plain ++ groups.map .grouped
  target : s.target = first.value
  named : first.value ≠ []
  form : s.command.name = Classify.targetSources ∨
    s.command.name ∈ Classify.targetCommands ∧ s.defaultSection = []
  preferred : s.preferred = false
  divided : Classify.Divided s.command.name plains groups
  /-- The command is read back when it has no arguments. -/
  command : (Statement.mk s.command []).Legible ∧ Utf8.Stable (s.command.render [])
  head : first.Spells ∧ Layout first.separator ∧ Utf8.Stable first.render
  plainFit : ∀ a ∈ plains, a.Fit
  groupFit : ∀ g ∈ groups, ∀ a ∈ g.arguments, a.Fit ∧ a.Unpaired
  nested : ((first :: plains).map Argument.kind).foldlM depthAfter 0 = some 0

theorem isOrdinary_stray (b : Fin 128) : isOrdinary (.stray b) = true := by
  have hcode : 0xDC80 ≤ (Glyph.stray b).code := Nat.le_add_right _ _
  have hblank : (Glyph.stray b).isBlank = false := by
    simp only [Glyph.isBlank, inRanges, blankRanges, List.any_cons, List.any_nil,
      Bool.or_eq_false_iff, Bool.and_eq_false_iff, decide_eq_false_iff_not, and_true]
    omega
  simp [isOrdinary, hblank]

theorem head?_ne_stray {t : Text} (h : Fits .identifier t) (b : Fin 128) :
    t.head? ≠ some (.stray b) := by
  intro hb
  have := (h _ hb).1
  rw [isOrdinary_stray] at this
  cases this

theorem fits_arguments {k : TokenKind} (hk : k.isSeparator = false) {arguments : List Argument}
    (fit : ∀ a ∈ arguments, a.Fit) {after : Text} (hafter : Fits .identifier after) :
    Fits k (arguments.flatMap Argument.render ++ after) := by
  cases arguments with
  | nil => exact (layout_of_spaces (t := []) (by simp [kinds_nil])).fits hk hafter
  | cons a rest =>
    have ha := fit a List.mem_cons_self
    have hsep : Fits k (a.separator ++ []) := ha.spacing.layout.fits hk (by simp)
    rw [List.append_nil] at hsep
    have := fits_append hsep ha.spacing.nonempty
      (a.sourceText ++ (rest.flatMap Argument.render ++ after))
    simpa [Argument.render] using this

theorem apart_of_fit {arguments : List Argument} (fit : ∀ a ∈ arguments, a.Fit) {after : Text}
    (hafter : Fits .identifier after) : Argument.Apart after arguments := by
  induction arguments with
  | nil => trivial
  | cons a rest ih =>
    have hrest : ∀ b ∈ rest, b.Fit := fun b hb => fit b (.tail _ hb)
    exact ⟨fits_arguments (fit a List.mem_cons_self).spells.word.1 hrest hafter, ih hrest⟩

theorem stable_arguments {arguments : List Argument} (fit : ∀ a ∈ arguments, a.Fit) {after : Text}
    (hafter : Fits .identifier after) (stable : Utf8.Stable after) :
    Utf8.Stable (arguments.flatMap Argument.render ++ after) := by
  induction arguments with
  | nil => exact stable
  | cons a rest ih =>
    have ha := fit a List.mem_cons_self
    have hrest : ∀ b ∈ rest, b.Fit := fun b hb => fit b (.tail _ hb)
    have hsource := Utf8.stable_append ha.stable.2 (ih hrest)
      (Or.inr (head?_ne_stray (fits_arguments rfl hrest hafter)))
    have := Utf8.stable_append ha.stable.1 hsource (Or.inl ha.spacing.getLast?_ne)
    simpa [Argument.render] using this

theorem Command.render_eq (c : Command) (arguments : List Argument) :
    c.render arguments = (c.spelling ++ c.leading) ++ (.char '(' ::
      (arguments.flatMap Argument.render ++ (c.trailing ++ [.char ')']))) := by
  simp [Command.render]

theorem Command.stable_parts {c : Command} {arguments : List Argument}
    (h : Utf8.Stable (c.render arguments)) :
    Utf8.Stable (c.spelling ++ c.leading) ∧ Utf8.Stable (arguments.flatMap Argument.render) ∧
      Utf8.Stable (c.trailing ++ [.char ')']) := by
  rw [Command.render_eq] at h
  obtain ⟨hname, hrest⟩ := Utf8.stable_of_append h
  rw [Utf8.stable_char] at hrest
  exact ⟨hname, Utf8.stable_of_append hrest⟩

theorem Command.stable_render {c : Command} {arguments : List Argument}
    (name : Utf8.Stable (c.spelling ++ c.leading))
    (rest : Utf8.Stable (arguments.flatMap Argument.render ++ (c.trailing ++ [.char ')']))) :
    Utf8.Stable (c.render arguments) := by
  rw [Command.render_eq]
  exact Utf8.stable_append name (Utf8.stable_char.mpr rest) (Or.inr (by simp))

theorem foldlM_unpaired {arguments : List Argument} (h : ∀ a ∈ arguments, a.Unpaired)
    (depth : Nat) : (arguments.map Argument.kind).foldlM depthAfter depth = some depth := by
  induction arguments with
  | nil => rfl
  | cons a rest ih =>
    have ha := h a List.mem_cons_self
    rw [List.map_cons, List.foldlM_cons, depthAfter, if_neg ha.1, if_neg ha.2]
    exact ih fun b hb => h b (.tail _ hb)

namespace Sources

variable {s : Sources} {first : Argument} {plains : List Argument} {groups : List Section}

theorem arguments_of_slots
    (h : s.slots = (first :: plains).map .plain ++ groups.map .grouped) :
    s.arguments = first :: (plains ++ groups.flatMap Section.arguments) := by
  rw [arguments, h, List.map_cons, List.cons_append, List.flatMap_cons, List.flatMap_append,
    List.flatMap_map, List.flatMap_map]
  simp only [Slot.arguments, List.singleton_append, List.cons.injEq, true_and]
  rw [List.flatMap_singleton']

theorem sections_of_slots
    (h : s.slots = (first :: plains).map .plain ++ groups.map .grouped) : s.sections = groups := by
  have plain : (Slot.section? ∘ Slot.plain) = fun _ => none := rfl
  have grouped : (Slot.section? ∘ Slot.grouped) = some := rfl
  rw [sections, h, List.filterMap_append, List.filterMap_map, List.filterMap_map, plain, grouped]
  simp

end Sources

namespace Sources.Shape

variable {s : Sources} {first : Argument} {plains : List Argument} {groups : List Section}

theorem arguments (h : s.Shape first plains groups) :
    s.arguments = first :: (plains ++ groups.flatMap Section.arguments) :=
  arguments_of_slots h.slots

theorem marked (h : s.Shape first plains groups) (mark : Bool) :
    Shape { s with dirty := mark } first plains groups :=
  ⟨h.slots, h.target, h.named, h.form, h.preferred, h.divided, h.command, h.head, h.plainFit,
    h.groupFit, h.nested⟩

theorem defaulting (h : s.Shape first plains groups)
    (name : s.command.name = Classify.targetSources) (default : Text) :
    Shape { s with defaultSection := default } first plains groups :=
  ⟨h.slots, h.target, h.named, Or.inl name, h.preferred, h.divided, h.command, h.head, h.plainFit,
    h.groupFit, h.nested⟩

theorem fit (h : s.Shape first plains groups) :
    ∀ a ∈ plains ++ groups.flatMap Section.arguments, a.Fit := by
  intro a ha
  rcases List.mem_append.mp ha with ha | ha
  · exact h.plainFit a ha
  · obtain ⟨g, hg, ha⟩ := List.mem_flatMap.mp ha
    exact (h.groupFit g hg a ha).1

theorem stops (h : s.Shape first plains groups) :
    Fits .identifier (s.command.trailing ++ [.char ')']) :=
  h.command.1.trailing.fits rfl (by rintro g ⟨⟩; decide)

theorem legible (h : s.Shape first plains groups) :
    (Statement.mk s.command s.arguments).Legible := by
  have unpaired : ∀ a ∈ groups.flatMap Section.arguments, a.Unpaired := by
    intro a ha
    obtain ⟨g, hg, ha⟩ := List.mem_flatMap.mp ha
    exact (h.groupFit g hg a ha).2
  have hnested : (s.arguments.map Argument.kind).foldlM depthAfter 0 = some 0 := by
    rw [h.arguments, ← List.cons_append, List.map_append, List.foldlM_append, h.nested]
    exact foldlM_unpaired unpaired 0
  obtain ⟨hcommand, hspelling, hleading, htrailing, -⟩ := h.command.1
  refine ⟨hcommand, hspelling, hleading, htrailing, ?_, ?_, ?_, hnested⟩
  · rw [h.arguments]
    exact List.forall_mem_cons.mpr ⟨h.head.1, fun a ha => (h.fit a ha).spells⟩
  · rw [h.arguments]
    exact List.forall_mem_cons.mpr ⟨h.head.2.1, fun a ha => (h.fit a ha).spacing.layout⟩
  · rw [h.arguments]
    exact ⟨fits_arguments h.head.1.word.1 h.fit h.stops, apart_of_fit h.fit h.stops⟩

theorem stable (h : s.Shape first plains groups) : Utf8.Stable s.render := by
  obtain ⟨hname, -, htrailing⟩ := Command.stable_parts h.command.2
  rw [Sources.render, h.arguments]
  apply Command.stable_render hname
  rw [List.flatMap_cons, List.append_assoc]
  exact Utf8.stable_append h.head.2.2 (stable_arguments h.fit h.stops htrailing)
    (Or.inr (head?_ne_stray (fits_arguments rfl h.fit h.stops)))

end Sources.Shape

theorem Argument.Spells.asRead {a : Argument} (h : a.Spells) : a.asRead.Spells :=
  ⟨h.word, h.whole, h.source⟩

theorem Argument.Fit.asRead {a : Argument} (h : a.Fit) : a.asRead.Fit :=
  ⟨h.spells.asRead, h.spacing, h.stable⟩

namespace Sources

def reread (s : Sources) (default : Text) (first : Argument) (plains : List Argument)
    (groups : List Section) : Sources :=
  { command := s.command
    target := s.target
    slots := (first.asRead :: Classify.readPlains s.command.name (plains.map Argument.asRead)
        (groups.map Section.asRead)).map .plain ++
      ((Classify.readGroups s.command.name (groups.map Section.asRead)).map
        Section.collectDirectories).map .grouped
    defaultSection := if s.command.name = Classify.targetSources then default.upper else [] }

namespace Shape

variable {s : Sources} {first : Argument} {plains : List Argument} {groups : List Section}

theorem ofStatement? (h : s.Shape first plains groups) (line : Nat) (default : Text) :
    (Sources.ofStatement? (Statement.mk s.command s.arguments).asRead line default).1 =
      some (s.reread default first plains groups) := by
  have hslots := h.divided.asRead.slots
  rw [Section.arguments_asRead, ← List.map_append] at hslots
  have hargs : (Statement.mk s.command s.arguments).asRead.arguments = first.asRead ::
      (plains ++ groups.flatMap Section.arguments).map Argument.asRead := by
    rw [Statement.asRead, h.arguments, List.map_cons]
  have hform : s.command.name = Classify.targetSources ∨
      s.command.name ∈ Classify.targetCommands ∧ Classify.isSourceless
        ((plains ++ groups.flatMap Section.arguments).map Argument.asRead) = false := by
    by_cases hc : s.command.name = Classify.targetSources
    · exact Or.inl hc
    · refine Or.inr ⟨(h.form.resolve_left hc).1, ?_⟩
      have hplains := h.divided.plains
      rw [if_neg hc] at hplains
      have hfiles := h.divided.files_unkeyed
      rw [h.divided.arguments_eq_files hc, Classify.isSourceless, List.any_map, List.any_append,
        Bool.or_eq_false_iff]
      refine ⟨hplains.2.1, List.any_eq_false.mpr fun a ha => ?_⟩
      have := hfiles a ha
      simp only [Classify.Unkeyed, hc, if_false, List.mem_append, not_or] at this
      have hkey : Classify.keywordOf a.asRead = Classify.keywordOf a := rfl
      simp [hkey, this.2]
  rw [Sources.ofStatement?_eq hargs h.named hform line default]
  have hcommand : (Statement.mk s.command s.arguments).asRead.command = s.command := rfl
  rw [hcommand, hslots]
  simp [reread, h.target, Argument.asRead, Classify.collect, Function.comp_def]

/-- What is read from a statement of this shape has this shape. -/
theorem reread (h : s.Shape first plains groups) (default : Text) :
    (s.reread default first plains groups).Shape first.asRead
      (Classify.readPlains s.command.name (plains.map Argument.asRead)
        (groups.map Section.asRead))
      ((Classify.readGroups s.command.name (groups.map Section.asRead)).map
        Section.collectDirectories) := by
  have hread : ∀ a ∈ (groups.map Section.asRead).flatMap Section.arguments,
      a.Fit ∧ a.Unpaired := by
    intro a ha
    rw [Section.arguments_asRead] at ha
    obtain ⟨b, hb, rfl⟩ := List.mem_map.mp ha
    obtain ⟨g, hg, hb⟩ := List.mem_flatMap.mp hb
    exact ⟨(h.groupFit g hg b hb).1.asRead, (h.groupFit g hg b hb).2⟩
  obtain ⟨more, hplains, hmore⟩ := Classify.readPlains_eq s.command.name
    (plains.map Argument.asRead) (groups.map Section.asRead)
  refine ⟨rfl, h.target, h.named, ?_, rfl, ?_, h.command,
    ⟨h.head.1.asRead, h.head.2.1, h.head.2.2⟩, ?_, ?_, ?_⟩
  · by_cases hc : s.command.name = Classify.targetSources
    · exact Or.inl hc
    · exact Or.inr ⟨(h.form.resolve_left hc).1, if_neg hc⟩
  · exact h.divided.asRead.read.map fun g => ⟨rfl, rfl, rfl⟩
  · rw [hplains]
    intro a ha
    rcases List.mem_append.mp ha with ha | ha
    · obtain ⟨b, hb, rfl⟩ := List.mem_map.mp ha
      exact (h.plainFit b hb).asRead
    · exact (hread a (hmore a ha)).1
  · intro g hg a ha
    obtain ⟨k, hk, rfl⟩ := List.mem_map.mp hg
    exact hread a (Classify.mem_readGroups hk ha)
  · rw [hplains, ← List.cons_append, List.map_append, List.foldlM_append, ← List.map_cons,
      List.map_map]
    rw [show Argument.kind ∘ Argument.asRead = Argument.kind from rfl, h.nested]
    exact foldlM_unpaired (fun a ha => (hread a (hmore a ha)).2) 0

end Shape

end Sources

end Listfile
