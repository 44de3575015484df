import Listfile.Proofs.Shape

/-!
Regular statements. What a file may hold is wider than what an edit can move around: a file that
touches its neighbour, a parenthesis or a keyword among the files. A regular statement has none of
these, and it has a shape that is read back.
-/

namespace Listfile

open Scan Parse

/-- A statement whose files can be moved, renamed and removed. -/
structure Sources.Regular (s : Sources) : Prop where
  separated : ∀ a ∈ s.arguments.drop 1, a.separator ≠ []
  lines : ∀ a ∈ s.arguments, .commentBracket ∉ kinds a.separator
  files : ∀ a ∈ Classify.filesOf s.sections, a.quoted = false →
    a.value ≠ [.char '('] ∧ a.value ≠ [.char ')']
  keywords : s.command.name ∈ Classify.targetCommands → ∀ a ∈ Classify.filesOf s.sections,
    a.quoted = false → a.value.upper ∉ Classify.targetModifiers ++ Classify.valueKeywords
  awaited : s.command.name ∈ Classify.targetCommands →
    Classify.awaits? false (s.arguments.drop 1) ≠ some true

instance (s : Sources) : Decidable s.Regular :=
  decidable_of_iff ((∀ a ∈ s.arguments.drop 1, a.separator ≠ []) ∧
      (∀ a ∈ s.arguments, .commentBracket ∉ kinds a.separator) ∧
      (∀ a ∈ Classify.filesOf s.sections, a.quoted = false →
        a.value ≠ [.char '('] ∧ a.value ≠ [.char ')']) ∧
      (Classify.targetCommands.contains s.command.name = true →
        ∀ a ∈ Classify.filesOf s.sections, a.quoted = false →
          ¬ (Classify.targetModifiers ++ Classify.valueKeywords).contains a.value.upper = true) ∧
      (Classify.targetCommands.contains s.command.name = true →
        Classify.awaits? false (s.arguments.drop 1) ≠ some true)) <| by
    simp only [List.contains_iff_mem]
    exact ⟨fun ⟨h₁, h₂, h₃, h₄, h₅⟩ => ⟨h₁, h₂, h₃, h₄, h₅⟩,
      fun ⟨h₁, h₂, h₃, h₄, h₅⟩ => ⟨h₁, h₂, h₃, h₄, h₅⟩⟩

theorem Argument.Spells.unpaired {a : Argument} (h : a.Spells)
    (plain : a.quoted = false → a.value ≠ [.char '('] ∧ a.value ≠ [.char ')']) : a.Unpaired := by
  have single : ∀ {k : TokenKind} {c : Char}, a.kind = k → delimiterOf k = .none →
      unescape [.char c] = [.char c] →
      (∀ {g : Glyph} {rest : Text} {n : Nat}, Lexed g rest k n → g = .char c ∧ n = 1) →
      a.quoted = false ∧ a.value = [.char c] := by
    intro k c hk hd hc hform
    have htext : a.sourceText = [.char c] := by
      have hw := h.whole
      rw [hk] at hw
      cases hs : a.sourceText with
      | nil => exact absurd hs h.whole.ne_nil
      | cons g rest =>
        rw [hs] at hw
        obtain ⟨rfl, hn⟩ := hform (lexed_of_lexeme hw)
        rw [List.eq_nil_of_length_eq_zero (Nat.succ.inj hn)]
    have hsource := h.source []
    rw [hk, hd, htext, Argument.ofSource?, hc, Option.some.injEq] at hsource
    exact ⟨(congrArg Argument.quoted hsource).symm, (congrArg Argument.value hsource).symm⟩
  constructor
  · intro hk
    obtain ⟨hq, hv⟩ := single hk rfl rfl fun hl => by
      cases hl with
      | parenLeft hg => exact ⟨hg, rfl⟩
    exact (plain hq).1 hv
  · intro hk
    obtain ⟨hq, hv⟩ := single hk rfl rfl fun hl => by
      cases hl with | parenRight hg => exact ⟨hg, rfl⟩
    exact (plain hq).2 hv

theorem Argument.Spells.unpaired_keyword {a : Argument} (h : a.Spells) {name : Text}
    (keyword : sectionKeyword? a = some name) : a.Unpaired := by
  have hkeyword : a.value.upper ∈ sectionKeywords := by
    unfold sectionKeyword? at keyword
    split at keyword
    · cases keyword
    · split at keyword
      · next hkey => simpa using hkey
      · cases keyword
  have hleft : Text.upper [.char '('] ∉ sectionKeywords := by decide
  have hright : Text.upper [.char ')'] ∉ sectionKeywords := by decide
  refine h.unpaired fun _ => ⟨fun hv => hleft ?_, fun hv => hright ?_⟩
  · rwa [← hv]
  · rwa [← hv]

theorem stable_argument {arguments : List Argument}
    (h : Utf8.Stable (arguments.flatMap Argument.render)) {a : Argument} (ha : a ∈ arguments) :
    Utf8.Stable a.render := by
  obtain ⟨before, after, rfl⟩ := List.append_of_mem ha
  rw [List.flatMap_append, List.flatMap_cons] at h
  exact (Utf8.stable_of_append (Utf8.stable_of_append h).2).1

theorem nested_of_append {arguments unpaired : List Argument} {depth : Nat}
    (h : ∀ a ∈ unpaired, a.Unpaired)
    (nested : ((arguments ++ unpaired).map Argument.kind).foldlM depthAfter depth = some 0) :
    (arguments.map Argument.kind).foldlM depthAfter depth = some 0 := by
  rw [List.map_append, List.foldlM_append] at nested
  simp only [Option.bind_eq_bind, Option.bind_eq_some_iff] at nested
  obtain ⟨depth', hdepth, hrest⟩ := nested
  rw [foldlM_unpaired h] at hrest
  rwa [← hrest]

theorem Classify.map_collect (first : Argument) (plains : List Argument)
    (groups : List Section) :
    (Slot.plain first :: (plains.map .plain ++ groups.map .grouped)).map collect =
      (first :: plains).map .plain ++ (groups.map Section.collectDirectories).map .grouped := by
  simp [collect, Function.comp_def]

namespace Sources.Regular

variable {s : Sources}

/-- The files of a regular target are no keywords, and no keyword before them waits for one. -/
theorem divided_target (regular : s.Regular) (other : s.command.name ≠ Classify.targetSources)
    (target : s.command.name ∈ Classify.targetCommands) {first : Argument} {rest : List Argument}
    (arguments : s.arguments = first :: rest) (sourced : Classify.isSourceless rest = false)
    (slots : s.slots =
      (Slot.plain first :: Classify.targetSlots false rest).map Classify.collect) :
    ∃ plains groups, s.slots = (first :: plains).map .plain ++ groups.map .grouped ∧
      Classify.Divided s.command.name plains groups := by
  obtain ⟨plains, groups, hslots, hcases⟩ := Classify.exists_target false rest
  rw [hslots, Classify.map_collect] at slots
  have hsections := sections_of_slots slots
  have hargs := arguments_of_slots slots
  rw [arguments, List.cons.injEq] at hargs
  have hsourced : ∀ a ∈ rest, Classify.keywordOf a ∉ Classify.sourcelessKeywords := by
    simpa [Classify.isSourceless] using sourced
  have hunkeyed : ∀ a ∈ Classify.filesOf s.sections, Classify.Unkeyed s.command.name a := by
    intro a ha
    have hmem : a ∈ rest := by
      rw [hargs.2, ← hsections]
      exact List.mem_append_right _ (Classify.mem_filesOf ha)
    have hkey := regular.keywords target a ha
    rw [Classify.Unkeyed, if_neg other, List.mem_append, not_or]
    refine ⟨?_, hsourced a hmem⟩
    unfold Classify.keywordOf
    split
    · decide
    · next hq => exact hkey (by simpa using hq)
  refine ⟨plains, _, slots, ?_, ?_, ?_⟩
  · rw [if_neg other]
    refine ⟨?_, ?_, ?_⟩
    · rcases hcases with ⟨-, rfl, b, hb⟩ | ⟨hawaits, -⟩
      -- Without files the keywords could still wait for a value, which regularity excludes.
      · have := regular.awaited target
        rw [arguments, List.drop_one, List.tail_cons, hb] at this
        cases b with
        | false => exact hb
        | true => exact absurd rfl this
      · exact hawaits
    · simp only [Classify.isSourceless, List.any_eq_false, List.contains_eq_mem,
        decide_eq_true_eq]
      exact fun a ha => hsourced a (by rw [hargs.2]; exact List.mem_append_left _ ha)
    · rcases hcases with ⟨rfl, -⟩ | ⟨-, files, rfl⟩ <;> simp
  · intro g hg
    rw [Classify.Opens, if_neg other]
    rcases hcases with ⟨rfl, -⟩ | ⟨-, files, rfl⟩
    · simp at hg
    · rw [List.map_singleton, List.mem_singleton] at hg
      rw [hg]
      exact ⟨rfl, rfl⟩
  · intro g hg a ha
    apply hunkeyed
    rw [hsections]
    exact List.mem_flatMap.mpr ⟨g, hg, ha⟩

/-- The arguments of a regular statement divide in a way that is kept. -/
theorem divided (regular : s.Regular) {st : Statement} {line : Nat} {default : Text}
    (h : (Sources.ofStatement? st line default).1 = some s) :
    ∃ first plains groups, s.slots = (first :: plains).map .plain ++ groups.map .grouped ∧
      s.target = first.value ∧ first.value ≠ [] ∧ s.preferred = false ∧
      (s.command.name = Classify.targetSources ∨
        s.command.name ∈ Classify.targetCommands ∧ s.defaultSection = []) ∧
      Classify.Divided s.command.name plains groups := by
  obtain ⟨-, harguments, -⟩ := Sources.ofStatement?_lossless h
  obtain ⟨first, rest, hargs, hnamed, ⟨hname, hs⟩ | ⟨hname, hmem, hsource, hs⟩⟩ :=
    Sources.ofStatement?_cases h
  · obtain ⟨plains, groups, hslots, hdivided⟩ := Classify.exists_divided rest
    rw [Classify.slotsOf, if_pos rfl] at hslots
    rw [hslots, Classify.map_collect] at hs
    rw [hs]
    refine ⟨first, plains, _, rfl, rfl, hnamed, rfl, Or.inl hname, ?_⟩
    rw [hname]
    exact hdivided.map fun g => ⟨rfl, rfl, rfl⟩
  · have hcommand : s.command = st.command := by rw [hs]
    rw [← hcommand] at hname hmem
    obtain ⟨plains, groups, hslots, hdivided⟩ := regular.divided_target hname hmem
      (harguments.trans hargs) hsource (by rw [hs])
    exact ⟨first, plains, groups, hslots, by rw [hs], hnamed, by rw [hs],
      Or.inr ⟨hmem, by rw [hs]⟩, hdivided⟩

theorem fit (regular : s.Regular) {st : Statement} (legible : st.Legible)
    (stable : Utf8.Stable (st.arguments.flatMap Argument.render))
    (arguments : s.arguments = st.arguments) : ∀ a ∈ s.arguments.drop 1, a.Fit := by
  intro a ha
  have hmem : a ∈ s.arguments := List.mem_of_mem_drop ha
  have hread : a ∈ st.arguments := arguments ▸ hmem
  exact ⟨legible.words a hread,
    ⟨regular.separated a ha, legible.layout a hread, regular.lines a hmem⟩,
    Utf8.stable_of_append (stable_argument stable hread)⟩

theorem unpaired (regular : s.Regular) {plains : List Argument}
    (divided : Classify.Divided s.command.name plains s.sections)
    (fit : ∀ a ∈ s.sections.flatMap Section.arguments, a.Fit) :
    ∀ a ∈ s.sections.flatMap Section.arguments, a.Unpaired := by
  intro a ha
  have hspells := (fit a ha).spells
  obtain ⟨g, hg, ha⟩ := List.mem_flatMap.mp ha
  rcases List.mem_append.mp ha with ha | ha
  · have hopens := divided.opens g hg
    unfold Classify.Opens at hopens
    split at hopens
    · obtain ⟨b, hb, hname⟩ := hopens
      rw [hb, Option.toList_some, List.mem_singleton] at ha
      rw [ha] at hspells ⊢
      exact hspells.unpaired_keyword hname
    · simp [hopens.1] at ha
  · exact hspells.unpaired (regular.files a (List.mem_flatMap.mpr ⟨g, hg, ha⟩))

theorem shape (regular : s.Regular) {st : Statement} {line : Nat} {default : Text}
    (legible : st.Legible) (stable : Utf8.Stable st.render)
    (h : (Sources.ofStatement? st line default).1 = some s) :
    ∃ first plains groups, s.Shape first plains groups := by
  obtain ⟨hcommand, harguments, -⟩ := Sources.ofStatement?_lossless h
  obtain ⟨first, plains, groups, hslots, htarget, hnamed, hpreferred, hform, hdivided⟩ :=
    regular.divided h
  obtain ⟨hname, hstable, htrailing⟩ := Command.stable_parts stable
  have hargs := arguments_of_slots hslots
  have hfit := regular.fit legible hstable harguments
  obtain rfl := sections_of_slots hslots
  rw [hargs, List.drop_one, List.tail_cons] at hfit
  have hunpaired := regular.unpaired hdivided fun a ha => hfit a (List.mem_append_right _ ha)
  rw [harguments] at hargs
  have hfirst : first ∈ st.arguments := by
    rw [hargs]
    exact List.mem_cons_self
  have hnested := legible.nested
  rw [hargs, ← List.cons_append] at hnested
  refine ⟨first, plains, s.sections, hslots, htarget, hnamed, hform, hpreferred, hdivided,
    ⟨?_, ?_⟩, ⟨legible.words first hfirst, legible.layout first hfirst,
      stable_argument hstable hfirst⟩,
    fun a ha => hfit a (List.mem_append_left _ ha), fun g hg a ha => ?_,
    nested_of_append hunpaired hnested⟩
  · rw [hcommand]
    exact ⟨legible.command, legible.spelling, legible.leading, legible.trailing, by simp, by simp,
      trivial, rfl⟩
  · rw [hcommand]
    exact Command.stable_render hname htrailing
  · have hmem := List.mem_flatMap.mpr ⟨g, hg, ha⟩
    exact ⟨hfit a (List.mem_append_right _ hmem), hunpaired a hmem⟩

end Sources.Regular

end Listfile
