import Listfile.Proofs.Sound
import Listfile.Settings

/-!
A document and the file it wrote. Reading the file gives the statements of the document at the same
spans, with the same targets, sections and files: nothing that an edit with plain names does to a
regular file is lost or misread.
-/

namespace Listfile

open Scan Parse

structure Section.Agrees (g r : Section) : Prop where
  name : r.name = g.name
  keyword : r.keyword = g.keyword.map Argument.asRead
  files : r.files = g.files.map Argument.asRead

/-- Sources and what is read from their text. Files without a name that come first in a section
without a keyword are read as plain arguments. -/
structure Sources.Agrees (s r : Sources) : Prop where
  command : r.command = s.command
  target : r.target = s.target
  arguments : r.arguments = s.arguments.map Argument.asRead
  defaultSection : r.defaultSection = s.defaultSection
  fileNames : r.fileNames = s.fileNames
  sections : if s.command.name = Classify.targetSources then
      List.Forall₂ Section.Agrees s.sections r.sections
    else Classify.filesOf r.sections =
      ((Classify.filesOf s.sections).map Argument.asRead).dropWhile (·.value.isEmpty)

def Block.Agrees : Block → Block → Prop
  | .other s, .other r => r = s
  | .listing s, .listing r => s.Agrees r
  | _, _ => False

/-- A document and one that was read from the text it wrote. -/
structure Document.Agrees (d e : Document) : Prop where
  loaded : e.loaded = true
  spans : e.blocks.map (·.span) = d.blocks.map (·.span)
  blocks : List.Forall₂ Block.Agrees (d.blocks.map (·.item)) (e.blocks.map (·.item))
  pending : d.pending = [] ∧ e.pending = []
  targets : e.targets = d.targets
  sourceFiles : ∀ target, e.sourceFiles target = d.sourceFiles target

theorem Sources.fileNames_eq (s : Sources) :
    s.fileNames = ((Classify.filesOf s.sections).map (·.value)).filter fun v => !v.isEmpty := by
  rw [fileNames, Classify.filesOf, List.map_flatMap]

namespace Classify

theorem filesOf_collect (groups : List Section) :
    filesOf (groups.map Section.collectDirectories) = filesOf groups := by
  rw [filesOf, List.flatMap_map]
  rfl

theorem filesOf_bare (groups : List Section) : filesOf (groups.map bare) = filesOf groups := by
  rw [filesOf, List.flatMap_map]
  rfl

theorem filesOf_anonymous (files : List Argument) : filesOf (anonymous files) = files := by
  cases files with
  | nil => rfl
  | cons a files => simp [anonymous, filesOf]

theorem filter_dropWhile (files : List Argument) :
    ((files.dropWhile (·.value.isEmpty)).map (·.value)).filter (fun v => !v.isEmpty) =
      (files.map (·.value)).filter fun v => !v.isEmpty := by
  induction files with
  | nil => rfl
  | cons a files ih =>
    by_cases ha : a.value = []
    · simpa [ha] using ih
    · simp [ha]

theorem filesOf_readGroups (command : Text) (groups : List Section) :
    filesOf (readGroups command (groups.map Section.asRead)) =
      if command = targetSources then (filesOf groups).map Argument.asRead
      else ((filesOf groups).map Argument.asRead).dropWhile (·.value.isEmpty) := by
  unfold readGroups
  split
  · rw [filesOf_bare, filesOf_asRead]
  · rw [filesOf_anonymous, filesOf_asRead]

end Classify

namespace Sources.Shape

variable {s : Sources} {first : Argument} {plains : List Argument} {groups : List Section}

theorem agrees (h : s.Shape first plains groups) {default : Text}
    (defaulted : s.command.name = Classify.targetSources → s.defaultSection = default)
    (keyword : default ∈ sectionKeywords) : s.Agrees (s.reread default first plains groups) := by
  have hsections : s.sections = groups := sections_of_slots h.slots
  have hread : (s.reread default first plains groups).sections =
      (Classify.readGroups s.command.name (groups.map Section.asRead)).map
        Section.collectDirectories := sections_of_slots rfl
  have hfiles : Classify.filesOf (s.reread default first plains groups).sections =
      if s.command.name = Classify.targetSources then
        (Classify.filesOf s.sections).map Argument.asRead
      else ((Classify.filesOf s.sections).map Argument.asRead).dropWhile (·.value.isEmpty) := by
    rw [hread, Classify.filesOf_collect, Classify.filesOf_readGroups, hsections]
  have hvalues : ∀ files : List Argument,
      (files.map Argument.asRead).map (·.value) = files.map (·.value) := fun files => by
    rw [List.map_map]
    rfl
  refine ⟨rfl, rfl, (Sources.ofStatement?_lossless (h.ofStatement? 0 default)).2.1, ?_, ?_, ?_⟩
  · by_cases hc : s.command.name = Classify.targetSources
    · simp only [Sources.reread, if_pos hc, upper_keyword keyword, defaulted hc]
    · simp only [Sources.reread, if_neg hc, (h.form.resolve_left hc).2]
  · rw [fileNames_eq, fileNames_eq, hfiles]
    split
    · rw [hvalues]
    · rw [Classify.filter_dropWhile, hvalues]
  · by_cases hc : s.command.name = Classify.targetSources
    · rw [if_pos hc, hread, hsections, Classify.readGroups, if_pos hc, List.map_map, List.map_map]
      exact List.forall₂_map_right_iff.mpr (List.forall₂_same.mpr fun g _ => ⟨rfl, rfl, rfl⟩)
    · rw [if_neg hc, hfiles, if_neg hc]

end Sources.Shape

namespace Block

theorem Sound.blockOf_asRead {default' : Text} {b : Block} (h : b.Sound default')
    {p : Placed Statement} (read : p.item = b.statement.asRead) (default : Text) :
    (∃ s, b = .other s ∧ Document.blockOf default p = .other s) ∨
    ∃ s first plains groups, b = .listing s ∧ s.Shape first plains groups ∧
      Document.blockOf default p = .listing (s.reread default first plains groups) := by
  cases b with
  | other s =>
    obtain ⟨-, -, hread, hnone⟩ := h
    have hitem : p.item = s := read.trans hread
    exact Or.inl ⟨s, rfl, by simp [Document.blockOf, hitem, hnone]⟩
  | listing s =>
    obtain ⟨⟨first, plains, groups, shape⟩, -⟩ := h
    have hread := shape.ofStatement? p.span.first.line default
    have hitem : p.item = (Statement.mk s.command s.arguments).asRead := read
    exact Or.inr ⟨s, first, plains, groups, rfl, shape, by simp [Document.blockOf, hitem, hread]⟩

theorem Sound.reread {default default' : Text} {b : Block} (h : b.Sound default')
    (keyword : default ∈ sectionKeywords) {p : Placed Statement}
    (read : p.item = b.statement.asRead) : (Document.blockOf default p).Sound default := by
  rcases h.blockOf_asRead read default with ⟨s, rfl, hblock⟩ |
    ⟨s, first, plains, groups, rfl, shape, hblock⟩
  · rw [hblock]
    exact h
  · rw [hblock]
    refine ⟨⟨_, _, _, shape.reread default⟩, fun hc => ?_⟩
    have hname : s.command.name = Classify.targetSources := hc
    simp only [Sources.reread, if_pos hname, upper_keyword keyword]

theorem Sound.agrees {default : Text} {b : Block} (h : b.Sound default)
    (keyword : default ∈ sectionKeywords) {p : Placed Statement}
    (read : p.item = b.statement.asRead) : b.Agrees (Document.blockOf default p) := by
  rcases h.blockOf_asRead read default with ⟨s, rfl, hblock⟩ |
    ⟨s, first, plains, groups, rfl, shape, hblock⟩
  · rw [hblock]
    exact rfl
  · rw [hblock]
    exact shape.agrees h.2 keyword

end Block

namespace Document

/-- The text of a framed document is read as the statements in the frame. -/
theorem Framed.parse {d : Document} {gaps : List Text} {tail : Text} {old : List Block}
    (h : d.Framed gaps tail old) :
    ∃ placed, Statement.parse (Utf8.decode d.buffer.content) = .ok placed ∧
      placed.map (·.item) = old.map (·.statement.asRead) ∧
      placed.map (·.span) = d.blocks.map (·.span) := by
  obtain ⟨default, hsound⟩ := h.sound
  have hlegible : ∀ s ∈ old.map Block.statement, s.Legible := by
    intro s hs
    obtain ⟨b, hb, rfl⟩ := List.mem_map.mp hs
    exact (hsound b hb).legible
  obtain ⟨placed, hparse, hitems, hspans⟩ :=
    parse_of_frame h.frame (by simpa using h.length) hlegible
  refine ⟨placed, ?_, ?_, ?_⟩
  · rw [h.laid.text]
    exact hparse
  · rw [hitems, List.map_map]
    rfl
  · rw [hspans, h.laid.spans]

theorem mem_of_placed {placed : List (Placed Statement)} {old : List Block}
    (h : placed.map (·.item) = old.map (·.statement.asRead)) {p : Placed Statement}
    (hp : p ∈ placed) : ∃ b ∈ old, p.item = b.statement.asRead := by
  have hmem : p.item ∈ old.map (·.statement.asRead) := by
    rw [← h]
    exact List.mem_map_of_mem hp
  obtain ⟨b, hb, hread⟩ := List.mem_map.mp hmem
  exact ⟨b, hb, hread.symm⟩

theorem Sound.reload {d : Document} (h : d.Sound) : d.reload.state.Sound := by
  obtain ⟨gaps, tail, old, framed⟩ := h.framed
  obtain ⟨placed, hparse, hitems, -⟩ := framed.parse
  obtain ⟨default, hsound⟩ := framed.sound
  refine sound_reload h.policy hparse fun p hp => ?_
  obtain ⟨b, hb, hread⟩ := mem_of_placed hitems hp
  exact (hsound b hb).reread h.policy.keyword hread

theorem agrees_of_sources {d e : Document}
    (h : List.Forall₂ Sources.Agrees d.sources e.sources) :
    e.targets = d.targets ∧ ∀ target, e.sourceFiles target = d.sourceFiles target := by
  constructor
  · have : e.sources.map (·.target) = d.sources.map (·.target) :=
      (map_eq_of_forall₂ (h.imp fun s r hsr => hsr.target.symm)).symm
    rw [targets, this, targets]
  · intro target
    simp only [sourceFiles, sourcesOf]
    generalize d.sources = ss at h
    generalize e.sources = rs at h
    induction h with
    | nil => rfl
    | @cons s r ss rs hsr _ ih =>
      simp only [List.filter_cons, hsr.target]
      split
      · rw [List.flatMap_cons, List.flatMap_cons, hsr.fileNames, ih]
      · exact ih

theorem sources_of_blocks {items items' : List Block} (h : List.Forall₂ Block.Agrees items items') :
    List.Forall₂ Sources.Agrees (items.filterMap Block.sources?)
      (items'.filterMap Block.sources?) := by
  induction h with
  | nil => exact .nil
  | @cons b r items items' hbr _ ih =>
    cases b with
    | other s =>
      cases r with
      | other t => simpa [List.filterMap_cons] using ih
      | listing t => cases hbr
    | listing s =>
      cases r with
      | other t => cases hbr
      | listing t => exact .cons hbr ih

theorem agrees_of_placed {items : List Block} {default : Text}
    (sound : ∀ b ∈ items, b.Sound default) (keyword : default ∈ sectionKeywords)
    {placed : List (Placed Statement)}
    (read : placed.map (·.item) = items.map (·.statement.asRead)) :
    List.Forall₂ Block.Agrees items (placed.map (blockOf default)) := by
  have hread := (List.forall₂_and_left _ _).mpr ⟨sound, forall₂_of_map_eq read.symm⟩
  refine List.forall₂_map_right_iff.mpr (hread.imp ?_)
  rintro b p ⟨hb, hp⟩
  exact hb.agrees keyword hp.symm

/-- A sound document agrees with what is read from the text it wrote. -/
theorem Sound.written {d : Document} (h : d.Sound) {buffer : Buffer}
    (content : buffer.content = d.write.state.buffer.content) :
    d.write.state.Agrees (ofBuffer buffer d.policy).state := by
  obtain ⟨gaps, tail, -, framed, sound⟩ := h.write
  obtain ⟨_, _, _, old⟩ := h.framed
  obtain ⟨hpending, hclean, -, hpolicy, -⟩ := old.laid.write_alike h.loaded
  obtain ⟨placed, hparse, hitems, hspans⟩ := framed.parse
  rw [← content] at hparse
  have hstate := (@reload_of_parse { buffer := buffer, policy := d.policy } placed hparse).2
  rw [← ofBuffer] at hstate
  have hwritten : d.write.state.items = d.write.state.blocks.map (·.item) := by
    simp [Document.items, hpending]
  have hblocks : List.Forall₂ Block.Agrees d.write.state.items
      (ofBuffer buffer d.policy).state.items := by
    have hread : (ofBuffer buffer d.policy).state.items =
        placed.map (blockOf d.policy.defaultSection) := by
      rw [hstate]
      simp [Document.items, Function.comp_def]
    rw [hread]
    refine agrees_of_placed (by rw [← hpolicy]; exact sound.items) h.policy.keyword ?_
    rw [hitems, hclean, List.map_map]
    exact List.map_congr_left fun b _ => by cases b <;> rfl
  have hsources := sources_of_blocks hblocks
  rw [← sources_eq_items, ← sources_eq_items] at hsources
  obtain ⟨htargets, hfiles⟩ := agrees_of_sources hsources
  refine ⟨by rw [hstate], ?_, ?_, ⟨hpending, by rw [hstate]⟩, htargets, hfiles⟩
  · rw [hstate, ← hspans]
    simp [Function.comp_def]
  · rw [hwritten] at hblocks
    rw [hstate] at hblocks ⊢
    simpa [Document.items] using hblocks

end Document

namespace Operation

/-- Operations that only bring plain names into a document. The name of a target comes in with the
block that is created for it. -/
def Plain (d : Document) : Operation → Prop
  | add target file _ => file.Plain ∧ (d.sourcesOf target = [] → target.Plain)
  | rename _ _ new => new.Plain
  | _ => True

instance (d : Document) : DecidablePred (Plain d)
  | add target file _ =>
    inferInstanceAs (Decidable (file.Plain ∧ (d.sourcesOf target = [] → target.Plain)))
  | rename _ _ new => inferInstanceAs (Decidable new.Plain)
  | remove .. | setSorting _ | setCreating _ | setDefaultSection _ | addListener | write | save _
  | reload => inferInstanceAs (Decidable True)

/-- Operations of which each is plain when its turn comes. -/
def AllPlain (d : Document) : List Operation → Prop
  | [] => True
  | op :: rest => op.Plain d ∧ AllPlain (op.apply d).1 rest

instance decidableAllPlain (d : Document) : (ops : List Operation) → Decidable (AllPlain d ops)
  | [] => inferInstanceAs (Decidable True)
  | op :: rest =>
    have := decidableAllPlain (op.apply d).1 rest
    inferInstanceAs (Decidable (op.Plain d ∧ AllPlain (op.apply d).1 rest))

theorem sound_inner {op : Operation} (inner : op.isInner = true) {d : Document} (plain : op.Plain d)
    (h : d.Sound) {answer : Answer} (ended : (op.apply d).2 = .ok answer) :
    (op.apply d).1.policy.Sound ∧
      ∀ b ∈ (op.apply d).1.items, b.Sound (op.apply d).1.policy.defaultSection := by
  have kept : ∀ {d' : Document}, d'.policy = d.policy ∧
      (∀ b ∈ d'.items, b.Sound d.policy.defaultSection) →
      d'.policy.Sound ∧ ∀ b ∈ d'.items, b.Sound d'.policy.defaultSection := by
    rintro d' ⟨hpolicy, hitems⟩
    rw [hpolicy]
    exact ⟨h.policy, hitems⟩
  cases op with
  | add target file hint =>
    obtain ⟨b, hb⟩ := exists_ok_of_map ended
    exact kept (Document.sound_addFile h.policy h.items plain.2 plain.1 hb)
  | rename target old new =>
    obtain ⟨b, hb⟩ := exists_ok_of_map ended
    exact kept (Document.sound_renameFile h.items plain hb)
  | remove target file =>
    obtain ⟨b, hb⟩ := exists_ok_of_map ended
    exact kept (Document.sound_removeFile h.items hb)
  | setSorting on => exact ⟨⟨h.policy.keyword, h.policy.nonempty, h.policy.blank⟩, h.items⟩
  | setCreating on => exact ⟨⟨h.policy.keyword, h.policy.nonempty, h.policy.blank⟩, h.items⟩
  | setDefaultSection name => exact Document.sound_setDefaultSection h.policy h.items name
  | addListener => exact ⟨h.policy, h.items⟩
  | write => cases inner
  | save host => cases inner
  | reload => cases inner

theorem sound {op : Operation} {d : Document} (plain : op.Plain d) (h : d.Sound) {answer : Answer}
    (ended : (op.apply d).2 = .ok answer) : (op.apply d).1.Sound := by
  by_cases inner : op.isInner = true
  · obtain ⟨hpolicy, hitems⟩ := sound_inner inner plain h ended
    have moved := op.moved inner ended
    obtain ⟨gaps, tail, old, framed⟩ := h.framed
    -- The text is not touched between writes, so the old frame still holds.
    exact ⟨moved.loaded.trans h.loaded, hpolicy, hitems, gaps, tail, old, framed.length,
      framed.frame, framed.sound, framed.laid.moved moved⟩
  cases op with
  | write =>
    obtain ⟨-, -, -, -, hsound⟩ := h.write
    exact hsound
  | save host => exact h.save host
  | reload => exact h.reload
  | _ => exact absurd rfl inner

theorem sound_run {ops : List Operation} {d last : Document} (plain : AllPlain d ops)
    (h : d.Sound) {answers : List Answer} (ran : run d ops = .ok (last, answers)) :
    last.Sound := by
  induction ops generalizing d answers with
  | nil =>
    simp only [run, Except.ok.injEq, Prod.mk.injEq] at ran
    exact ran.1 ▸ h
  | cons op rest ih =>
    obtain ⟨answer, later, ended, hrest, -⟩ := run_cons ran
    exact ih plain.2 (sound plain.1 h ended) hrest

end Operation

theorem exists_ok_of_bind {ε α β : Type} {e : Except ε α} {f : α → Except ε β} {b : β}
    (h : e >>= f = .ok b) : ∃ a, e = .ok a ∧ f a = .ok b := by
  cases e with
  | error fault => cases h
  | ok a => exact ⟨a, rfl, h⟩

theorem Settings.keyword_ofData {environment : List (Text × Text)} {data : List (Value × Value)}
    {settings : Settings} (h : Settings.ofData environment data = .ok settings) :
    settings.defaultSection ∈ sectionKeywords := by
  have chosen : ∀ wanted : Text,
      (if sectionKeywords.contains wanted then wanted else ({} : Settings).defaultSection) ∈
        sectionKeywords := by
    intro wanted
    split
    · next hkeyword => simpa using hkeyword
    · decide
  obtain ⟨given, -, h⟩ := exists_ok_of_bind h
  obtain ⟨separator, -, h⟩ := exists_ok_of_bind h
  obtain ⟨target, -, h⟩ := exists_ok_of_bind h
  dsimp only at h
  split at h
  · obtain ⟨hints, -, h⟩ := exists_ok_of_bind h
    cases h
    exact chosen _
  · cases h
    exact chosen _

/-- After any session with plain names on a regular file the document is written with its statements
as they are, and what is read from the bytes agrees with it. -/
theorem written_agrees {environment : List (Text × Text)} {data : List (Value × Value)}
    {settings : Settings} (configured : Settings.ofData environment data = .ok settings)
    (nonempty : settings.separator ≠ []) (blank : settings.separator.Blank)
    (key : Text → Text) (buffer : Buffer)
    (loaded : (Document.ofBuffer buffer (settings.policy key)).state.loaded = true)
    (regular : ∀ s ∈ (Document.ofBuffer buffer (settings.policy key)).state.sources, s.Regular)
    (ops : List Operation)
    (plain : Operation.AllPlain (Document.ofBuffer buffer (settings.policy key)).state ops)
    (d : Document) (answers : List Answer)
    (ran : Operation.run (Document.ofBuffer buffer (settings.policy key)).state ops =
      .ok (d, answers)) :
    d.write.state.items = d.items.map Block.clean ∧
      ∃ bytes, d.write.result = .ok bytes ∧ ∀ written : Buffer, written.content = bytes →
        d.write.state.Agrees (Document.ofBuffer written d.policy).state := by
  have opened := Document.sound_ofBuffer
    ⟨Settings.keyword_ofData configured, nonempty, blank⟩ loaded regular
  have sound := Operation.sound_run plain opened ran
  obtain ⟨_, _, hresult, -⟩ := sound.write
  obtain ⟨_, _, _, framed⟩ := sound.framed
  exact ⟨(framed.laid.write_alike sound.loaded).2.1, _, hresult,
    fun written content => sound.written content⟩

/-- A block is created for a plain target; a file is added to one that is not plain and is there. -/
theorem written_agrees_created :
    let text := "add_library(a STATIC b.c # x\n  z.c)\ntarget_sources(\"x\\\"y\" PRIVATE \"p q.c\")"
    let opened := (Document.ofBuffer (.ofString text) {}).state
    let ops : List Operation := [.setSorting true, .add "a" "c d.c" none, .write,
      .setDefaultSection "public", .add "n" "m.c" none, .add "x\"y" "m.c" none,
      .rename "a" "z.c" "y.c", .remove "x\"y" "p q.c"]
    ¬ Text.Plain "x\"y" ∧ ∃ d answers, Operation.run opened ops = .ok (d, answers) ∧
      answers.count (.flag true) = 5 ∧ d.write.state.items = d.items.map Block.clean ∧
      ∃ bytes, d.write.result = .ok bytes ∧ ∀ written : Buffer, written.content = bytes →
        d.write.state.Agrees (Document.ofBuffer written d.policy).state := by
  intro text opened ops
  have configured : Settings.ofData [] [] = .ok {} := by decide +kernel
  have reached : (Operation.run opened ops).toOption.map (fun p => p.2.count (.flag true)) =
      some 5 := by decide +kernel
  obtain ⟨⟨d, answers⟩, ran, hcount⟩ := exists_ok_of_toOption reached
  exact ⟨by decide +kernel, d, answers, ran, hcount, written_agrees configured (by decide)
    (by decide) id _ (by decide +kernel) (by decide +kernel) ops (by decide +kernel) d answers ran⟩

end Listfile
