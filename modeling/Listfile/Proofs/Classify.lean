import Listfile.Document

/-!
Classification loses nothing: the editable form of a statement has its command and gives its
arguments back, so it renders as the statement does.
-/

namespace Listfile

namespace Classify

theorem arguments_collect (slot : Slot) : (collect slot).arguments = slot.arguments := by
  cases slot with
  | plain a => rfl
  | grouped s => rfl

theorem arguments_sectionSlots (current : Section) (arguments : List Argument) :
    (sectionSlots current arguments).flatMap Slot.arguments = current.arguments ++ arguments := by
  induction arguments generalizing current with
  | nil => simp [sectionSlots, Slot.arguments]
  | cons a rest ih =>
    simp only [sectionSlots]
    split
    · simp [ih, Slot.arguments, Section.arguments]
    · simp [ih, Section.arguments]

theorem arguments_leadingSlots (arguments : List Argument) :
    (leadingSlots arguments).flatMap Slot.arguments = arguments := by
  induction arguments with
  | nil => rfl
  | cons a rest ih =>
    simp only [leadingSlots]
    split
    · simp [arguments_sectionSlots, Section.arguments]
    · simp [ih, Slot.arguments]

theorem arguments_targetSlots (expectValue : Bool) (arguments : List Argument) :
    (targetSlots expectValue arguments).flatMap Slot.arguments = arguments := by
  induction arguments generalizing expectValue with
  | nil => rfl
  | cons a rest ih =>
    simp only [targetSlots]
    repeat' split
    all_goals simp [ih, Slot.arguments, Section.arguments]

theorem arguments_map_collect (slots : List Slot) :
    (slots.map collect).flatMap Slot.arguments = slots.flatMap Slot.arguments := by
  rw [List.flatMap_map]
  exact congrArg (slots.flatMap ·) (funext arguments_collect)

end Classify

/-- The forms in which a statement lists sources: sections of files after a keyword each, or
keywords of a target and its files. -/
theorem Sources.ofStatement?_cases {s : Statement} {line : Nat} {default : Text} {found : Sources}
    (h : (Sources.ofStatement? s line default).1 = some found) :
    ∃ a rest, s.arguments = a :: rest ∧ a.value ≠ [] ∧
      ((s.command.name = Classify.targetSources ∧
        found = { command := s.command, target := a.value,
                  slots := (Slot.plain a :: Classify.leadingSlots rest).map Classify.collect,
                  defaultSection := default.upper }) ∨
      (s.command.name ≠ Classify.targetSources ∧ s.command.name ∈ Classify.targetCommands ∧
        Classify.isSourceless rest = false ∧
        found = { command := s.command, target := a.value,
                  slots := (Slot.plain a :: Classify.targetSlots false rest).map
                    Classify.collect })) := by
  unfold Sources.ofStatement? at h
  simp only at h
  split at h
  · next hname =>
    split at h
    · simp at h
    · next a rest hargs =>
      split at h
      · simp at h
      · next hne =>
        simp only [Option.some.injEq] at h
        exact ⟨a, rest, hargs, by simpa using hne, Or.inl ⟨hname, h.symm⟩⟩
  next hname =>
  split at h
  · next hcommand =>
    split at h
    · simp at h
    · next a rest hargs =>
      split at h
      · simp at h
      · next hne =>
        split at h
        · simp at h
        · next hsource =>
          simp only [Option.some.injEq] at h
          exact ⟨a, rest, hargs, by simpa using hne,
            Or.inr ⟨hname, by simpa using hcommand, by simpa using hsource, h.symm⟩⟩
  · split at h <;> simp at h

theorem Sources.ofStatement?_lossless {s : Statement} {line : Nat} {default : Text}
    {found : Sources} (h : (Sources.ofStatement? s line default).1 = some found) :
    found.command = s.command ∧ found.arguments = s.arguments ∧ found.dirty = false := by
  obtain ⟨a, rest, hargs, -, ⟨-, rfl⟩ | ⟨-, -, -, rfl⟩⟩ := Sources.ofStatement?_cases h
  · refine ⟨rfl, ?_, rfl⟩
    rw [Sources.arguments, Classify.arguments_map_collect, List.flatMap_cons,
      Classify.arguments_leadingSlots, hargs]
    rfl
  · refine ⟨rfl, ?_, rfl⟩
    rw [Sources.arguments, Classify.arguments_map_collect, List.flatMap_cons,
      Classify.arguments_targetSlots, hargs]
    rfl

def Block.command : Block → Command
  | other s => s.command
  | listing s => s.command

namespace Document

def blockOf (default : Text) (p : Placed Statement) : Block :=
  match (Sources.ofStatement? p.item p.span.first.line default).1 with
  | some s => .listing s
  | none => .other p.item

theorem classifyAll_blocks (default : Text) (statements : List (Placed Statement)) :
    (classifyAll default statements).1 =
      statements.map fun p => ⟨p.span, blockOf default p⟩ := by
  induction statements with
  | nil => rfl
  | cons p rest ih =>
    simp only [classifyAll, ih, List.map_cons]
    rfl

theorem blockOf_render (default : Text) (p : Placed Statement) :
    (blockOf default p).render = p.item.render := by
  unfold blockOf
  split
  · next s hs =>
    obtain ⟨hc, ha, -⟩ := Sources.ofStatement?_lossless hs
    simp [Block.render, Sources.render, Statement.render, hc, ha]
  · rfl

theorem blockOf_command (default : Text) (p : Placed Statement) :
    (blockOf default p).command = p.item.command := by
  unfold blockOf
  split
  · next s hs => exact (Sources.ofStatement?_lossless hs).1
  · rfl

theorem reload_of_parse {d : Document} {statements : List (Placed Statement)}
    (h : Statement.parse (Utf8.decode d.buffer.content) = .ok statements) :
    d.reload.result = .ok true ∧ d.reload.state = { d with
      loaded := true, dirty := false, pending := []
      blocks := statements.map fun p => ⟨p.span, blockOf d.policy.defaultSection p⟩ } := by
  simp [reload, readStatements, h, classifyAll_blocks]

/-- Reading the buffer anew: it succeeds exactly when the text of the buffer is a listfile, and
then the blocks are those of its statements. -/
theorem reload_cases (d : Document) :
    (∃ statements, Statement.parse (Utf8.decode d.buffer.content) = .ok statements ∧
      d.reload.result = .ok true ∧
      d.reload.state = { d with
        loaded := true, dirty := false, pending := []
        blocks := statements.map fun p => ⟨p.span, blockOf d.policy.defaultSection p⟩ }) ∨
    (d.reload.result = .ok false ∧
      d.reload.state =
        { d with loaded := false, dirty := false, blocks := [], pending := [] }) := by
  cases h : Statement.parse (Utf8.decode d.buffer.content) with
  | ok statements => exact Or.inl ⟨statements, rfl, reload_of_parse h⟩
  | error e => exact Or.inr (by simp [reload, readStatements, h])

theorem ofBuffer_buffer (buffer : Buffer) (policy : Policy) :
    (ofBuffer buffer policy).state.buffer = buffer ∧
      (ofBuffer buffer policy).state.pending = [] := by
  rcases reload_cases { buffer := buffer, policy := policy } with ⟨_, -, -, hs⟩ | ⟨-, hs⟩
  · exact ⟨congrArg Document.buffer hs, congrArg Document.pending hs⟩
  · exact ⟨congrArg Document.buffer hs, congrArg Document.pending hs⟩

theorem ofBuffer_policy (buffer : Buffer) (policy : Policy) :
    (ofBuffer buffer policy).state.policy = policy := by
  rcases reload_cases { buffer := buffer, policy := policy } with ⟨_, -, -, hs⟩ | ⟨-, hs⟩
  · exact congrArg Document.policy hs
  · exact congrArg Document.policy hs

end Document

end Listfile
