import Listfile.Proofs.Clean
import Listfile.Proofs.Commute
import Listfile.Proofs.Refinement

/-!
Taking out what was added. A file that was nowhere among the statements of its target and was added
to a section that stands is found again as the one file of its name, so taking it out leaves every
statement as it was, except for its mark. A marked statement is rendered where it stood, and gives
the text that it had.
-/

namespace Listfile

/-- A list with one element of a kind can be split at an element of that kind in one way only. -/
theorem split_unique {α : Type} {P : α → Prop} {before after front back : List α} {a b : α}
    (others : ∀ c ∈ before ++ after, ¬ P c) (hb : P b)
    (h : before ++ a :: after = front ++ b :: back) : front = before ∧ b = a ∧ back = after := by
  rcases List.append_eq_append_iff.mp h with ⟨more, hfront, hafter⟩ | ⟨more, hbefore, hback⟩
  · cases more with
    | nil =>
      cases hafter
      exact ⟨by simpa using hfront, rfl, rfl⟩
    | cons c more =>
      exfalso
      cases hafter
      exact others b (by simp) hb
  · cases more with
    | nil =>
      cases hback
      exact ⟨by simpa using hbefore.symm, rfl, rfl⟩
    | cons c more =>
      exfalso
      cases hback
      exact others b (by simp [hbefore]) hb

def Section.Lists (file : Text) (g : Section) : Prop := ∃ a ∈ g.files, a.value = file

namespace Document

def sectionCounts (d : Document) : List Nat := d.sources.map fun s => s.sections.length

theorem removeAt_appendFile (separator file : Text) (g : Section) :
    removeAt g.files.length (appendFile separator file g) = g := by
  simp [removeAt, appendFile, List.eraseIdx_append_of_length_le]

end Document

open Document

/-- Taking a file out where it is found takes out the one that was added. -/
theorem Site.remove_added {separator separator' : Text} {candidates listed : List Sources}
    {x : Site separator candidates} {file : Text}
    (standing : x.statement.slots = x.left ++ .grouped x.group :: x.right)
    (unlisted : ∀ s ∈ candidates, ∀ g ∈ s.sections, ∀ a ∈ g.files, a.value ≠ file)
    (hlisted : listed = x.earlier ++ x.edited (appendFile separator file) :: x.later)
    {y : Site separator' listed} {before after : List Argument} {a : Argument}
    (finds : y.Finds file before a after) :
    y.earlier ++ y.edited (removeAt before.length) :: y.later =
      x.earlier ++ { x.statement with dirty := true } :: x.later := by
  have hsections : x.statement.sections =
      x.left.filterMap Slot.section? ++ x.group :: x.right.filterMap Slot.section? := by
    simp [Sources.sections, standing, Slot.section?]
  have hfound : y.group.Lists file := ⟨a, by simp [finds.files], finds.value⟩
  -- First the statement that has the file, then its section there, then the file itself.
  have elsewhere : ∀ s ∈ x.earlier ++ x.later, ¬ ∃ g ∈ s.sections, g.Lists file := by
    rintro s hs ⟨g, hg, b, hb, hvalue⟩
    refine unlisted s ?_ g hg b hb hvalue
    rw [x.candidates_eq]
    rcases List.mem_append.mp hs with hs | hs
    · exact List.mem_append_left _ hs
    · exact List.mem_append_right _ (List.mem_cons_of_mem _ hs)
  obtain ⟨hearlier, hstatement, hlater⟩ := split_unique elsewhere
    ⟨y.group, by simp [Sources.sections, finds.standing, Slot.section?], hfound⟩
    (hlisted.symm.trans y.candidates_eq)
  have beside : ∀ slot ∈ x.left ++ x.right, ¬ ∃ g, slot.section? = some g ∧ g.Lists file := by
    rintro slot hslot ⟨g, hg, b, hb, hvalue⟩
    refine unlisted x.statement x.statement_mem g ?_ b hb hvalue
    rw [hsections]
    rcases List.mem_append.mp hslot with hslot | hslot
    · exact List.mem_append_left _ (List.mem_filterMap.mpr ⟨slot, hslot, hg⟩)
    · exact List.mem_append_right _
        (List.mem_cons_of_mem _ (List.mem_filterMap.mpr ⟨slot, hslot, hg⟩))
  have hslots : x.left ++ .grouped (appendFile separator file x.group) :: x.right =
      y.left ++ .grouped y.group :: y.right := by
    rw [← finds.standing, hstatement]
    rfl
  obtain ⟨hleft, hgroup, hright⟩ := split_unique beside ⟨y.group, rfl, hfound⟩ hslots
  have hsection : y.group = appendFile separator file x.group := Slot.grouped.inj hgroup
  have old : ∀ b ∈ x.group.files ++ [], ¬ b.value = file := by
    intro b hb
    refine unlisted x.statement x.statement_mem x.group ?_ b (by simpa using hb)
    simp [hsections]
  have hfiles := finds.files
  rw [hsection, appendFile] at hfiles
  obtain ⟨hbefore, -, -⟩ := split_unique old finds.value hfiles
  have hedited : y.edited (removeAt before.length) = { x.statement with dirty := true } := by
    rw [Site.edited, hsection, hbefore, removeAt_appendFile, hleft, hright, hstatement, ← standing]
    rfl
  rw [hearlier, hlater, hedited]

namespace Document

variable {d : Document} {target file : Text} {hint : Option Text}

theorem sectionCounts_eq_items (d : Document) :
    d.sectionCounts = (d.items.filterMap Block.sources?).map fun s => s.sections.length := by
  rw [sectionCounts, sources_eq_items]

/-- An edit that keeps the number of sections changes one that stands. -/
theorem standing_of_sectionCounts {separator : Text} {x : Site separator (d.sourcesOf target)}
    {f : Section → Section} (same : (d.editAt target x f).sectionCounts = d.sectionCounts) :
    x.statement.slots = x.left ++ .grouped x.group :: x.right := by
  rcases x.room_cases with standing | ⟨name, -, -, hleft, -, hright⟩
  · exact standing
  · exfalso
    obtain ⟨before, after, hold, hnew, -, -⟩ := d.items_editAt target x f
    have hcount : (x.edited f).sections.length = x.statement.sections.length + 1 := by
      simp [Site.edited, Sources.sections, hleft, hright, Slot.section?]
    simp [sectionCounts_eq_items, hold, hnew, hcount] at same

theorem addFile_standing (added : (d.addFile target file hint).result = .ok true)
    (same : (d.addFile target file hint).state.sectionCounts = d.sectionCounts) :
    ∃ x : Site d.policy.separator (d.sourcesOf target),
      x.statement.slots = x.left ++ .grouped x.group :: x.right ∧
      (d.addFile target file hint).state =
        d.editAt target x (d.policy.order ∘ appendFile d.policy.separator file) := by
  rcases addFile_editAt d target file hint with ⟨-, fault, herr⟩ | ⟨hno, -, -⟩ |
    ⟨-, -, x, hstate⟩ | ⟨-, -, -, x, hstate⟩
  · rw [added] at herr
    cases herr
  · rw [added] at hno
    cases hno
  · rw [hstate] at same
    exact ⟨x, standing_of_sectionCounts same, hstate⟩
  · -- A created block is one statement more.
    exfalso
    obtain ⟨before, after, hold, hnew, -, -⟩ := (d.withBlock target).items_editAt target x
      (d.policy.order ∘ appendFile d.policy.separator file)
    have hmore := congrArg List.length same
    rw [hstate, sectionCounts_eq_items, hnew] at hmore
    have hsources := congrArg List.length (sources_withBlock d target)
    rw [sources_eq_items, hold] at hsources
    simp only [sectionCounts, List.length_map, List.filterMap_append, List.length_append,
      List.filterMap_cons_some (Block.sources?_listing _), List.length_cons,
      List.length_nil] at hmore hsources
    omega

/-- Taking out the file that was added leaves the statement marked, and all else as it was. -/
theorem removeFile_editAt (loaded : d.loaded = true) (unsorted : d.policy.sorting = false)
    {x : Site d.policy.separator (d.sourcesOf target)}
    (standing : x.statement.slots = x.left ++ .grouped x.group :: x.right)
    (unlisted : ∀ s ∈ d.sourcesOf target, ∀ g ∈ s.sections, ∀ a ∈ g.files, a.value ≠ file) :
    let added := d.editAt target x (appendFile d.policy.separator file)
    (added.removeFile target file).result = .ok true ∧
      (added.removeFile target file).state.Alike d := by
  intro added
  have hlisted : added.sourcesOf target =
      x.earlier ++ x.edited (appendFile d.policy.separator file) :: x.later :=
    sourcesOf_editAt d target x _
  rw [removeFile_of_loaded (d := added) loaded]
  rcases changeFile_editAt added target file removeAt with ⟨sorting, -⟩ | ⟨-, -, missing⟩ |
    ⟨hok, y, before, a, after, finds, hstate⟩
  · have : d.policy.sorting = true := sorting
    rw [unsorted] at this
    cases this
  · exfalso
    have hadded : ∃ a ∈ (appendFile d.policy.separator file x.group).files, a.value = file :=
      ⟨_, List.mem_append_right _ List.mem_cons_self, rfl⟩
    obtain ⟨a, ha, hvalue⟩ := hadded
    refine missing (x.edited (appendFile d.policy.separator file)) (by simp [hlisted])
      (appendFile d.policy.separator file x.group) ?_ a ha hvalue
    simp [Site.edited, Sources.sections, Slot.section?]
  · refine ⟨hok, ?_⟩
    have hrestored := Site.remove_added standing unlisted hlisted finds
    have own : ∀ s ∈ x.earlier ++ x.edited (appendFile d.policy.separator file) :: x.later,
        s.target = target := by
      intro s hs
      rw [← hlisted] at hs
      exact added.target_of_mem target hs
    have hitems : (added.changeFile target file removeAt).state.items =
        (d.withTarget target
          (x.earlier ++ { x.statement with dirty := true } :: x.later)).items := by
      have horder : added.policy.order ∘ removeAt before.length = removeAt before.length :=
        order_comp unsorted _
      have hmoved : (added.changeFile target file removeAt).state.items =
          (added.withTarget target
            (x.earlier ++ { x.statement with dirty := true } :: x.later)).items := by
        rw [hstate, horder, ← hrestored]
        rfl
      have hfirst : added.items = (d.withTarget target
          (x.earlier ++ x.edited (appendFile d.policy.separator file) :: x.later)).items := rfl
      rw [hmoved, items_withTarget_eq, hfirst, items_withTarget_eq,
        restoreItems_again own (by simp), items_withTarget_eq]
    obtain ⟨front, back, hold, hnew, -, -⟩ :=
      d.items_withTarget target x { x.statement with dirty := true }
    refine ⟨by rw [hstate]; rfl, by rw [hstate]; rfl, ?_⟩
    rw [hitems, hnew, hold]
    simp [Block.clean]

theorem buffer_write_same (h : d.write.result = .ok d.buffer.content) :
    d.write.state.buffer = d.buffer := by
  by_cases loaded : d.loaded = true
  · cases hdraft : d.draft? with
    | none => simp [write, loaded, hdraft] at h
    | some r =>
      rw [write_of_draft? loaded hdraft] at h ⊢
      have hdata : Utf8.encode r.output = d.buffer.content := Except.ok.inj h
      simp [settleDraft, hdata]
  · rw [write_of_not_loaded loaded]

theorem Alike.sections {e : Document} (h : d.Alike e) :
    d.sources.map Sources.sections = e.sources.map Sources.sections := by
  have hclean : Sources.sections ∘ Sources.clean = Sources.sections := rfl
  have := congrArg (List.map Sources.sections) h.sources
  rwa [List.map_map, List.map_map, hclean] at this

end Document

/-- Taking a file out undoes adding it, if no section of the target had the file and none was
created for it: the document has its statements again, up to marks, and writes the bytes that it
would have written before. If it was not marked before, these are the bytes of the buffer, and the
write does not touch it. -/
theorem remove_undoes_add {d : Document} (reachable : d.Reachable) (loaded : d.loaded = true)
    (unsorted : d.policy.sorting = false) (target file : Text) (hint : Option Text)
    (unlisted : ∀ s ∈ d.sourcesOf target, ∀ g ∈ s.sections, ∀ a ∈ g.files, a.value ≠ file)
    (added : (d.addFile target file hint).result = .ok true)
    (nothingCreated : (d.addFile target file hint).state.sectionCounts = d.sectionCounts) :
    let undone := (d.addFile target file hint).state.removeFile target file
    undone.result = .ok true ∧ undone.state.items.map Block.clean = d.items.map Block.clean ∧
    undone.state.sources.map Sources.sections = d.sources.map Sources.sections ∧
    ∃ bytes, d.write.result = .ok bytes ∧ undone.state.write.result = .ok bytes ∧
      (d.dirty = false →
        bytes = d.buffer.content ∧ undone.state.write.state.buffer = d.buffer) := by
  intro undone
  obtain ⟨removed, alike⟩ : undone.result = .ok true ∧ undone.state.Alike d := by
    obtain ⟨x, standing, hstate⟩ := addFile_standing added nothingCreated
    rw [order_comp unsorted] at hstate
    simp only [undone, hstate]
    exact removeFile_editAt loaded unsorted standing unlisted
  have moved : d.Moved undone.state := (addFile_moved added).trans (removeFile_moved removed)
  obtain ⟨strands, tail, laid⟩ := reachable.laid
  have hwrite : undone.state.write.result = d.write.result :=
    alike.write_result (laid.moved moved) laid loaded fun _ _ _ => rfl
  obtain ⟨output, -, hresult, -⟩ := laid.write loaded
  refine ⟨removed, alike.items, alike.sections, _, hresult, hwrite.trans hresult, ?_⟩
  intro clean
  have settled : d.Settled := ⟨reachable.laid, reachable.tidy⟩
  have hbytes : d.write.result = .ok d.buffer.content := by rw [settled.write clean]
  refine ⟨Except.ok.inj (hresult.symm.trans hbytes), ?_⟩
  rw [← moved.buffer]
  apply buffer_write_same
  rw [hwrite, hbytes, moved.buffer]

/-- Brackets, quotes, an escape, a comment and odd spacing: the statement is marked, and rendering
it gives the text that it was read from. -/
theorem remove_undoes_add_odd_spacing :
    let d := (Document.ofBuffer (Buffer.ofString
      "# x\r\nAdd_Library ( app\t[=[b ]] c.c]=]\"d e.c\" # note\n  z\\ y.c\t) foo()") {}).state
    d.dirty = false ∧ ∃ undone, (d.addFile "app" "n.c" none).state.removeFile "app" "n.c" = undone ∧
      undone.state.dirty = true ∧ undone.state.sources.map (·.dirty) = [true] ∧
      undone.result = .ok true ∧ undone.state.items.map Block.clean = d.items.map Block.clean ∧
      undone.state.write.result = .ok d.buffer.content ∧
      undone.state.write.state.buffer = d.buffer := by
  intro d
  have loaded : d.loaded = true := by decide +kernel
  have reachable : d.Reachable := .opened _ _ loaded
  have clean : d.dirty = false := by decide +kernel
  have unlisted : ∀ s ∈ d.sourcesOf "app", ∀ g ∈ s.sections, ∀ a ∈ g.files, a.value ≠ "n.c" := by
    decide +kernel
  have added : (d.addFile "app" "n.c" none).result = .ok true := by decide +kernel
  have nothingCreated : (d.addFile "app" "n.c" none).state.sectionCounts = d.sectionCounts := by
    decide +kernel
  have marked : ((d.addFile "app" "n.c" none).state.removeFile "app" "n.c").state.dirty = true ∧
      ((d.addFile "app" "n.c" none).state.removeFile "app" "n.c").state.sources.map (·.dirty) =
        [true] := by
    decide +kernel
  obtain ⟨removed, items, -, bytes, -, written, unmarked⟩ :=
    remove_undoes_add reachable loaded rfl "app" "n.c" none unlisted added nothingCreated
  obtain ⟨rfl, hbuffer⟩ := unmarked clean
  exact ⟨clean, _, rfl, marked.1, marked.2, removed, items, written, hbuffer⟩

end Listfile
