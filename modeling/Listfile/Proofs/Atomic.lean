import Listfile.Proofs.Session
import Listfile.Proofs.Site

/-!
Edits as transactions. An edit puts one section of one statement in the place of another, and then
either follows up on that in full, with the marks and the calls, or was refused before it touched
anything. One step in between can fail: a policy that sorts meets a null character among the files
of the changed section. The change stays then, and nothing tells of it.
-/

namespace Listfile

namespace Document

/-- One section of one statement of a target, which stands there or is opened for it, gives way to
another. All around it stays, and the change is marked and announced, or it is not. -/
structure Replaces (d d' : Document) (target : Text) (g g' : Section) (marked : Bool) : Prop where
  statements : ∃ before s after left right,
    d.items = before ++ .listing s :: after ∧ s.target = target ∧
    s.Room d.policy.separator left g right ∧
    d'.items = before ++ .listing { s with
      slots := left ++ .grouped g' :: right, dirty := s.dirty || marked } :: after
  dirty : d'.dirty = (d.dirty || marked)
  listeners : d'.listeners = if marked then d.listeners.map (· + 1) else d.listeners
  spans : d'.blocks.map (·.span) = d.blocks.map (·.span)
  buffer : d'.buffer = d.buffer
  policy : d'.policy = d.policy
  loaded : d'.loaded = d.loaded

/-- The document in which an edit finds its statement: a target without sources has a new block. -/
def prepared (d : Document) (target : Text) : Document :=
  if d.sourcesOf target = [] then d.withBlock target else d

def addition? (d : Document) (target file : Text) (hint : Option Text) :
    Option (Section × Section) :=
  match Placement.choose (d.sourcesOf target) file (d.preferredSection? hint) with
  | .error _ => none
  | .ok (choice, _) =>
    let (settled, place) := Placement.settle (d.sourcesOf target) choice d.policy.separator
    (Placement.section? settled place).map fun g => (g, appendFile d.policy.separator file g)

def change? (d : Document) (target file : Text) (f : Nat → Section → Section) :
    Option (Section × Section) :=
  (findFile? (d.sourcesOf target) file).bind fun found =>
    (Placement.section? (d.sourcesOf target) found.1).map fun g => (g, f found.2 g)

end Document

namespace Operation

def target? : Operation → Option Text
  | add target _ _ | rename target _ _ | remove target _ => some target
  | _ => none

/-- The section that an edit changes, before and after; none if the edit is refused. -/
def reached? (d : Document) : Operation → Option (Section × Section)
  | add target file hint =>
    if d.loaded = false ∨ file = [] ∨ d.sourcesOf target = [] ∧ d.policy.creating = false then none
    else (d.prepared target).addition? target file hint
  | rename target old new =>
    if d.loaded = false ∨ new = [] then none else d.change? target old (Document.renameAt new)
  | remove target file =>
    if d.loaded = false then none else d.change? target file Document.removeAt
  | _ => none

/-- An edit either is carried out, with its marks and calls, or leaves the document as it was. -/
def AllOrNothing (d : Document) (op : Operation) (target : Text) : Prop :=
  ((op.apply d).2 = .ok (.flag true) ∧ ∃ g g', op.reached? d = some (g, g') ∧
    (d.prepared target).Replaces (op.apply d).1 target g (d.policy.order g') true) ∨
  ((op.apply d).2 ≠ .ok (.flag true) ∧ (op.apply d).1 = d)

/-- Files are sorted, and the section that an edit changes cannot be. -/
def jams (d : Document) (op : Operation) : Bool :=
  d.policy.sorting && (op.reached? d).any fun p => p.2.isUnsortable && p.2 ≠ p.1

end Operation

namespace Document

theorem refill_self (blocks : List (Placed Block)) (pending : List Sources) :
    refill blocks (blocks.filterMap (·.item.sources?) ++ pending) = (blocks, pending) := by
  induction blocks with
  | nil => rfl
  | cons b rest ih =>
    obtain ⟨span, item⟩ := b
    cases item with
    | other s => simp [refill, List.filterMap_cons, ih]
    | listing s => simp [refill, ih]

theorem withTarget_self (d : Document) (target : Text) :
    d.withTarget target (d.sourcesOf target) = d := by
  rw [withTarget, sourcesOf, restoreTarget_self, withSources, sources, refill_self]

section Site

variable {d : Document} {target : Text} (x : Site d.policy.separator (d.sourcesOf target))

theorem replaces_editAt (f : Section → Section) :
    d.Replaces (d.editAt target x f) target x.group (f x.group) true := by
  obtain ⟨before, after, hitems, hedited, -, -⟩ := d.items_editAt target x f
  refine ⟨⟨before, x.statement, after, x.left, x.right, hitems, d.target_statement target x,
    x.room, ?_⟩, ?_, rfl, spans_withSources d _, rfl, rfl, rfl⟩
  · rw [hedited, Bool.or_true]
    rfl
  · rw [Bool.or_true]
    rfl

theorem replaces_leaveAt (f : Section → Section) :
    d.Replaces (d.leaveAt target x f) target x.group (f x.group) false := by
  obtain ⟨before, after, hitems, hleft, -, -⟩ :=
    d.items_withTarget target x (x.replaced (f x.group))
  refine ⟨⟨before, x.statement, after, x.left, x.right, hitems, d.target_statement target x,
    x.room, ?_⟩, ?_, rfl, spans_withSources d _, rfl, rfl, rfl⟩
  · rw [Bool.or_false]
    exact hleft
  · rw [Bool.or_false]
    rfl

theorem leaveAt_self {f : Section → Section}
    (standing : x.statement.slots = x.left ++ .grouped x.group :: x.right)
    (same : f x.group = x.group) : d.leaveAt target x f = d := by
  rw [leaveAt, same, Site.replaced_of_standing standing, ← x.candidates_eq, withTarget_self]

end Site

theorem Replaces.items_ne {d d' : Document} {target : Text} {g g' : Section} {marked : Bool}
    (h : d.Replaces d' target g g' marked) (changed : g' ≠ g) : d'.items ≠ d.items := by
  obtain ⟨before, s, after, left, right, hitems, -, room, hitems'⟩ := h.statements
  rw [hitems, hitems']
  intro heq
  have hslots : left ++ Slot.grouped g' :: right = s.slots := by
    have hcons := List.append_cancel_left heq
    rw [List.cons.injEq, Block.listing.injEq] at hcons
    exact congrArg Sources.slots hcons.1
  cases room with
  | standing hs =>
    rw [hs] at hslots
    have hcons := List.append_cancel_left hslots
    rw [List.cons.injEq, Slot.grouped.injEq] at hcons
    exact changed hcons.1
  | opened _ _ =>
    have := congrArg List.length hslots
    simp at this

theorem Replaces.length_items {d d' : Document} {target : Text} {g g' : Section} {marked : Bool}
    (h : d.Replaces d' target g g' marked) : d'.items.length = d.items.length := by
  obtain ⟨before, s, after, left, right, hitems, -, -, hitems'⟩ := h.statements
  simp [hitems, hitems']

theorem Replaces.ne {d d' : Document} {target : Text} {g g' : Section} {marked : Bool}
    (h : (d.prepared target).Replaces d' target g g' marked) (changed : g' ≠ g) : d' ≠ d := by
  rintro rfl
  by_cases hnil : d'.sourcesOf target = []
  · have hlen := h.length_items
    simp [prepared, hnil, withBlock, items] at hlen
  · rw [prepared, if_neg hnil] at h
    exact h.items_ne changed rfl

/-- What can come of an edit that reaches a section, or none. -/
inductive Outcome (d : Document) (target : Text) (reached : Option (Section × Section))
    (r : Reply Document Bool) : Prop where
  | refused (nowhere : reached = none) (answer : r.result = .ok false) (state : r.state = d)
  | done {g g' : Section} (there : reached = some (g, g'))
      (sortable : d.policy.sorting = true → g'.isUnsortable = false)
      (answer : r.result = .ok true)
      (change : (d.prepared target).Replaces r.state target g (d.policy.order g') true)
  | stuck {g g' : Section} (there : reached = some (g, g')) (sorting : d.policy.sorting = true)
      (unsortable : g'.isUnsortable = true) (answer : r.result = .error .nullInValue)
      (change : (d.prepared target).Replaces r.state target g g' false)
      (same : g' = g → r.state = d)

theorem prepared_of_ne {d : Document} {target : Text} (h : d.sourcesOf target ≠ []) :
    d.prepared target = d := if_neg h

theorem prepared_of_nil {d : Document} {target : Text} (h : d.sourcesOf target = []) :
    d.prepared target = d.withBlock target := if_pos h

theorem prepared_policy (d : Document) (target : Text) :
    (d.prepared target).policy = d.policy := by
  unfold prepared
  split <;> rfl

theorem sourcesOf_prepared_ne (d : Document) (target : Text) :
    (d.prepared target).sourcesOf target ≠ [] := by
  by_cases hnil : d.sourcesOf target = []
  · rw [prepared_of_nil hnil, sourcesOf_withBlock]
    simp
  · rwa [prepared_of_ne hnil]

theorem appendFile_ne (separator file : Text) (g : Section) :
    appendFile separator file g ≠ g := by
  intro heq
  have := congrArg (fun s : Section => s.files.length) heq
  simp [appendFile] at this

theorem addTo_outcome (d : Document) (target file : Text) (hint : Option Text)
    (events : List Event) :
    d.Outcome target ((d.prepared target).addition? target file hint)
      ((d.prepared target).addTo target file hint events) := by
  obtain ⟨choice, chosen, hchoose, x, hat, changes⟩ :=
    addTo_changes (d.sourcesOf_prepared_ne target) file hint events
  have hpolicy := d.prepared_policy target
  have hreached : (d.prepared target).addition? target file hint =
      some (x.group, appendFile (d.prepared target).policy.separator file x.group) := by
    simp only [addition?, hchoose, hat.section?, Option.map_some]
  cases changes with
  | done sortable answer state =>
    refine .done hreached (fun sorting => sortable (hpolicy ▸ sorting)) answer ?_
    rw [state, ← hpolicy]
    exact replaces_editAt x _
  | stuck sorting unsortable answer state =>
    refine .stuck hreached (hpolicy ▸ sorting) unsortable answer ?_ ?_
    · rw [state]
      exact replaces_leaveAt x _
    · exact fun same => absurd same (appendFile_ne _ _ _)

theorem addFile_prepared (d : Document) (target file : Text) (hint : Option Text) :
    ((d.loaded = false ∨ file = [] ∨ d.sourcesOf target = [] ∧ d.policy.creating = false) ∧
      (d.addFile target file hint).result = .ok false ∧
      (d.addFile target file hint).state = d) ∨
    (¬ (d.loaded = false ∨ file = [] ∨ d.sourcesOf target = [] ∧ d.policy.creating = false) ∧
      ∃ events, d.addFile target file hint =
        (d.prepared target).addTo target file hint events) := by
  by_cases hloaded : d.loaded = false
  · exact Or.inl ⟨Or.inl hloaded, by simp [addFile, hloaded], by simp [addFile, hloaded]⟩
  by_cases hfile : file = []
  · exact Or.inl ⟨Or.inr (Or.inl hfile), by simp [addFile, hloaded, hfile],
      by simp [addFile, hloaded, hfile]⟩
  by_cases hnil : d.sourcesOf target = []
  · by_cases hcreating : d.policy.creating = false
    · exact Or.inl ⟨Or.inr (Or.inr ⟨hnil, hcreating⟩),
        by simp [addFile, hloaded, hfile, hnil, hcreating],
        by simp [addFile, hloaded, hfile, hnil, hcreating]⟩
    · refine Or.inr ⟨by simp [hloaded, hfile, hcreating],
        [.blockCreated Classify.targetSources target], ?_⟩
      simp [addFile, hloaded, hfile, hnil, hcreating, prepared_of_nil hnil, withBlock]
  · refine Or.inr ⟨by simp [hloaded, hfile, hnil], [], ?_⟩
    simp [addFile, hloaded, hfile, hnil, prepared_of_ne hnil]

theorem addFile_outcome (d : Document) (target file : Text) (hint : Option Text) :
    d.Outcome target ((Operation.add target file hint).reached? d)
      (d.addFile target file hint) := by
  rcases addFile_prepared d target file hint with
    ⟨impossible, answer, state⟩ | ⟨possible, events, hadd⟩
  · exact .refused (if_pos impossible) answer state
  · rw [Operation.reached?, if_neg possible, hadd]
    exact addTo_outcome d target file hint events

theorem changeFile_outcome (d : Document) (target file : Text) (f : Nat → Section → Section) :
    d.Outcome target (d.change? target file f) (d.changeFile target file f) := by
  rcases changeFile_changes d target file f with ⟨answer, state, hnone⟩ |
    ⟨place, x, before, a, after, hfound, hat, finds, changes⟩
  · exact .refused (by rw [change?, hnone]; rfl) answer state
  have hsome : d.sourcesOf target ≠ [] := by
    rw [x.candidates_eq]
    simp
  have hreached : d.change? target file f = some (x.group, f before.length x.group) := by
    simp only [change?, hfound, Option.bind_some, hat.section?, Option.map_some]
  cases changes with
  | done sortable answer state =>
    refine .done hreached sortable answer ?_
    rw [prepared_of_ne hsome, state]
    exact replaces_editAt x _
  | stuck sorting unsortable answer state =>
    refine .stuck hreached sorting unsortable answer ?_ ?_
    · rw [prepared_of_ne hsome, state]
      exact replaces_leaveAt x _
    · intro same
      rw [state, leaveAt_self x finds.standing same]

theorem renameFile_outcome (d : Document) (target old new : Text) :
    d.Outcome target ((Operation.rename target old new).reached? d)
      (d.renameFile target old new) := by
  by_cases hloaded : d.loaded = false
  · exact .refused (by simp [Operation.reached?, hloaded]) (by simp [renameFile, hloaded])
      (by simp [renameFile, hloaded])
  by_cases hnew : new = []
  · exact .refused (by simp [Operation.reached?, hnew]) (by simp [renameFile, hloaded, hnew])
      (by simp [renameFile, hloaded, hnew])
  rw [renameFile_of_loaded (by simpa using hloaded) target old hnew]
  simpa [Operation.reached?, hloaded, hnew] using changeFile_outcome d target old (renameAt new)

theorem removeFile_outcome (d : Document) (target file : Text) :
    d.Outcome target ((Operation.remove target file).reached? d) (d.removeFile target file) := by
  by_cases hloaded : d.loaded = false
  · exact .refused (by simp [Operation.reached?, hloaded]) (by simp [removeFile, hloaded])
      (by simp [removeFile, hloaded])
  rw [removeFile_of_loaded (by simpa using hloaded)]
  simpa [Operation.reached?, hloaded] using changeFile_outcome d target file removeAt

end Document

namespace Operation

theorem exists_outcome {op : Operation} {target : Text} (edit : op.target? = some target)
    (d : Document) : ∃ r : Reply Document Bool,
      op.apply d = (r.state, r.result.map .flag) ∧ d.Outcome target (op.reached? d) r := by
  cases op with
  | add t file hint =>
    cases edit
    exact ⟨_, rfl, d.addFile_outcome _ _ _⟩
  | rename t old new =>
    cases edit
    exact ⟨_, rfl, d.renameFile_outcome _ _ _⟩
  | remove t file =>
    cases edit
    exact ⟨_, rfl, d.removeFile_outcome _ _⟩
  | setSorting on => cases edit
  | setCreating on => cases edit
  | setDefaultSection name => cases edit
  | addListener => cases edit
  | write => cases edit
  | save host => cases edit
  | reload => cases edit

end Operation

/-- An edit is all or nothing exactly when it does not jam. One that jams fails for a null
character, and its change stays in the document with no mark and no call. -/
theorem edit_atomic_unless_jammed (d : Document) (op : Operation) (target : Text)
    (edit : op.target? = some target) :
    (op.AllOrNothing d target ↔ op.jams d = false) ∧
    (op.jams d = true → (op.apply d).2 = .error .nullInValue ∧ (op.apply d).1 ≠ d ∧
      ∃ g g', op.reached? d = some (g, g') ∧
        (d.prepared target).Replaces (op.apply d).1 target g g' false) := by
  obtain ⟨r, happly, outcome⟩ := Operation.exists_outcome edit d
  simp only [Operation.AllOrNothing, happly]
  cases outcome with
  | refused nowhere answer state =>
    have free : op.jams d = false := by simp [Operation.jams, nowhere]
    have no : r.result.map Answer.flag ≠ .ok (.flag true) := by simp [answer, Except.map]
    exact ⟨iff_of_true (Or.inr ⟨no, state⟩) free, fun jams => by simp [free] at jams⟩
  | @done g g' there sortable answer change =>
    have free : op.jams d = false := by
      cases hsorting : d.policy.sorting with
      | false => simp [Operation.jams, hsorting]
      | true => simp [Operation.jams, there, sortable hsorting]
    have yes : r.result.map Answer.flag = .ok (.flag true) := by rw [answer]; rfl
    exact ⟨iff_of_true (Or.inl ⟨yes, g, g', there, change⟩) free,
      fun jams => by simp [free] at jams⟩
  | @stuck g g' there sorting unsortable answer change same =>
    have fails : r.result.map Answer.flag = .error .nullInValue := by rw [answer]; rfl
    have hjams : op.jams d = decide (g' ≠ g) := by
      simp [Operation.jams, sorting, there, unsortable]
    rw [hjams, fails]
    by_cases changed : g' = g
    · -- A file renamed to itself fails all the same, but nothing was changed before.
      refine ⟨iff_of_true (Or.inr ⟨by simp, same changed⟩) (by simpa using changed), ?_⟩
      intro jams
      exact absurd changed (of_decide_eq_true jams)
    · refine ⟨iff_of_false ?_ (by simpa using changed), fun _ => ?_⟩
      · rintro (⟨yes, -⟩ | ⟨-, state⟩)
        · cases yes
        · exact change.ne changed state
      · exact ⟨rfl, change.ne changed, g, g', there, change⟩

/-- Two files for a section that is kept in order: one is put before the file that is there, the
other cannot be compared with it. -/
theorem edit_atomic_unless_jammed_null :
    let d := (Document.ofBuffer (Buffer.ofString "target_sources(app PRIVATE b.cpp)")
      { sorting := true }).state
    (Operation.add "app" "a.cpp" none).AllOrNothing d "app" ∧
    (Operation.add "app" "a\x00.cpp" none).jams d = true ∧
    ((Operation.add "app" "a\x00.cpp" none).apply d).2 = .error .nullInValue ∧
    ((Operation.add "app" "a\x00.cpp" none).apply d).1 ≠ d := by
  intro d
  have jams : (Operation.add "app" "a\x00.cpp" none).jams d = true := by decide +kernel
  have kept := (edit_atomic_unless_jammed d (.add "app" "a\x00.cpp" none) "app" rfl).2 jams
  exact ⟨(edit_atomic_unless_jammed d (.add "app" "a.cpp" none) "app" rfl).1.mpr
    (by decide +kernel), jams, kept.1, kept.2.1⟩

/-- A call that fails may leave a trace: the file is listed, nothing is marked, and a listener was
not called. -/
theorem failed_edit_leaves_trace :
    let d := (Document.ofBuffer (Buffer.ofString "target_sources(app PRIVATE a.cpp)")
      { sorting := true }).state.addListener
    let r := d.addFile "app" "b\x00.cpp" none
    r.result = .error .nullInValue ∧ d.sourceFiles "app" = (["a.cpp"] : List Text) ∧
      r.state.sourceFiles "app" = (["a.cpp", "b\x00.cpp"] : List Text) ∧
      r.state.dirty = false ∧ r.state.listeners = [0] := by
  decide +kernel

end Listfile
