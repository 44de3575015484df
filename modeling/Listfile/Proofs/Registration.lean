import Listfile.Proofs.Refinement
import Listfile.Proofs.Registry
import Listfile.Proofs.Reshape
import Mathlib.Data.List.Nodup

/-!
How the lists of a registry agree with each other, and how edits keep it that way. Every record is
listed once, under its target and for its statement, and its own two lists refer to the same
sections. A change of one section then is the change of one section in the document.
-/

namespace Listfile

namespace Registry

variable {r : Registry} {target : Text}

section Index

variable (targetOf : Nat → Text)

theorem distinct_concat (texts : List Text) (t : Text) : Document.distinct (texts ++ [t]) =
    if t ∈ Document.distinct texts then Document.distinct texts
    else Document.distinct texts ++ [t] := by
  simp [Document.distinct, List.foldl_append]

theorem filter_target_eq_nil (ids : List Nat) (target : Text) :
    ids.filter (fun id => targetOf id = target) = [] ↔ target ∉ ids.map targetOf := by
  simp [List.filter_eq_nil_iff]

theorem foldl_enter (ids : List Nat) :
    ids.foldl (fun index id => enter index (targetOf id) id) [] =
      (Document.distinct (ids.map targetOf)).map fun t =>
        (t, ids.filter fun id => targetOf id = t) := by
  induction ids using List.reverseRecOn with
  | nil => rfl
  | append_singleton ids id ih =>
    have hseen : (ids.foldl (fun index id => enter index (targetOf id) id) []).any
        (fun entry => entry.1 = targetOf id) =
        decide (targetOf id ∈ Document.distinct (ids.map targetOf)) := by
      rw [ih, List.any_map]
      by_cases h : targetOf id ∈ Document.distinct (ids.map targetOf)
      · simp [h]
      · simp only [h, decide_false, List.any_eq_false]
        rintro t ht heq
        simp only [Function.comp_apply, decide_eq_true_eq] at heq
        exact h (heq ▸ ht)
    rw [List.foldl_append, List.foldl_cons, List.foldl_nil, enter, hseen, ih, List.map_append,
      List.map_singleton, distinct_concat]
    by_cases h : targetOf id ∈ Document.distinct (ids.map targetOf)
    · simp only [h, decide_true, if_true, List.map_map]
      refine List.map_congr_left fun t _ => ?_
      by_cases ht : t = targetOf id
      · simp [ht]
      · simp [ht, Ne.symm ht]
    · have hnone : ids.filter (fun other => targetOf other = targetOf id) = [] :=
        (filter_target_eq_nil targetOf ids _).mpr fun hmem => h (Document.mem_distinct.mpr hmem)
      simp only [h, decide_false, if_false, List.map_append, List.map_singleton,
        List.filter_append, hnone, Bool.false_eq_true]
      congr 1
      · refine List.map_congr_left fun t ht => ?_
        have hne : targetOf id ≠ t := fun heq => h (heq ▸ ht)
        simp [hne]
      · simp

theorem lookup_grouped (ids : List Nat) (target : Text) :
    (((Document.distinct (ids.map targetOf)).map fun t =>
      (t, ids.filter fun id => targetOf id = t)).lookup target) =
    if target ∈ ids.map targetOf then some (ids.filter fun id => targetOf id = target)
    else none := by
  by_cases h : target ∈ ids.map targetOf
  · rw [List.lookup_graph _ (Document.mem_distinct.mpr h), if_pos h]
  · rw [if_neg h, List.lookup_eq_none_iff]
    intro entry hentry
    obtain ⟨t, ht, rfl⟩ := List.mem_map.mp hentry
    simpa using fun heq : target = t => h (heq ▸ Document.mem_distinct.mp ht)

end Index

/-- Every record is registered once, in the list of sources, under its target and for its
statement. -/
structure Registered (r : Registry) : Prop where
  records : ∀ x ∈ r.records, x.Sound
  held : ∀ x ∈ r.records, x.statement < r.held.length
  apart : (r.records.map (·.statement)).Nodup
  sources : r.sources = List.range r.records.length
  index : r.index =
    r.sources.foldl (fun index id => enter index (r.recordAt id).target id) []
  owners : r.owners = r.sources.map fun id => ((r.recordAt id).statement, id)

/-- How the parts of a registry agree: the statements that have been made are those of the file and
the created ones, and the list of sources has the order of their records. -/
structure Sound (r : Registry) : Prop extends r.Registered where
  placed : r.statements ++ r.created.map (fun id => (r.recordAt id).statement) =
    List.range r.held.length
  listed : r.statements.filterMap r.owner? ++ r.created = r.sources

theorem recordAt_mem {id : Nat} (h : id < r.records.length) : r.recordAt id ∈ r.records := by
  rw [recordAt, List.getD_eq_getElem?_getD, List.getElem?_eq_getElem h, Option.getD_some]
  exact List.getElem_mem h

theorem map_recordAt_range (r : Registry) {α : Type} (f : Record → α) :
    (List.range r.records.length).map (fun id => f (r.recordAt id)) = r.records.map f :=
  map_getD_range r.records _ f

theorem itemAt_sources? (r : Registry) (statement : Nat) :
    (r.itemAt statement).sources? = (r.owner? statement).map r.view := by
  unfold itemAt
  cases r.owner? statement <;> rfl

theorem owner?_register {statement : Nat} {x : Record} (other : statement ≠ x.statement) :
    (r.register x).owner? statement = r.owner? statement := by
  have hmiss : [(x.statement, r.records.length)].lookup statement = none := by
    simpa [List.lookup_eq_none_iff] using other
  have hlookup : (r.register x).owner? statement =
      (r.owners.lookup statement).or ([(x.statement, r.records.length)].lookup statement) :=
    List.lookup_append
  rw [hlookup, hmiss, Option.or_none, owner?]

theorem view_register {id : Nat} (x : Record) (hid : id < r.records.length) :
    (r.register x).view id = r.view id := by
  have hrecord : (r.register x).recordAt id = r.recordAt id := getD_append_left _ hid _
  rw [view, commandAt, hrecord]
  rfl

namespace Registered

variable {id statement : Nat} {x : Record} (h : r.Registered)
include h

theorem mem_sources : id ∈ r.sources ↔ id < r.records.length := by
  rw [h.sources, List.mem_range]

theorem nodup_sources : r.sources.Nodup := by
  rw [h.sources]
  exact List.nodup_range

theorem eq_of_statement {other : Nat} (hid : id < r.records.length)
    (hother : other < r.records.length)
    (same : (r.recordAt id).statement = (r.recordAt other).statement) : id = other := by
  have hnodup := h.apart
  rw [← map_recordAt_range] at hnodup
  exact List.inj_on_of_nodup_map hnodup (List.mem_range.mpr hid) (List.mem_range.mpr hother) same

/-- The owner of a statement is the one record that was made for it. -/
theorem owner?_eq_some : r.owner? statement = some id ↔
    id < r.records.length ∧ (r.recordAt id).statement = statement := by
  have found : ∀ {id : Nat}, r.owner? statement = some id →
      id < r.records.length ∧ (r.recordAt id).statement = statement := by
    intro id howner
    obtain ⟨before, after, hsplit, -⟩ := List.lookup_eq_some_iff.mp howner
    have hmem : (statement, id) ∈ r.owners := by
      rw [hsplit]
      exact List.mem_append_right _ List.mem_cons_self
    rw [h.owners] at hmem
    obtain ⟨other, hother, heq⟩ := List.mem_map.mp hmem
    cases heq
    exact ⟨h.mem_sources.mp hother, rfl⟩
  refine ⟨found, ?_⟩
  rintro ⟨hid, hstatement⟩
  have hmem : (statement, id) ∈ r.owners := by
    rw [h.owners]
    exact List.mem_map.mpr ⟨id, h.mem_sources.mpr hid, by rw [hstatement]⟩
  have hsome : (r.owner? statement).isSome :=
    List.lookup_isSome_iff.mpr ⟨_, hmem, beq_self_eq_true statement⟩
  obtain ⟨other, howner⟩ := Option.isSome_iff_exists.mp hsome
  obtain ⟨hother, hsame⟩ := found howner
  rw [howner, h.eq_of_statement hid hother (hstatement.trans hsame.symm)]

theorem owner?_eq_none : r.owner? statement = none ↔
    ∀ id < r.records.length, (r.recordAt id).statement ≠ statement := by
  rw [Option.eq_none_iff_forall_ne_some]
  simp only [ne_eq, h.owner?_eq_some, not_and]

theorem register (sound : x.Sound) (held : x.statement < r.held.length)
    (fresh : r.owner? x.statement = none) : (r.register x).Registered := by
  have hnew : (r.register x).recordAt r.records.length = x := getD_concat ..
  have hold : ∀ id ∈ r.sources, (r.register x).recordAt id = r.recordAt id := fun id hid =>
    getD_append_left _ (h.mem_sources.mp hid) _
  have hsources : (r.register x).sources = r.sources ++ [r.records.length] := rfl
  refine ⟨?_, ?_, ?_, ?_, ?_, ?_⟩
  · exact List.forall_mem_append.mpr ⟨h.records, by simpa using sound⟩
  · exact List.forall_mem_append.mpr ⟨h.held, by simpa [Registry.register] using held⟩
  · have hstatement : ∀ y ∈ r.records, y.statement ≠ x.statement := by
      intro y hy
      obtain ⟨id, hid, rfl⟩ := List.getElem_of_mem hy
      have := h.owner?_eq_none.mp fresh id hid
      simpa [recordAt, List.getD_eq_getElem?_getD, hid] using this
    have hmap : (r.register x).records.map (·.statement) =
        r.records.map (·.statement) ++ [x.statement] := by simp [Registry.register]
    rw [hmap, List.nodup_append]
    refine ⟨h.apart, List.nodup_singleton _, ?_⟩
    intro s hs s' hs'
    obtain ⟨y, hy, rfl⟩ := List.mem_map.mp hs
    rw [List.mem_singleton.mp hs']
    exact hstatement y hy
  · rw [hsources, h.sources]
    simp [Registry.register, List.range_succ]
  · rw [hsources, List.foldl_append, List.foldl_cons, List.foldl_nil, hnew,
      List.foldl_ext _ _ _ fun index id hid => by rw [hold id hid], ← h.index]
    rfl
  · rw [hsources, List.map_append, List.map_singleton, hnew,
      List.map_congr_left fun id hid => by rw [hold id hid], ← h.owners]
    rfl

end Registered

namespace Sound

variable (h : r.Sound)
include h

theorem sources_document : r.document.sources = r.sources.map r.view := by
  have hblocks : (r.statements.map r.blockAt).filterMap (·.item.sources?) =
      (r.statements.filterMap r.owner?).map r.view := by
    rw [List.filterMap_map, List.map_filterMap]
    exact List.filterMap_congr fun statement _ => r.itemAt_sources? statement
  rw [Document.sources, document, hblocks, ← List.map_append, h.listed]

theorem lookup_index (target : Text) : r.index.lookup target =
    if target ∈ r.sources.map (fun id => (r.recordAt id).target)
      then some (r.sources.filter fun id => (r.recordAt id).target = target) else none := by
  rw [h.index, foldl_enter (fun id => (r.recordAt id).target), lookup_grouped]

theorem candidates_eq (target : Text) :
    r.candidates target = r.sources.filter fun id => (r.recordAt id).target = target := by
  rw [candidates, h.lookup_index]
  split
  · rfl
  · next hmem => exact ((filter_target_eq_nil _ r.sources target).mpr hmem).symm

theorem sourcesOf_document (target : Text) :
    r.document.sourcesOf target = (r.candidates target).map r.view := by
  rw [Document.sourcesOf, h.sources_document, h.candidates_eq, List.filter_map]
  rfl

theorem isNone_lookup (target : Text) :
    (r.index.lookup target).isNone = (r.candidates target).isEmpty := by
  rw [Bool.eq_iff_iff, List.isEmpty_iff, h.candidates_eq, filter_target_eq_nil, h.lookup_index]
  split
  · next hmem => simpa using hmem
  · next hmem => simpa using hmem

/-- What is not a list of statements or records does not matter. -/
theorem keep (buffer : Buffer) (policy : Policy) (listeners : List Nat)
    (loaded dirty : Bool) :
    { r with buffer := buffer, policy := policy, listeners := listeners, loaded := loaded,
             dirty := dirty }.Sound :=
  ⟨⟨h.records, h.held, h.apart, h.sources, h.index, h.owners⟩, h.placed, h.listed⟩

/-- Other sources for the records of a registry are put where they belong. -/
theorem refill_blocks (r' : Registry) (held : r'.held = r.held) (owners : r'.owners = r.owners) :
    Document.refill (r.statements.map r.blockAt) (r.sources.map r'.view) =
      (r.statements.map r'.blockAt, r.created.map r'.view) := by
  have along : ∀ (statements : List Nat) (left : List Sources),
      Document.refill (statements.map r.blockAt)
        ((statements.filterMap r.owner?).map r'.view ++ left) =
        (statements.map r'.blockAt, left) := by
    intro statements left
    induction statements with
    | nil => rfl
    | cons statement statements ih =>
      have hspan : r'.heldAt statement = r.heldAt statement := by rw [heldAt, heldAt, held]
      have hsame : r'.owner? statement = r.owner? statement := by rw [owner?, owner?, owners]
      cases howner : r.owner? statement with
      | none =>
        have hold : r.blockAt statement = ⟨(r.heldAt statement).span,
            .other (r.heldAt statement).item⟩ := by simp [blockAt, itemAt, howner]
        have hnew : r'.blockAt statement = ⟨(r.heldAt statement).span,
            .other (r.heldAt statement).item⟩ := by simp [blockAt, itemAt, hsame, howner, hspan]
        simp [List.filterMap_cons_none howner, hold, hnew, Document.refill, ih]
      | some id =>
        have hold : r.blockAt statement = ⟨(r.heldAt statement).span, .listing (r.view id)⟩ := by
          simp [blockAt, itemAt, howner]
        have hnew : r'.blockAt statement = ⟨(r.heldAt statement).span, .listing (r'.view id)⟩ := by
          simp [blockAt, itemAt, hsame, howner, hspan]
        simp [List.filterMap_cons_some howner, hold, hnew, Document.refill, ih]
  rw [← h.listed, List.map_append]
  exact along r.statements _

end Sound

section Change

variable {id : Nat} {x : Record}

theorem change_change (r : Registry) (id : Nat) (x y : Record) :
    (r.change id fun _ => x).change id (fun _ => y) = r.change id fun _ => y := by
  simp only [change, List.modify_modify_eq]
  rfl

theorem recordAt_change (h : id < r.records.length) (f : Record → Record) (other : Nat) :
    (r.change id f).recordAt other =
      if id = other then f (r.recordAt other) else r.recordAt other :=
  getD_modify h f other _

variable (h : r.Sound) (lt : id < r.records.length) (sound : x.Sound)
  (statement : x.statement = (r.recordAt id).statement)
  (target_eq : x.target = (r.recordAt id).target)
include lt statement

theorem statement_change (other : Nat) :
    ((r.change id fun _ => x).recordAt other).statement = (r.recordAt other).statement := by
  rw [recordAt_change lt]
  split
  · next heq => rw [statement, heq]
  · rfl

theorem view_change (other : Nat) : (r.change id fun _ => x).view other =
    if id = other then x.view (r.commandAt id) else r.view other := by
  have hcommand : (r.change id fun _ => x).commandAt other = r.commandAt other := by
    rw [commandAt, statement_change lt statement]
    rfl
  rw [view, hcommand, recordAt_change lt]
  split
  · next heq => rw [heq]
  · rfl

include h sound target_eq

/-- Another record may take the place of one that has the same statement and the same target. -/
theorem Sound.change : (r.change id fun _ => x).Sound := by
  have hstatement := statement_change lt statement
  have htarget : ∀ other, ((r.change id fun _ => x).recordAt other).target =
      (r.recordAt other).target := by
    intro other
    rw [recordAt_change lt]
    split
    · next heq => rw [target_eq, heq]
    · rfl
  have hlength : (r.change id fun _ => x).records.length = r.records.length := by
    simp [Registry.change]
  have hmap : (r.change id fun _ => x).records.map (·.statement) = r.records.map (·.statement) := by
    rw [← map_recordAt_range, ← map_recordAt_range, hlength]
    exact List.map_congr_left fun other _ => hstatement other
  refine ⟨⟨forall_mem_modify (fun _ _ => sound) h.records id, ?_, by rw [hmap]; exact h.apart, ?_,
    ?_, ?_⟩, ?_, h.listed⟩
  · refine forall_mem_modify (fun _ _ => ?_) h.held id
    rw [statement]
    exact h.held _ (recordAt_mem lt)
  · rw [hlength]
    exact h.sources
  · simp only [htarget]
    exact h.index
  · simp only [hstatement]
    exact h.owners
  · simp only [hstatement]
    exact h.placed

end Change

namespace Sound

variable {id n : Nat} {x : Record} (h : r.Sound)
include h

theorem lt_of_candidate (hn : (r.candidates target)[n]? = some id) : id < r.records.length := by
  have hmem := List.mem_of_getElem? hn
  rw [h.candidates_eq] at hmem
  exact h.mem_sources.mp (List.mem_of_mem_filter hmem)

theorem target_of_candidate (hn : (r.candidates target)[n]? = some id) :
    (r.recordAt id).target = target := by
  have hmem := List.mem_of_getElem? hn
  rw [h.candidates_eq] at hmem
  simpa using (List.mem_filter.mp hmem).2

/-- A change of one record is a change of one statement of its target. -/
theorem document_change (hn : (r.candidates target)[n]? = some id)
    (statement : x.statement = (r.recordAt id).statement) {g : Sources → Sources}
    (view : x.view (r.commandAt id) = g (r.view id)) :
    (r.change id fun _ => x).document =
      r.document.withTarget target (((r.candidates target).map r.view).modify n g) := by
  have hview := view_change (h.lt_of_candidate hn) statement
  have hnodup : (r.candidates target).Nodup := by
    rw [h.candidates_eq]
    exact h.nodup_sources.filter _
  have hgiven : ((r.candidates target).map r.view).modify n g =
      (r.candidates target).map (r.change id fun _ => x).view := by
    refine modify_map hnodup hn ?_ fun other _ hne => ?_
    · rw [hview, if_pos rfl, view]
    · rw [hview, if_neg (Ne.symm hne)]
  have hrestore : Document.restoreTarget target (r.sources.map r.view)
      ((r.sources.filter fun id => (r.recordAt id).target = target).map
        (r.change id fun _ => x).view) = r.sources.map (r.change id fun _ => x).view := by
    refine Document.restoreTarget_map fun other _ hother => ?_
    rw [hview, if_neg]
    rintro rfl
    exact hother (h.target_of_candidate hn)
  rw [hgiven, Document.withTarget, h.sources_document, h.candidates_eq, hrestore]
  have hrefill := h.refill_blocks (r.change id fun _ => x) rfl rfl
  simp only [Document.withSources, document, hrefill]
  rfl

end Sound

theorem section?_modify {id n k : Nat} {x : Record} (sound : x.Sound)
    (hn : (r.candidates target)[n]? = some id) (lt : k < x.store.length) {g : Sources → Sources}
    (view : x.view (r.commandAt id) = g (r.view id)) :
    Placement.section? (((r.candidates target).map r.view).modify n g) ⟨n, k⟩ =
      some (x.sectionAt k) := by
  have hsections := sound.sections_view (r.commandAt id)
  rw [view] at hsections
  simp [Placement.section?, hn, hsections, sound.sections, lt]

/-- An operation of a registry does what an operation of its document does. -/
structure Follows {α : Type} (p : Registry × Except Fault α) (reply : Reply Document α) : Prop where
  sound : p.1.Sound
  document : p.1.document = reply.state
  result : p.2 = reply.result

namespace Sound

variable {id n k : Nat} {x : Record} (h : r.Sound) (sound : x.Sound)
include h sound

/-- A record takes the place of another one, and then one of its sections is changed. -/
theorem changeSection (statement : x.statement = (r.recordAt id).statement)
    (target_eq : x.target = target) (hn : (r.candidates target)[n]? = some id)
    (lt : k < x.store.length) {g : Sources → Sources}
    (view : x.view (r.commandAt id) = g (r.view id)) (f : Section → Section)
    (events : List Event) :
    Follows ((r.change id fun _ => x).changeSection (r.candidates target) ⟨n, k⟩ f)
      (r.document.changeSection target (((r.candidates target).map r.view).modify n g) ⟨n, k⟩ f
        events) := by
  have hid := h.lt_of_candidate hn
  have htarget := target_eq.trans (h.target_of_candidate hn).symm
  have hfound : (r.candidates target).getD n 0 = id := by simp [List.getD_eq_getElem?_getD, hn]
  have hx : (r.change id fun _ => x).recordAt id = x := by rw [recordAt_change hid, if_pos rfl]
  have hgroup : x.sections.getD k 0 = k := by
    rw [sound.sections]
    simp [List.getD_eq_getElem?_getD, lt]
  have hpolicy : r.document.policy = r.policy := rfl
  have hchanged : (r.change id fun _ => x).policy = r.policy := rfl
  let y := x.modify k f
  have hy : y.Sound := sound.modify k f
  have hlt : k < y.store.length := by simpa [y, Record.modify] using lt
  have hmodify : y.view (r.commandAt id) = (g (r.view id)).modifySection k f := by
    rw [sound.view_modify lt, view]
  have hlist : (((r.candidates target).map r.view).modify n g).modify n
      (fun s => s.modifySection k f) =
      ((r.candidates target).map r.view).modify n fun s => (g s).modifySection k f :=
    List.modify_modify_eq ..
  have hsection := section?_modify hy hn hlt (g := fun s => (g s).modifySection k f) hmodify
  simp only [Registry.changeSection, hfound, hx, hgroup, change_change, hchanged,
    Document.changeSection, hlist, hsection, Option.any_some, hpolicy]
  split
  · exact ⟨h.change hid hy statement htarget,
      h.document_change (x := y) (g := fun s => (g s).modifySection k f) hn statement hmodify,
      rfl⟩
  · let done : Record := { y.modify k r.policy.order with dirty := true }
    have hdone : done.Sound := (hy.modify k r.policy.order).marked true
    have hview : done.view (r.commandAt id) =
        { ((g (r.view id)).modifySection k f).modifySection k r.policy.order with
          dirty := true } := by
      rw [← hmodify, ← hy.view_modify hlt]
      rfl
    have hlisted : (((r.candidates target).map r.view).modify n fun s =>
        (g s).modifySection k f).modify n
        (fun s => { s.modifySection k r.policy.order with dirty := true }) =
        ((r.candidates target).map r.view).modify n fun s =>
          { ((g s).modifySection k f).modifySection k r.policy.order with dirty := true } :=
      List.modify_modify_eq ..
    have hdocument := h.document_change (x := done) (g := fun s =>
      { ((g s).modifySection k f).modifySection k r.policy.order with dirty := true }) hn statement
      hview
    refine ⟨(h.change (x := done) hid hdone statement htarget).keep _ _ _ _ _, ?_, rfl⟩
    rw [← hlisted] at hdocument
    calc _ = { (r.change id fun _ => done).document with
          dirty := true, listeners := r.listeners.map (· + 1) } := rfl
      _ = _ := by rw [hdocument]; rfl

end Sound

theorem change_eq {id : Nat} (h : id < r.records.length) (f : Record → Record) :
    r.change id f = r.change id fun _ => f (r.recordAt id) := by
  have hrecord : r.recordAt id = r.records[id] := by
    simp [recordAt, List.getD_eq_getElem?_getD, List.getElem?_eq_getElem h]
  have hmodify : r.records.modify id f = r.records.modify id fun _ => f (r.recordAt id) := by
    rw [hrecord]
    apply List.ext_getElem?
    intro n
    simp only [List.getElem?_modify]
    split
    · next hid => simp [← hid, List.getElem?_eq_getElem h]
    · rfl
  rw [change, change, hmodify]

theorem change_self {id : Nat} (h : id < r.records.length) :
    (r.change id fun _ => r.recordAt id) = r := by
  rw [← change_eq h fun x => x]
  have hmodify : r.records.modify id (fun x => x) = r.records := List.modify_id ..
  rw [change, hmodify]

namespace Sound

variable (h : r.Sound)
include h

theorem exists_candidate {place : Address} {g : Section}
    (mem : (place, g) ∈ Placement.allSections ((r.candidates target).map r.view)) :
    ∃ id, (r.candidates target)[place.statement]? = some id ∧
      place.sectionIndex < (r.recordAt id).store.length := by
  obtain ⟨s, hs, hg⟩ := Placement.mem_allSections.mp mem
  rw [List.getElem?_map] at hs
  obtain ⟨id, hid, rfl⟩ := Option.map_eq_some_iff.mp hs
  refine ⟨id, hid, ?_⟩
  have hsound := h.records _ (recordAt_mem (h.lt_of_candidate hid))
  rw [view, hsound.sections_view, hsound.sections] at hg
  simpa using (List.getElem?_eq_some_iff.mp hg).1

theorem changeStanding {place : Address} {g : Section}
    (mem : (place, g) ∈ Placement.allSections ((r.candidates target).map r.view))
    (f : Section → Section) (events : List Event) :
    Follows (r.changeSection (r.candidates target) place f)
      (r.document.changeSection target (r.document.sourcesOf target) place f events) := by
  obtain ⟨id, hid, hlt⟩ := h.exists_candidate mem
  have hbound := h.lt_of_candidate hid
  have hsame : ((r.candidates target).map r.view).modify place.statement (fun s => s) =
      (r.candidates target).map r.view := List.modify_id ..
  have hfollows := h.changeSection (h.records _ (recordAt_mem hbound)) rfl
    (h.target_of_candidate hid) hid hlt (g := fun s => s) rfl f events
  rw [change_self hbound, hsame, ← h.sourcesOf_document] at hfollows
  exact hfollows

theorem sections_searched {id : Nat} (mem : id ∈ r.candidates target) :
    (r.searched id).sections = (r.view id).sections ∧
      (r.searched id).outline = (r.view id).outline := by
  obtain ⟨n, hn⟩ := List.mem_iff_getElem?.mp mem
  have hsound := h.records _ (recordAt_mem (h.lt_of_candidate hn))
  exact ⟨by rw [searched, Record.sections_searched, view, hsound.sections_view],
    hsound.outline_searched _⟩

/-- A choice that goes by the lists of sections is the choice that goes by the slots. -/
theorem choose_searched (target file : Text) (wanted : Option Text) :
    Placement.choose ((r.candidates target).map r.searched) file wanted =
      Placement.choose (r.document.sourcesOf target) file wanted := by
  have houtline : ((r.candidates target).map r.searched).map Sources.outline =
      ((r.candidates target).map r.view).map Sources.outline := by
    rw [List.map_map, List.map_map]
    exact List.map_congr_left fun id hid => (h.sections_searched hid).2
  rw [← Placement.choose_outline, houtline, Placement.choose_outline, h.sourcesOf_document]

theorem findFile?_searched (target file : Text) :
    Document.findFile? ((r.candidates target).map r.searched) file =
      Document.findFile? (r.document.sourcesOf target) file := by
  have haddressed : ((r.candidates target).map r.searched).mapIdx Placement.addressed =
      ((r.candidates target).map r.view).mapIdx Placement.addressed := by
    apply List.ext_getElem?
    intro n
    simp only [List.getElem?_mapIdx, List.getElem?_map]
    cases hid : (r.candidates target)[n]? with
    | none => rfl
    | some id =>
      have hsections := (h.sections_searched (List.mem_of_getElem? hid)).1
      simp only [Option.map_some, Placement.addressed, hsections]
  rw [Document.findFile?, Placement.allSections, haddressed, h.sourcesOf_document]
  rfl

theorem addTo (target file : Text) (hint : Option Text) (events : List Event) :
    Follows (r.addTo (r.candidates target) file hint)
      (r.document.addTo target file hint events) := by
  have hchoose := h.choose_searched target file (r.document.preferredSection? hint)
  simp only [Registry.addTo, Document.addTo, hchoose]
  cases hchoice : Placement.choose (r.document.sourcesOf target) file
      (r.document.preferredSection? hint) with
  | error fault => exact ⟨h, rfl, rfl⟩
  | ok p =>
    obtain ⟨choice, chosen⟩ := p
    cases choice with
    | existing place =>
      obtain ⟨g, hmem⟩ := Placement.exists_mem_of_choose hchoice
      rw [h.sourcesOf_document] at hmem
      exact h.changeStanding hmem _ _
    | fresh n name =>
      obtain ⟨s, hs, -, -⟩ := Document.choose_fresh hchoice
      rw [h.sourcesOf_document, List.getElem?_map] at hs
      obtain ⟨id, hid, rfl⟩ := Option.map_eq_some_iff.mp hs
      have hbound := h.lt_of_candidate hid
      have hsound := h.records _ (recordAt_mem hbound)
      have hfound : (r.candidates target).getD n 0 = id := by
        simp [List.getD_eq_getElem?_getD, hid]
      have hlength : (r.recordAt id).sections.length = (r.recordAt id).store.length := by
        rw [hsound.sections, List.length_range]
      have hview : (r.view id).sections.length = (r.recordAt id).store.length := by
        rw [view, hsound.sections_view, List.length_map, hlength]
      have hsettle : Placement.settle (r.document.sourcesOf target) (.fresh n name)
          r.document.policy.separator =
          (((r.candidates target).map r.view).modify n fun s =>
            s.addSection name r.policy.separator, ⟨n, (r.recordAt id).store.length⟩) := by
        simp only [Placement.settle, h.sourcesOf_document, List.getElem?_map, hid, Option.map_some,
          Option.getD_some, hview]
        rfl
      simp only [hsettle, hfound, hlength, change_eq hbound]
      refine h.changeSection (hsound.addSection _) rfl (h.target_of_candidate hid) hid ?_
        (hsound.view_addSection _ _) _ _
      simp [Record.addSection]

theorem changeFile (target file : Text) (f : Nat → Section → Section) :
    Follows (r.changeFile target file f) (r.document.changeFile target file f) := by
  have hempty : (r.document.sourcesOf target).isEmpty = (r.candidates target).isEmpty := by
    rw [h.sourcesOf_document, List.isEmpty_map]
  simp only [Registry.changeFile, Document.changeFile, h.isNone_lookup, hempty,
    h.findFile?_searched]
  split
  · exact ⟨h, rfl, rfl⟩
  · cases hfound : Document.findFile? (r.document.sourcesOf target) file with
    | none => exact ⟨h, rfl, rfl⟩
    | some p =>
      obtain ⟨passed, ⟨place, g⟩, rest, hsplit, hplace, -⟩ :=
        List.findSome?_eq_some_iff.mp hfound
      obtain ⟨n, -, rfl⟩ := Option.map_eq_some_iff.mp hplace
      have hmem : (place, g) ∈ Placement.allSections ((r.candidates target).map r.view) := by
        rw [← h.sourcesOf_document, hsplit]
        exact List.mem_append_right _ List.mem_cons_self
      exact h.changeStanding hmem (f n) []

theorem renameFile (target old new : Text) :
    Follows (r.renameFile target old new) (r.document.renameFile target old new) := by
  have hloaded : r.document.loaded = r.loaded := rfl
  simp only [Registry.renameFile, Document.renameFile, hloaded]
  split
  · exact ⟨h, rfl, rfl⟩
  · split
    · exact ⟨h, rfl, rfl⟩
    · exact h.changeFile target old _

theorem removeFile (target file : Text) :
    Follows (r.removeFile target file) (r.document.removeFile target file) := by
  have hloaded : r.document.loaded = r.loaded := rfl
  simp only [Registry.removeFile, Document.removeFile, hloaded]
  split
  · exact ⟨h, rfl, rfl⟩
  · exact h.changeFile target file _

theorem lt_of_mem_statements {statement : Nat} (mem : statement ∈ r.statements) :
    statement < r.held.length := by
  have hmem := List.mem_append_left (r.created.map fun id => (r.recordAt id).statement) mem
  rw [h.placed] at hmem
  exact List.mem_range.mp hmem

theorem lt_of_mem_created {id : Nat} (mem : id ∈ r.created) : id < r.records.length := by
  have hmem := List.mem_append_right (r.statements.filterMap r.owner?) mem
  rw [h.listed] at hmem
  exact h.mem_sources.mp hmem

end Sound

end Registry

end Listfile
