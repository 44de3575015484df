import Listfile.Proofs.Registration

/-!
A registry goes through every run of operations as its document does. Statements are created behind
all others, classified one by one when the file is read, and moved together when it is written; each
time the lists that have to follow do.
-/

namespace Listfile

namespace Registry

variable {r : Registry}

theorem blockAt_congr {r' : Registry} {statement : Nat}
    (held : r'.heldAt statement = r.heldAt statement)
    (owner : r'.owner? statement = r.owner? statement)
    (view : ∀ id, r.owner? statement = some id → r'.view id = r.view id) :
    r'.blockAt statement = r.blockAt statement := by
  unfold blockAt itemAt
  rw [held, owner]
  cases howner : r.owner? statement with
  | none => rfl
  | some id => simp only [view id howner]

/-- The registry in which one more statement has been made. -/
def hold (r : Registry) (s : Statement) : Registry := { r with held := r.held ++ [⟨nowhere, s⟩] }

section Hold

variable {id statement : Nat} (s : Statement) (x : Record)

theorem heldAt_hold (lt : statement < r.held.length) :
    ((r.hold s).register x).heldAt statement = r.heldAt statement :=
  getD_append_left _ lt _

theorem recordAt_hold (lt : id < r.records.length) :
    ((r.hold s).register x).recordAt id = r.recordAt id :=
  getD_append_left _ lt _

variable (h : r.Registered)
include h

theorem Registered.hold : (r.hold s).Registered := by
  refine ⟨h.records, fun y hy => ?_, h.apart, h.sources, h.index, h.owners⟩
  have hlength : (r.hold s).held.length = r.held.length + 1 := by simp [Registry.hold]
  rw [hlength]
  exact Nat.lt_succ_of_lt (h.held y hy)

theorem Registered.owner?_hold : (r.hold s).owner? r.held.length = none := by
  rw [(h.hold s).owner?_eq_none]
  exact fun id hid => Nat.ne_of_lt (h.held _ (recordAt_mem hid))

theorem Registered.view_hold (lt : id < r.records.length) :
    ((r.hold s).register x).view id = r.view id := by
  rw [view, commandAt, recordAt_hold s x lt, heldAt_hold s x (h.held _ (recordAt_mem lt))]
  rfl

end Hold

namespace Sound

variable (h : r.Sound)
include h

theorem create (target : Text) :
    (r.create target).Sound ∧ (r.create target).document = r.document.withBlock target := by
  let first : Argument := ⟨target, needsQuotation target, [], none⟩
  let s : Statement := ⟨.named Classify.targetSources [] [] "\n", [first]⟩
  let x : Record := .bare r.held.length first r.policy.defaultSection
  let made : Registry := (r.hold s).register x
  have hlength : made.held.length = r.held.length + 1 := by simp [made, register, Registry.hold]
  have hmade : made.Registered :=
    (h.hold s).register ⟨rfl, rfl⟩ (hlength ▸ Nat.lt_succ_self _) (h.owner?_hold s)
  have hrecord : made.recordAt r.records.length = x := getD_concat ..
  have hview : ∀ id ∈ r.created, made.view id = r.view id :=
    fun id hid => h.view_hold s x (h.lt_of_mem_created hid)
  have hlast : made.view r.records.length = r.document.newBlock target := by
    have hheld : made.heldAt x.statement = ⟨nowhere, s⟩ := getD_concat ..
    rw [view, commandAt, hrecord, hheld]
    rfl
  have howner : ∀ statement ∈ r.statements, made.owner? statement = r.owner? statement :=
    fun statement hs => owner?_register (Nat.ne_of_lt (h.lt_of_mem_statements hs))
  have hblocks : ∀ statement ∈ r.statements, made.blockAt statement = r.blockAt statement := by
    intro statement hs
    refine blockAt_congr (heldAt_hold s x (h.lt_of_mem_statements hs)) (howner statement hs) ?_
    exact fun id hid => h.view_hold s x (h.owner?_eq_some.mp hid).1
  have hplaced : r.statements ++ (r.created ++ [r.records.length]).map
      (fun id => (made.recordAt id).statement) = List.range made.held.length := by
    rw [List.map_append, ← List.append_assoc, List.map_congr_left fun id hid => by
      rw [recordAt_hold s x (h.lt_of_mem_created hid)], h.placed, List.map_singleton, hrecord,
      hlength, List.range_succ]
    rfl
  have hlisted : r.statements.filterMap made.owner? ++ (r.created ++ [r.records.length]) =
      r.sources ++ [r.records.length] := by
    rw [List.filterMap_congr howner, ← List.append_assoc, h.listed]
  have hpending : (r.created ++ [r.records.length]).map made.view =
      r.created.map r.view ++ [r.document.newBlock target] := by
    rw [List.map_append, List.map_singleton, hlast, List.map_congr_left hview]
  refine ⟨⟨⟨hmade.records, hmade.held, hmade.apart, hmade.sources, hmade.index, hmade.owners⟩,
    hplaced, hlisted⟩, ?_⟩
  calc (r.create target).document
      = { r.document with
          blocks := r.statements.map made.blockAt
          pending := (r.created ++ [r.records.length]).map made.view } := rfl
    _ = _ := by
      rw [List.map_congr_left hblocks, hpending]
      rfl

theorem candidates_create (target : Text) (none_ : r.candidates target = []) :
    (r.create target).candidates target = [r.records.length] := by
  have hold :
      r.sources.filter (fun id => ((r.create target).recordAt id).target = target) = [] := by
    rw [h.candidates_eq, List.filter_eq_nil_iff] at none_
    rw [List.filter_eq_nil_iff]
    intro id hid
    have hrecord : (r.create target).recordAt id = r.recordAt id :=
      getD_append_left _ (h.mem_sources.mp hid) _
    rw [hrecord]
    exact none_ id hid
  have hnew : ((r.create target).recordAt r.records.length).target = target :=
    congrArg Record.target (getD_concat ..)
  have hsources : (r.create target).sources = r.sources ++ [r.records.length] := rfl
  rw [(h.create target).1.candidates_eq, hsources, List.filter_append, hold]
  simp [hnew]

theorem addFile (target file : Text) (hint : Option Text) :
    Follows (r.addFile target file hint) (r.document.addFile target file hint) := by
  have hloaded : r.document.loaded = r.loaded := rfl
  have hcreating : r.document.policy.creating = r.policy.creating := rfl
  have hempty : (r.document.sourcesOf target).isEmpty = (r.candidates target).isEmpty := by
    rw [h.sourcesOf_document, List.isEmpty_map]
  simp only [Registry.addFile, Document.addFile, hloaded, hcreating, hempty]
  split
  · exact ⟨h, rfl, rfl⟩
  split
  · exact ⟨h, rfl, rfl⟩
  split
  · exact h.addTo target file hint []
  next hnone =>
  split
  · obtain ⟨hsound, hdocument⟩ := h.create target
    have hcandidates := h.candidates_create target (by simpa using hnone)
    have hfollows := hsound.addTo target file hint
      [.blockCreated Classify.targetSources target]
    rw [hcandidates, hdocument] at hfollows
    exact hfollows
  · exact ⟨h, rfl, rfl⟩

end Sound

def found? (r : Registry) (statement : Nat) : Option Sources :=
  let p := r.heldAt statement
  (Sources.ofStatement? p.item p.span.first.line r.policy.defaultSection).1

/-- A registry in which the first statements have been classified. -/
structure Classified (start r : Registry) (n : Nat) : Prop where
  registered : r.Registered
  rest : r = { start with
    records := r.records, sources := r.sources, index := r.index, owners := r.owners }
  done : ∀ statement < n, (r.owner? statement).map r.view = start.found? statement
  left : ∀ statement, n ≤ statement → r.owner? statement = none
  listed : (List.range n).filterMap r.owner? = r.sources

namespace Classified

variable {start : Registry} {n : Nat}

theorem skip (h : Classified start r n) (none_ : start.found? n = none) :
    Classified start r (n + 1) := by
  have hleft := h.left n (Nat.le_refl n)
  refine ⟨h.registered, h.rest, ?_, fun s hs => h.left s (Nat.le_of_succ_le hs), ?_⟩
  · intro statement hs
    rcases Nat.lt_succ_iff_lt_or_eq.mp hs with hs | rfl
    · exact h.done statement hs
    · rw [hleft, none_, Option.map_none]
  · rw [List.range_succ, List.filterMap_append, h.listed]
    simp [hleft]

theorem register {x : Record} (h : Classified start r n) (lt : n < start.held.length)
    (sound : x.Sound) (statement : x.statement = n)
    (found : start.found? n = some (x.view (r.heldAt n).item.command)) :
    Classified start (r.register x) (n + 1) := by
  have hheld : r.held = start.held := by rw [h.rest]
  have hregistered := h.registered.register sound (by rw [statement, hheld]; exact lt)
    (by rw [statement]; exact h.left n (Nat.le_refl n))
  have hrecord : (r.register x).recordAt r.records.length = x := getD_concat ..
  have hother : ∀ s, s ≠ n → (r.register x).owner? s = r.owner? s :=
    fun s hne => owner?_register (by rw [statement]; exact hne)
  have howner : (r.register x).owner? n = some r.records.length := by
    rw [hregistered.owner?_eq_some, hrecord, statement]
    exact ⟨by simp [Registry.register], rfl⟩
  refine ⟨hregistered, ?_, ?_, ?_, ?_⟩
  · rw [h.rest]
    rfl
  · intro s hs
    rcases Nat.lt_succ_iff_lt_or_eq.mp hs with hs | rfl
    · rw [hother s (Nat.ne_of_lt hs), ← h.done s hs]
      cases hid : r.owner? s with
      | none => rfl
      | some id => exact congrArg some (view_register _ (h.registered.owner?_eq_some.mp hid).1)
    · rw [howner, found, Option.map_some, view, commandAt, hrecord, statement]
      rfl
  · intro s hs
    rw [hother s (Nat.ne_of_gt hs)]
    exact h.left s (Nat.le_of_succ_le hs)
  · rw [List.range_succ, List.filterMap_append,
      List.filterMap_congr fun s hs => hother s (Nat.ne_of_lt (List.mem_range.mp hs)), h.listed,
      List.filterMap_cons_some howner]
    rfl

/-- A statement is classified once, after those before it. -/
theorem classify (h : Classified start r n) (lt : n < start.held.length) :
    Classified start (r.classify n) (n + 1) := by
  have hfound : r.found? n = start.found? n := by
    rw [h.rest]
    rfl
  obtain ⟨hview, hread⟩ := Record.ofStatement?_view n (r.heldAt n).item
    (r.heldAt n).span.first.line r.policy.defaultSection
  have hsources : (Record.ofStatement? n (r.heldAt n).item r.policy.defaultSection).map
      (fun x => x.view (r.heldAt n).item.command) = start.found? n := hview.trans hfound
  cases hrecord : Record.ofStatement? n (r.heldAt n).item r.policy.defaultSection with
  | none =>
    have hsame : r.classify n = r := by rw [Registry.classify, hrecord]
    rw [hrecord, Option.map_none] at hsources
    rw [hsame]
    exact h.skip hsources.symm
  | some x =>
    obtain ⟨hsound, hstatement⟩ := hread x hrecord
    have hnew : r.classify n = r.register x := by rw [Registry.classify, hrecord]
    rw [hrecord, Option.map_some] at hsources
    rw [hnew]
    exact h.register lt hsound hstatement hsources.symm

theorem foldl (fresh : Classified start start 0) (le : n ≤ start.held.length) :
    Classified start ((List.range n).foldl Registry.classify start) n := by
  induction n with
  | zero => exact fresh
  | succ n ih =>
    rw [List.range_succ, List.foldl_append]
    exact (ih (by omega)).classify (by omega)

end Classified

theorem blockOf_eq (default : Text) (p : Placed Statement) : Document.blockOf default p =
    (Sources.ofStatement? p.item p.span.first.line default).1.elim (.other p.item) .listing := by
  unfold Document.blockOf
  split <;> simp [*]

theorem itemAt_of_map {statement : Nat} {found : Option Sources}
    (h : (r.owner? statement).map r.view = found) :
    r.itemAt statement = found.elim (.other (r.heldAt statement).item) .listing := by
  subst h
  unfold itemAt
  cases r.owner? statement <;> rfl

theorem sound_bare (buffer : Buffer) (policy : Policy) (listeners : List Nat) :
    Sound { buffer := buffer, policy := policy, listeners := listeners } :=
  ⟨⟨by simp, by simp, .nil, rfl, rfl, rfl⟩, rfl, rfl⟩

/-- Reading anew builds the registry of what is read. -/
theorem reload_follows (r : Registry) : Follows r.reload r.document.reload := by
  have hbare := sound_bare r.buffer r.policy r.listeners
  cases hparse : Statement.parse (Utf8.decode r.buffer.content) with
  | error e =>
    have hreload : r.reload =
        ({ buffer := r.buffer, policy := r.policy, listeners := r.listeners }, .ok false) := by
      simp [reload, Document.readStatements, hparse]
    have hdocument : Statement.parse (Utf8.decode r.document.buffer.content) = .error e := hparse
    rw [hreload, Document.reload]
    simp only [Document.readStatements, hdocument]
    exact ⟨hbare, rfl, rfl⟩
  | ok statements =>
    let start : Registry :=
      { buffer := r.buffer, policy := r.policy, listeners := r.listeners, loaded := true
        held := statements, statements := List.range statements.length }
    have hreload : r.reload =
        ((List.range statements.length).foldl Registry.classify start, .ok true) := by
      simp [reload, Document.readStatements, hparse, start]
    have hstart : Classified start start 0 :=
      ⟨⟨by simp [start], by simp [start], .nil, rfl, rfl, rfl⟩, rfl,
        fun statement hs => absurd hs (Nat.not_lt_zero _), fun _ _ => rfl, rfl⟩
    have hdone := Classified.foldl (n := statements.length) hstart (Nat.le_refl _)
    generalize (List.range statements.length).foldl Registry.classify start = last
      at hreload hdone
    obtain ⟨hbuffer, hpolicy, hlisteners, hloaded, hdirty, hheld, hstatements, hcreated⟩ :
        last.buffer = r.buffer ∧ last.policy = r.policy ∧ last.listeners = r.listeners ∧
        last.loaded = true ∧ last.dirty = false ∧ last.held = statements ∧
        last.statements = List.range statements.length ∧ last.created = [] := by
      rw [hdone.rest]
      exact ⟨rfl, rfl, rfl, rfl, rfl, rfl, rfl, rfl⟩
    have hblock : ∀ statement ∈ List.range statements.length, last.blockAt statement =
        ⟨(start.heldAt statement).span,
          Document.blockOf r.policy.defaultSection (start.heldAt statement)⟩ := by
      intro statement hs
      have hsame : last.heldAt statement = start.heldAt statement := by rw [heldAt, hheld]; rfl
      rw [blockAt, itemAt_of_map (hdone.done statement (List.mem_range.mp hs)), hsame, blockOf_eq]
      rfl
    have hblocks : last.statements.map last.blockAt =
        statements.map fun p => ⟨p.span, Document.blockOf r.policy.defaultSection p⟩ := by
      rw [hstatements, List.map_congr_left hblock]
      exact map_getD_range statements _
        fun p => (⟨p.span, Document.blockOf r.policy.defaultSection p⟩ : Placed Block)
    obtain ⟨hresult, hstate⟩ := Document.reload_of_parse (d := r.document) hparse
    rw [hreload]
    refine ⟨⟨hdone.registered, ?_, ?_⟩, ?_, hresult.symm⟩
    · rw [hstatements, hcreated, hheld, List.map_nil, List.append_nil]
    · rw [hstatements, hcreated, hdone.listed, List.append_nil]
    · rw [hstate, document, hblocks, hcreated, hbuffer, hpolicy, hlisteners, hloaded, hdirty]
      rfl

def mapRecords (r : Registry) (f : Record → Record) : Registry :=
  { r with records := r.records.map f }

theorem forEach_all {ids : List Nat} (all : ids = List.range r.records.length)
    (f : Record → Record) : r.forEach ids f = r.mapRecords f := by
  have along : ∀ (ids : List Nat) (r : Registry), r.forEach ids f =
      { r with records := ids.foldl (fun records id => records.modify id f) r.records } := by
    intro ids
    induction ids with
    | nil => exact fun r => rfl
    | cons id ids ih => exact fun r => ih (r.change id f)
  rw [along, all, foldl_modify_range f r.records (Nat.le_refl _), mapRecords]
  simp

section Map

variable {f : Record → Record}

theorem recordAt_map {id : Nat} (f : Record → Record) (h : id < r.records.length) :
    (r.mapRecords f).recordAt id = f (r.recordAt id) := by
  simp [recordAt, mapRecords, List.getD_eq_getElem?_getD, List.getElem?_eq_getElem h]

variable (statement : ∀ x, (f x).statement = x.statement)
include statement

theorem view_map {id : Nat} (h : id < r.records.length) :
    (r.mapRecords f).view id = (f (r.recordAt id)).view (r.commandAt id) := by
  have hcommand : (r.mapRecords f).commandAt id = r.commandAt id := by
    rw [commandAt, recordAt_map f h, statement]
    rfl
  rw [view, hcommand, recordAt_map f h]

variable (sound : ∀ x : Record, x.Sound → (f x).Sound) (target_eq : ∀ x, (f x).target = x.target)
include sound target_eq

theorem Registered.map (h : r.Registered) : (r.mapRecords f).Registered := by
  have hstatements : (r.mapRecords f).records.map (·.statement) = r.records.map (·.statement) := by
    rw [mapRecords, List.map_map]
    exact List.map_congr_left fun x _ => statement x
  have hrecord : ∀ id ∈ r.sources, (r.mapRecords f).recordAt id = f (r.recordAt id) :=
    fun id hid => recordAt_map f (h.mem_sources.mp hid)
  have hsources : (r.mapRecords f).sources = r.sources := rfl
  refine ⟨?_, ?_, by rw [hstatements]; exact h.apart, ?_, ?_, ?_⟩
  · intro y hy
    obtain ⟨x, hx, rfl⟩ := List.mem_map.mp hy
    exact sound x (h.records x hx)
  · intro y hy
    obtain ⟨x, hx, rfl⟩ := List.mem_map.mp hy
    rw [statement]
    exact h.held x hx
  · rw [mapRecords, List.length_map]
    exact h.sources
  · rw [hsources, List.foldl_ext _ _ _ fun index id hid => by rw [hrecord id hid, target_eq]]
    exact h.index
  · rw [hsources, List.map_congr_left fun id hid => by rw [hrecord id hid, statement]]
    exact h.owners

theorem Sound.map (h : r.Sound) : (r.mapRecords f).Sound := by
  have hcreated : (r.mapRecords f).created = r.created := rfl
  refine ⟨h.toRegistered.map statement sound target_eq, ?_, h.listed⟩
  rw [hcreated, List.map_congr_left fun id hid => by
    rw [recordAt_map f (h.lt_of_mem_created hid), statement]]
  exact h.placed

end Map

theorem Sound.document_map (h : r.Sound) {f : Record → Record} {g : Sources → Sources}
    (statement : ∀ x, (f x).statement = x.statement)
    (view : ∀ id < r.records.length, (f (r.recordAt id)).view (r.commandAt id) = g (r.view id)) :
    (r.mapRecords f).document = r.document.withSources (r.document.sources.map g) := by
  have hview : ∀ id ∈ r.sources, (g ∘ r.view) id = (r.mapRecords f).view id := by
    intro id hid
    have hlt := h.mem_sources.mp hid
    rw [Function.comp_apply, ← view id hlt, view_map statement hlt]
  have hrefill := h.refill_blocks (r.mapRecords f) rfl rfl
  rw [h.sources_document, List.map_map, List.map_congr_left hview]
  simp only [Document.withSources, document, hrefill]
  rfl

theorem Sound.setDefaultSection (h : r.Sound) (name : Text) :
    Follows (r.setDefaultSection name) (r.document.setDefaultSection name) := by
  let f : Record → Record := fun x =>
    if (r.heldAt x.statement).item.command.name = Classify.targetSources
      then { x with defaultSection := name.upper } else x
  have hsound : ∀ x : Record, x.Sound → (f x).Sound := by
    intro x hx
    simp only [f]
    split
    · exact ⟨hx.sections, hx.slots⟩
    · exact hx
  have hstatement : ∀ x, (f x).statement = x.statement := by
    intro x
    simp only [f]
    split <;> rfl
  have htarget : ∀ x, (f x).target = x.target := by
    intro x
    simp only [f]
    split <;> rfl
  have hview : ∀ id < r.records.length, (f (r.recordAt id)).view (r.commandAt id) =
      if (r.view id).command.name = Classify.targetSources
        then { r.view id with defaultSection := name.upper } else r.view id := by
    intro id _
    have hcommand : (r.heldAt (r.recordAt id).statement).item.command = (r.view id).command := rfl
    simp only [f, hcommand]
    split <;> rfl
  let policy : Policy := { r.policy with defaultSection := name.upper }
  have heach : { r with policy := policy }.forEach r.sources f =
      { r.mapRecords f with policy := policy } :=
    forEach_all (r := { r with policy := policy }) h.sources f
  have hmap := h.document_map (g := fun s => if s.command.name = Classify.targetSources
    then { s with defaultSection := name.upper } else s) hstatement hview
  simp only [Registry.setDefaultSection, Document.setDefaultSection]
  split
  · refine ⟨?_, ?_, rfl⟩
    · rw [heach]
      exact (h.map hstatement hsound htarget).keep _ policy _ _ _
    · rw [heach, ← hmap]
      rfl
  · exact ⟨h, rfl, rfl⟩

theorem foldl_modify_zip {α β : Type} (f : β → α → α) (front : List α) {back : List α}
    {given : List β} (h : given.length = back.length) :
    ((List.range' front.length back.length).zip given).foldl
      (fun l p => l.modify p.1 (f p.2)) (front ++ back) = front ++ List.zipWith f given back := by
  induction back generalizing front given with
  | nil => simp
  | cons a back ih =>
    obtain ⟨b, given, rfl⟩ := List.exists_cons_of_length_eq_add_one h
    have hrest := ih (front ++ [f b a]) (Nat.succ.inj h)
    rw [List.length_append, List.length_singleton, List.append_assoc, List.append_assoc,
      List.singleton_append, List.singleton_append] at hrest
    rw [List.length_cons, List.range'_succ, List.zip_cons_cons, List.foldl_cons, modify_split,
      List.zipWith_cons_cons]
    exact hrest

namespace Sound

variable (h : r.Sound)
include h

/-- All statements of the document, in the order in which they were made. -/
theorem items_document : r.document.items = (List.range r.held.length).map r.itemAt := by
  have hcreated : r.created.map (fun id => r.itemAt (r.recordAt id).statement) =
      (r.created.map r.view).map Block.listing := by
    rw [List.map_map]
    refine List.map_congr_left fun id hid => ?_
    have howner : r.owner? (r.recordAt id).statement = some id :=
      h.owner?_eq_some.mpr ⟨h.lt_of_mem_created hid, rfl⟩
    simp [itemAt, howner]
  have hblocks : (r.statements.map r.blockAt).map (·.item) = r.statements.map r.itemAt := by
    rw [List.map_map]
    rfl
  rw [← h.placed, List.map_append, List.map_map]
  exact congrArg₂ (· ++ ·) hblocks hcreated.symm

theorem filterMap_owner? : (List.range r.held.length).filterMap r.owner? = r.sources := by
  have hcreated : r.created.filterMap (fun id => r.owner? (r.recordAt id).statement) =
      r.created := by
    rw [List.filterMap_congr (g := some) fun id hid =>
      h.owner?_eq_some.mpr ⟨h.lt_of_mem_created hid, rfl⟩, List.filterMap_some]
  rw [← h.placed, List.filterMap_append, List.filterMap_map]
  refine Eq.trans ?_ h.listed
  exact congrArg _ hcreated

end Sound

/-- The registry in which every statement is in the file, where the draft has put it. -/
def relocated (r : Registry) (drafted : Draft) : Registry :=
  { r with
    statements := List.range r.held.length, created := []
    held := List.zipWith (fun m s => ⟨Draft.spanOf (lineStarts drafted.output) m, s.item⟩)
      drafted.marks r.held }

theorem heldAt_relocated {drafted : Draft} (marks : drafted.marks.length = r.held.length)
    {statement : Nat} (lt : statement < r.held.length) :
    ∃ m, drafted.marks[statement]? = some m ∧ (r.relocated drafted).heldAt statement =
      ⟨Draft.spanOf (lineStarts drafted.output) m, (r.heldAt statement).item⟩ := by
  have hm := List.getElem?_eq_getElem (l := drafted.marks) (marks ▸ lt)
  refine ⟨_, hm, ?_⟩
  simp [Registry.relocated, heldAt, List.getD_eq_getElem?_getD, List.getElem?_zipWith, hm, lt]

def unmarked (x : Record) : Record := { x with dirty := false }

namespace Sound

variable {drafted : Draft} (h : r.Sound) (marks : drafted.marks.length = r.held.length)
include h marks

theorem settleDraft_eq : r.settleDraft drafted =
    { (r.relocated drafted).mapRecords unmarked with
      dirty := false
      buffer := (r.document.settleDraft drafted).buffer } := by
  have hfold : ((List.range r.held.length).zip drafted.marks).foldl
      (fun held p => held.modify p.1 fun s =>
        (⟨Draft.spanOf (lineStarts drafted.output) p.2, s.item⟩ : Placed Statement)) r.held =
      (r.relocated drafted).held := by
    rw [List.range_eq_range']
    exact foldl_modify_zip (fun m (s : Placed Statement) =>
      ⟨Draft.spanOf (lineStarts drafted.output) m, s.item⟩) [] marks
  have hspans : { r with statements := List.range r.held.length, created := [] }.moveSpans
      drafted.output ((List.range r.held.length).zip drafted.marks) = r.relocated drafted :=
    congrArg (fun held => { r with
      statements := List.range r.held.length, created := [], held := held }) hfold
  have heach : (r.relocated drafted).forEach r.sources (fun x => { x with dirty := false }) =
      (r.relocated drafted).mapRecords unmarked :=
    forEach_all (r := r.relocated drafted) h.sources unmarked
  rw [Registry.settleDraft, h.placed, hspans, heach]
  rfl

theorem relocated : (r.relocated drafted).Sound := by
  have hlength : (r.relocated drafted).held.length = r.held.length := by
    simp [Registry.relocated, marks]
  refine ⟨⟨h.records, ?_, h.apart, h.sources, h.index, h.owners⟩, ?_, ?_⟩
  · rw [hlength]
    exact h.held
  · rw [hlength]
    exact List.append_nil _
  · exact (List.append_nil _).trans h.filterMap_owner?

theorem view_relocated {id : Nat} (lt : id < r.records.length) :
    ((r.relocated drafted).mapRecords unmarked).view id = { r.view id with dirty := false } := by
  obtain ⟨m, -, hheld⟩ := heldAt_relocated marks (h.held _ (recordAt_mem lt))
  have hcommand : (r.relocated drafted).commandAt id = r.commandAt id :=
    congrArg (fun p => p.item.command) hheld
  rw [view_map (r := r.relocated drafted) (f := unmarked) (fun _ => rfl) lt, hcommand]
  rfl

theorem blockAt_relocated {statement : Nat} (lt : statement < r.held.length) :
    ∃ m, drafted.marks[statement]? = some m ∧
      ((r.relocated drafted).mapRecords unmarked).blockAt statement =
        ⟨Draft.spanOf (lineStarts drafted.output) m, (r.itemAt statement).clean⟩ := by
  obtain ⟨m, hm, hheld⟩ := heldAt_relocated marks lt
  have hplace : ((r.relocated drafted).mapRecords unmarked).heldAt statement =
      ⟨Draft.spanOf (lineStarts drafted.output) m, (r.heldAt statement).item⟩ := hheld
  have hsame : ((r.relocated drafted).mapRecords unmarked).owner? statement =
      r.owner? statement := rfl
  refine ⟨m, hm, ?_⟩
  unfold blockAt itemAt
  rw [hplace, hsame]
  cases howner : r.owner? statement with
  | none => rfl
  | some id => simp only [h.view_relocated marks (h.owner?_eq_some.mp howner).1, Block.clean]

theorem settleDraft : (r.settleDraft drafted).Sound ∧
    (r.settleDraft drafted).document = r.document.settleDraft drafted := by
  have hclean : ((r.relocated drafted).mapRecords unmarked).Sound :=
    (h.relocated marks).map (fun _ => rfl) (fun x hx => hx.marked false) (fun _ => rfl)
  have hblocks : (List.range r.held.length).map
      ((r.relocated drafted).mapRecords unmarked).blockAt =
      (r.document.settleDraft drafted).blocks := by
    have hdocument : (r.document.settleDraft drafted).blocks =
        List.zipWith (fun (m : Int × Nat) (b : Block) =>
          (⟨Draft.spanOf (lineStarts drafted.output) m, b.clean⟩ : Placed Block))
          drafted.marks r.document.items := rfl
    rw [hdocument, h.items_document]
    apply List.ext_getElem
    · simp [marks]
    · intro n hn hn'
      obtain ⟨m, hm, hblock⟩ := h.blockAt_relocated marks (by simpa using hn)
      obtain ⟨_, hget⟩ := List.getElem?_eq_some_iff.mp hm
      simp [hblock, hget]
  rw [h.settleDraft_eq marks]
  refine ⟨hclean.keep _ _ _ _ _, ?_⟩
  calc _ = { r.document.settleDraft drafted with
        blocks := (List.range r.held.length).map
          ((r.relocated drafted).mapRecords unmarked).blockAt } := rfl
    _ = _ := by rw [hblocks]

end Sound

namespace Sound

variable (h : r.Sound)
include h

theorem write : Follows r.write r.document.write := by
  have hloaded : r.document.loaded = r.loaded := rfl
  have hdraft : r.draft? = r.document.draft? := by
    simp only [Registry.draft?, Document.draft?, document, List.foldl_map]
  by_cases loaded : r.loaded = true
  · cases hr : r.document.draft? with
    | none =>
      simp only [Registry.write, Document.write, hloaded, loaded, if_true, hdraft, hr]
      exact ⟨h, rfl, rfl⟩
    | some drafted =>
      have hmarks : drafted.marks.length = r.held.length := by
        rw [Document.length_draft? hr, h.items_document, List.length_map, List.length_range]
      obtain ⟨hsound, hdocument⟩ := h.settleDraft hmarks
      simp only [Registry.write, Document.write, hloaded, loaded, if_true, hdraft, hr]
      exact ⟨hsound, hdocument, rfl⟩
  · simp only [Registry.write, Document.write, hloaded, loaded]
    exact ⟨h, rfl, rfl⟩

theorem save (host : Host) : (r.save host).1.Sound ∧
    (r.save host).1.document = (r.document.save host).state.1 ∧
      (r.save host).2 = (r.document.save host).result := by
  have hwrite := h.write
  have hloaded : r.document.loaded = r.loaded := rfl
  by_cases loaded : r.loaded = true
  · cases hanswer : r.write with
    | mk written answer =>
      rw [hanswer] at hwrite
      obtain ⟨hsound, hdocument, hresult⟩ := hwrite
      cases answer with
      | error fault =>
        simp only [Registry.save, Document.save, hloaded, loaded, if_true, hanswer, ← hresult]
        exact ⟨hsound, hdocument, trivial⟩
      | ok bytes =>
        simp only [Registry.save, Document.save, hloaded, loaded, if_true, hanswer, ← hresult,
          ← hdocument]
        exact ⟨hsound.keep _ _ _ _ _, rfl, rfl⟩
  · simp only [Registry.save, Document.save, hloaded, loaded]
    exact ⟨h, rfl, rfl⟩

/-- Every operation does to the document of a registry what it does to the registry. -/
theorem apply (op : Operation) : (r.apply op).1.Sound ∧
    (r.apply op).1.document = (op.apply r.document).1 ∧
      (r.apply op).2 = (op.apply r.document).2 := by
  have answers : ∀ {α : Type} {p : Registry × Except Fault α} {reply : Reply Document α}
      (f : α → Answer), Follows p reply → p.1.Sound ∧ p.1.document = reply.state ∧
        p.2.map f = reply.result.map f :=
    fun f follows => ⟨follows.sound, follows.document, by rw [follows.result]⟩
  cases op with
  | add target file hint => exact answers .flag (h.addFile target file hint)
  | rename target old new => exact answers .flag (h.renameFile target old new)
  | remove target file => exact answers .flag (h.removeFile target file)
  | setSorting on => exact ⟨h.keep _ _ _ _ _, rfl, rfl⟩
  | setCreating on => exact ⟨h.keep _ _ _ _ _, rfl, rfl⟩
  | setDefaultSection name => exact answers (fun _ => .nothing) (h.setDefaultSection name)
  | addListener => exact ⟨h.keep _ _ _ _ _, rfl, rfl⟩
  | write => exact answers .bytes h.write
  | save host =>
    obtain ⟨hsound, hdocument, hresult⟩ := h.save host
    exact ⟨hsound, hdocument, by simp only [Registry.apply, Operation.apply, hresult]⟩
  | reload => exact answers .flag r.reload_follows

/-- A registry goes through a run of operations as its document does. -/
theorem run (ops : List Operation) :
    (r.run ops).map (fun p => (p.1.document, p.2)) = Operation.run r.document ops ∧
      ∀ last answers, r.run ops = .ok (last, answers) → last.Sound := by
  induction ops generalizing r with
  | nil =>
    refine ⟨rfl, ?_⟩
    rintro last answers ran
    cases ran
    exact h
  | cons op rest ih =>
    obtain ⟨hsound, hdocument, hresult⟩ := h.apply op
    obtain ⟨hrun, hlast⟩ := ih hsound
    have hstep : op.apply r.document = ((r.apply op).1.document, (r.apply op).2) :=
      Prod.ext hdocument.symm hresult.symm
    rw [Registry.run, Operation.run, hstep]
    cases happly : r.apply op with
    | mk next result =>
      rw [happly] at hrun hlast
      cases result with
      | error fault => exact ⟨rfl, fun last answers ran => by cases ran⟩
      | ok answer =>
        simp only at hrun hlast ⊢
        rw [← hrun]
        cases hrest : next.run rest with
        | error fault => exact ⟨rfl, fun last answers ran => by cases ran⟩
        | ok p =>
          refine ⟨rfl, fun last answers ran => ?_⟩
          cases ran
          exact hlast p.1 p.2 hrest

theorem exists_run {ops : List Operation} {last : Document} {answers : List Answer}
    (ran : Operation.run r.document ops = .ok (last, answers)) :
    ∃ r', r.run ops = .ok (r', answers) ∧ r'.document = last ∧ r'.Sound := by
  obtain ⟨hrun, hsound⟩ := h.run ops
  rw [ran] at hrun
  cases hlast : r.run ops with
  | error fault =>
    rw [hlast] at hrun
    cases hrun
  | ok p =>
    rw [hlast] at hrun
    cases hrun
    exact ⟨p.1, rfl, rfl, hsound p.1 p.2 hlast⟩

end Sound

end Registry

end Listfile
