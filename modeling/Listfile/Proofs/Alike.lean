import Listfile.Proofs.Outline
import Listfile.Proofs.Session

/-!
Documents that differ only in what is marked and in what has been written. Operations on the
document alone answer the same on both and keep them so: no edit looks at a mark.
-/

namespace Listfile

def Sources.clean (s : Sources) : Sources := { s with dirty := false }

namespace Placement

variable (candidates : List Sources)

theorem section?_clean (place : Address) :
    Placement.section? (candidates.map Sources.clean) place =
      Placement.section? candidates place := by
  unfold section?
  rw [List.getElem?_map]
  cases candidates[place.statement]? <;> rfl

theorem allSections_clean :
    allSections (candidates.map Sources.clean) = allSections candidates := by
  have hmap : (candidates.map Sources.clean).mapIdx addressed = candidates.mapIdx addressed := by
    apply List.ext_getElem?
    intro i
    simp only [List.getElem?_mapIdx, List.getElem?_map, Option.map_map]
    rfl
  rw [allSections, hmap, allSections]

theorem choose_clean (file : Text) (wanted : Option Text) :
    choose (candidates.map Sources.clean) file wanted = choose candidates file wanted := by
  have houtline : Sources.outline ∘ Sources.clean = Sources.outline := rfl
  rw [← choose_outline, List.map_map, houtline, choose_outline]

end Placement

/-- A change that does not look at marks can be made before or after they are taken off. -/
theorem map_clean_modify {f g : Sources → Sources} (h : ∀ s, (f s).clean = g s.clean)
    (l : List Sources) (n : Nat) :
    (l.modify n f).map Sources.clean = (l.map Sources.clean).modify n g := by
  induction l generalizing n with
  | nil => simp
  | cons a l ih => cases n <;> simp [h, ih]

theorem map_clean_modifySection (n i : Nat) (f : Section → Section) (l : List Sources) :
    (l.modify n fun s => s.modifySection i f).map Sources.clean =
      (l.map Sources.clean).modify n fun s => s.modifySection i f :=
  map_clean_modify (g := fun s => s.modifySection i f) (fun _ => rfl) l n

namespace Placement

theorem settle_clean (candidates : List Sources) (choice : Choice) (separator : Text) :
    settle (candidates.map Sources.clean) choice separator =
      ((settle candidates choice separator).1.map Sources.clean,
        (settle candidates choice separator).2) := by
  cases choice with
  | existing place => rfl
  | fresh n name =>
    have hmap : (candidates.modify n fun s => s.addSection name separator).map Sources.clean =
        (candidates.map Sources.clean).modify n fun s => s.addSection name separator :=
      map_clean_modify (g := fun s => s.addSection name separator) (fun _ => rfl) candidates n
    simp only [settle, hmap, List.getElem?_map, Option.map_map]
    rfl

end Placement

namespace Document

theorem findFile?_clean (candidates : List Sources) (file : Text) :
    findFile? (candidates.map Sources.clean) file = findFile? candidates file := by
  rw [findFile?, Placement.allSections_clean, findFile?]

theorem filter_target_clean (all : List Sources) (target : Text) :
    (all.map Sources.clean).filter (fun s => s.target = target) =
      (all.filter fun s => s.target = target).map Sources.clean :=
  List.filter_map

theorem restoreTarget_clean (target : Text) (all given : List Sources) :
    restoreTarget target (all.map Sources.clean) (given.map Sources.clean) =
      (restoreTarget target all given).map Sources.clean := by
  induction all generalizing given with
  | nil => rfl
  | cons s rest ih =>
    have htarget : s.clean.target = s.target := rfl
    by_cases ht : s.target = target
    · cases given with
      | nil => simpa [restoreTarget, htarget, ht] using ih []
      | cons g more => simpa [restoreTarget, htarget, ht] using ih more
    · simpa [restoreTarget, htarget, ht] using ih given

theorem filterMap_sources?_clean (items : List Block) :
    (items.map Block.clean).filterMap Block.sources? =
      (items.filterMap Block.sources?).map Sources.clean := by
  induction items with
  | nil => rfl
  | cons b rest ih =>
    cases b with
    | other s => simpa [Block.clean, List.filterMap_cons] using ih
    | listing s =>
      simp only [List.map_cons, Block.clean, List.filterMap_cons, Block.sources?_listing, ih]
      rfl

theorem refillItems_clean (items : List Block) (given : List Sources) :
    refillItems (items.map Block.clean) (given.map Sources.clean) =
      (refillItems items given).map Block.clean := by
  induction items generalizing given with
  | nil => rfl
  | cons b rest ih =>
    cases b with
    | other s => simpa [refillItems, Block.clean] using ih given
    | listing s =>
      cases given with
      | nil => simpa [refillItems, Block.clean] using ih []
      | cons g more => simpa [refillItems, Block.clean, Sources.clean] using ih more

theorem preferredSection?_congr {d e : Document} (h : d.policy = e.policy) (hint : Option Text) :
    d.preferredSection? hint = e.preferredSection? hint := by
  unfold preferredSection?
  rw [h]

/-- Documents with the same policy and the same statements up to marks. -/
structure Alike (d e : Document) : Prop where
  policy : d.policy = e.policy
  loaded : d.loaded = e.loaded
  items : d.items.map Block.clean = e.items.map Block.clean

namespace Alike

variable {d e : Document}

theorem refl (d : Document) : d.Alike d := ⟨rfl, rfl, rfl⟩

theorem sources (h : d.Alike e) : d.sources.map Sources.clean = e.sources.map Sources.clean := by
  rw [sources_eq_items, sources_eq_items, ← filterMap_sources?_clean, h.items,
    filterMap_sources?_clean]

theorem sourcesOf (h : d.Alike e) (target : Text) :
    (d.sourcesOf target).map Sources.clean = (e.sourcesOf target).map Sources.clean := by
  rw [Document.sourcesOf, ← filter_target_clean, h.sources, filter_target_clean,
    Document.sourcesOf]

theorem withSources (h : d.Alike e) {given given' : List Sources}
    (hd : given.length = d.sources.length) (he : given'.length = e.sources.length)
    (same : given.map Sources.clean = given'.map Sources.clean) :
    (d.withSources given).Alike (e.withSources given') := by
  refine ⟨h.policy, h.loaded, ?_⟩
  rw [items_withSources hd, items_withSources he, ← refillItems_clean, h.items, same,
    refillItems_clean]

theorem withTarget (h : d.Alike e) (target : Text) {given given' : List Sources}
    (same : given.map Sources.clean = given'.map Sources.clean) :
    (d.withTarget target given).Alike (e.withTarget target given') := by
  refine h.withSources (length_restoreTarget _ _ _) (length_restoreTarget _ _ _) ?_
  rw [← restoreTarget_clean, h.sources, same, restoreTarget_clean]

theorem changeSection (h : d.Alike e) (target : Text) {candidates candidates' : List Sources}
    (same : candidates.map Sources.clean = candidates'.map Sources.clean) (place : Address)
    (f : Section → Section) (events events' : List Event) :
    (d.changeSection target candidates place f events).result =
        (e.changeSection target candidates' place f events').result ∧
      (d.changeSection target candidates place f events).state.Alike
        (e.changeSection target candidates' place f events').state := by
  have hchanged : (candidates.modify place.statement fun s =>
        s.modifySection place.sectionIndex f).map Sources.clean =
      (candidates'.modify place.statement fun s =>
        s.modifySection place.sectionIndex f).map Sources.clean := by
    rw [map_clean_modifySection, same, ← map_clean_modifySection]
  have hstuck : Placement.section?
      (candidates.modify place.statement fun s => s.modifySection place.sectionIndex f) place =
      Placement.section?
        (candidates'.modify place.statement fun s => s.modifySection place.sectionIndex f)
        place := by
    rw [← Placement.section?_clean, hchanged, Placement.section?_clean]
  unfold Document.changeSection
  simp only [h.policy, hstuck]
  split
  · exact ⟨rfl, h.withTarget target hchanged⟩
  · have marked : ∀ (l : List Sources) (g : Section → Section),
        (l.modify place.statement fun s =>
            { s.modifySection place.sectionIndex g with dirty := true }).map Sources.clean =
          (l.map Sources.clean).modify place.statement fun s =>
            s.modifySection place.sectionIndex g := fun l g =>
      map_clean_modify (g := fun s => s.modifySection place.sectionIndex g) (fun _ => rfl) l _
    refine ⟨rfl, ?_⟩
    have := h.withTarget target
      ((marked _ e.policy.order).trans
        ((congrArg (List.modify · _ _) hchanged).trans (marked _ e.policy.order).symm))
    exact ⟨this.policy, this.loaded, this.items⟩

theorem addTo (h : d.Alike e) (target file : Text) (hint : Option Text)
    (events events' : List Event) :
    (d.addTo target file hint events).result = (e.addTo target file hint events').result ∧
      (d.addTo target file hint events).state.Alike (e.addTo target file hint events').state := by
  have hpreferred := preferredSection?_congr h.policy hint
  have hchoose : Placement.choose (d.sourcesOf target) file (d.preferredSection? hint) =
      Placement.choose (e.sourcesOf target) file (e.preferredSection? hint) := by
    rw [← Placement.choose_clean, h.sourcesOf, Placement.choose_clean, hpreferred]
  unfold Document.addTo
  simp only [hchoose, h.policy]
  split
  · exact ⟨rfl, h⟩
  · next choice chosen _ =>
    have hsettle := (Placement.settle_clean (d.sourcesOf target) choice e.policy.separator).symm
    rw [h.sourcesOf, Placement.settle_clean] at hsettle
    obtain ⟨hcandidates, hplace⟩ := Prod.mk.injEq .. ▸ hsettle
    rw [hplace]
    exact h.changeSection target hcandidates _ _ _ _

theorem isEmpty_sourcesOf (h : d.Alike e) (target : Text) :
    (d.sourcesOf target).isEmpty = (e.sourcesOf target).isEmpty := by
  have := congrArg List.isEmpty (h.sourcesOf target)
  simpa using this

theorem addFile (h : d.Alike e) (target file : Text) (hint : Option Text) :
    (d.addFile target file hint).result = (e.addFile target file hint).result ∧
      (d.addFile target file hint).state.Alike (e.addFile target file hint).state := by
  have created : Alike { d with pending := d.pending ++ [d.newBlock target] }
      { e with pending := e.pending ++ [e.newBlock target] } := by
    refine ⟨h.policy, h.loaded, ?_⟩
    have hblock : d.newBlock target = e.newBlock target := by rw [newBlock, h.policy, newBlock]
    have := congrArg (· ++ [(Block.listing (e.newBlock target)).clean]) h.items
    simpa [Document.items, hblock] using this
  unfold Document.addFile
  have hloaded : (!d.loaded) = (!e.loaded) := congrArg not h.loaded
  have hcreating : d.policy.creating = e.policy.creating := congrArg Policy.creating h.policy
  rw [hloaded, hcreating, h.isEmpty_sourcesOf]
  split
  · exact ⟨rfl, h⟩
  split
  · exact ⟨rfl, h⟩
  split
  · exact h.addTo target file hint _ _
  split
  · exact created.addTo target file hint _ _
  · exact ⟨rfl, h⟩

theorem changeFile (h : d.Alike e) (target file : Text) (f : Nat → Section → Section) :
    (d.changeFile target file f).result = (e.changeFile target file f).result ∧
      (d.changeFile target file f).state.Alike (e.changeFile target file f).state := by
  have hfind : findFile? (d.sourcesOf target) file = findFile? (e.sourcesOf target) file := by
    rw [← findFile?_clean, h.sourcesOf, findFile?_clean]
  unfold Document.changeFile
  simp only [h.isEmpty_sourcesOf, hfind]
  split
  · exact ⟨rfl, h⟩
  split
  · exact ⟨rfl, h⟩
  · exact h.changeSection target (h.sourcesOf target) _ _ _ _

theorem renameFile (h : d.Alike e) (target old new : Text) :
    (d.renameFile target old new).result = (e.renameFile target old new).result ∧
      (d.renameFile target old new).state.Alike (e.renameFile target old new).state := by
  unfold Document.renameFile
  rw [h.loaded]
  split
  · exact ⟨rfl, h⟩
  split
  · exact ⟨rfl, h⟩
  · exact h.changeFile target old _

theorem removeFile (h : d.Alike e) (target file : Text) :
    (d.removeFile target file).result = (e.removeFile target file).result ∧
      (d.removeFile target file).state.Alike (e.removeFile target file).state := by
  unfold Document.removeFile
  rw [h.loaded]
  split
  · exact ⟨rfl, h⟩
  · exact h.changeFile target file _

theorem setDefaultSection (h : d.Alike e) (name : Text) :
    (d.setDefaultSection name).result = (e.setDefaultSection name).result ∧
      (d.setDefaultSection name).state.Alike (e.setDefaultSection name).state := by
  unfold Document.setDefaultSection
  simp only
  split
  · refine ⟨rfl, ?_⟩
    let rename := fun s : Sources =>
      if s.command.name = Classify.targetSources then { s with defaultSection := name.upper }
      else s
    have hclean : ∀ s : Sources, (rename s).clean = rename s.clean := by
      intro s
      simp only [rename, Sources.clean]
      split <;> rfl
    have := @withSources d e h (d.sources.map rename) (e.sources.map rename) (by simp) (by simp)
      (by
        have := congrArg (List.map rename) h.sources
        simpa [List.map_map, Function.comp_def, hclean] using this)
    exact ⟨congrArg (fun p => { p with defaultSection := name.upper }) this.policy, this.loaded,
      this.items⟩
  · exact ⟨rfl, h⟩

end Alike

end Document

/-- An operation on the document alone answers the same on documents that are alike. -/
theorem Operation.alike {op : Operation} (inner : op.isInner = true) {d e : Document}
    (h : d.Alike e) :
    (op.apply d).2 = (op.apply e).2 ∧ (op.apply d).1.Alike (op.apply e).1 := by
  have map_result : ∀ {α : Type} {x y : Except Fault α} {f : α → Answer} {p q : Document},
      x = y ∧ p.Alike q → x.map f = y.map f ∧ p.Alike q := by
    rintro α x y f p q ⟨rfl, h⟩
    exact ⟨rfl, h⟩
  cases op with
  | add target file hint => exact map_result (h.addFile target file hint)
  | rename target old new => exact map_result (h.renameFile target old new)
  | remove target file => exact map_result (h.removeFile target file)
  | setSorting on =>
    exact ⟨rfl, congrArg (fun p => { p with sorting := on }) h.policy, h.loaded, h.items⟩
  | setCreating on =>
    exact ⟨rfl, congrArg (fun p => { p with creating := on }) h.policy, h.loaded, h.items⟩
  | setDefaultSection name => exact map_result (h.setDefaultSection name)
  | addListener => exact ⟨rfl, h.policy, h.loaded, h.items⟩
  | write => cases inner
  | save host => cases inner
  | reload => cases inner

end Listfile
