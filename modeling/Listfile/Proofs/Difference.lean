import Listfile.Proofs.Interposed
import Listfile.Proofs.Site
import Listfile.Proofs.Surgery

/-!
What one edit does to the text of a file. In a document that is not marked no block waits to be
written and every statement reads as it stands in the text. An edit and a write then exchange one
part of the text, the file that is added, removed or renamed, and all around it stays.
-/

namespace Listfile

namespace Document

/-- A document that is not marked has no created blocks and no marked statement. -/
def Tidy (d : Document) : Prop :=
  d.dirty = false → d.pending = [] ∧ ∀ b ∈ d.blocks, b.item.isDirty = false

theorem tidy_of_dirty {d : Document} (h : d.dirty = true) : d.Tidy := by
  intro clean
  rw [h] at clean
  cases clean

theorem isDirty_blockOf (default : Text) (p : Placed Statement) :
    (blockOf default p).isDirty = false := by
  unfold blockOf
  split
  · next s hs => exact (Sources.ofStatement?_lossless hs).2.2
  · rfl

theorem tidy_reload (d : Document) : d.reload.state.Tidy := by
  intro _
  rcases reload_cases d with ⟨statements, -, -, hstate⟩ | ⟨-, hstate⟩
  · rw [hstate]
    refine ⟨rfl, fun b hb => ?_⟩
    obtain ⟨p, -, rfl⟩ := List.mem_map.mp hb
    exact isDirty_blockOf _ p
  · rw [hstate]
    exact ⟨rfl, by simp⟩

theorem tidy_settleDraft (d : Document) (r : Draft) : (d.settleDraft r).Tidy := by
  intro _
  refine ⟨rfl, fun b hb => ?_⟩
  simp only [settleDraft, ← List.map_uncurry_zip_eq_zipWith] at hb
  obtain ⟨⟨mark, item⟩, -, rfl⟩ := List.mem_map.mp hb
  exact isDirty_clean item

theorem Tidy.write {d : Document} (h : d.Tidy) : d.write.state.Tidy := by
  unfold Document.write
  split
  · split
    · exact tidy_settleDraft d _
    · exact h
  · exact h

theorem Tidy.save {d : Document} (h : d.Tidy) (host : Host) : (d.save host).state.1.Tidy := by
  unfold Document.save
  split
  · simp only
    split
    · exact h.write
    · exact h.write
  · exact h

theorem Tidy.setDefaultSection {d : Document} (h : d.Tidy) (name : Text) :
    (d.setDefaultSection name).state.Tidy := by
  unfold Document.setDefaultSection
  simp only
  split
  · intro clean
    obtain ⟨hpending, hunmarked⟩ := h clean
    have hall : List.Forall₂ (fun s s' : Sources => s.dirty = s'.dirty) d.sources
        (d.sources.map fun s => if s.command.name = Classify.targetSources then
          { s with defaultSection := name.upper } else s) := by
      refine List.forall₂_map_right_iff.mpr (List.forall₂_same.mpr fun s _ => ?_)
      split <;> rfl
    have hblocks := map_eq_of_forall₂ (f := Block.isDirty) (g := Block.isDirty)
      (forall₂_withSources (R := fun b b' => b.isDirty = b'.isDirty) (fun _ => rfl) hall)
    have hcreated := forall₂_pending hall
    rw [hpending] at hcreated
    refine ⟨List.forall₂_nil_left_iff.mp hcreated, fun b hb => ?_⟩
    have hmem := List.mem_map_of_mem (f := Block.isDirty) (List.mem_map_of_mem (f := (·.item)) hb)
    rw [← hblocks, List.map_map] at hmem
    obtain ⟨c, hc, heq⟩ := List.mem_map.mp hmem
    rw [← heq]
    exact hunmarked c hc
  · exact h

theorem Tidy.step {d : Document} (h : d.Tidy) {op : Operation} {answer : Answer}
    (ended : (op.apply d).2 = .ok answer) : (op.apply d).1.Tidy := by
  have edited : ∀ {r : Reply Document Bool}, r.result.map Answer.flag = .ok answer →
      ((∃ fault, r.result = .error fault) ∨ (r.result = .ok false ∧ r.state = d) ∨
        r.state.dirty = true) → r.state.Tidy := by
    rintro r hr (⟨fault, hfault⟩ | ⟨-, hstate⟩ | hdirty)
    · rw [hfault] at hr
      cases hr
    · rw [hstate]
      exact h
    · exact tidy_of_dirty hdirty
  cases op with
  | add target file hint =>
    refine edited ended ((addFile_cases d target file hint).imp_right (Or.imp_right ?_))
    rintro ⟨-, -, -, d₁, n, opened, i, -, -, hstate⟩
    rw [hstate]
    rfl
  | rename target old new =>
    refine edited ended ((renameFile_cases d target old new).imp_right (Or.imp_right ?_))
    rintro ⟨-, -, -, n, i, k, hstate⟩
    rw [hstate]
    rfl
  | remove target file =>
    refine edited ended ((removeFile_cases d target file).imp_right (Or.imp_right ?_))
    rintro ⟨-, -, n, i, k, hstate⟩
    rw [hstate]
    rfl
  | setSorting on => exact h
  | setCreating on => exact h
  | setDefaultSection name => exact h.setDefaultSection name
  | addListener => exact h
  | write => exact h.write
  | save host => exact h.save host
  | reload => exact tidy_reload d

theorem Reachable.tidy {d : Document} (h : d.Reachable) : d.Tidy := by
  induction h with
  | opened buffer policy _ => exact tidy_reload { buffer := buffer, policy := policy }
  | step _ _ ended ih => exact ih.step ended

/-- A loaded document that stands in strands, with nothing marked and nothing to be created. -/
structure Unedited (d : Document) (strands : List Strand) (tail : Text) : Prop where
  loaded : d.loaded = true
  laid : d.Laid strands tail
  pending : d.pending = []
  unmarked : ∀ b ∈ d.blocks, b.item.isDirty = false

theorem Reachable.unedited {d : Document} (h : d.Reachable) (loaded : d.loaded = true)
    (clean : d.dirty = false) : ∃ strands tail, d.Unedited strands tail := by
  obtain ⟨strands, tail, laid⟩ := h.laid
  obtain ⟨pending, unmarked⟩ := h.tidy clean
  exact ⟨strands, tail, loaded, laid, pending, unmarked⟩

def Yields (d : Document) (t : Text) : Prop :=
  (∃ r, d.draft? = some r ∧ r.output = t) ∧ d.write.result = .ok (Utf8.encode t)

theorem Laid.yields {d : Document} {strands : List Strand} {tail : Text}
    (h : d.Laid strands tail) (loaded : d.loaded = true) :
    d.Yields (Strand.weave (Strand.refresh strands d.blocks) ++ tail ++
      createdText (Strand.weave (Strand.refresh strands d.blocks) ++ tail) d.pending) := by
  obtain ⟨r, hr, hout, -⟩ := h.draft?
  rw [Strand.weave_settled] at hout
  refine ⟨⟨r, hr, hout⟩, ?_⟩
  rw [write_of_draft? loaded hr, hout]

end Document

namespace Strand

theorem ext_of_maps {ss ts : List Strand} (gaps : ss.map (·.gap) = ts.map (·.gap))
    (pieces : ss.map (·.piece) = ts.map (·.piece)) : ss = ts := by
  induction ss generalizing ts with
  | nil => simpa using gaps
  | cons s rest ih =>
    cases ts with
    | nil => simp at gaps
    | cons t more =>
      simp only [List.map_cons, List.cons.injEq] at gaps pieces
      have hhead : s = t := by
        cases s
        cases t
        simpa using And.intro gaps.1 pieces.1
      rw [ih gaps.2 pieces.2, hhead]

theorem spans_append (before : Text) (ss ts : List Strand) :
    spans before (ss ++ ts) = spans before ss ++ spans (before ++ weave ss) ts := by
  induction ss generalizing before with
  | nil => simp [spans]
  | cons s rest ih => simp [spans, ih, text]

end Strand

namespace Document

def StartsAfter (d : Document) (s : Sources) (head : Text) : Prop :=
  ∃ b ∈ d.blocks, b.item = .listing s ∧
    b.span.first.offset? (lineStarts (Utf8.decode d.buffer.content)) = some (head.length : Int)

theorem Unedited.pieces {d : Document} {strands : List Strand} {tail : Text}
    (h : d.Unedited strands tail) : strands.map (·.piece) = d.items.map Block.render := by
  have hpieces := Strand.pieces_refresh h.laid.length
  rw [refresh_of_clean h.laid.clean h.unmarked] at hpieces
  simp [hpieces, items, h.pending, Function.comp_def]

theorem Laid.offset {d : Document} {front back : List Strand} {strand : Strand} {tail : Text}
    (h : d.Laid (front ++ strand :: back) tail) {firsts lasts : List (Placed Block)}
    {b : Placed Block} (blocks : d.blocks = firsts ++ b :: lasts)
    (count : firsts.length = front.length) :
    b.span.first.offset? (lineStarts (Utf8.decode d.buffer.content)) =
      some ((Strand.weave front ++ strand.gap).length : Int) := by
  have hspans := h.spans
  rw [blocks, Strand.spans_append, List.map_append] at hspans
  have hcount : (firsts.map (·.span)).length = (Strand.spans [] front).length := by
    rw [List.length_map, Strand.length_spans, count]
  obtain ⟨-, hrest⟩ := List.append_inj hspans hcount
  simp only [List.map_cons, Strand.spans, List.cons.injEq, List.nil_append] at hrest
  have hne := Strand.piece_ne_nil (h.closed strand (by simp))
  have hoffset := (@Draft.offsets_of_spanAfter (Strand.weave front ++ strand.gap) strand.piece
    (Strand.weave back ++ tail) hne).1
  have htext : Utf8.decode d.buffer.content =
      Strand.weave front ++ strand.gap ++ strand.piece ++ (Strand.weave back ++ tail) := by
    rw [h.text]
    simp
  rw [htext, hrest.1, hoffset]

/-- When one statement has taken the place of another, the text written has its text in the place
of the other's. -/
theorem Unedited.exchange {d d' : Document} {strands : List Strand} {tail : Text}
    (h : d.Unedited strands tail) (moved : d.Moved d') {before after : List Block} {s s' : Sources}
    (old : d.items = before ++ .listing s :: after)
    (new : d'.items = before ++ .listing s' :: after) :
    ∃ head rest, d.StartsAfter s head ∧
      Utf8.decode d.buffer.content = head ++ s.render ++ rest ∧
      d'.Yields (head ++ s'.render ++ rest) := by
  have hpieces := h.pieces
  rw [old, List.map_append, List.map_cons] at hpieces
  obtain ⟨front, others, rfl, hfront, hothers⟩ := List.map_eq_append_iff.mp hpieces
  obtain ⟨strand, back, rfl, hstrand, hback⟩ := List.map_eq_cons_iff.mp hothers
  have hblocks : d.blocks.map (·.item) = before ++ .listing s :: after := by
    simpa [items, h.pending] using old
  have hlaid := h.laid.moved moved
  have hpending : d'.pending = [] := by
    have hlen := congrArg List.length moved.spans
    have hold := congrArg List.length hblocks
    have hnew := congrArg List.length new
    simp only [items, List.length_append, List.length_map, List.length_cons] at hlen hold hnew
    exact List.eq_nil_of_length_eq_zero (by omega)
  have hblocks' : d'.blocks.map (·.item) = before ++ .listing s' :: after := by
    simpa [items, hpending] using new
  -- Only the piece of the statement changes.
  have hrefresh : Strand.refresh (front ++ strand :: back) d'.blocks =
      front ++ ⟨strand.gap, s'.render⟩ :: back := by
    refine Strand.ext_of_maps ((Strand.gaps_refresh hlaid.length).trans (by simp)) ?_
    calc (Strand.refresh (front ++ strand :: back) d'.blocks).map (·.piece)
      _ = d'.blocks.map (·.item.render) := Strand.pieces_refresh hlaid.length
      _ = (d'.blocks.map (·.item)).map Block.render := by simp [Function.comp_def]
      _ = (front ++ (⟨strand.gap, s'.render⟩ : Strand) :: back).map (·.piece) := by
        rw [hblocks']
        simp [hfront, hback, Block.render]
  refine ⟨Strand.weave front ++ strand.gap, Strand.weave back ++ tail, ?_, ?_, ?_⟩
  · obtain ⟨firsts, more, hsplit, hfirsts, hmore⟩ := List.map_eq_append_iff.mp hblocks
    obtain ⟨b, lasts, rfl, hb, -⟩ := List.map_eq_cons_iff.mp hmore
    have hcount : firsts.length = front.length := by
      have hf := congrArg List.length hfirsts
      have hg := congrArg List.length hfront
      simp only [List.length_map] at hf hg
      omega
    exact ⟨b, by simp [hsplit], hb, h.laid.offset hsplit hcount⟩
  · have hpiece : strand.piece = s.render := hstrand
    rw [h.laid.text, ← hpiece]
    simp
  · have hyields := hlaid.yields (moved.loaded.trans h.loaded)
    rw [hrefresh, hpending] at hyields
    simpa [createdText] using hyields

/-- A text ends inside a statement of the file, after some of its arguments and some layout. -/
def Reaches (d : Document) (s : Sources) (arguments : List Argument) (layout p : Text) : Prop :=
  ∃ head, d.StartsAfter s head ∧ p = head ++ s.command.spelling ++ s.command.leading ++
    [.char '('] ++ arguments.flatMap Argument.render ++ layout

/-- Between the text of a document and the text that another one writes, one part is exchanged. It
stands in a statement of the first, after some arguments and some layout. -/
def Splices (d d' : Document) (s : Sources) (arguments : List Argument)
    (layout old new : Text) : Prop :=
  ∃ p q, d.Reaches s arguments layout p ∧ Utf8.decode d.buffer.content = p ++ old ++ q ∧
    d'.Yields (p ++ new ++ q)

theorem Unedited.splices {d : Document} {strands : List Strand} {tail : Text}
    (h : d.Unedited strands tail) {target separator : Text}
    (x : Site separator (d.sourcesOf target)) {f : Section → Section}
    (moved : d.Moved (d.editAt target x f)) {front taken given back : List Argument}
    {layout old new : Text} (before : x.statement.arguments = front ++ taken ++ back)
    (after : (x.edited f).arguments = front ++ given ++ back)
    (takes : taken.flatMap Argument.render = layout ++ old)
    (gives : given.flatMap Argument.render = layout ++ new) :
    d.Splices (d.editAt target x f) x.statement front layout old new := by
  obtain ⟨firsts, lasts, hold, hnew, -, -⟩ := items_editAt d target x f
  obtain ⟨head, rest, hstart, htext, hyields⟩ := h.exchange moved hold hnew
  let c := x.statement.command
  refine ⟨head ++ c.spelling ++ c.leading ++ [.char '('] ++ front.flatMap Argument.render ++ layout,
    back.flatMap Argument.render ++ c.trailing ++ [.char ')'] ++ rest, ⟨head, hstart, rfl⟩, ?_, ?_⟩
  · rw [htext, Sources.render, Command.render, before]
    simp [takes, c]
  · rw [Sources.render, Command.render, after] at hyields
    simpa [gives, Site.edited, c] using hyields

end Document

def Site.upTo {separator : Text} {candidates : List Sources} (x : Site separator candidates)
    (before : List Argument) : List Argument :=
  x.left.flatMap Slot.arguments ++ x.group.keyword.toList ++ before

namespace Site

variable {separator : Text} {candidates : List Sources} (x : Site separator candidates)

theorem arguments_edited (f : Section → Section) :
    (x.edited f).arguments =
      x.left.flatMap Slot.arguments ++ (f x.group).arguments ++
        x.right.flatMap Slot.arguments := by
  simp [edited, Sources.arguments, Slot.arguments]

theorem room_cases :
    x.statement.slots = x.left ++ .grouped x.group :: x.right ∨
    ∃ name, (x.statement.preferred = true ∨ name = x.statement.defaultSection) ∧
      x.statement.findSection? name = none ∧ x.left = x.statement.slots ∧
      x.group = Section.opened name separator ∧ x.right = [] := by
  obtain ⟨earlier, s, later, left, g, right, -, room⟩ := x
  cases room with
  | standing slots => exact Or.inl slots
  | opened named missing => exact Or.inr ⟨_, named, missing, rfl, rfl, rfl⟩

theorem Finds.arguments {x : Site separator candidates} {file : Text}
    {before after : List Argument} {a : Argument} (h : x.Finds file before a after) :
    x.statement.arguments =
      x.upTo before ++ [a] ++ (after ++ x.right.flatMap Slot.arguments) := by
  rw [Sources.arguments, h.standing]
  simp [Slot.arguments, Section.arguments, h.files, upTo]

theorem arguments_edited_files {f : Section → Section} {before given after : List Argument}
    (keyword : (f x.group).keyword = x.group.keyword)
    (files : (f x.group).files = before ++ given ++ after) :
    (x.edited f).arguments =
      x.upTo before ++ given ++ (after ++ x.right.flatMap Slot.arguments) := by
  rw [arguments_edited]
  simp [Section.arguments, keyword, files, upTo]

end Site

def spelled (quoted : Bool) (name : Text) : Text :=
  if quoted then .char '"' :: name ++ [.char '"'] else name

def layoutAfter (separator : Text) (g : Section) : Text :=
  match g.files.getLast? with
  | some last => inheritSeparator last.separator
  | none => separator

def openingText (separator name : Text) : Text :=
  if name.upper = [] then [] else separator ++ name.upper

def blockText (policy : Policy) (target file : Text) : Text :=
  Classify.targetSources ++ [.char '('] ++ spelled (needsQuotation target) target ++
    openingText policy.separator policy.defaultSection ++ policy.separator ++
    spelled (needsQuotation file) file ++ [.char '\n', .char ')']

/-- What adding a file puts into the text: the file after the last one of a section, or at the end
of a statement after the section it opens, or in a block of its own at the end of the text. -/
inductive Document.Inserts (d d' : Document) (target file : Text) : Prop where
  | beside {s : Sources} {left : List Slot} {g : Section} {right : List Slot}
      (listed : s ∈ d.sourcesOf target) (slots : s.slots = left ++ .grouped g :: right)
      (spliced : d.Splices d' s (left.flatMap Slot.arguments ++ g.arguments) [] []
        (layoutAfter d.policy.separator g ++ spelled (needsQuotation file) file))
  | opening {s : Sources} {name : Text} (listed : s ∈ d.sourcesOf target)
      (named : s.preferred = true ∨ name = s.defaultSection)
      (missing : s.findSection? name = none)
      (spliced : d.Splices d' s s.arguments [] [] (openingText d.policy.separator name ++
        d.policy.separator ++ spelled (needsQuotation file) file))
  | creating (unlisted : d.sourcesOf target = [])
      (yields : d'.Yields (Utf8.decode d.buffer.content ++
        (breakAfter (Utf8.decode d.buffer.content) ++ blockText d.policy target file ++
          [.char '\n'])))

theorem render_opened (separator name : Text) :
    (Section.opened name separator).keyword.toList.flatMap Argument.render =
      openingText separator name := by
  by_cases h : name.upper = []
  · simp [Section.opened, openingText, h]
  · simp [Section.opened, openingText, h, Argument.render, Argument.sourceText]

theorem arguments_appendFile (separator file : Text) (g : Section) :
    (Document.appendFile separator file g).arguments = g.arguments ++
      [⟨file, needsQuotation file, layoutAfter separator g, none⟩] := by
  have files : (Document.appendFile separator file g).files =
      g.files ++ [⟨file, needsQuotation file, layoutAfter separator g, none⟩] := rfl
  rw [Section.arguments, files, ← List.append_assoc]
  rfl

theorem render_plain (value layout : Text) (quoted : Bool) :
    (⟨value, quoted, layout, none⟩ : Argument).render = layout ++ spelled quoted value := rfl

namespace Document

variable {d : Document} {strands : List Strand} {tail : Text}

theorem order_comp {p : Policy} (h : p.sorting = false) (f : Section → Section) :
    p.order ∘ f = f := by
  funext g
  exact Policy.order_unsorted h (f g)

theorem Unedited.inserts (h : d.Unedited strands tail) {target file : Text}
    (x : Site d.policy.separator (d.sourcesOf target))
    (moved : d.Moved (d.editAt target x (appendFile d.policy.separator file))) :
    d.Inserts (d.editAt target x (appendFile d.policy.separator file)) target file := by
  have listed := x.statement_mem
  let added : Argument := ⟨file, needsQuotation file, layoutAfter d.policy.separator x.group, none⟩
  have hedited := x.arguments_edited (appendFile d.policy.separator file)
  rw [arguments_appendFile] at hedited
  rcases x.room_cases with slots | ⟨name, named, missing, hleft, hgroup, hright⟩
  · have before : x.statement.arguments =
        x.left.flatMap Slot.arguments ++ x.group.arguments ++ [] ++
          x.right.flatMap Slot.arguments := by
      rw [Sources.arguments, slots]
      simp [Slot.arguments]
    have after : (x.edited (appendFile d.policy.separator file)).arguments =
        x.left.flatMap Slot.arguments ++ x.group.arguments ++ [added] ++
          x.right.flatMap Slot.arguments := by
      rw [hedited]
      simp [added]
    refine .beside listed slots (h.splices x moved before after rfl ?_)
    simp [added, render_plain]
  · have before : x.statement.arguments = x.statement.arguments ++ [] ++ [] := by simp
    have after : (x.edited (appendFile d.policy.separator file)).arguments =
        x.statement.arguments ++ (x.group.keyword.toList ++ [added]) ++ [] := by
      rw [hedited, hleft, hright, Section.arguments]
      simp [Sources.arguments, added, hgroup, Section.opened]
    refine .opening listed named missing (h.splices x moved before after rfl ?_)
    rw [List.flatMap_append, hgroup, render_opened]
    simp [added, render_plain, hgroup, layoutAfter, Section.opened]

/-- A created block is written after the whole text, on lines of its own. -/
theorem Unedited.appends {d' : Document} (h : d.Unedited strands tail) (moved : d.Moved d')
    {s : Sources} (new : d'.items = d.items ++ [.listing s]) :
    d'.Yields (Utf8.decode d.buffer.content ++
      (breakAfter (Utf8.decode d.buffer.content) ++ s.render ++ [.char '\n'])) := by
  have hlen : (d'.blocks.map (·.item)).length = (d.blocks.map (·.item)).length := by
    simpa using congrArg List.length moved.spans
  have hsplit : d'.blocks.map (·.item) ++ d'.pending.map Block.listing =
      d.blocks.map (·.item) ++ [.listing s] := by
    simpa [items, h.pending] using new
  obtain ⟨hblocks, hcreated⟩ := List.append_inj hsplit hlen
  have hpending : d'.pending = [s] := by
    obtain ⟨t, ht, heq⟩ := List.map_eq_singleton_iff.mp hcreated
    cases heq
    exact ht
  have unmarked : ∀ b ∈ d'.blocks, b.item.isDirty = false := by
    intro b hb
    have hmem := List.mem_map_of_mem (f := (·.item)) hb
    rw [hblocks] at hmem
    obtain ⟨c, hc, heq⟩ := List.mem_map.mp hmem
    rw [← heq]
    exact h.unmarked c hc
  have hlaid := h.laid.moved moved
  have hyields := hlaid.yields (moved.loaded.trans h.loaded)
  rw [refresh_of_clean hlaid.clean unmarked, ← h.laid.text, hpending] at hyields
  simpa [createdText] using hyields

theorem items_created {target : Text} (unlisted : d.sourcesOf target = []) {separator : Text}
    (x : Site separator ((d.withBlock target).sourcesOf target)) (f : Section → Section) :
    x.statement = d.newBlock target ∧
      ((d.withBlock target).editAt target x f).items = d.items ++ [.listing (x.edited f)] := by
  have hcandidates : [d.newBlock target] = x.earlier ++ x.statement :: x.later := by
    have : (d.withBlock target).sourcesOf target = [d.newBlock target] := by
      rw [sourcesOf_withBlock, unlisted, List.nil_append]
    exact this.symm.trans x.candidates_eq
  obtain ⟨hstatement, hlater⟩ : d.newBlock target = x.statement ∧ x.later = [] := by
    cases hearlier : x.earlier with
    | nil => simpa [hearlier, eq_comm] using hcandidates
    | cons e earlier => simp [hearlier] at hcandidates
  obtain ⟨before, after, hold, hnew, -, hafter⟩ := items_editAt (d.withBlock target) target x f
  rw [items_withBlock] at hold
  -- Nothing follows the new block: it would be the last of the items, and once more of the target.
  cases after using List.reverseRecOn with
  | nil =>
    obtain ⟨hbefore, -⟩ := List.append_inj' hold rfl
    exact ⟨hstatement.symm, by rw [hnew, hbefore]⟩
  | append_singleton after b =>
    have hlast := congrArg List.getLast? hold
    rw [← List.cons_append, ← List.append_assoc] at hlast
    simp only [List.getLast?_concat, Option.some.injEq] at hlast
    subst hlast
    simp [hlater, newBlock] at hafter

theorem arguments_created {target file : Text} {candidates : List Sources}
    {x : Site d.policy.separator candidates} (statement : x.statement = d.newBlock target) :
    (x.edited (appendFile d.policy.separator file)).arguments =
      ⟨target, needsQuotation target, [], none⟩ ::
        ((Section.opened d.policy.defaultSection d.policy.separator).keyword.toList ++
          [⟨file, needsQuotation file, d.policy.separator, none⟩]) := by
  have hslots : x.statement.slots = [.plain ⟨target, needsQuotation target, [], none⟩] := by
    rw [statement]
    rfl
  rcases x.room_cases with slots | ⟨name, named, -, hleft, hgroup, hright⟩
  · -- The new block has no section yet.
    have hmem : Slot.grouped x.group ∈ x.statement.slots := by simp [slots]
    rw [hslots] at hmem
    simp at hmem
  · have hname : name = d.policy.defaultSection := by
      rw [statement] at named
      simpa [newBlock] using named
    have hlayout : layoutAfter d.policy.separator x.group = d.policy.separator := by
      rw [hgroup]
      rfl
    have hfiles : x.group.files = [] := by
      rw [hgroup]
      rfl
    rw [Site.arguments_edited, arguments_appendFile, hlayout, hleft, hright, hslots,
      Section.arguments, hfiles, hgroup, hname]
    simp [Slot.arguments]

theorem render_created {target file : Text} {candidates : List Sources}
    {x : Site d.policy.separator candidates} (statement : x.statement = d.newBlock target) :
    (x.edited (appendFile d.policy.separator file)).render = blockText d.policy target file := by
  have hcommand : (x.edited (appendFile d.policy.separator file)).command =
      ⟨Classify.targetSources, Classify.targetSources, [], [.char '\n']⟩ := by
    have hnamed : Command.named Classify.targetSources [] [] "\n" =
        ⟨Classify.targetSources, Classify.targetSources, [], [.char '\n']⟩ := by decide
    rw [Site.edited, statement]
    exact hnamed
  rw [Sources.render, hcommand, arguments_created statement]
  simp [Command.render, blockText, render_opened, render_plain]

theorem Unedited.addFile (h : d.Unedited strands tail) (unsorted : d.policy.sorting = false)
    {target file : Text} {hint : Option Text}
    (done : (d.addFile target file hint).result = .ok true) :
    d.Inserts (d.addFile target file hint).state target file := by
  have moved := addFile_moved done
  rcases addFile_editAt d target file hint with ⟨sorting, -⟩ | ⟨hno, -⟩ | ⟨-, -, x, hstate⟩ |
    ⟨-, unlisted, -, x, hstate⟩
  · rw [unsorted] at sorting
    cases sorting
  · rw [done] at hno
    cases hno
  · rw [order_comp unsorted] at hstate
    rw [hstate] at moved ⊢
    exact h.inserts x moved
  · rw [order_comp unsorted] at hstate
    rw [hstate] at moved ⊢
    obtain ⟨hstatement, hitems⟩ :=
      items_created unlisted x (appendFile d.policy.separator file)
    refine .creating unlisted ?_
    rw [← render_created hstatement]
    exact h.appends moved hitems

theorem exists_changed (unsorted : d.policy.sorting = false) {target file : Text}
    {f : Nat → Section → Section} (done : (d.changeFile target file f).result = .ok true) :
    ∃ (x : Site d.policy.separator (d.sourcesOf target)) (before : List Argument) (a : Argument)
      (after : List Argument), x.Finds file before a after ∧
      (d.changeFile target file f).state = d.editAt target x (f before.length) := by
  rcases changeFile_editAt d target file f with ⟨sorting, -⟩ | ⟨hno, -⟩ |
    ⟨-, x, before, a, after, finds, hstate⟩
  · rw [unsorted] at sorting
    cases sorting
  · rw [done] at hno
    cases hno
  · rw [order_comp unsorted] at hstate
    exact ⟨x, before, a, after, finds, hstate⟩

theorem Unedited.removeFile (h : d.Unedited strands tail) (unsorted : d.policy.sorting = false)
    {target file : Text} (done : (d.removeFile target file).result = .ok true) :
    ∃ (x : Site d.policy.separator (d.sourcesOf target)) (before : List Argument) (a : Argument)
      (after : List Argument), x.Finds file before a after ∧
      d.Splices (d.removeFile target file).state x.statement (x.upTo before)
        [] (a.separator ++ a.sourceText) [] := by
  have moved := removeFile_moved done
  rw [removeFile_of_loaded h.loaded] at done moved ⊢
  obtain ⟨x, before, a, after, finds, hstate⟩ := exists_changed unsorted done
  refine ⟨x, before, a, after, finds, ?_⟩
  rw [hstate] at moved ⊢
  have hfiles : (removeAt before.length x.group).files = before ++ [] ++ after := by
    simp [removeAt, finds.files, List.eraseIdx_append_of_length_le]
  refine h.splices x moved finds.arguments (x.arguments_edited_files rfl hfiles) ?_ rfl
  simp [Argument.render]

theorem Unedited.renameFile (h : d.Unedited strands tail) (unsorted : d.policy.sorting = false)
    {target old new : Text} (done : (d.renameFile target old new).result = .ok true) :
    ∃ (x : Site d.policy.separator (d.sourcesOf target)) (before : List Argument) (a : Argument)
      (after : List Argument), x.Finds old before a after ∧
      d.Splices (d.renameFile target old new).state x.statement (x.upTo before)
        a.separator a.sourceText (spelled (a.quoted || needsQuotation new) new) := by
  have moved := renameFile_moved done
  have hnew : new ≠ [] := by
    rintro rfl
    simp [Document.renameFile, h.loaded] at done
  rw [renameFile_of_loaded h.loaded target old hnew] at done moved ⊢
  obtain ⟨x, before, a, after, finds, hstate⟩ := exists_changed unsorted done
  refine ⟨x, before, a, after, finds, ?_⟩
  rw [hstate] at moved ⊢
  have hfiles : (renameAt new before.length x.group).files =
      before ++ [renameArgument new a] ++ after := by
    simp [renameAt, finds.files, modify_split]
  refine h.splices x moved finds.arguments (x.arguments_edited_files rfl hfiles) ?_ ?_
  · simp [Argument.render]
  · simp [renameArgument, Argument.setValue, render_plain]

end Document

/-- In a document that is not marked, and under a policy that does not sort, one edit and a write
change the text in one place: a file is put in, the first file of a name is taken out with the
layout before it, or its spelling is exchanged. -/
theorem single_edit_splices {d : Document} (reachable : d.Reachable) (loaded : d.loaded = true)
    (clean : d.dirty = false) (unsorted : d.policy.sorting = false) (target : Text) :
    (∀ file hint, (d.addFile target file hint).result = .ok true →
      d.Inserts (d.addFile target file hint).state target file) ∧
    (∀ file, (d.removeFile target file).result = .ok true →
      ∃ (x : Site d.policy.separator (d.sourcesOf target)) (before : List Argument) (a : Argument)
        (after : List Argument), x.Finds file before a after ∧
        d.Splices (d.removeFile target file).state x.statement (x.upTo before)
          [] (a.separator ++ a.sourceText) []) ∧
    (∀ old new, (d.renameFile target old new).result = .ok true →
      ∃ (x : Site d.policy.separator (d.sourcesOf target)) (before : List Argument) (a : Argument)
        (after : List Argument), x.Finds old before a after ∧
        d.Splices (d.renameFile target old new).state x.statement (x.upTo before)
          a.separator a.sourceText (spelled (a.quoted || needsQuotation new) new)) := by
  obtain ⟨strands, tail, h⟩ := reachable.unedited loaded clean
  refine ⟨?_, ?_, ?_⟩
  · intro file hint done
    exact h.addFile unsorted done
  · intro file done
    exact h.removeFile unsorted done
  · intro old new done
    exact h.renameFile unsorted done

theorem single_edit_splices_read :
    let d := (Document.ofBuffer (.ofString "# a\r\nadd_library(a b.c)\nfoo()") {}).state
    d.Inserts (d.addFile "a" "c.c" none).state "a" "c.c" ∧
    d.Inserts (d.addFile "n" "m.c" none).state "n" "m.c" ∧
    (∃ (x : Site d.policy.separator (d.sourcesOf "a")) (before : List Argument) (a : Argument)
      (after : List Argument), x.Finds "b.c" before a after ∧
      d.Splices (d.removeFile "a" "b.c").state x.statement (x.upTo before)
        [] (a.separator ++ a.sourceText) []) ∧
    ∃ (x : Site d.policy.separator (d.sourcesOf "a")) (before : List Argument) (a : Argument)
      (after : List Argument), x.Finds "b.c" before a after ∧
      d.Splices (d.renameFile "a" "b.c" "d e.c").state x.statement (x.upTo before)
        a.separator a.sourceText (spelled (a.quoted || needsQuotation "d e.c") "d e.c") := by
  intro d
  have reachable : d.Reachable := .opened _ _ (by decide +kernel)
  have listed := single_edit_splices reachable (by decide +kernel) (by decide +kernel)
    (by decide +kernel) "a"
  have unlisted := single_edit_splices reachable (by decide +kernel) (by decide +kernel)
    (by decide +kernel) "n"
  refine ⟨?_, ?_, ?_, ?_⟩
  · exact listed.1 "c.c" none (by decide +kernel)
  · exact unlisted.1 "m.c" none (by decide +kernel)
  · exact listed.2.1 "b.c" (by decide +kernel)
  · exact listed.2.2 "b.c" "d e.c" (by decide +kernel)

end Listfile
