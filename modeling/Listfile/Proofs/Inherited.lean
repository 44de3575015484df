import Listfile.Proofs.Atomic
import Listfile.Proofs.Comments
import Listfile.Proofs.Reading

/-!
The layout that a new file inherits from the file before it. It is cut from the last line break on,
wherever that stands. Line comments are left out in this way, for a line break ends each of them. A
bracket comment needs none: where it stands on the last line, or ends there, it is repeated in whole
or in part, and the part is read as arguments. Without one the new file brings blanks and itself.
-/

namespace Listfile

open Scan Parse

def Token.trailsComment : List Token → Bool
  | [] => false
  | token :: rest =>
    (token.kind = .commentBracket && !(Token.textOf rest).contains (.char '\n')) ||
      trailsComment rest

/-- Layout of several lines with a bracket comment, or the end of one, on the last of them. -/
def Text.EndsInComment (t : Text) : Prop :=
  .char '\n' ∈ t ∧ Token.trailsComment (Token.scan t) = true

instance (t : Text) : Decidable t.EndsInComment :=
  inferInstanceAs (Decidable (.char '\n' ∈ t ∧ Token.trailsComment (Token.scan t) = true))

/-- The file after which an addition puts its file. -/
def Document.predecessor? (d : Document) (target file : Text) (hint : Option Text) :
    Option Argument :=
  ((Operation.add target file hint).reached? d).bind fun p => p.1.files.getLast?

section Layout

theorem Layout.blank {t : Text} (h : Layout t) (plain : .char '#' ∉ t) : t.Blank := by
  induction t using token_induction with
  | nil => simp [Text.Blank]
  | cons g body cont k hk ih =>
    have hrest := ih (h.rest hk) fun hmem => plain (by simp [hmem])
    have hsharp : g ≠ .char '#' := fun e => plain (by simp [e])
    have hsep : k.isSeparator = true := by
      apply h.separators
      rw [kinds_token hk]
      exact List.mem_cons_self
    have hlexed := lexed_of_lexeme hk
    generalize hn : body.length + 1 = n at hlexed
    have hfirst : ∀ x ∈ g :: body, x.isSpace = true ∨ x = .char '\n' := by
      cases hlexed with
      | space _ => exact fun x hx => Or.inl (spaces_of_lexeme hk x hx)
      | newline hg =>
        rw [List.eq_nil_of_length_eq_zero (Nat.succ.inj hn)]
        simp [hg]
      | commentBracket hg _ => exact absurd hg hsharp
      | commentLine hg _ => exact absurd hg hsharp
      | _ => cases hsep
    intro x hx
    rw [← List.cons_append, List.mem_append] at hx
    exact hx.elim (hfirst x) (hrest x)

/-- Layout either has a bracket comment that no line break follows, and ends in its bracket and what
stands after that, or it ends in blanks. -/
theorem Layout.ends_cases {t : Text} (h : Layout t) (p : Position) :
    (Token.trailsComment (tokensFrom p 0 t) = true ∧
      ∃ u v, t = u ++ .char ']' :: v ∧ .char '#' ∈ u ∧ .char '\n' ∉ v) ∨
    (Token.trailsComment (tokensFrom p 0 t) = false ∧
      ((∀ g ∈ t, g.isSpace = true) ∨
        ∃ u v, t = u ++ .char '\n' :: v ∧ ∀ g ∈ v, g.isSpace = true)) := by
  induction t using token_induction generalizing p with
  | nil => exact Or.inr ⟨rfl, Or.inl (by simp)⟩
  | cons g body cont k hk ih =>
    have hcont := h.rest hk
    obtain ⟨separators, ended⟩ := h
    rw [kinds_token hk] at separators ended
    rw [tokensFrom_token p hk, Token.trailsComment, textOf_tokensFrom]
    rcases ih hcont (p.advance (g :: body)) with ⟨trails, u, v, rfl, hsharp, hv⟩ | ⟨free, hends⟩
    · exact Or.inl ⟨by simp [trails], g :: (body ++ u), v, by simp, by simp [hsharp], hv⟩
    rcases hends with hspaces | ⟨u, v, rfl, hv⟩
    swap
    · exact Or.inr ⟨by simp [free], Or.inr ⟨g :: (body ++ u), v, by simp, hv⟩⟩
    -- Blanks follow, so what the layout ends in is for its first token to say.
    have hunbroken : .char '\n' ∉ cont := fun hmem => absurd (hspaces _ hmem) (by decide)
    have hlexed := lexed_of_lexeme hk
    generalize hn : body.length + 1 = n at hlexed
    cases hlexed with
    | space hg =>
      refine Or.inr ⟨by simp [free], Or.inl fun x hx => ?_⟩
      rw [← List.cons_append, List.mem_append] at hx
      exact hx.elim (spaces_of_lexeme hk x) (hspaces x)
    | newline hg =>
      refine Or.inr ⟨by simp [free], Or.inr ⟨[], cont, ?_, hspaces⟩⟩
      rw [hg, List.eq_nil_of_length_eq_zero (Nat.succ.inj hn)]
      rfl
    | commentLine hg _ =>
      -- It is not the last token, so the blanks would start with a line break.
      have hfits := (lexeme_of_append hk rfl hcont.good.head?_ne).2
      cases cont with
      | nil => simp [kinds_nil] at ended
      | cons x cont =>
        have hx := hfits x rfl
        subst hx
        exact absurd List.mem_cons_self hunbroken
    | commentBracket hg hlen =>
      have hwhole := lexed_of_lexeme (lexeme_of_append hk rfl hcont.good.head?_ne).1
      have hclosed : body.getLast? = some (.char ']') := by
        generalize hm : body.length + 1 = m at hwhole
        cases hwhole with
        | commentBracket _ hbody =>
          rw [← Nat.succ.inj hm] at hbody
          exact getLast?_bracket hbody
      obtain ⟨front, rfl⟩ := List.getLast?_eq_some_iff.mp hclosed
      exact Or.inl ⟨by simp [hunbroken], g :: front, cont, by simp, by simp [hg], hunbroken⟩
    | _ => cases separators _ List.mem_cons_self

/-- What is inherited from layout is blank unless a bracket comment stands on its last line. -/
theorem blank_inheritSeparator_iff {t : Text} (h : Layout t) :
    (inheritSeparator t).Blank ↔ ¬ t.EndsInComment := by
  rcases h.ends_cases .start with ⟨trails, u, v, rfl, hsharp, hv⟩ | ⟨free, hends⟩
  · have hcomment : Section.hasComment (u ++ .char ']' :: v) = true := by
      simp [Section.hasComment, hsharp]
    by_cases hbreak : .char '\n' ∈ u
    · -- The part from the last line break on has the closing bracket.
      obtain ⟨line, before, hu, hline⟩ :=
        List.eq_append_cons_of_mem (List.mem_reverse.mpr hbreak)
      have hsplit : u ++ .char ']' :: v =
          before.reverse ++ .char '\n' :: (line.reverse ++ .char ']' :: v) := by
        rw [← List.reverse_reverse u, hu]
        simp
      have hlast : Glyph.char '\n' ∉ line.reverse ++ .char ']' :: v := by
        simp [hline, hv]
      refine iff_of_false (fun blank => ?_) fun quiet => quiet ⟨by simp [hbreak], trails⟩
      rw [inheritSeparator, if_pos hcomment, hsplit, lastIndexOf?_append hlast] at blank
      exact absurd (blank (.char ']') (by simp)) (by decide)
    · have hnone : Glyph.char '\n' ∉ u ++ .char ']' :: v := by
        simp [hbreak, hv]
      rw [inheritSeparator, if_pos hcomment, lastIndexOf?_eq_none hnone]
      have hspace : Text.Blank " " := by decide
      exact iff_of_true hspace fun ends => hnone ends.1
  · have hquiet : ¬ t.EndsInComment := by
      rintro ⟨-, trails⟩
      rw [Token.scan, free] at trails
      cases trails
    refine iff_of_true ?_ hquiet
    unfold inheritSeparator
    split
    · next hcomment =>
      have hsharp : Glyph.char '#' ∈ t := by simpa [Section.hasComment] using hcomment
      rcases hends with hspaces | ⟨u, v, rfl, hv⟩
      · exact absurd (hspaces _ hsharp) (by decide)
      · have hnewline : Glyph.char '\n' ∉ v := fun hmem => absurd (hv _ hmem) (by decide)
        rw [lastIndexOf?_append hnewline]
        intro g hg
        simp only [List.drop_left, List.mem_cons] at hg
        exact hg.elim Or.inr fun hg => Or.inl (hv g hg)
    · next hplain =>
      split
      · decide
      · exact h.blank (by simpa [Section.hasComment] using hplain)

end Layout

namespace Document

variable {d : Document} {target file : Text} {hint : Option Text} {last : Argument}

theorem standing_of_getLast? {separator : Text} {candidates : List Sources}
    {x : Site separator candidates} (h : x.group.files.getLast? = some last) :
    x.statement.slots = x.left ++ .grouped x.group :: x.right := by
  rcases x.room_cases with standing | ⟨name, -, -, -, hgroup, -⟩
  · exact standing
  · rw [hgroup] at h
    cases h

theorem addition?_eq {choice : Choice} {chosen : List Event}
    {x : Site d.policy.separator (d.sourcesOf target)}
    (choose : Placement.choose (d.sourcesOf target) file (d.preferredSection? hint) =
      .ok (choice, chosen))
    (at_ : x.At (Placement.settle (d.sourcesOf target) choice d.policy.separator).1
      (Placement.settle (d.sourcesOf target) choice d.policy.separator).2) :
    d.addition? target file hint = some (x.group, appendFile d.policy.separator file x.group) := by
  simp only [addition?, choose, at_.section?, Option.map_some]

theorem exists_predecessor (h : d.predecessor? target file hint = some last) :
    d.loaded = true ∧ ∃ (place : Address) (chosen : List Event)
      (x : Site d.policy.separator (d.sourcesOf target)),
      Placement.choose (d.sourcesOf target) file (d.preferredSection? hint) =
        .ok (.existing place, chosen) ∧
      x.At (d.sourcesOf target) place ∧ x.group.files.getLast? = some last ∧
      d.Changes target x (appendFile d.policy.separator file) (d.addFile target file hint) := by
  rw [predecessor?, Operation.reached?] at h
  split at h
  · cases h
  next hadmitted =>
  simp only [not_or, not_and, Bool.not_eq_false] at hadmitted
  obtain ⟨hloaded, hfile, -⟩ := hadmitted
  by_cases hnil : d.sourcesOf target = []
  · -- The section would stand in a block that was just created, and that has none.
    rw [prepared_of_nil hnil] at h
    have hsome : (d.withBlock target).sourcesOf target ≠ [] := by simp [sourcesOf_withBlock]
    obtain ⟨choice, chosen, hchoose, x, hat, -⟩ := addTo_changes hsome file hint []
    rw [addition?_eq hchoose hat] at h
    have standing := standing_of_getLast? h
    rw [(items_created hnil x id).1] at standing
    have hmem : Slot.grouped x.group ∈ (d.newBlock target).slots := by simp [standing]
    simp [newBlock] at hmem
  · rw [prepared_of_ne hnil] at h
    obtain ⟨choice, chosen, hchoose, x, hat, changes⟩ := addTo_changes hnil file hint []
    rw [addition?_eq hchoose hat] at h
    cases choice with
    | existing place =>
      refine ⟨hloaded, place, chosen, x, hchoose, hat, h, ?_⟩
      simpa [addFile, hloaded, hfile, hnil] using changes
    | fresh n name =>
      obtain ⟨_, -, -, hopened, -⟩ := hat.opened
      rw [Option.bind_some, hopened] at h
      cases h

theorem perm_layouts_editAt {separator : Text} {x : Site separator (d.sourcesOf target)}
    {f : Section → Section} {layout : Text}
    (standing : x.statement.slots = x.left ++ .grouped x.group :: x.right)
    (keyword : (f x.group).keyword = x.group.keyword)
    (files : ((f x.group).files.map (·.separator)).Perm
      (layout :: x.group.files.map (·.separator))) :
    (d.editAt target x f).layouts.Perm (layout :: d.layouts) := by
  obtain ⟨before, after, hitems, hedited, -, -⟩ := d.items_editAt target x f
  have hcommand : (x.edited f).command = x.statement.command := rfl
  have hstood : x.statement.arguments = x.left.flatMap Slot.arguments ++
      x.group.arguments ++ x.right.flatMap Slot.arguments := by
    rw [Sources.arguments, standing]
    simp [Slot.arguments]
  rw [List.perm_iff_count]
  intro t
  have hcount := files.count_eq t
  simp only [layouts, hitems, hedited, List.flatMap_append, List.flatMap_cons, Statement.layouts,
    Block.statement, hcommand, x.arguments_edited, hstood, Section.arguments, keyword,
    List.map_append, List.count_append, List.count_cons] at hcount ⊢
  omega

theorem layouts_of_predecessor (h : d.predecessor? target file hint = some last)
    (done : (d.addFile target file hint).result = .ok true) :
    (d.addFile target file hint).state.layouts.Perm
      (inheritSeparator last.separator :: d.layouts) := by
  obtain ⟨-, place, chosen, x, -, -, hlast, changes⟩ := exists_predecessor h
  cases changes with
  | stuck _ _ answer _ =>
    rw [done] at answer
    cases answer
  | done _ _ state =>
    rw [state]
    refine perm_layouts_editAt (standing_of_getLast? hlast) (d.policy.order_keeps _).2 ?_
    refine (Section.separators_order _ _).trans ?_
    simp only [appendFile, hlast, List.map_append, List.map_cons, List.map_nil]
    exact List.perm_append_singleton _ _

end Document

section Separator

/-- The document under a policy with another separator. Only new sections have use for it. -/
def Document.withSeparator (d : Document) (separator : Text) : Document :=
  { d with policy := { d.policy with separator := separator } }

def Site.standing {candidates : List Sources} {separator : Text} (x : Site separator candidates)
    (slots : x.statement.slots = x.left ++ .grouped x.group :: x.right) (other : Text) :
    Site other candidates :=
  { x with room := .standing slots }

namespace Document

theorem ofBuffer_withSeparator (buffer : Buffer) (policy : Policy) (separator : Text) :
    (ofBuffer buffer { policy with separator := separator }).state =
      (ofBuffer buffer policy).state.withSeparator separator := by
  unfold ofBuffer reload
  simp only
  split <;> rfl

theorem write_withSeparator (d : Document) (separator : Text) :
    (d.withSeparator separator).write.result = d.write.result := by
  have hdraft : (d.withSeparator separator).draft? = d.draft? := rfl
  have hloaded : (d.withSeparator separator).loaded = d.loaded := rfl
  rw [write, write, hdraft, hloaded]
  by_cases loaded : d.loaded = true
  · rw [if_pos loaded, if_pos loaded]
    cases d.draft? <;> rfl
  · rw [if_neg loaded, if_neg loaded]
    rfl

theorem exists_fresh {environment : List (Text × Text)} {data : List (Value × Value)}
    {settings : Settings} (configured : Settings.ofData environment data = .ok settings)
    {key : Text → Text} {buffer : Buffer}
    (loaded : (ofBuffer buffer (settings.policy key)).state.loaded = true) :
    ∃ gaps tail,
      ((ofBuffer buffer (settings.policy key)).state.withSeparator defaultSeparator).Fresh
        gaps tail ∧
      Reads buffer.content
        ((ofBuffer buffer (settings.policy key)).state.items.map Block.statement) := by
  have hdefault : defaultSeparator ≠ [] ∧ defaultSeparator.Blank := by decide
  have sound : Policy.Sound { settings.policy key with separator := defaultSeparator } :=
    ⟨Settings.keyword_ofData configured, hdefault.1, hdefault.2⟩
  have hopened := ofBuffer_withSeparator buffer (settings.policy key) defaultSeparator
  have hloaded : (ofBuffer buffer { settings.policy key with
      separator := defaultSeparator }).state.loaded = true := by
    rw [hopened]
    exact loaded
  obtain ⟨gaps, tail, fresh, reads⟩ := fresh_ofBuffer sound hloaded
  rw [hopened] at fresh reads
  exact ⟨gaps, tail, fresh, reads⟩

theorem appendFile_of_getLast? {g : Section} {last : Argument}
    (h : g.files.getLast? = some last) (separator other file : Text) :
    appendFile separator file g = appendFile other file g := by
  simp only [appendFile, h]

theorem splice?_of_predecessor {d : Document} {target file : Text} {hint : Option Text}
    {place : Address} {chosen : List Event} {x : Site d.policy.separator (d.sourcesOf target)}
    {last : Argument}
    (choose : Placement.choose (d.sourcesOf target) file (d.preferredSection? hint) =
      .ok (.existing place, chosen))
    (at_ : x.At (d.sourcesOf target) place) (h : x.group.files.getLast? = some last) :
    (Operation.add target file hint).splice? d =
      some ⟨x.left.flatMap Slot.arguments ++ x.group.arguments, [],
        [⟨file, needsQuotation file, inheritSeparator last.separator, none⟩],
        x.right.flatMap Slot.arguments⟩ := by
  simp only [Operation.splice?, additionSplice?, choose, Placement.settle, at_.divide?,
    Option.map_some, addedFile, layoutAfter, h]

end Document

theorem Operation.Rewrites.of_withSeparator {d : Document} {separator : Text} {op : Operation}
    {old new : List Statement} (h : op.Rewrites (d.withSeparator separator) old new) :
    op.Rewrites d old new := by
  cases h with
  | inserts hexchange => exact .inserts hexchange
  | opens hkeyword hexchange => exact .opens hkeyword hexchange
  | creates unlisted hname hreadings hnew => exact .creates unlisted hname hreadings hnew
  | renames hexchange => exact .renames hexchange
  | removes hexchange => exact .removes hexchange

end Separator

namespace Document

variable {environment : List (Text × Text)} {data : List (Value × Value)} {settings : Settings}
  {key : Text → Text} {buffer : Buffer} {target file : Text} {hint : Option Text} {last : Argument}

theorem layout_of_predecessor (configured : Settings.ofData environment data = .ok settings)
    (loaded : (ofBuffer buffer (settings.policy key)).state.loaded = true)
    (h : (ofBuffer buffer (settings.policy key)).state.predecessor? target file hint = some last) :
    Layout last.separator := by
  obtain ⟨gaps, tail, fresh, -⟩ := exists_fresh configured loaded
  obtain ⟨-, place, chosen, x, -, -, hlast, -⟩ := exists_predecessor h
  have hmem : last ∈ x.statement.arguments := by
    rw [Sources.arguments, standing_of_getLast? hlast]
    simp [Slot.arguments, Section.arguments, List.mem_of_getLast? hlast]
  exact (fresh.legible _ (Fresh.listing_mem x)).layout last hmem

/-- A file that goes after another one, on layout without a comment on its last line, is all that
the edit brings, as a reader of the written file sees it. -/
theorem readBack_of_predecessor (configured : Settings.ofData environment data = .ok settings)
    (unsorted : settings.sort = false)
    (loaded : (ofBuffer buffer (settings.policy key)).state.loaded = true)
    (h : (ofBuffer buffer (settings.policy key)).state.predecessor? target file hint = some last)
    (quiet : ¬ last.separator.EndsInComment) (simple : file.Simple)
    (apart : ∀ p ∈ (Operation.add target file hint).splice?
        (ofBuffer buffer (settings.policy key)).state,
      ∀ a ∈ (p.front ++ p.given).getLast?, ∀ b ∈ p.back.head?, ¬ a.RunsInto b) :
    (Operation.add target file hint).ReadBack (ofBuffer buffer (settings.policy key)).state := by
  have hlayout := layout_of_predecessor configured loaded h
  have hpolicy := ofBuffer_policy buffer (settings.policy key)
  obtain ⟨gaps, tail, fresh, reads⟩ := exists_fresh configured loaded
  have hcontent := (ofBuffer_buffer buffer (settings.policy key)).1
  generalize (ofBuffer buffer (settings.policy key)).state = d at *
  have hsorting : d.policy.sorting = false := by
    rw [hpolicy]
    exact unsorted
  obtain ⟨-, place, chosen, x, choose, at_, hlast, changes⟩ := exists_predecessor h
  let e := d.withSeparator defaultSeparator
  let y : Site e.policy.separator (e.sourcesOf target) :=
    x.standing (standing_of_getLast? hlast) defaultSeparator
  have hat : y.At (e.sourcesOf target) place := ⟨at_.statements, at_.statement, at_.sectionIndex⟩
  have clear : (Operation.add target file hint).Clear e := by
    intro p hp
    rw [splice?_of_predecessor (d := e) (x := y) choose hat hlast] at hp
    cases hp
    refine ⟨by simp, ?_, apart _ (splice?_of_predecessor choose at_ hlast)⟩
    have hblank := (blank_inheritSeparator_iff hlayout).mpr quiet
    simpa using (hblank.spacing (inheritSeparator_ne_nil _)).layout
  cases changes with
  | stuck sorting _ _ _ =>
    rw [hsorting] at sorting
    cases sorting
  | done _ answer state =>
    rw [order_comp hsorting] at state
    have hedited : e.editAt target y (appendFile e.policy.separator file) =
        (d.editAt target x (appendFile d.policy.separator file)).withSeparator
          defaultSeparator := by
      have hsection : appendFile e.policy.separator file y.group =
          appendFile d.policy.separator file x.group := appendFile_of_getLast? hlast _ _ _
      simp only [editAt, Site.edited, hsection]
      rfl
    have moved := addFile_moved answer
    rw [state] at moved
    have hmoved : e.Moved (e.editAt target y (appendFile e.policy.separator file)) := by
      rw [hedited]
      exact ⟨moved.buffer, moved.loaded, moved.spans, moved.blocks⟩
    have written := fresh.inserts choose hat simple clear hmoved
    rw [hedited] at written
    obtain ⟨bytes, statements, hresult, hreads, rewrites⟩ := written
    refine ⟨_, by rw [hcontent]; exact reads, bytes, statements, ?_, hreads,
      rewrites.of_withSeparator⟩
    rw [Operation.apply, state, ← write_withSeparator]
    exact hresult

end Document

theorem Text.Blank.comments {t : Text} (h : t.Blank) : t.comments = [] := by
  apply Token.comments_eq_nil
  intro token htoken
  rcases h.kinds token.kind (List.mem_map_of_mem htoken) with hk | hk <;> rw [hk] <;> rfl

/-- What a file inherits as its layout is never empty, and it is blank exactly if no bracket comment
stands on the last of several lines. A file that is added after another one brings this layout and
no other. If that is blank, no comment or part of one is repeated, and a reader of the written file
finds one argument more, the file, unless it runs into what follows. -/
theorem inherited_layout_blank_iff (target file : Text) (hint : Option Text) (last : Argument) :
    (∀ (t : Text) (statements : List (Placed Statement)), Statement.parse t = .ok statements →
      ∀ p ∈ statements, ∀ a ∈ p.item.arguments, inheritSeparator a.separator ≠ [] ∧
        ((inheritSeparator a.separator).Blank ↔ ¬ a.separator.EndsInComment)) ∧
    (∀ d : Document, d.predecessor? target file hint = some last →
      (d.addFile target file hint).result = .ok true →
      (d.addFile target file hint).state.layouts.Perm
        (inheritSeparator last.separator :: d.layouts)) ∧
    ∀ (environment : List (Text × Text)) (data : List (Value × Value)) (settings : Settings),
      Settings.ofData environment data = .ok settings → ∀ (key : Text → Text) (buffer : Buffer),
      let d := (Document.ofBuffer buffer (settings.policy key)).state
      d.loaded = true → d.predecessor? target file hint = some last →
      ¬ last.separator.EndsInComment →
      ((d.addFile target file hint).result = .ok true →
        ((d.addFile target file hint).state.layouts.flatMap Text.comments).Perm
          (d.layouts.flatMap Text.comments)) ∧
      (settings.sort = false → file.Simple →
        (∀ p ∈ (Operation.add target file hint).splice? d, ∀ a ∈ (p.front ++ p.given).getLast?,
          ∀ b ∈ p.back.head?, ¬ a.RunsInto b) →
        (Operation.add target file hint).ReadBack d) := by
  refine ⟨?_, ?_, ?_⟩
  · intro t statements parsed p hp a ha
    obtain ⟨gaps, tail, -, -, -, -, legible⟩ := frame_of_parse parsed
    exact ⟨inheritSeparator_ne_nil _, blank_inheritSeparator_iff ((legible p hp).1.layout a ha)⟩
  · intro d after done
    exact Document.layouts_of_predecessor after done
  · intro environment data settings configured key buffer d loaded after quiet
    refine ⟨fun done => ?_, fun unsorted simple apart =>
      Document.readBack_of_predecessor configured unsorted loaded after quiet simple apart⟩
    have hlayout := Document.layout_of_predecessor configured loaded after
    have hblank := (blank_inheritSeparator_iff hlayout).mpr quiet
    have hperm := (Document.layouts_of_predecessor after done).flatMap_right Text.comments
    rwa [List.flatMap_cons, hblank.comments, List.nil_append] at hperm

/-- The line comment and the bracket comment before the last line break are left out. -/
theorem inherited_layout_blank_iff_lines :
    let d := (Document.ofBuffer
      (.ofString "add_library(a #[[\n]] b.c # first\n #[[ c ]]\n\t z.c)") {}).state
    (∃ last, d.predecessor? "a" "x.c" none = some last ∧ ¬ last.separator.EndsInComment) ∧
      ((d.addFile "a" "x.c" none).state.layouts.flatMap Text.comments).Perm
        (d.layouts.flatMap Text.comments) ∧
      (Operation.add "a" "x.c" none).ReadBack d := by
  intro d
  have configured : Settings.ofData [] [] = .ok {} := by decide +kernel
  obtain ⟨loaded, ⟨last, after, quiet⟩, done, simple, apart⟩ : d.loaded = true ∧
      (∃ last ∈ d.predecessor? "a" "x.c" none, ¬ last.separator.EndsInComment) ∧
      (d.addFile "a" "x.c" none).result = .ok true ∧ Text.Simple "x.c" ∧
      ∀ p ∈ (Operation.add "a" "x.c" none).splice? d, ∀ a ∈ (p.front ++ p.given).getLast?,
        ∀ b ∈ p.back.head?, ¬ a.RunsInto b := by
    decide +kernel
  obtain ⟨comments, readBack⟩ := (inherited_layout_blank_iff "a" "x.c" none last).2.2 [] [] {}
    configured id _ loaded after quiet
  exact ⟨⟨last, after, quiet⟩, comments done, readBack rfl simple apart⟩

/-- A bracket comment on the last line is repeated, and the end of one is repeated as arguments. -/
theorem inherited_comment_repeated :
    let whole := (Document.ofBuffer (.ofString "add_library(a\n  #[[c]] z.c)") {}).state
    let part := (Document.ofBuffer (.ofString "add_library(a #[[\nb c]] z.c)") {}).state
    (whole.predecessor? "a" "x.c" none).map (·.separator) = some (.ofString "\n  #[[c]] ") ∧
      (whole.addFile "a" "x.c" none).state.write.result =
        .ok (Utf8.encode "add_library(a\n  #[[c]] z.c\n  #[[c]] x.c)") ∧
      (part.predecessor? "a" "x.c" none).map (·.separator) = some (.ofString " #[[\nb c]] ") ∧
      (part.addFile "a" "x.c" none).state.write.result =
        .ok (Utf8.encode "add_library(a #[[\nb c]] z.c\nb c]] x.c)") := by
  decide +kernel

end Listfile
