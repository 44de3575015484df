import Listfile.Proofs.Difference
import Listfile.Proofs.Refinement
import Listfile.Proofs.Sound
import Listfile.Proofs.Surgery
import Mathlib.Data.List.Flatten
import Mathlib.Data.List.Perm.Subperm

/-!
What becomes of the comments of a file. Between statements they are copied; inside a statement they
are part of the layout before an argument or before the closing parenthesis, and edits move that
layout about as a whole. Only a file that is removed takes the layout before it along, and with it
the comments that stand there, whatever they are about.
-/

namespace Listfile

open Scan Parse

def TokenKind.isComment : TokenKind → Bool
  | commentLine | commentBracket => true
  | _ => false

def Token.comments (tokens : List Token) : List Text :=
  (tokens.filter (·.kind.isComment)).map (·.text)

def Text.comments (t : Text) : List Text := Token.comments (Token.scan t)

/-- Texts that stand in a text side by side, in any order. -/
def Text.Holds (t : Text) (parts : List Text) : Prop :=
  ∃ pieces : List Text, pieces.flatten = t ∧ parts.Subperm pieces

/-- The layout of a statement: what stands before its arguments and before its end. -/
def Statement.layouts (s : Statement) : List Text :=
  s.arguments.map (·.separator) ++ [s.command.trailing]

def Document.layouts (d : Document) : List Text :=
  d.items.flatMap fun b => b.statement.layouts

def Document.filesOf (d : Document) (target : Text) : List Argument :=
  (d.sourcesOf target).flatMap fun s => s.sections.flatMap (·.files)

namespace Operation

/-- The layout that an operation takes out with a file. -/
def drops (d : Document) : Operation → List Text
  | remove target file =>
    if d.loaded then
      (((d.filesOf target).find? (·.matchesValue file)).map (·.separator)).toList
    else []
  | _ => []

def dropped (d : Document) : List Operation → List Text
  | [] => []
  | op :: rest => op.drops d ++ dropped (op.apply d).1 rest

end Operation

section Comments

theorem Token.comments_append (xs ys : List Token) :
    comments (xs ++ ys) = comments xs ++ comments ys := by
  simp [comments]

theorem Token.comments_eq_nil {tokens : List Token}
    (h : ∀ t ∈ tokens, t.kind.isComment = false) : comments tokens = [] := by
  rw [comments, List.map_eq_nil_iff, List.filter_eq_nil_iff]
  intro t ht
  simp [h t ht]

theorem comments_tokensFrom (p : Position) (t : Text) :
    Token.comments (tokensFrom p 0 t) = t.comments := by
  suffices h : ∀ q, Token.comments (tokensFrom p 0 t) = Token.comments (tokensFrom q 0 t) from
    h .start
  induction t using token_induction generalizing p with
  | nil => simp [tokensFrom]
  | cons g body cont k h ih =>
    intro q
    have hrest := ih (p.advance (g :: body)) (q.advance (g :: body))
    rw [tokensFrom_token p h, tokensFrom_token q h]
    simp only [Token.comments, List.filter_cons] at hrest ⊢
    split <;> simp [hrest]

theorem isComment_of_word {k : TokenKind} (h : k.isSeparator = false) : k.isComment = false := by
  cases k <;> first | rfl | cases h

theorem comments_parts (p : Position) {arguments : List Argument}
    (words : ∀ a ∈ arguments, a.Spells) :
    Token.comments ((partsFrom p arguments).flatMap Part.tokens) =
      (arguments.map (·.separator)).flatMap Text.comments := by
  induction arguments generalizing p with
  | nil => rfl
  | cons a rest ih =>
    have hword : Token.comments [⟨a.kind, a.sourceText, p.advance a.separator⟩] = [] :=
      Token.comments_eq_nil (by simpa using isComment_of_word (words a List.mem_cons_self).word.1)
    have hrest := ih (p.advance a.render) fun b hb => words b (.tail _ hb)
    rw [partsFrom, List.flatMap_cons, Part.tokens, Token.comments_append, Token.comments_append,
      comments_tokensFrom, hword, hrest, List.append_nil, List.map_cons, List.flatMap_cons]

theorem comments_phrase (p : Position) (gap : Text) {s : Statement} (h : s.Legible) :
    Token.comments (phraseFrom p gap s).tokens =
      gap.comments ++ s.layouts.flatMap Text.comments := by
  have reads := phraseFrom_reads p gap h
  have hhead : Token.comments (phraseFrom p gap s).head = [] := by
    apply Token.comments_eq_nil
    intro t ht
    simp only [Phrase.head, List.cons_append, List.mem_cons, List.mem_append,
      List.not_mem_nil, or_false] at ht
    rcases ht with rfl | ht | rfl
    · rw [reads.name]; rfl
    · rw [reads.leading t ht]; rfl
    · rw [reads.opener]; rfl
  have hcloser : Token.comments [(phraseFrom p gap s).closer] = [] :=
    Token.comments_eq_nil (by simp [reads.closer, TokenKind.isComment])
  rw [Phrase.tokens, Phrase.call, Token.comments_append, Token.comments_append,
    Token.comments_append, Token.comments_append, hhead, hcloser]
  simp only [phraseFrom, comments_tokensFrom, comments_parts _ h.words, Statement.layouts,
    List.flatMap_append, List.flatMap_cons, List.flatMap_nil, List.nil_append, List.append_nil]

theorem comments_phrases (p : Position) {gaps : List Text} {statements : List Statement}
    (len : gaps.length = statements.length) (legible : ∀ s ∈ statements, s.Legible) :
    (Token.comments (phraseTokens (phrasesFrom p gaps statements))).Perm
      (gaps.flatMap Text.comments ++
        (statements.flatMap Statement.layouts).flatMap Text.comments) := by
  induction gaps generalizing p statements with
  | nil =>
    rw [List.eq_nil_of_length_eq_zero len.symm]
    exact .refl _
  | cons gap gaps ih =>
    cases statements with
    | nil => simp at len
    | cons s rest =>
      have hs := comments_phrase p gap (legible s List.mem_cons_self)
      have hrest := ih (p.advance (gap ++ s.render)) (by simpa using len)
        fun t ht => legible t (.tail _ ht)
      have hcons : phraseTokens (phrasesFrom p (gap :: gaps) (s :: rest)) =
          (phraseFrom p gap s).tokens ++
            phraseTokens (phrasesFrom (p.advance (gap ++ s.render)) gaps rest) := by
        simp [phrasesFrom, phraseTokens]
      rw [hcons, Token.comments_append, hs, List.flatMap_cons, List.flatMap_cons,
        List.flatMap_append, List.append_assoc, List.append_assoc]
      refine List.Perm.append_left _ ((hrest.append_left _).trans ?_)
      rw [← List.append_assoc, ← List.append_assoc]
      exact List.perm_append_comm.append_right _

end Comments

namespace Text.Holds

variable {s t : Text} {xs ys : List Text}

theorem nil (t : Text) : t.Holds [] := ⟨[t], by simp, by simp⟩

theorem append (h : s.Holds xs) (k : t.Holds ys) : Text.Holds (s ++ t) (xs ++ ys) := by
  obtain ⟨pieces, rfl, hxs⟩ := h
  obtain ⟨others, rfl, hys⟩ := k
  exact ⟨pieces ++ others, by simp, hxs.append hys⟩

theorem perm (h : t.Holds xs) (p : ys.Perm xs) : t.Holds ys := by
  obtain ⟨pieces, rfl, hxs⟩ := h
  exact ⟨pieces, rfl, p.subperm.trans hxs⟩

theorem comments (t : Text) : t.Holds t.comments := by
  refine ⟨(Token.scan t).map (·.text), ?_, ?_⟩
  · rw [← List.flatMap_def]
    exact Token.textOf_scan t
  · exact (List.filter_sublist.map _).subperm

theorem flatMap {α : Type} {l : List α} {f : α → Text} {g : α → List Text}
    (h : ∀ a ∈ l, (f a).Holds (g a)) : Text.Holds (l.flatMap f) (l.flatMap g) := by
  induction l with
  | nil => exact nil []
  | cons a l ih =>
    exact (h a List.mem_cons_self).append (ih fun b hb => h b (.tail _ hb))

end Text.Holds

theorem Statement.holds_render (s : Statement) :
    s.render.Holds (s.layouts.flatMap Text.comments) := by
  have hargument : ∀ a ∈ s.arguments, a.render.Holds a.separator.comments := by
    intro a _
    have := (Text.Holds.comments a.separator).append (.nil a.sourceText)
    rwa [List.append_nil] at this
  have hrest := (Text.Holds.comments s.command.trailing).append (.nil [.char ')'])
  have hwhole := (Text.Holds.nil (s.command.spelling ++ s.command.leading ++ [.char '('])).append
    ((Text.Holds.flatMap hargument).append hrest)
  have htext : s.render = s.command.spelling ++ s.command.leading ++ [.char '('] ++
      (s.arguments.flatMap Argument.render ++ (s.command.trailing ++ [.char ')'])) := by
    simp [Statement.render, Command.render]
  rw [htext]
  refine hwhole.perm (.of_eq ?_)
  simp [Statement.layouts, List.flatMap_map]

namespace Strand

theorem holds_refresh {strands : List Strand} {blocks : List (Placed Block)}
    (len : strands.length = blocks.length) :
    (weave (refresh strands blocks)).Holds ((strands.map (·.gap)).flatMap Text.comments ++
      (blocks.flatMap fun b => b.item.statement.layouts).flatMap Text.comments) := by
  induction strands generalizing blocks with
  | nil =>
    rw [List.eq_nil_of_length_eq_zero len.symm]
    exact .nil []
  | cons s rest ih =>
    cases blocks with
    | nil => simp at len
    | cons b blocks =>
      have hpiece := b.item.statement.holds_render
      rw [Block.render_statement] at hpiece
      have hwhole := ((Text.Holds.comments s.gap).append hpiece).append
        (ih (by simpa using len))
      have htext : weave (refresh (s :: rest) (b :: blocks)) =
          s.gap ++ b.item.render ++ weave (refresh rest blocks) := by
        simp [refresh]
      rw [htext]
      refine hwhole.perm ?_
      rw [List.map_cons, List.flatMap_cons, List.flatMap_cons, List.flatMap_append,
        List.append_assoc, List.append_assoc]
      refine List.Perm.append_left _ ?_
      rw [← List.append_assoc, ← List.append_assoc]
      exact List.perm_append_comm.append_right _

theorem holds_createdText (before : Text) (pending : List Sources) :
    (createdText before pending).Holds
      ((pending.flatMap fun s => (Block.listing s).statement.layouts).flatMap Text.comments) := by
  unfold createdText
  split
  · next hnil =>
    rw [hnil]
    exact .nil []
  · have hblock : ∀ s ∈ pending, Text.Holds (s.render ++ [.char '\n'])
        ((Block.listing s).statement.layouts.flatMap Text.comments) := by
      intro s _
      have := (Block.listing s).statement.holds_render.append (.nil [.char '\n'])
      rwa [List.append_nil] at this
    have hwhole := (Text.Holds.nil (breakAfter before)).append (Text.Holds.flatMap hblock)
    rwa [List.nil_append, ← List.flatMap_assoc] at hwhole

end Strand

theorem subperm_of_count {l k : List Text} (h : ∀ t, l.count t ≤ k.count t) : l.Subperm k :=
  List.subperm_ext_iff.mpr fun t _ => h t

namespace Section

/-- Sorting exchanges layout between files, and loses none. -/
theorem separators_restoreLayout {first : Argument} {rest : List Argument}
    {sorted : List (Nat × Argument)} (h : sorted.Perm ((first :: rest).mapIdx Prod.mk)) :
    ((restoreLayout first sorted).map (·.separator)).Perm
      ((first :: rest).map (·.separator)) := by
  have moved : ((sorted.map (·.2)).map (·.separator)).Perm ((first :: rest).map (·.separator)) := by
    have := (h.map (·.2)).map (·.separator)
    rwa [map_numbered] at this
  fun_cases restoreLayout first sorted with
  | case1 => exact moved
  | case2 a others => exact moved
  | case3 n a others _ => exact moved
  | case4 n a others _ =>
    -- The file that was first stands among the others, and no other of them has its number.
    rw [List.mapIdx_cons] at h
    have hmem : (0, first) ∈ others := by
      have := h.symm.subset List.mem_cons_self
      simpa using this
    obtain ⟨front, back, rfl⟩ := List.append_of_mem hmem
    have hrest : ((n + 1, a) :: (front ++ back)).Perm (rest.mapIdx fun i b => (i + 1, b)) := by
      have hfront : ((n + 1, a) :: (front ++ (0, first) :: back)).Perm
          ((0, first) :: (n + 1, a) :: (front ++ back)) :=
        (List.perm_middle.cons _).trans (.swap _ _ _)
      exact (hfront.symm.trans h).cons_inv
    have numbered : ∀ p ∈ front ++ back, p.1 ≠ 0 := by
      intro p hp
      obtain ⟨i, hi, heq⟩ := List.mem_mapIdx.mp (hrest.subset (.tail _ hp))
      simp [← heq]
    have same : ∀ part : List (Nat × Argument), (∀ p ∈ part, p.1 ≠ 0) →
        (part.map fun p => if p.1 = 0 then { p.2 with separator := a.separator } else p.2).map
          (·.separator) = (part.map (·.2)).map (·.separator) := by
      intro part hpart
      rw [List.map_map, List.map_map]
      apply List.map_congr_left
      intro p hp
      simp [hpart p hp]
    have hvalues : ((rest.mapIdx fun i b => (i + 1, b)).map (·.2)).map (·.separator) =
        rest.map (·.separator) := by
      simp [List.mapIdx_eq_zipIdx_map, Function.comp_def]
    have hmoved := (hrest.map (·.2)).map (·.separator)
    rw [hvalues] at hmoved
    simp only [List.map_cons, List.map_append, if_true,
      same front fun p hp => numbered p (List.mem_append_left _ hp),
      same back fun p hp => numbered p (List.mem_append_right _ hp)] at hmoved ⊢
    exact (List.perm_middle.trans hmoved).cons _

theorem separators_order (p : Policy) (g : Section) :
    ((p.order g).files.map (·.separator)).Perm (g.files.map (·.separator)) := by
  unfold Policy.order
  split
  · cases hfiles : g.files with
    | nil => simp [resort, hfiles, sortFiles]
    | cons first rest =>
      simp only [resort, hfiles, sortFiles]
      exact separators_restoreLayout (perm_numbered _ _)
  · exact .refl _

end Section

namespace Site

theorem separators_edited {separator : Text} {candidates : List Sources}
    {x : Site separator candidates} {f : Section → Section} {lost : List Text}
    (keyword : (f x.group).keyword = x.group.keyword)
    (files : (x.group.files.map (·.separator)).Subperm
      ((f x.group).files.map (·.separator) ++ lost)) :
    (x.statement.arguments.map (·.separator)).Subperm
      ((x.edited f).arguments.map (·.separator) ++ lost) := by
  apply subperm_of_count
  intro t
  have hfiles := files.count_le t
  rw [List.count_append] at hfiles ⊢
  rw [x.arguments_edited]
  rcases x.room_cases with standing | ⟨name, -, -, hleft, -, hright⟩
  · rw [Sources.arguments, standing]
    simp only [Section.arguments, keyword, List.flatMap_append, List.flatMap_cons, Slot.arguments,
      List.map_append, List.count_append]
    omega
  · rw [Sources.arguments, hleft]
    simp only [List.map_append, List.count_append]
    omega

theorem Finds.find? {d : Document} {target separator : Text}
    {x : Site separator (d.sourcesOf target)} {file : Text} {before after : List Argument}
    {a : Argument} (h : x.Finds file before a after) :
    (d.filesOf target).find? (·.matchesValue file) = some a := by
  have hfiles : d.filesOf target =
      ((x.earlier.flatMap fun s => s.sections.flatMap (·.files)) ++
        (x.left.filterMap Slot.section?).flatMap (·.files) ++ before) ++
      a :: (after ++ (x.right.filterMap Slot.section?).flatMap (·.files) ++
        x.later.flatMap fun s => s.sections.flatMap (·.files)) := by
    unfold Document.filesOf
    conv_lhs => rw [x.candidates_eq]
    simp [Sources.sections, h.standing, Slot.section?, h.files]
  refine List.find?_eq_some_iff_append.mpr ⟨by simpa [Argument.matchesValue] using h.value,
    _, _, hfiles, ?_⟩
  intro b hb
  have hvalue : b.value ≠ file := by
    simp only [List.mem_append, List.mem_flatMap] at hb
    rcases hb with (⟨s, hs, g, hg, hb⟩ | ⟨g, hg, hb⟩) | hb
    · exact h.earlier s hs g hg b hb
    · exact h.left g hg b hb
    · exact h.before b hb
  simpa [Argument.matchesValue] using hvalue

end Site

namespace Document

theorem layouts_editAt {d : Document} {target separator : Text}
    {x : Site separator (d.sourcesOf target)} {f : Section → Section} {lost : List Text}
    (keyword : (f x.group).keyword = x.group.keyword)
    (files : (x.group.files.map (·.separator)).Subperm
      ((f x.group).files.map (·.separator) ++ lost)) :
    d.layouts.Subperm ((d.editAt target x f).layouts ++ lost) := by
  obtain ⟨before, after, hitems, hedited, -, -⟩ := d.items_editAt target x f
  apply subperm_of_count
  intro t
  have hstatement := (Site.separators_edited keyword files).count_le t
  have hcommand : (x.edited f).command = x.statement.command := rfl
  simp only [layouts, hitems, hedited, List.flatMap_append, List.flatMap_cons,
    Statement.layouts, Block.statement, List.count_append, hcommand] at hstatement ⊢
  omega

theorem separators_appendFile (p : Policy) (file : Text) (g : Section) :
    (g.files.map (·.separator)).Subperm
      (((p.order ∘ appendFile p.separator file) g).files.map (·.separator) ++ []) := by
  have hsorted := Section.separators_order p (appendFile p.separator file g)
  have hgrown : (g.files.map (·.separator)).Subperm
      ((appendFile p.separator file g).files.map (·.separator)) :=
    ((List.sublist_append_left _ _).map _).subperm
  rw [List.append_nil]
  exact hgrown.trans hsorted.symm.subperm

theorem layouts_addFile {d : Document} {target file : Text} {hint : Option Text} {b : Bool}
    (h : (d.addFile target file hint).result = .ok b) :
    d.layouts.Subperm (d.addFile target file hint).state.layouts := by
  rcases addFile_editAt d target file hint with ⟨-, fault, herr⟩ | ⟨-, hstate, -⟩ |
    ⟨-, -, x, hstate⟩ | ⟨-, -, -, x, hstate⟩
  · rw [herr] at h
    cases h
  · rw [hstate]
  · have := layouts_editAt (d.policy.order_keeps (appendFile d.policy.separator file x.group)).2
      (separators_appendFile d.policy file x.group)
    rwa [List.append_nil, ← hstate] at this
  · have hblock : d.layouts.Subperm (d.withBlock target).layouts := by
      apply List.Sublist.subperm
      simp [layouts, items, withBlock]
    have := layouts_editAt (d.policy.order_keeps (appendFile d.policy.separator file x.group)).2
      (separators_appendFile d.policy file x.group)
    rw [List.append_nil, ← hstate] at this
    exact hblock.trans this

theorem layouts_changeFile {d : Document} {target file : Text} {f : Nat → Section → Section}
    {lost : List Text} {b : Bool} (h : (d.changeFile target file f).result = .ok b)
    (keyword : ∀ k g, (f k g).keyword = g.keyword)
    (files : ∀ (x : Site d.policy.separator (d.sourcesOf target)) (before : List Argument)
      (a : Argument) (after : List Argument), x.Finds file before a after →
      (x.group.files.map (·.separator)).Subperm
        ((f before.length x.group).files.map (·.separator) ++ lost)) :
    d.layouts.Subperm ((d.changeFile target file f).state.layouts ++ lost) := by
  rcases changeFile_editAt d target file f with ⟨-, fault, herr⟩ | ⟨-, hstate, -⟩ |
    ⟨-, x, before, a, after, finds, hstate⟩
  · rw [herr] at h
    cases h
  · rw [hstate]
    exact (List.sublist_append_left _ _).subperm
  · rw [hstate]
    apply layouts_editAt
    · exact (d.policy.order_keeps _).2.trans (keyword before.length x.group)
    · have hsorted := Section.separators_order d.policy (f before.length x.group)
      exact (files x before a after finds).trans (hsorted.symm.append_right lost).subperm

theorem layouts_renameFile {d : Document} {target old new : Text} {b : Bool}
    (h : (d.renameFile target old new).result = .ok b) :
    d.layouts.Subperm (d.renameFile target old new).state.layouts := by
  by_cases hloaded : d.loaded = true
  · by_cases hnew : new = []
    · rw [renameFile, hloaded, hnew]
      exact .refl _
    · rw [renameFile_of_loaded hloaded target old hnew] at h ⊢
      rw [← List.append_nil (d.changeFile target old (renameAt new)).state.layouts]
      refine layouts_changeFile h (fun k g => rfl) fun x before a after finds => ?_
      rw [renameAt, finds.files, modify_split]
      simp [renameArgument, Argument.setValue, List.Subperm.refl]
  · rw [renameFile, if_pos (by simpa using hloaded)]

theorem layouts_removeFile {d : Document} {target file : Text} {b : Bool}
    (h : (d.removeFile target file).result = .ok b) :
    d.layouts.Subperm
      ((d.removeFile target file).state.layouts ++ (Operation.remove target file).drops d) := by
  by_cases hloaded : d.loaded = true
  · rw [removeFile_of_loaded hloaded] at h ⊢
    refine layouts_changeFile h (fun k g => rfl) fun x before a after finds => ?_
    have hdrops : (Operation.remove target file).drops d = [a.separator] := by
      simp [Operation.drops, hloaded, finds.find?]
    have herased : (before ++ a :: after).eraseIdx before.length = before ++ after := by
      rw [List.eraseIdx_append_of_length_le (Nat.le_refl _)]
      simp
    rw [hdrops, removeAt, finds.files, herased, List.map_append, List.map_append, List.map_cons]
    apply List.Perm.subperm
    rw [List.append_assoc]
    exact (List.perm_append_singleton _ _).symm.append_left _
  · rw [removeFile, if_pos (by simpa using hloaded), Operation.drops, if_neg hloaded,
      List.append_nil]

theorem layouts_setDefaultSection (d : Document) (name : Text) :
    (d.setDefaultSection name).state.layouts = d.layouts := by
  unfold setDefaultSection
  simp only
  split
  · let renamed := d.sources.map fun s =>
      if s.command.name = Classify.targetSources then { s with defaultSection := name.upper } else s
    have hitems : (d.withSources renamed).items = refillItems d.items renamed :=
      items_withSources (by simp [renamed])
    have hkept : List.Forall₂ (fun b b' : Block => b.statement.layouts = b'.statement.layouts)
        d.items (refillItems d.items renamed) := by
      apply forall₂_refillItems
      · exact fun s => rfl
      rw [← sources_eq_items]
      refine List.forall₂_map_right_iff.mpr (List.forall₂_same.mpr fun s _ => ?_)
      split <;> rfl
    have hlayouts := map_eq_of_forall₂ hkept
    calc (d.withSources renamed).layouts
      _ = (refillItems d.items renamed).flatMap fun b => b.statement.layouts := by
        rw [layouts, hitems]
      _ = d.layouts := by
        rw [layouts, List.flatMap_def, List.flatMap_def, hlayouts]
  · rfl

end Document

namespace Operation

/-- An operation on the document alone keeps all layout but what it drops. -/
theorem layouts_apply {op : Operation} (inner : op.isInner = true) {d : Document}
    {answer : Answer} (h : (op.apply d).2 = .ok answer) :
    d.layouts.Subperm ((op.apply d).1.layouts ++ op.drops d) := by
  cases op with
  | add target file hint =>
    obtain ⟨b, hb⟩ := exists_ok_of_map h
    have hdrops : (add target file hint).drops d = [] := rfl
    rw [hdrops, List.append_nil]
    exact Document.layouts_addFile hb
  | rename target old new =>
    obtain ⟨b, hb⟩ := exists_ok_of_map h
    have hdrops : (rename target old new).drops d = [] := rfl
    rw [hdrops, List.append_nil]
    exact Document.layouts_renameFile hb
  | remove target file =>
    obtain ⟨b, hb⟩ := exists_ok_of_map h
    exact Document.layouts_removeFile hb
  | setSorting on => exact (List.sublist_append_left _ _).subperm
  | setCreating on => exact (List.sublist_append_left _ _).subperm
  | setDefaultSection name =>
    have := d.layouts_setDefaultSection name
    rw [apply, this]
    exact (List.sublist_append_left _ _).subperm
  | addListener => exact (List.sublist_append_left _ _).subperm
  | write => cases inner
  | save host => cases inner
  | reload => cases inner

theorem layouts_run {ops : List Operation} (inner : ∀ op ∈ ops, op.isInner = true)
    {d last : Document} {answers : List Answer} (h : run d ops = .ok (last, answers)) :
    d.layouts.Subperm (last.layouts ++ dropped d ops) := by
  induction ops generalizing d answers with
  | nil =>
    simp only [run, Except.ok.injEq, Prod.mk.injEq] at h
    rw [h.1]
    exact (List.sublist_append_left _ _).subperm
  | cons op rest ih =>
    obtain ⟨answer, later, ended, hrest, -⟩ := run_cons h
    have hop := layouts_apply (inner op List.mem_cons_self) ended
    have hlater := ih (fun o ho => inner o (.tail _ ho)) hrest
    apply subperm_of_count
    intro t
    have hcount := hop.count_le t
    have hcounts := hlater.count_le t
    rw [dropped]
    rw [List.count_append] at hcount hcounts ⊢
    rw [List.count_append]
    omega

end Operation

theorem subperm_flatMap {l k : List Text} (h : l.Subperm k) (f : Text → List Text) :
    (l.flatMap f).Subperm (k.flatMap f) := by
  obtain ⟨m, hperm, hsub⟩ := h
  exact ⟨m.flatMap f, hperm.flatMap_right f, hsub.flatMap f⟩

theorem exists_split_of_subperm {l k m : List Text} (h : l.Subperm (k ++ m)) :
    ∃ kept lost : List Text, (kept ++ lost).Perm l ∧ kept.Subperm k ∧ lost.Subperm m := by
  obtain ⟨l', hperm, hsub⟩ := h
  obtain ⟨kept, lost, rfl, hkept, hlost⟩ := List.sublist_append_iff.mp hsub
  exact ⟨kept, lost, hperm, hkept.subperm, hlost.subperm⟩

namespace Document

/-- The comments of a file that was read stand in the frame or in the layout of a statement. -/
theorem comments_opened {d : Document} {statements : List (Placed Statement)}
    (parsed : Statement.parse (Utf8.decode d.buffer.content) = .ok statements) :
    ∃ gaps tail, d.reload.state.Laid (around gaps (statements.map (·.item))) tail ∧
      (around gaps (statements.map (·.item))).map (·.gap) = gaps ∧
      (Utf8.decode d.buffer.content).comments.Perm (gaps.flatMap Text.comments ++
        d.reload.state.layouts.flatMap Text.comments ++ tail.comments) := by
  obtain ⟨gaps, tail, hlength, hframe, hlaid, hlegible⟩ := laid_frame parsed
  have hall : ∀ s ∈ statements.map (·.item), s.Legible := by
    intro s hs
    obtain ⟨p, hp, rfl⟩ := List.mem_map.mp hs
    exact (hlegible p hp).1
  have hlayouts : d.reload.state.layouts =
      (statements.map (·.item)).flatMap Statement.layouts := by
    rw [(reload_of_parse parsed).2]
    simp [layouts, items, List.flatMap_map, blockOf_statement]
  obtain ⟨htokens, -, -⟩ := tokensFrom_frame .start hframe hlength hall
  refine ⟨gaps, tail, hlaid, gaps_around hlength, ?_⟩
  have htext : Utf8.decode d.buffer.content =
      Strand.weave (around gaps (statements.map (·.item))) ++ tail := by
    rw [← hlaid.text, (reload_of_parse parsed).2]
  rw [htext, Text.comments, Token.scan, htokens, Token.comments_append, comments_tokensFrom,
    hlayouts]
  exact (comments_phrases .start hlength hall).append_right _

theorem Laid.holds {d : Document} {strands : List Strand} {tail : Text}
    (laid : d.Laid strands tail) (loaded : d.loaded = true) :
    ∃ output, d.write.result = .ok (Utf8.encode output) ∧
      output.Holds ((strands.map (·.gap)).flatMap Text.comments ++
        d.layouts.flatMap Text.comments ++ tail.comments) := by
  obtain ⟨output, hout, hresult, -, -, -⟩ := laid.write loaded
  refine ⟨output, hresult, ?_⟩
  rw [hout, Strand.weave_settled]
  have hwhole := ((Strand.holds_refresh laid.length).append (Text.Holds.comments tail)).append
    (Strand.holds_createdText (Strand.weave (Strand.refresh strands d.blocks) ++ tail) d.pending)
  refine hwhole.perm ?_
  have hlayouts : d.layouts = (d.blocks.flatMap fun b => b.item.statement.layouts) ++
      d.pending.flatMap fun s => (Block.listing s).statement.layouts := by
    simp [layouts, items, List.flatMap_map]
  rw [hlayouts, List.flatMap_append, List.append_assoc, List.append_assoc, List.append_assoc,
    List.append_assoc]
  exact (List.perm_append_comm.append_left _).append_left _

end Document

/-- Every comment of a file stands in what is written after any run of edits, except for comments
before files that were removed: these are lost with the file. -/
theorem comments_survive (buffer : Buffer) (policy : Policy)
    (loaded : (Document.ofBuffer buffer policy).state.loaded = true) (ops : List Operation)
    (inner : ∀ op ∈ ops, op.isInner = true) (d : Document) (answers : List Answer)
    (ran : Operation.run (Document.ofBuffer buffer policy).state ops = .ok (d, answers)) :
    ∃ output, d.write.result = .ok (Utf8.encode output) ∧
      ∃ kept lost, (kept ++ lost).Perm (Utf8.decode buffer.content).comments ∧
        output.Holds kept ∧
        lost.Subperm ((Operation.dropped (Document.ofBuffer buffer policy).state ops).flatMap
          Text.comments) := by
  let bare : Document := { buffer := buffer, policy := policy }
  rcases Document.reload_cases bare with ⟨statements, parsed, -, hstate⟩ | ⟨-, hstate⟩
  swap
  · rw [Document.ofBuffer, hstate] at loaded
    cases loaded
  obtain ⟨gaps, tail, laid, hgaps, hopened⟩ := Document.comments_opened parsed
  have hcomments : (Utf8.decode buffer.content).comments.Perm (gaps.flatMap Text.comments ++
      (Document.ofBuffer buffer policy).state.layouts.flatMap Text.comments ++ tail.comments) :=
    hopened
  have hmoved := Operation.run_moved inner ran
  obtain ⟨output, hresult, hholds⟩ := (laid.moved hmoved).holds (hmoved.loaded.trans loaded)
  rw [hgaps] at hholds
  obtain ⟨pieces, hpieces, hheld⟩ := hholds
  have hrun := subperm_flatMap (Operation.layouts_run inner ran) Text.comments
  rw [List.flatMap_append] at hrun
  have hall : (Utf8.decode buffer.content).comments.Subperm (pieces ++
      (Operation.dropped (Document.ofBuffer buffer policy).state ops).flatMap Text.comments) := by
    apply subperm_of_count
    intro t
    have hread := hcomments.count_eq t
    have hkept := hrun.count_le t
    have hfound := hheld.count_le t
    simp only [List.count_append] at hread hkept hfound ⊢
    omega
  obtain ⟨kept, lost, hperm, hkept, hlost⟩ := exists_split_of_subperm hall
  exact ⟨output, hresult, kept, lost, hperm, ⟨pieces, hpieces, hkept⟩, hlost⟩

/-- Sorting, a new name and a new file leave a comment where it is; the comment about the first file
goes with the second one. -/
theorem comments_survive_in_part :
    let buffer := Buffer.ofString "add_library(a\n  z.c # first\n  y.c\n  b.c) # end\n"
    let opened := (Document.ofBuffer buffer { sorting := true }).state
    let ops : List Operation := [.rename "a" "b.c" "x.c", .add "a" "c.c" none, .remove "a" "y.c"]
    ∃ d answers, Operation.run opened ops = .ok (d, answers) ∧
      ∃ output, d.write.result = .ok (Utf8.encode output) ∧
        ∃ kept lost : List Text, (kept ++ lost).Perm ["# first", "# end"] ∧ output.Holds kept ∧
          lost.Subperm ["# first"] := by
  intro buffer opened ops
  obtain ⟨⟨d, answers⟩, ran⟩ := exists_ok (e := Operation.run opened ops) (by decide +kernel)
  obtain ⟨output, hresult, kept, lost, hperm, hkept, hlost⟩ :=
    comments_survive buffer { sorting := true } (by decide +kernel) ops (by decide) d answers ran
  have hcomments : (Utf8.decode buffer.content).comments = (["# first", "# end"] : List Text) := by
    decide +kernel
  have hdropped : (Operation.dropped opened ops).flatMap Text.comments =
      (["# first"] : List Text) := by
    decide +kernel
  exact ⟨d, answers, ran, output, hresult, kept, lost, hcomments ▸ hperm, hkept, hdropped ▸ hlost⟩

/-- One edit that succeeds can lose a comment: it stood before the file that was removed, on the
line of another one. -/
theorem removal_loses_comment :
    let buffer := Buffer.ofString "add_library(a z.c # keep\n  y.c)"
    let r := (Document.ofBuffer buffer {}).state.removeFile "a" "y.c"
    (Utf8.decode buffer.content).comments = (["# keep"] : List Text) ∧ r.result = .ok true ∧
      r.state.write.result = .ok (Utf8.encode "add_library(a z.c)") := by
  decide +kernel

end Listfile
