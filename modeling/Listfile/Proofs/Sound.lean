import Listfile.Proofs.Framing
import Listfile.Proofs.Regular
import Listfile.Proofs.Reshape

/-!
Sessions on regular files. Every statement of the document is read back from its text, and the text
of the buffer is that of such statements in a frame. Edits with plain names, writes and reloads keep
both.
-/

namespace Listfile

open Scan Parse

def Sources.Sound (default : Text) (s : Sources) : Prop :=
  (∃ first plains groups, s.Shape first plains groups) ∧
    (s.command.name = Classify.targetSources → s.defaultSection = default)

def Block.Sound (default : Text) : Block → Prop
  | other s => s.Legible ∧ Utf8.Stable s.render ∧ s.asRead = s ∧
      ∀ line default', (Sources.ofStatement? s line default').1 = none
  | listing s => s.Sound default

def Block.statement : Block → Statement
  | other s => s
  | listing s => ⟨s.command, s.arguments⟩

namespace Block

theorem render_statement (b : Block) : b.statement.render = b.render := by
  cases b <;> rfl

namespace Sound

variable {default : Text} {b : Block}

theorem legible (h : b.Sound default) : b.statement.Legible := by
  cases b with
  | other s => exact h.1
  | listing s =>
    obtain ⟨⟨first, plains, groups, shape⟩, -⟩ := h
    exact shape.legible

theorem stable (h : b.Sound default) : Utf8.Stable b.render := by
  cases b with
  | other s => exact h.2.1
  | listing s =>
    obtain ⟨⟨first, plains, groups, shape⟩, -⟩ := h
    exact shape.stable

theorem clean (h : b.Sound default) : b.clean.Sound default := by
  cases b with
  | other s => exact h
  | listing s =>
    obtain ⟨⟨first, plains, groups, shape⟩, hdefault⟩ := h
    exact ⟨⟨first, plains, groups, shape.marked false⟩, hdefault⟩

end Sound

end Block

theorem isLetter_stray (b : Fin 128) : isLetter (.stray b) = false := by
  have hcode : 0xDC80 ≤ (Glyph.stray b).code := Nat.le_add_right _ _
  simp only [isLetter, Bool.or_eq_false_iff, Bool.and_eq_false_iff, decide_eq_false_iff_not]
  exact ⟨⟨by omega, by omega⟩, by simp⟩

theorem Statement.Legible.head? {s : Statement} (h : s.Legible) (b : Fin 128) :
    s.render.head? ≠ some (.stray b) := by
  have hname := h.spelling
  cases hs : s.command.spelling with
  | nil => exact absurd hs hname.ne_nil
  | cons g rest =>
    rw [hs] at hname
    have hletter := letter_of_identifier hname
    simp only [Statement.render, Command.render, hs, List.cons_append, List.head?_cons, ne_eq,
      Option.some.injEq]
    rintro rfl
    rw [isLetter_stray] at hletter
    cases hletter

/-- A policy whose sections and separators are read back. -/
structure Policy.Sound (p : Policy) : Prop where
  keyword : p.defaultSection ∈ sectionKeywords
  nonempty : p.separator ≠ []
  blank : p.separator.Blank

/-- The text of a document is that of statements in a frame; since then they may have changed. -/
structure Document.Framed (d : Document) (gaps : List Text) (tail : Text) (old : List Block) :
    Prop where
  length : gaps.length = old.length
  frame : Frame true gaps tail
  sound : ∃ default, ∀ b ∈ old, Block.Sound default b
  laid : d.Laid (around gaps (old.map Block.statement)) tail

/-- A document whose statements are read back, from its text now and from the text it would
write. -/
structure Document.Sound (d : Document) : Prop where
  loaded : d.loaded = true
  policy : d.policy.Sound
  items : ∀ b ∈ d.items, b.Sound d.policy.defaultSection
  framed : ∃ gaps tail old, d.Framed gaps tail old

theorem forall_of_forall₂ {α β : Type} {P : α → Prop} {Q : β → Prop} {as : List α}
    {bs : List β} (h : List.Forall₂ (fun a b => P a → Q b) as bs) (all : ∀ a ∈ as, P a) :
    ∀ b ∈ bs, Q b := by
  induction h with
  | nil => simp
  | cons hab _ ih =>
    exact List.forall_mem_cons.mpr ⟨hab (all _ List.mem_cons_self),
      ih fun a ha => all a (.tail _ ha)⟩

namespace Sources.Sound

variable {default separator : Text} {s : Sources}

theorem revise (h : s.Sound default) {f : Section → Section}
    (steady : ∀ command, Section.Steady command f) (separator : Text) (n : Nat) :
    (s.revise none separator n f).Sound default := by
  obtain ⟨⟨first, plains, groups, shape⟩, hdefault⟩ := h
  exact ⟨⟨first, plains, _, shape.revise (steady _) separator n⟩, hdefault⟩

theorem addSection (h : s.Sound default) {name : Text}
    (wanted : s.preferred = true ∨ name = s.defaultSection)
    (missing : s.findSection? name = none) (keyword : default ∈ sectionKeywords)
    (spacing : Spacing separator) (stable : Utf8.Stable separator) :
    (s.addSection name separator).Sound default := by
  obtain ⟨⟨first, plains, groups, shape⟩, hdefault⟩ := h
  obtain rfl : name = s.defaultSection := by
    rcases wanted with hpreferred | hname
    · rw [shape.preferred] at hpreferred
      cases hpreferred
    · exact hname
  exact ⟨⟨first, plains, _, shape.addSection missing
    (fun hc => by rw [hdefault hc]; exact keyword) spacing stable⟩, hdefault⟩

end Sources.Sound

namespace Document

theorem sound_withSources {d : Document} {default default' : Text}
    (h : ∀ b ∈ d.items, b.Sound default) {given : List Sources}
    (changed : List.Forall₂ (fun s s' => s.Sound default → s'.Sound default') d.sources given) :
    ∀ b ∈ (d.withSources given).items, b.Sound default' := by
  rw [items_withSources changed.length_eq.symm]
  rw [sources_eq_items] at changed
  refine forall_of_forall₂ (forall₂_refillItems ?_ changed) h
  exact fun s hs => hs

theorem sound_amend {d : Document} {default : Text} (h : ∀ b ∈ d.items, b.Sound default)
    {target : Text} {n : Nat} {f : Sources → Sources}
    (changed : ∀ s, (d.sourcesOf target)[n]? = some s → s.Sound default → (f s).Sound default) :
    ∀ b ∈ (d.amend target n f).items, b.Sound default :=
  sound_withSources h (forall₂_amended (fun _ hs => hs) d target changed)

theorem legible_newCommand (d : Document) (target : Text) :
    (Statement.mk (d.newBlock target).command []).Legible ∧
      Utf8.Stable ((d.newBlock target).command.render []) := by
  have htrailing : Layout [.char '\n'] :=
    (Text.Blank.spacing (t := [.char '\n']) (by decide) (by simp)).layout
  have hspelling : Whole .identifier Classify.targetSources := by decide
  have hstable : Utf8.Stable ((Command.named Classify.targetSources [] [] "\n").render []) := by
    decide
  exact ⟨⟨rfl, hspelling, by simp [newBlock, Command.named, kinds_nil], htrailing, by simp,
    by simp, trivial, rfl⟩, hstable⟩

theorem sound_newBlock (d : Document) {target : Text} (plain : target.Plain) :
    (d.newBlock target).Sound d.policy.defaultSection := by
  obtain ⟨first, hfirst⟩ : ∃ a : Argument, a = ⟨target, needsQuotation target, [], none⟩ :=
    ⟨_, rfl⟩
  have hvalue : first.value = target := by rw [hfirst]
  have hraw : first.raw = none := by rw [hfirst]
  have hseparator : first.separator = [] := by rw [hfirst]
  rw [← hvalue] at plain
  obtain ⟨spells, unpaired⟩ := Argument.spells_of_verbatim hraw plain.verbatim
    (by rw [hfirst]; exact id)
  have hname : (d.newBlock target).command.name = Classify.targetSources := by
    simp only [newBlock, Command.named]
    decide
  have hstable : Utf8.Stable first.render := by
    rw [Argument.render, hseparator]
    exact Argument.stable_of_verbatim hraw plain.verbatim
  have hunpaired : ∀ a ∈ [first], a.Unpaired := by simpa using unpaired
  refine ⟨⟨first, [], [], by rw [hfirst]; rfl, hvalue.symm, plain.nonempty, Or.inl hname, rfl, ?_,
    d.legible_newCommand target, ⟨spells, ?_, hstable⟩, by simp, by simp,
    foldlM_unpaired hunpaired 0⟩, fun _ => rfl⟩
  · rw [hname]
    exact ⟨by simp, by simp, by simp⟩
  · rw [hseparator]
    exact layout_of_spaces (by simp [kinds_nil])

theorem sound_addFile {d : Document} (policy : d.policy.Sound)
    (h : ∀ b ∈ d.items, b.Sound d.policy.defaultSection) {target file : Text}
    (targetPlain : d.sourcesOf target = [] → target.Plain) (filePlain : file.Plain)
    {hint : Option Text} {b : Bool} (ended : (d.addFile target file hint).result = .ok b) :
    (d.addFile target file hint).state.policy = d.policy ∧
      ∀ b ∈ (d.addFile target file hint).state.items, b.Sound d.policy.defaultSection := by
  rcases addFile_cases d target file hint with ⟨fault, herr⟩ | ⟨-, hstate⟩ |
    ⟨-, -, -, d₁, n, opened, i, hd, hopened, hstate⟩
  · rw [herr] at ended
    cases ended
  · rw [hstate]
    exact ⟨rfl, h⟩
  · have hstart : d₁.policy = d.policy ∧ ∀ b ∈ d₁.items, b.Sound d.policy.defaultSection := by
      rcases hd with ⟨-, rfl⟩ | ⟨unlisted, -, rfl⟩
      · exact ⟨rfl, h⟩
      · refine ⟨rfl, fun b hb => ?_⟩
        rw [items, List.map_append, ← List.append_assoc] at hb
        rcases List.mem_append.mp hb with hb | hb
        · exact h b hb
        · rw [List.map_singleton, List.mem_singleton] at hb
          rw [hb]
          exact d.sound_newBlock (targetPlain unlisted)
    have hspacing := policy.blank.spacing policy.nonempty
    have hstable := policy.blank.stable
    have hsteady : ∀ command, Section.Steady command
        (d.policy.order ∘ appendFile d.policy.separator file) := fun command =>
      (Section.steady_append hspacing hstable filePlain).comp
        (Section.steady_order command d.policy)
    rw [hstate]
    refine ⟨hstart.1, sound_amend hstart.2 fun s hs hsound => ?_⟩
    cases opened with
    | none => exact hsound.revise hsteady _ _
    | some name =>
      obtain ⟨s', hs', hwanted, hmissing⟩ := hopened name rfl
      obtain rfl : s = s' := Option.some.inj (hs.symm.trans hs')
      have hadded := hsound.addSection hwanted hmissing policy.keyword hspacing hstable
      exact hadded.revise hsteady d.policy.separator i

theorem sound_renameFile {d : Document} {default : Text} (h : ∀ b ∈ d.items, b.Sound default)
    {target old new : Text} (plain : new.Plain) {b : Bool}
    (ended : (d.renameFile target old new).result = .ok b) :
    (d.renameFile target old new).state.policy = d.policy ∧
      ∀ b ∈ (d.renameFile target old new).state.items, b.Sound default := by
  rcases renameFile_cases d target old new with ⟨fault, herr⟩ | ⟨-, hstate⟩ |
    ⟨-, -, -, n, i, k, hstate⟩
  · rw [herr] at ended
    cases ended
  · rw [hstate]
    exact ⟨rfl, h⟩
  · rw [hstate]
    refine ⟨rfl, sound_amend h fun s _ hsound => hsound.revise (fun command => ?_) _ _⟩
    exact (Section.steady_rename plain k).comp (Section.steady_order command d.policy)

theorem sound_removeFile {d : Document} {default : Text} (h : ∀ b ∈ d.items, b.Sound default)
    {target file : Text} {b : Bool} (ended : (d.removeFile target file).result = .ok b) :
    (d.removeFile target file).state.policy = d.policy ∧
      ∀ b ∈ (d.removeFile target file).state.items, b.Sound default := by
  rcases removeFile_cases d target file with ⟨fault, herr⟩ | ⟨-, hstate⟩ | ⟨-, -, n, i, k, hstate⟩
  · rw [herr] at ended
    cases ended
  · rw [hstate]
    exact ⟨rfl, h⟩
  · rw [hstate]
    refine ⟨rfl, sound_amend h fun s _ hsound => hsound.revise (fun command => ?_) _ _⟩
    exact (Section.steady_remove command k).comp (Section.steady_order command d.policy)

theorem sound_setDefaultSection {d : Document} (policy : d.policy.Sound)
    (h : ∀ b ∈ d.items, b.Sound d.policy.defaultSection) (name : Text) :
    (d.setDefaultSection name).state.policy.Sound ∧
      ∀ b ∈ (d.setDefaultSection name).state.items,
        b.Sound (d.setDefaultSection name).state.policy.defaultSection := by
  unfold setDefaultSection
  simp only
  split
  · next hkeyword =>
    refine ⟨⟨by simpa using hkeyword, policy.nonempty, policy.blank⟩, ?_⟩
    refine sound_withSources h (List.forall₂_map_right_iff.mpr (List.forall₂_same.mpr ?_))
    rintro s - ⟨⟨first, plains, groups, shape⟩, hdefault⟩
    split
    · next hc => exact ⟨⟨first, plains, groups, shape.defaulting hc _⟩, fun _ => rfl⟩
    · next hc => exact ⟨⟨first, plains, groups, shape⟩, fun hn => absurd hn hc⟩
  · exact ⟨policy, h⟩

/-- The strands that a document is written in: its statements in a frame, whose text is kept by a
file. -/
theorem Laid.settled {d : Document} {gaps : List Text} {tail : Text} {old : List Statement}
    (laid : d.Laid (around gaps old) tail) (length : gaps.length = old.length)
    (frame : Frame true gaps tail) (legible : ∀ b ∈ d.items, b.statement.Legible)
    (stable : ∀ b ∈ d.items, Utf8.Stable b.render) :
    ∃ gaps', Strand.settled (around gaps old) tail d =
        around gaps' (d.items.map Block.statement) ∧
      gaps'.length = d.items.length ∧ Frame true gaps' (Strand.tailAfter tail d.pending) ∧
      Utf8.Stable (Strand.weave (around gaps' (d.items.map Block.statement)) ++
        Strand.tailAfter tail d.pending) := by
  have hlength := laid.length
  have hpieces : (Strand.settled (around gaps old) tail d).map (·.piece) =
      (d.items.map Block.statement).map Statement.render := by
    rw [Strand.pieces_settled hlength, List.map_map]
    exact List.map_congr_left fun b _ => (Block.render_statement b).symm
  have hgaps := @Strand.gaps_settled _ tail d hlength
  have haround := around_of_pieces hpieces
  -- The gaps come from bytes that were decoded, the pieces from the statements.
  have hstable := Utf8.stable_decode d.buffer.content
  rw [laid.text] at hstable
  obtain ⟨hkept, htail⟩ := Strand.kept_of_stable hstable
  have hcount : ((Strand.settled (around gaps old) tail d).map
      (·.gap)).length = (d.items.map Block.statement).length := by
    have := congrArg List.length hpieces
    simpa using this
  refine ⟨_, haround.symm, by rw [hcount, List.length_map], ?_, ?_⟩
  · rw [hgaps, gaps_around length]
    exact frame_grown frame (Or.inl rfl) d.pending
  · rw [haround]
    refine Strand.stable_weave (fun s hs => ?_) (Strand.stable_tailAfter htail d.pending)
    have hgap := Strand.stable_settled hlength (fun t ht => (hkept t ht).1) htail s hs
    rw [← haround] at hs
    obtain ⟨t, ht, hrender⟩ := piece_of_mem_around hcount hs
    obtain ⟨b, hb, rfl⟩ := List.mem_map.mp ht
    refine ⟨hgap, ?_, ?_, ?_⟩
    · rw [← hrender, Block.render_statement]
      exact stable b hb
    · rw [← hrender]
      exact (legible b hb).head?
    · rw [← hrender]
      exact Command.getLast?_render _ _

/-- A sound document is written, and then its statements stand in a frame. -/
theorem Sound.write {d : Document} (h : d.Sound) :
    ∃ gaps tail, d.write.result = .ok d.write.state.buffer.content ∧
      d.write.state.Framed gaps tail d.items ∧ d.write.state.Sound := by
  obtain ⟨gaps, tail, old, framed⟩ := h.framed
  obtain ⟨gaps', hsettled, hlength, hframe, hstable⟩ :=
    framed.laid.settled (by simpa using framed.length) framed.frame
      (fun b hb => (h.items b hb).legible) fun b hb => (h.items b hb).stable
  obtain ⟨output, hout, hresult, hcontent, hitems, hlaid⟩ := framed.laid.write h.loaded
  obtain ⟨hpending, hclean, hloaded, hpolicy, -⟩ := framed.laid.write_alike h.loaded
  rw [hsettled] at hout hlaid
  have hlaid := hlaid (hout ▸ hstable)
  have hframed : d.write.state.Framed gaps' (Strand.tailAfter tail d.pending) d.items :=
    ⟨hlength, hframe, ⟨_, h.items⟩, hlaid⟩
  refine ⟨gaps', _, by rw [hresult, hcontent], hframed, hloaded, by rw [hpolicy]; exact h.policy,
    ?_, gaps', _, _, hframed⟩
  rw [hclean, hpolicy]
  intro b hb
  obtain ⟨b', hb', rfl⟩ := List.mem_map.mp hb
  exact (h.items b' hb').clean

theorem Sound.congr {d d' : Document} (h : d.Sound) (loaded : d'.loaded = d.loaded)
    (policy : d'.policy = d.policy) (blocks : d'.blocks = d.blocks)
    (pending : d'.pending = d.pending) (content : d'.buffer.content = d.buffer.content) :
    d'.Sound := by
  obtain ⟨gaps, tail, old, framed⟩ := h.framed
  refine ⟨by rw [loaded]; exact h.loaded, by rw [policy]; exact h.policy, ?_, gaps, tail, old,
    framed.length, framed.frame, framed.sound, ?_, ?_, framed.laid.closed, ?_⟩
  · rw [Document.items, blocks, pending, policy]
    exact h.items
  · rw [content]
    exact framed.laid.text
  · rw [blocks]
    exact framed.laid.spans
  · rw [blocks]
    exact framed.laid.clean

theorem Sound.save {d : Document} (h : d.Sound) (host : Host) : (d.save host).state.1.Sound := by
  obtain ⟨-, -, hresult, -, hsound⟩ := h.write
  have hsave : (d.save host).state.1 =
      { d.write.state with buffer := (d.write.state.buffer.save host).state.1 } := by
    simp only [Document.save, h.loaded, if_true, hresult]
  rw [hsave]
  exact hsound.congr rfl rfl rfl rfl (Buffer.content_save _ host)

theorem blockOf_statement (default : Text) (p : Placed Statement) :
    (blockOf default p).statement = p.item := by
  unfold blockOf
  split
  · next s hs =>
    obtain ⟨hcommand, harguments, -⟩ := Sources.ofStatement?_lossless hs
    simp [Block.statement, hcommand, harguments]
  · rfl

theorem laid_frame {d : Document} {statements : List (Placed Statement)}
    (parsed : Statement.parse (Utf8.decode d.buffer.content) = .ok statements) :
    ∃ gaps tail, gaps.length = (statements.map (·.item)).length ∧ Frame true gaps tail ∧
      d.reload.state.Laid (around gaps (statements.map (·.item))) tail ∧
      ∀ p ∈ statements, p.item.Legible ∧ p.item.asRead = p.item := by
  obtain ⟨gaps, tail, hlength, hframe, htext, hspans, hlegible⟩ := frame_of_parse parsed
  have hcount : gaps.length = (statements.map (·.item)).length := by simpa using hlength
  rw [(reload_of_parse parsed).2]
  refine ⟨gaps, tail, hcount, hframe, ⟨htext, ?_, ?_, ?_⟩, hlegible⟩
  · rw [← hspans]
    simp [Function.comp_def]
  · intro s hs
    obtain ⟨t, -, hrender⟩ := piece_of_mem_around hcount hs
    rw [← hrender]
    exact Command.getLast?_render _ _
  · have hrender : (around gaps (statements.map (·.item))).map (·.piece) =
        (statements.map fun p => (⟨p.span, blockOf d.policy.defaultSection p⟩ :
          Placed Block)).map (·.item.render) := by
      rw [pieces_around hcount, List.map_map, List.map_map]
      exact List.map_congr_left fun p _ => (blockOf_render _ p).symm
    refine (forall₂_of_map_eq hrender).imp ?_
    intro s b hsb _
    exact hsb

theorem statement_blocks (default : Text) (statements : List (Placed Statement)) :
    (statements.map (blockOf default)).map Block.statement = statements.map (·.item) := by
  rw [List.map_map]
  exact List.map_congr_left fun p _ => blockOf_statement _ p

theorem sound_reload {d : Document} (policy : d.policy.Sound)
    {statements : List (Placed Statement)}
    (parsed : Statement.parse (Utf8.decode d.buffer.content) = .ok statements)
    (sound : ∀ p ∈ statements,
      (blockOf d.policy.defaultSection p).Sound d.policy.defaultSection) :
    d.reload.state.Sound := by
  obtain ⟨gaps, tail, hlength, hframe, hlaid, -⟩ := laid_frame parsed
  have hsound : ∀ b ∈ statements.map (blockOf d.policy.defaultSection),
      b.Sound d.policy.defaultSection := by
    intro b hb
    obtain ⟨p, hp, rfl⟩ := List.mem_map.mp hb
    exact sound p hp
  have hframed : d.reload.state.Framed gaps tail
      (statements.map (blockOf d.policy.defaultSection)) :=
    ⟨by simpa using hlength, hframe, ⟨_, hsound⟩, by rw [statement_blocks]; exact hlaid⟩
  rw [(reload_of_parse parsed).2] at hframed ⊢
  refine ⟨rfl, policy, ?_, gaps, tail, _, hframed⟩
  simpa [items, Function.comp_def] using sound

/-- A regular file opens as a sound document. -/
theorem sound_ofBuffer {buffer : Buffer} {policy : Policy} (sound : policy.Sound)
    (loaded : (ofBuffer buffer policy).state.loaded = true)
    (regular : ∀ s ∈ (ofBuffer buffer policy).state.sources, s.Regular) :
    (ofBuffer buffer policy).state.Sound := by
  rcases reload_cases { buffer := buffer, policy := policy } with
    ⟨statements, parsed, -, hstate⟩ | ⟨-, hstate⟩
  · obtain ⟨gaps, tail, hlength, -, htext, -, hlegible⟩ := frame_of_parse parsed
    have hstable := Utf8.stable_decode buffer.content
    rw [htext] at hstable
    have hpieces := stable_of_around (by simpa using hlength) hstable
    apply sound_reload sound parsed
    intro p hp
    obtain ⟨legible, asRead⟩ := hlegible p hp
    have stable : Utf8.Stable p.item.render := hpieces _ (List.mem_map_of_mem hp)
    have hblock : (⟨p.span, blockOf policy.defaultSection p⟩ : Placed Block) ∈
        (ofBuffer buffer policy).state.blocks := by
      rw [ofBuffer, hstate]
      exact List.mem_map_of_mem hp
    unfold blockOf at hblock ⊢
    split at hblock
    · next s hs =>
      have hmem : s ∈ (ofBuffer buffer policy).state.sources :=
        List.mem_append_left _ (List.mem_filterMap.mpr ⟨_, hblock, rfl⟩)
      simp only [hs]
      refine ⟨(regular s hmem).shape legible stable hs, fun hc => ?_⟩
      obtain ⟨_, _, -, -, ⟨-, hfound⟩ | ⟨hn, -, -, hfound⟩⟩ := Sources.ofStatement?_cases hs
      · rw [hfound]
        exact upper_keyword sound.keyword
      · rw [hfound] at hc
        exact absurd hc hn
    · next hs =>
      simp only [hs]
      exact ⟨legible, stable, asRead, fun _ _ => Sources.ofStatement?_none hs⟩
  · rw [ofBuffer, hstate] at loaded
    cases loaded

end Document

end Listfile
