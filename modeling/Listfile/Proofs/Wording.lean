import Listfile.Document.Edit
import Listfile.Proofs.Legible
import Listfile.Proofs.Utf8

/-!
What edits write. A plain name is read back as it is, quoted or not, and the layout before a new
file is layout again: it is blank or the end of layout that was read.
-/

namespace Listfile

open Scan

def reservedWords : List Text :=
  sectionKeywords ++ Classify.targetModifiers ++ Classify.valueKeywords ++
    Classify.sourcelessKeywords

/-- Names that need no escape and are no keyword. One with a space is quoted; any other has to be
one unquoted word. -/
structure Text.Plain (t : Text) : Prop where
  nonempty : t ≠ []
  characters : ∀ b, .stray b ∉ t
  printed : .char '\x00' ∉ t
  unescaped : .char '"' ∉ t ∧ .char '\\' ∉ t
  unreserved : t.upper ∉ reservedWords
  word : .char ' ' ∈ t ∨
    (∀ g ∈ t, g.isBlank = false ∧ g ≠ .char '(' ∧ g ≠ .char ')' ∧ g ≠ .char '#') ∧
      bracketLevel? t = none

instance (t : Text) : Decidable t.Plain :=
  decidable_of_iff (t ≠ [] ∧ (∀ b, .stray b ∉ t) ∧ .char '\x00' ∉ t ∧
      (.char '"' ∉ t ∧ .char '\\' ∉ t) ∧ t.upper ∉ reservedWords ∧
      (.char ' ' ∈ t ∨
        (∀ g ∈ t, g.isBlank = false ∧ g ≠ .char '(' ∧ g ≠ .char ')' ∧ g ≠ .char '#') ∧
          bracketLevel? t = none))
    ⟨fun ⟨h₁, h₂, h₃, h₄, h₅, h₆⟩ => ⟨h₁, h₂, h₃, h₄, h₅, h₆⟩,
      fun ⟨h₁, h₂, h₃, h₄, h₅, h₆⟩ => ⟨h₁, h₂, h₃, h₄, h₅, h₆⟩⟩

/-- Names that are read back as they are written, in quotes or as one unquoted word. -/
structure Text.Verbatim (t : Text) : Prop where
  nonempty : t ≠ []
  characters : ∀ b, .stray b ∉ t
  unescaped : .char '"' ∉ t ∧ .char '\\' ∉ t
  word : .char ' ' ∈ t ∨
    (∀ g ∈ t, g.isBlank = false ∧ g ≠ .char '(' ∧ g ≠ .char ')' ∧ g ≠ .char '#') ∧
      bracketLevel? t = none

theorem Text.Plain.verbatim {t : Text} (h : t.Plain) : t.Verbatim :=
  ⟨h.nonempty, h.characters, h.unescaped, h.word⟩

theorem unescape_of_not_mem {t : Text} (h : .char '\\' ∉ t) : unescape t = t := by
  fun_induction unescape t with
  | case1 => rfl
  | case2 => rfl
  | case3 => simp at h
  | case4 g x rest _ ih => rw [ih fun hx => h (.tail _ hx)]

theorem quoteLength?_of_not_mem {t : Text} (hq : .char '"' ∉ t) (hb : .char '\\' ∉ t) :
    quoteLength? (t ++ [.char '"']) = some (t.length + 1) := by
  induction t with
  | nil => rfl
  | cons g rest ih =>
    simp only [List.mem_cons, not_or] at hq hb
    have hrest := ih hq.2 hb.2
    cases rest with
    | nil => simp [quoteLength?, Ne.symm hq.1, Ne.symm hb.1]
    | cons x rest =>
      simp only [List.cons_append] at hrest ⊢
      simp [quoteLength?, Ne.symm hq.1, Ne.symm hb.1, hrest]

theorem unquotedLength_of_ordinary {t : Text} (h : ∀ g ∈ t, isOrdinary g = true)
    (hb : .char '\\' ∉ t) : unquotedLength t = t.length := by
  fun_induction unquotedLength t with
  | case1 => rfl
  | case2 => rfl
  | case3 g hg => simp [h g (by simp)] at hg
  | case4 => simp at hb
  | case5 => simp at hb
  | case6 g x rest _ _ ih =>
    rw [ih (fun y hy => h y (.tail _ hy)) fun hy => hb (.tail _ hy)]
    rfl
  | case7 g x rest _ hg => simp [h g (by simp)] at hg

namespace Text.Verbatim

variable {t : Text}

theorem stable (h : t.Verbatim) : Utf8.Stable t := by
  apply Utf8.stable_of_chars
  intro g hg
  cases g with
  | char c => exact ⟨c, rfl⟩
  | stray b => exact absurd hg (h.characters b)

theorem whole_quoted (h : t.Verbatim) :
    Whole .argumentQuoted (.char '"' :: t ++ [.char '"']) := by
  have hlexed : Lexed (.char '"') (t ++ [.char '"']) .argumentQuoted _ :=
    .argumentQuoted rfl (quoteLength?_of_not_mem h.unescaped.1 h.unescaped.2)
  have := hlexed.lexeme_eq rfl
  simpa [Whole] using this

theorem whole_unquoted (h : t.Verbatim) (hs : needsQuotation t = false) :
    Whole .identifier t ∨ Whole .argumentUnquoted t := by
  have hspace : .char ' ' ∉ t := by simpa [needsQuotation] using hs
  obtain ⟨hglyphs, hlevel⟩ := h.word.resolve_left hspace
  have hordinary : ∀ g ∈ t, isOrdinary g = true := by
    intro g hg
    obtain ⟨hblank, h₁, h₂, h₃⟩ := hglyphs g hg
    have h₄ : g ≠ .char '"' := fun e => h.unescaped.1 (e ▸ hg)
    have h₅ : g ≠ .char '\\' := fun e => h.unescaped.2 (e ▸ hg)
    simp [isOrdinary, hblank, h₁, h₂, h₃, h₄, h₅]
  have hlen := unquotedLength_of_ordinary hordinary h.unescaped.2
  cases t with
  | nil => exact absurd rfl h.nonempty
  | cons g rest =>
    by_cases hi : isIdentifier ((g :: rest).take (rest.length + 1)) = true
    · exact Or.inl ((Lexed.identifier hlevel hlen hi).lexeme_eq rfl)
    · exact Or.inr ((Lexed.argumentUnquoted hlevel hlen (by simpa using hi)).lexeme_eq rfl)

end Text.Verbatim

def Argument.Unpaired (a : Argument) : Prop := a.kind ≠ .parenLeft ∧ a.kind ≠ .parenRight

theorem Argument.spells_of_whole {a : Argument} {k : TokenKind} (whole : Whole k a.sourceText)
    (word : k.isSeparator = false ∧ k.isBad = false)
    (paren : k ≠ .parenLeft ∧ k ≠ .parenRight)
    (source : ∀ separator, Argument.ofSource? (Parse.delimiterOf k) separator a.sourceText =
      some { a.asRead with separator := separator }) : a.Spells ∧ a.Unpaired := by
  obtain rfl := Parse.kind_of_whole whole
  exact ⟨⟨word, whole, source⟩, paren⟩

theorem Argument.spells_of_verbatim {a : Argument} (raw : a.raw = none)
    (verbatim : a.value.Verbatim) (quoted : needsQuotation a.value = true → a.quoted = true) :
    a.Spells ∧ a.Unpaired := by
  have value : unescape a.value = a.value := unescape_of_not_mem verbatim.unescaped.2
  cases hq : a.quoted with
  | true =>
    have text : a.sourceText = .char '"' :: a.value ++ [.char '"'] := by
      simp [Argument.sourceText, raw, hq]
    refine Argument.spells_of_whole (text ▸ verbatim.whole_quoted) (by decide) (by decide) ?_
    intro separator
    simp [Parse.delimiterOf, Argument.ofSource?, Argument.asRead, text, value, hq]
  | false =>
    have text : a.sourceText = a.value := by simp [Argument.sourceText, raw, hq]
    have unspaced : needsQuotation a.value = false := by
      cases hs : needsQuotation a.value with
      | false => rfl
      | true => rw [quoted hs] at hq; cases hq
    have source : ∀ separator, Argument.ofSource? .none separator a.sourceText =
        some { a.asRead with separator := separator } := by
      intro separator
      simp [Argument.ofSource?, Argument.asRead, text, value, hq]
    have words := verbatim.whole_unquoted unspaced
    rw [← text] at words
    rcases words with whole | whole
    · exact Argument.spells_of_whole whole (by decide) (by decide) source
    · exact Argument.spells_of_whole whole (by decide) (by decide) source

theorem Argument.stable_of_verbatim {a : Argument} (raw : a.raw = none)
    (verbatim : a.value.Verbatim) :
    Utf8.Stable a.sourceText := by
  simp only [Argument.sourceText, raw]
  split
  · exact Utf8.stable_char.mpr (Utf8.stable_append verbatim.stable rfl (Or.inr (by simp)))
  · exact verbatim.stable

/-- Layout that keeps words apart, without bracket comments. -/
structure Spacing (t : Text) : Prop where
  nonempty : t ≠ []
  layout : Layout t
  lines : .commentBracket ∉ kinds t

theorem spaces_of_lexeme {g : Glyph} {body cont : Text}
    (h : lexeme g (body ++ cont) = (.space, body.length + 1)) :
    ∀ x ∈ g :: body, x.isSpace = true := by
  have hlexed := lexed_of_lexeme h
  generalize hn : body.length + 1 = n at hlexed
  cases hlexed with
  | space hg =>
    have hlen := (length_takeWhile_append.mp (Nat.succ.inj hn).symm).1
    have hself : body.takeWhile Glyph.isSpace = body :=
      (List.takeWhile_prefix _).eq_of_length hlen
    refine List.forall_mem_cons.mpr ⟨hg, fun x hx => ?_⟩
    rw [← hself] at hx
    exact List.mem_takeWhile_imp hx

theorem Layout.rest {g : Glyph} {body cont : Text} {k : TokenKind}
    (h : Layout (g :: (body ++ cont)))
    (hk : lexeme g (body ++ cont) = (k, body.length + 1)) : Layout cont := by
  obtain ⟨separators, ended⟩ := h
  rw [kinds_token hk] at separators ended
  refine ⟨fun k' hk' => separators k' (.tail _ hk'), fun hlast => ended ?_⟩
  rw [List.getLast?_cons, hlast]
  rfl

/-- Layout ends in blanks, after its last line break if it has one. -/
theorem Layout.ends {t : Text} (h : Layout t) (lines : .commentBracket ∉ kinds t) :
    (∀ g ∈ t, g.isSpace = true) ∨
      ∃ u v, t = u ++ .char '\n' :: v ∧ ∀ g ∈ v, g.isSpace = true := by
  induction t using token_induction with
  | nil => simp
  | cons g body cont k hk ih =>
    have hcont := h.rest hk
    obtain ⟨separators, ended⟩ := h
    rw [kinds_token hk] at separators ended lines
    simp only [List.mem_cons, not_or] at lines
    rcases ih hcont lines.2 with hspaces | ⟨u, v, rfl, hv⟩
    · cases k with
      | space =>
        refine Or.inl fun x hx => ?_
        rw [← List.cons_append, List.mem_append] at hx
        exact hx.elim (spaces_of_lexeme hk x) (hspaces x)
      | newline =>
        have hlexed := lexed_of_lexeme hk
        generalize hn : body.length + 1 = n at hlexed
        cases hlexed with
        | newline hg =>
          rw [hg, List.eq_nil_of_length_eq_zero (Nat.succ.inj hn)]
          exact Or.inr ⟨[], cont, rfl, hspaces⟩
      | commentLine =>
        -- A line comment is not the last token, so the blanks would start with a line break.
        have hfits := (lexeme_of_append hk rfl hcont.good.head?_ne).2
        cases cont with
        | nil => simp [kinds_nil] at ended
        | cons x cont =>
          have hx := hfits x rfl
          subst hx
          exact absurd (hspaces _ List.mem_cons_self) (by decide)
      | commentBracket => exact absurd rfl lines.1
      | _ => cases separators _ List.mem_cons_self
    · exact Or.inr ⟨g :: (body ++ u), v, by simp, hv⟩

def Text.Blank (t : Text) : Prop := ∀ g ∈ t, g.isSpace = true ∨ g = .char '\n'

instance (t : Text) : Decidable t.Blank :=
  inferInstanceAs (Decidable (∀ g ∈ t, g.isSpace = true ∨ g = .char '\n'))

theorem Text.Blank.kinds {t : Text} (h : t.Blank) :
    ∀ k ∈ kinds t, k = .space ∨ k = .newline := by
  induction t using token_induction with
  | nil => simp [kinds_nil]
  | cons g body cont k hk ih =>
    rw [kinds_token hk]
    have hcont : Text.Blank cont := fun x hx => h x (by simp [hx])
    refine List.forall_mem_cons.mpr ⟨?_, ih hcont⟩
    have same : ∀ {k' : TokenKind} {n : Nat}, k'.isBad = false → Lexed g (body ++ cont) k' n →
        k = k' := by
      intro k' n good hlexed
      exact congrArg Prod.fst (hk.symm.trans (hlexed.lexeme_eq good))
    rcases h g List.mem_cons_self with hg | hg
    · exact Or.inl (same rfl (.space hg))
    · exact Or.inr (same rfl (.newline hg))

theorem Text.Blank.spacing {t : Text} (h : t.Blank) (hne : t ≠ []) : Spacing t := by
  refine ⟨hne, ⟨fun k hk => ?_, fun hlast => ?_⟩, fun hk => ?_⟩
  · rcases h.kinds k hk with rfl | rfl <;> rfl
  · rcases h.kinds _ (List.mem_of_getLast? hlast) with hk | hk <;> cases hk
  · rcases h.kinds _ hk with hk | hk <;> cases hk

theorem Text.Blank.stable {t : Text} (h : t.Blank) : Utf8.Stable t := by
  apply Utf8.stable_of_chars
  intro g hg
  cases g with
  | char c => exact ⟨c, rfl⟩
  | stray b => rcases h _ hg with hb | hb <;> simp [Glyph.isSpace] at hb

theorem lastIndexOf?_eq_none {g : Glyph} {t : Text} (h : g ∉ t) : t.lastIndexOf? g = none := by
  induction t with
  | nil => rfl
  | cons x t ih =>
    simp only [List.mem_cons, not_or] at h
    simp [Text.lastIndexOf?, ih h.2, Ne.symm h.1]

theorem lastIndexOf?_append {g : Glyph} {s t : Text} (h : g ∉ t) :
    Text.lastIndexOf? g (s ++ g :: t) = some s.length := by
  induction s with
  | nil => simp [Text.lastIndexOf?, lastIndexOf?_eq_none h]
  | cons x s ih => simp [Text.lastIndexOf?, ih]

namespace Spacing

variable {t : Text}

theorem getLast?_ne (h : Spacing t) (b : Fin 128) : t.getLast? ≠ some (.stray b) := by
  intro hlast
  rcases h.layout.ends h.lines with hs | ⟨u, v, rfl, hv⟩
  · exact absurd (hs _ (List.mem_of_getLast? hlast)) (by simp [Glyph.isSpace])
  · rw [List.getLast?_append_of_ne_nil _ (by simp), List.getLast?_cons] at hlast
    cases hv' : v.getLast? with
    | none => simp [hv'] at hlast
    | some g =>
      simp only [hv', Option.getD_some, Option.some.injEq] at hlast
      exact absurd (hv g (List.mem_of_getLast? hv')) (by simp [hlast, Glyph.isSpace])

/-- What a new file inherits from the file before it is spacing. -/
theorem inherit (h : Spacing t) : Spacing (inheritSeparator t) := by
  unfold inheritSeparator
  split
  · next hcomment =>
    have hsharp : Glyph.char '#' ∈ t := by simpa [Section.hasComment] using hcomment
    rcases h.layout.ends h.lines with hs | ⟨u, v, rfl, hv⟩
    · exact absurd (hs _ hsharp) (by decide)
    · have hnewline : Glyph.char '\n' ∉ v := fun hmem => absurd (hv _ hmem) (by decide)
      rw [lastIndexOf?_append hnewline]
      refine Text.Blank.spacing (fun g hg => ?_) (by simp)
      simp only [List.drop_left, List.mem_cons] at hg
      exact hg.elim Or.inr fun hg => Or.inl (hv g hg)
  · simp [h.nonempty, h]

theorem stable_inherit (h : Utf8.Stable t) : Utf8.Stable (inheritSeparator t) := by
  unfold inheritSeparator
  split
  · split
    · next n _ =>
      rw [← List.take_append_drop n t] at h
      exact (Utf8.stable_of_append h).2
    · decide
  · split
    · decide
    · exact h

end Spacing

end Listfile
