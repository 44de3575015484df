import Listfile.Proofs.Framing
import Listfile.Proofs.Regular
import Mathlib.Data.List.Chain

/-!
Arguments that touch. Nothing has to stand between two arguments: a quoted argument may follow a
word, and a word a parenthesis. Whether two that touch are read as two depends on their kinds alone,
so an edit in the middle of a legible statement leaves it legible if it takes no parenthesis away
and the arguments on its two sides may touch.
-/

namespace Listfile

open Scan Parse

def TokenKind.isBare : TokenKind → Bool
  | identifier | argumentUnquoted => true
  | _ => false

/-- Two arguments that are read as one: nothing stands between them, and the first goes on with the
text of the second. -/
def Argument.RunsInto (a b : Argument) : Prop :=
  b.separator = [] ∧ a.kind.isBare = true ∧ (b.kind.isBare = true ∨ b.kind = .argumentBracket)

instance (a b : Argument) : Decidable (a.RunsInto b) :=
  inferInstanceAs (Decidable (_ ∧ _ ∧ (_ ∨ _)))

theorem fits_bare {k : TokenKind} (h : k.isBare = true) {t : Text} :
    Fits k t ↔ ∀ g, t.head? = some g → isOrdinary g = false ∧ g ≠ .char '\\' := by
  cases k with
  | identifier => exact Iff.rfl
  | argumentUnquoted => exact Iff.rfl
  | _ => cases h

theorem fits_delimited {k : TokenKind} (hk : k.isSeparator = false) (h : k.isBare = false)
    (t : Text) : Fits k t := by
  intro g _
  cases k with
  | identifier => cases h
  | argumentUnquoted => cases h
  | space => cases hk
  | commentLine => cases hk
  | _ => trivial

theorem fits_of_stop_bare {k : TokenKind} (hk : k.isSeparator = false) {t : Text}
    (h : Fits .identifier t) : Fits k t := by
  cases hb : k.isBare with
  | true => exact (fits_bare hb).mpr h
  | false => exact fits_delimited hk hb t

namespace Argument.Spells

variable {a b : Argument}

theorem exists_lexed (h : a.Spells) :
    ∃ g rest, a.sourceText = g :: rest ∧ Lexed g rest a.kind (rest.length + 1) := by
  have hwhole := h.whole
  cases hs : a.sourceText with
  | nil => exact absurd hs h.whole.ne_nil
  | cons g rest =>
    rw [hs] at hwhole
    exact ⟨g, rest, rfl, lexed_of_lexeme hwhole⟩

theorem fits_source (h : b.Spells) {k : TokenKind} (hk : k.isBare = true) (rest : Text) :
    Fits k (b.sourceText ++ rest) ↔ ¬ (b.kind.isBare = true ∨ b.kind = .argumentBracket) := by
  obtain ⟨g, t, hs, hlexed⟩ := h.exists_lexed
  have hword := h.word
  have hhead : Fits k (b.sourceText ++ rest) ↔ isOrdinary g = false ∧ g ≠ .char '\\' := by
    rw [fits_bare hk, hs]
    simp
  have going : isOrdinary g = true ∨ g = .char '\\' → ¬ Fits k (b.sourceText ++ rest) := by
    rw [hhead]
    rintro (ho | hb) ⟨ho', hb'⟩
    · rw [ho] at ho'
      cases ho'
    · exact hb' hb
  rw [hhead] at going ⊢
  generalize b.kind = kind at hlexed hword ⊢
  generalize hn : t.length + 1 = n at hlexed
  cases hlexed with
  | argumentBracket hg =>
    exact iff_of_false (going (Or.inl (by rw [hg]; decide))) (by simp)
  | argumentQuoted hg =>
    exact iff_of_true (by rw [hg]; decide) (by simp [TokenKind.isBare])
  | parenLeft hg => exact iff_of_true (by rw [hg]; decide) (by simp [TokenKind.isBare])
  | parenRight hg => exact iff_of_true (by rw [hg]; decide) (by simp [TokenKind.isBare])
  | identifier _ hlen =>
    have hordinary := ordinary_of_unquotedLength (g := g) (t := t) (by rw [hlen]; simp)
    exact iff_of_false (going hordinary) (by simp [TokenKind.isBare])
  | argumentUnquoted _ hlen =>
    have hordinary := ordinary_of_unquotedLength (g := g) (t := t) (by rw [hlen]; simp)
    exact iff_of_false (going hordinary) (by simp [TokenKind.isBare])
  | openComment => cases hword.2
  | openBracket => cases hword.2
  | openQuote => cases hword.2
  | badCharacter => cases hword.2
  | _ => cases hword.1

/-- Two arguments are read as two exactly if the first does not run into the second. -/
theorem fits_render_iff (ha : a.Spells) (hb : b.Spells) (layout : Layout b.separator)
    (rest : Text) : Fits a.kind (b.render ++ rest) ↔ ¬ a.RunsInto b := by
  by_cases hsep : b.separator = []
  · rw [Argument.render, hsep, List.nil_append]
    cases hbare : a.kind.isBare with
    | false =>
      exact iff_of_true (fits_delimited ha.word.1 hbare _) (by simp [RunsInto, hbare])
    | true =>
      rw [hb.fits_source hbare]
      simp [RunsInto, hsep, hbare]
  · have hfits : Fits a.kind (b.separator ++ []) := layout.fits ha.word.1 (by simp)
    rw [List.append_nil] at hfits
    rw [Argument.render, List.append_assoc]
    exact iff_of_true (fits_append hfits hsep _) (by simp [RunsInto, hsep])

end Argument.Spells

theorem apart_iff_chain {arguments : List Argument} (words : ∀ a ∈ arguments, a.Spells)
    (layout : ∀ a ∈ arguments, Layout a.separator) {after : Text} (stops : Fits .identifier after) :
    Argument.Apart after arguments ↔ arguments.IsChain fun a b => ¬ a.RunsInto b := by
  induction arguments with
  | nil => exact iff_of_true trivial .nil
  | cons a rest ih =>
    have hrest := ih (fun b hb => words b (.tail _ hb)) fun b hb => layout b (.tail _ hb)
    have ha := words a List.mem_cons_self
    cases rest with
    | nil =>
      exact iff_of_true ⟨fits_of_stop_bare ha.word.1 stops, trivial⟩ (.singleton a)
    | cons b more =>
      have hseam := ha.fits_render_iff (words b (by simp)) (layout b (by simp))
        (more.flatMap Argument.render ++ after)
      rw [List.isChain_cons_cons, ← hrest, ← hseam, Argument.Apart, List.flatMap_cons,
        List.append_assoc]

/-- An edit of a list of arguments: between those that stay, some give way to others. -/
structure Splice where
  front : List Argument
  taken : List Argument
  given : List Argument
  back : List Argument
  deriving DecidableEq, Repr

namespace Splice

def old (p : Splice) : List Argument := p.front ++ p.taken ++ p.back

def new (p : Splice) : List Argument := p.front ++ p.given ++ p.back

/-- Nothing around the edit is misread: no parenthesis is taken away, what is given stands after
layout, and it does not run into what follows. -/
structure Clear (p : Splice) : Prop where
  unpaired : ∀ a ∈ p.taken, a.Unpaired
  layout : ∀ a ∈ p.given, Layout a.separator
  apart : ∀ a ∈ (p.front ++ p.given).getLast?, ∀ b ∈ p.back.head?, ¬ a.RunsInto b

instance (t : Text) : Decidable (Layout t) :=
  decidable_of_iff ((∀ k ∈ kinds t, k.isSeparator = true) ∧ (kinds t).getLast? ≠ some .commentLine)
    ⟨fun ⟨separators, ended⟩ => ⟨separators, ended⟩, fun h => ⟨h.separators, h.ended⟩⟩

instance (a : Argument) : Decidable a.Unpaired := inferInstanceAs (Decidable (_ ∧ _))

instance (p : Splice) : Decidable p.Clear :=
  decidable_of_iff ((∀ a ∈ p.taken, a.Unpaired) ∧ (∀ a ∈ p.given, Layout a.separator) ∧
      ∀ a ∈ (p.front ++ p.given).getLast?, ∀ b ∈ p.back.head?, ¬ a.RunsInto b)
    ⟨fun ⟨unpaired, layout, apart⟩ => ⟨unpaired, layout, apart⟩,
      fun h => ⟨h.unpaired, h.layout, h.apart⟩⟩

end Splice

theorem stops_trailing {c : Command} (h : Layout c.trailing) :
    Fits .identifier (c.trailing ++ [.char ')']) :=
  h.fits rfl (by rintro g ⟨⟩; decide)

theorem foldlM_splice {front taken given back : List Argument} (taken_ : ∀ a ∈ taken, a.Unpaired)
    (given_ : ∀ a ∈ given, a.Unpaired) (depth : Nat) :
    ((front ++ given ++ back).map Argument.kind).foldlM depthAfter depth =
      ((front ++ taken ++ back).map Argument.kind).foldlM depthAfter depth := by
  have middle : ∀ {l : List Argument}, (∀ a ∈ l, a.Unpaired) →
      ((front ++ l ++ back).map Argument.kind).foldlM depthAfter depth =
        ((front.map Argument.kind).foldlM depthAfter depth).bind fun d =>
          (back.map Argument.kind).foldlM depthAfter d := by
    intro l hl
    simp only [List.map_append, List.foldlM_append, Option.bind_eq_bind, Option.bind_assoc,
      foldlM_unpaired hl, Option.bind_some]
  rw [middle given_, middle taken_]

/-- A legible statement stays legible after an edit that is clear. -/
theorem Splice.Clear.legible {p : Splice} (clear : p.Clear) {c : Command}
    (h : (Statement.mk c p.old).Legible) (given : ∀ a ∈ p.given, a.Spells ∧ a.Unpaired)
    (joined : (p.front ++ p.given).IsChain fun a b => ¬ a.RunsInto b) :
    (Statement.mk c p.new).Legible := by
  have mem_old : ∀ {a}, a ∈ p.front ++ p.back → a ∈ p.old := by
    intro a ha
    simp only [Splice.old, List.mem_append] at ha ⊢
    tauto
  have mem_new : ∀ {a}, a ∈ p.new → a ∈ p.front ++ p.back ∨ a ∈ p.given := by
    intro a ha
    simp only [Splice.new, List.mem_append] at ha ⊢
    tauto
  have words : ∀ a ∈ p.new, a.Spells := by
    intro a ha
    rcases mem_new ha with ha | ha
    · exact h.words a (mem_old ha)
    · exact (given a ha).1
  have layout : ∀ a ∈ p.new, Layout a.separator := by
    intro a ha
    rcases mem_new ha with ha | ha
    · exact h.layout a (mem_old ha)
    · exact clear.layout a ha
  have stops := stops_trailing h.trailing
  have back : p.back.IsChain fun a b => ¬ a.RunsInto b := by
    have hchain := (apart_iff_chain h.words h.layout stops).mp h.apart
    exact (List.isChain_append.mp hchain).2.1
  refine ⟨h.command, h.spelling, h.leading, h.trailing, words, layout, ?_, ?_⟩
  · refine (apart_iff_chain words layout stops).mpr ?_
    exact List.isChain_append.mpr ⟨joined, back, clear.apart⟩
  · exact (foldlM_splice clear.unpaired (fun a ha => (given a ha).2) 0).trans h.nested

section Stable

theorem Layout.getLast?_ne {t : Text} (h : Layout t) (b : Fin 128) :
    t.getLast? ≠ some (.stray b) := by
  induction t using token_induction with
  | nil => simp
  | cons g body cont k hk ih =>
    have hcont := h.rest hk
    by_cases hne : cont = []
    · subst hne
      obtain ⟨separators, ended⟩ := h
      rw [kinds_token hk, kinds_nil] at separators ended
      have hsep := separators k List.mem_cons_self
      have hwhole := hk
      rw [List.append_nil] at hwhole ⊢
      have hlexed := lexed_of_lexeme hwhole
      cases k with
      | space =>
        intro hlast
        have := spaces_of_lexeme hk _ (List.mem_of_getLast? hlast)
        simp [Glyph.isSpace] at this
      | newline =>
        generalize hn : body.length + 1 = n at hlexed
        cases hlexed with
        | newline hg =>
          rw [hg, List.eq_nil_of_length_eq_zero (Nat.succ.inj hn)]
          simp
      | commentLine => simp at ended
      | commentBracket =>
        generalize hn : body.length + 1 = n at hlexed
        cases hlexed with
        | commentBracket _ hlen =>
          rw [← Nat.succ.inj hn] at hlen
          rw [List.getLast?_cons, getLast?_bracket hlen]
          simp
      | _ => cases hsep
    · rw [← List.cons_append, List.getLast?_append_of_ne_nil _ hne]
      exact ih hcont

theorem Argument.Spells.seam {a : Argument} (h : a.Spells) {t : Text} (fits : Fits a.kind t) :
    (∀ b, a.sourceText.getLast? ≠ some (.stray b)) ∨ ∀ b, t.head? ≠ some (.stray b) := by
  cases hbare : a.kind.isBare with
  | true => exact Or.inr (head?_ne_stray ((fits_bare hbare).mp fits))
  | false =>
    refine Or.inl fun b => ?_
    obtain ⟨g, rest, hs, hlexed⟩ := h.exists_lexed
    have hword := h.word
    rw [hs, List.getLast?_cons]
    generalize a.kind = kind at hlexed hword hbare
    generalize hn : rest.length + 1 = n at hlexed
    cases hlexed with
    | argumentBracket hg hlen =>
      have := getLast?_bracket (t := g :: rest) (by rw [hlen, ← hn]; rfl)
      rw [List.getLast?_cons] at this
      rw [this]
      simp
    | argumentQuoted hg hlen =>
      rw [← Nat.succ.inj hn] at hlen
      rw [getLast?_quote hlen]
      simp
    | parenLeft hg =>
      rw [List.eq_nil_of_length_eq_zero (Nat.succ.inj hn), hg]
      simp
    | parenRight hg =>
      rw [List.eq_nil_of_length_eq_zero (Nat.succ.inj hn), hg]
      simp
    | identifier => cases hbare
    | argumentUnquoted => cases hbare
    | openComment => cases hword.2
    | openBracket => cases hword.2
    | openQuote => cases hword.2
    | badCharacter => cases hword.2
    | _ => cases hword.1

theorem stable_apart {arguments : List Argument} {after : Text}
    (words : ∀ a ∈ arguments, a.Spells) (layout : ∀ a ∈ arguments, Layout a.separator)
    (apart : Argument.Apart after arguments)
    (parts : ∀ a ∈ arguments, Utf8.Stable a.separator ∧ Utf8.Stable a.sourceText)
    (stable : Utf8.Stable after) : Utf8.Stable (arguments.flatMap Argument.render ++ after) := by
  induction arguments with
  | nil => exact stable
  | cons a rest ih =>
    have hrest := ih (fun b hb => words b (.tail _ hb)) (fun b hb => layout b (.tail _ hb)) apart.2
      fun b hb => parts b (.tail _ hb)
    obtain ⟨hsep, hsource⟩ := parts a List.mem_cons_self
    have hword := Utf8.stable_append hsource hrest ((words a List.mem_cons_self).seam apart.1)
    have hwhole := Utf8.stable_append hsep hword
      (Or.inl (layout a List.mem_cons_self).getLast?_ne)
    simpa [Argument.render] using hwhole

theorem Statement.Legible.stable {s : Statement} (h : s.Legible)
    (name : Utf8.Stable (s.command.spelling ++ s.command.leading))
    (parts : ∀ a ∈ s.arguments, Utf8.Stable a.separator ∧ Utf8.Stable a.sourceText)
    (trailing : Utf8.Stable (s.command.trailing ++ [.char ')'])) : Utf8.Stable s.render :=
  Command.stable_render name (stable_apart h.words h.layout h.apart parts trailing)

/-- The text of a statement that was kept by a file is kept after an edit that is clear. -/
theorem Splice.stable {p : Splice} {c : Command}
    (h : Utf8.Stable (Statement.mk c p.old).render) (legible : (Statement.mk c p.new).Legible)
    (given : ∀ a ∈ p.given, Utf8.Stable a.separator ∧ Utf8.Stable a.sourceText) :
    Utf8.Stable (Statement.mk c p.new).render := by
  obtain ⟨name, arguments, trailing⟩ := Command.stable_parts h
  refine legible.stable name (fun a ha => ?_) trailing
  by_cases hgiven : a ∈ p.given
  · exact given a hgiven
  · have hold : a ∈ p.old := by
      simp only [Splice.new, Splice.old, List.mem_append] at ha ⊢
      tauto
    exact Utf8.stable_of_append (stable_argument arguments hold)

end Stable

end Listfile
