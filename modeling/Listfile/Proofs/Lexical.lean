import Listfile.Proofs.Compose
import Mathlib.Data.List.TakeWhile

/-!
The lexical grammar. What a token of each kind looks like is said by its text and by the text that
follows it, without a scanner. At every place of a text exactly one token stands by these rules,
and scanning finds it.
-/

namespace Listfile

namespace Lexical

def opener (level : Nat) : Text := .char '[' :: List.replicate level (.char '=') ++ [.char '[']

/-- A text in brackets of a level: the first closer behind the opener ends it. -/
structure Bracketed (level : Nat) (body t : Text) : Prop where
  text : t = opener level ++ body ++ Scan.closer level
  first : ∀ front back, body ++ Scan.closer level = front ++ Scan.closer level ++ back → back = []

/-- The inside of a quotation. A backslash takes the glyph after it along, and otherwise there is
no quote. -/
inductive Quotation : Text → Prop where
  | nil : Quotation []
  | plain {g : Glyph} {t : Text} : g ≠ .char '"' → g ≠ .char '\\' → Quotation t →
      Quotation (g :: t)
  | pair (g : Glyph) {t : Text} : Quotation t → Quotation (.char '\\' :: g :: t)

/-- What an unquoted argument is made of: glyphs with no meaning of their own, and any glyph but a
line break behind a backslash. -/
inductive Word : Text → Prop where
  | nil : Word []
  | plain {g : Glyph} {t : Text} : g.isBlank = false → g ∉ Text.ofString "()#\"\\" → Word t →
      Word (g :: t)
  | pair {g : Glyph} {t : Text} : g ≠ .char '\n' → Word t → Word (.char '\\' :: g :: t)

def Spaces (t : Text) : Prop := ∀ g ∈ t, g ∈ Text.ofString " \t\r"

/-- A text with a property that it would lose if more of what follows belonged to it. -/
def Longest (P : Text → Prop) (t after : Text) : Prop :=
  P t ∧ ∀ more, more <+: after → P (t ++ more) → more = []

def Letter (g : Glyph) : Prop := ∃ c : Char, g = .char c ∧ (c.isAlpha = true ∨ c = '_')

def Digit (g : Glyph) : Prop := ∃ c : Char, g = .char c ∧ c.isDigit = true

def Identifier : Text → Prop
  | [] => False
  | g :: rest => Letter g ∧ ∀ h ∈ rest, Letter h ∨ Digit h

def EndsLine (after : Text) : Prop := after = [] ∨ ∃ rest, after = .char '\n' :: rest

def Unopened (t : Text) : Prop := ∀ level, ¬ opener level <+: t

def Unclosed (t : Text) : Prop :=
  ∃ level rest, (t = opener level ++ rest ∨ t = .char '#' :: opener level ++ rest) ∧
    ¬ Scan.closer level <:+: rest

def Unended (t : Text) : Prop :=
  ∃ rest, t = .char '"' :: rest ∧
    ∀ body after, Quotation body → rest ≠ body ++ .char '"' :: after

/-- A glyph that starts nothing: a blank that may not stand between arguments, or a backslash with
nothing to take along. -/
def Stray (t after : Text) : Prop :=
  ∃ g, t = [g] ∧ (g.isBlank = true ∧ g ∉ Text.ofString " \t\r\n" ∨
    g = .char '\\' ∧ EndsLine after)

/-- A token of a kind with a text stands before what follows. -/
inductive Spelled : TokenKind → Text → Text → Prop where
  | commentBracket {level : Nat} {body t after : Text} : Bracketed level body t →
      Spelled .commentBracket (.char '#' :: t) after
  | commentLine {body after : Text} : Unopened (body ++ after) → .char '\n' ∉ body →
      EndsLine after → Spelled .commentLine (.char '#' :: body) after
  | argumentBracket {level : Nat} {body t after : Text} : Bracketed level body t →
      Spelled .argumentBracket t after
  | argumentQuoted {body after : Text} : Quotation body →
      Spelled .argumentQuoted (.char '"' :: body ++ [.char '"']) after
  | newline {after : Text} : Spelled .newline [.char '\n'] after
  | space {t after : Text} : t ≠ [] → Longest Spaces t after → Spelled .space t after
  | parenLeft {after : Text} : Spelled .parenLeft [.char '('] after
  | parenRight {after : Text} : Spelled .parenRight [.char ')'] after
  | identifier {t after : Text} : t ≠ [] → Unopened (t ++ after) → Longest Word t after →
      Identifier t → Spelled .identifier t after
  | argumentUnquoted {t after : Text} : t ≠ [] → Unopened (t ++ after) → Longest Word t after →
      ¬ Identifier t → Spelled .argumentUnquoted t after
  | badBracket {t : Text} : Unclosed t → Spelled .badBracket t []
  | badString {t : Text} : Unended t → Spelled .badString t []
  | badCharacter {t after : Text} : Stray t after → Spelled .badCharacter t after

inductive Spelling : Text → List (TokenKind × Text) → Prop where
  | nil : Spelling [] []
  | cons {k : TokenKind} {t after : Text} {rest : List (TokenKind × Text)} :
      Spelled k t after → Spelling after rest → Spelling (t ++ after) ((k, t) :: rest)

open Scan

section Brackets

variable {level : Nat} {t after : Text}

theorem length_opener (level : Nat) : (opener level).length = level + 2 := by simp [opener]

theorem bracketLevel?_eq_some_iff : bracketLevel? t = some level ↔ opener level <+: t := by
  rw [bracketLevel?_eq_some]
  constructor
  · rintro ⟨rest, rfl⟩
    exact ⟨rest, by simp [opener]⟩
  · rintro ⟨rest, rfl⟩
    exact ⟨rest, by simp [opener]⟩

theorem bracketLevel?_eq_none_iff : bracketLevel? t = none ↔ Unopened t := by
  rw [Option.eq_none_iff_forall_ne_some]
  exact forall_congr' fun level => not_congr bracketLevel?_eq_some_iff

theorem closerOffset?_eq_none : closerOffset? level t = none ↔ ¬ closer level <:+: t := by
  induction t with
  | nil => simp [closerOffset?, closer]
  | cons g rest ih =>
    rw [closerOffset?, List.infix_cons_iff, not_or, ← List.isPrefixOf_iff_prefix, ← ih]
    split
    · next hp => simp [hp]
    · next hp => simp [hp]

theorem closerOffset?_concat {body : Text} :
    closerOffset? level (body ++ closer level) = some body.length ↔
      ∀ front back, body ++ closer level = front ++ closer level ++ back → back = [] := by
  induction body with
  | nil =>
    have hself : closerOffset? level (closer level) = some 0 := by
      rw [closer, List.cons_append, closerOffset?, closer, List.cons_append, if_pos (by simp)]
    refine iff_of_true hself ?_
    intro front back h
    have := congrArg List.length h
    simp only [List.nil_append, List.length_append] at this
    exact List.eq_nil_of_length_eq_zero (by omega)
  | cons g body ih =>
    rw [List.cons_append, closerOffset?]
    split
    · next hp =>
      obtain ⟨back, hback⟩ := List.isPrefixOf_iff_prefix.mp hp
      refine iff_of_false (by simp) fun h => ?_
      obtain rfl := h [] back (by simpa using hback.symm)
      have := congrArg List.length hback
      simp only [List.append_nil, List.length_cons, List.length_append] at this
      omega
    · next hp =>
      have hmap : (closerOffset? level (body ++ closer level)).map (· + 1) =
          some (g :: body).length ↔
          closerOffset? level (body ++ closer level) = some body.length := by
        simp [Option.map_eq_some_iff]
      rw [hmap, ih]
      constructor
      · intro h front back heq
        cases front with
        | nil => exact absurd (List.isPrefixOf_iff_prefix.mpr ⟨back, by simpa using heq.symm⟩) hp
        | cons x front =>
          simp only [List.cons_append, List.cons.injEq] at heq
          exact h front back heq.2
      · intro h front back heq
        exact h (g :: front) back (by simp [heq])

theorem bracketLength?_iff :
    bracketLength? (t ++ after) = some t.length ↔ ∃ level body, Bracketed level body t := by
  rw [bracketLength?_append (Nat.le_refl _)]
  constructor
  · intro h
    unfold bracketLength? at h
    split at h
    · cases h
    · next level hlevel =>
      obtain ⟨n, hn, hlength⟩ := Option.map_eq_some_iff.mp h
      obtain ⟨rest, rfl⟩ := bracketLevel?_eq_some_iff.mp hlevel
      rw [List.drop_left' (length_opener level)] at hn
      have hclose : rest.drop n = closer level := by
        refine ((closer_prefix_drop hn).eq_of_length ?_).symm
        rw [length_closer, List.length_drop]
        rw [List.length_append, length_opener] at hlength
        omega
      have hrest : rest = rest.take n ++ closer level := by
        rw [← hclose, List.take_append_drop]
      have hn' : (rest.take n).length = n := by
        have := closerOffset?_le hn
        rw [List.length_take]
        omega
      refine ⟨level, rest.take n, by rw [List.append_assoc, ← hrest], ?_⟩
      rw [← closerOffset?_concat, ← hrest, hn', hn]
  · rintro ⟨level, body, rfl, hfirst⟩
    have hlevel : bracketLevel? (opener level ++ body ++ closer level) = some level :=
      bracketLevel?_eq_some_iff.mpr ⟨body ++ closer level, by simp⟩
    rw [bracketLength?, hlevel]
    simp only
    rw [List.append_assoc, List.drop_left' (length_opener level), closerOffset?_concat.mpr hfirst]
    simp only [Option.map_some, List.length_append, length_opener, length_closer, Option.some.injEq]
    omega

/-- Brackets open at the head and have no length exactly if no closer follows. -/
theorem unclosed_iff : bracketLength? t = none ∧ (bracketLevel? t).isSome = true ↔
    ∃ level rest, t = opener level ++ rest ∧ ¬ closer level <:+: rest := by
  have hlength : ∀ level rest, bracketLength? (opener level ++ rest) = none ↔
      ¬ closer level <:+: rest := by
    intro level rest
    rw [bracketLength?, bracketLevel?_eq_some_iff.mpr (List.prefix_append _ _)]
    simp only
    rw [List.drop_left' (length_opener level), Option.map_eq_none_iff, closerOffset?_eq_none]
  constructor
  · rintro ⟨hnone, hsome⟩
    obtain ⟨level, hlevel⟩ := Option.isSome_iff_exists.mp hsome
    obtain ⟨rest, rfl⟩ := bracketLevel?_eq_some_iff.mp hlevel
    exact ⟨level, rest, rfl, (hlength level rest).mp hnone⟩
  · rintro ⟨level, rest, rfl, hcloser⟩
    refine ⟨(hlength level rest).mpr hcloser, ?_⟩
    rw [bracketLevel?_eq_some_iff.mpr (List.prefix_append _ _)]
    rfl

end Brackets

section Runs

variable {t after : Text}

theorem quoteLength?_of_quotation {body : Text} (h : Quotation body) (after : Text) :
    quoteLength? (body ++ .char '"' :: after) = some (body.length + 1) := by
  induction h with
  | nil => cases after <;> simp [quoteLength?]
  | @plain g t hquote hback _ ih =>
    have hstep : ∀ x u, quoteLength? (g :: x :: u) = (quoteLength? (x :: u)).map (· + 1) := by
      intro x u
      simp [quoteLength?, hquote, hback]
    cases t with
    | nil => rw [List.cons_append, List.nil_append, hstep, ← List.nil_append (_ :: after), ih]; rfl
    | cons x t => rw [List.cons_append, List.cons_append, hstep, ← List.cons_append, ih]; rfl
  | pair g _ ih => simpa [quoteLength?] using ih

theorem exists_quotation {n : Nat} (h : quoteLength? t = some n) :
    ∃ body after, t = body ++ .char '"' :: after ∧ Quotation body ∧ n = body.length + 1 := by
  fun_induction quoteLength? t generalizing n with
  | case1 => cases h
  | case2 => exact ⟨[], [], rfl, .nil, by simpa using h.symm⟩
  | case3 => cases h
  | case4 x rest => exact ⟨[], x :: rest, rfl, .nil, by simpa using h.symm⟩
  | case5 x rest _ ih =>
    obtain ⟨m, hm, rfl⟩ := Option.map_eq_some_iff.mp h
    obtain ⟨body, after, rfl, hbody, rfl⟩ := ih hm
    exact ⟨.char '\\' :: x :: body, after, rfl, .pair x hbody, rfl⟩
  | case6 g x rest hquote hback ih =>
    obtain ⟨m, hm, rfl⟩ := Option.map_eq_some_iff.mp h
    obtain ⟨body, after, hrest, hbody, rfl⟩ := ih hm
    exact ⟨g :: body, after, by rw [hrest]; rfl, .plain hquote hback hbody, rfl⟩

theorem quoteLength?_eq_none : quoteLength? t = none ↔
    ∀ body after, Quotation body → t ≠ body ++ .char '"' :: after := by
  constructor
  · rintro h body after hbody rfl
    rw [quoteLength?_of_quotation hbody] at h
    cases h
  · intro h
    rw [Option.eq_none_iff_forall_ne_some]
    intro n hn
    obtain ⟨body, after, ht, hbody, -⟩ := exists_quotation hn
    exact h body after hbody ht

theorem isOrdinary_iff {g : Glyph} :
    isOrdinary g = true ↔ g.isBlank = false ∧ g ∉ Text.ofString "()#\"\\" := by
  simp [isOrdinary, Text.ofString, and_assoc]

theorem Word.append {s : Text} (hs : Word s) (ht : Word t) : Word (s ++ t) := by
  induction hs with
  | nil => exact ht
  | plain hblank hplain _ ih => exact .plain hblank hplain ih
  | pair hline _ ih => exact .pair hline ih

theorem unquotedLength_of_word (h : Word t) (after : Text) :
    unquotedLength (t ++ after) = t.length + unquotedLength after := by
  induction h with
  | nil => simp
  | @plain g t hblank hplain _ ih =>
    have hordinary : isOrdinary g = true := isOrdinary_iff.mpr ⟨hblank, hplain⟩
    have hback : g ≠ .char '\\' := by
      rintro rfl
      revert hordinary
      decide
    have hstep : ∀ u, unquotedLength (g :: u) = unquotedLength u + 1 := by
      intro u
      cases u <;> simp [unquotedLength, hordinary, hback]
    rw [List.cons_append, hstep, ih, List.length_cons]
    omega
  | pair hline _ ih =>
    simp only [List.cons_append, unquotedLength, hline, if_true, if_false, ih, List.length_cons]
    omega

theorem word_take (t : Text) : Word (t.take (unquotedLength t)) := by
  fun_induction unquotedLength t with
  | case1 => exact .nil
  | case2 g hg => exact .plain (isOrdinary_iff.mp hg).1 (isOrdinary_iff.mp hg).2 .nil
  | case3 => exact .nil
  | case4 => exact .nil
  | case5 x rest hx ih => exact .pair hx ih
  | case6 g x rest _ hg ih => exact .plain (isOrdinary_iff.mp hg).1 (isOrdinary_iff.mp hg).2 ih
  | case7 => exact .nil

theorem longest_word_iff : Longest Word t after ↔ unquotedLength (t ++ after) = t.length := by
  constructor
  · rintro ⟨hword, hlongest⟩
    have hmore := hlongest _ (List.take_prefix _ _) (hword.append (word_take after))
    have hle := unquotedLength_le after
    rw [unquotedLength_of_word hword, ← List.length_take_of_le hle, hmore]
    rfl
  · intro h
    have hword : Word t := by
      have := word_take t
      rwa [(unquotedLength_append.mp h).1, List.take_length] at this
    refine ⟨hword, ?_⟩
    rintro more ⟨rest, rfl⟩ hmore
    rw [← List.append_assoc, unquotedLength_of_word hmore, List.length_append] at h
    exact List.eq_nil_of_length_eq_zero (by omega)

theorem isSpace_iff {g : Glyph} : g.isSpace = true ↔ g ∈ Text.ofString " \t\r" := by
  simp [Glyph.isSpace, Text.ofString, or_assoc]

theorem longest_spaces_iff :
    Longest Spaces t after ↔ ((t ++ after).takeWhile Glyph.isSpace).length = t.length := by
  rw [length_takeWhile_append]
  constructor
  · rintro ⟨hspaces, hlongest⟩
    have hself : t.takeWhile Glyph.isSpace = t :=
      List.takeWhile_eq_self_iff.mpr fun g hg => isSpace_iff.mpr (hspaces g hg)
    refine ⟨by rw [hself], fun g hg => Bool.eq_false_iff.mpr fun hspace => ?_⟩
    obtain ⟨rest, rfl⟩ := List.head?_eq_some_iff.mp hg
    have hmore := hlongest [g] ⟨rest, rfl⟩ (List.forall_mem_append.mpr
      ⟨hspaces, List.forall_mem_singleton.mpr (isSpace_iff.mp hspace)⟩)
    cases hmore
  · rintro ⟨hlength, hstop⟩
    have hself := (List.takeWhile_prefix (l := t) Glyph.isSpace).eq_of_length hlength
    refine ⟨fun g hg => isSpace_iff.mp (List.mem_takeWhile_imp (hself.symm ▸ hg)), ?_⟩
    intro more hprefix hmore
    cases more with
    | nil => rfl
    | cons g more =>
      obtain ⟨rest, rfl⟩ := hprefix
      have hspace := isSpace_iff.mpr (hmore g (by simp))
      rw [hstop g rfl] at hspace
      cases hspace

theorem endsLine_iff {body : Text} : .char '\n' ∉ body ∧ EndsLine after ↔
    ((body ++ after).takeWhile fun h : Glyph => !(h = .char '\n')).length = body.length := by
  rw [length_takeWhile_append]
  refine and_congr ?_ ?_
  · constructor
    · intro hbody
      rw [List.takeWhile_eq_self_iff.mpr]
      intro g hg
      have hne : g ≠ .char '\n' := fun h => hbody (h ▸ hg)
      simpa using hne
    · intro hlength hmem
      have hself := (List.takeWhile_prefix _).eq_of_length hlength
      have hline := List.mem_takeWhile_imp (hself.symm ▸ hmem)
      simp at hline
  · cases after with
    | nil => simp [EndsLine]
    | cons g after => simp [EndsLine]

theorem isLetter_iff {g : Glyph} : isLetter g = true ↔ Letter g := by
  simp only [isLetter, Bool.or_eq_true, Bool.and_eq_true, decide_eq_true_eq, Letter]
  cases g with
  | char c =>
    have halpha : c.isAlpha = (decide (c.val ≥ 'A'.val ∧ c.val ≤ 'Z'.val) ||
        (decide (c.val ≥ 'a'.val) && decide (c.val ≤ 'z'.val))) := rfl
    simp [Glyph.code_char, halpha, UInt32.le_iff_toNat_le]
  | stray b =>
    simp only [Glyph.code_stray, reduceCtorEq, or_false, false_and, exists_false, iff_false]
    omega

theorem isDigit_iff {g : Glyph} : isDigit g = true ↔ Digit g := by
  simp only [isDigit, Bool.and_eq_true, decide_eq_true_eq, Digit]
  cases g with
  | char c => simp [Glyph.code_char, Char.isDigit, UInt32.le_iff_toNat_le]
  | stray b =>
    simp only [Glyph.code_stray, reduceCtorEq, false_and, exists_false, iff_false]
    omega

theorem isIdentifier_iff : isIdentifier t = true ↔ Identifier t := by
  cases t with
  | nil => simp [isIdentifier, Identifier]
  | cons g rest =>
    simp only [isIdentifier, Identifier, Bool.and_eq_true, List.all_eq_true, Bool.or_eq_true,
      isLetter_iff, isDigit_iff]

end Runs

section Tokens

variable {g : Glyph} {body after : Text} {k : TokenKind}

theorem lexeme_of_stray {rest : Text} (h : Stray [g] rest) :
    lexeme g rest = (.badCharacter, 1) := by
  obtain ⟨x, hx, h⟩ := h
  cases hx
  have hword : g ∉ Text.ofString " \t\r\n()#[\"" ∧ unquotedLength (g :: rest) = 0 := by
    rcases h with ⟨hblank, hspace⟩ | ⟨rfl, rfl | ⟨rest, rfl⟩⟩
    · have hmarks : ∀ x ∈ Text.ofString "()#[\"\\", x.isBlank = false := by decide
      have hne : g ∉ Text.ofString "()#[\"\\" := by
        intro hg
        rw [hmarks g hg] at hblank
        cases hblank
      simp only [Text.ofString] at hspace hne ⊢
      refine ⟨by simp_all, unquotedLength_eq_zero (by simp [isOrdinary, hblank]) (by simp_all)⟩
    · exact ⟨by decide, rfl⟩
    · exact ⟨by decide, by simp [unquotedLength]⟩
  obtain ⟨hmark, hlength⟩ := hword
  simp only [Text.ofString] at hmark
  simp_all [lexeme, Glyph.isSpace, wordLexeme]

theorem stray_of_lexeme {rest : Text} (h : (lexeme g rest).1 = .badCharacter) :
    Stray [g] rest := by
  have hword : g ∉ Text.ofString " \t\r\n" ∧ g ∉ Text.ofString "()#\"" ∧
      unquotedLength (g :: rest) = 0 := by
    unfold lexeme at h
    repeat' split at h
    any_goals simp only [reduceCtorEq] at h
    next hsharp hlevel hquote hline hspace hleft hright =>
    refine ⟨?_, by simp [Text.ofString, hsharp, hquote, hleft, hright], ?_⟩
    · simpa [Text.ofString, hline, Glyph.isSpace, or_assoc] using hspace
    · unfold wordLexeme at h
      split at h
      · next hn => exact hn
      · split at h <;> cases h
  obtain ⟨hspace, hmark, hlength⟩ := hword
  refine ⟨g, rfl, ?_⟩
  by_cases hback : g = .char '\\'
  · refine Or.inr ⟨hback, ?_⟩
    subst hback
    cases rest with
    | nil => exact Or.inl rfl
    | cons x rest =>
      by_cases hx : x = .char '\n'
      · exact Or.inr ⟨rest, by rw [hx]⟩
      · simp [unquotedLength, hx] at hlength
  · refine Or.inl ⟨?_, hspace⟩
    cases hblank : g.isBlank with
    | true => rfl
    | false =>
      have hordinary : isOrdinary g = true := isOrdinary_iff.mpr ⟨hblank, by
        simp only [Text.ofString] at hmark ⊢
        simp_all⟩
      cases rest <;> simp [unquotedLength, hordinary, hback] at hlength

theorem spelled_of_lexeme (h : lexeme g (body ++ after) = (k, body.length + 1)) :
    Spelled k (g :: body) after := by
  have lexed := lexed_of_lexeme h
  have hstray : k = .badCharacter → Stray [g] (body ++ after) := fun hk =>
    stray_of_lexeme (by rw [h, hk])
  have hwhole : (body ++ after).length + 1 = body.length + 1 → after = [] := by
    intro hlength
    rw [List.length_append] at hlength
    exact List.eq_nil_of_length_eq_zero (by omega)
  have hsingle : body.length + 1 = 1 → body = [] := by
    intro hlength
    exact List.eq_nil_of_length_eq_zero (by omega)
  generalize hm : body.length + 1 = m at lexed
  cases lexed with
  | commentBracket hg hn =>
    obtain rfl := Nat.succ.inj hm
    obtain ⟨level, inner, hbody⟩ := bracketLength?_iff.mp hn
    rw [hg]
    exact .commentBracket hbody
  | openComment hg hnone hsome =>
    obtain rfl := hwhole hm.symm
    rw [List.append_nil] at hnone hsome
    obtain ⟨level, rest, rfl, hcloser⟩ := unclosed_iff.mp ⟨hnone, hsome⟩
    rw [hg]
    exact .badBracket ⟨level, rest, Or.inr rfl, hcloser⟩
  | commentLine hg hnone =>
    obtain ⟨hbody, hafter⟩ := endsLine_iff.mpr (Nat.succ.inj hm).symm
    rw [hg]
    exact .commentLine (bracketLevel?_eq_none_iff.mp hnone) hbody hafter
  | argumentBracket hg hn =>
    rw [← hm, ← List.cons_append] at hn
    obtain ⟨level, inner, hbody⟩ := bracketLength?_iff.mp hn
    exact .argumentBracket hbody
  | openBracket hg hnone hsome =>
    obtain rfl := hwhole hm.symm
    rw [List.append_nil] at hnone hsome
    obtain ⟨level, rest, hopen, hcloser⟩ := unclosed_iff.mp ⟨hnone, hsome⟩
    exact .badBracket ⟨level, rest, Or.inl hopen, hcloser⟩
  | argumentQuoted hg hn =>
    obtain ⟨inner, rest, heq, hinner, rfl⟩ := exists_quotation hn
    rw [← List.singleton_append, ← List.append_assoc] at heq
    obtain ⟨rfl, -⟩ := List.append_inj heq (by simpa using hm)
    rw [hg]
    exact .argumentQuoted hinner
  | openQuote hg hnone =>
    obtain rfl := hwhole hm.symm
    rw [List.append_nil] at hnone
    rw [hg]
    exact .badString ⟨body, rfl, quoteLength?_eq_none.mp hnone⟩
  | newline hg =>
    rw [hsingle hm, hg]
    exact .newline
  | space hg =>
    refine .space (List.cons_ne_nil _ _) (longest_spaces_iff.mpr ?_)
    rw [List.cons_append, List.takeWhile_cons_of_pos hg, List.length_cons, List.length_cons, hm]
  | parenLeft hg =>
    rw [hsingle hm, hg]
    exact .parenLeft
  | parenRight hg =>
    rw [hsingle hm, hg]
    exact .parenRight
  | identifier hnone hn hi =>
    rw [← hm, List.take_succ_cons, List.take_left] at hi
    exact .identifier (List.cons_ne_nil _ _) (bracketLevel?_eq_none_iff.mp hnone)
      (longest_word_iff.mpr (hn.trans hm.symm)) (isIdentifier_iff.mp hi)
  | argumentUnquoted hnone hn hi =>
    rw [← hm, List.take_succ_cons, List.take_left] at hi
    exact .argumentUnquoted (List.cons_ne_nil _ _) (bracketLevel?_eq_none_iff.mp hnone)
      (longest_word_iff.mpr (hn.trans hm.symm)) (by rw [← isIdentifier_iff, hi]; simp)
  | badCharacter =>
    have := hstray rfl
    rw [hsingle hm] at this ⊢
    exact .badCharacter this

theorem Spelled.lexeme_eq {t : Text} (h : Spelled k t after) :
    ∃ g body, t = g :: body ∧ lexeme g (body ++ after) = (k, body.length + 1) := by
  cases h with
  | @commentBracket level body t _ hbody =>
    refine ⟨_, t, rfl, Lexed.lexeme_eq (.commentBracket rfl ?_) rfl⟩
    exact bracketLength?_iff.mpr ⟨level, body, hbody⟩
  | @commentLine body _ hopen hbody hends =>
    refine ⟨_, body, rfl, Lexed.lexeme_eq ?_ rfl⟩
    rw [← endsLine_iff.mp ⟨hbody, hends⟩]
    exact .commentLine rfl (bracketLevel?_eq_none_iff.mpr hopen)
  | @argumentBracket level body t _ hbody =>
    have hn : bracketLength? (t ++ after) = some t.length :=
      bracketLength?_iff.mpr ⟨level, body, hbody⟩
    rw [hbody.text] at hn ⊢
    exact ⟨_, _, rfl, Lexed.lexeme_eq (.argumentBracket rfl hn) rfl⟩
  | @argumentQuoted body _ hbody =>
    refine ⟨_, body ++ [.char '"'], rfl, Lexed.lexeme_eq (.argumentQuoted rfl ?_) rfl⟩
    rw [List.append_assoc, List.length_append]
    exact quoteLength?_of_quotation hbody after
  | newline => exact ⟨_, [], rfl, Lexed.lexeme_eq (.newline rfl) rfl⟩
  | space hne hspaces =>
    obtain ⟨g, body, rfl⟩ := List.exists_cons_of_ne_nil hne
    have hg : g.isSpace = true := isSpace_iff.mpr (hspaces.1 g List.mem_cons_self)
    have hrun := longest_spaces_iff.mp hspaces
    rw [List.cons_append, List.takeWhile_cons_of_pos hg] at hrun
    refine ⟨g, body, rfl, Lexed.lexeme_eq ?_ rfl⟩
    rw [← List.length_cons (a := g), ← hrun, List.length_cons]
    exact .space hg
  | parenLeft => exact ⟨_, [], rfl, Lexed.lexeme_eq (.parenLeft rfl) rfl⟩
  | parenRight => exact ⟨_, [], rfl, Lexed.lexeme_eq (.parenRight rfl) rfl⟩
  | identifier hne hopen hword hi =>
    obtain ⟨g, body, rfl⟩ := List.exists_cons_of_ne_nil hne
    refine ⟨g, body, rfl, Lexed.lexeme_eq (.identifier (bracketLevel?_eq_none_iff.mpr hopen)
      (longest_word_iff.mp hword) ?_) rfl⟩
    rw [List.take_succ_cons, List.take_left]
    exact isIdentifier_iff.mpr hi
  | argumentUnquoted hne hopen hword hi =>
    obtain ⟨g, body, rfl⟩ := List.exists_cons_of_ne_nil hne
    refine ⟨g, body, rfl, Lexed.lexeme_eq (.argumentUnquoted (bracketLevel?_eq_none_iff.mpr hopen)
      (longest_word_iff.mp hword) ?_) rfl⟩
    rw [List.take_succ_cons, List.take_left]
    exact Bool.eq_false_iff.mpr fun h => hi (isIdentifier_iff.mp h)
  | badBracket hopen =>
    obtain ⟨level, rest, hform, hcloser⟩ := hopen
    obtain ⟨hnone, hsome⟩ := unclosed_iff.mpr ⟨level, rest, rfl, hcloser⟩
    rcases hform with rfl | rfl
    · have hcons : opener level ++ rest =
          .char '[' :: (List.replicate level (.char '=') ++ .char '[' :: rest) := by simp [opener]
      rw [hcons] at hnone hsome ⊢
      refine ⟨_, _, rfl, ?_⟩
      simp [lexeme, hnone, hsome]
    · refine ⟨_, opener level ++ rest, rfl, ?_⟩
      simp [lexeme, hnone, hsome]
  | badString hopen =>
    obtain ⟨rest, rfl, hends⟩ := hopen
    refine ⟨_, rest, rfl, ?_⟩
    simp [lexeme, quoteLength?_eq_none.mpr hends]
  | badCharacter hstray =>
    obtain ⟨g, rfl, hg⟩ := hstray
    exact ⟨g, [], rfl, lexeme_of_stray ⟨g, rfl, hg⟩⟩

/-- At every place of a text at most one token is spelled. -/
theorem Spelled.unique {t u rest : Text} {l : TokenKind} (ht : Spelled k t after)
    (hu : Spelled l u rest) (same : t ++ after = u ++ rest) : k = l ∧ t = u := by
  obtain ⟨g, body, rfl, hlexeme⟩ := ht.lexeme_eq
  obtain ⟨h, inner, rfl, hlexeme'⟩ := hu.lexeme_eq
  simp only [List.cons_append, List.cons.injEq] at same
  obtain ⟨rfl, hsame⟩ := same
  rw [hsame, hlexeme', Prod.mk.injEq] at hlexeme
  obtain ⟨rfl, hlength⟩ := hlexeme
  obtain ⟨rfl, -⟩ := List.append_inj hsame (by omega)
  exact ⟨rfl, rfl⟩

theorem spelled_of_tokensFrom {p : Position} {t : Text} {before rest : List Token} {a : Token}
    (h : tokensFrom p 0 t = before ++ a :: rest) :
    Spelled a.kind a.text (Token.textOf rest) := by
  induction t using token_induction generalizing p before with
  | nil =>
    simp [tokensFrom] at h
  | cons g body cont k hlexeme ih =>
    rw [tokensFrom_token p hlexeme] at h
    cases before with
    | nil =>
      obtain ⟨rfl, rfl⟩ := List.cons.inj h
      rw [textOf_tokensFrom]
      exact spelled_of_lexeme hlexeme
    | cons b before => exact ih (List.cons.inj h).2

theorem spelling_iff {p : Position} {t : Text} {lexemes : List (TokenKind × Text)} :
    Spelling t lexemes ↔ (tokensFrom p 0 t).map (fun a => (a.kind, a.text)) = lexemes := by
  constructor
  · intro h
    induction h generalizing p with
    | nil => rfl
    | cons hspelled _ ih =>
      obtain ⟨g, body, rfl, hlexeme⟩ := hspelled.lexeme_eq
      rw [List.cons_append, tokensFrom_token p hlexeme, List.map_cons, ih]
  · rintro rfl
    induction t using token_induction generalizing p with
    | nil => exact .nil
    | cons g body cont k hlexeme ih =>
      rw [tokensFrom_token p hlexeme]
      exact .cons (spelled_of_lexeme hlexeme) ih

/-- A token among those that follow it, by what stands at its place: it is of the one kind that is
spelled there, and it is a bad one exactly where nothing else can be. -/
structure Read (a : Token) (rest : List Token) : Prop where
  kind : ∀ k, Spelled k a.text (Token.textOf rest) ↔ a.kind = k
  badBracket : a.kind = .badBracket ↔ Unclosed (a.text ++ Token.textOf rest)
  badString : a.kind = .badString ↔ Unended (a.text ++ Token.textOf rest)
  badCharacter : a.kind = .badCharacter ↔ Stray a.text (Token.textOf rest)
  last : a.kind = .badBracket ∨ a.kind = .badString → rest = []

theorem eq_nil_of_textOf {p : Position} {t : Text} {before rest : List Token}
    (h : tokensFrom p 0 t = before ++ rest) (hrest : Token.textOf rest = []) : rest = [] := by
  cases rest with
  | nil => rfl
  | cons b rest =>
    obtain ⟨g, body, htext, -⟩ := (spelled_of_tokensFrom h).lexeme_eq
    simp [htext] at hrest

theorem read_of_tokensFrom {p : Position} {t : Text} {before rest : List Token} {a : Token}
    (h : tokensFrom p 0 t = before ++ a :: rest) : Read a rest := by
  have hspelled := spelled_of_tokensFrom h
  have hsplit : tokensFrom p 0 t = (before ++ [a]) ++ rest := by simpa using h
  have hlast : Token.textOf rest = [] → rest = [] := eq_nil_of_textOf hsplit
  -- Whatever is spelled at the place of the token is the token.
  have hunique : ∀ {k u more}, Spelled k u more → u ++ more = a.text ++ Token.textOf rest →
      a.kind = k := fun hk heq => (hk.unique hspelled heq).1.symm
  refine ⟨?_, ?_, ?_, ?_, ?_⟩
  · intro k
    constructor
    · intro hk
      exact hunique hk rfl
    · rintro rfl
      exact hspelled
  · constructor
    · intro hk
      rw [hk] at hspelled
      generalize Token.textOf rest = more at hspelled ⊢
      cases hspelled with
      | badBracket hopen => rwa [List.append_nil]
    · intro hopen
      exact hunique (.badBracket hopen) (List.append_nil _)
  · constructor
    · intro hk
      rw [hk] at hspelled
      generalize Token.textOf rest = more at hspelled ⊢
      cases hspelled with
      | badString hopen => rwa [List.append_nil]
    · intro hopen
      exact hunique (.badString hopen) (List.append_nil _)
  · constructor
    · intro hk
      rw [hk] at hspelled
      cases hspelled with
      | badCharacter hstray => exact hstray
    · intro hstray
      exact hunique (.badCharacter hstray) rfl
  · intro hk
    apply hlast
    generalize Token.textOf rest = more at hspelled ⊢
    rcases hk with hk | hk
    · rw [hk] at hspelled
      cases hspelled
      rfl
    · rw [hk] at hspelled
      cases hspelled
      rfl

def isWord (k : TokenKind) : Prop := k = .identifier ∨ k = .argumentUnquoted

theorem Spelled.longest_word {t : Text} (h : Spelled k t after) (hk : isWord k) :
    t ≠ [] ∧ Longest Word t after := by
  rcases hk with rfl | rfl
  · cases h with
    | identifier hne _ hword _ => exact ⟨hne, hword⟩
  · cases h with
    | argumentUnquoted hne _ hword _ => exact ⟨hne, hword⟩

theorem Spelled.longest_spaces {t : Text} (h : Spelled .space t after) :
    t ≠ [] ∧ Longest Spaces t after := by
  cases h with
  | space hne hspaces => exact ⟨hne, hspaces⟩

end Tokens

end Lexical

namespace Token

open Lexical

/-- Scanning realises the lexical grammar. Each token is of the kind that is spelled at its place,
and of no other; runs of blanks and of words are not cut in two; and the tokens of a text are the
only ones that the grammar has for it. -/
theorem scan_realises_grammar (t : Text) :
    (∀ before a after, scan t = before ++ a :: after → Read a after) ∧
    (∀ before a b after, scan t = before ++ a :: b :: after →
      ¬ (a.kind = .space ∧ b.kind = .space) ∧ ¬ (isWord a.kind ∧ isWord b.kind)) ∧
    ∀ lexemes, Spelling t lexemes ↔ (scan t).map (fun a => (a.kind, a.text)) = lexemes := by
  refine ⟨fun before a after h => read_of_tokensFrom h, ?_, fun lexemes => spelling_iff⟩
  intro before a b after h
  have hsplit : scan t = (before ++ [a]) ++ b :: after := by simpa using h
  have ha := spelled_of_tokensFrom h
  have hb := spelled_of_tokensFrom hsplit
  rw [textOf_cons] at ha
  constructor
  · rintro ⟨hka, hkb⟩
    rw [hka] at ha
    rw [hkb] at hb
    obtain ⟨-, hspaces, hlongest⟩ := ha.longest_spaces
    obtain ⟨hne, hmore, -⟩ := hb.longest_spaces
    exact hne (hlongest _ (List.prefix_append _ _) (List.forall_mem_append.mpr ⟨hspaces, hmore⟩))
  · rintro ⟨hka, hkb⟩
    obtain ⟨-, hword, hlongest⟩ := ha.longest_word hka
    obtain ⟨hne, hmore, -⟩ := hb.longest_word hkb
    exact hne (hlongest _ (List.prefix_append _ _) (hword.append hmore))

/-- An escaped blank, a quotation with a quote in it, a blank that may not stand there, and a
comment that closes at another level than it opens. -/
theorem scan_realises_grammar_unclosed :
    ∃ before a, scan (Text.ofString "f(a\\  [[]]b \"\\\"\"\u00a0#[=[ ]]") = before ++ [a] ∧
      a.text = Text.ofString "#[=[ ]]" ∧ Unclosed a.text ∧ before.length = 9 := by
  let t := Text.ofString "f(a\\  [[]]b \"\\\"\"\u00a0#[=[ ]]"
  have hscan : scan t = (scan t).take 9 ++ [(scan t)[9]] := by decide +kernel
  have hkind : (scan t)[9].kind = .badBracket := by decide +kernel
  have hread := (scan_realises_grammar t).1 _ _ _ hscan
  refine ⟨_, _, hscan, by decide +kernel, ?_, by decide +kernel⟩
  simpa using hread.badBracket.mp hkind

end Token

end Listfile
