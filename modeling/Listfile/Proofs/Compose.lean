import Listfile.Proofs.Scan
import Mathlib.Data.List.TakeWhile

/-!
Scanning in parts. How far a token reaches is decided by its own glyphs and, at most, by the glyph
that follows it. So a text can be scanned in two parts whenever the last token of the first part
would also end there in the whole text.
-/

namespace Listfile

namespace Scan

section Measures

variable {t u : Text} {n : Nat}

theorem takeWhile_append_stop {p : Glyph → Bool} (inside : ∀ g ∈ t, p g = true)
    (stop : ∀ g, u.head? = some g → p g = false) : (t ++ u).takeWhile p = t := by
  rw [List.takeWhile_append_of_pos inside]
  cases u with
  | nil => simp
  | cons g u => simp [stop g rfl]

/-- A run of glyphs ends at a seam exactly when all before it belong to it and the next does not. -/
theorem length_takeWhile_append {p : Glyph → Bool} :
    ((t ++ u).takeWhile p).length = t.length ↔
      (t.takeWhile p).length = t.length ∧ ∀ g, u.head? = some g → p g = false := by
  constructor
  · intro h
    have hself : (t ++ u).takeWhile p = t :=
      (List.prefix_of_prefix_length_le (List.takeWhile_prefix p) (List.prefix_append t u)
        (Nat.le_of_eq h)).eq_of_length h
    have inside : ∀ g ∈ t, p g = true := fun g hg => List.mem_takeWhile_imp (hself.symm ▸ hg)
    rw [List.takeWhile_append_of_pos inside] at hself
    have hall := takeWhile_append_stop (u := []) inside (by simp)
    rw [List.append_nil] at hall
    refine ⟨by rw [hall], fun g hg => ?_⟩
    cases u with
    | nil => cases hg
    | cons x u =>
      cases hg
      cases hp : p g with
      | false => rfl
      | true => simp [hp] at hself
  · rintro ⟨h, stop⟩
    have hself := (List.takeWhile_prefix (l := t) p).eq_of_length h
    rw [takeWhile_append_stop (fun g hg => List.mem_takeWhile_imp (hself.symm ▸ hg)) stop]

theorem bracketLevel?_eq_some :
    bracketLevel? t = some n ↔
      ∃ rest, t = .char '[' :: List.replicate n (.char '=') ++ .char '[' :: rest := by
  constructor
  · intro h
    cases t with
    | nil => cases h
    | cons g rest =>
      simp only [bracketLevel?] at h
      split at h
      · next hg =>
        simp only [Bool.and_eq_true, decide_eq_true_eq] at hg
        simp only [Option.some.injEq] at h
        obtain ⟨rfl, hnext⟩ := hg
        rw [h] at hnext
        have hrun : rest.takeWhile (· = Glyph.char '=') = List.replicate n (.char '=') :=
          List.eq_replicate_iff.mpr ⟨h, fun g hg => by simpa using List.mem_takeWhile_imp hg⟩
        obtain ⟨hlt, hget⟩ := List.getElem?_eq_some_iff.mp hnext
        have hdrop : rest.dropWhile (· = Glyph.char '=') = .char '[' :: rest.drop (n + 1) := by
          have hsplit := List.takeWhile_append_dropWhile (p := (· = Glyph.char '=')) (l := rest)
          rw [← hget, ← List.drop_eq_getElem_cons hlt]
          conv_rhs => rw [← hsplit, hrun]
          simp
        refine ⟨rest.drop (n + 1), ?_⟩
        rw [List.cons_append, ← hrun, ← hdrop, List.takeWhile_append_dropWhile]
      · cases h
  · rintro ⟨rest, rfl⟩
    have hrun : (List.replicate n (Glyph.char '=') ++ Glyph.char '[' :: rest).takeWhile
        (· = Glyph.char '=') = List.replicate n (.char '=') :=
      takeWhile_append_stop (by simp) (by simp)
    simp [bracketLevel?, hrun]

theorem bracketLevel?_append (h : bracketLevel? t = some n) :
    bracketLevel? (t ++ u) = some n := by
  obtain ⟨rest, rfl⟩ := bracketLevel?_eq_some.mp h
  exact bracketLevel?_eq_some.mpr ⟨rest ++ u, by simp⟩

theorem bracketLevel?_of_append (h : bracketLevel? (t ++ u) = some n) (hn : n + 2 ≤ t.length) :
    bracketLevel? t = some n := by
  obtain ⟨rest, hrest⟩ := bracketLevel?_eq_some.mp h
  have hopen : (.char '[' :: List.replicate n (.char '=') ++ [.char '['] : Text) <+: t := by
    have hwhole : (.char '[' :: List.replicate n (.char '=') ++ [.char '['] : Text) <+: t ++ u :=
      ⟨rest, by simp [hrest]⟩
    refine List.prefix_of_prefix_length_le hwhole (List.prefix_append t u) ?_
    simp only [List.length_append, List.length_cons, List.length_replicate, List.length_nil]
    omega
  obtain ⟨more, hmore⟩ := hopen
  exact bracketLevel?_eq_some.mpr ⟨more, by simp [← hmore]⟩

theorem bracketLevel?_append_none (h : bracketLevel? t = none) (hne : t ≠ [])
    (stop : ∀ g, u.head? = some g → g ≠ .char '=' ∧ g ≠ .char '[') :
    bracketLevel? (t ++ u) = none := by
  apply Option.eq_none_iff_forall_ne_some.mpr
  intro n hn
  by_cases hle : n + 2 ≤ t.length
  · simp [bracketLevel?_of_append hn hle] at h
  obtain ⟨rest, hrest⟩ := bracketLevel?_eq_some.mp hn
  -- The bracket ends behind `t`, so a glyph of it other than the first is the head of `u`.
  obtain ⟨k, hk⟩ : ∃ k, t.length = k + 1 :=
    ⟨t.length - 1, by have := List.length_pos_iff.mpr hne; omega⟩
  have hget : u.head? = (List.replicate n (.char '=') ++ .char '[' :: rest)[k]? := by
    have := congrArg (·[k + 1]?) hrest
    simp only [List.cons_append, List.getElem?_cons_succ] at this
    rw [← this, ← hk, List.getElem?_append_right (Nat.le_refl _), Nat.sub_self,
      List.head?_eq_getElem?]
  by_cases hkn : k < n
  · rw [List.getElem?_append_left (by simpa using hkn), List.getElem?_replicate, if_pos hkn] at hget
    exact (stop _ hget).1 rfl
  · have : k = n := by omega
    rw [this, List.getElem?_append_right (by simp), List.length_replicate, Nat.sub_self] at hget
    exact (stop _ hget).2 rfl

theorem bracketLevel?_none_of_append (h : bracketLevel? (t ++ u) = none) :
    bracketLevel? t = none := by
  cases ht : bracketLevel? t with
  | none => rfl
  | some n => simp [bracketLevel?_append ht] at h

theorem closerOffset?_append {level : Nat} (h : n + (level + 2) ≤ t.length) :
    closerOffset? level (t ++ u) = some n ↔ closerOffset? level t = some n := by
  induction t generalizing n with
  | nil => simp at h
  | cons g rest ih =>
    have hlong : (closer level).length ≤ (g :: rest).length := by
      rw [length_closer]
      omega
    have hprefix : (closer level).isPrefixOf (g :: rest ++ u) =
        (closer level).isPrefixOf (g :: rest) := by
      rw [Bool.eq_iff_iff, List.isPrefixOf_iff_prefix, List.isPrefixOf_iff_prefix]
      exact ⟨fun hp => List.prefix_of_prefix_length_le hp (List.prefix_append _ _) hlong,
        fun hp => hp.trans (List.prefix_append _ _)⟩
    rw [List.cons_append] at hprefix ⊢
    simp only [closerOffset?, hprefix]
    split
    · rfl
    · cases n with
      | zero => simp
      | succ n =>
        have := ih (n := n) (by simp only [List.length_cons] at h; omega)
        simpa [Option.map_eq_some_iff] using this

theorem closer_prefix_drop {level n : Nat} {t : Text} (h : closerOffset? level t = some n) :
    closer level <+: t.drop n := by
  induction t generalizing n with
  | nil => cases h
  | cons g rest ih =>
    rw [closerOffset?] at h
    split at h
    · next hp =>
      cases h
      exact List.isPrefixOf_iff_prefix.mp hp
    · obtain ⟨m, hm, rfl⟩ := Option.map_eq_some_iff.mp h
      exact ih hm

theorem bracketLength?_append (h : n ≤ t.length) :
    bracketLength? (t ++ u) = some n ↔ bracketLength? t = some n := by
  have level_le : ∀ {s : Text} {level : Nat}, bracketLevel? s = some level →
      bracketLength? s = (closerOffset? level (s.drop (level + 2))).map (· + 2 * (level + 2)) := by
    intro s level hs
    simp only [bracketLength?, hs]
  constructor
  · intro hn
    cases hl : bracketLevel? (t ++ u) with
    | none => simp [bracketLength?, hl] at hn
    | some level =>
      rw [level_le hl] at hn
      obtain ⟨m, hm, rfl⟩ := Option.map_eq_some_iff.mp hn
      rw [List.drop_append_of_le_length (by omega),
        closerOffset?_append (by rw [List.length_drop]; omega)] at hm
      rw [level_le (bracketLevel?_of_append hl (by omega)), hm]
      rfl
  · intro hn
    cases hl : bracketLevel? t with
    | none => simp [bracketLength?, hl] at hn
    | some level =>
      rw [level_le hl] at hn
      obtain ⟨m, hm, rfl⟩ := Option.map_eq_some_iff.mp hn
      rw [level_le (bracketLevel?_append hl), List.drop_append_of_le_length (by omega),
        (closerOffset?_append (by rw [List.length_drop]; omega)).mpr hm]
      rfl

theorem quoteLength?_pos (h : quoteLength? t = some n) : 0 < n := by
  fun_induction quoteLength? t generalizing n with
  | case1 => simp at h
  | case2 => simp only [Option.some.injEq] at h; omega
  | case3 => simp at h
  | case4 => simp only [Option.some.injEq] at h; omega
  | case5 => obtain ⟨m, -, rfl⟩ := Option.map_eq_some_iff.mp h; omega
  | case6 => obtain ⟨m, -, rfl⟩ := Option.map_eq_some_iff.mp h; omega

theorem quoteLength?_append (h : n ≤ t.length) :
    quoteLength? (t ++ u) = some n ↔ quoteLength? t = some n := by
  fun_induction quoteLength? t generalizing n with
  | case1 =>
    simp only [List.length_nil, Nat.le_zero_eq] at h
    subst h
    constructor
    · intro hq
      exact absurd (quoteLength?_pos hq) (by omega)
    · intro hq
      cases hq
  | case2 =>
    cases u with
    | nil => simp [quoteLength?]
    | cons x u => simp [quoteLength?]
  | case3 g hg =>
    cases u with
    | nil => simp [quoteLength?, hg]
    | cons x u =>
      simp only [List.length_cons, List.length_nil] at h
      simp only [List.cons_append, List.nil_append, quoteLength?, hg, if_false]
      constructor
      · intro hq
        -- A quotation that goes on into the second text is longer than the first.
        split at hq
        · obtain ⟨m, hm, rfl⟩ := Option.map_eq_some_iff.mp hq
          omega
        · obtain ⟨m, hm, rfl⟩ := Option.map_eq_some_iff.mp hq
          have := quoteLength?_pos hm
          omega
      · intro hq
        cases hq
  | case4 x rest => simp [quoteLength?]
  | case5 x rest hq ih =>
    simp only [List.length_cons] at h
    simp only [List.cons_append, quoteLength?, hq, if_false, if_true, Option.map_eq_some_iff]
    constructor
    · rintro ⟨m, hm, rfl⟩
      exact ⟨m, (ih (by omega)).mp hm, rfl⟩
    · rintro ⟨m, hm, rfl⟩
      exact ⟨m, (ih (by omega)).mpr hm, rfl⟩
  | case6 g x rest hg hb ih =>
    simp only [List.length_cons] at h ih
    simp only [List.cons_append, quoteLength?, hg, hb, if_false, Option.map_eq_some_iff] at ih ⊢
    constructor
    · rintro ⟨m, hm, rfl⟩
      exact ⟨m, (ih (by omega)).mp hm, rfl⟩
    · rintro ⟨m, hm, rfl⟩
      exact ⟨m, (ih (by omega)).mpr hm, rfl⟩

theorem unquotedLength_append :
    unquotedLength (t ++ u) = t.length ↔ unquotedLength t = t.length ∧ unquotedLength u = 0 := by
  fun_induction unquotedLength t with
  | case1 => simp
  | case2 g hg =>
    have hb : g ≠ .char '\\' := by
      rintro rfl
      revert hg
      decide
    cases u with
    | nil => simp [unquotedLength, hg]
    | cons x u => simp [unquotedLength, hg, hb]
  | case3 g hg =>
    cases u with
    | nil => simp [unquotedLength, hg]
    | cons x u =>
      simp only [List.cons_append, List.nil_append, unquotedLength, hg]
      split
      · split <;> simp
      · simp
  | case4 rest => simp [unquotedLength]
  | case5 x rest hx ih => simpa [unquotedLength, hx] using ih
  | case6 g x rest hb ho ih => simpa [unquotedLength, hb, ho] using ih
  | case7 g x rest hb ho => simp [unquotedLength, hb, ho]

theorem unquotedLength_eq_zero {g : Glyph} (ho : isOrdinary g = false) (hb : g ≠ .char '\\') :
    unquotedLength (g :: t) = 0 := by
  cases t with
  | nil => simp [unquotedLength, ho]
  | cons x t => simp [unquotedLength, ho, hb]

theorem ordinary_of_unquotedLength {g : Glyph} (h : unquotedLength (g :: t) ≠ 0) :
    isOrdinary g = true ∨ g = .char '\\' := by
  by_cases hb : g = .char '\\'
  · exact Or.inr hb
  · refine Or.inl (Decidable.byContradiction fun ho => h ?_)
    exact unquotedLength_eq_zero (by simpa using ho) hb

end Measures

/-- Whether a token of a kind ends before a text: only the first glyph of the text matters. -/
def Fits (k : TokenKind) (cont : Text) : Prop :=
  ∀ g, cont.head? = some g →
    match k with
    | .commentLine => g = .char '\n'
    | .space => g.isSpace = false
    | .identifier | .argumentUnquoted => isOrdinary g = false ∧ g ≠ .char '\\'
    | _ => True

theorem fits_nil (k : TokenKind) : Fits k [] := by
  rintro g ⟨⟩

theorem fits_of_append {k : TokenKind} {s t : Text} (h : Fits k (s ++ t)) : Fits k s := by
  cases s with
  | nil => exact fits_nil k
  | cons g s => exact h

theorem fits_append {k : TokenKind} {s : Text} (h : Fits k s) (hne : s ≠ []) (t : Text) :
    Fits k (s ++ t) := by
  cases s with
  | nil => exact absurd rfl hne
  | cons g s => exact h

def Whole (k : TokenKind) : Text → Prop
  | [] => False
  | g :: rest => lexeme g rest = (k, rest.length + 1)

instance (k : TokenKind) : (t : Text) → Decidable (Whole k t)
  | [] => inferInstanceAs (Decidable False)
  | g :: rest => inferInstanceAs (Decidable (lexeme g rest = (k, rest.length + 1)))

/-- The forms of a token exclude each other, those of bad tokens apart. -/
theorem Lexed.lexeme_eq {g : Glyph} {rest : Text} {k : TokenKind} {n : Nat}
    (h : Lexed g rest k n) (good : k.isBad = false) : lexeme g rest = (k, n) := by
  have word : ∀ {m : Nat}, bracketLevel? (g :: rest) = none →
      unquotedLength (g :: rest) = m + 1 → lexeme g rest = wordLexeme (g :: rest) := by
    intro m hl hm
    have hg := ordinary_of_unquotedLength (t := rest) (g := g) (by omega)
    have hsharp : g ≠ .char '#' := by rintro rfl; revert hg; decide
    have hquote : g ≠ .char '"' := by rintro rfl; revert hg; decide
    have hnewline : g ≠ .char '\n' := by rintro rfl; revert hg; decide
    have hleft : g ≠ .char '(' := by rintro rfl; revert hg; decide
    have hright : g ≠ .char ')' := by rintro rfl; revert hg; decide
    have hspace : g.isSpace = false := by
      apply Bool.eq_false_iff.mpr
      intro hs
      simp only [Glyph.isSpace, Bool.or_eq_true, decide_eq_true_eq] at hs
      rcases hs with (rfl | rfl) | rfl <;> revert hg <;> decide
    simp [lexeme, hsharp, hl, hquote, hnewline, hspace, hleft, hright]
  cases h with
  | commentBracket hg hn => simp [lexeme, hg, hn]
  | commentLine hg hl =>
    have hn : bracketLength? rest = none := by simp [bracketLength?, hl]
    simp [lexeme, hg, hn, hl]
  | argumentBracket hg hn =>
    have hl : (bracketLevel? (g :: rest)).isSome = true := by
      cases hb : bracketLevel? (g :: rest) with
      | none => simp [bracketLength?, hb] at hn
      | some level => rfl
    rw [hg] at hl hn
    simp [lexeme, hg, hl, hn]
  | argumentQuoted hg hn => simp [lexeme, hg, hn]
  | newline hg => simp [lexeme, hg]
  | space hg =>
    simp only [Glyph.isSpace, Bool.or_eq_true, decide_eq_true_eq] at hg
    rcases hg with (rfl | rfl) | rfl <;> simp [lexeme, Glyph.isSpace]
  | parenLeft hg => simp [lexeme, hg, Glyph.isSpace]
  | parenRight hg => simp [lexeme, hg, Glyph.isSpace]
  | identifier hl hn hi => simp only [word hl hn, wordLexeme, hn, hi, if_true]
  | argumentUnquoted hl hn hi =>
    simp only [word hl hn, wordLexeme, hn, hi, Bool.false_eq_true, if_false]
  | openComment => cases good
  | openBracket => cases good
  | openQuote => cases good
  | badCharacter => cases good

theorem fits_word_stop {cont : Text} (h : Fits .argumentUnquoted cont) :
    ∀ g, cont.head? = some g → g ≠ .char '=' ∧ g ≠ .char '[' := by
  intro g hg
  have ho := (h g hg).1
  constructor
  · rintro rfl
    revert ho
    decide
  · rintro rfl
    revert ho
    decide

theorem unquotedLength_of_fits {cont : Text} (h : Fits .argumentUnquoted cont) :
    unquotedLength cont = 0 := by
  cases cont with
  | nil => rfl
  | cons g cont => exact unquotedLength_eq_zero (h g rfl).1 (h g rfl).2

theorem lexed_of_lexeme {g : Glyph} {rest : Text} {k : TokenKind} {n : Nat}
    (h : lexeme g rest = (k, n)) : Lexed g rest k n := by
  have := lexed_lexeme g rest
  rwa [h] at this

theorem word_append {g : Glyph} {body cont : Text} (fits : Fits .argumentUnquoted cont)
    (hl : bracketLevel? (g :: body) = none)
    (hn : unquotedLength (g :: body) = body.length + 1) :
    bracketLevel? (g :: (body ++ cont)) = none ∧
      unquotedLength (g :: (body ++ cont)) = body.length + 1 :=
  ⟨bracketLevel?_append_none hl (by simp) (fits_word_stop fits),
    (unquotedLength_append (t := g :: body)).mpr ⟨hn, unquotedLength_of_fits fits⟩⟩

/-- A token stays what it is in front of every text before which it ends. -/
theorem lexeme_append {g : Glyph} {body cont : Text} {k : TokenKind}
    (h : lexeme g body = (k, body.length + 1)) (good : k.isBad = false) (fits : Fits k cont) :
    lexeme g (body ++ cont) = (k, body.length + 1) := by
  have hlexed := lexed_of_lexeme h
  refine Lexed.lexeme_eq ?_ good
  generalize hm : body.length + 1 = m at hlexed
  cases hlexed with
  | commentBracket hg hn => exact .commentBracket hg ((bracketLength?_append (by omega)).mpr hn)
  | commentLine hg hl =>
    have hstop : ∀ x, cont.head? = some x → x = .char '\n' := fits
    have hlevel : bracketLevel? (body ++ cont) = none := by
      by_cases hb : body = []
      · subst hb
        cases cont with
        | nil => rfl
        | cons x cont => exact bracketLevel?_eq_none (by rw [hstop x rfl]; decide)
      · refine bracketLevel?_append_none hl hb fun x hx => ?_
        rw [hstop x hx]
        decide
    have hrun := (length_takeWhile_append (u := cont)).mpr ⟨Nat.succ.inj hm.symm, fun x hx => by
      simp [hstop x hx]⟩
    have := Lexed.commentLine hg hlevel
    rwa [hrun, hm] at this
  | argumentBracket hg hn =>
    refine .argumentBracket hg ?_
    rw [← List.cons_append]
    exact (bracketLength?_append (by simp only [List.length_cons]; omega)).mpr hn
  | argumentQuoted hg hn => exact .argumentQuoted hg ((quoteLength?_append (by omega)).mpr hn)
  | newline hg => exact .newline hg
  | space hg =>
    have hrun := length_takeWhile_append.mpr ⟨Nat.succ.inj hm.symm, fits⟩
    have : Lexed g (body ++ cont) .space _ := .space hg
    rwa [hrun, hm] at this
  | parenLeft hg => exact .parenLeft hg
  | parenRight hg => exact .parenRight hg
  | @identifier n hl hn hi =>
    obtain rfl : body.length = n := by omega
    obtain ⟨hl', hn'⟩ := word_append fits hl hn
    exact .identifier hl' hn' (by simpa using hi)
  | @argumentUnquoted n hl hn hi =>
    obtain rfl : body.length = n := by omega
    obtain ⟨hl', hn'⟩ := word_append fits hl hn
    exact .argumentUnquoted hl' hn' (by simpa using hi)
  | openComment => cases good
  | openBracket => cases good
  | openQuote => cases good
  | badCharacter => cases good

theorem word_of_append {g : Glyph} {body cont : Text}
    (next : unquotedLength cont = 0 → cont.head? ≠ some (.char '\\'))
    (hl : bracketLevel? (g :: (body ++ cont)) = none)
    (hn : unquotedLength (g :: (body ++ cont)) = body.length + 1) :
    Fits .argumentUnquoted cont ∧ bracketLevel? (g :: body) = none ∧
      unquotedLength (g :: body) = body.length + 1 := by
  obtain ⟨hbody, hcont⟩ := (unquotedLength_append (t := g :: body)).mp hn
  refine ⟨fun x hx => ?_, bracketLevel?_none_of_append (u := cont) hl, hbody⟩
  cases cont with
  | nil => cases hx
  | cons y cont =>
    cases hx
    have hback : x ≠ .char '\\' := by
      rintro rfl
      exact next hcont rfl
    refine ⟨?_, hback⟩
    cases ho : isOrdinary x with
    | false => rfl
    | true => cases cont <;> simp [unquotedLength, ho, hback] at hcont

theorem lexeme_of_append {g : Glyph} {body cont : Text} {k : TokenKind}
    (h : lexeme g (body ++ cont) = (k, body.length + 1)) (good : k.isBad = false)
    (next : unquotedLength cont = 0 → cont.head? ≠ some (.char '\\')) :
    lexeme g body = (k, body.length + 1) ∧ Fits k cont := by
  have hlexed := lexed_of_lexeme h
  suffices hwhole : Lexed g body k (body.length + 1) ∧ Fits k cont from
    ⟨hwhole.1.lexeme_eq good, hwhole.2⟩
  generalize hm : body.length + 1 = m at hlexed
  cases hlexed with
  | commentBracket hg hn =>
    exact ⟨.commentBracket hg ((bracketLength?_append (by omega)).mp hn), fun _ _ => trivial⟩
  | commentLine hg hl =>
    obtain ⟨hrun, hstop⟩ := length_takeWhile_append.mp (Nat.succ.inj hm.symm)
    have := Lexed.commentLine hg (bracketLevel?_none_of_append hl)
    rw [hrun, hm] at this
    exact ⟨this, fun x hx => by simpa using hstop x hx⟩
  | argumentBracket hg hn =>
    refine ⟨.argumentBracket hg ?_, fun _ _ => trivial⟩
    rw [← List.cons_append] at hn
    exact (bracketLength?_append (by simp only [List.length_cons]; omega)).mp hn
  | argumentQuoted hg hn =>
    exact ⟨.argumentQuoted hg ((quoteLength?_append (by omega)).mp hn), fun _ _ => trivial⟩
  | newline hg => exact ⟨.newline hg, fun _ _ => trivial⟩
  | space hg =>
    obtain ⟨hrun, hstop⟩ := length_takeWhile_append.mp (Nat.succ.inj hm.symm)
    have : Lexed g body .space _ := .space hg
    rw [hrun, hm] at this
    exact ⟨this, hstop⟩
  | parenLeft hg => exact ⟨.parenLeft hg, fun _ _ => trivial⟩
  | parenRight hg => exact ⟨.parenRight hg, fun _ _ => trivial⟩
  | @identifier n hl hn hi =>
    obtain rfl : body.length = n := by omega
    obtain ⟨fits, hl', hn'⟩ := word_of_append next hl hn
    exact ⟨.identifier hl' hn' (by simpa using hi), fits⟩
  | @argumentUnquoted n hl hn hi =>
    obtain rfl : body.length = n := by omega
    obtain ⟨fits, hl', hn'⟩ := word_of_append next hl hn
    exact ⟨.argumentUnquoted hl' hn' (by simpa using hi), fits⟩
  | openComment => cases good
  | openBracket => cases good
  | openQuote => cases good
  | badCharacter => cases good

def kinds (t : Text) : List TokenKind := (Token.scan t).map (·.kind)

theorem tokensFrom_token (p : Position) {g : Glyph} {body cont : Text} {k : TokenKind}
    (h : lexeme g (body ++ cont) = (k, body.length + 1)) :
    tokensFrom p 0 (g :: (body ++ cont)) =
      ⟨k, g :: body, p⟩ :: tokensFrom (p.advance (g :: body)) 0 cont := by
  rw [tokensFrom_cons, h]
  simp

/-- Induction along the tokens of a text, each with its own glyphs. -/
theorem token_induction {motive : Text → Prop} (nil : motive [])
    (cons : ∀ (g : Glyph) (body cont : Text) (k : TokenKind),
      lexeme g (body ++ cont) = (k, body.length + 1) → motive cont →
      motive (g :: (body ++ cont))) (t : Text) : motive t := by
  induction t using scan_induction with
  | nil => exact nil
  | cons g rest ih =>
    obtain ⟨n, hn⟩ : ∃ n, (lexeme g rest).2 = n + 1 :=
      ⟨(lexeme g rest).2 - 1, by have := (lexeme_bounds g rest).1; omega⟩
    have hle := (lexeme_bounds g rest).2
    rw [hn, List.drop_succ_cons] at ih
    have := cons g (rest.take n) (rest.drop n) (lexeme g rest).1 (by
      rw [List.take_append_drop, List.length_take, Nat.min_eq_left (by omega), ← hn]) ih
    rwa [List.take_append_drop] at this

theorem kinds_tokensFrom (p : Position) (t : Text) :
    (tokensFrom p 0 t).map (·.kind) = kinds t := by
  suffices h : ∀ q, (tokensFrom p 0 t).map (·.kind) = (tokensFrom q 0 t).map (·.kind) from
    h .start
  induction t using token_induction generalizing p with
  | nil => simp [tokensFrom]
  | cons g body cont k h ih =>
    intro q
    rw [tokensFrom_token p h, tokensFrom_token q h, List.map_cons, List.map_cons, ih]

@[simp] theorem kinds_nil : kinds [] = [] := rfl

theorem kinds_token {g : Glyph} {body cont : Text} {k : TokenKind}
    (h : lexeme g (body ++ cont) = (k, body.length + 1)) :
    kinds (g :: (body ++ cont)) = k :: kinds cont := by
  rw [kinds, Token.scan, tokensFrom_token .start h, List.map_cons, kinds_tokensFrom]

def Good (t : Text) : Prop := ∀ k ∈ kinds t, k.isBad = false

theorem Good.head?_ne {t : Text} (h : Good t) (ht : unquotedLength t = 0) :
    t.head? ≠ some (.char '\\') := by
  intro hhead
  cases t with
  | nil => cases hhead
  | cons g rest =>
    cases hhead
    have hlex : lexeme (.char '\\') rest = (.badCharacter, 1) := by
      simp [lexeme, Glyph.isSpace, wordLexeme, ht]
    have hk : kinds (.char '\\' :: ([] ++ rest)) = .badCharacter :: kinds rest := kinds_token hlex
    rw [List.nil_append] at hk
    have := h .badCharacter (by rw [hk]; exact List.mem_cons_self)
    cases this

/-- The last token of a text ends before another text. -/
def Meets (s t : Text) : Prop := ∀ k, (kinds s).getLast? = some k → Fits k t

/-- Scanning two texts as one: if the first is good and its last token ends before the second, the
tokens are those of the first and then those of the second. -/
theorem tokensFrom_append (p : Position) {s t : Text} (good : Good s) (meets : Meets s t) :
    tokensFrom p 0 (s ++ t) = tokensFrom p 0 s ++ tokensFrom (p.advance s) 0 t := by
  induction s using token_induction generalizing p with
  | nil => simp [tokensFrom, Position.advance_nil]
  | cons g body cont k h ih =>
    have hkinds := kinds_token h
    have hgood : Good cont := fun k' hk' => good k' (by rw [hkinds]; exact .tail _ hk')
    have hk : k.isBad = false := good k (by rw [hkinds]; exact List.mem_cons_self)
    obtain ⟨hwhole, hfits⟩ := lexeme_of_append h hk hgood.head?_ne
    have hmeets : Meets cont t := by
      intro k' hk'
      refine meets k' ?_
      rw [hkinds, List.getLast?_cons, hk']
      rfl
    have hnext : Fits k (cont ++ t) := by
      cases cont with
      | nil => exact meets k (by rw [hkinds]; rfl)
      | cons x cont => exact fits_append hfits (by simp) t
    have hlex := lexeme_append hwhole hk hnext
    have hassoc : g :: (body ++ cont) ++ t = g :: (body ++ (cont ++ t)) := by simp
    have hplace : p.advance (g :: (body ++ cont)) = (p.advance (g :: body)).advance cont :=
      Position.advance_append p (g :: body) cont
    rw [hassoc, tokensFrom_token p hlex, tokensFrom_token p h, ih _ hgood hmeets,
      List.cons_append, hplace]

theorem kinds_append {s t : Text} (good : Good s) (meets : Meets s t) :
    kinds (s ++ t) = kinds s ++ kinds t := by
  rw [← kinds_tokensFrom .start, tokensFrom_append .start good meets, List.map_append,
    kinds_tokensFrom, kinds_tokensFrom]

theorem tokensFrom_whole (p : Position) {k : TokenKind} {t : Text} (h : Whole k t) :
    tokensFrom p 0 t = [⟨k, t, p⟩] := by
  cases t with
  | nil => cases h
  | cons g rest =>
    have hlex : lexeme g (rest ++ []) = (k, rest.length + 1) := by rwa [List.append_nil]
    have := tokensFrom_token p hlex
    simpa [tokensFrom] using this

theorem kinds_whole {k : TokenKind} {t : Text} (h : Whole k t) : kinds t = [k] := by
  rw [← kinds_tokensFrom .start, tokensFrom_whole .start h]
  rfl

theorem Whole.meets {k : TokenKind} {s t : Text} (h : Whole k s) (fits : Fits k t) :
    Meets s t := by
  intro k' hk'
  rw [kinds_whole h] at hk'
  cases hk'
  exact fits

theorem Whole.good {k : TokenKind} {t : Text} (h : Whole k t) (hk : k.isBad = false) : Good t := by
  intro k' hk'
  rw [kinds_whole h, List.mem_singleton] at hk'
  rw [hk', hk]

theorem Whole.ne_nil {k : TokenKind} {t : Text} (h : Whole k t) : t ≠ [] := by
  rintro rfl
  exact h

/-- Where the tokens of a good text are split, the text falls into two that are scanned alone. -/
theorem tokensFrom_split {p : Position} {t : Text} {xs ys : List Token} (good : Good t)
    (h : tokensFrom p 0 t = xs ++ ys) :
    tokensFrom p 0 (Token.textOf xs) = xs ∧ Meets (Token.textOf xs) (Token.textOf ys) ∧
      tokensFrom (p.advance (Token.textOf xs)) 0 (Token.textOf ys) = ys := by
  induction xs generalizing p t with
  | nil =>
    refine ⟨by simp [tokensFrom], by simp [Meets], ?_⟩
    rw [List.nil_append] at h
    rw [← h, textOf_tokensFrom]
    simp [Position.advance_nil]
  | cons x xs ih =>
    induction t using token_induction with
    | nil => simp [tokensFrom] at h
    | cons g body cont k hlex _ =>
      have hkinds := kinds_token hlex
      have hgood : Good cont := fun k' hk' => good k' (by rw [hkinds]; exact .tail _ hk')
      have hk : k.isBad = false := good k (by rw [hkinds]; exact List.mem_cons_self)
      rw [tokensFrom_token p hlex, List.cons_append, List.cons.injEq] at h
      obtain ⟨rfl, hrest⟩ := h
      obtain ⟨hxs, hmeets, hys⟩ := ih hgood hrest
      have hcont : cont = Token.textOf xs ++ Token.textOf ys := by
        rw [← Token.textOf_append, ← hrest, textOf_tokensFrom]
      -- The first token may be cut loose here, and then set before the text of `xs` alone.
      obtain ⟨hwhole, hfits⟩ := lexeme_of_append hlex hk hgood.head?_ne
      rw [hcont] at hfits
      have hlex' := lexeme_append hwhole hk (fits_of_append hfits)
      have htext : Token.textOf (⟨k, g :: body, p⟩ :: xs) = g :: (body ++ Token.textOf xs) := by
        simp
      rw [htext]
      refine ⟨?_, ?_, ?_⟩
      · rw [tokensFrom_token p hlex', hxs]
      · intro k' hk'
        rw [kinds_token hlex', List.getLast?_cons] at hk'
        cases hlast : (kinds (Token.textOf xs)).getLast? with
        | some k'' =>
          rw [hlast] at hk'
          cases hk'
          exact hmeets _ hlast
        | none =>
          -- Without further tokens the seam is the end of the first one.
          rw [hlast] at hk'
          cases hk'
          have hnil : Token.textOf xs = [] := by
            rw [List.getLast?_eq_none_iff, kinds, List.map_eq_nil_iff] at hlast
            rw [← Token.textOf_scan (Token.textOf xs), hlast]
            rfl
          rwa [hnil] at hfits
      · rw [← List.cons_append, Position.advance_append]
        exact hys

theorem good_of_tokens {p : Position} {t : Text} {tokens : List Token}
    (h : tokensFrom p 0 t = tokens) (good : ∀ u ∈ tokens, u.kind.isBad = false) : Good t := by
  intro k hk
  rw [← kinds_tokensFrom p, h] at hk
  obtain ⟨u, hu, rfl⟩ := List.mem_map.mp hk
  exact good u hu

theorem whole_of_token {p : Position} {u : Token} (h : tokensFrom p 0 u.text = [u]) :
    Whole u.kind u.text := by
  cases ht : u.text with
  | nil => simp [ht, tokensFrom] at h
  | cons g rest =>
    rw [ht, tokensFrom_cons, List.cons.injEq] at h
    have hkind := congrArg Token.kind h.1
    have htext := congrArg Token.text h.1
    have hlen := congrArg List.length htext
    have hle := (lexeme_bounds g rest).2
    simp only [ht, List.length_take, List.length_cons] at hlen
    exact Prod.ext hkind (by simp only; omega)

end Scan

end Listfile
