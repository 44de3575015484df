import Mathlib.Algebra.Ring.Parity
import Listfile.Proofs.Bracket
import Listfile.Proofs.Wording

/-!
Escapes. A text is unescaped in one pass from left to right, and a search that jumps from backslash
to backslash and copies what lies between puts out the same. It follows where a text can be cut so
that its parts are unescaped on their own, and that every text has a spelling that stands for it.
-/

namespace Listfile

/-- A function that goes over a text once: a backslash and the glyph behind it become the glyph
that they stand for, every other glyph is copied, and a backslash with nothing behind it is kept. -/
structure OnePass (f : Text → Text) : Prop where
  empty : f [] = []
  lone : f [.char '\\'] = [.char '\\']
  newline : ∀ rest, f (.char '\\' :: .char 'n' :: rest) = .char '\n' :: f rest
  carriageReturn : ∀ rest, f (.char '\\' :: .char 'r' :: rest) = .char '\r' :: f rest
  tab : ∀ rest, f (.char '\\' :: .char 't' :: rest) = .char '\t' :: f rest
  itself : ∀ g rest, g ≠ .char 'n' → g ≠ .char 'r' → g ≠ .char 't' →
    f (.char '\\' :: g :: rest) = g :: f rest
  copied : ∀ g rest, g ≠ .char '\\' → f (g :: rest) = g :: f rest

def Glyph.escaped (g : Glyph) : Glyph :=
  if g = .char 'n' then .char '\n'
  else if g = .char 'r' then .char '\r'
  else if g = .char 't' then .char '\t'
  else g

theorem unescape_pair (g : Glyph) (rest : Text) :
    unescape (.char '\\' :: g :: rest) = g.escaped :: unescape rest := by
  simp [unescape, Glyph.escaped]

theorem unescape_cons {g : Glyph} (h : g ≠ .char '\\') (rest : Text) :
    unescape (g :: rest) = g :: unescape rest := by
  cases rest with
  | nil => rfl
  | cons x rest => simp [unescape, h]

theorem onePass_unescape : OnePass unescape where
  empty := rfl
  lone := rfl
  newline rest := unescape_pair (.char 'n') rest
  carriageReturn rest := unescape_pair (.char 'r') rest
  tab rest := unescape_pair (.char 't') rest
  itself g rest hn hr ht := by simp [unescape_pair, Glyph.escaped, hn, hr, ht]
  copied _ rest h := unescape_cons h rest

@[elab_as_elim]
theorem escape_induction {motive : Text → Prop} (t : Text) (nil : motive [])
    (lone : motive [.char '\\'])
    (pair : ∀ g rest, motive rest → motive (.char '\\' :: g :: rest))
    (copied : ∀ g rest, g ≠ .char '\\' → motive rest → motive (g :: rest)) : motive t := by
  induction t using unescape.induct with
  | case1 => exact nil
  | case2 g =>
    by_cases hg : g = .char '\\'
    · rw [hg]
      exact lone
    · exact copied g [] hg nil
  | case3 g rest ih => exact pair g rest ih
  | case4 g x rest hg ih => exact copied g (x :: rest) hg ih

namespace OnePass

variable {f : Text → Text}

theorem pair (h : OnePass f) (g : Glyph) (rest : Text) :
    f (.char '\\' :: g :: rest) = g.escaped :: f rest := by
  unfold Glyph.escaped
  split_ifs with hn hr ht
  · rw [hn, h.newline]
  · rw [hr, h.carriageReturn]
  · rw [ht, h.tab]
  · exact h.itself g rest hn hr ht

/-- The pass leaves no choice. -/
theorem eq_unescape (h : OnePass f) (t : Text) : f t = unescape t := by
  induction t using escape_induction with
  | nil => exact h.empty
  | lone => exact h.lone
  | pair g rest ih => rw [h.pair, unescape_pair, ih]
  | copied g rest hg ih => rw [h.copied g rest hg, unescape_cons hg, ih]

end OnePass

def trailingBackslashes (t : Text) : Nat := (t.reverse.takeWhile (· = .char '\\')).length

theorem odd_trailingBackslashes_append {s : Text} (h : Even (trailingBackslashes s)) (t : Text) :
    Odd (trailingBackslashes (s ++ t)) ↔ Odd (trailingBackslashes t) := by
  simp only [trailingBackslashes, List.reverse_append, List.takeWhile_append] at h ⊢
  -- The run of backslashes reaches into the first text only if the second is made of them alone.
  split
  · next hall => rw [List.length_append, Nat.odd_add, hall, iff_true_right h]
  · rfl

/-- Texts that follow one another are unescaped on their own, unless the cut parts a backslash from
its glyph. -/
theorem unescape_append {s : Text} (h : ¬ Odd (trailingBackslashes s)) (t : Text) :
    unescape (s ++ t) = unescape s ++ unescape t := by
  induction s using escape_induction with
  | nil => rfl
  | lone => exact absurd (by decide) h
  | pair g rest ih =>
    have heven : Even (trailingBackslashes [.char '\\', g]) := by
      by_cases hg : g = .char '\\' <;> simp [trailingBackslashes, hg]
    have hrest := mt (odd_trailingBackslashes_append heven rest).mpr h
    rw [List.cons_append, List.cons_append, unescape_pair, unescape_pair, ih hrest,
      List.cons_append]
  | copied g rest hg ih =>
    have heven : Even (trailingBackslashes [g]) := by simp [trailingBackslashes, hg]
    have hrest := mt (odd_trailingBackslashes_append heven rest).mpr h
    rw [List.cons_append, unescape_cons hg, unescape_cons hg, ih hrest, List.cons_append]

theorem unescape_plain_append {plain : Text} (h : .char '\\' ∉ plain) (t : Text) :
    unescape (plain ++ t) = plain ++ unescape t := by
  have hnone : plain.reverse.takeWhile (· = .char '\\') = [] := by
    refine List.eq_nil_iff_forall_not_mem.mpr fun g hg => h ?_
    have hback : g = .char '\\' := by simpa using List.mem_takeWhile_imp hg
    have hmem : g ∈ plain := List.mem_reverse.mp (List.takeWhile_subset _ hg)
    rwa [hback] at hmem
  have heven : ¬ Odd (trailingBackslashes plain) := by simp [trailingBackslashes, hnone]
  rw [unescape_append heven, unescape_of_not_mem h]

def doubleBackslashes (t : Text) : Text :=
  t.flatMap fun g => if g = .char '\\' then [g, g] else [g]

theorem unescape_doubleBackslashes (t : Text) : unescape (doubleBackslashes t) = t := by
  induction t with
  | nil => rfl
  | cons g t ih =>
    unfold doubleBackslashes at ih ⊢
    by_cases hg : g = .char '\\'
    · simp only [List.flatMap_cons, hg, if_true, List.cons_append, List.nil_append]
      rw [unescape_pair, ih]
      rfl
    · simp only [List.flatMap_cons, hg, if_false, List.cons_append, List.nil_append]
      rw [unescape_cons hg, ih]

/-- How far a search for escapes has come: what it has put out, and the offset at which it goes
on. -/
structure EscapeSearch where
  output : Text := []
  offset : Nat := 0

namespace EscapeSearch

variable {t : Text} {s next : EscapeSearch}

def next? (t : Text) (s : EscapeSearch) : Option Nat :=
  ((t.drop s.offset).idxOf? (.char '\\')).map (s.offset + ·)

/-- One jump: what stands before the next backslash is copied as a whole, and the pair there is
resolved. There is none when no backslash is left, or only one as the last glyph. -/
def step? (t : Text) (s : EscapeSearch) : Option EscapeSearch := do
  let i ← s.next? t
  let g ← t[i + 1]?
  return ⟨s.output ++ (t.drop s.offset).take (i - s.offset) ++ [g.escaped], i + 2⟩

theorem step?_cases (t : Text) (s : EscapeSearch) :
    (.char '\\' ∉ t.drop s.offset ∧ s.step? t = none) ∨
    (∃ plain, .char '\\' ∉ plain ∧ t.drop s.offset = plain ++ [.char '\\'] ∧
      s.step? t = none) ∨
    ∃ plain g rest, .char '\\' ∉ plain ∧ t.drop s.offset = plain ++ .char '\\' :: g :: rest ∧
      s.step? t = some ⟨s.output ++ plain ++ [g.escaped], s.offset + plain.length + 2⟩ := by
  by_cases hmem : .char '\\' ∈ t.drop s.offset
  · -- The search stops at the first backslash; whether a glyph stands behind it decides.
    obtain ⟨plain, after, hrest, hplain⟩ := List.eq_append_cons_of_mem hmem
    have hfirst : (plain ++ .char '\\' :: after).idxOf? (.char '\\') = some plain.length :=
      Lexical.idxOf?_first hplain after
    have hnext : s.next? t = some (s.offset + plain.length) := by rw [next?, hrest, hfirst]; rfl
    have hglyph : t[s.offset + plain.length + 1]? = after[0]? := by
      have hdrop : (t.drop s.offset)[plain.length + 1]? = after[0]? := by
        rw [hrest, List.getElem?_append_right (by omega)]
        simp
      rwa [List.getElem?_drop, ← Nat.add_assoc] at hdrop
    cases after with
    | nil => exact .inr (.inl ⟨plain, hplain, hrest, by simp [step?, hnext, hglyph]⟩)
    | cons g rest =>
      refine .inr (.inr ⟨plain, g, rest, hplain, hrest, ?_⟩)
      simp [step?, hnext, hglyph, hrest]
  · have hnone : s.next? t = none := by rw [next?, List.idxOf?_eq_none_iff.mpr hmem]; rfl
    exact .inl ⟨hmem, by simp [step?, hnone]⟩

theorem exists_of_step? (h : s.step? t = some next) :
    ∃ plain g, .char '\\' ∉ plain ∧
      t.drop s.offset = plain ++ .char '\\' :: g :: t.drop next.offset ∧
      next = ⟨s.output ++ plain ++ [g.escaped], s.offset + plain.length + 2⟩ := by
  rcases step?_cases t s with ⟨-, hnone⟩ | ⟨_, -, -, hnone⟩ | ⟨plain, g, rest, hplain, hrest, hsome⟩
  · rw [hnone] at h
    cases h
  · rw [hnone] at h
    cases h
  · obtain rfl := Option.some.inj (hsome.symm.trans h)
    have hleft : t.drop (s.offset + plain.length + 2) = rest := by
      rw [Nat.add_assoc, ← List.drop_drop, hrest, ← List.drop_drop, List.drop_left]
      rfl
    exact ⟨plain, g, hplain, by rw [hrest, hleft], rfl⟩

theorem offset_lt_of_step? (h : s.step? t = some next) :
    s.offset < next.offset ∧ next.offset ≤ t.length := by
  obtain ⟨plain, g, -, hrest, rfl⟩ := exists_of_step? h
  have hlength := congrArg List.length hrest
  simp only [List.length_drop, List.length_append, List.length_cons] at hlength ⊢
  omega

def run (t : Text) (s : EscapeSearch) : Text :=
  match _ : s.step? t with
  | none => s.output ++ t.drop s.offset
  | some next => run t next
termination_by t.length - s.offset
decreasing_by
  have := offset_lt_of_step? ‹_›
  omega

/-- A jump puts out what the pass puts out for the part that the jump covers. -/
theorem step?_keeps (h : s.step? t = some next) :
    next.output ++ unescape (t.drop next.offset) = s.output ++ unescape (t.drop s.offset) := by
  obtain ⟨plain, g, hplain, hrest, hnext⟩ := exists_of_step? h
  have houtput : next.output = s.output ++ plain ++ [g.escaped] := by rw [hnext]
  rw [hrest, unescape_plain_append hplain, unescape_pair, houtput]
  simp

theorem unescape_of_step?_eq_none (h : s.step? t = none) :
    unescape (t.drop s.offset) = t.drop s.offset := by
  rcases step?_cases t s with ⟨hplain, -⟩ | ⟨plain, hplain, hrest, -⟩ | ⟨_, _, _, -, -, hsome⟩
  · exact unescape_of_not_mem hplain
  · rw [hrest, unescape_plain_append hplain]
    rfl
  · rw [hsome] at h
    cases h

/-- Along all jumps, what is put out and what the pass makes of the rest come to the same text. -/
theorem run_eq (t : Text) (s : EscapeSearch) :
    s.run t = s.output ++ unescape (t.drop s.offset) := by
  fun_induction run t s with
  | case1 s hnone => rw [unescape_of_step?_eq_none hnone]
  | case2 s next hsome ih => rw [ih, step?_keeps hsome]

end EscapeSearch

def unescapeBySearch (t : Text) : Text := EscapeSearch.run t {}

/-- Unescaping is the one pass over a text, and the search comes to the same. Texts are unescaped
apart unless the first ends in an odd number of backslashes, a text with its backslashes doubled
stands for the text, and one without backslashes for itself. -/
theorem unescape_one_pass (t u : Text) :
    (∀ f : Text → Text, OnePass f ↔ f = unescape) ∧
    unescapeBySearch t = unescape t ∧
    (¬ Odd (trailingBackslashes t) → unescape (t ++ u) = unescape t ++ unescape u) ∧
    unescape (doubleBackslashes t) = t ∧
    (.char '\\' ∉ t → unescape t = t) := by
  refine ⟨fun f => ⟨fun h => funext h.eq_unescape, ?_⟩, ?_, ?_, ?_, unescape_of_not_mem⟩
  · rintro rfl
    exact onePass_unescape
  · exact EscapeSearch.run_eq t {}
  · exact fun h => unescape_append h u
  · exact unescape_doubleBackslashes t

/-- A backslash that is itself escaped ends the first text, and an escape begins the second. -/
theorem unescape_one_pass_escaped_end :
    ¬ Odd (trailingBackslashes (Text.ofString "a\\\\")) ∧
    unescape (Text.ofString "a\\\\" ++ Text.ofString "\\n") =
      unescape (Text.ofString "a\\\\") ++ unescape (Text.ofString "\\n") ∧
    unescapeBySearch (Text.ofString "a\\\\") = Text.ofString "a\\" ∧
    .char '\\' ∉ Text.ofString "n" ∧ unescape (Text.ofString "n") = Text.ofString "n" := by
  obtain ⟨-, hsearch, hcut, -, -⟩ :=
    unescape_one_pass (Text.ofString "a\\\\") (Text.ofString "\\n")
  obtain ⟨-, -, -, -, hplain⟩ := unescape_one_pass (Text.ofString "n") []
  have heven : ¬ Odd (trailingBackslashes (Text.ofString "a\\\\")) := by decide
  have hnone : .char '\\' ∉ Text.ofString "n" := by decide
  exact ⟨heven, hcut heven, hsearch.trans (by decide), hnone, hplain hnone⟩

end Listfile
