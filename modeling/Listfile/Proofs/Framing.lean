import Listfile.Proofs.Interposed
import Listfile.Proofs.Legible
import Listfile.Proofs.Utf8

/-!
Frames that make room. A tail that ends its line can be followed by a statement, and any other
after a line break, so the gaps of a document that was written make a frame again. The text of a
frame is kept by a file if its gaps and its statements are.
-/

namespace Listfile

open Scan Parse

theorem getLast?_bracket {t : Text} (h : bracketLength? t = some t.length) :
    t.getLast? = some (.char ']') := by
  unfold bracketLength? at h
  split at h
  · cases h
  · next level hlevel =>
    obtain ⟨n, hn, hlen⟩ := Option.map_eq_some_iff.mp h
    have hprefix := closer_prefix_drop hn
    rw [List.drop_drop] at hprefix
    have hclose : closer level = t.drop (level + 2 + n) := by
      apply hprefix.eq_of_length
      rw [List.length_drop]
      simp only [closer, List.length_append, List.length_cons, List.length_replicate,
        List.length_nil]
      omega
    rw [← List.take_append_drop (level + 2 + n) t, ← hclose,
      List.getLast?_append_of_ne_nil _ (by simp [closer])]
    exact List.getLast?_concat

theorem getLast?_quote {t : Text} (h : quoteLength? t = some t.length) :
    t.getLast? = some (.char '"') := by
  fun_induction quoteLength? t with
  | case1 => cases h
  | case2 => rfl
  | case3 => cases h
  | case4 => simp at h
  | case5 x rest _ ih =>
    obtain ⟨n, hn, hlen⟩ := Option.map_eq_some_iff.mp h
    have hlast := ih (by rw [hn, Option.some.injEq]; simpa using hlen)
    simp [List.getLast?_cons, hlast]
  | case6 g x rest _ _ ih =>
    obtain ⟨n, hn, hlen⟩ := Option.map_eq_some_iff.mp h
    have hlast := ih (by rw [hn, Option.some.injEq]; simpa using hlen)
    rw [List.getLast?_cons, hlast]
    rfl

theorem getLast?_unquoted {t : Text} (h : unquotedLength t = t.length) :
    t.getLast? ≠ some (.char '\n') := by
  fun_induction unquotedLength t with
  | case1 => simp
  | case2 g hg =>
    rintro ⟨⟩
    revert hg
    decide
  | case3 g hg => simp at h
  | case4 => simp at h
  | case5 x rest hx ih =>
    have hlast := ih (by simpa using h)
    cases hr : rest.getLast? with
    | none => simp [List.getLast?_cons, hr, hx]
    | some y =>
      rw [hr] at hlast
      simpa [List.getLast?_cons, hr] using hlast
  | case6 g x rest _ hg ih =>
    rw [List.getLast?_cons_cons]
    exact ih (by simpa using h)
  | case7 g x rest _ hg => simp at h

theorem newline_of_getLast? {g : Glyph} {body : Text} {k : TokenKind}
    (hk : lexeme g body = (k, body.length + 1)) (good : k.isBad = false)
    (h : (g :: body).getLast? = some (.char '\n')) : k = .newline := by
  have hmem : Glyph.char '\n' ∈ g :: body := List.mem_of_getLast? h
  have hlexed := lexed_of_lexeme hk
  generalize hn : body.length + 1 = n at hlexed
  have inside : ∀ {p : Glyph → Bool}, p (.char '\n') = false → p g = true →
      body.length + 1 ≠ (body.takeWhile p).length + 1 := by
    intro p hp hg hlen
    have hself : body.takeWhile p = body :=
      (List.takeWhile_prefix p).eq_of_length (Nat.succ.inj hlen).symm
    rcases List.mem_cons.mp hmem with rfl | hbody
    · rw [hp] at hg
      cases hg
    · rw [← hself] at hbody
      rw [List.mem_takeWhile_imp hbody] at hp
      cases hp
  have ends : ∀ {c : Char}, c ≠ '\n' → (g :: body).getLast? ≠ some (.char c) := by
    intro c hc hlast
    rw [h, Option.some.injEq, Glyph.char.injEq] at hlast
    exact hc hlast.symm
  have single : ∀ {c : Char}, c ≠ '\n' → g = .char c → body.length + 1 ≠ 1 := by
    rintro c hc rfl hlen
    rw [List.eq_nil_of_length_eq_zero (Nat.succ.inj hlen)] at ends
    exact ends hc rfl
  cases hlexed with
  | newline _ => rfl
  | commentBracket _ hb =>
    rw [← Nat.succ.inj hn] at hb
    have hlast : (g :: body).getLast? = some (.char ']') := by
      rw [List.getLast?_cons, getLast?_bracket hb]
      rfl
    exact absurd hlast (ends (by decide))
  | commentLine hg _ => exact absurd hn (inside (by decide) (by rw [hg]; decide))
  | argumentBracket _ hb =>
    rw [← hn] at hb
    exact absurd (getLast?_bracket hb) (ends (by decide))
  | argumentQuoted _ hq =>
    rw [← Nat.succ.inj hn] at hq
    have hlast : (g :: body).getLast? = some (.char '"') := by
      rw [List.getLast?_cons, getLast?_quote hq]
      rfl
    exact absurd hlast (ends (by decide))
  | space hg => exact absurd hn (inside (by decide) hg)
  | parenLeft hg => exact absurd hn (single (by decide) hg)
  | parenRight hg => exact absurd hn (single (by decide) hg)
  | identifier _ hu _ => exact absurd h (getLast?_unquoted (hu.trans hn.symm))
  | argumentUnquoted _ hu _ => exact absurd h (getLast?_unquoted (hu.trans hn.symm))
  | _ => cases good

theorem getLast?_kinds {t : Text} (good : Good t) (h : t.getLast? = some (.char '\n')) :
    (kinds t).getLast? = some .newline := by
  induction t using token_induction with
  | nil => cases h
  | cons g body cont k hk ih =>
    have hkinds := kinds_token hk
    cases cont with
    | nil =>
      have hgood : k.isBad = false := good k (by rw [hkinds]; exact List.mem_cons_self)
      rw [List.append_nil] at h hk
      rw [hkinds, kinds_nil, newline_of_getLast? hk hgood h]
      rfl
    | cons x cont =>
      have hgood : Good (x :: cont) := fun k' hk' => good k' (by rw [hkinds]; exact .tail _ hk')
      rw [← List.cons_append, List.getLast?_append_of_ne_nil _ (by simp)] at h
      rw [hkinds, List.getLast?_cons, ih hgood h]
      rfl

theorem fits_newline (k : TokenKind) (t : Text) : Fits k (.char '\n' :: t) := by
  rintro g ⟨⟩
  cases k <;> trivial

theorem ready_of_newline {gap : Text} (h : (kinds gap).getLast? = some .newline) : Ready gap := by
  intro t ht k hk
  rw [h] at hk
  cases hk
  exact (fits_identifier ht).mpr ⟨by decide, by decide, by decide⟩

theorem gap_true_of_newline {before after : Bool} {tokens : List Token}
    (h : Gap before tokens after) (hlast : (tokens.map (·.kind)).getLast? = some .newline) :
    Gap before tokens true := by
  cases tokens using List.reverseRecOn with
  | nil => cases hlast
  | append_singleton tokens u =>
    have hu : u.kind = .newline := by simpa using hlast
    simp only [Gap, List.foldlM_append, Option.bind_eq_bind, Option.bind_eq_some_iff] at h ⊢
    obtain ⟨m, hm, -⟩ := h
    exact ⟨m, hm, by simp [idle, hu, TokenKind.isBad]⟩

/-- A statement can be opened after a tail and the line break due after it. -/
theorem frame_break {mayOpen started after : Bool} {tail : Text}
    (h : Gap mayOpen (Token.scan tail) after) (open_ : mayOpen = true ∨ started = true) :
    Gap mayOpen (Token.scan (tail ++ Strand.breakIn started tail)) true ∧
      Ready (tail ++ Strand.breakIn started tail) := by
  have good := good_of_gap h
  unfold Strand.breakIn
  split
  · next hends =>
    rw [List.append_nil]
    rcases hends with hlast | ⟨rfl, hstarted⟩
    · have hkinds := getLast?_kinds good hlast
      exact ⟨gap_true_of_newline h hkinds, ready_of_newline hkinds⟩
    · -- An empty tail takes no break only at the start of the file.
      rw [open_.resolve_right (by simp [hstarted])]
      exact ⟨rfl, by simp [Ready, Meets, kinds_nil]⟩
  · have meets : Meets tail [.char '\n'] := fun k _ => fits_newline k []
    have hkinds : (kinds (tail ++ [.char '\n'])).getLast? = some .newline := by
      rw [kinds_append good meets]
      exact List.getLast?_concat
    refine ⟨?_, ready_of_newline hkinds⟩
    rw [Token.scan, tokensFrom_append _ good meets]
    simp only [Gap, List.foldlM_append, Option.bind_eq_bind, Option.bind_eq_some_iff]
    exact ⟨after, h, by cases after <;> rfl⟩

theorem frame_newlines (pending : List Sources) :
    Frame false ((Strand.created [.char '\n'] pending).map (·.gap)) [.char '\n'] := by
  have hkinds : kinds [.char '\n'] = [.newline] := rfl
  induction pending with
  | nil => exact ⟨true, rfl⟩
  | cons s rest ih => exact ⟨rfl, ready_of_newline (by rw [hkinds]; rfl), ih⟩

theorem frame_grown {mayOpen started : Bool} {gaps : List Text} {tail : Text}
    (h : Frame mayOpen gaps tail) (open_ : mayOpen = true ∨ started = true)
    (pending : List Sources) :
    Frame mayOpen
      (gaps ++ (Strand.created (tail ++ Strand.breakIn (started || !gaps.isEmpty) tail)
        pending).map (·.gap))
      (Strand.tailAfter tail pending) := by
  induction gaps generalizing mayOpen started with
  | nil =>
    obtain ⟨after, hgap⟩ := h
    cases pending with
    | nil => exact ⟨after, hgap⟩
    | cons s rest =>
      have hbreak := frame_break hgap open_
      simp only [List.isEmpty_nil, Bool.not_true, Bool.or_false, List.nil_append, Strand.created,
        List.map_cons]
      exact ⟨hbreak.1, hbreak.2, frame_newlines rest⟩
  | cons gap gaps ih =>
    obtain ⟨hgap, hready, hrest⟩ := h
    have := @ih false true hrest (Or.inr rfl)
    exact ⟨hgap, hready, by simpa using this⟩

namespace Strand

/-- A strand between which and its neighbours no stray bytes meet. -/
structure Kept (s : Strand) : Prop where
  gap : Utf8.Stable s.gap
  piece : Utf8.Stable s.piece
  first : ∀ b, s.piece.head? ≠ some (.stray b)
  last : s.piece.getLast? = some (.char ')')

theorem stable_weave {strands : List Strand} (h : ∀ s ∈ strands, s.Kept) {tail : Text}
    (stable : Utf8.Stable tail) : Utf8.Stable (weave strands ++ tail) := by
  induction strands with
  | nil => exact stable
  | cons s rest ih =>
    obtain ⟨hgap, hpiece, hfirst, hlast⟩ := h s List.mem_cons_self
    have hrest := ih fun t ht => h t (.tail _ ht)
    have hjoined : Utf8.Stable (s.piece ++ (weave rest ++ tail)) :=
      Utf8.stable_append hpiece hrest (Or.inl (by simp [hlast]))
    rw [weave_cons]
    simp only [List.append_assoc]
    refine Utf8.stable_append hgap hjoined (Or.inr fun b => ?_)
    rw [List.head?_append_of_ne_nil _ (piece_ne_nil hlast)]
    exact hfirst b

theorem kept_of_stable {strands : List Strand} {tail : Text}
    (h : Utf8.Stable (weave strands ++ tail)) :
    (∀ s ∈ strands, Utf8.Stable s.gap ∧ Utf8.Stable s.piece) ∧ Utf8.Stable tail := by
  induction strands with
  | nil => exact ⟨by simp, h⟩
  | cons s rest ih =>
    rw [weave_cons] at h
    simp only [List.append_assoc] at h
    obtain ⟨hgap, hrest⟩ := Utf8.stable_of_append h
    obtain ⟨hpiece, hrest⟩ := Utf8.stable_of_append hrest
    obtain ⟨hstrands, htail⟩ := ih hrest
    exact ⟨List.forall_mem_cons.mpr ⟨⟨hgap, hpiece⟩, hstrands⟩, htail⟩

theorem stable_newline : Utf8.Stable [.char '\n'] := by
  decide

theorem stable_break {tail : Text} (h : Utf8.Stable tail) (started : Bool) :
    Utf8.Stable (tail ++ breakIn started tail) := by
  unfold breakIn
  split
  · rwa [List.append_nil]
  · exact Utf8.stable_append h stable_newline (Or.inr (by simp))

theorem stable_tailAfter {tail : Text} (h : Utf8.Stable tail) (pending : List Sources) :
    Utf8.Stable (tailAfter tail pending) := by
  unfold tailAfter
  split
  · exact h
  · exact stable_newline

theorem stable_created {gap : Text} (h : Utf8.Stable gap) (pending : List Sources) :
    ∀ s ∈ created gap pending, Utf8.Stable s.gap := by
  induction pending generalizing gap with
  | nil => simp [created]
  | cons p rest ih => exact List.forall_mem_cons.mpr ⟨h, ih stable_newline⟩

/-- A document is written in gaps that are kept by a file if it was read in such gaps. -/
theorem stable_settled {strands : List Strand} {tail : Text} {d : Document}
    (length : strands.length = d.blocks.length) (h : ∀ s ∈ strands, Utf8.Stable s.gap)
    (stable : Utf8.Stable tail) : ∀ s ∈ settled strands tail d, Utf8.Stable s.gap := by
  intro s hs
  have hmem : s.gap ∈ (settled strands tail d).map (·.gap) := List.mem_map_of_mem hs
  rw [gaps_settled length] at hmem
  rcases List.mem_append.mp hmem with hmem | hmem
  · obtain ⟨t, ht, hgap⟩ := List.mem_map.mp hmem
    exact hgap ▸ h t ht
  · obtain ⟨t, ht, hgap⟩ := List.mem_map.mp hmem
    exact hgap ▸ stable_created (stable_break stable _) d.pending t ht

end Strand

namespace Parse

theorem gaps_around {gaps : List Text} {statements : List Statement}
    (h : gaps.length = statements.length) : (around gaps statements).map (·.gap) = gaps := by
  rw [around, List.map_zipWith, ← List.map_uncurry_zip_eq_zipWith]
  exact List.map_fst_zip (Nat.le_of_eq h)

theorem pieces_around {gaps : List Text} {statements : List Statement}
    (h : gaps.length = statements.length) :
    (around gaps statements).map (·.piece) = statements.map Statement.render := by
  rw [around, List.map_zipWith, ← List.map_uncurry_zip_eq_zipWith]
  conv_rhs => rw [← List.map_snd_zip (Nat.le_of_eq h.symm), List.map_map]
  rfl

theorem piece_of_mem_around {gaps : List Text} {statements : List Statement}
    (h : gaps.length = statements.length) {s : Strand} (hs : s ∈ around gaps statements) :
    ∃ t ∈ statements, t.render = s.piece := by
  rw [← List.mem_map, ← pieces_around h]
  exact List.mem_map_of_mem hs

theorem stable_of_around {gaps : List Text} {statements : List Statement} {tail : Text}
    (h : gaps.length = statements.length)
    (stable : Utf8.Stable (Strand.weave (around gaps statements) ++ tail)) :
    ∀ t ∈ statements, Utf8.Stable t.render := by
  intro t ht
  have hmem : t.render ∈ (around gaps statements).map (·.piece) := by
    rw [pieces_around h]
    exact List.mem_map_of_mem ht
  obtain ⟨s, hs, hpiece⟩ := List.mem_map.mp hmem
  exact hpiece ▸ ((Strand.kept_of_stable stable).1 s hs).2

theorem around_of_pieces {strands : List Strand} {statements : List Statement}
    (h : strands.map (·.piece) = statements.map Statement.render) :
    around (strands.map (·.gap)) statements = strands := by
  induction strands generalizing statements with
  | nil => rfl
  | cons s rest ih =>
    cases statements with
    | nil => simp at h
    | cons t more =>
      simp only [List.map_cons, List.cons.injEq] at h
      simp only [around, List.map_cons, List.zipWith_cons_cons, ← h.1]
      exact congrArg (s :: ·) (ih h.2)

end Parse

end Listfile
