import Listfile.Proofs.Joining

/-!
The lines of a text and the offsets at which they start. A position is an offset counted by lines,
and an offset is a position counted by glyphs: going from one to the other and back changes nothing,
on line breaks, on empty lines and at the end of the text as elsewhere.
-/

namespace Listfile

theorem pairwise_lineStartsFrom (n : Nat) (t : Text) : (lineStartsFrom n t).Pairwise (· < ·) := by
  induction t generalizing n with
  | nil => exact .nil
  | cons g t ih =>
    by_cases hg : g = .char '\n'
    · simp only [lineStartsFrom, hg, if_true]
      exact .cons (fun m hm => lt_of_mem_lineStartsFrom hm) (ih (n + 1))
    · simp only [lineStartsFrom, hg, if_false]
      exact ih (n + 1)

theorem pairwise_lineStarts (t : Text) : (lineStarts t).Pairwise (· < ·) :=
  .cons (fun _ hm => lt_of_mem_lineStartsFrom hm) (pairwise_lineStartsFrom 0 t)

theorem mem_lineStartsFrom {m n : Nat} {t : Text} :
    m ∈ lineStartsFrom n t ↔ ∃ k, m = n + k + 1 ∧ t[k]? = some (.char '\n') := by
  induction t generalizing n with
  | nil => simp [lineStartsFrom]
  | cons g t ih =>
    -- The break is the first glyph, or one of the others, an offset further on.
    have split : (∃ k, m = n + k + 1 ∧ (g :: t)[k]? = some (.char '\n')) ↔
        (m = n + 1 ∧ g = .char '\n') ∨ m ∈ lineStartsFrom (n + 1) t := by
      rw [ih]
      constructor
      · rintro ⟨k | k, hm, hk⟩
        · exact .inl ⟨hm, by simpa using hk⟩
        · exact .inr ⟨k, by omega, by simpa using hk⟩
      · rintro (⟨hm, hg⟩ | ⟨k, hm, hk⟩)
        · exact ⟨0, hm, by simpa using hg⟩
        · exact ⟨k + 1, by omega, by simpa using hk⟩
    rw [split]
    by_cases hg : g = .char '\n' <;> simp [lineStartsFrom, hg]

theorem mem_lineStarts {m : Nat} {t : Text} :
    m ∈ lineStarts t ↔ m = 0 ∨ ∃ k, m = k + 1 ∧ t[k]? = some (.char '\n') := by
  simp [lineStarts, mem_lineStartsFrom]

namespace Position

theorem advance_of_not_mem (p : Position) {s : Text} (h : .char '\n' ∉ s) :
    p.advance s = ⟨p.line, p.column + s.length⟩ := by
  induction s using List.reverseRecOn with
  | nil => simp [advance_nil]
  | append_singleton s g ih =>
    simp only [List.mem_append, List.mem_singleton, not_or] at h
    have hlast : (p.advance s).advance [g] = (p.advance s).next g := rfl
    rw [advance_append, hlast, ih h.1, next, if_neg (Ne.symm h.2)]
    simp [Int.add_assoc]

theorem one_le_column_after (t : Text) : 1 ≤ (after t).column := by
  rw [after_column]
  omega

theorem ofOffset_eq_after {t : Text} {o : Nat} (h : o ≤ t.length) :
    ofOffset (lineStarts t) o = after (t.take o) := by
  have hplace := ofOffset_length (t.take o) (t.drop o)
  rwa [List.take_append_drop, List.length_take_of_le h] at hplace

end Position

theorem splitOn_lineBreak (t : Text) :
    .char '\n' ∉ t ∧ t.splitOn (.char '\n') = [t] ∨
      ∃ line rest, t = line ++ .char '\n' :: rest ∧ .char '\n' ∉ line ∧
        t.splitOn (.char '\n') = line :: rest.splitOn (.char '\n') := by
  by_cases hmem : .char '\n' ∈ t
  · obtain ⟨line, rest, rfl, hline⟩ := List.eq_append_cons_of_mem hmem
    exact .inr ⟨line, rest, rfl, hline, List.splitOn_append_cons_self_of_not_mem hline rest⟩
  · exact .inl ⟨hmem, List.splitOn_eq_singleton hmem⟩

/-- A line stands in its text behind as many line breaks as there are lines before it, and holds
none itself. -/
theorem exists_around_line {n : Nat} {t line : Text}
    (h : (t.splitOn (.char '\n'))[n]? = some line) :
    ∃ above below, t = above ++ line ++ below ∧ .char '\n' ∉ line ∧
      above.count (.char '\n') = n ∧ (above = [] ∨ above.getLast? = some (.char '\n')) := by
  -- Line by line: each step takes the first line off the text, with its break.
  induction n generalizing t with
  | zero =>
    rcases splitOn_lineBreak t with ⟨hmem, hlines⟩ | ⟨first, rest, ht, hfirst, hlines⟩
    · obtain rfl : t = line := by simpa [hlines] using h
      exact ⟨[], [], by simp, hmem, rfl, .inl rfl⟩
    · obtain rfl : first = line := by simpa [hlines] using h
      exact ⟨[], .char '\n' :: rest, by simp [ht], hfirst, rfl, .inl rfl⟩
  | succ n ih =>
    rcases splitOn_lineBreak t with ⟨hmem, hlines⟩ | ⟨first, rest, ht, hfirst, hlines⟩
    · simp [hlines] at h
    · have hnext : (rest.splitOn (.char '\n'))[n]? = some line := by simpa [hlines] using h
      obtain ⟨above, below, hrest, hline, hcount, hends⟩ := ih hnext
      refine ⟨first ++ .char '\n' :: above, below, by simp [ht, hrest], hline, ?_, .inr ?_⟩
      · simp [List.count_eq_zero_of_not_mem hfirst, hcount]
      · rcases hends with rfl | hends
        · simp
        · simp [List.getLast?_cons, hends]

/-- Every column of a line, and the one behind its last glyph, is reached by walking over a part of
the text. -/
theorem exists_walk_to_column {n c : Nat} {t line : Text}
    (h : (t.splitOn (.char '\n'))[n]? = some line) (hc : c ≤ line.length) :
    ∃ s u, t = s ++ u ∧ Position.after s = ⟨n + 1, c + 1⟩ := by
  obtain ⟨above, below, ht, hline, hcount, hends⟩ := exists_around_line h
  refine ⟨above ++ line.take c, line.drop c ++ below, ?_, ?_⟩
  · rw [ht, List.append_assoc, List.append_assoc, ← List.append_assoc (line.take c),
      List.take_append_drop]
  · have hstart : Position.after above = ⟨n + 1, 1⟩ := by
      rw [Position.after_lines hends, hcount]
      simp [Position.shift, Position.start, Nat.add_comm]
    have hfree : .char '\n' ∉ line.take c := fun hmem => hline (List.mem_of_mem_take hmem)
    rw [Position.after_append, hstart, Position.advance_of_not_mem _ hfree,
      List.length_take_of_le hc, Int.add_comm]

theorem Position.lt_line_ofOffset_iff {t : Text} {o i m : Nat} (ho : o ≤ t.length)
    (hm : (lineStarts t)[i]? = some m) : i < (ofOffset (lineStarts t) o).line ↔ m ≤ o := by
  have hstarts : lineStarts t = lineStarts (t.take o) ++ lineStartsFrom o (t.drop o) := by
    have happend := lineStarts_append (t.take o) (t.drop o)
    rwa [List.take_append_drop, List.length_take_of_le ho] at happend
  rw [ofOffset_eq_after ho, ← length_lineStarts]
  by_cases hi : i < (lineStarts (t.take o)).length
  · rw [hstarts, List.getElem?_append_left hi] at hm
    have hle := le_of_mem_lineStarts (List.mem_of_getElem? hm)
    rw [List.length_take_of_le ho] at hle
    exact iff_of_true hi hle
  · rw [hstarts, List.getElem?_append_right (by omega)] at hm
    have hlt := lt_of_mem_lineStartsFrom (List.mem_of_getElem? hm)
    exact iff_of_false hi (by omega)

/-- Offsets and positions of a text are converted without loss. The line starts are the head of the
text and the places behind its line breaks, in order. An offset has the position that counts the
line breaks before it, on the last line that starts there or earlier, and comes back from it. A
column of a line, or the one behind its last glyph, has an offset of the text and comes back. -/
theorem offsets_and_positions_inverse (t : Text) :
    (lineStarts t).Pairwise (· < ·) ∧
    (∀ m, m ∈ lineStarts t ↔ m = 0 ∨ ∃ k, m = k + 1 ∧ t[k]? = some (.char '\n')) ∧
    (∀ o : Nat, o ≤ t.length →
      (Position.ofOffset (lineStarts t) o).line = 1 + (t.take o).count (.char '\n') ∧
      (∀ i m, (lineStarts t)[i]? = some m →
        (i < (Position.ofOffset (lineStarts t) o).line ↔ m ≤ o)) ∧
      1 ≤ (Position.ofOffset (lineStarts t) o).column ∧
      (Position.ofOffset (lineStarts t) o).offset? (lineStarts t) = some (o : Int)) ∧
    ∀ (n : Nat) (line : Text), (t.splitOn (.char '\n'))[n]? = some line →
      ∀ c : Int, 1 ≤ c → c ≤ line.length + 1 → ∃ o : Nat, o ≤ t.length ∧
        Position.offset? (lineStarts t) ⟨n + 1, c⟩ = some (o : Int) ∧
        Position.ofOffset (lineStarts t) o = ⟨n + 1, c⟩ := by
  refine ⟨pairwise_lineStarts t, fun m => mem_lineStarts, ?_, ?_⟩
  · intro o ho
    refine ⟨?_, fun i m hm => Position.lt_line_ofOffset_iff ho hm, ?_, ?_⟩
    · rw [Position.ofOffset_eq_after ho, Position.after_line]
    · rw [Position.ofOffset_eq_after ho]
      exact Position.one_le_column_after _
    · have hback := Position.offset?_after (t.take o) (t.drop o)
      rwa [List.take_append_drop, List.length_take_of_le ho,
        ← Position.ofOffset_eq_after ho] at hback
  · intro n line hline c hpos hle
    obtain ⟨k, rfl⟩ : ∃ k : Nat, c = k + 1 := ⟨(c - 1).toNat, by omega⟩
    obtain ⟨s, u, rfl, hafter⟩ := exists_walk_to_column (c := k) hline (by omega)
    refine ⟨s.length, by simp, ?_, ?_⟩
    · rw [← hafter, Position.offset?_after]
    · rw [Position.ofOffset_length, hafter]

/-- The end of a text behind its last line break, and an empty line inside it. -/
theorem offsets_and_positions_inverse_empty_lines :
    6 ≤ (Text.ofString "ab\n\nc\n").length ∧
    (Position.ofOffset (lineStarts (Text.ofString "ab\n\nc\n")) 6).line = 4 ∧
    (Position.ofOffset (lineStarts (Text.ofString "ab\n\nc\n")) 6).offset?
      (lineStarts (Text.ofString "ab\n\nc\n")) = some 6 ∧
    ((Text.ofString "ab\n\nc\n").splitOn (.char '\n'))[1]? = some [] ∧
    ∃ o : Nat, o ≤ (Text.ofString "ab\n\nc\n").length ∧
      Position.offset? (lineStarts (Text.ofString "ab\n\nc\n")) ⟨2, 1⟩ = some (o : Int) ∧
      Position.ofOffset (lineStarts (Text.ofString "ab\n\nc\n")) o = ⟨2, 1⟩ := by
  obtain ⟨-, -, back, forth⟩ := offsets_and_positions_inverse (Text.ofString "ab\n\nc\n")
  have hend : 6 ≤ (Text.ofString "ab\n\nc\n").length := by decide
  have hempty : ((Text.ofString "ab\n\nc\n").splitOn (.char '\n'))[1]? = some [] := by decide
  obtain ⟨hline, -, -, hback⟩ := back 6 hend
  exact ⟨hend, hline.trans (by decide), hback, hempty, forth 1 [] hempty 1 (by decide) (by decide)⟩

end Listfile
