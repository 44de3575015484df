import Mathlib.Data.List.Induction
import Listfile.Position

/-!
Offsets and positions of one text. The place reached by walking over the glyphs of a text is the
place that its line starts give for the number of glyphs walked, and the other way round.
-/

namespace Listfile

namespace Position

theorem advance_nil (p : Position) : p.advance [] = p := rfl

theorem advance_append (p : Position) (s t : Text) :
    p.advance (s ++ t) = (p.advance s).advance t := by
  simp [advance]

def after (t : Text) : Position := start.advance t

theorem after_append (s t : Text) : after (s ++ t) = (after s).advance t :=
  advance_append start s t

theorem after_concat (t : Text) (g : Glyph) : after (t ++ [g]) = (after t).next g :=
  after_append t [g]

end Position

theorem lineStartsFrom_append (n : Nat) (s t : Text) :
    lineStartsFrom n (s ++ t) = lineStartsFrom n s ++ lineStartsFrom (n + s.length) t := by
  induction s generalizing n with
  | nil => simp [lineStartsFrom]
  | cons g s ih =>
    have assoc : n + 1 + s.length = n + (s.length + 1) := by omega
    by_cases hg : g = Glyph.char '\n' <;> simp [lineStartsFrom, hg, ih, assoc]

theorem lineStarts_append (s t : Text) :
    lineStarts (s ++ t) = lineStarts s ++ lineStartsFrom s.length t := by
  simp [lineStarts, lineStartsFrom_append]

theorem lt_of_mem_lineStartsFrom {n m : Nat} {t : Text} (h : m ∈ lineStartsFrom n t) : n < m := by
  induction t generalizing n with
  | nil => simp [lineStartsFrom] at h
  | cons g t ih =>
    by_cases hg : g = Glyph.char '\n'
    · simp only [lineStartsFrom, hg, if_true, List.mem_cons] at h
      rcases h with rfl | h
      · omega
      · have := ih h
        omega
    · simp only [lineStartsFrom, hg, if_false] at h
      have := ih h
      omega

theorem le_of_mem_lineStartsFrom {n m : Nat} {t : Text} (h : m ∈ lineStartsFrom n t) :
    m ≤ n + t.length := by
  induction t generalizing n with
  | nil => simp [lineStartsFrom] at h
  | cons g t ih =>
    simp only [List.length_cons]
    by_cases hg : g = Glyph.char '\n'
    · simp only [lineStartsFrom, hg, if_true, List.mem_cons] at h
      rcases h with rfl | h
      · omega
      · have := ih h
        omega
    · simp only [lineStartsFrom, hg, if_false] at h
      have := ih h
      omega

theorem le_of_mem_lineStarts {m : Nat} {t : Text} (h : m ∈ lineStarts t) : m ≤ t.length := by
  simp only [lineStarts, List.mem_cons] at h
  rcases h with rfl | h
  · exact Nat.zero_le _
  · have := le_of_mem_lineStartsFrom h
    omega

/-- The last line start of a text and the column after it make up the length of the text. -/
theorem lineStarts_getLast? (t : Text) :
    ∃ m : Nat, (lineStarts t).getLast? = some m ∧
      (m : Int) + (Position.after t).column - 1 = t.length := by
  -- Glyphs are added at the end, where both sides of the equation change.
  induction t using List.reverseRecOn with
  | nil => exact ⟨0, rfl, rfl⟩
  | append_singleton t g ih =>
    obtain ⟨m, hm, eq⟩ := ih
    rw [lineStarts_append, Position.after_concat]
    by_cases hg : g = Glyph.char '\n'
    · refine ⟨t.length + 1, ?_, ?_⟩
      · simp [lineStartsFrom, hg]
      · simp [Position.next, hg]
    · refine ⟨m, ?_, ?_⟩
      · simpa [lineStartsFrom, hg] using hm
      · simp only [Position.next, hg, if_false, List.length_append, List.length_singleton]
        omega

theorem length_lineStarts (t : Text) : (lineStarts t).length = (Position.after t).line := by
  induction t using List.reverseRecOn with
  | nil => rfl
  | append_singleton t g ih =>
    rw [lineStarts_append, Position.after_concat]
    by_cases hg : g = Glyph.char '\n' <;> simp [lineStartsFrom, Position.next, hg, ih]

theorem lineStart?_after (s t : Text) :
    lineStart? (lineStarts (s ++ t)) (Position.after s).line = (lineStarts s).getLast? := by
  have hlen := length_lineStarts s
  have hpos : 0 < (lineStarts s).length := by simp [lineStarts]
  obtain ⟨n, hn⟩ : ∃ n, (Position.after s).line = n + 1 :=
    ⟨(Position.after s).line - 1, by omega⟩
  rw [hn, lineStarts_append, lineStart?, List.getElem?_append_left (by omega),
    List.getLast?_eq_getElem?]
  congr 1
  omega

/-- Walking over a text and converting the place reached gives the number of glyphs. -/
theorem Position.offset?_after (s t : Text) :
    (Position.after s).offset? (lineStarts (s ++ t)) = some (s.length : Int) := by
  obtain ⟨m, hm, eq⟩ := lineStarts_getLast? s
  rw [Position.offset?, lineStart?_after, hm]
  simp [eq]

/-- The place of an offset is the place reached by walking over that many glyphs. -/
theorem Position.ofOffset_length (s t : Text) :
    Position.ofOffset (lineStarts (s ++ t)) (s.length : Int) = Position.after s := by
  have before : (lineStarts s).countP (fun m : Nat => decide ((m : Int) ≤ s.length)) =
      (lineStarts s).length := by
    rw [List.countP_eq_length]
    intro m hm
    have := le_of_mem_lineStarts hm
    simpa using this
  have later :
      (lineStartsFrom s.length t).countP (fun m : Nat => decide ((m : Int) ≤ s.length)) = 0 := by
    rw [List.countP_eq_zero]
    intro m hm
    have := lt_of_mem_lineStartsFrom hm
    simpa using this
  have count : (lineStarts (s ++ t)).countP (fun m : Nat => decide ((m : Int) ≤ s.length)) =
      (Position.after s).line := by
    rw [lineStarts_append, List.countP_append, before, later, length_lineStarts, Nat.add_zero]
  obtain ⟨m, hm, eq⟩ := lineStarts_getLast? s
  have line := lineStart?_after s t
  rw [Position.ofOffset]
  simp only [count, line, hm, Option.getD_some]
  have column : (s.length : Int) - m + 1 = (Position.after s).column := by omega
  rw [column]

end Listfile
