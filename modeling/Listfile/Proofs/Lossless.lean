import Listfile.Proofs.Spans

/-!
Nothing is lost between a text, its tokens and its statements. The place that the scanner counts
for a token is the place that the line starts of the text give, and a statement is the part of the
text between its two ends, letter by letter.
-/

namespace Listfile

namespace Position

theorem after_line (t : Text) : (after t).line = 1 + t.count (.char '\n') := by
  induction t using List.reverseRecOn with
  | nil => rfl
  | append_singleton t g ih =>
    rw [after_concat, List.count_append, next]
    by_cases hg : g = .char '\n'
    · simp [hg, ih, Nat.add_assoc]
    · simp [hg, ih]

theorem after_column (t : Text) :
    (after t).column = 1 + ((t.reverse.takeWhile fun g => !(g = .char '\n')).length : Int) := by
  induction t using List.reverseRecOn with
  | nil => rfl
  | append_singleton t g ih =>
    rw [after_concat, List.reverse_concat, next]
    by_cases hg : g = .char '\n'
    · simp [hg]
    · simp only [hg, if_false, decide_false, Bool.not_false, List.takeWhile_cons_of_pos, ih,
        List.length_cons]
      omega

end Position

namespace Token

theorem text_ne_nil {t : Text} {a : Token} (h : a ∈ scan t) : a.text ≠ [] := by
  obtain ⟨g, rest, n, lexed, htext⟩ := Scan.lexed_of_mem h
  have hpos := lexed.bounds.1
  intro hnil
  rw [htext, List.take_eq_nil_iff] at hnil
  rcases hnil with hn | hnil
  · omega
  · cases hnil

theorem letter_of_identifier {t : Text} {a : Token} (h : a ∈ scan t)
    (hk : a.kind = .identifier) : ∃ g rest, a.text = g :: rest ∧ Scan.isLetter g = true := by
  obtain ⟨g, rest, n, lexed, htext⟩ := Scan.lexed_of_mem h
  rw [hk] at lexed
  cases lexed with
  | @identifier n _ _ hi =>
    rw [List.take_succ_cons] at hi htext
    simp only [Scan.isIdentifier, Bool.and_eq_true] at hi
    exact ⟨g, rest.take n, htext, hi.1⟩

theorem length_le_textOf {tokens : List Token} (h : ∀ a ∈ tokens, a.text ≠ []) :
    tokens.length ≤ (textOf tokens).length := by
  induction tokens with
  | nil => simp
  | cons a rest ih =>
    have hrest := ih fun b hb => h b (List.mem_cons_of_mem a hb)
    have hpos : 0 < a.text.length := List.length_pos_iff.mpr (h a List.mem_cons_self)
    simp only [textOf_cons, List.length_append, List.length_cons]
    omega

/-- A token that starts after `p` glyphs of a text has the position of that place, counted by line
breaks and found through the line starts. -/
structure Located (t : Text) (p : Nat) (a : Token) : Prop where
  line : a.position.line = 1 + (t.take p).count (.char '\n')
  column : a.position.column =
    1 + (((t.take p).reverse.takeWhile fun g => !(g = .char '\n')).length : Int)
  offset : a.position.offset? (lineStarts t) = some (p : Int)

theorem located_after (s t : Text) {a : Token} (h : a.position = .after s) :
    a.Located (s ++ t) s.length := by
  have htake : (s ++ t).take s.length = s := List.take_left
  constructor
  · rw [h, htake, Position.after_line]
  · rw [h, htake, Position.after_column]
  · rw [h, Position.offset?_after]

/-- Scanning ends after at most one token for each glyph, loses nothing, and counts the place of
every token as the line starts of the text have it. -/
theorem scan_lossless (t : Text) :
    textOf (scan t) = t ∧ (scan t).length ≤ t.length ∧ (∀ a ∈ scan t, a.text ≠ []) ∧
      ∀ before a after, scan t = before ++ a :: after →
        a.Located t (textOf before).length := by
  have hlength := length_le_textOf fun a (ha : a ∈ scan t) => text_ne_nil ha
  rw [textOf_scan] at hlength
  refine ⟨textOf_scan t, hlength, fun a ha => text_ne_nil ha, ?_⟩
  intro before a after hscan
  have htext : t = textOf before ++ textOf (a :: after) := by
    rw [← textOf_append, ← hscan, textOf_scan]
  have hplace : a.position = .after (textOf before) := by
    have consecutive := consecutive_scan t
    rw [hscan] at consecutive
    exact (consecutive_append.mp consecutive).2.1
  rw [htext]
  exact located_after _ _ hplace

theorem scan_lossless_across_lines :
    ∃ before a after,
      scan (Text.ofString "a(\"x\n\ny\" [[\n]] b)\r\n\"z") = before ++ a :: after ∧
      a.text = Text.ofString "b" ∧
      a.Located (Text.ofString "a(\"x\n\ny\" [[\n]] b)\r\n\"z") (textOf before).length := by
  let t := Text.ofString "a(\"x\n\ny\" [[\n]] b)\r\n\"z"
  have hscan : scan t = (scan t).take 6 ++ (scan t)[6] :: (scan t).drop 7 := by
    decide +kernel
  exact ⟨_, _, _, hscan, by decide +kernel, (scan_lossless t).2.2.2 _ _ _ hscan⟩

end Token

/-- A statement as a part of a text: its span leads to the two ends of the part, which reads as
the statement renders, from the first letter of the command to the closing parenthesis. -/
structure Placed.Sliced (t : Text) (p : Placed Statement) (place : Nat × Nat) : Prop where
  first : p.span.first.offset? (lineStarts t) = some (place.1 : Int)
  last : p.span.last.offset? (lineStarts t) = some (place.2 - 1 : Int)
  nonempty : place.1 < place.2
  within : place.2 ≤ t.length
  slice : t.slice place.1 place.2 = p.item.render
  head : ∃ g, Scan.isLetter g = true ∧ p.item.command.spelling.head? = some g ∧
    (t.slice place.1 place.2).head? = some g
  closer : (t.slice place.1 place.2).getLast? = some (.char ')')

namespace Parse

theorem Phrase.Reads.spelling {p : Phrase} {s : Placed Statement} (h : p.Reads s) {t : Text}
    (hmem : p.name ∈ Token.scan t) :
    ∃ g rest, s.item.command.spelling = g :: rest ∧ Scan.isLetter g = true := by
  have hspelling : s.item.command.spelling = p.name.text := by
    rw [h.command]
    rfl
  rw [hspelling]
  exact Token.letter_of_identifier hmem h.name

theorem spelling_of_listing {t : Text} {statements : List (Placed Statement)}
    {phrases : List Phrase} {tail : List Token}
    (listing : Listing (Token.scan t) statements phrases tail) {s : Placed Statement}
    (hs : s ∈ statements) :
    ∃ g rest, s.item.command.spelling = g :: rest ∧ Scan.isLetter g = true := by
  obtain ⟨i, hi, rfl⟩ := List.getElem_of_mem hs
  have hlt : i < phrases.length := by
    have := listing.reads.length_eq
    omega
  have hreads : phrases[i].Reads statements[i] := listing.reads.get hlt hi
  have hname : phrases[i].name ∈ phrases[i].tokens := by
    simp [Phrase.tokens, Phrase.call, Phrase.head]
  refine hreads.spelling (t := t) ?_
  rw [listing.tokens_eq]
  exact List.mem_append_left _ (List.mem_flatMap.mpr ⟨_, List.getElem_mem hlt, hname⟩)

end Parse

theorem Placed.StandsAt.sliced {t : Text} {p : Placed Statement} {place : Nat × Nat}
    (h : Placed.StandsAt t ⟨p.span, .other p.item⟩ place)
    (spelling : ∃ g rest, p.item.command.spelling = g :: rest ∧ Scan.isLetter g = true) :
    Placed.Sliced t p place := by
  have hslice : t.slice place.1 place.2 = p.item.render := h.clean rfl
  refine ⟨h.first, h.last, h.nonempty, h.within, hslice, ?_, ?_⟩
  · obtain ⟨g, rest, hspelling, hletter⟩ := spelling
    refine ⟨g, hletter, by rw [hspelling]; rfl, ?_⟩
    simp [hslice, Statement.render, Command.render, hspelling]
  · rw [hslice]
    exact Command.getLast?_render _ _

/-- Reading loses nothing: the statements of a text are parts of it, one after the other, and
outside of them no token opens a statement. -/
theorem Statement.parse_lossless {t : Text} {statements : List (Placed Statement)}
    (h : Statement.parse t = .ok statements) :
    (∃ places : List (Nat × Nat), List.Forall₂ (Placed.Sliced t) statements places ∧
      places.Pairwise fun p q => p.2 ≤ q.1) ∧
    ∃ phrases tail, Parse.Listing (Token.scan t) statements phrases tail := by
  obtain ⟨phrases, rest, listing, -⟩ := Parse.listing_of_parse h
  obtain ⟨strands, tail, htext, hpieces, hspans⟩ := Parse.strands_of_parse h
  refine ⟨⟨Strand.places 0 strands, ?_, Strand.pairwise_places 0 strands⟩, phrases, rest, listing⟩
  -- Statements stand in the text as blocks do that no edit has touched.
  let blocks : List (Placed Block) := statements.map fun p => ⟨p.span, .other p.item⟩
  have clean : List.Forall₂ (fun s b => b.item.isDirty = false → s.piece = b.item.render)
      strands blocks := by
    refine List.forall₂_map_right_iff.mpr ((forall₂_of_map_eq hpieces).imp ?_)
    intro s p hsp _
    exact hsp
  have closed : ∀ s ∈ strands, s.piece.getLast? = some (.char ')') := by
    intro s hs
    have hpiece : s.piece ∈ statements.map (·.item.render) := by
      rw [← hpieces]
      exact List.mem_map_of_mem hs
    obtain ⟨p, -, hp⟩ := List.mem_map.mp hpiece
    rw [← hp]
    exact Command.getLast?_render _ _
  have spans : blocks.map (·.span) = Strand.spans [] strands := by
    rw [List.map_map]
    exact hspans
  have stands := Strand.standsAt_places clean closed [] tail spans
  rw [List.nil_append, ← htext] at stands
  have spelled := (List.forall₂_and_left _ _).mpr
    ⟨fun p (hp : p ∈ statements) => Parse.spelling_of_listing listing hp,
      List.forall₂_map_left_iff.mp stands⟩
  exact spelled.imp fun p place hp => hp.2.sliced hp.1

theorem Statement.parse_lossless_nested :
    ∃ statements, statements.length = 2 ∧
      Statement.parse (Text.ofString "# a\r\nAdd_X (a \"b\n\" #[[c\n]](d)# e\n)\nf()") =
        .ok statements ∧
      (∃ places : List (Nat × Nat), List.Forall₂
        (Placed.Sliced (Text.ofString "# a\r\nAdd_X (a \"b\n\" #[[c\n]](d)# e\n)\nf()"))
        statements places ∧ places.Pairwise fun p q => p.2 ≤ q.1) ∧
      ∃ phrases tail, Parse.Listing
        (Token.scan (Text.ofString "# a\r\nAdd_X (a \"b\n\" #[[c\n]](d)# e\n)\nf()"))
        statements phrases tail := by
  let t := Text.ofString "# a\r\nAdd_X (a \"b\n\" #[[c\n]](d)# e\n)\nf()"
  have two : ((Statement.parse t).toOption.map List.length) = some 2 := by decide +kernel
  obtain ⟨statements, parsed⟩ := exists_ok (e := Statement.parse t) (by decide +kernel)
  have length : statements.length = 2 := by simpa [parsed, Except.toOption] using two
  exact ⟨statements, length, parsed, Statement.parse_lossless parsed⟩

end Listfile
