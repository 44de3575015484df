import Listfile.Proofs.Grammar

/-!
A text as strands: the text of each statement with the text before it. A text that is read falls
into strands, one for each statement, and each statement renders as its piece of the text and has
the span of that piece.
-/

namespace Listfile

/-- The text of a statement and the text between it and the statement before. -/
structure Strand where
  gap : Text
  piece : Text
  deriving DecidableEq, Repr

namespace Strand

def text (s : Strand) : Text := s.gap ++ s.piece

def weave (strands : List Strand) : Text := strands.flatMap text

def spanAfter (before piece : Text) : Span :=
  ⟨.after before, .after (before ++ piece.dropLast)⟩

def spans (before : Text) : List Strand → List Span
  | [] => []
  | s :: rest => spanAfter (before ++ s.gap) s.piece :: spans (before ++ s.text) rest

@[simp] theorem weave_nil : weave [] = [] := rfl

@[simp] theorem weave_cons (s : Strand) (rest : List Strand) :
    weave (s :: rest) = s.gap ++ s.piece ++ weave rest := by
  simp [weave, text]

@[simp] theorem weave_append (s t : List Strand) : weave (s ++ t) = weave s ++ weave t := by
  simp [weave]

theorem length_spans (before : Text) (strands : List Strand) :
    (spans before strands).length = strands.length := by
  induction strands generalizing before with
  | nil => rfl
  | cons s rest ih => simp [spans, ih]

end Strand

namespace Parse

theorem Part.Reads.render {p : Part} {a : Argument} (h : p.Reads a) :
    Token.textOf p.tokens = a.render := by
  have hs := h.source
  unfold Argument.ofSource? at hs
  split at hs
  · cases hs
    simp [Part.tokens, Argument.render, Argument.sourceText]
  · cases hs
    simp [Part.tokens, Argument.render, Argument.sourceText]
  · obtain ⟨value, -, rfl⟩ := Option.map_eq_some_iff.mp hs
    simp [Part.tokens, Argument.render, Argument.sourceText]

theorem textOf_parts {parts : List Part} {arguments : List Argument}
    (h : List.Forall₂ Part.Reads parts arguments) :
    Token.textOf (parts.flatMap Part.tokens) = arguments.flatMap Argument.render := by
  induction h with
  | nil => rfl
  | cons hp _ ih => simp [hp.render, ih]

def Phrase.Spelled (p : Phrase) : Prop :=
  p.opener.text = [.char '('] ∧ p.closer.text = [.char ')']

def Phrase.strand (p : Phrase) : Strand := ⟨Token.textOf p.gap, Token.textOf p.call⟩

theorem Phrase.Reads.render {p : Phrase} {s : Placed Statement} (h : p.Reads s)
    (spelled : p.Spelled) : p.strand.piece = s.item.render := by
  simp [Phrase.strand, Phrase.call, Phrase.head, Statement.render, h.command, Command.render,
    Command.named, textOf_parts h.parts, spelled.1, spelled.2]

theorem textOf_phrases (phrases : List Phrase) :
    Token.textOf (phraseTokens phrases) = Strand.weave (phrases.map Phrase.strand) := by
  induction phrases with
  | nil => rfl
  | cons p rest ih =>
    have : phraseTokens (p :: rest) = p.gap ++ p.call ++ phraseTokens rest := by
      simp [phraseTokens, Phrase.tokens]
    rw [this]
    simp [ih, Phrase.strand]

/-- The name stands where the gap ends, and the closing parenthesis is the last glyph. -/
theorem Phrase.span_of_consecutive {p : Phrase} {before : Text} {more : List Token}
    (spelled : p.Spelled)
    (h : Token.Consecutive (.after before) (p.tokens ++ more)) :
    (⟨p.name.position, p.closer.position⟩ : Span) =
      Strand.spanAfter (before ++ p.strand.gap) p.strand.piece := by
  let body := p.head ++ p.parts.flatMap Part.tokens ++ p.trailing
  have hname : p.tokens ++ more = p.gap ++ p.name :: (p.leading ++ [p.opener] ++
      p.parts.flatMap Part.tokens ++ p.trailing ++ [p.closer] ++ more) := by
    simp [Phrase.tokens, Phrase.call, Phrase.head]
  have hcloser : p.tokens ++ more = (p.gap ++ body) ++ p.closer :: more := by
    simp [Phrase.tokens, Phrase.call, body]
  have first : p.name.position = .after (before ++ p.strand.gap) := by
    rw [hname] at h
    rw [(Token.consecutive_append.mp h).2.1, Position.after_append]
    rfl
  have last : p.closer.position = .after (before ++ p.strand.gap ++ Token.textOf body) := by
    rw [hcloser] at h
    rw [(Token.consecutive_append.mp h).2.1, ← Position.after_append]
    simp [Phrase.strand]
  have hpiece : p.strand.piece.dropLast = Token.textOf body := by
    have : p.strand.piece = Token.textOf body ++ [.char ')'] := by
      simp [Phrase.strand, Phrase.call, body, spelled.2]
    simp [this]
  rw [Strand.spanAfter, first, last, hpiece]

theorem spans_of_consecutive {phrases : List Phrase} {statements : List (Placed Statement)}
    (reads : List.Forall₂ Phrase.Reads phrases statements)
    (spelled : ∀ p ∈ phrases, p.Spelled) {before : Text} {more : List Token}
    (h : Token.Consecutive (.after before) (phraseTokens phrases ++ more)) :
    statements.map (·.span) = Strand.spans before (phrases.map Phrase.strand) := by
  induction reads generalizing before with
  | nil => rfl
  | @cons p s phrases statements hp _ ih =>
    have hps : p.Spelled := spelled p List.mem_cons_self
    have split : phraseTokens (p :: phrases) ++ more =
        p.tokens ++ (phraseTokens phrases ++ more) := by
      simp [phraseTokens]
    rw [split] at h
    have htext : Token.textOf p.tokens = p.strand.text := by
      simp [Phrase.tokens, Strand.text, Phrase.strand]
    have hrest := (Token.consecutive_append.mp h).2
    rw [← Position.after_append, htext] at hrest
    simp only [List.map_cons, Strand.spans]
    rw [ih (fun q hq => spelled q (List.mem_cons_of_mem p hq)) hrest, hp.span,
      Phrase.span_of_consecutive hps h]

theorem pieces_of_reads {phrases : List Phrase} {statements : List (Placed Statement)}
    (reads : List.Forall₂ Phrase.Reads phrases statements) (spelled : ∀ p ∈ phrases, p.Spelled) :
    phrases.map (Strand.piece ∘ Phrase.strand) = statements.map (·.item.render) := by
  induction reads with
  | nil => rfl
  | @cons p s _ _ hp _ ih =>
    simp only [List.map_cons, Function.comp_apply]
    rw [hp.render (spelled p List.mem_cons_self),
      ih fun q hq => spelled q (List.mem_cons_of_mem p hq)]

theorem listing_of_parse {t : Text} {statements : List (Placed Statement)}
    (h : Statement.parse t = .ok statements) :
    ∃ phrases tail, Listing (Token.scan t) statements phrases tail ∧
      ∀ p ∈ phrases, p.Spelled := by
  obtain ⟨phrases, tail, listing⟩ := listing_of_ofTokens h
  refine ⟨phrases, tail, listing, ?_⟩
  intro p hp
  have mem : ∀ u ∈ p.tokens, u ∈ Scan.tokensFrom .start 0 t := by
    intro u hu
    have : u ∈ Token.scan t := by
      rw [listing.tokens_eq]
      exact List.mem_append_left _ (List.mem_flatMap.mpr ⟨p, hp, hu⟩)
    exact this
  obtain ⟨s, hreads⟩ : ∃ s, p.Reads s := by
    obtain ⟨i, hi, rfl⟩ := List.getElem_of_mem hp
    have hlen := listing.reads.length_eq
    exact ⟨statements[i], listing.reads.get hi (by omega)⟩
  constructor
  · exact Scan.text_of_parenLeft (mem _ (by simp [Phrase.tokens, Phrase.call, Phrase.head]))
      hreads.opener
  · exact Scan.text_of_parenRight (mem _ (by simp [Phrase.tokens, Phrase.call])) hreads.closer

/-- Reading loses nothing: a text that is read is made of strands whose pieces are the statements
as they render, at their spans, and a tail. -/
theorem strands_of_parse {t : Text} {statements : List (Placed Statement)}
    (h : Statement.parse t = .ok statements) :
    ∃ strands tail, t = Strand.weave strands ++ tail ∧
      strands.map (·.piece) = statements.map (·.item.render) ∧
      statements.map (·.span) = Strand.spans [] strands := by
  obtain ⟨phrases, tail, listing, spelled⟩ := listing_of_parse h
  refine ⟨phrases.map Phrase.strand, Token.textOf tail, ?_, ?_, ?_⟩
  · rw [← Token.textOf_scan t, listing.tokens_eq, Token.textOf_append, textOf_phrases]
  · rw [List.map_map]
    exact pieces_of_reads listing.reads spelled
  · have consecutive := Token.consecutive_scan t
    rw [listing.tokens_eq] at consecutive
    exact spans_of_consecutive listing.reads spelled consecutive

end Parse

end Listfile
