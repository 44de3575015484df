import Listfile.Proofs.Compose
import Listfile.Proofs.Strand

/-!
Texts that are read. A statement is legible when its own words and layout say that it can be read
back, and gaps and a tail make a frame when they can stand around statements. The reader accepts
exactly the texts of legible statements in a frame, and gives those statements.
-/

namespace Listfile

open Scan Parse

def Argument.asRead (a : Argument) : Argument := { a with raw := some a.sourceText }

def Statement.asRead (s : Statement) : Statement := ⟨s.command, s.arguments.map Argument.asRead⟩

@[simp] theorem Argument.render_asRead (a : Argument) : a.asRead.render = a.render := rfl

theorem Statement.render_asRead (s : Statement) : s.asRead.render = s.render := by
  simp [Statement.render, Statement.asRead, Command.render, List.flatMap_map]

def Argument.kind (a : Argument) : TokenKind :=
  match a.sourceText with
  | [] => .badCharacter
  | g :: rest => (lexeme g rest).1

/-- The spelling of an argument is one word and means the argument. -/
structure Argument.Spells (a : Argument) : Prop where
  word : a.kind.isSeparator = false ∧ a.kind.isBad = false
  whole : Whole a.kind a.sourceText
  source : ∀ separator, Argument.ofSource? (delimiterOf a.kind) separator a.sourceText =
    some { a.asRead with separator := separator }

/-- Layout that can stand before a word: it does not end in a comment that takes the word along. -/
structure Layout (t : Text) : Prop where
  separators : ∀ k ∈ kinds t, k.isSeparator = true
  ended : (kinds t).getLast? ≠ some .commentLine

def Argument.Apart (after : Text) : List Argument → Prop
  | [] => True
  | a :: rest => Fits a.kind (rest.flatMap Argument.render ++ after) ∧ Argument.Apart after rest

/-- A statement that is read back from its text. -/
structure Statement.Legible (s : Statement) : Prop where
  command : s.command = .named s.command.spelling [] s.command.leading s.command.trailing
  spelling : Whole .identifier s.command.spelling
  leading : ∀ k ∈ kinds s.command.leading, k = .space
  trailing : Layout s.command.trailing
  words : ∀ a ∈ s.arguments, a.Spells
  layout : ∀ a ∈ s.arguments, Layout a.separator
  apart : Argument.Apart (s.command.trailing ++ [.char ')']) s.arguments
  nested : (s.arguments.map Argument.kind).foldlM depthAfter 0 = some 0

/-- A gap after which any statement can be opened on its line. -/
def Ready (gap : Text) : Prop := ∀ t, Whole .identifier t → Meets gap t

/-- Gaps and a tail that can stand around statements. -/
def Frame (mayOpen : Bool) : List Text → Text → Prop
  | [], tail => ∃ after, Gap mayOpen (Token.scan tail) after
  | gap :: gaps, tail => Gap mayOpen (Token.scan gap) true ∧ Ready gap ∧ Frame false gaps tail

theorem Layout.good {t : Text} (h : Layout t) : Good t := by
  intro k hk
  have := h.separators k hk
  cases k <;> first | rfl | cases this

theorem head_of_whole {k : TokenKind} {g : Glyph} {rest : Text} (h : Whole k (g :: rest))
    (hk : k.isSeparator = false) : g.isSpace = false ∧ g ≠ .char '\n' := by
  have hlex : lexeme g rest = (k, rest.length + 1) := h
  constructor
  · cases hs : g.isSpace with
    | false => rfl
    | true =>
      have hlexed : Lexed g rest .space _ := .space hs
      have hspace := hlexed.lexeme_eq rfl
      rw [hlex] at hspace
      rw [(Prod.mk.inj hspace).1] at hk
      cases hk
  · rintro rfl
    have hlexed : Lexed (.char '\n') rest .newline 1 := .newline rfl
    have hnewline := hlexed.lexeme_eq rfl
    rw [hlex] at hnewline
    rw [(Prod.mk.inj hnewline).1] at hk
    cases hk

theorem Layout.meets {t u : Text} (h : Layout t)
    (hu : ∀ g, u.head? = some g → g.isSpace = false) : Meets t u := by
  intro k hk g hg
  have hsep := h.separators k (List.mem_of_getLast? hk)
  cases k with
  | space => exact hu g hg
  | newline => trivial
  | commentLine => exact absurd hk h.ended
  | commentBracket => trivial
  | _ => cases hsep

theorem layout_of_spaces {t : Text} (h : ∀ k ∈ kinds t, k = .space) : Layout t := by
  refine ⟨fun k hk => by rw [h k hk]; rfl, fun hlast => ?_⟩
  cases h _ (List.mem_of_getLast? hlast)

theorem fits_of_stop {k : TokenKind} (hk : k.isSeparator = false) {g : Glyph} {t : Text}
    (ho : isOrdinary g = false) (hb : g ≠ .char '\\') : Fits k (g :: t) := by
  rintro x ⟨⟩
  cases k with
  | identifier => exact ⟨ho, hb⟩
  | argumentUnquoted => exact ⟨ho, hb⟩
  | space => cases hk
  | commentLine => cases hk
  | _ => trivial

theorem Layout.fits {t u : Text} (h : Layout t) {k : TokenKind} (hk : k.isSeparator = false)
    (hu : ∀ g, u.head? = some g → isOrdinary g = false ∧ g ≠ .char '\\') : Fits k (t ++ u) := by
  cases t with
  | nil =>
    cases u with
    | nil => exact fits_nil k
    | cons g u => exact fits_of_stop hk (hu g rfl).1 (hu g rfl).2
  | cons g rest =>
    have hstop : isOrdinary g = false ∧ g ≠ .char '\\' := by
      have hmem : (lexeme g rest).1 ∈ kinds (g :: rest) := by
        rw [kinds, Token.scan, tokensFrom_cons]
        exact List.mem_cons_self
      have hsep := h.separators _ hmem
      have hlexed := lexed_lexeme g rest
      generalize lexeme g rest = found at hsep hlexed
      obtain ⟨k', n⟩ := found
      cases hlexed with
      | commentBracket hg => rw [hg]; decide
      | commentLine hg => rw [hg]; decide
      | newline hg => rw [hg]; decide
      | space hg =>
        simp only [Glyph.isSpace, Bool.or_eq_true, decide_eq_true_eq] at hg
        rcases hg with (rfl | rfl) | rfl <;> decide
      | _ => cases hsep
    exact fits_of_stop hk hstop.1 hstop.2

theorem meets_append {s t u : Text} (h : Meets s t) (hne : t ≠ []) : Meets s (t ++ u) :=
  fun k hk => fits_append (h k hk) hne u

theorem apart_append {after : Text} {arguments : List Argument}
    (h : Argument.Apart after arguments) (hne : after ≠ []) (more : Text) :
    Argument.Apart (after ++ more) arguments := by
  induction arguments with
  | nil => trivial
  | cons a rest ih =>
    refine ⟨?_, ih h.2⟩
    rw [← List.append_assoc]
    exact fits_append h.1 (by simp [hne]) more

theorem Argument.Spells.head {a : Argument} (h : a.Spells) (u : Text) {g : Glyph}
    (hg : (a.sourceText ++ u).head? = some g) : g.isSpace = false ∧ g ≠ .char '\n' := by
  have hw := h.whole
  cases hs : a.sourceText with
  | nil => exact absurd hs h.whole.ne_nil
  | cons x rest =>
    rw [hs] at hg hw
    cases hg
    exact head_of_whole hw h.word.1

theorem Argument.Spells.good {a : Argument} (h : a.Spells) : Good a.sourceText :=
  h.whole.good h.word.2

namespace Parse

def partsFrom (p : Position) : List Argument → List Part
  | [] => []
  | a :: rest =>
    ⟨tokensFrom p 0 a.separator, ⟨a.kind, a.sourceText, p.advance a.separator⟩⟩ ::
      partsFrom (p.advance a.render) rest

theorem tokensFrom_arguments (p : Position) {arguments : List Argument} {after : Text}
    (words : ∀ a ∈ arguments, a.Spells) (layout : ∀ a ∈ arguments, Layout a.separator)
    (apart : Argument.Apart after arguments) :
    tokensFrom p 0 (arguments.flatMap Argument.render ++ after) =
      (partsFrom p arguments).flatMap Part.tokens ++
        tokensFrom (p.advance (arguments.flatMap Argument.render)) 0 after := by
  induction arguments generalizing p with
  | nil => simp [partsFrom, Position.advance_nil]
  | cons a rest ih =>
    have hword := words a List.mem_cons_self
    have hlayout := layout a List.mem_cons_self
    have hrest := ih (p.advance a.render) (fun b hb => words b (.tail _ hb))
      (fun b hb => layout b (.tail _ hb)) apart.2
    have htext : (a :: rest).flatMap Argument.render ++ after =
        a.separator ++ (a.sourceText ++ (rest.flatMap Argument.render ++ after)) := by
      simp [Argument.render]
    have hplace : (p.advance a.separator).advance a.sourceText = p.advance a.render := by
      rw [← Position.advance_append, Argument.render]
    rw [htext, tokensFrom_append p hlayout.good (hlayout.meets fun g hg => (hword.head _ hg).1),
      tokensFrom_append _ hword.good (hword.whole.meets apart.1), tokensFrom_whole _ hword.whole,
      hplace, hrest, List.flatMap_cons, Position.advance_append]
    simp [partsFrom, Part.tokens]

theorem partsFrom_reads (p : Position) {arguments : List Argument}
    (words : ∀ a ∈ arguments, a.Spells) (layout : ∀ a ∈ arguments, Layout a.separator) :
    List.Forall₂ Part.Reads (partsFrom p arguments) (arguments.map Argument.asRead) := by
  induction arguments generalizing p with
  | nil => exact .nil
  | cons a rest ih =>
    have hword := words a List.mem_cons_self
    refine .cons ⟨?_, hword.word, ?_⟩ (ih _ (fun b hb => words b (.tail _ hb))
      (fun b hb => layout b (.tail _ hb)))
    · intro t ht
      apply (layout a List.mem_cons_self).separators
      rw [← kinds_tokensFrom p]
      exact List.mem_map_of_mem ht
    · rw [textOf_tokensFrom]
      exact hword.source a.separator

theorem kinds_partsFrom (p : Position) (arguments : List Argument) :
    (partsFrom p arguments).map (·.word.kind) = arguments.map Argument.kind := by
  induction arguments generalizing p with
  | nil => rfl
  | cons a rest ih => simp [partsFrom, ih]

def phraseFrom (p : Position) (gap : Text) (s : Statement) : Phrase :=
  let name := p.advance gap
  let leading := name.advance s.command.spelling
  let opener := leading.advance s.command.leading
  let parts := opener.advance [.char '(']
  let trailing := parts.advance (s.arguments.flatMap Argument.render)
  let closer := trailing.advance s.command.trailing
  { gap := tokensFrom p 0 gap
    name := ⟨.identifier, s.command.spelling, name⟩
    leading := tokensFrom leading 0 s.command.leading
    opener := ⟨.parenLeft, [.char '('], opener⟩
    parts := partsFrom parts s.arguments
    trailing := tokensFrom trailing 0 s.command.trailing
    closer := ⟨.parenRight, [.char ')'], closer⟩ }

theorem phraseFrom_reads (p : Position) (gap : Text) {s : Statement} (h : s.Legible) :
    (phraseFrom p gap s).Reads
      ⟨⟨(phraseFrom p gap s).name.position, (phraseFrom p gap s).closer.position⟩, s.asRead⟩ := by
  have of_kinds : ∀ {q : Position} {t : Text} {P : TokenKind → Prop},
      (∀ k ∈ kinds t, P k) → ∀ u ∈ tokensFrom q 0 t, P u.kind := by
    intro q t P hP u hu
    apply hP
    rw [← kinds_tokensFrom q]
    exact List.mem_map_of_mem hu
  refine ⟨rfl, of_kinds h.leading, rfl, partsFrom_reads _ h.words h.layout, ?_,
    of_kinds h.trailing.separators, rfl, ?_, rfl⟩
  · rw [Nested, phraseFrom, kinds_partsFrom]
    exact h.nested
  · simpa [phraseFrom, textOf_tokensFrom, Statement.asRead] using h.command

theorem whole_parenLeft : Whole .parenLeft [.char '('] := by decide

theorem whole_parenRight : Whole .parenRight [.char ')'] := by decide

/-- The tokens of a gap and a legible statement, whatever follows. -/
theorem tokensFrom_phrase (p : Position) {gap : Text} {s : Statement} (good : Good gap)
    (meets : Meets gap s.command.spelling) (h : s.Legible) (after : Text) :
    tokensFrom p 0 (gap ++ s.render ++ after) =
      (phraseFrom p gap s).tokens ++ tokensFrom (p.advance (gap ++ s.render)) 0 after := by
  have htext : gap ++ s.render ++ after = gap ++ (s.command.spelling ++ (s.command.leading ++
      ([.char '('] ++ (s.arguments.flatMap Argument.render ++ (s.command.trailing ++
        ([.char ')'] ++ after)))))) := by
    simp [Statement.render, Command.render]
  have hleading := layout_of_spaces h.leading
  have hname : Fits .identifier (s.command.leading ++ ([.char '('] ++
      (s.arguments.flatMap Argument.render ++ (s.command.trailing ++ ([.char ')'] ++ after))))) :=
    hleading.fits rfl (by rintro g ⟨⟩; decide)
  have hplace : gap ++ s.render = gap ++ (s.command.spelling ++ (s.command.leading ++
      ([.char '('] ++ (s.arguments.flatMap Argument.render ++ (s.command.trailing ++
        [.char ')']))))) := by
    simp [Statement.render, Command.render]
  rw [htext, tokensFrom_append p good (meets_append meets h.spelling.ne_nil),
    tokensFrom_append _ (h.spelling.good rfl) (h.spelling.meets hname),
    tokensFrom_whole _ h.spelling,
    tokensFrom_append _ hleading.good (hleading.meets (by simp [Glyph.isSpace])),
    tokensFrom_append _ (whole_parenLeft.good rfl) (whole_parenLeft.meets fun _ _ => trivial),
    tokensFrom_whole _ whole_parenLeft,
    tokensFrom_arguments _ h.words h.layout
      (by rw [← List.append_assoc]; exact apart_append h.apart (by simp) after),
    tokensFrom_append _ h.trailing.good (h.trailing.meets (by simp [Glyph.isSpace])),
    tokensFrom_append _ (whole_parenRight.good rfl) (whole_parenRight.meets fun _ _ => trivial),
    tokensFrom_whole _ whole_parenRight, hplace]
  simp only [Position.advance_append, phraseFrom, Phrase.tokens, Phrase.call, Phrase.head]
  simp

theorem gap_congr {before after : Bool} {xs ys : List Token}
    (h : xs.map (·.kind) = ys.map (·.kind)) (hgap : Gap before xs after) :
    Gap before ys after := by
  have idle_kind : ∀ {m : Bool} {x y : Token}, x.kind = y.kind → idle m x = idle m y := by
    intro m x y hk
    simp only [idle, hk]
  induction xs generalizing before ys with
  | nil =>
    rw [List.map_nil, eq_comm, List.map_eq_nil_iff] at h
    rwa [h]
  | cons x xs ih =>
    cases ys with
    | nil => simp at h
    | cons y ys =>
      simp only [List.map_cons, List.cons.injEq] at h
      simp only [Gap, List.foldlM_cons, Option.bind_eq_bind, Option.bind_eq_some_iff] at hgap ⊢
      obtain ⟨m, hm, hrest⟩ := hgap
      exact ⟨m, idle_kind h.1 ▸ hm, ih h.2 hrest⟩

theorem gap_tokensFrom {before after : Bool} {t : Text} (h : Gap before (Token.scan t) after)
    (p : Position) : Gap before (tokensFrom p 0 t) after :=
  gap_congr (kinds_tokensFrom p t).symm h

theorem gap_good {before after : Bool} {tokens : List Token} (h : Gap before tokens after) :
    ∀ u ∈ tokens, u.kind.isBad = false := by
  induction tokens generalizing before with
  | nil => simp
  | cons x xs ih =>
    simp only [Gap, List.foldlM_cons, Option.bind_eq_bind, Option.bind_eq_some_iff] at h
    obtain ⟨m, hm, hrest⟩ := h
    refine List.forall_mem_cons.mpr ⟨?_, ih hrest⟩
    cases hb : x.kind.isBad with
    | false => rfl
    | true => simp [idle, hb] at hm

theorem good_of_gap {before after : Bool} {t : Text} (h : Gap before (Token.scan t) after) :
    Good t :=
  good_of_tokens rfl (gap_good h)

def phrasesFrom (p : Position) : List Text → List Statement → List Phrase
  | gap :: gaps, s :: rest =>
    phraseFrom p gap s :: phrasesFrom (p.advance (gap ++ s.render)) gaps rest
  | _, _ => []

def around (gaps : List Text) (statements : List Statement) : List Strand :=
  List.zipWith (fun gap s => ⟨gap, s.render⟩) gaps statements

theorem tokensFrom_frame (p : Position) {mayOpen : Bool} {gaps : List Text} {tail : Text}
    {statements : List Statement} (frame : Frame mayOpen gaps tail)
    (len : gaps.length = statements.length) (legible : ∀ s ∈ statements, s.Legible) :
    tokensFrom p 0 (Strand.weave (around gaps statements) ++ tail) =
        phraseTokens (phrasesFrom p gaps statements) ++
          tokensFrom (p.advance (Strand.weave (around gaps statements))) 0 tail ∧
      Phrase.Gaps mayOpen (phrasesFrom p gaps statements) ∧
      ∃ after, Gap (mayOpen && (phrasesFrom p gaps statements).isEmpty) (Token.scan tail)
        after := by
  induction gaps generalizing p mayOpen statements with
  | nil =>
    rw [List.eq_nil_of_length_eq_zero len.symm]
    refine ⟨by simp [around, phrasesFrom, phraseTokens, Position.advance_nil], trivial, ?_⟩
    obtain ⟨after, hgap⟩ := frame
    exact ⟨after, by simpa [phrasesFrom] using hgap⟩
  | cons gap gaps ih =>
    cases statements with
    | nil => simp at len
    | cons s rest =>
      obtain ⟨hgap, hready, hframe⟩ := frame
      have hs := legible s List.mem_cons_self
      have hlen : gaps.length = rest.length := by simpa using len
      obtain ⟨htokens, hgaps, htail⟩ := ih (p.advance (gap ++ s.render)) hframe hlen
        fun t ht => legible t (.tail _ ht)
      have hhead := tokensFrom_phrase p (good_of_gap hgap) (hready _ hs.spelling) hs
        (Strand.weave (around gaps rest) ++ tail)
      have htext : Strand.weave (around (gap :: gaps) (s :: rest)) =
          gap ++ s.render ++ Strand.weave (around gaps rest) := by
        simp [around]
      refine ⟨?_, ⟨gap_tokensFrom hgap p, hgaps⟩, by simpa [phrasesFrom] using htail⟩
      rw [htext, List.append_assoc, hhead, htokens, ← Position.advance_append]
      simp [phrasesFrom, phraseTokens]

theorem phrasesFrom_reads (p : Position) {gaps : List Text} {statements : List Statement}
    (len : gaps.length = statements.length) (legible : ∀ s ∈ statements, s.Legible) :
    ∃ placed : List (Placed Statement), placed.map (·.item) = statements.map Statement.asRead ∧
      List.Forall₂ Phrase.Reads (phrasesFrom p gaps statements) placed := by
  induction gaps generalizing p statements with
  | nil =>
    rw [List.eq_nil_of_length_eq_zero len.symm]
    exact ⟨[], rfl, .nil⟩
  | cons gap gaps ih =>
    cases statements with
    | nil => simp at len
    | cons s rest =>
      have hlen : gaps.length = rest.length := by simpa using len
      obtain ⟨placed, hitems, hreads⟩ := ih (p.advance (gap ++ s.render)) hlen
        fun t ht => legible t (.tail _ ht)
      have hs := phraseFrom_reads p gap (legible s List.mem_cons_self)
      exact ⟨_ :: placed, by rw [List.map_cons, hitems]; rfl, .cons hs hreads⟩

theorem phrasesFrom_strands (p : Position) {gaps : List Text} {statements : List Statement}
    (len : gaps.length = statements.length) (legible : ∀ s ∈ statements, s.Legible) :
    (phrasesFrom p gaps statements).map Phrase.strand = around gaps statements ∧
      ∀ q ∈ phrasesFrom p gaps statements, q.Spelled := by
  induction gaps generalizing p statements with
  | nil =>
    rw [List.eq_nil_of_length_eq_zero len.symm]
    exact ⟨rfl, by simp [phrasesFrom]⟩
  | cons gap gaps ih =>
    cases statements with
    | nil => simp at len
    | cons s rest =>
      have hlen : gaps.length = rest.length := by simpa using len
      obtain ⟨hstrands, hspelled⟩ := ih (p.advance (gap ++ s.render)) hlen
        fun t ht => legible t (.tail _ ht)
      have hs := phraseFrom_reads p gap (legible s List.mem_cons_self)
      have hpiece : (phraseFrom p gap s).strand = ⟨gap, s.render⟩ := by
        have := hs.render ⟨rfl, rfl⟩
        rw [Statement.render_asRead] at this
        rw [← this]
        simp [Phrase.strand, phraseFrom, textOf_tokensFrom]
      refine ⟨?_, List.forall_mem_cons.mpr ⟨⟨rfl, rfl⟩, hspelled⟩⟩
      rw [phrasesFrom, List.map_cons, hstrands, hpiece]
      rfl

/-- The reader accepts legible statements in a frame, and gives them at their spans. -/
theorem parse_of_frame {gaps : List Text} {tail : Text} {statements : List Statement}
    (frame : Frame true gaps tail) (len : gaps.length = statements.length)
    (legible : ∀ s ∈ statements, s.Legible) :
    ∃ placed, Statement.parse (Strand.weave (around gaps statements) ++ tail) = .ok placed ∧
      placed.map (·.item) = statements.map Statement.asRead ∧
      placed.map (·.span) = Strand.spans [] (around gaps statements) := by
  obtain ⟨htokens, hgaps, after, htail⟩ := tokensFrom_frame .start frame len legible
  obtain ⟨placed, hitems, hreads⟩ := phrasesFrom_reads .start len legible
  obtain ⟨hstrands, hspelled⟩ := phrasesFrom_strands .start len legible
  have listing : Listing (Token.scan (Strand.weave (around gaps statements) ++ tail)) placed
      (phrasesFrom .start gaps statements) _ :=
    ⟨htokens, hreads, hgaps, after, gap_tokensFrom (by simpa using htail) _⟩
  have consecutive := Token.consecutive_scan (Strand.weave (around gaps statements) ++ tail)
  rw [listing.tokens_eq] at consecutive
  refine ⟨placed, listing.ofTokens, hitems, ?_⟩
  rw [← hstrands]
  exact spans_of_consecutive hreads hspelled consecutive

theorem ofSource?_fields {d : Delimiter} {separator text : Text} {a : Argument}
    (h : Argument.ofSource? d separator text = some a) :
    a.separator = separator ∧ a.raw = some text ∧
      ∀ other, Argument.ofSource? d other text = some { a with separator := other } := by
  cases d with
  | none =>
    cases h
    exact ⟨rfl, rfl, fun _ => rfl⟩
  | quote =>
    cases h
    exact ⟨rfl, rfl, fun _ => rfl⟩
  | bracket =>
    obtain ⟨value, hvalue, rfl⟩ := Option.map_eq_some_iff.mp h
    exact ⟨rfl, rfl, fun _ => by simp [Argument.ofSource?, hvalue]⟩

theorem kind_of_whole {a : Argument} {k : TokenKind} (h : Whole k a.sourceText) : a.kind = k := by
  unfold Argument.kind
  cases hs : a.sourceText with
  | nil => exact absurd hs h.ne_nil
  | cons g rest =>
    rw [hs] at h
    exact congrArg Prod.fst h

theorem Part.Reads.spells {q : Part} {a : Argument} (h : q.Reads a) {p : Position}
    (whole : tokensFrom p 0 q.word.text = [q.word]) :
    a.Spells ∧ a.kind = q.word.kind ∧ a.asRead = a ∧ a.separator = Token.textOf q.layout ∧
      a.sourceText = q.word.text := by
  obtain ⟨hsep, hraw, hsource⟩ := ofSource?_fields h.source
  have htext : a.sourceText = q.word.text := by simp [Argument.sourceText, hraw]
  have hwhole : Whole q.word.kind a.sourceText := htext ▸ whole_of_token whole
  have hkind := kind_of_whole hwhole
  have hread : a.asRead = a := by
    cases a
    simp_all [Argument.asRead]
  refine ⟨⟨by rw [hkind]; exact h.word, by rw [hkind]; exact hwhole, fun other => ?_⟩, hkind, hread,
    hsep, htext⟩
  rw [hkind, htext, hread]
  exact hsource other

theorem layout_of_meets {p : Position} {tokens : List Token} {u : Text}
    (h : tokensFrom p 0 (Token.textOf tokens) = tokens)
    (separators : ∀ t ∈ tokens, t.kind.isSeparator = true)
    (meets : Meets (Token.textOf tokens) u) (hne : u ≠ [])
    (hu : ∀ g, u.head? = some g → g ≠ .char '\n') : Layout (Token.textOf tokens) := by
  constructor
  · intro k hk
    rw [← kinds_tokensFrom p, h] at hk
    obtain ⟨t, ht, rfl⟩ := List.mem_map.mp hk
    exact separators t ht
  · intro hlast
    cases u with
    | nil => exact hne rfl
    | cons g u => exact hu g rfl (meets _ hlast g rfl)

theorem legible_parts {parts : List Part} {arguments : List Argument}
    (reads : List.Forall₂ Part.Reads parts arguments) {p : Position} {t : Text} {rest : List Token}
    (h : tokensFrom p 0 t = parts.flatMap Part.tokens ++ rest)
    (good : ∀ u ∈ parts.flatMap Part.tokens ++ rest, u.kind.isBad = false) :
    (∀ a ∈ arguments, a.Spells ∧ Layout a.separator ∧ a.asRead = a) ∧
      Argument.Apart (Token.textOf rest) arguments ∧
      arguments.map Argument.kind = parts.map (·.word.kind) := by
  induction reads generalizing p t with
  | nil => exact ⟨by simp, trivial, rfl⟩
  | @cons q a parts arguments hq hrest ih =>
    have hsplit : (q :: parts).flatMap Part.tokens ++ rest =
        q.layout ++ ([q.word] ++ (parts.flatMap Part.tokens ++ rest)) := by
      simp [Part.tokens]
    rw [hsplit] at h good
    obtain ⟨hlayout, hmeets, h₁⟩ := tokensFrom_split (good_of_tokens h good) h
    have good₁ := fun u hu => good u (List.mem_append_right _ hu)
    obtain ⟨hword, hfits, h₂⟩ := tokensFrom_split (good_of_tokens h₁ good₁) h₁
    have good₂ := fun u hu => good₁ u (List.mem_append_right _ hu)
    obtain ⟨hspells, hapart, hkinds⟩ := ih h₂ good₂
    simp only [Token.textOf_cons, Token.textOf_nil, List.append_nil] at hword hfits hmeets
    obtain ⟨hs, hkind, hread, hsep, htext⟩ := hq.spells hword
    have hne : Token.textOf ([q.word] ++ (parts.flatMap Part.tokens ++ rest)) ≠ [] := by
      simp [← htext, hs.whole.ne_nil]
    have hl := layout_of_meets hlayout hq.layout hmeets hne (by
      intro g hg
      rw [Token.textOf_append, Token.textOf_cons, Token.textOf_nil, List.append_nil,
        ← htext] at hg
      exact (hs.head _ hg).2)
    refine ⟨List.forall_mem_cons.mpr ⟨⟨hs, hsep ▸ hl, hread⟩, hspells⟩, ⟨?_, hapart⟩, ?_⟩
    · rw [← textOf_parts hrest, ← Token.textOf_append, hkind]
      exact hfits _ (by rw [kinds_whole (whole_of_token hword)]; rfl)
    · rw [List.map_cons, List.map_cons, hkind, hkinds]

/-- A statement that was read is legible, and reading it back gives it again. -/
theorem legible_call {q : Phrase} {s : Placed Statement} (reads : q.Reads s)
    (spelled : q.Spelled) {p : Position} {t : Text} (h : tokensFrom p 0 t = q.call)
    (good : ∀ u ∈ q.call, u.kind.isBad = false) : s.item.Legible ∧ s.item.asRead = s.item := by
  have hsplit : q.call = [q.name] ++ (q.leading ++ ([q.opener] ++
      (q.parts.flatMap Part.tokens ++ (q.trailing ++ [q.closer])))) := by
    simp [Phrase.call, Phrase.head]
  rw [hsplit] at h good
  obtain ⟨hname, -, h₁⟩ := tokensFrom_split (good_of_tokens h good) h
  have good₁ := fun u hu => good u (List.mem_append_right _ hu)
  obtain ⟨hleading, -, h₂⟩ := tokensFrom_split (good_of_tokens h₁ good₁) h₁
  have good₂ := fun u hu => good₁ u (List.mem_append_right _ hu)
  obtain ⟨-, -, h₃⟩ := tokensFrom_split (good_of_tokens h₂ good₂) h₂
  have good₃ := fun u hu => good₂ u (List.mem_append_right _ hu)
  obtain ⟨hspells, hapart, hkinds⟩ := legible_parts reads.parts h₃ good₃
  obtain ⟨-, -, h₄⟩ := tokensFrom_split (good_of_tokens h₃ good₃) h₃
  have good₄ := fun u hu => good₃ u (List.mem_append_right _ hu)
  obtain ⟨htrailing, hmeets, -⟩ := tokensFrom_split (good_of_tokens h₄ good₄) h₄
  have hclose : Token.textOf [q.closer] = [.char ')'] := by simp [spelled.2]
  rw [hclose] at hmeets
  have hcommand := reads.command
  refine ⟨⟨?_, ?_, ?_, ?_, ?_, ?_, ?_, ?_⟩, ?_⟩
  · rw [hcommand]
    rfl
  · rw [hcommand, ← reads.name]
    exact whole_of_token (by simpa using hname)
  · intro k hk
    rw [hcommand, ← kinds_tokensFrom] at hk
    simp only [Command.named] at hk
    rw [hleading] at hk
    obtain ⟨u, hu, rfl⟩ := List.mem_map.mp hk
    exact reads.leading u hu
  · rw [hcommand]
    exact layout_of_meets htrailing reads.trailing hmeets (by simp) (by simp)
  · exact fun a ha => (hspells a ha).1
  · exact fun a ha => (hspells a ha).2.1
  · rw [hcommand]
    rw [Token.textOf_append, hclose] at hapart
    exact hapart
  · rw [hkinds]
    exact reads.nested
  · obtain ⟨span, command, arguments⟩ := s
    simp only [Statement.asRead, Statement.mk.injEq, true_and]
    exact (List.map_congr_left fun a ha => (hspells a ha).2.2).trans (List.map_id arguments)

theorem letter_of_identifier {g : Glyph} {rest : Text} (h : Whole .identifier (g :: rest)) :
    isLetter g = true := by
  have hlexed := lexed_of_lexeme (show lexeme g rest = _ from h)
  generalize rest.length + 1 = n at hlexed
  cases hlexed with
  | identifier _ _ hi =>
    simp only [List.take_succ_cons, isIdentifier, Bool.and_eq_true] at hi
    exact hi.1

theorem letter_glyph {g : Glyph} (h : isLetter g = true) :
    g ≠ .char '\n' ∧ g.isSpace = false ∧ isOrdinary g = true := by
  have hcode : (65 ≤ g.code ∧ g.code ≤ 90) ∨ (97 ≤ g.code ∧ g.code ≤ 122) ∨ g.code = 95 := by
    simp only [isLetter, Bool.or_eq_true, Bool.and_eq_true, decide_eq_true_eq] at h
    rcases h with (h | h) | rfl
    · exact Or.inl h
    · exact Or.inr (Or.inl h)
    · exact Or.inr (Or.inr rfl)
  have hne : ∀ c : Char, c.toNat < 65 ∨ c.toNat = 92 → g ≠ .char c := by
    rintro c hc rfl
    rw [Glyph.code_char] at hcode
    omega
  have hblank : g.isBlank = false := by
    simp only [Glyph.isBlank, inRanges, blankRanges, List.any_cons, List.any_nil,
      Bool.or_eq_false_iff, Bool.and_eq_false_iff, decide_eq_false_iff_not, and_true]
    omega
  refine ⟨hne _ (by decide), ?_, ?_⟩
  · simp [Glyph.isSpace, hne ' ' (by decide), hne '\t' (by decide), hne '\r' (by decide)]
  · simp [isOrdinary, hblank, hne '(' (by decide), hne ')' (by decide), hne '#' (by decide),
      hne '"' (by decide), hne '\\' (by decide)]

theorem fits_identifier {k : TokenKind} {t : Text} (h : Whole .identifier t) :
    Fits k t ↔ k ≠ .commentLine ∧ k ≠ .identifier ∧ k ≠ .argumentUnquoted := by
  cases t with
  | nil => cases h
  | cons g rest =>
    obtain ⟨hnewline, hspace, hordinary⟩ := letter_glyph (letter_of_identifier h)
    constructor
    · intro fits
      have hg := fits g rfl
      refine ⟨?_, ?_, ?_⟩
      · rintro rfl
        exact hnewline hg
      · rintro rfl
        simp [hordinary] at hg
      · rintro rfl
        simp [hordinary] at hg
    · rintro ⟨h₁, h₂, h₃⟩ x ⟨⟩
      cases k with
      | commentLine => exact absurd rfl h₁
      | identifier => exact absurd rfl h₂
      | argumentUnquoted => exact absurd rfl h₃
      | space => exact hspace
      | _ => trivial

/-- The gaps and the tail of a text that was read make a frame, and its statements are legible. -/
theorem frame_of_phrases {phrases : List Phrase} {statements : List (Placed Statement)}
    (reads : List.Forall₂ Phrase.Reads phrases statements) (spelled : ∀ q ∈ phrases, q.Spelled)
    {mayOpen after : Bool} {tail : List Token} (gaps : Phrase.Gaps mayOpen phrases)
    (tail_gap : Gap (mayOpen && phrases.isEmpty) tail after) {p : Position} {t : Text}
    (h : tokensFrom p 0 t = phraseTokens phrases ++ tail)
    (good : ∀ u ∈ phraseTokens phrases ++ tail, u.kind.isBad = false) :
    Frame mayOpen (phrases.map fun q => Token.textOf q.gap) (Token.textOf tail) ∧
      ∀ s ∈ statements, s.item.Legible ∧ s.item.asRead = s.item := by
  have gap_scan : ∀ {q : Position} {xs : List Token} {m m' : Bool},
      tokensFrom q 0 (Token.textOf xs) = xs → Gap m xs m' →
      Gap m (Token.scan (Token.textOf xs)) m' := by
    intro q xs m m' hxs hgap
    refine gap_congr ?_ hgap
    conv_lhs => rw [← hxs, kinds_tokensFrom]
    rfl
  induction reads generalizing mayOpen p t with
  | nil =>
    refine ⟨⟨after, gap_scan (q := p) ?_ (by simpa using tail_gap)⟩, by simp⟩
    simp only [phraseTokens, List.flatMap_nil, List.nil_append] at h
    rw [← h, textOf_tokensFrom]
  | @cons q s phrases statements hq _ ih =>
    have hsplit : phraseTokens (q :: phrases) ++ tail =
        q.gap ++ (q.call ++ (phraseTokens phrases ++ tail)) := by
      simp [phraseTokens, Phrase.tokens]
    rw [hsplit] at h good
    obtain ⟨hgap, hmeets, h₁⟩ := tokensFrom_split (good_of_tokens h good) h
    have good₁ := fun u hu => good u (List.mem_append_right _ hu)
    obtain ⟨hcall, -, h₂⟩ := tokensFrom_split (good_of_tokens h₁ good₁) h₁
    have good₂ := fun u hu => good₁ u (List.mem_append_right _ hu)
    obtain ⟨hframe, hlegible⟩ := ih (fun r hr => spelled r (.tail _ hr)) gaps.2
      (by simpa using tail_gap) h₂ good₂
    have hs := legible_call hq (spelled q List.mem_cons_self) hcall
      fun u hu => good₁ u (List.mem_append_left _ hu)
    refine ⟨⟨gap_scan hgap gaps.1, ?_, hframe⟩, List.forall_mem_cons.mpr ⟨hs, hlegible⟩⟩
    -- A gap that one name can follow is one that any name can follow.
    intro t' ht' k hk
    have hfits := hmeets k hk
    have hname : Whole .identifier q.name.text := by
      have := hs.1.spelling
      rwa [hq.command] at this
    have hhead : Token.textOf (q.call ++ (phraseTokens phrases ++ tail)) = q.name.text ++
        Token.textOf (q.leading ++ [q.opener] ++ q.parts.flatMap Part.tokens ++ q.trailing ++
          [q.closer] ++ (phraseTokens phrases ++ tail)) := by
      simp [Phrase.call, Phrase.head]
    rw [hhead] at hfits
    exact (fits_identifier ht').mpr ((fits_identifier hname).mp (fits_of_append hfits))

theorem Phrase.Reads.good {q : Phrase} {s : Placed Statement} (h : q.Reads s) {before : Bool}
    (gap : Gap before q.gap true) : ∀ u ∈ q.tokens, u.kind.isBad = false := by
  have separators : ∀ {k : TokenKind}, k.isSeparator = true → k.isBad = false := by
    intro k hk
    cases k <;> first | rfl | cases hk
  have hparts : ∀ u ∈ q.parts.flatMap Part.tokens, u.kind.isBad = false := by
    intro u hu
    obtain ⟨r, hr, hu⟩ := List.mem_flatMap.mp hu
    obtain ⟨i, hi, rfl⟩ := List.getElem_of_mem hr
    have hreads := h.parts.get hi (h.parts.length_eq ▸ hi)
    rcases List.mem_append.mp hu with hu | hu
    · exact separators (hreads.layout u hu)
    · rw [List.mem_singleton.mp hu]
      exact hreads.word.2
  intro u hu
  simp only [Phrase.tokens, Phrase.call, Phrase.head, List.mem_append, List.mem_cons,
    List.not_mem_nil, or_false] at hu
  rcases hu with hu | ((((rfl | hu) | rfl) | hu) | hu) | rfl
  · exact gap_good gap u hu
  · rw [h.name]; rfl
  · rw [h.leading u hu]; rfl
  · rw [h.opener]; rfl
  · exact hparts u hu
  · exact separators (h.trailing u hu)
  · rw [h.closer]; rfl

theorem phraseTokens_good {phrases : List Phrase} {statements : List (Placed Statement)}
    (reads : List.Forall₂ Phrase.Reads phrases statements) {mayOpen : Bool}
    (gaps : Phrase.Gaps mayOpen phrases) : ∀ u ∈ phraseTokens phrases, u.kind.isBad = false := by
  induction reads generalizing mayOpen with
  | nil => simp [phraseTokens]
  | @cons q s phrases _ hq _ ih =>
    intro u hu
    have : phraseTokens (q :: phrases) = q.tokens ++ phraseTokens phrases := by
      simp [phraseTokens]
    rw [this] at hu
    rcases List.mem_append.mp hu with hu | hu
    · exact hq.good gaps.1 u hu
    · exact ih gaps.2 u hu

theorem Listing.good {tokens : List Token} {statements : List (Placed Statement)}
    {phrases : List Phrase} {tail : List Token} (h : Listing tokens statements phrases tail) :
    ∀ u ∈ tokens, u.kind.isBad = false := by
  obtain ⟨after, htail⟩ := h.tail_gap
  intro u hu
  rw [h.tokens_eq] at hu
  rcases List.mem_append.mp hu with hu | hu
  · exact phraseTokens_good h.reads h.gaps u hu
  · exact gap_good htail u hu

theorem strands_of_reads {phrases : List Phrase} {statements : List (Placed Statement)}
    (reads : List.Forall₂ Phrase.Reads phrases statements) (spelled : ∀ q ∈ phrases, q.Spelled) :
    phrases.map Phrase.strand =
      around (phrases.map fun q => Token.textOf q.gap) (statements.map (·.item)) := by
  induction reads with
  | nil => rfl
  | @cons q s phrases statements hq _ ih =>
    have hpiece : q.strand = ⟨Token.textOf q.gap, s.item.render⟩ := by
      rw [← hq.render (spelled q List.mem_cons_self)]
      rfl
    rw [List.map_cons, ih fun r hr => spelled r (.tail _ hr), hpiece]
    rfl

theorem frame_of_parse {t : Text} {statements : List (Placed Statement)}
    (h : Statement.parse t = .ok statements) :
    ∃ gaps tail, gaps.length = statements.length ∧ Frame true gaps tail ∧
      t = Strand.weave (around gaps (statements.map (·.item))) ++ tail ∧
      statements.map (·.span) = Strand.spans [] (around gaps (statements.map (·.item))) ∧
      ∀ s ∈ statements, s.item.Legible ∧ s.item.asRead = s.item := by
  obtain ⟨phrases, tail, listing, spelled⟩ := listing_of_parse h
  obtain ⟨after, htail⟩ := listing.tail_gap
  have good := listing.good
  rw [listing.tokens_eq] at good
  obtain ⟨hframe, hlegible⟩ := frame_of_phrases listing.reads spelled listing.gaps
    (by simpa using htail) listing.tokens_eq good
  have hstrands : phrases.map Phrase.strand =
      around (phrases.map fun q => Token.textOf q.gap) (statements.map (·.item)) :=
    strands_of_reads listing.reads spelled
  have consecutive := Token.consecutive_scan t
  rw [listing.tokens_eq] at consecutive
  refine ⟨phrases.map fun q => Token.textOf q.gap, Token.textOf tail, ?_, hframe, ?_, ?_, hlegible⟩
  · rw [List.length_map, listing.reads.length_eq]
  · rw [← hstrands, ← textOf_phrases, ← Token.textOf_append, ← listing.tokens_eq,
      Token.textOf_scan]
  · rw [← hstrands]
    exact spans_of_consecutive listing.reads spelled consecutive

end Parse

end Listfile
