import Listfile.Proofs.Difference
import Listfile.Proofs.Reshape
import Listfile.Proofs.Touching

/-!
What an edit does to the arguments of a statement: a splice at the place that it finds or chooses.
An edit with simple names is clear if its splice is, and then what it gives does not run together
with what stands before it.
-/

namespace Listfile

open Scan Parse

def Glyph.isSimple (g : Glyph) : Bool :=
  isLetter g || isDigit g || g = '.' || g = '/' || g = '-'

/-- Names that are one unquoted word and need no escape. -/
def Text.Simple (t : Text) : Prop := t ≠ [] ∧ ∀ g ∈ t, g.isSimple = true

instance (t : Text) : Decidable t.Simple :=
  inferInstanceAs (Decidable (t ≠ [] ∧ ∀ g ∈ t, g.isSimple = true))

theorem simple_glyph {g : Glyph} (h : g.isSimple = true) :
    g.isBlank = false ∧ (∀ b, g ≠ .stray b) ∧
      ∀ c ∈ ['(', ')', '#', '"', '\\', '['], g ≠ .char c := by
  have hcode : (65 ≤ g.code ∧ g.code ≤ 90) ∨ (97 ≤ g.code ∧ g.code ≤ 122) ∨ g.code = 95 ∨
      (45 ≤ g.code ∧ g.code ≤ 57) := by
    simp only [Glyph.isSimple, isLetter, isDigit, Bool.or_eq_true, Bool.and_eq_true,
      decide_eq_true_eq] at h
    rcases h with (((((h | h) | rfl) | h) | rfl) | rfl) | rfl
    all_goals first | omega | decide
  refine ⟨?_, ?_, ?_⟩
  · simp only [Glyph.isBlank, inRanges, blankRanges, List.any_cons, List.any_nil,
      Bool.or_eq_false_iff, Bool.and_eq_false_iff, decide_eq_false_iff_not, and_true]
    omega
  · rintro b rfl
    rw [Glyph.code_stray] at hcode
    omega
  · rintro c hc rfl
    rw [Glyph.code_char] at hcode
    simp only [List.mem_cons, List.not_mem_nil, or_false] at hc
    rcases hc with rfl | rfl | rfl | rfl | rfl | rfl <;> revert hcode <;> decide

namespace Text.Simple

variable {t : Text}

theorem not_mem (h : t.Simple) {c : Char} (hc : c ∈ ['(', ')', '#', '"', '\\', '[']) :
    .char c ∉ t :=
  fun hmem => (simple_glyph (h.2 _ hmem)).2.2 c hc rfl

theorem unquoted (h : t.Simple) : needsQuotation t = false := by
  have hspace : .char ' ' ∉ t := by
    intro hmem
    have hblank := (simple_glyph (h.2 _ hmem)).1
    revert hblank
    decide
  simpa [needsQuotation] using hspace

theorem verbatim (h : t.Simple) : t.Verbatim := by
  refine ⟨h.1, fun b hb => (simple_glyph (h.2 _ hb)).2.1 b rfl,
    ⟨h.not_mem (by decide), h.not_mem (by decide)⟩, Or.inr ⟨fun g hg => ?_, ?_⟩⟩
  · obtain ⟨hblank, -, hne⟩ := simple_glyph (h.2 g hg)
    exact ⟨hblank, hne _ (by decide), hne _ (by decide), hne _ (by decide)⟩
  · cases t with
    | nil => rfl
    | cons g rest =>
      have hne := (simple_glyph (h.2 g List.mem_cons_self)).2.2
      exact bracketLevel?_eq_none (hne _ (by decide))

theorem of_keyword (h : t ∈ sectionKeywords) : t.Simple := by
  simp only [sectionKeywords, List.mem_cons, List.not_mem_nil, or_false] at h
  rcases h with rfl | rfl | rfl <;> decide

end Text.Simple

def Slot.divide? : Nat → List Slot → Option (List Slot × Section × List Slot)
  | _, [] => none
  | n, plain a :: rest => (divide? n rest).map fun p => (plain a :: p.1, p.2)
  | 0, grouped g :: rest => some ([], g, rest)
  | n + 1, grouped g :: rest => (divide? n rest).map fun p => (grouped g :: p.1, p.2)

theorem Slot.divide?_split (left : List Slot) (g : Section) (right : List Slot) :
    divide? (left.filterMap section?).length (left ++ .grouped g :: right) =
      some (left, g, right) := by
  induction left with
  | nil => rfl
  | cons slot left ih =>
    cases slot with
    | plain a => simpa [divide?, section?, List.filterMap_cons] using ih
    | grouped s => simpa [divide?, section?] using ih

def Placement.divide? (candidates : List Sources) (place : Address) :
    Option (List Slot × Section × List Slot) :=
  candidates[place.statement]?.bind fun s => Slot.divide? place.sectionIndex s.slots

namespace Document

def addedFile (separator file : Text) (g : Section) : Argument :=
  ⟨file, needsQuotation file, layoutAfter separator g, none⟩

/-- The splice of an addition: the file goes after the section of the choice, and together with it
if it is opened. -/
def additionSplice? (d : Document) (target file : Text) (hint : Option Text) : Option Splice :=
  match Placement.choose (d.sourcesOf target) file (d.preferredSection? hint) with
  | .error _ => none
  | .ok (choice, _) =>
    let (settled, place) := Placement.settle (d.sourcesOf target) choice d.policy.separator
    (Placement.divide? settled place).map fun (left, g, right) =>
      let added := addedFile d.policy.separator file g
      let front := left.flatMap Slot.arguments
      let back := right.flatMap Slot.arguments
      match choice with
      | .existing _ => ⟨front ++ g.arguments, [], [added], back⟩
      | .fresh _ _ => ⟨front, [], g.arguments ++ [added], back⟩

/-- The splice of a change of the first file of a name: others are given for it. -/
def changeSplice? (d : Document) (target file : Text) (given : Argument → List Argument) :
    Option Splice :=
  (findFile? (d.sourcesOf target) file).bind fun (place, k) =>
    (Placement.divide? (d.sourcesOf target) place).bind fun (left, g, right) =>
      g.files[k]?.map fun a =>
        ⟨left.flatMap Slot.arguments ++ g.keyword.toList ++ g.files.take k, [a], given a,
          g.files.drop (k + 1) ++ right.flatMap Slot.arguments⟩

end Document

namespace Operation

/-- The names that an edit puts into the file are simple. -/
def Simple (d : Document) : Operation → Prop
  | add target file _ => file.Simple ∧ (d.sourcesOf target = [] → target.Simple)
  | rename _ _ name => name.Simple
  | _ => True

instance (d : Document) (op : Operation) : Decidable (op.Simple d) :=
  match op with
  | add target file _ => inferInstanceAs
      (Decidable (file.Simple ∧ (d.sourcesOf target = [] → target.Simple)))
  | rename _ _ name => inferInstanceAs (Decidable name.Simple)
  | remove .. | setSorting _ | setCreating _ | setDefaultSection _ | addListener | write
  | save _ | reload => .isTrue trivial

/-- The splice of an edit in a statement of the document. A block that is created has none. -/
def splice? (d : Document) : Operation → Option Splice
  | add target file hint => d.additionSplice? target file hint
  | rename target file name => d.changeSplice? target file fun a => [Document.renameArgument name a]
  | remove target file => d.changeSplice? target file fun _ => []
  | _ => none

/-- Nothing around the edit is misread. -/
def Clear (d : Document) (op : Operation) : Prop := ∀ p ∈ op.splice? d, p.Clear

instance (d : Document) (op : Operation) : Decidable (op.Clear d) :=
  inferInstanceAs (Decidable (∀ p ∈ op.splice? d, p.Clear))

end Operation

namespace Site.At

variable {separator : Text} {candidates settled : List Sources} {place : Address}
  {x : Site separator candidates}

theorem divide? (h : x.At settled place) :
    Placement.divide? settled place = some (x.left, x.group, x.right) := by
  simp [Placement.divide?, h.statements, ← h.statement, ← h.sectionIndex, replaced,
    Slot.divide?_split]

theorem standing (h : x.At candidates place) :
    x.statement.slots = x.left ++ .grouped x.group :: x.right := by
  have hsame := x.candidates_eq.symm.trans h.statements
  simp only [List.append_cancel_left_eq, List.cons.injEq, and_true] at hsame
  exact congrArg Sources.slots hsame

theorem opened {n : Nat} {name : Text}
    (h : x.At (Placement.settle candidates (.fresh n name) separator).1
      (Placement.settle candidates (.fresh n name) separator).2) :
    ∃ name, (x.statement.preferred = true ∨ name = x.statement.defaultSection) ∧
      x.left = x.statement.slots ∧ x.group = Section.opened name separator ∧ x.right = [] := by
  rcases x.room_cases with slots | ⟨name, named, -, hleft, hgroup, hright⟩
  · -- The statement has one slot more than before.
    exfalso
    have hmodified : (x.earlier ++ x.statement :: x.later).modify x.earlier.length
        (fun s => s.addSection name separator) =
          x.earlier ++ x.replaced x.group :: x.later := by
      rw [← x.candidates_eq, h.statement]
      exact h.statements
    rw [modify_split, replaced_of_standing slots] at hmodified
    simp only [List.append_cancel_left_eq, List.cons.injEq, and_true] at hmodified
    have hslots := congrArg (fun s => s.slots.length) hmodified
    simp [Sources.addSection] at hslots
  · exact ⟨name, named, hleft, hgroup, hright⟩

end Site.At

theorem lastIndexOf?_lt {g : Glyph} {t : Text} {n : Nat} (h : t.lastIndexOf? g = some n) :
    n < t.length := by
  induction t generalizing n with
  | nil => cases h
  | cons x t ih =>
    rw [Text.lastIndexOf?] at h
    split at h
    · next m hm =>
      cases h
      simpa using ih hm
    · split at h
      · cases h
        simp
      · cases h

theorem inheritSeparator_ne_nil (t : Text) : inheritSeparator t ≠ [] := by
  unfold inheritSeparator
  split
  · split
    · next n hn =>
      have := lastIndexOf?_lt hn
      simpa using this
    · decide
  · split
    · decide
    · next hne => simpa using hne

theorem layoutAfter_ne_nil {separator : Text} (h : separator ≠ []) (g : Section) :
    layoutAfter separator g ≠ [] := by
  unfold layoutAfter
  split
  · exact inheritSeparator_ne_nil _
  · exact h

/-- Arguments after layout run together with nothing before them. -/
theorem chain_of_spaced {front given : List Argument}
    (h : front.IsChain fun a b => ¬ a.RunsInto b) (spaced : ∀ a ∈ given, a.separator ≠ []) :
    (front ++ given).IsChain fun a b => ¬ a.RunsInto b := by
  induction given generalizing front with
  | nil => simpa using h
  | cons a given ih =>
    have hfront : (front ++ [a]).IsChain fun a b => ¬ a.RunsInto b := by
      refine List.isChain_append.mpr ⟨h, .singleton a, ?_⟩
      rintro b - c hc ⟨hsep, -⟩
      cases hc
      exact spaced a List.mem_cons_self hsep
    have := ih hfront fun b hb => spaced b (.tail _ hb)
    simpa using this

theorem Argument.Spells.kind_cases {a : Argument} (h : a.Spells) (unpaired : a.Unpaired)
    (unquoted : a.quoted = false) : a.kind.isBare = true ∨ a.kind = .argumentBracket := by
  have hword := h.word
  have hsource := h.source []
  obtain ⟨hleft, hright⟩ := unpaired
  cases hkind : a.kind with
  | identifier => exact Or.inl rfl
  | argumentUnquoted => exact Or.inl rfl
  | argumentBracket => exact Or.inr rfl
  | argumentQuoted =>
    rw [hkind] at hsource
    have hquoted := congrArg (Option.map Argument.quoted) hsource
    simp [delimiterOf, ofSource?, Argument.asRead, unquoted] at hquoted
  | parenLeft => exact absurd hkind hleft
  | parenRight => exact absurd hkind hright
  | _ =>
    rw [hkind] at hword
    simp [TokenKind.isSeparator, TokenKind.isBad] at hword

/-- What runs into a file that was renamed would have run into it before. -/
theorem Argument.RunsInto.of_renamed {a b : Argument} {name : Text} (simple : name.Simple)
    (spells : a.Spells) (unpaired : a.Unpaired)
    (h : b.RunsInto (Document.renameArgument name a)) : b.RunsInto a := by
  obtain ⟨hseparator, hbare, hkind⟩ := h
  refine ⟨hseparator, hbare, ?_⟩
  cases hquoted : a.quoted with
  | false => exact spells.kind_cases unpaired hquoted
  | true =>
    -- The new name stands in quotes, and nothing runs into these.
    have htext : (Document.renameArgument name a).sourceText =
        .char '"' :: name ++ [.char '"'] := by
      simp [Document.renameArgument, Argument.setValue, Argument.sourceText, hquoted]
    have hwhole := simple.verbatim.whole_quoted
    rw [← htext] at hwhole
    rw [kind_of_whole hwhole] at hkind
    simp [TokenKind.isBare] at hkind

theorem Document.changeSplice?_eq {d : Document} {target file : Text}
    {given : Argument → List Argument} {place : Address}
    {x : Site d.policy.separator (d.sourcesOf target)} {before after : List Argument} {a : Argument}
    (found : findFile? (d.sourcesOf target) file = some (place, before.length))
    (at_ : x.At (d.sourcesOf target) place) (finds : x.Finds file before a after) :
    d.changeSplice? target file given =
      some ⟨x.upTo before, [a], given a, after ++ x.right.flatMap Slot.arguments⟩ := by
  simp [changeSplice?, found, at_.divide?, finds.files, Site.upTo]

structure Argument.Sound (a : Argument) : Prop where
  spells : a.Spells
  unpaired : a.Unpaired
  stable : Utf8.Stable a.separator ∧ Utf8.Stable a.sourceText

theorem Argument.sound_of_simple {a : Argument} (raw : a.raw = none) (simple : a.value.Simple)
    (stable : Utf8.Stable a.separator) : a.Sound := by
  obtain ⟨spells, unpaired⟩ := spells_of_verbatim raw simple.verbatim
    (by simp [simple.unquoted])
  exact ⟨spells, unpaired, stable, stable_of_verbatim raw simple.verbatim⟩

end Listfile
