import Listfile.Document.Write
import Listfile.Proofs.Strand

/-!
What a draft holds. When the spans of the blocks are those of strands of the old text, the draft
is the same gaps around the blocks as they render now, then the tail and the created blocks.
-/

namespace Listfile

namespace Text

theorem clamp_natCast {length n : Nat} (h : n ≤ length) : clamp length (n : Int) = n := by
  simp [clamp, Int.not_lt.mpr (Int.natCast_nonneg n), h]

theorem slice_middle (s t u : Text) :
    slice (s ++ t ++ u) s.length (s.length + t.length : Nat) = t := by
  have h₁ : clamp (s ++ t ++ u).length (s.length : Int) = s.length :=
    clamp_natCast (by simp only [List.length_append]; omega)
  have h₂ : clamp (s ++ t ++ u).length ((s.length + t.length : Nat) : Int) =
      s.length + t.length :=
    clamp_natCast (by simp only [List.length_append]; omega)
  simp only [slice, h₁, h₂]
  simp

theorem sliceFrom_length (s t : Text) : sliceFrom (s ++ t) s.length = t := by
  simp [sliceFrom, clamp_natCast]

end Text

namespace Strand

def marks (offset : Nat) : List Strand → List (Int × Nat)
  | [] => []
  | s :: rest =>
    (((offset + s.gap.length : Nat) : Int), s.piece.length) ::
      marks (offset + s.text.length) rest

theorem marks_append (offset : Nat) (s t : List Strand) :
    marks offset (s ++ t) = marks offset s ++ marks (offset + (weave s).length) t := by
  induction s generalizing offset with
  | nil => simp [marks]
  | cons a s ih => simp [marks, ih, text, Nat.add_assoc]

theorem spanOf_mark {before piece after : Text} (h : piece ≠ []) :
    Draft.spanOf (lineStarts (before ++ piece ++ after)) (before.length, piece.length) =
      spanAfter before piece := by
  have hlast : piece = piece.dropLast ++ [piece.getLast h] := (List.dropLast_append_getLast h).symm
  have hlen : (before.length : Int) + piece.length - 1 =
      ((before ++ piece.dropLast).length : Nat) := by
    have : 0 < piece.length := List.length_pos_iff.mpr h
    simp only [List.length_append, List.length_dropLast]
    omega
  have hsplit : before ++ piece ++ after =
      before ++ piece.dropLast ++ ([piece.getLast h] ++ after) := by
    conv_lhs => rw [hlast]
    simp
  simp only [Draft.spanOf, spanAfter]
  rw [hlen]
  congr 1
  · rw [List.append_assoc, Position.ofOffset_length]
  · rw [hsplit, Position.ofOffset_length]

theorem spanOf_marks {strands : List Strand} (h : ∀ s ∈ strands, s.piece ≠ [])
    (before after : Text) :
    (marks before.length strands).map
        (Draft.spanOf (lineStarts (before ++ weave strands ++ after))) =
      spans before strands := by
  induction strands generalizing before with
  | nil => rfl
  | cons s rest ih =>
    have hrest := ih (fun t ht => h t (List.mem_cons_of_mem s ht)) (before ++ s.text)
    have hhead : Draft.spanOf (lineStarts (before ++ weave (s :: rest) ++ after))
        (((before.length + s.gap.length : Nat) : Int), s.piece.length) =
        spanAfter (before ++ s.gap) s.piece := by
      have := @spanOf_mark (before ++ s.gap) s.piece (weave rest ++ after)
        (h s List.mem_cons_self)
      simpa using this
    simp only [marks, spans, List.map_cons, hhead]
    congr 1
    simpa [text] using hrest

end Strand

def breakAfter (t : Text) : Text :=
  if t = [] ∨ t.getLast? = some (.char '\n') then [] else [.char '\n']

/-- Strands of created blocks: the first stands after a gap, each other one on the next line. -/
def Strand.created (gap : Text) : List Sources → List Strand
  | [] => []
  | s :: rest => ⟨gap, s.render⟩ :: Strand.created [.char '\n'] rest

def Strand.tailAfter (tail : Text) (pending : List Sources) : Text :=
  if pending = [] then tail else [.char '\n']

namespace Draft

/-- A draft whose counts agree with its text. -/
structure Even (r : Draft) : Prop where
  length : r.length = (r.output.length : Int)
  last : r.output ≠ [] →
    (r.lastPiece.getLast? = some (.char '\n') ↔ r.output.getLast? = some (.char '\n'))

theorem breakLine_output {r : Draft} (h : r.Even) :
    r.breakLine.output = r.output ++ breakAfter r.output ∧ r.breakLine.marks = r.marks ∧
      r.breakLine.length = (r.breakLine.output.length : Int) := by
  by_cases he : r.output = []
  · have hl : r.length = 0 := by simp [h.length, he]
    simp [breakLine, hl, he, breakAfter]
  · have hl : r.length ≠ 0 := by
      have : 0 < r.output.length := List.length_pos_iff.mpr he
      rw [h.length]
      omega
    have hlast := h.last he
    by_cases hn : r.output.getLast? = some (.char '\n')
    · simp [breakLine, breakAfter, hn, hlast.mpr hn, h.length]
    · have hp : r.lastPiece.getLast? ≠ some (.char '\n') := fun hp => hn (hlast.mp hp)
      simp only [breakLine, hl, decide_false, Bool.false_or, hp, Bool.false_eq_true, if_false]
      simp [breakAfter, hn, he, add, h.length]

theorem addCreated_output {r : Draft} (h : r.Even) (s : Sources) :
    (r.addCreated s).output = r.output ++ breakAfter r.output ++ s.render ++ [.char '\n'] ∧
      (r.addCreated s).marks =
        r.marks ++ [(((r.output ++ breakAfter r.output).length : Int), s.render.length)] ∧
      (r.addCreated s).Even := by
  obtain ⟨hout, hmarks, hlen⟩ := breakLine_output h
  have output : (r.addCreated s).output =
      r.output ++ breakAfter r.output ++ s.render ++ [.char '\n'] := by
    simp [addCreated, addStatement, add, hout]
  refine ⟨output, ?_, ?_, ?_⟩
  · simp only [addCreated, addStatement, add, hmarks, hlen, hout]
  · rw [output]
    simp only [addCreated, addStatement, add, hlen, hout, List.length_append]
    simp
  · intro _
    rw [output]
    simp [addCreated]

theorem foldl_addCreated {r : Draft} (h : r.Even) (before : Text)
    (ends : r.output = before ++ [.char '\n']) (pending : List Sources) :
    (pending.foldl addCreated r).output =
        before ++ Strand.weave (Strand.created [.char '\n'] pending) ++ [.char '\n'] ∧
      (pending.foldl addCreated r).marks =
        r.marks ++ Strand.marks before.length (Strand.created [.char '\n'] pending) := by
  induction pending generalizing r before with
  | nil => simp [Strand.created, Strand.marks, ends]
  | cons s rest ih =>
    obtain ⟨hout, hmarks, heven⟩ := addCreated_output h s
    have hbreak : breakAfter r.output = [] := by simp [breakAfter, ends]
    rw [hbreak, ends] at hout hmarks
    obtain ⟨hout', hmarks'⟩ := ih heven (before ++ [.char '\n'] ++ s.render) (by simpa using hout)
    simp only [List.foldl_cons]
    refine ⟨?_, ?_⟩
    · rw [hout']
      simp [Strand.created]
    · rw [hmarks', hmarks]
      simp [Strand.created, Strand.marks, Strand.text, Nat.add_comm]

/-- The offsets of a piece that stands in a text. -/
theorem offsets_of_spanAfter {before piece after : Text} (h : piece ≠ []) :
    (Strand.spanAfter before piece).first.offset? (lineStarts (before ++ piece ++ after)) =
        some (before.length : Int) ∧
      (Strand.spanAfter before piece).last.offset? (lineStarts (before ++ piece ++ after)) =
        some ((before.length + piece.length : Nat) - 1 : Int) := by
  have hlast : piece = piece.dropLast ++ [piece.getLast h] := (List.dropLast_append_getLast h).symm
  have hsplit : before ++ piece ++ after =
      before ++ piece.dropLast ++ ([piece.getLast h] ++ after) := by
    conv_lhs => rw [hlast]
    simp
  constructor
  · rw [Strand.spanAfter, List.append_assoc, Position.offset?_after]
  · rw [Strand.spanAfter, hsplit, Position.offset?_after]
    have : 0 < piece.length := List.length_pos_iff.mpr h
    simp only [List.length_append, List.length_dropLast, Option.some.injEq]
    omega

theorem addBlock?_eq {s : Strand} {b : Placed Block} (hne : s.piece ≠ [])
    (clean : b.item.isDirty = false → s.piece = b.item.render) (before after : Text)
    (span : b.span = Strand.spanAfter (before ++ s.gap) s.piece) {r : Draft}
    (cursor : r.cursor = before.length) (even : r.length = (r.output.length : Int)) :
    ∃ r', addBlock? (before ++ s.text ++ after) (lineStarts (before ++ s.text ++ after)) r b =
        some r' ∧
      r'.output = r.output ++ (s.gap ++ b.item.render) ∧
      r'.cursor = ((before ++ s.text).length : Int) ∧
      r'.marks = r.marks ++ [(((r.output.length + s.gap.length : Nat) : Int),
        b.item.render.length)] ∧
      r'.length = (r'.output.length : Int) := by
  have hold : before ++ s.text ++ after = before ++ s.gap ++ s.piece ++ after := by
    simp [Strand.text]
  obtain ⟨hfirst, hlast⟩ := @offsets_of_spanAfter (before ++ s.gap) s.piece after hne
  rw [← span, ← hold] at hfirst hlast
  have hstop : ((((before ++ s.gap).length + s.piece.length : Nat) : Int) - 1) + 1 =
      ((before ++ s.gap).length + s.piece.length : Nat) := by omega
  have hgap : (before ++ s.text ++ after).slice r.cursor ((before ++ s.gap).length : Int) =
      s.gap := by
    have := Text.slice_middle before s.gap (s.piece ++ after)
    rw [cursor]
    simpa [Strand.text] using this
  have hpiece : (before ++ s.text ++ after).slice ((before ++ s.gap).length : Int)
      ((before ++ s.gap).length + s.piece.length : Nat) = s.piece := by
    have := Text.slice_middle (before ++ s.gap) s.piece after
    rw [hold]
    exact this
  -- A block that is not marked still reads as it stands in the old text.
  have fresh : (if b.item.isDirty then b.item.render else s.piece) = b.item.render := by
    cases hd : b.item.isDirty with
    | true => rfl
    | false => exact clean hd
  simp only [addBlock?, hfirst, hlast, hstop, hgap, hpiece, fresh]
  refine ⟨_, rfl, ?_, ?_, ?_, ?_⟩
  · simp [addStatement, add]
  · simp only [Strand.text, List.length_append]
    omega
  · simp only [addStatement, add, even]
    simp
  · simp only [addStatement, add, even, List.length_append]
    omega

end Draft

def Strand.refresh (strands : List Strand) (blocks : List (Placed Block)) : List Strand :=
  List.zipWith (fun s b => ⟨s.gap, b.item.render⟩) strands blocks

namespace Draft

theorem addBlocks?_eq {strands : List Strand} {blocks : List (Placed Block)}
    (clean : List.Forall₂ (fun s b => b.item.isDirty = false → s.piece = b.item.render)
      strands blocks)
    (hne : ∀ s ∈ strands, s.piece ≠ []) (before after : Text)
    (spans : blocks.map (·.span) = Strand.spans before strands) {r : Draft}
    (cursor : r.cursor = before.length) (even : r.length = (r.output.length : Int)) :
    ∃ r', addBlocks? (before ++ Strand.weave strands ++ after)
        (lineStarts (before ++ Strand.weave strands ++ after)) r blocks = some r' ∧
      r'.output = r.output ++ Strand.weave (Strand.refresh strands blocks) ∧
      r'.cursor = ((before ++ Strand.weave strands).length : Int) ∧
      r'.marks = r.marks ++ Strand.marks r.output.length (Strand.refresh strands blocks) ∧
      r'.length = (r'.output.length : Int) := by
  induction clean generalizing before r with
  | nil =>
    refine ⟨r, rfl, ?_, ?_, ?_, even⟩
    · simp [Strand.refresh]
    · simpa using cursor
    · simp [Strand.refresh, Strand.marks]
  | @cons s b strands blocks hs _ ih =>
    simp only [List.map_cons, Strand.spans, List.cons.injEq] at spans
    obtain ⟨r₁, hadd, hout, hcursor, hmarks, heven⟩ :=
      addBlock?_eq (hne s List.mem_cons_self) hs before (Strand.weave strands ++ after) spans.1
        cursor even
    obtain ⟨r₂, hadd', hout', hcursor', hmarks', heven'⟩ :=
      ih (fun t ht => hne t (List.mem_cons_of_mem s ht)) (before ++ s.text) spans.2 hcursor heven
    have hold : before ++ Strand.weave (s :: strands) ++ after =
        before ++ s.text ++ (Strand.weave strands ++ after) := by
      simp [Strand.text]
    have hold' : before ++ s.text ++ (Strand.weave strands ++ after) =
        before ++ s.text ++ Strand.weave strands ++ after := by
      simp
    refine ⟨r₂, ?_, ?_, ?_, ?_, heven'⟩
    · rw [hold, addBlocks?, hadd, Option.bind_some, hold']
      exact hadd'
    · rw [hout', hout]
      simp [Strand.refresh]
    · rw [hcursor']
      simp [Strand.text]
    · rw [hmarks', hmarks, hout]
      simp [Strand.refresh, Strand.marks, Strand.text]

theorem even_addTail {r : Draft} {before tail : Text} (cursor : r.cursor = (before.length : Int))
    (even : r.length = (r.output.length : Int))
    (ends : r.output ≠ [] → r.output.getLast? ≠ some (.char '\n')) :
    (r.addTail (before ++ tail)).output = r.output ++ tail ∧
      (r.addTail (before ++ tail)).marks = r.marks ∧ (r.addTail (before ++ tail)).Even := by
  have htail : (before ++ tail).sliceFrom r.cursor = tail := by
    rw [cursor, Text.sliceFrom_length]
  refine ⟨by simp [addTail, htail], by simp [addTail], ?_, ?_⟩
  · simp only [addTail, htail, even]
    simp only [cursor, List.length_append]
    omega
  · intro hne
    simp only [addTail, htail] at hne ⊢
    by_cases ht : tail = []
    · have hr : r.output ≠ [] := by simpa [ht] using hne
      simp [ht, ends hr]
    · rw [List.getLast?_append_of_ne_nil _ ht]

end Draft

/-- The strands and the tail in which a document stands: the text of its buffer is made of them,
its spans are theirs, and each block that is not marked renders as its piece. -/
structure Document.Laid (d : Document) (strands : List Strand) (tail : Text) : Prop where
  text : Utf8.decode d.buffer.content = Strand.weave strands ++ tail
  spans : d.blocks.map (·.span) = Strand.spans [] strands
  closed : ∀ s ∈ strands, s.piece.getLast? = some (.char ')')
  clean : List.Forall₂ (fun s b => b.item.isDirty = false → s.piece = b.item.render)
    strands d.blocks

theorem Command.getLast?_render (c : Command) (arguments : List Argument) :
    (c.render arguments).getLast? = some (.char ')') :=
  List.getLast?_concat

theorem Block.getLast?_render (b : Block) : b.render.getLast? = some (.char ')') := by
  cases b with
  | other s => exact s.command.getLast?_render s.arguments
  | listing s => exact s.command.getLast?_render s.arguments

namespace Strand

theorem piece_ne_nil {s : Strand} (h : s.piece.getLast? = some (.char ')')) : s.piece ≠ [] := by
  intro he
  simp [he] at h

theorem getLast?_weave {strands : List Strand}
    (h : ∀ s ∈ strands, s.piece.getLast? = some (.char ')')) (hne : weave strands ≠ []) :
    (weave strands).getLast? = some (.char ')') := by
  cases strands using List.reverseRecOn with
  | nil => exact absurd rfl hne
  | append_singleton strands s =>
    have hs := h s (by simp)
    rw [weave_append, weave_cons, weave_nil, List.append_nil,
      List.getLast?_append_of_ne_nil _ (by simp [piece_ne_nil hs]),
      List.getLast?_append_of_ne_nil _ (piece_ne_nil hs), hs]

theorem mem_refresh {strands : List Strand} {blocks : List (Placed Block)} {s : Strand}
    (h : s ∈ refresh strands blocks) : s.piece.getLast? = some (.char ')') := by
  simp only [refresh, List.mem_iff_getElem?, List.getElem?_zipWith] at h
  obtain ⟨i, hi⟩ := h
  split at hi
  · cases hi
    exact Block.getLast?_render _
  · cases hi

theorem mem_created {gap : Text} {pending : List Sources} {s : Strand}
    (h : s ∈ created gap pending) : s.piece.getLast? = some (.char ')') := by
  induction pending generalizing gap with
  | nil => simp [created] at h
  | cons p rest ih =>
    simp only [created, List.mem_cons] at h
    rcases h with rfl | h
    · exact Command.getLast?_render _ _
    · exact ih h

/-- The gap before the first created block: the tail, and a line break if one is due. -/
def lastGap (strands : List Strand) (tail : Text) : Text :=
  tail ++ breakAfter (weave strands ++ tail)

def settled (strands : List Strand) (tail : Text) (d : Document) : List Strand :=
  refresh strands d.blocks ++ created (lastGap (refresh strands d.blocks) tail) d.pending

theorem mem_settled {strands : List Strand} {tail : Text} {d : Document} {s : Strand}
    (h : s ∈ settled strands tail d) : s.piece.getLast? = some (.char ')') := by
  rcases List.mem_append.mp h with h | h
  · exact mem_refresh h
  · exact mem_created h

end Strand

/-- A document that stands in strands can be written: its gaps stay, its blocks stand between them
as they render now, and the created blocks follow the tail. -/
theorem Document.Laid.draft? {d : Document} {strands : List Strand} {tail : Text}
    (h : d.Laid strands tail) :
    ∃ r, d.draft? = some r ∧
      r.output = Strand.weave (Strand.settled strands tail d) ++
        Strand.tailAfter tail d.pending ∧
      r.marks = Strand.marks 0 (Strand.settled strands tail d) := by
  have hne : ∀ s ∈ strands, s.piece ≠ [] := fun s hs => Strand.piece_ne_nil (h.closed s hs)
  obtain ⟨r₁, hadd, hout, hcursor, hmarks, heven⟩ :=
    @Draft.addBlocks?_eq strands d.blocks h.clean hne [] tail h.spans {} rfl rfl
  simp only [List.nil_append, List.length_nil] at hadd hout hcursor hmarks
  rw [← h.text] at hadd
  have hends : r₁.output ≠ [] → r₁.output.getLast? ≠ some (.char '\n') := by
    intro hr
    rw [hout] at hr ⊢
    rw [Strand.getLast?_weave (fun s hs => Strand.mem_refresh hs) hr]
    decide
  obtain ⟨hout₂, hmarks₂, heven₂⟩ := @Draft.even_addTail r₁ _ tail hcursor heven hends
  rw [← h.text] at hout₂ hmarks₂ heven₂
  refine ⟨d.pending.foldl Draft.addCreated (r₁.addTail (Utf8.decode d.buffer.content)), ?_, ?_⟩
  · simp only [Document.draft?, hadd, Option.map_some]
  rw [Strand.settled]
  cases hp : d.pending with
  | nil => simp [hout₂, hmarks₂, hout, hmarks, Strand.created, Strand.tailAfter]
  | cons s rest =>
    -- The first created block may need a line break before it, the others never do.
    obtain ⟨hout₃, hmarks₃, heven₃⟩ := Draft.addCreated_output heven₂ s
    rw [hout₂, hout] at hout₃ hmarks₃
    obtain ⟨hout₄, hmarks₄⟩ := Draft.foldl_addCreated heven₃ _ hout₃ rest
    simp only [List.foldl_cons, hout₄, hmarks₄, hmarks₃, hmarks₂, hmarks]
    constructor
    · simp [Strand.created, Strand.tailAfter, Strand.lastGap]
    · simp [Strand.created, Strand.lastGap, Strand.marks_append, Strand.marks, Strand.text]

end Listfile
