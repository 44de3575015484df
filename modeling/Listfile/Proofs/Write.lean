import Listfile.Proofs.Classify
import Listfile.Proofs.Draft
import Listfile.Proofs.Items

/-!
Documents that stand in strands. A document that was read stands in the strands of its text, and
one that was written stands in the strands of the text written, provided that the text is read back
as it is.
-/

namespace Listfile

namespace Strand

theorem length_refresh {strands : List Strand} {blocks : List (Placed Block)}
    (h : strands.length = blocks.length) : (refresh strands blocks).length = blocks.length := by
  simp [refresh, h]

theorem gaps_refresh {strands : List Strand} {blocks : List (Placed Block)}
    (h : strands.length = blocks.length) :
    (refresh strands blocks).map (·.gap) = strands.map (·.gap) := by
  induction strands generalizing blocks with
  | nil => simp [refresh]
  | cons s rest ih =>
    cases blocks with
    | nil => simp at h
    | cons b more => simpa [refresh] using ih (by simpa using h)

theorem pieces_refresh {strands : List Strand} {blocks : List (Placed Block)}
    (h : strands.length = blocks.length) :
    (refresh strands blocks).map (·.piece) = blocks.map (·.item.render) := by
  induction strands generalizing blocks with
  | nil => simp [List.eq_nil_of_length_eq_zero h.symm, refresh]
  | cons s rest ih =>
    cases blocks with
    | nil => simp at h
    | cons b more => simpa [refresh] using ih (by simpa using h)

theorem pieces_created (gap : Text) (pending : List Sources) :
    (created gap pending).map (·.piece) = pending.map Sources.render := by
  induction pending generalizing gap with
  | nil => rfl
  | cons s rest ih => simp [created, ih]

theorem pieces_settled {strands : List Strand} {tail : Text} {d : Document}
    (h : strands.length = d.blocks.length) :
    (settled strands tail d).map (·.piece) = d.items.map Block.render := by
  simp [settled, pieces_refresh h, pieces_created, Document.items, Block.render,
    Function.comp_def]

end Strand

namespace Draft

theorem length_addBlocks? {old : Text} {starts : List Nat} {r r' : Draft}
    {blocks : List (Placed Block)} (h : r.addBlocks? old starts blocks = some r') :
    r'.marks.length = r.marks.length + blocks.length := by
  induction blocks generalizing r with
  | nil =>
    cases h
    rfl
  | cons b rest ih =>
    obtain ⟨next, hnext, hrest⟩ := Option.bind_eq_some_iff.mp h
    have hmarks : next.marks.length = r.marks.length + 1 := by
      unfold addBlock? at hnext
      split at hnext
      · cases hnext
        simp [addStatement, add]
      · cases hnext
    rw [ih hrest, hmarks, List.length_cons]
    omega

theorem length_foldl_addCreated (r : Draft) (pending : List Sources) :
    (pending.foldl addCreated r).marks.length = r.marks.length + pending.length := by
  induction pending generalizing r with
  | nil => rfl
  | cons s rest ih =>
    have hbreak : r.breakLine.marks = r.marks := by
      unfold breakLine
      split <;> rfl
    rw [List.foldl_cons, ih]
    simp only [addCreated, addStatement, add, hbreak, List.length_append, List.length_cons,
      List.length_nil]
    omega

end Draft

namespace Document

theorem Laid.length {d : Document} {strands : List Strand} {tail : Text}
    (h : d.Laid strands tail) : strands.length = d.blocks.length :=
  h.clean.length_eq

theorem laid_of_blocks_nil {d : Document} (h : d.blocks = []) :
    d.Laid [] (Utf8.decode d.buffer.content) := by
  refine ⟨by simp, by simp [h, Strand.spans], by simp, ?_⟩
  rw [h]
  exact .nil

/-- A document that was read stands in the strands of its text, whose pieces are the statements. -/
theorem laid_reload (d : Document) :
    (∃ statements strands tail,
      Statement.parse (Utf8.decode d.buffer.content) = .ok statements ∧
      d.reload.state.loaded = true ∧ d.reload.state.Laid strands tail ∧
      strands.map (·.piece) = statements.map (·.item.render) ∧
      d.reload.state.blocks =
        statements.map fun p => ⟨p.span, blockOf d.policy.defaultSection p⟩) ∨
    (d.reload.state.loaded = false ∧
      d.reload.state.Laid [] (Utf8.decode d.buffer.content)) := by
  rcases reload_cases d with ⟨statements, hparse, -, hstate⟩ | ⟨-, hstate⟩
  · obtain ⟨strands, tail, htext, hpieces, hspans⟩ := Parse.strands_of_parse hparse
    refine Or.inl ⟨statements, strands, tail, hparse, by rw [hstate], ?_, hpieces, by rw [hstate]⟩
    rw [hstate]
    refine ⟨htext, ?_, ?_, ?_⟩
    · simpa [Function.comp_def] using hspans
    · intro s hs
      have : s.piece ∈ statements.map (·.item.render) := by
        rw [← hpieces]
        exact List.mem_map_of_mem hs
      obtain ⟨p, -, hp⟩ := List.mem_map.mp this
      rw [← hp]
      exact Command.getLast?_render _ _
    · refine List.forall₂_map_right_iff.mpr ((forall₂_of_map_eq hpieces).imp ?_)
      intro s p hsp _
      rw [hsp, blockOf_render]
  · refine Or.inr ⟨by rw [hstate], ?_⟩
    rw [hstate]
    exact laid_of_blocks_nil rfl

theorem write_of_draft? {d : Document} {r : Draft} (hl : d.loaded = true)
    (h : d.draft? = some r) :
    d.write = ⟨d.settleDraft r, .ok (Utf8.encode r.output), []⟩ := by
  simp [write, hl, h]

theorem content_settleDraft (d : Document) (r : Draft) :
    (d.settleDraft r).buffer.content = Utf8.encode r.output := by
  by_cases h : Utf8.encode r.output = d.buffer.content
  · simp [settleDraft, h]
  · simp [settleDraft, h, Buffer.setContent]

theorem length_draft? {d : Document} {r : Draft} (h : d.draft? = some r) :
    r.marks.length = d.items.length := by
  obtain ⟨copied, hcopied, rfl⟩ := Option.map_eq_some_iff.mp h
  rw [Draft.length_foldl_addCreated]
  have hlen := Draft.length_addBlocks? hcopied
  simp only [Draft.addTail, items, List.length_append, List.length_map]
  simpa using hlen

theorem render_clean (b : Block) : b.clean.render = b.render := by
  cases b <;> rfl

theorem isDirty_clean (b : Block) : b.clean.isDirty = false := by
  cases b <;> rfl

/-- A draft that marks every statement loses none. -/
theorem items_settleDraft {d : Document} {r : Draft} (hlen : r.marks.length = d.items.length) :
    (d.settleDraft r).blocks.map (·.item) = d.items.map Block.clean := by
  have hblocks : (d.settleDraft r).blocks = List.zipWith (fun (m : Int × Nat) (b : Block) =>
      (⟨Draft.spanOf (lineStarts r.output) m, b.clean⟩ : Placed Block)) r.marks d.items := rfl
  rw [hblocks, List.map_zipWith, ← List.map_uncurry_zip_eq_zipWith]
  conv_rhs => rw [← List.map_snd_zip (Nat.le_of_eq hlen.symm), List.map_map]
  rfl

theorem blocks_settleDraft {d : Document} {strands : List Strand} {tail : Text}
    (h : d.Laid strands tail) {r : Draft}
    (hout : r.output = Strand.weave (Strand.settled strands tail d) ++
      Strand.tailAfter tail d.pending)
    (hmarks : r.marks = Strand.marks 0 (Strand.settled strands tail d)) :
    (d.settleDraft r).blocks.map (·.span) = Strand.spans [] (Strand.settled strands tail d) ∧
      (d.settleDraft r).blocks.map (·.item) = d.items.map Block.clean := by
  have hspans : r.marks.map (Draft.spanOf (lineStarts r.output)) =
      Strand.spans [] (Strand.settled strands tail d) := by
    have := Strand.spanOf_marks
      (fun s (hs : s ∈ Strand.settled strands tail d) =>
        Strand.piece_ne_nil (Strand.mem_settled hs)) [] (Strand.tailAfter tail d.pending)
    rw [hmarks, hout]
    simpa using this
  have hlen : r.marks.length = d.items.length := by
    have h₁ := congrArg List.length hspans
    have h₂ := congrArg List.length (@Strand.pieces_settled strands tail d h.length)
    rw [Strand.length_spans, List.length_map] at h₁
    simp only [List.length_map] at h₂
    omega
  have hblocks : (d.settleDraft r).blocks = List.zipWith (fun (m : Int × Nat) (b : Block) =>
      (⟨Draft.spanOf (lineStarts r.output) m, b.clean⟩ : Placed Block)) r.marks d.items := rfl
  constructor
  · rw [hblocks, List.map_zipWith, ← List.map_uncurry_zip_eq_zipWith, ← hspans]
    conv_rhs => rw [← List.map_fst_zip (Nat.le_of_eq hlen), List.map_map]
    rfl
  · exact items_settleDraft hlen

/-- A document that stands in strands is written, and then stands in the strands written. -/
theorem Laid.write {d : Document} {strands : List Strand} {tail : Text}
    (h : d.Laid strands tail) (hl : d.loaded = true) :
    ∃ output, output = Strand.weave (Strand.settled strands tail d) ++
        Strand.tailAfter tail d.pending ∧
      d.write.result = .ok (Utf8.encode output) ∧
      d.write.state.buffer.content = Utf8.encode output ∧
      d.write.state.blocks.map (·.item) = d.items.map Block.clean ∧
      (Utf8.Stable output →
        d.write.state.Laid (Strand.settled strands tail d) (Strand.tailAfter tail d.pending)) := by
  obtain ⟨r, hr, hout, hmarks⟩ := h.draft?
  obtain ⟨hspans, hitems⟩ := blocks_settleDraft h hout hmarks
  have hcontent := content_settleDraft d r
  rw [write_of_draft? hl hr]
  refine ⟨r.output, hout, rfl, hcontent, hitems, ?_⟩
  intro stable
  refine ⟨?_, hspans, fun s hs => Strand.mem_settled hs, ?_⟩
  · rw [hcontent, stable, hout]
  · have hpieces : (Strand.settled strands tail d).map (·.piece) =
        (d.settleDraft r).blocks.map (·.item.render) := by
      calc (Strand.settled strands tail d).map (·.piece)
        _ = d.items.map Block.render := Strand.pieces_settled h.length
        _ = (d.items.map Block.clean).map Block.render := by
          rw [List.map_map]
          exact List.map_congr_left fun b _ => (render_clean b).symm
        _ = ((d.settleDraft r).blocks.map (·.item)).map Block.render := by rw [hitems]
        _ = (d.settleDraft r).blocks.map (·.item.render) := List.map_map
    refine (forall₂_of_map_eq hpieces).imp ?_
    intro s b hsb _
    exact hsb

end Document

end Listfile
