import Listfile.Proofs.Session

/-!
The spans of every document that a session can reach. They name parts of the text that follow one
another and are never empty, and a statement that is not marked is the text at its span.
-/

namespace Listfile

def Document.ReadsBack (d : Document) : Prop :=
  d.loaded = true → ∀ r ∈ d.draft?, Utf8.Stable r.output

instance (d : Document) : Decidable d.ReadsBack :=
  inferInstanceAs (Decidable (d.loaded = true → ∀ r ∈ d.draft?, Utf8.Stable r.output))

/-- The documents that sessions reach from a file that was read. Every operation has ended well,
and every text written is read back as it is. -/
inductive Document.Reachable : Document → Prop where
  | opened (buffer : Buffer) (policy : Policy)
      (loaded : (Document.ofBuffer buffer policy).state.loaded = true) :
      Reachable (Document.ofBuffer buffer policy).state
  | step {d : Document} {op : Operation} {answer : Answer} (before : Reachable d)
      (stable : op.writes = true → d.ReadsBack) (ended : (op.apply d).2 = .ok answer) :
      Reachable (op.apply d).1

def Operation.Stable (d : Document) : List Operation → Prop
  | [] => True
  | op :: rest => (op.writes = true → d.ReadsBack) ∧ Operation.Stable (op.apply d).1 rest

instance Operation.decidableStable : (d : Document) → (ops : List Operation) →
    Decidable (Operation.Stable d ops)
  | _, [] => inferInstanceAs (Decidable True)
  | d, op :: rest =>
    have := Operation.decidableStable (op.apply d).1 rest
    inferInstanceAs (Decidable ((op.writes = true → d.ReadsBack) ∧ _))

theorem Document.Reachable.run {d : Document} (h : d.Reachable) {ops : List Operation}
    (stable : Operation.Stable d ops) {last : Document} {answers : List Answer}
    (ran : Operation.run d ops = .ok (last, answers)) : last.Reachable := by
  induction ops generalizing d answers with
  | nil =>
    simp only [Operation.run, Except.ok.injEq, Prod.mk.injEq] at ran
    exact ran.1 ▸ h
  | cons op rest ih =>
    obtain ⟨answer, later, ended, hrest, -⟩ := Operation.run_cons ran
    exact ih (h.step stable.1 ended) stable.2 hrest

theorem Buffer.content_save (b : Buffer) (host : Host) :
    (b.save host).state.1.content = b.content := by
  unfold Buffer.save
  split
  · rfl
  · split
    · rfl
    · split <;> rfl

namespace Document

theorem write_of_not_loaded {d : Document} (h : d.loaded ≠ true) :
    d.write = ⟨d, .ok d.buffer.content, []⟩ := by
  simp [write, h]

theorem Laid.after_write {d : Document} {strands : List Strand} {tail : Text}
    (h : d.Laid strands tail) (stable : d.ReadsBack) :
    ∃ strands' tail', d.write.state.Laid strands' tail' := by
  by_cases hl : d.loaded = true
  · obtain ⟨r, hr, hout, -⟩ := h.draft?
    obtain ⟨output, hout', -, -, -, hlaid⟩ := h.write hl
    refine ⟨_, _, hlaid ?_⟩
    rw [hout', ← hout]
    exact stable hl r hr
  · rw [write_of_not_loaded hl]
    exact ⟨strands, tail, h⟩

theorem save_state (d : Document) (host : Host) :
    (d.save host).state.1.blocks = d.write.state.blocks ∧
      (d.save host).state.1.buffer.content = d.write.state.buffer.content := by
  by_cases hl : d.loaded = true
  · simp only [save, hl, if_true]
    split
    · exact ⟨rfl, rfl⟩
    · exact ⟨rfl, Buffer.content_save _ host⟩
  · simp [save, write_of_not_loaded hl, hl]

theorem Laid.step {d : Document} {strands : List Strand} {tail : Text}
    (h : d.Laid strands tail) {op : Operation} {answer : Answer}
    (stable : op.writes = true → d.ReadsBack) (ended : (op.apply d).2 = .ok answer) :
    ∃ strands' tail', (op.apply d).1.Laid strands' tail' := by
  by_cases inner : op.isInner = true
  · exact ⟨strands, tail, h.moved (op.moved inner ended)⟩
  cases op with
  | write => exact h.after_write (stable rfl)
  | save host =>
    obtain ⟨strands', tail', h'⟩ := h.after_write (stable rfl)
    obtain ⟨hblocks, hcontent⟩ := save_state d host
    refine ⟨strands', tail', ?_, ?_, h'.closed, ?_⟩
    · exact (congrArg Utf8.decode hcontent).trans h'.text
    · exact (congrArg (List.map (·.span)) hblocks).trans h'.spans
    · exact hblocks.symm ▸ h'.clean
  | reload =>
    rcases laid_reload d with ⟨-, strands', tail', -, -, h', -⟩ | ⟨-, h'⟩
    · exact ⟨strands', tail', h'⟩
    · exact ⟨_, _, h'⟩
  | _ => exact absurd rfl inner

theorem Reachable.laid {d : Document} (h : d.Reachable) :
    ∃ strands tail, d.Laid strands tail := by
  induction h with
  | opened buffer policy loaded =>
    rcases laid_reload { buffer := buffer, policy := policy } with
      ⟨-, strands, tail, -, -, h, -⟩ | ⟨hl, -⟩
    · exact ⟨strands, tail, h⟩
    · exact absurd loaded (by rw [ofBuffer, hl]; decide)
  | step _ stable ended ih =>
    obtain ⟨strands, tail, h⟩ := ih
    exact h.step stable ended

end Document

/-- A statement stands in a text at a pair of offsets: its span leads to them, the part between
them is not empty, and it reads as the statement unless the statement is marked. -/
structure Placed.StandsAt (text : Text) (b : Placed Block) (place : Nat × Nat) : Prop where
  first : b.span.first.offset? (lineStarts text) = some (place.1 : Int)
  last : b.span.last.offset? (lineStarts text) = some (place.2 - 1 : Int)
  nonempty : place.1 < place.2
  within : place.2 ≤ text.length
  clean : b.item.isDirty = false → text.slice place.1 place.2 = b.item.render

def Strand.places (offset : Nat) : List Strand → List (Nat × Nat)
  | [] => []
  | s :: rest =>
    (offset + s.gap.length, offset + s.text.length) :: places (offset + s.text.length) rest

namespace Strand

theorem le_of_mem_places {offset : Nat} {strands : List Strand} {place : Nat × Nat}
    (h : place ∈ places offset strands) : offset ≤ place.1 := by
  induction strands generalizing offset with
  | nil => simp [places] at h
  | cons s rest ih =>
    simp only [places, List.mem_cons] at h
    rcases h with rfl | h
    · exact Nat.le_add_right _ _
    · exact Nat.le_of_add_right_le (ih h)

theorem pairwise_places (offset : Nat) (strands : List Strand) :
    (places offset strands).Pairwise fun p q => p.2 ≤ q.1 := by
  induction strands generalizing offset with
  | nil => exact .nil
  | cons s rest ih => exact .cons (fun q hq => le_of_mem_places hq) (ih _)

/-- Blocks with the spans of strands stand at the places of the strands. -/
theorem standsAt_places {strands : List Strand} {blocks : List (Placed Block)}
    (clean : List.Forall₂ (fun s b => b.item.isDirty = false → s.piece = b.item.render)
      strands blocks)
    (closed : ∀ s ∈ strands, s.piece.getLast? = some (.char ')')) (before after : Text)
    (spans : blocks.map (·.span) = Strand.spans before strands) :
    List.Forall₂ (Placed.StandsAt (before ++ weave strands ++ after)) blocks
      (places before.length strands) := by
  induction clean generalizing before with
  | nil => exact .nil
  | @cons s b strands blocks hs _ ih =>
    simp only [List.map_cons, Strand.spans, List.cons.injEq] at spans
    have hne := piece_ne_nil (closed s List.mem_cons_self)
    have hpos : 0 < s.piece.length := List.length_pos_iff.mpr hne
    have htext : before ++ weave (s :: strands) ++ after =
        before ++ s.gap ++ s.piece ++ (weave strands ++ after) := by simp
    refine .cons ?_ ?_
    · obtain ⟨hfirst, hlast⟩ :=
        @Draft.offsets_of_spanAfter (before ++ s.gap) s.piece (weave strands ++ after) hne
      rw [← spans.1, ← htext] at hfirst hlast
      have hstop : before.length + s.text.length =
          (before ++ s.gap).length + s.piece.length := by
        simp only [text, List.length_append]
        omega
      refine ⟨?_, ?_, ?_, ?_, fun hd => ?_⟩
      · rw [hfirst, List.length_append]
      · rw [hlast, hstop]
      · simp only [text, List.length_append]
        omega
      · rw [htext]
        simp only [text, List.length_append]
        omega
      · rw [← hs hd, htext, hstop, ← List.length_append]
        simpa using Text.slice_middle (before ++ s.gap) s.piece (weave strands ++ after)
    · have := ih (fun t ht => closed t (List.mem_cons_of_mem s ht)) (before ++ s.text) spans.2
      simpa [text, Nat.add_assoc] using this

end Strand

/-- In every reachable document the statements stand in the text at places that follow one another,
and the document can be written. -/
theorem Document.reachable_spans {d : Document} (reachable : d.Reachable) :
    (∃ places : List (Nat × Nat),
      List.Forall₂ (Placed.StandsAt (Utf8.decode d.buffer.content)) d.blocks places ∧
      places.Pairwise fun p q => p.2 ≤ q.1) ∧
    ∃ bytes, d.write.result = .ok bytes := by
  obtain ⟨strands, tail, h⟩ := reachable.laid
  refine ⟨⟨Strand.places 0 strands, ?_, Strand.pairwise_places 0 strands⟩, ?_⟩
  · rw [h.text]
    exact Strand.standsAt_places h.clean h.closed [] tail h.spans
  · by_cases hl : d.loaded = true
    · obtain ⟨output, -, hresult, -⟩ := h.write hl
      exact ⟨_, hresult⟩
    · exact ⟨_, congrArg Reply.result (write_of_not_loaded hl)⟩

theorem Document.reachable_spans_after_write :
    ∃ d answers, Operation.run
        (Document.ofBuffer (.ofString "# a\r\nadd_library(a b.c)\nfoo()") {}).state
        [.add "n" "m.c" none, .write, .add "a" "c.c" none] = .ok (d, answers) ∧
      (∃ places : List (Nat × Nat),
        List.Forall₂ (Placed.StandsAt (Utf8.decode d.buffer.content)) d.blocks places ∧
        places.Pairwise fun p q => p.2 ≤ q.1) ∧
      ∃ bytes, d.write.result = .ok bytes := by
  obtain ⟨⟨d, answers⟩, ran⟩ := exists_ok (e := Operation.run
    (Document.ofBuffer (.ofString "# a\r\nadd_library(a b.c)\nfoo()") {}).state
    [.add "n" "m.c" none, .write, .add "a" "c.c" none]) (by decide +kernel)
  have opened : (Document.ofBuffer (.ofString "# a\r\nadd_library(a b.c)\nfoo()")
      {}).state.Reachable := .opened _ _ (by decide +kernel)
  exact ⟨d, answers, ran, Document.reachable_spans (opened.run (by decide +kernel) ran)⟩

end Listfile
