import Listfile.Proofs.Difference
import Listfile.Proofs.Utf8

/-!
Writing a document that is not marked. Every session leaves a document whose spans are those of its
text and whose mark tells of every change that waits, so a write without the mark finds nothing to
do: the bytes are those of the buffer, and nothing is touched.
-/

namespace Listfile

namespace Document

/-- A document in which a write has nothing to do unless it is marked. -/
structure Settled (d : Document) : Prop where
  laid : ∃ strands tail, d.Laid strands tail
  tidy : d.Tidy

theorem settled_ofBuffer (buffer : Buffer) (policy : Policy) :
    (ofBuffer buffer policy).state.Settled := by
  refine ⟨?_, tidy_reload { buffer := buffer, policy := policy }⟩
  rcases laid_reload { buffer := buffer, policy := policy } with
    ⟨-, strands, tail, -, -, laid, -⟩ | ⟨-, laid⟩
  · exact ⟨strands, tail, laid⟩
  · exact ⟨_, _, laid⟩

theorem Settled.step {d : Document} (h : d.Settled) {op : Operation} {answer : Answer}
    (stable : op.writes = true → d.ReadsBack) (ended : (op.apply d).2 = .ok answer) :
    (op.apply d).1.Settled := by
  obtain ⟨strands, tail, laid⟩ := h.laid
  exact ⟨laid.step stable ended, h.tidy.step ended⟩

theorem Settled.run {d last : Document} (h : d.Settled) {ops : List Operation}
    (stable : Operation.Stable d ops) {answers : List Answer}
    (ran : Operation.run d ops = .ok (last, answers)) : last.Settled := by
  induction ops generalizing d answers with
  | nil =>
    simp only [Operation.run, Except.ok.injEq, Prod.mk.injEq] at ran
    exact ran.1 ▸ h
  | cons op rest ih =>
    obtain ⟨answer, later, ended, hrest, -⟩ := Operation.run_cons ran
    exact ih (h.step stable.1 ended) stable.2 hrest

theorem clean_of_isDirty {b : Block} (h : b.isDirty = false) : b.clean = b := by
  cases b with
  | other s => rfl
  | listing s =>
    have : s.dirty = false := h
    rw [Block.clean, ← this]

theorem Settled.write {d : Document} (h : d.Settled) (clean : d.dirty = false) :
    d.write = ⟨d, .ok d.buffer.content, []⟩ := by
  by_cases loaded : d.loaded = true
  · obtain ⟨strands, tail, laid⟩ := h.laid
    obtain ⟨pending, unmarked⟩ := h.tidy clean
    have items : d.items.map Block.clean = d.items := by
      have hitems : d.items = d.blocks.map (·.item) := by simp [items, pending]
      rw [hitems, List.map_map]
      exact List.map_congr_left fun b hb => clean_of_isDirty (unmarked b hb)
    exact laid.write_unchanged loaded pending clean items (Utf8.encode_decode _)
  · exact write_of_not_loaded loaded

end Document

/-- Whatever bytes a session starts from, a write of a document that is not marked gives the bytes
of the buffer and leaves the document as it is, its buffer included. A file that was only read is
such a document. -/
theorem clean_write_idle (buffer : Buffer) (policy : Policy) :
    (∀ ops d answers, Operation.Stable (Document.ofBuffer buffer policy).state ops →
      Operation.run (Document.ofBuffer buffer policy).state ops = .ok (d, answers) →
      d.dirty = false → d.write = ⟨d, .ok d.buffer.content, []⟩) ∧
    (Document.ofBuffer buffer policy).state.write =
      ⟨(Document.ofBuffer buffer policy).state, .ok buffer.content, []⟩ := by
  have opened := Document.settled_ofBuffer buffer policy
  constructor
  · intro ops d answers stable ran clean
    exact (opened.run stable ran).write clean
  · have clean : (Document.ofBuffer buffer policy).state.dirty = false := by
      rcases Document.reload_cases { buffer := buffer, policy := policy } with
        ⟨_, -, -, hstate⟩ | ⟨-, hstate⟩
      · rw [Document.ofBuffer, hstate]
      · rw [Document.ofBuffer, hstate]
    have content : (Document.ofBuffer buffer policy).state.buffer = buffer :=
      (Document.ofBuffer_buffer buffer policy).1
    rw [opened.write clean, content]

/-- Bytes that are no text, a created block, a refused edit and a change of policy: after a save
nothing is left to write. -/
theorem clean_write_idle_after_save :
    let buffer : Buffer :=
      { storage := .memory, content := Utf8.encode "# \n" ++ [0xff, 0x0a] ++ Utf8.encode "foo()" }
    let ops : List Operation := [.add "n" "m.c" none, .save {},
      .setDefaultSection "public", .remove "z" "q"]
    ∃ d answers, Operation.run (Document.ofBuffer buffer {}).state ops = .ok (d, answers) ∧
      d.write = ⟨d, .ok d.buffer.content, []⟩ := by
  intro buffer ops
  obtain ⟨⟨d, answers⟩, ran⟩ :=
    exists_ok (e := Operation.run (Document.ofBuffer buffer {}).state ops) (by decide +kernel)
  have clean : ∀ p ∈ (Operation.run (Document.ofBuffer buffer {}).state ops).toOption,
      p.1.dirty = false := by decide +kernel
  exact ⟨d, answers, ran, (clean_write_idle buffer {}).1 ops d answers (by decide +kernel) ran
    (clean (d, answers) (by simp [ran, Except.toOption]))⟩

end Listfile
