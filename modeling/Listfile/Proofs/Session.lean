import Listfile.Proofs.Edit
import Listfile.Proofs.Write

/-!
Sessions: runs of operations on an open document. Operations that neither write nor read the file
leave its text and its spans alone, and change a statement only together with its mark.
-/

namespace Listfile

/-- What can be done with an open document. Names are any texts, and so without the surrogates that
cannot be written. -/
inductive Operation where
  | add (target file : Text) (hint : Option Text)
  | rename (target old new : Text)
  | remove (target file : Text)
  | setSorting (on : Bool)
  | setCreating (on : Bool)
  | setDefaultSection (name : Text)
  | addListener
  | write
  | save (host : Host)
  | reload

inductive Answer where
  | nothing
  | flag (b : Bool)
  | bytes (content : Bytes)
  deriving DecidableEq, Repr

namespace Operation

def apply (d : Document) : Operation → Document × Except Fault Answer
  | add target file hint =>
    ((d.addFile target file hint).state, (d.addFile target file hint).result.map .flag)
  | rename target old new =>
    ((d.renameFile target old new).state, (d.renameFile target old new).result.map .flag)
  | remove target file =>
    ((d.removeFile target file).state, (d.removeFile target file).result.map .flag)
  | setSorting on => (d.setSorting on, .ok .nothing)
  | setCreating on => (d.setCreating on, .ok .nothing)
  | setDefaultSection name =>
    ((d.setDefaultSection name).state, (d.setDefaultSection name).result.map fun _ => .nothing)
  | addListener => (d.addListener, .ok .nothing)
  | write => (d.write.state, d.write.result.map .bytes)
  | save host => ((d.save host).state.1, (d.save host).result.map .flag)
  | reload => (d.reload.state, d.reload.result.map .flag)

def writes : Operation → Bool
  | write | save _ => true
  | _ => false

/-- Whether an operation works on the document alone, apart from its buffer. -/
def isInner : Operation → Bool
  | write | save _ | reload => false
  | _ => true

def run (d : Document) : List Operation → Except Fault (Document × List Answer)
  | [] => .ok (d, [])
  | op :: rest =>
    match op.apply d with
    | (_, .error fault) => .error fault
    | (next, .ok answer) => (run next rest).map fun p => (p.1, answer :: p.2)

theorem run_cons {d last : Document} {op : Operation} {rest : List Operation}
    {answers : List Answer} (h : run d (op :: rest) = .ok (last, answers)) :
    ∃ answer later, (op.apply d).2 = .ok answer ∧
      run (op.apply d).1 rest = .ok (last, later) ∧ answers = answer :: later := by
  rw [run] at h
  split at h
  · cases h
  · next next answer heq =>
    rw [heq]
    cases hr : run next rest with
    | error fault => simp [hr, Except.map] at h
    | ok p =>
      simp only [hr, Except.map, Except.ok.injEq, Prod.mk.injEq] at h
      exact ⟨answer, p.2, rfl, by rw [← h.1], h.2.symm⟩

end Operation

theorem exists_ok {ε α : Type} {e : Except ε α} (h : e.isOk = true) : ∃ a, e = .ok a := by
  cases e with
  | error fault => cases h
  | ok a => exact ⟨a, rfl⟩

theorem exists_ok_of_map {ε α β : Type} {e : Except ε α} {f : α → β} {b : β}
    (h : e.map f = .ok b) : ∃ a, e = .ok a := by
  cases e with
  | error fault => simp [Except.map] at h
  | ok a => exact ⟨a, rfl⟩

theorem exists_ok_of_toOption {ε α β : Type} {e : Except ε α} {f : α → β} {b : β}
    (h : e.toOption.map f = some b) : ∃ a, e = .ok a ∧ f a = b := by
  cases e with
  | error fault => simp [Except.toOption] at h
  | ok a => exact ⟨a, rfl, by simpa [Except.toOption] using h⟩

def Buffer.ofString (s : String) : Buffer :=
  { storage := .memory, content := Utf8.encode (Text.ofString s) }

/-- A block and what it may become between two writes: only sources change, the command stays, and
a block that is not marked renders as before. -/
structure Block.Follows (b b' : Block) : Prop where
  kind : b' = b ∨ ∃ s s', b = .listing s ∧ b' = .listing s'
  command : b'.command = b.command
  clean : b'.isDirty = false → b.isDirty = false ∧ b'.render = b.render

theorem Block.Follows.refl (b : Block) : b.Follows b := ⟨Or.inl rfl, rfl, fun h => ⟨h, rfl⟩⟩

theorem Block.Follows.trans {a b c : Block} (h : a.Follows b) (k : b.Follows c) :
    a.Follows c := by
  refine ⟨?_, k.command.trans h.command, fun hc => ?_⟩
  · rcases h.kind with rfl | ⟨s, s', rfl, rfl⟩
    · exact k.kind
    · rcases k.kind with rfl | ⟨_, s'', -, rfl⟩
      · exact Or.inr ⟨s, s', rfl, rfl⟩
      · exact Or.inr ⟨s, s'', rfl, rfl⟩
  · have hb := k.clean hc
    have ha := h.clean hb.1
    exact ⟨ha.1, hb.2.trans ha.2⟩

/-- What operations on the document alone keep: the buffer, the spans, and each block up to marked
changes. -/
structure Document.Moved (d d' : Document) : Prop where
  buffer : d'.buffer = d.buffer
  loaded : d'.loaded = d.loaded
  spans : d'.blocks.map (·.span) = d.blocks.map (·.span)
  blocks : List.Forall₂ Block.Follows (d.blocks.map (·.item)) (d'.blocks.map (·.item))

namespace Document

theorem Moved.refl (d : Document) : d.Moved d :=
  ⟨rfl, rfl, rfl, List.forall₂_same.mpr fun b _ => Block.Follows.refl b⟩

theorem Moved.trans {a b c : Document} (h : a.Moved b) (k : b.Moved c) : a.Moved c := by
  refine ⟨k.buffer.trans h.buffer, k.loaded.trans h.loaded, k.spans.trans h.spans, ?_⟩
  exact forall₂_trans (fun _ _ _ hab hbc => hab.trans hbc) h.blocks k.blocks

/-- Between two writes a document stands in the same strands. -/
theorem Laid.moved {d d' : Document} {strands : List Strand} {tail : Text}
    (h : d.Laid strands tail) (m : d.Moved d') : d'.Laid strands tail := by
  refine ⟨by rw [m.buffer, h.text], by rw [m.spans, h.spans], h.closed, ?_⟩
  have hblocks : List.Forall₂ (fun b b' : Placed Block => b.item.Follows b'.item)
      d.blocks d'.blocks :=
    List.forall₂_map_left_iff.mp (List.forall₂_map_right_iff.mp m.blocks)
  refine forall₂_trans ?_ h.clean hblocks
  intro s b b' hs hb hd
  rw [hs (hb.clean hd).1, (hb.clean hd).2]

theorem withSources_moved {d : Document} {given : List Sources}
    (h : List.Forall₂ (fun s s' => (Block.listing s).Follows (.listing s')) d.sources given) :
    d.Moved (d.withSources given) :=
  ⟨rfl, rfl, spans_withSources d given, forall₂_withSources Block.Follows.refl h⟩

theorem forall₂_amended {R : Sources → Sources → Prop} (refl : ∀ s, R s s) (d : Document)
    (target : Text) {n : Nat} {f : Sources → Sources}
    (h : ∀ s, (d.sourcesOf target)[n]? = some s → R s (f s)) :
    List.Forall₂ R d.sources
      (restoreTarget target d.sources ((d.sourcesOf target).modify n f)) :=
  forall₂_restoreTarget refl (forall₂_modify refl h)

theorem amend_moved (d : Document) (target : Text) (n : Nat) {f : Sources → Sources}
    (command : ∀ s, (f s).command = s.command) (marked : ∀ s, (f s).dirty = true) :
    d.Moved (d.amend target n f) := by
  have h : d.Moved (d.withTarget target ((d.sourcesOf target).modify n f)) := by
    apply withSources_moved
    refine forall₂_amended (fun s => Block.Follows.refl _) d target ?_
    intro s _
    refine ⟨Or.inr ⟨s, f s, rfl, rfl⟩, command s, fun hd => ?_⟩
    have : (f s).dirty = false := hd
    simp [marked s] at this
  exact ⟨h.buffer, h.loaded, h.spans, h.blocks⟩

theorem revise_moved (d : Document) (target : Text) (n : Nat) (opened : Option Text)
    (separator : Text) (i : Nat) (f : Section → Section) :
    d.Moved (d.amend target n (Sources.revise opened separator i f)) :=
  amend_moved d target n (Sources.revise_command opened separator i f)
    (Sources.revise_dirty opened separator i f)

theorem addFile_moved {d : Document} {target file : Text} {hint : Option Text} {b : Bool}
    (h : (d.addFile target file hint).result = .ok b) :
    d.Moved (d.addFile target file hint).state := by
  rcases addFile_cases d target file hint with ⟨fault, herr⟩ | ⟨-, hstate⟩ |
    ⟨-, -, -, d₁, n, opened, i, hd, -, hstate⟩
  · rw [herr] at h
    cases h
  · rw [hstate]
    exact Moved.refl d
  · have hmoved : d.Moved d₁ := by
      rcases hd with ⟨-, rfl⟩ | ⟨-, -, rfl⟩
      · exact Moved.refl _
      · exact ⟨rfl, rfl, rfl, (Moved.refl d).blocks⟩
    rw [hstate]
    exact hmoved.trans (revise_moved d₁ _ _ _ _ _ _)

theorem renameFile_moved {d : Document} {target old new : Text} {b : Bool}
    (h : (d.renameFile target old new).result = .ok b) :
    d.Moved (d.renameFile target old new).state := by
  rcases renameFile_cases d target old new with ⟨fault, herr⟩ | ⟨-, hstate⟩ |
    ⟨-, -, -, n, i, k, hstate⟩
  · rw [herr] at h
    cases h
  · rw [hstate]
    exact Moved.refl d
  · rw [hstate]
    exact revise_moved d _ _ _ _ _ _

theorem removeFile_moved {d : Document} {target file : Text} {b : Bool}
    (h : (d.removeFile target file).result = .ok b) :
    d.Moved (d.removeFile target file).state := by
  rcases removeFile_cases d target file with ⟨fault, herr⟩ | ⟨-, hstate⟩ | ⟨-, -, n, i, k, hstate⟩
  · rw [herr] at h
    cases h
  · rw [hstate]
    exact Moved.refl d
  · rw [hstate]
    exact revise_moved d _ _ _ _ _ _

theorem setDefaultSection_moved (d : Document) (name : Text) :
    d.Moved (d.setDefaultSection name).state := by
  unfold setDefaultSection
  simp only
  split
  · have h : d.Moved (d.withSources (d.sources.map fun s =>
        if s.command.name = Classify.targetSources then { s with defaultSection := name.upper }
        else s)) := by
      apply withSources_moved
      refine List.forall₂_map_right_iff.mpr (List.forall₂_same.mpr fun s _ => ?_)
      split
      · exact ⟨Or.inr ⟨_, _, rfl, rfl⟩, rfl, fun hd => ⟨hd, rfl⟩⟩
      · exact Block.Follows.refl _
    exact ⟨h.buffer, h.loaded, h.spans, h.blocks⟩
  · exact Moved.refl d

end Document

theorem Operation.moved {op : Operation} (inner : op.isInner = true) {d : Document}
    {answer : Answer} (h : (op.apply d).2 = .ok answer) : d.Moved (op.apply d).1 := by
  cases op with
  | add target file hint =>
    obtain ⟨b, hb⟩ := exists_ok_of_map h
    exact Document.addFile_moved hb
  | rename target old new =>
    obtain ⟨b, hb⟩ := exists_ok_of_map h
    exact Document.renameFile_moved hb
  | remove target file =>
    obtain ⟨b, hb⟩ := exists_ok_of_map h
    exact Document.removeFile_moved hb
  | setSorting on => exact ⟨rfl, rfl, rfl, (Document.Moved.refl d).blocks⟩
  | setCreating on => exact ⟨rfl, rfl, rfl, (Document.Moved.refl d).blocks⟩
  | setDefaultSection name => exact Document.setDefaultSection_moved d name
  | addListener => exact ⟨rfl, rfl, rfl, (Document.Moved.refl d).blocks⟩
  | write => cases inner
  | save host => cases inner
  | reload => cases inner

end Listfile
