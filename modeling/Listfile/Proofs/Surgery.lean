import Listfile.Proofs.Session

/-!
Writing at the end of a session changes only what was edited. The text between the statements is
copied, each statement that no edit touched stays as it was, and the others are rendered from their
arguments; the created blocks follow in the order of their creation.
-/

namespace Listfile

namespace Operation

def isEdit : Operation → Bool
  | add .. | rename .. | remove .. => true
  | _ => false

/-- Some successful edit of a run changes the statement of the file at a position. -/
def Touches (d : Document) : List Operation → Nat → Prop
  | [], _ => False
  | op :: rest, i =>
    (op.isEdit = true ∧ (op.apply d).2 = .ok (.flag true) ∧
      (op.apply d).1.blocks[i]? ≠ d.blocks[i]?) ∨
    Touches (op.apply d).1 rest i

def creation (d : Document) (op : Operation) : List Text :=
  match op with
  | add target _ _ =>
    if (op.apply d).2 = .ok (.flag true) ∧ d.sourcesOf target = [] then [target] else []
  | _ => []

def creations (d : Document) : List Operation → List Text
  | [] => []
  | op :: rest => creation d op ++ creations (op.apply d).1 rest

end Operation

/-- The text that created blocks add to a text before them: each ends a line, and the first starts
one. -/
def createdText (before : Text) (pending : List Sources) : Text :=
  if pending = [] then []
  else breakAfter before ++ pending.flatMap fun s => s.render ++ [.char '\n']

theorem weave_created (gap : Text) (s : Sources) (rest : List Sources) :
    Strand.weave (Strand.created gap (s :: rest)) ++ [.char '\n'] =
      gap ++ (s :: rest).flatMap fun s => s.render ++ [.char '\n'] := by
  induction rest generalizing gap s with
  | nil => simp [Strand.created]
  | cons t rest ih =>
    have := ih [.char '\n'] t
    simp only [Strand.created, Strand.weave_cons, List.flatMap_cons, List.append_assoc] at this ⊢
    rw [this]

/-- The text of a written document: its blocks between their gaps, the tail, the created blocks. -/
theorem Strand.weave_settled (strands : List Strand) (tail : Text) (d : Document) :
    Strand.weave (Strand.settled strands tail d) ++ Strand.tailAfter tail d.pending =
      Strand.weave (Strand.refresh strands d.blocks) ++ tail ++
        createdText (Strand.weave (Strand.refresh strands d.blocks) ++ tail) d.pending := by
  cases hp : d.pending with
  | nil => simp [Strand.settled, hp, Strand.created, Strand.tailAfter, createdText]
  | cons s rest =>
    have := weave_created (Strand.lastGap (Strand.refresh strands d.blocks) tail) s rest
    simp only [Strand.settled, hp, Strand.weave_append, Strand.tailAfter, createdText,
      reduceCtorEq, if_false, List.append_assoc] at this ⊢
    rw [this]
    simp [Strand.lastGap]

namespace Document

theorem renders_withSources {d : Document} {given : List Sources}
    (h : List.Forall₂ (fun s s' => s.render = s'.render) d.sources given) :
    (d.withSources given).blocks.map (·.item.render) = d.blocks.map (·.item.render) := by
  have hblocks := forall₂_withSources (R := fun b b' => b.render = b'.render) (fun _ => rfl) h
  have hmap := map_eq_of_forall₂ hblocks
  simpa [Function.comp_def] using hmap.symm

theorem renders_setDefaultSection (d : Document) (name : Text) :
    (d.setDefaultSection name).state.blocks.map (·.item.render) =
      d.blocks.map (·.item.render) := by
  unfold setDefaultSection
  simp only
  split
  · apply renders_withSources
    refine List.forall₂_map_right_iff.mpr (List.forall₂_same.mpr fun s _ => ?_)
    split <;> rfl
  · rfl

theorem pending_targets_amend (d : Document) (target : Text) (n : Nat) {f : Sources → Sources}
    (h : ∀ s, (f s).target = s.target) :
    (d.amend target n f).pending.map (·.target) = d.pending.map (·.target) := by
  have hall : List.Forall₂ (fun s s' => s.target = s'.target) d.sources
      (restoreTarget target d.sources ((d.sourcesOf target).modify n f)) :=
    forall₂_amended (R := fun s s' => s.target = s'.target) (fun _ => rfl) d target
      fun s _ => (h s).symm
  exact (map_eq_of_forall₂ (forall₂_pending hall)).symm

theorem pending_targets_setDefaultSection (d : Document) (name : Text) :
    (d.setDefaultSection name).state.pending.map (·.target) = d.pending.map (·.target) := by
  unfold setDefaultSection
  simp only
  split
  · have hall : List.Forall₂ (fun s s' => s.target = s'.target) d.sources
        (d.sources.map fun s => if s.command.name = Classify.targetSources then
          { s with defaultSection := name.upper } else s) := by
      refine List.forall₂_map_right_iff.mpr (List.forall₂_same.mpr fun s _ => ?_)
      split <;> rfl
    exact (map_eq_of_forall₂ (forall₂_pending hall)).symm
  · rfl

theorem Moved.getElem? {d d' : Document} (m : d.Moved d') (i : Nat) :
    (d.blocks[i]? = none ∧ d'.blocks[i]? = none) ∨
    ∃ b b', d.blocks[i]? = some b ∧ d'.blocks[i]? = some b' ∧ b'.span = b.span ∧
      b.item.Follows b'.item := by
  have hblocks : List.Forall₂ (fun b b' : Placed Block => b.item.Follows b'.item)
      d.blocks d'.blocks :=
    List.forall₂_map_left_iff.mp (List.forall₂_map_right_iff.mp m.blocks)
  have hlen := hblocks.length_eq
  by_cases hi : i < d.blocks.length
  · refine Or.inr ⟨d.blocks[i], d'.blocks[i], List.getElem?_eq_getElem hi,
      List.getElem?_eq_getElem (by omega), ?_, hblocks.get hi (by omega)⟩
    have := congrArg (·[i]?) m.spans
    simpa [List.getElem?_eq_getElem hi, List.getElem?_eq_getElem (hlen ▸ hi)] using this
  · exact Or.inl ⟨List.getElem?_eq_none (by omega), List.getElem?_eq_none (by omega)⟩

end Document

namespace Operation

theorem renders_kept {op : Operation} (inner : op.isInner = true) {d : Document}
    {answer : Answer} (h : (op.apply d).2 = .ok answer)
    (quiet : ¬ (op.isEdit = true ∧ answer = .flag true)) :
    (op.apply d).1.blocks.map (·.item.render) = d.blocks.map (·.item.render) := by
  have refused : ∀ {r : Reply Document Bool}, op.isEdit = true → op.apply d =
      (r.state, r.result.map .flag) →
      ((∃ fault, r.result = .error fault) ∨ (r.result = .ok false ∧ r.state = d) ∨
        r.result = .ok true) → r.state = d := by
    rintro r hedit heq (⟨fault, hr⟩ | ⟨-, hstate⟩ | hr)
    · rw [heq, hr] at h
      cases h
    · exact hstate
    · rw [heq, hr] at h
      cases h
      exact absurd ⟨hedit, rfl⟩ quiet
  cases op with
  | add target file hint =>
    have := refused rfl rfl ((Document.addFile_cases d target file hint).imp_right
      (Or.imp_right And.left))
    simp only [apply, this]
  | rename target old new =>
    have := refused rfl rfl ((Document.renameFile_cases d target old new).imp_right
      (Or.imp_right And.left))
    simp only [apply, this]
  | remove target file =>
    have := refused rfl rfl ((Document.removeFile_cases d target file).imp_right
      (Or.imp_right And.left))
    simp only [apply, this]
  | setSorting on => rfl
  | setCreating on => rfl
  | setDefaultSection name => exact Document.renders_setDefaultSection d name
  | addListener => rfl
  | write => cases inner
  | save host => cases inner
  | reload => cases inner

theorem pending_targets {op : Operation} (inner : op.isInner = true) {d : Document}
    {answer : Answer} (h : (op.apply d).2 = .ok answer) :
    (op.apply d).1.pending.map (·.target) = d.pending.map (·.target) ++ creation d op := by
  have revised : ∀ (d : Document) target n opened separator i f,
      (d.amend target n (Sources.revise opened separator i f)).pending.map (·.target) =
        d.pending.map (·.target) := fun d target n opened separator i f =>
    Document.pending_targets_amend d target n (Sources.revise_target opened separator i f)
  cases op with
  | add target file hint =>
    simp only [apply] at h ⊢
    rcases Document.addFile_cases d target file hint with ⟨fault, hr⟩ | ⟨hr, hstate⟩ |
      ⟨hr, -, -, d₁, n, opened, i, hd, -, hstate⟩
    · rw [hr] at h
      cases h
    · simp [creation, apply, hr, hstate, Except.map]
    · rw [hstate, revised]
      rcases hd with ⟨hsome, rfl⟩ | ⟨hnone, -, rfl⟩
      · simp [creation, apply, hsome]
      · simp [creation, apply, hr, hnone, Except.map, Document.newBlock]
  | rename target old new =>
    simp only [apply] at h ⊢
    rcases Document.renameFile_cases d target old new with ⟨fault, hr⟩ | ⟨-, hstate⟩ |
      ⟨-, -, -, n, i, k, hstate⟩
    · rw [hr] at h
      cases h
    · simp [hstate, creation]
    · rw [hstate, revised]
      simp [creation]
  | remove target file =>
    simp only [apply] at h ⊢
    rcases Document.removeFile_cases d target file with ⟨fault, hr⟩ | ⟨-, hstate⟩ |
      ⟨-, -, n, i, k, hstate⟩
    · rw [hr] at h
      cases h
    · simp [hstate, creation]
    · rw [hstate, revised]
      simp [creation]
  | setSorting on => simp [apply, Document.setSorting, creation]
  | setCreating on => simp [apply, Document.setCreating, creation]
  | setDefaultSection name =>
    have := Document.pending_targets_setDefaultSection d name
    simpa [apply, creation] using this
  | addListener => simp [apply, Document.addListener, creation]
  | write => cases inner
  | save host => cases inner
  | reload => cases inner

theorem run_moved {ops : List Operation} (inner : ∀ op ∈ ops, op.isInner = true)
    {d last : Document} {answers : List Answer} (h : run d ops = .ok (last, answers)) :
    d.Moved last := by
  induction ops generalizing d answers with
  | nil =>
    simp only [run, Except.ok.injEq, Prod.mk.injEq] at h
    rw [← h.1]
    exact Document.Moved.refl d
  | cons op rest ih =>
    obtain ⟨answer, later, ha, hrest, -⟩ := run_cons h
    have hop := moved (inner op List.mem_cons_self) ha
    exact hop.trans (ih (fun o ho => inner o (List.mem_cons_of_mem op ho)) hrest)

theorem run_pending_targets {ops : List Operation} (inner : ∀ op ∈ ops, op.isInner = true)
    {d last : Document} {answers : List Answer} (h : run d ops = .ok (last, answers)) :
    last.pending.map (·.target) = d.pending.map (·.target) ++ creations d ops := by
  induction ops generalizing d answers with
  | nil =>
    simp only [run, Except.ok.injEq, Prod.mk.injEq] at h
    simp [← h.1, creations]
  | cons op rest ih =>
    obtain ⟨answer, later, ha, hrest, -⟩ := run_cons h
    rw [ih (fun o ho => inner o (List.mem_cons_of_mem op ho)) hrest,
      pending_targets (inner op List.mem_cons_self) ha, creations, List.append_assoc]

/-- A statement that no successful edit touches keeps its text. -/
theorem run_untouched {ops : List Operation} (inner : ∀ op ∈ ops, op.isInner = true)
    {d last : Document} {answers : List Answer} (h : run d ops = .ok (last, answers)) {i : Nat}
    (untouched : ¬ Touches d ops i) :
    last.blocks[i]?.map (·.item.render) = d.blocks[i]?.map (·.item.render) := by
  induction ops generalizing d answers with
  | nil =>
    simp only [run, Except.ok.injEq, Prod.mk.injEq] at h
    rw [h.1]
  | cons op rest ih =>
    obtain ⟨answer, later, ha, hrest, -⟩ := run_cons h
    simp only [Touches, not_or, ha, Except.ok.injEq] at untouched
    rw [ih (fun o ho => inner o (List.mem_cons_of_mem op ho)) hrest untouched.2]
    by_cases hedit : op.isEdit = true ∧ answer = .flag true
    · have : (op.apply d).1.blocks[i]? = d.blocks[i]? :=
        Classical.not_not.mp fun hne => untouched.1 ⟨hedit.1, hedit.2, hne⟩
      rw [this]
    · have := congrArg (·[i]?) (renders_kept (inner op List.mem_cons_self) ha hedit)
      simpa using this

/-- A statement that a successful edit touches lists sources. -/
theorem run_touched {ops : List Operation} (inner : ∀ op ∈ ops, op.isInner = true)
    {d last : Document} {answers : List Answer} (h : run d ops = .ok (last, answers)) {i : Nat}
    (touched : Touches d ops i) :
    ∃ s, last.blocks[i]?.map (·.item) = some (.listing s) := by
  induction ops generalizing d answers with
  | nil => exact touched.elim
  | cons op rest ih =>
    obtain ⟨answer, later, ha, hrest, -⟩ := run_cons h
    have hinner : ∀ o ∈ rest, o.isInner = true := fun o ho => inner o (List.mem_cons_of_mem op ho)
    rcases touched with ⟨-, -, hne⟩ | touched
    · rcases (moved (inner op List.mem_cons_self) ha).getElem? i with ⟨hb, hb'⟩ |
        ⟨b, b', hb, hb', hspan, hfollows⟩
      · rw [hb, hb'] at hne
        exact absurd rfl hne
      rcases hfollows.kind with heq | ⟨s, s', hs, hs'⟩
      · have : b' = b := by
          obtain ⟨span, item⟩ := b
          obtain ⟨span', item'⟩ := b'
          simp only at heq hspan
          rw [heq, hspan]
        rw [hb, hb', this] at hne
        exact absurd rfl hne
      · rcases (run_moved hinner hrest).getElem? i with ⟨hnone, -⟩ | ⟨c, c', hc, hc', -, hlater⟩
        · rw [hb'] at hnone
          cases hnone
        rw [hb', Option.some.injEq] at hc
        subst hc
        rcases hlater.kind with heq | ⟨_, s'', -, hs''⟩
        · exact ⟨s', by rw [hc', Option.map_some, heq, hs']⟩
        · exact ⟨s'', by rw [hc', Option.map_some, hs'']⟩
    · exact ih hinner hrest touched

end Operation

/-- How the text of a document after a run relates to the text that was read. The text read is
made of strands, one for each statement, and a tail; the strands written have the same gaps. -/
structure Surgical (opened : Document) (ops : List Operation) (d : Document)
    (statements : List (Placed Statement)) (strands written : List Strand) (tail : Text) :
    Prop where
  parsed : Statement.parse (Utf8.decode opened.buffer.content) = .ok statements
  text : Utf8.decode opened.buffer.content = Strand.weave strands ++ tail
  pieces : strands.map (·.piece) = statements.map (·.item.render)
  spans : Strand.spans [] strands = statements.map (·.span)
  gaps : written.map (·.gap) = strands.map (·.gap)
  result : d.write.result = .ok (Utf8.encode (Strand.weave written ++ tail ++
    createdText (Strand.weave written ++ tail) d.pending))
  created : d.pending.map (·.target) = Operation.creations opened ops
  untouched : ∀ i statement, statements[i]? = some statement → ¬ Operation.Touches opened ops i →
    written[i]?.map (·.piece) = some statement.item.render
  touched : ∀ i statement, statements[i]? = some statement → Operation.Touches opened ops i →
    ∃ s, d.blocks[i]?.map (·.item) = some (.listing s) ∧
      written[i]?.map (·.piece) = some (statement.item.command.spelling ++
        statement.item.command.leading ++ [.char '('] ++
        s.arguments.flatMap (fun a => a.separator ++ a.sourceText) ++
        statement.item.command.trailing ++ [.char ')'])

namespace Document

theorem Moved.command_listing {d d' : Document} (h : d.Moved d') {i : Nat} {b : Placed Block}
    (hb : d.blocks[i]? = some b) {s : Sources}
    (hs : d'.blocks[i]?.map (·.item) = some (.listing s)) : s.command = b.item.command := by
  rcases h.getElem? i with ⟨hnone, -⟩ | ⟨c, c', hc, hc', -, hfollows⟩
  · rw [hb] at hnone
    cases hnone
  · rw [hb, Option.some.injEq] at hc
    rw [hc', Option.map_some, Option.some.injEq] at hs
    have hcommand := hfollows.command
    rwa [← hc, hs] at hcommand

end Document

/-- Writing after any run of edits and changes of policy is surgical. -/
theorem write_surgical (buffer : Buffer) (policy : Policy)
    (loaded : (Document.ofBuffer buffer policy).state.loaded = true) (ops : List Operation)
    (inner : ∀ op ∈ ops, op.isInner = true) (d : Document) (answers : List Answer)
    (ran : Operation.run (Document.ofBuffer buffer policy).state ops = .ok (d, answers)) :
    ∃ statements strands written tail,
      Surgical (Document.ofBuffer buffer policy).state ops d statements strands written tail := by
  let bare : Document := { buffer := buffer, policy := policy }
  rcases Document.laid_reload bare with ⟨statements, strands, tail, hparse, -, hlaid, hpieces,
    hblocks⟩ | ⟨hl, -⟩
  swap
  · have : (Document.ofBuffer buffer policy).state.loaded = false := hl
    rw [loaded] at this
    cases this
  have hmoved := Operation.run_moved inner ran
  obtain ⟨hcontent, hpending⟩ := Document.ofBuffer_buffer buffer policy
  have hlaid' : d.Laid strands tail := hlaid.moved hmoved
  obtain ⟨output, hout, hresult, -, -, -⟩ := hlaid'.write (hmoved.loaded.trans loaded)
  rw [Strand.weave_settled] at hout
  let written := Strand.refresh strands d.blocks
  have hwritten : ∀ i : Nat,
      written[i]?.map (·.piece) = d.blocks[i]?.map (·.item.render) := by
    intro i
    have := congrArg (·[i]?) (Strand.pieces_refresh hlaid'.length)
    simpa using this
  have hopened : ∀ {i : Nat} {statement : Placed Statement}, statements[i]? = some statement →
      (Document.ofBuffer buffer policy).state.blocks[i]? =
        some ⟨statement.span, Document.blockOf policy.defaultSection statement⟩ := by
    intro i statement hi
    have : (Document.ofBuffer buffer policy).state.blocks[i]? =
        (statements.map fun p => ⟨p.span, Document.blockOf policy.defaultSection p⟩)[i]? :=
      congrArg (·[i]?) hblocks
    rw [this, List.getElem?_map, hi, Option.map_some]
  refine ⟨statements, strands, written, tail, ?_⟩
  refine ⟨by rw [hcontent]; exact hparse, hlaid.text, hpieces, ?_,
    Strand.gaps_refresh hlaid'.length, by rw [hresult, hout], ?_, ?_, ?_⟩
  · rw [← hlaid.spans, hblocks, List.map_map]
    rfl
  · rw [Operation.run_pending_targets inner ran, hpending]
    rfl
  · intro i statement hi untouched
    rw [hwritten, Operation.run_untouched inner ran untouched, hopened hi, Option.map_some,
      Document.blockOf_render]
  · intro i statement hi touched
    obtain ⟨s, hs⟩ := Operation.run_touched inner ran touched
    refine ⟨s, hs, ?_⟩
    -- The command is the one that was read: edits keep it, and so does classification.
    have hcommand : s.command = statement.item.command :=
      (hmoved.command_listing (hopened hi) hs).trans
        (Document.blockOf_command policy.defaultSection statement)
    obtain ⟨b, hb, hitem⟩ := Option.map_eq_some_iff.mp hs
    rw [hwritten, hb, Option.map_some, hitem, ← hcommand]
    rfl

theorem write_surgical_after_create :
    ∃ d answers, Operation.run
        (Document.ofBuffer (.ofString "# a\r\nadd_library(a b.c)\nfoo()") {}).state
        [.add "a" "c.c" none, .remove "z" "q", .add "n" "m.c" none] = .ok (d, answers) ∧
      ∃ statements strands written tail,
        Surgical (Document.ofBuffer (.ofString "# a\r\nadd_library(a b.c)\nfoo()") {}).state
          [.add "a" "c.c" none, .remove "z" "q", .add "n" "m.c" none] d statements strands written
          tail := by
  obtain ⟨⟨d, answers⟩, ran⟩ := exists_ok (e := Operation.run
    (Document.ofBuffer (.ofString "# a\r\nadd_library(a b.c)\nfoo()") {}).state
    [.add "a" "c.c" none, .remove "z" "q", .add "n" "m.c" none]) (by decide +kernel)
  exact ⟨d, answers, ran, write_surgical _ _ (by decide +kernel) _ (by decide) d answers ran⟩

end Listfile
