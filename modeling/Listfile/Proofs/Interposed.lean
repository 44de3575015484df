import Listfile.Proofs.Alike
import Listfile.Proofs.Spans

/-!
Writing in between. What a document writes is a frame, its gaps and its tail, with its statements
put in. Writing makes room in the frame for the created statements, and the frame then gives the
same text to whatever the statements become, so a session cannot tell whether it was written on the
way.
-/

namespace Listfile

namespace Strand

def breakIn (started : Bool) (tail : Text) : Text :=
  if tail.getLast? = some (.char '\n') ∨ (tail = [] ∧ started = false) then [] else [.char '\n']

/-- The text that gaps and a tail give to pieces: the first pieces stand in the gaps, the others
follow the tail on lines of their own. -/
def framed (started : Bool) : List Text → Text → List Text → Text
  | _, tail, [] => tail
  | [], tail, piece :: pieces =>
    tail ++ breakIn started tail ++ piece ++ framed true [] [.char '\n'] pieces
  | gap :: gaps, tail, piece :: pieces => gap ++ piece ++ framed true gaps tail pieces

theorem breakIn_newline (started : Bool) : breakIn started [.char '\n'] = [] := by
  simp [breakIn]

theorem tailAfter_newline (pending : List Sources) :
    tailAfter [.char '\n'] pending = [.char '\n'] := by
  unfold tailAfter
  split <;> rfl

theorem breakAfter_weave {strands : List Strand}
    (closed : ∀ s ∈ strands, s.piece.getLast? = some (.char ')')) (tail : Text) :
    breakAfter (weave strands ++ tail) = breakIn (!strands.isEmpty) tail := by
  by_cases ht : tail = []
  · cases strands with
    | nil => simp [ht, breakAfter, breakIn]
    | cons s rest =>
      have hne : weave (s :: rest) ≠ [] := by
        simp [piece_ne_nil (closed s List.mem_cons_self)]
      have hlast := getLast?_weave closed hne
      simp only [ht, List.append_nil, breakAfter, hne, hlast, breakIn]
      simp
  · simp [breakAfter, breakIn, ht, List.getLast?_append_of_ne_nil _ ht]

theorem weave_created_framed (started : Bool) (tail : Text) (pending : List Sources) :
    weave (created (tail ++ breakIn started tail) pending) ++ tailAfter tail pending =
      framed started [] tail (pending.map Sources.render) := by
  induction pending generalizing started tail with
  | nil => simp [created, tailAfter, framed]
  | cons s rest ih =>
    have hrest := ih true [.char '\n']
    rw [breakIn_newline, List.append_nil, tailAfter_newline] at hrest
    simp only [created, weave_cons, List.map_cons, framed, ← hrest]
    simp [tailAfter]

theorem weave_refresh_framed (started : Bool) {strands : List Strand}
    {blocks : List (Placed Block)} (h : strands.length = blocks.length) (tail : Text)
    (pending : List Sources) :
    weave (refresh strands blocks) ++
        (weave (created (tail ++ breakIn (started || !strands.isEmpty) tail) pending) ++
          tailAfter tail pending) =
      framed started (strands.map (·.gap)) tail
        (blocks.map (·.item.render) ++ pending.map Sources.render) := by
  induction strands generalizing started blocks with
  | nil =>
    rw [List.eq_nil_of_length_eq_zero h.symm]
    simpa [refresh] using weave_created_framed started tail pending
  | cons s rest ih =>
    cases blocks with
    | nil => simp at h
    | cons b more =>
      have hlen : rest.length = more.length := by simpa using h
      have := ih true hlen
      simp only [List.map_cons, List.cons_append, framed, ← this]
      simp [refresh]

theorem lastGap_refresh {strands : List Strand} {blocks : List (Placed Block)} {tail : Text}
    (h : strands.length = blocks.length) :
    lastGap (refresh strands blocks) tail =
      tail ++ breakIn (false || !strands.isEmpty) tail := by
  have hempty : (refresh strands blocks).isEmpty = strands.isEmpty := by
    rw [Bool.eq_iff_iff, List.isEmpty_iff_length_eq_zero, List.isEmpty_iff_length_eq_zero,
      length_refresh h, h]
  rw [lastGap, breakAfter_weave (fun s hs => mem_refresh hs), hempty, Bool.false_or]

theorem weave_settled_framed {strands : List Strand} {tail : Text} {d : Document}
    (h : strands.length = d.blocks.length) :
    weave (settled strands tail d) ++ tailAfter tail d.pending =
      framed false (strands.map (·.gap)) tail (d.items.map Block.render) := by
  rw [settled, weave_append, List.append_assoc, lastGap_refresh h,
    weave_refresh_framed false h tail d.pending]
  simp [Document.items, Block.render, Function.comp_def]

theorem framed_created (started : Bool) (tail : Text) (pending : List Sources)
    {pieces : List Text} (h : pending.length ≤ pieces.length) :
    framed started ((created (tail ++ breakIn started tail) pending).map (·.gap))
        (tailAfter tail pending) pieces = framed started [] tail pieces := by
  induction pending generalizing started tail pieces with
  | nil => simp [created, tailAfter]
  | cons s rest ih =>
    cases pieces with
    | nil => simp at h
    | cons p more =>
      have hlen : rest.length ≤ more.length := by simpa using h
      have hrest := ih true [.char '\n'] hlen
      rw [breakIn_newline, List.append_nil, tailAfter_newline] at hrest
      simp only [created, List.map_cons, framed, tailAfter]
      simp [hrest]

/-- A frame that has made room for created blocks gives the same text as before to statements that
fill it. -/
theorem framed_grown (started : Bool) (gaps : List Text) (tail : Text) (pending : List Sources)
    {pieces : List Text} (h : gaps.length + pending.length ≤ pieces.length) :
    framed started
        (gaps ++ (created (tail ++ breakIn (started || !gaps.isEmpty) tail) pending).map (·.gap))
        (tailAfter tail pending) pieces =
      framed started gaps tail pieces := by
  induction gaps generalizing started pieces with
  | nil => simpa using framed_created started tail pending (by simpa using h)
  | cons g rest ih =>
    cases pieces with
    | nil => simp at h
    | cons p more =>
      have hlen : rest.length + pending.length ≤ more.length := by
        simp only [List.length_cons] at h
        omega
      simpa [framed] using ih true hlen

theorem gaps_settled {strands : List Strand} {tail : Text} {d : Document}
    (h : strands.length = d.blocks.length) :
    (settled strands tail d).map (·.gap) = strands.map (·.gap) ++
      (created (tail ++ breakIn (false || !(strands.map (·.gap)).isEmpty) tail)
        d.pending).map (·.gap) := by
  rw [settled, List.map_append, gaps_refresh h, lastGap_refresh h, List.isEmpty_map]

end Strand

namespace Document

theorem length_blocks_le (d : Document) : d.blocks.length ≤ d.items.length := by
  simp [items]

theorem storage_settleDraft (d : Document) (r : Draft) :
    (d.settleDraft r).buffer.storage = d.buffer.storage := by
  simp only [settleDraft]
  split <;> rfl

theorem Laid.write_alike {d : Document} {strands : List Strand} {tail : Text}
    (h : d.Laid strands tail) (hl : d.loaded = true) :
    d.write.state.pending = [] ∧ d.write.state.items = d.items.map Block.clean ∧
      d.write.state.loaded = true ∧ d.write.state.policy = d.policy ∧
      d.write.state.buffer.storage = d.buffer.storage := by
  obtain ⟨r, hr, -, -⟩ := h.draft?
  obtain ⟨-, -, -, -, hitems, -⟩ := h.write hl
  have hpending : d.write.state.pending = [] := by rw [write_of_draft? hl hr]; rfl
  refine ⟨hpending, ?_, ?_, ?_, ?_⟩
  · rw [items, hpending, hitems]
    simp
  · rw [write_of_draft? hl hr]
    exact hl
  · rw [write_of_draft? hl hr]
    rfl
  · rw [write_of_draft? hl hr]
    exact storage_settleDraft d r

theorem clean_clean (b : Block) : b.clean.clean = b.clean := by
  cases b <;> rfl

/-- Documents that are alike write the same bytes, if their frames give the same text to all
statements that fill them. -/
theorem Alike.write_result {d e : Document} (alike : d.Alike e) {strands strands' : List Strand}
    {tail tail' : Text} (hd : d.Laid strands tail) (he : e.Laid strands' tail')
    (loaded : e.loaded = true)
    (same : ∀ pieces : List Text, strands.length ≤ pieces.length →
      strands'.length ≤ pieces.length →
      Strand.framed false (strands.map (·.gap)) tail pieces =
        Strand.framed false (strands'.map (·.gap)) tail' pieces) :
    d.write.result = e.write.result := by
  obtain ⟨output, hout, hresult, -⟩ := hd.write (alike.loaded.trans loaded)
  obtain ⟨output', hout', hresult', -⟩ := he.write loaded
  have hitems : d.items.map Block.render = e.items.map Block.render := by
    have := congrArg (List.map Block.render) alike.items
    simpa [List.map_map, Function.comp_def, render_clean] using this
  have hd_le := length_blocks_le d
  have he_le := length_blocks_le e
  rw [Strand.weave_settled_framed hd.length] at hout
  rw [Strand.weave_settled_framed he.length] at hout'
  rw [hresult, hresult', hout, hout', hitems, same]
  · rw [hd.length, ← hitems, List.length_map]
    exact hd_le
  · rw [he.length, List.length_map]
    exact he_le

/-- Two documents in memory of which a session may show either: they are alike, and their frames
give the same text to all statements that fill them. -/
structure Twin (d e : Document) : Prop where
  alike : d.Alike e
  frame : ∃ strands tail strands' tail', d.Laid strands tail ∧ e.Laid strands' tail' ∧
    ∀ pieces : List Text, strands.length ≤ pieces.length → strands'.length ≤ pieces.length →
      Strand.framed false (strands.map (·.gap)) tail pieces =
        Strand.framed false (strands'.map (·.gap)) tail' pieces
  loaded : e.loaded = true
  memory : e.buffer.storage = .memory

namespace Twin

variable {d e : Document}

theorem write_result (h : d.Twin e) : d.write.result = e.write.result := by
  obtain ⟨_, _, _, _, hd, he, same⟩ := h.frame
  exact h.alike.write_result hd he h.loaded same

theorem inner (h : d.Twin e) {op : Operation} (inner : op.isInner = true) :
    (op.apply d).2 = (op.apply e).2 ∧
      ∀ {answer : Answer}, (op.apply e).2 = .ok answer → (op.apply d).1.Twin (op.apply e).1 := by
  obtain ⟨hresult, halike⟩ := op.alike inner h.alike
  refine ⟨hresult, fun {answer} ended => ?_⟩
  obtain ⟨strands, tail, strands', tail', hd, he, same⟩ := h.frame
  have md := op.moved inner (hresult.trans ended)
  have me := op.moved inner ended
  exact ⟨halike, ⟨strands, tail, strands', tail', hd.moved md, he.moved me, same⟩,
    me.loaded.trans h.loaded, by rw [me.buffer, h.memory]⟩

theorem write (h : d.Twin e) (stable : e.ReadsBack) :
    d.Twin e.write.state ∧ ∃ bytes, e.write.result = .ok bytes := by
  obtain ⟨strands, tail, strands', tail', hd, he, same⟩ := h.frame
  obtain ⟨r, hr, hout, -⟩ := he.draft?
  obtain ⟨output, hout', hresult, -, -, hlaid⟩ := he.write h.loaded
  obtain ⟨-, hitems, hloaded, hpolicy, hstorage⟩ := he.write_alike h.loaded
  have hstable : Utf8.Stable output := by
    rw [hout', ← hout]
    exact stable h.loaded r hr
  refine ⟨⟨⟨?_, ?_, ?_⟩, ?_, hloaded, by rw [hstorage, h.memory]⟩, ⟨_, hresult⟩⟩
  · rw [hpolicy, h.alike.policy]
  · rw [hloaded, h.alike.loaded, h.loaded]
  · rw [hitems, h.alike.items, List.map_map]
    exact List.map_congr_left fun b _ => (clean_clean b).symm
  · refine ⟨strands, tail, _, _, hd, hlaid hstable, fun pieces hp hp' => ?_⟩
    have hlen : (strands'.map (·.gap)).length + e.pending.length ≤ pieces.length := by
      have := congrArg List.length (@Strand.pieces_settled strands' tail' e he.length)
      simp only [List.length_map, items, List.length_append] at this
      rw [List.length_map, he.length]
      omega
    rw [Strand.gaps_settled he.length, Strand.framed_grown _ _ _ _ hlen]
    rw [List.length_map] at hlen
    exact same pieces hp (by omega)

theorem save (h : d.Twin e) (stable : e.ReadsBack) (host : Host) :
    d.Twin (e.save host).state.1 ∧ (e.save host).result = .ok true := by
  obtain ⟨htwin, bytes, hbytes⟩ := h.write stable
  have hsave : e.save host =
      ⟨({ e.write.state with buffer := { e.write.state.buffer with dirty := false } },
        host.files), .ok true, e.write.events ++ []⟩ := by
    simp only [Document.save, h.loaded, if_true, hbytes, Buffer.save, htwin.memory]
  rw [hsave]
  obtain ⟨strands, tail, strands', tail', hd, he, same⟩ := htwin.frame
  exact ⟨⟨⟨htwin.alike.policy, htwin.alike.loaded, htwin.alike.items⟩,
    ⟨strands, tail, strands', tail', hd, ⟨he.text, he.spans, he.closed, he.clean⟩, same⟩,
    htwin.loaded, htwin.memory⟩, rfl⟩

end Twin

end Document

/-- What a session shows: the answers to the operations that do not write, and that to a last
write. -/
def Operation.outcome (d : Document) (ops : List Operation) :
    Except Fault (List Answer × Except Fault Bytes) :=
  (Operation.run d ops).map fun p =>
    (((ops.zip p.2).filter fun q => !q.1.writes).map (·.2), p.1.write.result)

namespace Operation

theorem outcome_cons_error {d : Document} {op : Operation} {rest : List Operation} {fault : Fault}
    (h : (op.apply d).2 = .error fault) : outcome d (op :: rest) = .error fault := by
  have hpair : op.apply d = ((op.apply d).1, .error fault) := Prod.ext rfl h
  rw [outcome, run, hpair]
  rfl

theorem outcome_cons_ok {d : Document} {op : Operation} {rest : List Operation} {answer : Answer}
    (h : (op.apply d).2 = .ok answer) :
    outcome d (op :: rest) = (outcome (op.apply d).1 rest).map fun q =>
      (if op.writes then q.1 else answer :: q.1, q.2) := by
  have hpair : op.apply d = ((op.apply d).1, .ok answer) := Prod.ext rfl h
  rw [outcome, run, hpair]
  simp only [outcome]
  cases run (op.apply d).1 rest with
  | error fault => rfl
  | ok p => cases hw : op.writes <;> simp [Except.map, hw]

end Operation

/-- A session on one of two twins shows what the session without its writes shows on the other. -/
theorem Document.Twin.outcome {d e : Document} (h : d.Twin e) {ops : List Operation}
    (kept : .reload ∉ ops) (stable : Operation.Stable e ops) :
    Operation.outcome e ops = Operation.outcome d (ops.filter fun op => !op.writes) := by
  induction ops generalizing d e with
  | nil =>
    have := h.write_result
    simp [Operation.outcome, Operation.run, Except.map, this]
  | cons op rest ih =>
    simp only [List.mem_cons, not_or] at kept
    by_cases hw : op.writes = true
    · -- A write leaves a twin and is not shown.
      have hstep : ∃ answer, (op.apply e).2 = .ok answer ∧ d.Twin (op.apply e).1 := by
        cases op with
        | write =>
          obtain ⟨htwin, bytes, hbytes⟩ := h.write (stable.1 hw)
          exact ⟨.bytes bytes, congrArg (Except.map Answer.bytes) hbytes, htwin⟩
        | save host =>
          obtain ⟨htwin, hresult⟩ := h.save (stable.1 hw) host
          exact ⟨.flag true, congrArg (Except.map Answer.flag) hresult, htwin⟩
        | _ => cases hw
      obtain ⟨answer, ended, htwin⟩ := hstep
      rw [Operation.outcome_cons_ok ended, ih htwin kept.2 stable.2,
        List.filter_cons_of_neg (by simp [hw])]
      simp only [hw, if_true]
      cases Operation.outcome d (rest.filter fun op => !op.writes) <;> rfl
    · have inner : op.isInner = true := by
        cases op with
        | write => exact absurd rfl hw
        | save host => exact absurd rfl hw
        | reload => exact absurd rfl kept.1
        | _ => rfl
      obtain ⟨hresult, htwin⟩ := h.inner inner
      rw [List.filter_cons_of_pos (by simpa using hw)]
      cases hr : (op.apply e).2 with
      | error fault =>
        rw [Operation.outcome_cons_error hr, Operation.outcome_cons_error (hresult.trans hr)]
      | ok answer =>
        rw [Operation.outcome_cons_ok hr, Operation.outcome_cons_ok (hresult.trans hr),
          ih (htwin hr) kept.2 stable.2]

namespace Document

theorem blocks_ext {bs cs : List (Placed Block)} (span : bs.map (·.span) = cs.map (·.span))
    (item : bs.map (·.item) = cs.map (·.item)) : bs = cs := by
  induction bs generalizing cs with
  | nil => simpa using span
  | cons b rest ih =>
    cases cs with
    | nil => simp at span
    | cons c more =>
      simp only [List.map_cons, List.cons.injEq] at span item
      have hhead : b = c := by
        cases b
        cases c
        simpa using And.intro span.1 item.1
      rw [ih span.2 item.2, hhead]

theorem refresh_of_clean {strands : List Strand} {blocks : List (Placed Block)}
    (h : List.Forall₂ (fun s b => b.item.isDirty = false → s.piece = b.item.render)
      strands blocks) (unmarked : ∀ b ∈ blocks, b.item.isDirty = false) :
    Strand.refresh strands blocks = strands := by
  induction h with
  | nil => rfl
  | @cons s b strands blocks hs _ ih =>
    have hpiece := hs (unmarked b List.mem_cons_self)
    have hrest := ih fun c hc => unmarked c (List.mem_cons_of_mem b hc)
    simp only [Strand.refresh, List.zipWith_cons_cons, ← hpiece] at hrest ⊢
    rw [hrest]

theorem Laid.write_unchanged {d : Document} {strands : List Strand} {tail : Text}
    (h : d.Laid strands tail) (hl : d.loaded = true) (hpending : d.pending = [])
    (hdirty : d.dirty = false) (hclean : d.items.map Block.clean = d.items)
    (hcontent : Utf8.encode (Utf8.decode d.buffer.content) = d.buffer.content) :
    d.write = ⟨d, .ok d.buffer.content, []⟩ := by
  have hitems : d.items = d.blocks.map (·.item) := by simp [items, hpending]
  have unmarked : ∀ b ∈ d.blocks, b.item.isDirty = false := by
    intro b hb
    have hmem : b.item ∈ d.items := by
      rw [hitems]
      exact List.mem_map_of_mem hb
    rw [← hclean] at hmem
    obtain ⟨c, -, hc⟩ := List.mem_map.mp hmem
    rw [← hc]
    exact isDirty_clean c
  have hsettled : Strand.settled strands tail d = strands := by
    rw [Strand.settled, refresh_of_clean h.clean unmarked, hpending]
    exact List.append_nil strands
  obtain ⟨r, hr, hout, hmarks⟩ := h.draft?
  obtain ⟨hspans, hblocks⟩ := blocks_settleDraft h hout hmarks
  rw [hsettled] at hspans hout
  have hsame : (d.settleDraft r).blocks = d.blocks :=
    blocks_ext (hspans.trans h.spans.symm) (by rw [hblocks, hclean, hitems])
  have hdata : Utf8.encode r.output = d.buffer.content := by
    rw [hout, hpending, Strand.tailAfter, if_pos rfl, ← h.text, hcontent]
  have hstate : d.settleDraft r = d := by
    have : d.settleDraft r = { d with
        dirty := false, blocks := (d.settleDraft r).blocks, pending := []
        buffer := if Utf8.encode r.output = d.buffer.content then d.buffer
          else d.buffer.setContent (Utf8.encode r.output) } := rfl
    rw [this, hsame, if_pos hdata, ← hdirty, ← hpending]
  rw [write_of_draft? hl hr, hstate, hdata]

theorem Laid.write_twice {d : Document} {strands : List Strand} {tail : Text}
    (h : d.Laid strands tail) (hl : d.loaded = true) (stable : d.ReadsBack) :
    d.write.state.write = ⟨d.write.state, d.write.result, []⟩ := by
  obtain ⟨r, hr, hout, -⟩ := h.draft?
  obtain ⟨output, hout', hresult, hcontent, -, hlaid⟩ := h.write hl
  obtain ⟨hpending, hitems, hloaded, -, -⟩ := h.write_alike hl
  have hstable : Utf8.Stable output := by
    rw [hout', ← hout]
    exact stable hl r hr
  rw [hresult, ← hcontent]
  refine (hlaid hstable).write_unchanged hloaded hpending ?_ ?_ ?_
  · rw [write_of_draft? hl hr]
    rfl
  · rw [hitems, List.map_map]
    exact List.map_congr_left fun b _ => clean_clean b
  · rw [hcontent, hstable]

end Document

/-- A session with writes and saves in memory shows what it shows without them, and after it a
second write gives the same bytes and leaves the document as it is. -/
theorem interposed_writes (buffer : Buffer) (memory : buffer.storage = .memory) (policy : Policy)
    (loaded : (Document.ofBuffer buffer policy).state.loaded = true) (ops : List Operation)
    (kept : .reload ∉ ops)
    (stable : Operation.Stable (Document.ofBuffer buffer policy).state ops) :
    Operation.outcome (Document.ofBuffer buffer policy).state ops =
        Operation.outcome (Document.ofBuffer buffer policy).state
          (ops.filter fun op => !op.writes) ∧
      ∀ d answers, Operation.run (Document.ofBuffer buffer policy).state ops = .ok (d, answers) →
        d.ReadsBack →
        d.write.state.write.result = d.write.result ∧
          d.write.state.write.state = d.write.state := by
  have reachable := Document.Reachable.opened buffer policy loaded
  constructor
  · obtain ⟨strands, tail, hlaid⟩ := reachable.laid
    obtain ⟨hstorage, -⟩ := Document.ofBuffer_buffer buffer policy
    have twin : (Document.ofBuffer buffer policy).state.Twin
        (Document.ofBuffer buffer policy).state :=
      ⟨.refl _, ⟨strands, tail, strands, tail, hlaid, hlaid, fun _ _ _ => rfl⟩, loaded,
        by rw [hstorage, memory]⟩
    -- The document is its own twin; the runs drift apart only in what a write has settled.
    exact twin.outcome kept stable
  · intro d answers ran readsBack
    obtain ⟨strands, tail, hlaid⟩ := (reachable.run stable ran).laid
    by_cases hl : d.loaded = true
    · rw [hlaid.write_twice hl readsBack]
      exact ⟨rfl, rfl⟩
    · simp [Document.write_of_not_loaded hl]

theorem interposed_writes_created :
    Operation.outcome (Document.ofBuffer (.ofString "# a\r\nadd_library(a b.c)") {}).state
        [.write, .add "n" "m.c" none, .save {}, .add "a" "c.c" none, .write] =
      Operation.outcome (Document.ofBuffer (.ofString "# a\r\nadd_library(a b.c)") {}).state
        [.add "n" "m.c" none, .add "a" "c.c" none] ∧
    ∃ d answers, Operation.run
        (Document.ofBuffer (.ofString "# a\r\nadd_library(a b.c)") {}).state
        [.write, .add "n" "m.c" none, .save {}, .add "a" "c.c" none, .write] =
          .ok (d, answers) ∧
      d.write.state.write.result = d.write.result ∧
      d.write.state.write.state = d.write.state := by
  have shown := interposed_writes (.ofString "# a\r\nadd_library(a b.c)") rfl {}
    (by decide +kernel)
    [.write, .add "n" "m.c" none, .save {}, .add "a" "c.c" none, .write]
    (by simp) (by decide +kernel)
  obtain ⟨⟨d, answers⟩, ran⟩ := exists_ok (e := Operation.run
    (Document.ofBuffer (.ofString "# a\r\nadd_library(a b.c)") {}).state
    [.write, .add "n" "m.c" none, .save {}, .add "a" "c.c" none, .write])
    (by decide +kernel)
  have readsBack : ∀ p ∈ (Operation.run
      (Document.ofBuffer (.ofString "# a\r\nadd_library(a b.c)") {}).state
      [.write, .add "n" "m.c" none, .save {}, .add "a" "c.c" none,
        .write]).toOption, p.1.ReadsBack := by decide +kernel
  have hmem := readsBack (d, answers) (by simp [ran, Except.toOption])
  exact ⟨shown.1, d, answers, ran, shown.2 d answers ran hmem⟩

end Listfile
