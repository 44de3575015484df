import Listfile.CommandLine.Run
import Listfile.Proofs.Atomic
import Listfile.Proofs.Clean
import Listfile.Proofs.Delivery

/-!
Runs of the program that edit a file. A run carries out the operations of its command on the
document that it opened; one that is refused leaves the document as it was and counts as a failure.
A dry run prints what the document writes, whether it is marked or not. Any other run saves a
document that is marked and leaves the file alone else. Both come to the same bytes, for a document
without a mark writes what it was read from. The settings may come from any reader, names may be
sorted by any key, and the output may be unable to encode what is printed.
-/

namespace Listfile

def Edit.operation (target : Text) : Edit → Operation
  | add file => .add target file ((FileKind.ofPath? file).map FileKind.label)
  | remove file => .remove target file
  | rename old new => .rename target old new

def Operation.succeeded (ops : List Operation) (answers : List Answer) : List Operation :=
  ((ops.zip answers).filter fun p => p.2 = .flag true).map (·.1)

namespace Run

/-- The document that a run edits: the file that was read, under the policy of the settings and the
flags of the command line. -/
def opened (host : Host) (i : Invocation) (settings : Settings) (content : Bytes) : Document :=
  let buffer : Buffer := { storage := .disk i.file, content := content }
  let d := (Document.ofBuffer buffer (settings.policy (collation host))).state
  let d := if i.sort then d.setSorting true else d
  if i.noCreate then d.setCreating false else d

def operations (i : Invocation) (target : Text) : List Operation :=
  i.action.edits.map (Edit.operation target)

/-- A command line that asks for edits, with a target and a file that can be read and loaded. -/
structure Edits (host : Host) (words : List Text) (i : Invocation) (settings : Settings)
    (target : Text) (content : Bytes) : Prop where
  request : Request.ofWords words = .run i
  editing : i.action ≠ .list
  configured : Settings.load host i.config = .ok settings
  target : (given i.target).or (given settings.defaultTarget) = some target
  named : Buffer.hasNull i.file = false
  readable : host.refusal? .load = none
  read : host.files.read host.workDirectory i.file = .ok content
  loaded : (opened host i settings content).loaded = true

def code (answers : List Answer) : Ending :=
  .returned (if 0 < answers.count (.flag false) then 1 else 0)

/-- What a run shows and leaves behind, from the answers of its operations and the bytes that their
document writes. -/
structure Reports (host : Host) (i : Invocation) (answers : List Answer) (bytes : Bytes)
    (o : Outcome) : Prop where
  printed : i.dryRun = true → host.unprintable? (Utf8.decode bytes) = none →
    o.ending = code answers ∧ o.console.stdout = Utf8.decode bytes
  unprinted : i.dryRun = true → ∀ message, host.unprintable? (Utf8.decode bytes) = some message →
    o.ending = .failed (.unencodable message) ∧ o.console.stdout = []
  dry : i.dryRun = true → o.files = host.files
  wet : i.dryRun = false → o.ending = code answers ∧ o.console.stdout = []
  stored : i.dryRun = false → Buffer.Direct host i.file →
    o.files.read host.workDirectory i.file = .ok bytes
  landed : i.dryRun = false → .flag true ∈ answers → Buffer.Landed host i.file bytes o.files
  untouched : .flag true ∉ answers → o.files = host.files ∧
    host.files.read host.workDirectory i.file = .ok bytes

end Run

namespace Operation

variable {d last : Document} {ops : List Operation} {answers : List Answer}

/-- An edit that ends is refused without a trace, or it leaves its mark. -/
theorem edit_cases {op : Operation} {target : Text} (edit : op.target? = some target)
    {answer : Answer} (ended : (op.apply d).2 = .ok answer) :
    (answer = .flag false ∧ (op.apply d).1 = d) ∨
      (answer = .flag true ∧ (op.apply d).1.dirty = true) := by
  obtain ⟨r, happly, outcome⟩ := exists_outcome edit d
  rw [happly] at ended ⊢
  cases outcome with
  | refused _ result state =>
    rw [result] at ended
    cases ended
    exact Or.inl ⟨rfl, state⟩
  | done _ _ result change =>
    rw [result] at ended
    cases ended
    exact Or.inr ⟨rfl, by rw [change.dirty, Bool.or_true]⟩
  | stuck _ _ _ result _ _ =>
    rw [result] at ended
    cases ended

theorem run_dirty_iff (edits : ∀ op ∈ ops, ∃ target, op.target? = some target)
    (ran : run d ops = .ok (last, answers)) :
    last.dirty = true ↔ d.dirty = true ∨ .flag true ∈ answers := by
  induction ops generalizing d answers with
  | nil =>
    cases ran
    simp
  | cons op rest ih =>
    obtain ⟨answer, later, ended, hrest, rfl⟩ := run_cons ran
    obtain ⟨target, edit⟩ := edits op List.mem_cons_self
    have hlater := ih (fun o ho => edits o (.tail _ ho)) hrest
    rcases edit_cases edit ended with ⟨rfl, hsame⟩ | ⟨rfl, hmarked⟩
    · rw [hlater, hsame]
      simp
    · rw [hlater, hmarked]
      simp

theorem stable_of_unwritten (h : ∀ op ∈ ops, op.writes = false) : Stable d ops := by
  induction ops generalizing d with
  | nil => trivial
  | cons op rest ih =>
    refine ⟨fun hwrites => ?_, ih fun o ho => h o (.tail _ ho)⟩
    rw [h op List.mem_cons_self] at hwrites
    cases hwrites

end Operation

namespace Edit

theorem target?_operation (target : Text) (e : Edit) :
    (e.operation target).target? = some target := by
  cases e <;> rfl

theorem isInner_operation (target : Text) (e : Edit) :
    (e.operation target).isInner = true ∧ (e.operation target).writes = false := by
  cases e <;> exact ⟨rfl, rfl⟩

theorem apply_operation (target : Text) (e : Edit) (d : Document) :
    (e.operation target).apply d =
      ((e.apply target d).state, (e.apply target d).result.map .flag) := by
  cases e <;> rfl

end Edit

namespace Document

theorem buffer_write {d : Document} {bytes : Bytes} (h : d.write.result = .ok bytes) :
    d.write.state.buffer.content = bytes ∧
      d.write.state.buffer.storage = d.buffer.storage := by
  by_cases loaded : d.loaded = true
  · cases hdraft : d.draft? with
    | none => simp [write, loaded, hdraft] at h
    | some r =>
      rw [write_of_draft? loaded hdraft] at h ⊢
      cases h
      exact ⟨content_settleDraft d r, storage_settleDraft d r⟩
  · rw [write_of_not_loaded loaded] at h ⊢
    cases h
    exact ⟨rfl, rfl⟩

theorem store_of_save {d : Document} {host : Host} {name : Text} {bytes : Bytes}
    (loaded : d.loaded = true) (storage : d.buffer.storage = .disk name)
    (written : d.write.result = .ok bytes) (saved : (d.save host).result = .ok true) :
    Buffer.store host (Path.absolute host.workDirectory name) bytes =
      ((d.save host).state.2, none) := by
  obtain ⟨hcontent, hstorage⟩ := buffer_write written
  rw [storage] at hstorage
  simp only [save, loaded, if_true, written] at saved ⊢
  unfold Buffer.save at saved ⊢
  rw [hstorage] at saved ⊢
  simp only at saved ⊢
  split at saved
  · cases saved
  · next hnull =>
    rw [hcontent] at saved ⊢
    simp only [hnull]
    split at saved
    · next files hstore =>
      simp [hstore]
    · cases saved

end Document

@[simp] theorem Console.stdout_log (c : Console) (verbose : Bool) (events : List Event) :
    (c.log verbose events).stdout = c.stdout := rfl

@[simp] theorem Outcome.files_printing (host : Host) (ending : Ending) (c : Console)
    (texts : List Text) : (Outcome.printing host ending c texts).files = host.files := by
  unfold Outcome.printing
  split <;> rfl

namespace Run

/-- The edits of a run are its operations: they come to the same document, each refusal counts, and
nothing is printed on the way. -/
theorem applyAll_run (verbose : Bool) {target : Text} {edits : List Edit} {p : Progress}
    {last : Document} {answers : List Answer}
    (ran : Operation.run p.document (edits.map (Edit.operation target)) = .ok (last, answers)) :
    ∃ console, console.stdout = p.console.stdout ∧
      applyAll verbose target p edits =
        (⟨last, console, p.failures + answers.count (.flag false)⟩, none) := by
  induction edits generalizing p answers with
  | nil =>
    cases ran
    exact ⟨p.console, rfl, rfl⟩
  | cons e rest ih =>
    obtain ⟨answer, later, ended, hrest, rfl⟩ := Operation.run_cons ran
    rw [Edit.apply_operation] at ended hrest
    obtain ⟨b, hb⟩ := exists_ok_of_map ended
    simp only [hb, Except.map, Except.ok.injEq] at ended
    subst ended
    cases b with
    | true =>
      obtain ⟨console, hstdout, hall⟩ := ih
        (p := ⟨_, p.console.log verbose (e.apply target p.document).events, p.failures⟩) hrest
      refine ⟨console, hstdout, ?_⟩
      simp only [applyAll, hb]
      rw [hall]
      simp
    | false =>
      obtain ⟨console, hstdout, hall⟩ := ih
        (p := ⟨_, (p.console.log verbose (e.apply target p.document).events).complain
          (e.complaint target), p.failures + 1⟩) hrest
      refine ⟨console, hstdout, ?_⟩
      simp only [applyAll, hb]
      rw [hall]
      simp [Nat.add_assoc, Nat.add_comm 1]

section Opened

variable (host : Host) (i : Invocation) (settings : Settings) (content : Bytes)

theorem opened_eq : ∃ policy, opened host i settings content =
    { (Document.ofBuffer { storage := .disk i.file, content := content }
        (settings.policy (collation host))).state with policy := policy } := by
  unfold opened
  cases i.sort <;> cases i.noCreate <;> exact ⟨_, rfl⟩

theorem opened_buffer :
    (opened host i settings content).buffer = { storage := .disk i.file, content := content } := by
  obtain ⟨policy, hopened⟩ := opened_eq host i settings content
  rw [hopened]
  exact (Document.ofBuffer_buffer _ _).1

theorem opened_loaded : (opened host i settings content).loaded =
    (Document.ofBuffer { storage := .disk i.file, content := content }
      (settings.policy (collation host))).state.loaded := by
  obtain ⟨policy, hopened⟩ := opened_eq host i settings content
  rw [hopened]

theorem opened_dirty : (opened host i settings content).dirty = false := by
  obtain ⟨policy, hopened⟩ := opened_eq host i settings content
  let bare : Document :=
    { buffer := { storage := .disk i.file, content := content }
      policy := settings.policy (collation host) }
  have hclean : bare.reload.state.dirty = false := by
    rcases Document.reload_cases bare with ⟨_, -, -, hstate⟩ | ⟨-, hstate⟩
    · rw [hstate]
    · rw [hstate]
  rw [hopened]
  exact hclean

theorem opened_settled : (opened host i settings content).Settled := by
  obtain ⟨policy, hopened⟩ := opened_eq host i settings content
  obtain ⟨⟨strands, tail, laid⟩, tidy⟩ := Document.settled_ofBuffer
    { storage := .disk i.file, content := content } (settings.policy (collation host))
  rw [hopened]
  exact ⟨⟨strands, tail, laid.text, laid.spans, laid.closed, laid.clean⟩, tidy⟩

end Opened

section Dry

def dry (words : List Text) : List Text := Text.ofString "--dry-run" :: words

theorem foldl_setFlag_dry (i : Invocation) (set : List (Flag × Text)) :
    set.foldl CommandLine.setFlag { i with dryRun := true } =
      { set.foldl CommandLine.setFlag i with dryRun := true } := by
  induction set generalizing i with
  | nil => rfl
  | cons f set ih =>
    obtain ⟨flag, value⟩ := f
    rw [List.foldl_cons, List.foldl_cons, ← ih]
    cases flag <;> rfl

theorem ne_run_of_walkVerb {verb : Verb} {t : CommandLine.Taken} {fuel : Nat}
    {words : List (Text × CommandLine.WordKind)} {r : Request}
    (h : CommandLine.walkVerb verb t fuel words = .error r) (j : Invocation) : r ≠ .run j := by
  induction fuel generalizing t words with
  | zero => cases h
  | succ fuel ih =>
    simp only [CommandLine.walkVerb] at h
    split at h
    · cases h
    · split at h
      · cases h
        simp
      · split at h
        · cases h
          simp
        · exact ih h
    · exact ih h

theorem ne_run_of_parseVerb {verb : Verb} {words : List Text} {r : Request}
    (h : CommandLine.parseVerb verb words = .error r) (j : Invocation) : r ≠ .run j := by
  unfold CommandLine.parseVerb at h
  split at h
  · cases h
    simp
  · split at h
    · next hwalk =>
      cases h
      exact ne_run_of_walkVerb hwalk j
    · split at h
      · cases h
        simp
      · cases h

/-- A command line that is understood is understood as well if a dry run has been asked for before
its first word. -/
theorem walkProgram_dry {i j : Invocation} {extras : List Text} {fuel : Nat}
    {words : List (Text × CommandLine.WordKind)}
    (h : CommandLine.walkProgram i extras fuel words = .run j) :
    CommandLine.walkProgram { i with dryRun := true } extras fuel words =
      .run { j with dryRun := true } := by
  induction fuel generalizing i extras words with
  | zero => cases h
  | succ fuel ih =>
    cases words with
    | nil => cases h
    | cons first rest =>
      obtain ⟨w, kind⟩ := first
      cases kind with
      | unknownOption => exact ih h
      | dashes =>
        simp only [CommandLine.walkProgram] at h
        split at h <;> cases h
      | option s =>
        simp only [CommandLine.walkProgram] at h ⊢
        split at h
        · cases h
        · next set rest htake =>
          split at h
          · cases h
          · next hhelp =>
            simp only [hhelp, foldl_setFlag_dry]
            exact ih h
      | argument =>
        simp only [CommandLine.walkProgram] at h ⊢
        split at h
        · cases h
        · next verb hverb =>
          split at h
          · next r hparse => exact absurd h (ne_run_of_parseVerb hparse j)
          · next action left hparse =>
            split at h
            · next hnone =>
              cases h
              simp [hnone]
            · cases h

theorem ofWords_dry {words : List Text} {i : Invocation} (h : Request.ofWords words = .run i) :
    Request.ofWords (dry words) = .run { i with dryRun := true } := by
  have hkind : CommandLine.kindOf Flag.ofProgram (Text.ofString "--dry-run") =
      .ok (.option ⟨.dryRun, Text.ofString "--dry-run", none⟩) := by decide
  have hdashes : Text.ofString "--dry-run" ≠ CommandLine.doubleDash := by decide
  unfold Request.ofWords at h ⊢
  split at h
  · cases h
  · next classified hclassify =>
    have hall : CommandLine.classify Flag.ofProgram (dry words) =
        .ok ((Text.ofString "--dry-run", .option ⟨.dryRun, Text.ofString "--dry-run", none⟩) ::
          classified) := by
      simp only [dry, CommandLine.classify, if_neg hdashes, hkind, hclassify]
    rw [hall]
    exact walkProgram_dry h

end Dry

variable {host : Host} {words : List Text} {i : Invocation} {settings : Settings} {target : Text}
  {content : Bytes}

theorem loadFrom_eq (named : Buffer.hasNull i.file = false) (readable : host.refusal? .load = none)
    (read : host.files.read host.workDirectory i.file = .ok content) :
    ({ storage := .disk i.file } : Buffer).loadFrom host i.file =
      ⟨{ storage := .disk i.file, content := content }, .ok true, []⟩ := by
  simp [Buffer.loadFrom, named, readable, read]

namespace Edits

theorem dry (h : Edits host words i settings target content) :
    Edits host (Run.dry words) { i with dryRun := true } settings target content :=
  ⟨ofWords_dry h.request, h.editing, h.configured, h.target, h.named, h.readable, h.read,
    h.loaded⟩

theorem run_eq (h : Edits host words i settings target content) :
    ∃ console : Console, console.stdout = [] ∧
      run host words = edit host i target (opened host i settings content) console := by
  have hloaded := h.loaded
  rw [opened_loaded] at hloaded
  simp only [Listfile.run, h.request, invoke, h.configured,
    loadFrom_eq h.named h.readable h.read, onBuffer, hloaded, if_true, onDocument,
    if_neg h.editing, h.target]
  exact ⟨_, rfl, rfl⟩

end Edits

theorem operations_edit : ∀ op ∈ operations i target, ∃ target, op.target? = some target := by
  intro op hop
  obtain ⟨e, -, rfl⟩ := List.mem_map.mp hop
  exact ⟨target, e.target?_operation target⟩

theorem operations_inner :
    ∀ op ∈ operations i target, op.isInner = true ∧ op.writes = false := by
  intro op hop
  obtain ⟨e, -, rfl⟩ := List.mem_map.mp hop
  exact e.isInner_operation target

variable {d : Document} {answers : List Answer}

theorem written (loaded : (opened host i settings content).loaded = true)
    (ran : Operation.run (opened host i settings content) (operations i target) =
      .ok (d, answers)) :
    (∃ bytes, d.write.result = .ok bytes) ∧
      (d.dirty = false → d.write.result = .ok content) ∧
      (d.dirty = true ↔ .flag true ∈ answers) := by
  have moved := Operation.run_moved (fun op hop => (operations_inner op hop).1) ran
  have settled := (opened_settled host i settings content).run
    (Operation.stable_of_unwritten fun op hop => (operations_inner op hop).2) ran
  refine ⟨?_, fun clean => ?_, ?_⟩
  · obtain ⟨strands, tail, laid⟩ := settled.laid
    obtain ⟨output, -, hresult, -⟩ := laid.write (moved.loaded.trans loaded)
    exact ⟨_, hresult⟩
  · rw [settled.write clean, moved.buffer, opened_buffer]
  · rw [Operation.run_dirty_iff operations_edit ran, opened_dirty]
    simp

theorem Edits.reports (h : Edits host words i settings target content)
    (ran : Operation.run (opened host i settings content) (operations i target) = .ok (d, answers))
    (saved : i.dryRun = false → d.dirty = true → (d.save host).result = .ok true)
    {bytes : Bytes} (result : d.write.result = .ok bytes) :
    Reports host i answers bytes (run host words) := by
  obtain ⟨-, hclean, hdirty⟩ := written h.loaded ran
  have moved := Operation.run_moved (fun op hop => (operations_inner op hop).1) ran
  obtain ⟨console, hconsole, hrun⟩ := h.run_eq
  obtain ⟨shown, hshown, hall⟩ := applyAll_run i.verbose
    (p := ⟨opened host i settings content, console, 0⟩) ran
  -- the loop counts the refusals from zero
  have hcode : (if 0 + answers.count (.flag false) = 0 then 0 else 1) =
      if 0 < answers.count (.flag false) then 1 else 0 := by
    by_cases hnone : answers.count (.flag false) = 0
    · simp [hnone]
    · simp [hnone, Nat.pos_of_ne_zero hnone]
  rw [hrun, edit, hall]
  simp only [finish]
  -- if nothing succeeded, what the document writes is what stands in the file already
  have hsame : .flag true ∉ answers →
      host.files.read host.workDirectory i.file = .ok bytes := by
    intro hnone
    have hunmarked : d.dirty = false := by simpa using mt hdirty.mp hnone
    rw [hclean hunmarked] at result
    cases result
    exact h.read
  by_cases hdry : i.dryRun = true
  · have hwet : ¬ i.dryRun = false := by simp [hdry]
    simp only [hdry, if_true, result]
    refine ⟨fun _ hfits => ?_, fun _ message hrefused => ?_, fun _ => Outcome.files_printing ..,
      fun hfalse => absurd hfalse hwet, fun hfalse => absurd hfalse hwet,
      fun hfalse => absurd hfalse hwet, fun hnone => ⟨Outcome.files_printing .., hsame hnone⟩⟩
    · simp only [Outcome.printing, Console.print, hfits]
      exact ⟨congrArg Ending.returned hcode, by simp [hshown, hconsole]⟩
    · simp [Outcome.printing, Console.print, hrefused, hshown, hconsole]
  · have hwet : i.dryRun = false := by simpa using hdry
    by_cases hmark : d.dirty = true
    · have hsaved := saved hwet hmark
      have hstore := Document.store_of_save (moved.loaded.trans h.loaded)
        (by rw [moved.buffer, opened_buffer]) result hsaved
      have hlanded := Buffer.landed_of_store hstore
      simp only [hwet, hmark, hsaved, if_true]
      refine ⟨fun htrue => absurd htrue hdry, fun htrue => absurd htrue hdry,
        fun htrue => absurd htrue hdry, fun _ => ⟨congrArg Ending.returned hcode, ?_⟩,
        fun _ direct => hlanded.read direct h.read, fun _ _ => hlanded,
        fun hnone => absurd (hdirty.mp hmark) hnone⟩
      simp [hshown, hconsole]
    · have hnone : .flag true ∉ answers := mt hdirty.mpr hmark
      have hunmarked : d.dirty = false := by simpa using hmark
      simp only [hwet, hunmarked]
      refine ⟨fun htrue => absurd htrue hdry, fun htrue => absurd htrue hdry,
        fun htrue => absurd htrue hdry, fun _ => ⟨congrArg Ending.returned hcode, ?_⟩,
        fun _ _ => hsame hnone, fun _ hsome => absurd hsome hnone, fun _ => ⟨rfl, hsame hnone⟩⟩
      simp [hshown, hconsole]

end Run

-- A name that leads over a link is read in one place and saved in another, and a strict output
-- refuses a stray byte.
example :
    let old : Bytes := Utf8.encode "# caf" ++ [0xE9] ++ Utf8.encode "\nadd_library(a b.c)\n"
    let new : Bytes := Utf8.encode "# caf" ++ [0xE9] ++ Utf8.encode "\nadd_library(a)\n"
    let host : Host :=
      { files := ⟨[([Utf8.encode "o"], .directory),
          ([Utf8.encode "o", Utf8.encode "s"], .directory),
          ([Utf8.encode "l"], .link "o/s"), ([Utf8.encode "o", Utf8.encode "f"], .file 0)],
          [(0, old)]⟩
        unprintable? := fun t =>
          if t.contains (.stray 0x69) then some "surrogates not allowed" else none }
    let words : List Text := ["-f", "l/../f", "-t", "a", "del", "b.c"]
    ((run host words).ending = .returned 0 ∧ (run host words).files.read "/" "l/../f" = .ok old ∧
      (run host words).files.read "/" "f" = .ok new) ∧
    (run host (Run.dry words)).ending = .failed (.unencodable "surrogates not allowed") ∧
      (run host (Run.dry words)).console.stdout = [] := by
  decide +kernel

end Listfile
