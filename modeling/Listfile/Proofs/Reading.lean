import Listfile.Proofs.Agreement
import Listfile.Proofs.Splicing

/-!
Reading an edited file back. A file that has been read, edited once and written has the statements
it had, but for one argument: a file was put in, with the keyword of its section if need be, or
taken out, or renamed. This holds wherever the arguments stand, with or without space between them,
as long as the edit is clear: it leaves the parentheses alone, no comment is cut in two, and what
touches the argument that follows may touch it.
-/

namespace Listfile

open Scan Parse

def Argument.reading (a : Argument) : Text × Bool := (a.value, a.quoted)

def Statement.readings (s : Statement) : List (Text × Bool) := s.arguments.map Argument.reading

theorem Statement.readings_asRead (s : Statement) : s.asRead.readings = s.readings := by
  simp [readings, asRead, Argument.reading, Argument.asRead, Function.comp_def]

def Reads (bytes : Bytes) (statements : List Statement) : Prop :=
  ∃ placed, Statement.parse (Utf8.decode bytes) = .ok placed ∧
    placed.map (·.item) = statements

def Document.WrittenAs (d : Document) (P : List Statement → Prop) : Prop :=
  ∃ bytes statements, d.write.result = .ok bytes ∧ Reads bytes statements ∧ P statements

theorem Document.WrittenAs.imp {d : Document} {P Q : List Statement → Prop} (h : d.WrittenAs P)
    (hpq : ∀ statements, P statements → Q statements) : d.WrittenAs Q := by
  obtain ⟨bytes, statements, hresult, hreads, hp⟩ := h
  exact ⟨bytes, statements, hresult, hreads, hpq statements hp⟩

/-- One statement that lists sources of a target gives way to one of the same command with other
arguments. All others stay. -/
def Document.Exchanges (d : Document) (target : Text) (old new : List Statement)
    (was now : List (Text × Bool)) : Prop :=
  ∃ before s s' after, old = before ++ s :: after ∧ new = before ++ s' :: after ∧
    (∃ t ∈ d.sourcesOf target, s = ⟨t.command, t.arguments⟩) ∧ s'.command = s.command ∧
    s.readings = was ∧ s'.readings = now

namespace Operation

/-- The change of one argument that an edit stands for: a file is put in, alone or after the keyword
of a section that is opened, or in a statement of its own; it is renamed; it is taken out. -/
inductive Rewrites (d : Document) (old new : List Statement) : Operation → Prop where
  | inserts {target file : Text} {hint : Option Text} {front back : List (Text × Bool)} :
      d.Exchanges target old new (front ++ back) (front ++ (file, false) :: back) →
      Rewrites d old new (add target file hint)
  | opens {target file : Text} {hint : Option Text} {front : List (Text × Bool)} {keyword : Text} :
      keyword ∈ sectionKeywords →
      d.Exchanges target old new front (front ++ [(keyword, false), (file, false)]) →
      Rewrites d old new (add target file hint)
  | creates {target file : Text} {hint : Option Text} {s : Statement} :
      d.sourcesOf target = [] → s.command.name = Classify.targetSources →
      s.readings = [(target, false), (d.policy.defaultSection, false), (file, false)] →
      new = old ++ [s] → Rewrites d old new (add target file hint)
  | renames {target file name : Text} {quoted : Bool} {front back : List (Text × Bool)} :
      d.Exchanges target old new (front ++ (file, quoted) :: back)
        (front ++ (name, quoted) :: back) →
      Rewrites d old new (rename target file name)
  | removes {target file : Text} {quoted : Bool} {front back : List (Text × Bool)} :
      d.Exchanges target old new (front ++ (file, quoted) :: back) (front ++ back) →
      Rewrites d old new (remove target file)

/-- What an edit writes is read back as the statements that were there and the edit. -/
def ReadBack (d : Document) (op : Operation) : Prop :=
  ∃ old, Reads d.buffer.content old ∧ (op.apply d).1.WrittenAs fun new => op.Rewrites d old new

end Operation

/-- A document as it was opened: its statements stand in a frame and are read as what they are. -/
structure Document.Fresh (d : Document) (gaps : List Text) (tail : Text) : Prop where
  loaded : d.loaded = true
  policy : d.policy.Sound
  length : gaps.length = d.items.length
  frame : Frame true gaps tail
  laid : d.Laid (around gaps (d.items.map Block.statement)) tail
  legible : ∀ b ∈ d.items, b.statement.Legible
  stable : ∀ b ∈ d.items, Utf8.Stable b.render
  asRead : ∀ b ∈ d.items, b.statement.asRead = b.statement
  sources : ∀ s ∈ d.sources, s.preferred = false ∧
    (s.defaultSection = d.policy.defaultSection ∨ s.defaultSection = [])

namespace Document

theorem fresh_ofBuffer {buffer : Buffer} {policy : Policy} (sound : policy.Sound)
    (loaded : (ofBuffer buffer policy).state.loaded = true) :
    ∃ gaps tail, (ofBuffer buffer policy).state.Fresh gaps tail ∧
      Reads buffer.content ((ofBuffer buffer policy).state.items.map Block.statement) := by
  rcases reload_cases { buffer := buffer, policy := policy } with
    ⟨statements, parsed, -, hstate⟩ | ⟨-, hstate⟩
  · obtain ⟨gaps, tail, length, frame, laid, legible⟩ := laid_frame parsed
    have hitems : (ofBuffer buffer policy).state.items =
        statements.map (blockOf policy.defaultSection) := by
      rw [ofBuffer, hstate]
      simp [items, Function.comp_def]
    have hstatements : (ofBuffer buffer policy).state.items.map Block.statement =
        statements.map (·.item) := by
      rw [hitems, statement_blocks]
    have hstable := Utf8.stable_decode
      ({ buffer := buffer, policy := policy } : Document).reload.state.buffer.content
    rw [laid.text] at hstable
    have kept := stable_of_around length hstable
    have ofItem : ∀ {b}, b ∈ (ofBuffer buffer policy).state.items →
        ∃ p ∈ statements, blockOf policy.defaultSection p = b ∧ b.statement = p.item := by
      intro b hb
      rw [hitems] at hb
      obtain ⟨p, hp, rfl⟩ := List.mem_map.mp hb
      exact ⟨p, hp, rfl, blockOf_statement _ p⟩
    refine ⟨gaps, tail, ⟨loaded, ?_, ?_, frame, ?_, ?_, ?_, ?_, ?_⟩, statements, parsed,
      hstatements.symm⟩
    · rw [ofBuffer_policy]
      exact sound
    · rw [hitems, List.length_map]
      simpa using length
    · rw [hstatements]
      exact laid
    · intro b hb
      obtain ⟨p, hp, -, hb⟩ := ofItem hb
      rw [hb]
      exact (legible p hp).1
    · intro b hb
      obtain ⟨p, hp, -, hb⟩ := ofItem hb
      rw [← Block.render_statement, hb]
      exact kept _ (List.mem_map_of_mem hp)
    · intro b hb
      obtain ⟨p, hp, -, hb⟩ := ofItem hb
      rw [hb]
      exact (legible p hp).2
    · intro s hs
      rw [sources_eq_items] at hs
      obtain ⟨b, hb, hlisted⟩ := List.mem_filterMap.mp hs
      obtain ⟨p, hp, rfl, -⟩ := ofItem hb
      unfold blockOf at hlisted
      split at hlisted
      · next found hfound =>
        cases hlisted
        obtain ⟨_, _, -, -, ⟨-, rfl⟩ | ⟨-, -, -, rfl⟩⟩ := Sources.ofStatement?_cases hfound
        · rw [ofBuffer_policy]
          exact ⟨rfl, Or.inl (upper_keyword sound.keyword)⟩
        · exact ⟨rfl, Or.inr rfl⟩
      · cases hlisted
  · rw [ofBuffer, hstate] at loaded
    cases loaded

theorem Laid.reads_write {d : Document} {gaps : List Text} {tail : Text} {old : List Statement}
    (laid : d.Laid (around gaps old) tail) (length : gaps.length = old.length)
    (frame : Frame true gaps tail) (loaded : d.loaded = true)
    (legible : ∀ b ∈ d.items, b.statement.Legible)
    (stable : ∀ b ∈ d.items, Utf8.Stable b.render) :
    ∃ bytes, d.write.result = .ok bytes ∧
      Reads bytes (d.items.map fun b => b.statement.asRead) := by
  obtain ⟨gaps', hsettled, hlength, hframe, hstable⟩ := laid.settled length frame legible stable
  obtain ⟨output, hout, hresult, -⟩ := laid.write loaded
  rw [hsettled] at hout
  have hlegible : ∀ s ∈ d.items.map Block.statement, s.Legible := by
    intro s hs
    obtain ⟨b, hb, rfl⟩ := List.mem_map.mp hs
    exact legible b hb
  obtain ⟨placed, hparse, hitems, -⟩ := parse_of_frame hframe (by simpa using hlength) hlegible
  refine ⟨_, hresult, placed, ?_, ?_⟩
  · rw [hout, hstable, hparse]
  · rw [hitems, List.map_map]
    rfl

namespace Fresh

variable {d : Document} {gaps : List Text} {tail : Text}

theorem listing_mem {target separator : Text} (x : Site separator (d.sourcesOf target)) :
    .listing x.statement ∈ d.items := by
  obtain ⟨before, after, hitems, -⟩ := items_editAt d target x id
  simp [hitems]

theorem stable_parts (h : d.Fresh gaps tail) {target separator : Text}
    (x : Site separator (d.sourcesOf target)) :
    ∀ a ∈ x.statement.arguments, Utf8.Stable a.separator ∧ Utf8.Stable a.sourceText := by
  intro a ha
  obtain ⟨-, arguments, -⟩ := Command.stable_parts (h.stable _ (listing_mem x))
  exact Utf8.stable_of_append (stable_argument arguments ha)

theorem reads_write (h : d.Fresh gaps tail) {d' : Document} (moved : d.Moved d')
    (changed : ∀ b ∈ d'.items, b ∈ d.items ∨ b.statement.Legible ∧ Utf8.Stable b.render) :
    ∃ bytes, d'.write.result = .ok bytes ∧
      Reads bytes (d'.items.map fun b => b.statement.asRead) := by
  have hlength : gaps.length = (d.items.map Block.statement).length := by
    rw [List.length_map, h.length]
  apply (h.laid.moved moved).reads_write hlength h.frame (moved.loaded.trans h.loaded)
  · intro b hb
    rcases changed b hb with hold | hnew
    · exact h.legible b hold
    · exact hnew.1
  · intro b hb
    rcases changed b hb with hold | hnew
    · exact h.stable b hold
    · exact hnew.2

theorem map_asRead (h : d.Fresh gaps tail) {l : List Block} (hl : ∀ b ∈ l, b ∈ d.items) :
    l.map (fun b => b.statement.asRead) = l.map Block.statement :=
  List.map_congr_left fun b hb => h.asRead b (hl b hb)

/-- A clear edit of one statement is read back as it was made, and nothing else changes. -/
theorem exchange (h : d.Fresh gaps tail) {target separator : Text}
    (x : Site separator (d.sourcesOf target)) {f : Section → Section}
    (moved : d.Moved (d.editAt target x f)) {p : Splice} (old : x.statement.arguments = p.old)
    (new : (x.edited f).arguments = p.new) (clear : p.Clear) (given : ∀ a ∈ p.given, a.Sound)
    (joined : ((p.front ++ p.taken).IsChain fun a b => ¬ a.RunsInto b) →
      (p.front ++ p.given).IsChain fun a b => ¬ a.RunsInto b) :
    (d.editAt target x f).WrittenAs fun new =>
      d.Exchanges target (d.items.map Block.statement) new
        (p.old.map Argument.reading) (p.new.map Argument.reading) := by
  let c := x.statement.command
  have hstood : (Block.listing x.statement).statement = ⟨c, p.old⟩ := by
    rw [Block.statement, old]
  have hedited : (Block.listing (x.edited f)).statement = ⟨c, p.new⟩ := by
    rw [Block.statement, new]
    rfl
  have legible : (Statement.mk c p.new).Legible := by
    have hlegible := h.legible _ (listing_mem x)
    rw [hstood] at hlegible
    have hchain := (apart_iff_chain hlegible.words hlegible.layout
      (stops_trailing hlegible.trailing)).mp hlegible.apart
    exact clear.legible hlegible (fun a ha => ⟨(given a ha).spells, (given a ha).unpaired⟩)
      (joined (List.isChain_append.mp hchain).1)
  have stable : Utf8.Stable (Statement.mk c p.new).render := by
    have hstable := h.stable _ (listing_mem x)
    rw [← Block.render_statement, hstood] at hstable
    exact Splice.stable hstable legible fun a ha => (given a ha).stable
  obtain ⟨before, after, hold, hnew, -⟩ := items_editAt d target x f
  obtain ⟨bytes, hresult, hreads⟩ := h.reads_write moved fun b hb => by
    by_cases hb' : b = .listing (x.edited f)
    · right
      rw [← Block.render_statement, hb', hedited]
      exact ⟨legible, stable⟩
    · left
      simp only [hnew, hold, List.mem_append, List.mem_cons] at hb ⊢
      tauto
  rw [hnew, List.map_append, List.map_cons, hedited, h.map_asRead (by simp_all),
    h.map_asRead (by simp_all)] at hreads
  refine ⟨bytes, _, hresult, hreads, before.map Block.statement, ⟨c, p.old⟩, _,
    after.map Block.statement, ?_, rfl, ⟨x.statement, x.statement_mem, ?_⟩, rfl, rfl,
    Statement.readings_asRead _⟩
  · rw [hold, List.map_append, List.map_cons, hstood]
  · rw [old]

theorem exchange_spaced (h : d.Fresh gaps tail) {target separator : Text}
    (x : Site separator (d.sourcesOf target)) {f : Section → Section}
    (moved : d.Moved (d.editAt target x f)) {p : Splice} (old : x.statement.arguments = p.old)
    (new : (x.edited f).arguments = p.new) (clear : p.Clear) (taken : p.taken = [])
    (given : ∀ a ∈ p.given, a.Sound ∧ a.separator ≠ []) :
    (d.editAt target x f).WrittenAs fun new =>
      d.Exchanges target (d.items.map Block.statement) new
        (p.old.map Argument.reading) (p.new.map Argument.reading) := by
  refine h.exchange x moved old new clear (fun a ha => (given a ha).1) fun hchain => ?_
  rw [taken, List.append_nil] at hchain
  exact chain_of_spaced hchain fun a ha => (given a ha).2

theorem stable_layoutAfter (h : d.Fresh gaps tail) {target : Text}
    (x : Site d.policy.separator (d.sourcesOf target)) :
    Utf8.Stable (layoutAfter d.policy.separator x.group) := by
  unfold layoutAfter
  split
  · next last hlast =>
    have hfile := List.mem_of_getLast? hlast
    rcases x.room_cases with slots | ⟨name, -, -, -, hgroup, -⟩
    · have hmem : last ∈ x.statement.arguments := by
        rw [Sources.arguments, slots]
        simp [Slot.arguments, Section.arguments, hfile]
      exact Spacing.stable_inherit (h.stable_parts x last hmem).1
    · rw [hgroup] at hfile
      simp [Section.opened] at hfile
  · exact h.policy.blank.stable

theorem default_of_opened (h : d.Fresh gaps tail) {target separator name : Text}
    (x : Site separator (d.sourcesOf target))
    (named : x.statement.preferred = true ∨ name = x.statement.defaultSection) :
    name = d.policy.defaultSection ∨ name = [] := by
  obtain ⟨preferred, default⟩ := h.sources x.statement (List.mem_of_mem_filter x.statement_mem)
  rcases named with hpreferred | rfl
  · rw [preferred] at hpreferred
    cases hpreferred
  · exact default

theorem sound_addedFile (h : d.Fresh gaps tail) {target file : Text}
    (x : Site d.policy.separator (d.sourcesOf target)) (simple : file.Simple) :
    let added := addedFile d.policy.separator file x.group
    added.reading = (file, false) ∧ added.Sound ∧ added.separator ≠ [] := by
  refine ⟨?_, ?_, ?_⟩
  · simp [addedFile, Argument.reading, simple.unquoted]
  · exact Argument.sound_of_simple rfl simple (h.stable_layoutAfter x)
  · exact layoutAfter_ne_nil h.policy.nonempty x.group

section Addition

variable {target file : Text} {hint : Option Text} {chosen : List Event}
  {x : Site d.policy.separator (d.sourcesOf target)}

theorem inserts (h : d.Fresh gaps tail) {place : Address}
    (choice : Placement.choose (d.sourcesOf target) file (d.preferredSection? hint) =
      .ok (.existing place, chosen))
    (at_ : x.At (d.sourcesOf target) place) (simple : file.Simple)
    (clear : (Operation.add target file hint).Clear d)
    (moved : d.Moved (d.editAt target x (appendFile d.policy.separator file))) :
    (d.editAt target x (appendFile d.policy.separator file)).WrittenAs fun new =>
      (Operation.add target file hint).Rewrites d (d.items.map Block.statement) new := by
  obtain ⟨hreading, hadded⟩ := h.sound_addedFile x simple
  let p : Splice := ⟨x.left.flatMap Slot.arguments ++ x.group.arguments, [],
    [addedFile d.policy.separator file x.group], x.right.flatMap Slot.arguments⟩
  have hsplice : (Operation.add target file hint).splice? d = some p := by
    simp only [Operation.splice?, additionSplice?, choice, Placement.settle, at_.divide?,
      Option.map_some]
    rfl
  have old : x.statement.arguments = p.old := by
    rw [Sources.arguments, at_.standing]
    simp [p, Splice.old, Slot.arguments]
  have new : (x.edited (appendFile d.policy.separator file)).arguments = p.new := by
    rw [x.arguments_edited, arguments_appendFile]
    simp [p, Splice.new, addedFile]
  refine (h.exchange_spaced x moved old new (clear p hsplice) rfl (by simpa [p] using hadded)).imp
    fun statements hexchange => ?_
  have hinserted : d.Exchanges target (d.items.map Block.statement) statements
      (p.front.map Argument.reading ++ p.back.map Argument.reading)
      (p.front.map Argument.reading ++ (file, false) :: p.back.map Argument.reading) := by
    simpa [p, Splice.old, Splice.new, hreading] using hexchange
  exact .inserts hinserted

/-- A file that is added with a new section is read back at the end of the statement, after the
keyword of the section if it has one. -/
theorem opens (h : d.Fresh gaps tail) {n : Nat} {wanted : Text}
    (choice : Placement.choose (d.sourcesOf target) file (d.preferredSection? hint) =
      .ok (.fresh n wanted, chosen))
    (at_ : x.At (Placement.settle (d.sourcesOf target) (.fresh n wanted) d.policy.separator).1
      (Placement.settle (d.sourcesOf target) (.fresh n wanted) d.policy.separator).2)
    (simple : file.Simple) (clear : (Operation.add target file hint).Clear d)
    (moved : d.Moved (d.editAt target x (appendFile d.policy.separator file))) :
    (d.editAt target x (appendFile d.policy.separator file)).WrittenAs fun new =>
      (Operation.add target file hint).Rewrites d (d.items.map Block.statement) new := by
  obtain ⟨hreading, hadded⟩ := h.sound_addedFile x simple
  obtain ⟨name, named, hleft, hgroup, hright⟩ := at_.opened
  let p : Splice := ⟨x.statement.arguments, [],
    x.group.arguments ++ [addedFile d.policy.separator file x.group], []⟩
  have hsplice : (Operation.add target file hint).splice? d = some p := by
    simp only [Operation.splice?, additionSplice?, choice, at_.divide?, Option.map_some, hleft,
      hright]
    rfl
  have old : x.statement.arguments = p.old := by simp [p, Splice.old]
  have new : (x.edited (appendFile d.policy.separator file)).arguments = p.new := by
    rw [x.arguments_edited, arguments_appendFile, hleft, hright]
    simp [p, Splice.new, addedFile, Sources.arguments]
  rcases h.default_of_opened x named with rfl | rfl
  · have keyword := h.policy.keyword
    have hopened : x.group.arguments =
        [⟨d.policy.defaultSection, false, d.policy.separator, none⟩] := by
      rw [hgroup, Section.opened_of_keyword keyword]
      rfl
    have hkeyword : Argument.Sound ⟨d.policy.defaultSection, false, d.policy.separator, none⟩ :=
      Argument.sound_of_simple rfl (.of_keyword keyword) h.policy.blank.stable
    have given : ∀ a ∈ p.given, a.Sound ∧ a.separator ≠ [] := by
      simpa [p, hopened] using ⟨⟨hkeyword, h.policy.nonempty⟩, hadded⟩
    refine (h.exchange_spaced x moved old new (clear p hsplice) rfl given).imp
      fun statements hexchange => ?_
    have hinserted : d.Exchanges target (d.items.map Block.statement) statements
        (p.front.map Argument.reading)
        (p.front.map Argument.reading ++ [(d.policy.defaultSection, false), (file, false)]) := by
      simpa [p, Splice.old, Splice.new, hopened, Argument.reading, ← hreading] using hexchange
    exact .opens keyword hinserted
  · have hopened : x.group.arguments = [] := by
      rw [hgroup]
      rfl
    have given : ∀ a ∈ p.given, a.Sound ∧ a.separator ≠ [] := by
      simpa [p, hopened] using hadded
    refine (h.exchange_spaced x moved old new (clear p hsplice) rfl given).imp
      fun statements hexchange => ?_
    have hinserted : d.Exchanges target (d.items.map Block.statement) statements
        (p.front.map Argument.reading ++ []) (p.front.map Argument.reading ++ [(file, false)]) := by
      simpa [p, Splice.old, Splice.new, hopened, hreading] using hexchange
    exact .inserts hinserted

end Addition

theorem changes (h : d.Fresh gaps tail) (unsorted : d.policy.sorting = false) {target file : Text}
    {f : Nat → Section → Section} (given : Argument → List Argument)
    (effect : ∀ g before a after, g.files = before ++ a :: after →
      (f before.length g).keyword = g.keyword ∧
        (f before.length g).files = before ++ given a ++ after)
    (clear : ∀ p ∈ d.changeSplice? target file given, p.Clear)
    (sound : ∀ a, Utf8.Stable a.separator → ∀ b ∈ given a, b.Sound)
    (joined : ∀ front a, a.Spells → a.Unpaired →
      ((front ++ [a]).IsChain fun a b => ¬ a.RunsInto b) →
      (front ++ given a).IsChain fun a b => ¬ a.RunsInto b)
    (done : (d.changeFile target file f).result = .ok true)
    (moved : d.Moved (d.changeFile target file f).state) :
    ∃ front a back, a.value = file ∧ (d.changeFile target file f).state.WrittenAs fun new =>
      d.Exchanges target (d.items.map Block.statement) new
        (front ++ a.reading :: back) (front ++ (given a).map Argument.reading ++ back) := by
  rcases changeFile_changes d target file f with ⟨hno, -⟩ |
    ⟨place, x, before, a, after, found, at_, finds, changes⟩
  · rw [done] at hno
    cases hno
  cases changes with
  | stuck sorting =>
    rw [unsorted] at sorting
    cases sorting
  | done _ _ state =>
    rw [order_comp unsorted] at state
    rw [state] at moved ⊢
    let p : Splice := ⟨x.upTo before, [a], given a, after ++ x.right.flatMap Slot.arguments⟩
    have hclear : p.Clear := clear p (changeSplice?_eq found at_ finds)
    have old : x.statement.arguments = p.old := finds.arguments
    obtain ⟨hkeyword, hfiles⟩ := effect x.group before a after finds.files
    have new : (x.edited (f before.length)).arguments = p.new :=
      x.arguments_edited_files hkeyword hfiles
    have hmem : a ∈ x.statement.arguments := by
      rw [old]
      simp [p, Splice.old]
    have hspells : a.Spells := (h.legible _ (listing_mem x)).words a hmem
    have hunpaired : a.Unpaired := hclear.unpaired a (by simp [p])
    refine ⟨p.front.map Argument.reading, a, p.back.map Argument.reading, finds.value, ?_⟩
    have hwritten := h.exchange x moved old new hclear (sound a (h.stable_parts x a hmem).1)
      (joined _ a hspells hunpaired)
    simpa [p, Splice.old, Splice.new] using hwritten

theorem renames (h : d.Fresh gaps tail) (unsorted : d.policy.sorting = false)
    {target file name : Text} (simple : name.Simple)
    (clear : (Operation.rename target file name).Clear d)
    (done : (d.renameFile target file name).result = .ok true) :
    (d.renameFile target file name).state.WrittenAs fun new =>
      (Operation.rename target file name).Rewrites d (d.items.map Block.statement) new := by
  have moved := renameFile_moved done
  rw [renameFile_of_loaded h.loaded target file simple.1] at done moved ⊢
  have effect : ∀ (g : Section) (before : List Argument) (a : Argument) (after : List Argument),
      g.files = before ++ a :: after →
      (renameAt name before.length g).keyword = g.keyword ∧
        (renameAt name before.length g).files = before ++ [renameArgument name a] ++ after := by
    intro g before a after hfiles
    exact ⟨rfl, by simp [renameAt, hfiles, modify_split]⟩
  have sound : ∀ a : Argument, Utf8.Stable a.separator →
      ∀ b ∈ [renameArgument name a], b.Sound := by
    intro a hstable b hb
    rw [List.mem_singleton.mp hb]
    exact Argument.sound_of_simple rfl simple hstable
  have joined : ∀ (front : List Argument) (a : Argument), a.Spells → a.Unpaired →
      ((front ++ [a]).IsChain fun a b => ¬ a.RunsInto b) →
      (front ++ [renameArgument name a]).IsChain fun a b => ¬ a.RunsInto b := by
    intro front a spells unpaired hchain
    obtain ⟨hfront, -, hlast⟩ := List.isChain_append.mp hchain
    refine List.isChain_append.mpr ⟨hfront, .singleton _, ?_⟩
    rintro b hb c hc hruns
    cases hc
    exact hlast b hb a rfl (hruns.of_renamed simple spells unpaired)
  obtain ⟨front, a, back, hvalue, hwritten⟩ :=
    h.changes unsorted (fun a => [renameArgument name a]) effect clear sound joined done moved
  refine hwritten.imp fun statements hexchange => ?_
  have hrenamed : d.Exchanges target (d.items.map Block.statement) statements
      (front ++ (file, a.quoted) :: back) (front ++ (name, a.quoted) :: back) := by
    simpa [Argument.reading, renameArgument, Argument.setValue, hvalue, simple.unquoted]
      using hexchange
  exact .renames hrenamed

theorem removes (h : d.Fresh gaps tail) (unsorted : d.policy.sorting = false)
    {target file : Text} (clear : (Operation.remove target file).Clear d)
    (done : (d.removeFile target file).result = .ok true) :
    (d.removeFile target file).state.WrittenAs fun new =>
      (Operation.remove target file).Rewrites d (d.items.map Block.statement) new := by
  have moved := removeFile_moved done
  rw [removeFile_of_loaded h.loaded] at done moved ⊢
  have effect : ∀ (g : Section) (before : List Argument) (a : Argument) (after : List Argument),
      g.files = before ++ a :: after → (removeAt before.length g).keyword = g.keyword ∧
        (removeAt before.length g).files = before ++ [] ++ after := by
    intro g before a after hfiles
    exact ⟨rfl, by simp [removeAt, hfiles, List.eraseIdx_append_of_length_le]⟩
  obtain ⟨front, a, back, hvalue, hwritten⟩ :=
    h.changes unsorted (fun _ => []) effect clear (by simp)
      (fun front a _ _ hchain => by simpa using (List.isChain_append.mp hchain).1) done moved
  refine hwritten.imp fun statements hexchange => ?_
  have hremoved : d.Exchanges target (d.items.map Block.statement) statements
      (front ++ (file, a.quoted) :: back) (front ++ back) := by
    simpa [Argument.reading, hvalue] using hexchange
  exact .removes hremoved

theorem creates (h : d.Fresh gaps tail) {target file : Text} {hint : Option Text}
    (unlisted : d.sourcesOf target = []) (named : target.Simple) (simple : file.Simple)
    {x : Site d.policy.separator ((d.withBlock target).sourcesOf target)}
    (moved : d.Moved ((d.withBlock target).editAt target x (appendFile d.policy.separator file))) :
    ((d.withBlock target).editAt target x (appendFile d.policy.separator file)).WrittenAs
      fun new => (Operation.add target file hint).Rewrites d (d.items.map Block.statement) new := by
  obtain ⟨hstatement, hitems⟩ := items_created unlisted x (appendFile d.policy.separator file)
  let c := (d.newBlock target).command
  let first : Argument := ⟨target, needsQuotation target, [], none⟩
  let keyword : Argument := ⟨d.policy.defaultSection, false, d.policy.separator, none⟩
  let added : Argument := ⟨file, needsQuotation file, d.policy.separator, none⟩
  -- The block is a splice of the command without arguments.
  let p : Splice := ⟨[], [], [first, keyword, added], []⟩
  have hedited : (Block.listing (x.edited (appendFile d.policy.separator file))).statement =
      ⟨c, p.new⟩ := by
    rw [Block.statement, arguments_created hstatement,
      Section.opened_of_keyword h.policy.keyword]
    simp [Site.edited, hstatement, p, c, Splice.new, first, keyword, added]
  have given : ∀ a ∈ p.given, a.Sound := by
    have hblank := h.policy.blank.stable
    simp only [p, List.forall_mem_cons, List.not_mem_nil, false_imp_iff, implies_true, and_true]
    exact ⟨Argument.sound_of_simple rfl named rfl,
      Argument.sound_of_simple rfl (.of_keyword h.policy.keyword) hblank,
      Argument.sound_of_simple rfl simple hblank⟩
  have clear : p.Clear := by
    have hlayout := (h.policy.blank.spacing h.policy.nonempty).layout
    refine ⟨by simp [p], ?_, by simp [p]⟩
    simp only [p, List.forall_mem_cons, List.not_mem_nil, false_imp_iff, implies_true, and_true]
    exact ⟨layout_of_spaces (by simp [first, kinds_nil]), hlayout, hlayout⟩
  have joined : (p.front ++ p.given).IsChain fun a b => ¬ a.RunsInto b := by
    have hchain : ([first] ++ [keyword, added]).IsChain fun a b => ¬ a.RunsInto b :=
      chain_of_spaced (.singleton first) (by simpa [keyword, added] using h.policy.nonempty)
    exact hchain
  obtain ⟨hlegible, hstable⟩ := d.legible_newCommand target
  have legible : (Statement.mk c p.new).Legible :=
    clear.legible hlegible (fun a ha => ⟨(given a ha).spells, (given a ha).unpaired⟩) joined
  have stable : Utf8.Stable (Statement.mk c p.new).render :=
    Splice.stable hstable legible fun a ha => (given a ha).stable
  obtain ⟨bytes, hresult, hreads⟩ := h.reads_write moved fun b hb => by
    rw [hitems] at hb
    rcases List.mem_append.mp hb with hb | hb
    · exact Or.inl hb
    · right
      rw [← Block.render_statement, List.mem_singleton.mp hb, hedited]
      exact ⟨legible, stable⟩
  rw [hitems, List.map_append, h.map_asRead fun _ => id, List.map_singleton, hedited] at hreads
  refine ⟨bytes, _, hresult, hreads, .creates unlisted ?_ ?_ rfl⟩
  · simp only [Statement.asRead, c, newBlock, Command.named]
    decide
  · rw [Statement.readings_asRead]
    simp [Statement.readings, p, Splice.new, first, keyword, added, Argument.reading,
      named.unquoted, simple.unquoted]

theorem adds (h : d.Fresh gaps tail) (unsorted : d.policy.sorting = false) {target file : Text}
    {hint : Option Text} (simple : (Operation.add target file hint).Simple d)
    (clear : (Operation.add target file hint).Clear d)
    (done : (d.addFile target file hint).result = .ok true) :
    (d.addFile target file hint).state.WrittenAs fun new =>
      (Operation.add target file hint).Rewrites d (d.items.map Block.statement) new := by
  have moved := addFile_moved done
  by_cases unlisted : d.sourcesOf target = []
  · rcases addFile_editAt d target file hint with ⟨sorting, -⟩ | ⟨hno, -⟩ | ⟨-, listed, -⟩ |
      ⟨-, -, -, x, state⟩
    · rw [unsorted] at sorting
      cases sorting
    · rw [done] at hno
      cases hno
    · exact absurd unlisted listed
    · rw [order_comp unsorted] at state
      rw [state] at moved ⊢
      exact h.creates unlisted (simple.2 unlisted) simple.1 moved
  · have hadd : d.addFile target file hint = d.addTo target file hint [] := by
      simp [addFile, h.loaded, simple.1.1, unlisted]
    rw [hadd] at moved ⊢
    obtain ⟨choice, chosen, hchoose, x, hat, changes⟩ := addTo_changes unlisted file hint []
    cases changes with
    | stuck sorting =>
      rw [unsorted] at sorting
      cases sorting
    | done _ _ state =>
      rw [order_comp unsorted] at state
      rw [state] at moved ⊢
      cases choice with
      | existing place => exact h.inserts hchoose hat simple.1 clear moved
      | fresh n wanted => exact h.opens hchoose hat simple.1 clear moved

end Fresh

end Document

/-- One clear edit of a file that was just read changes one argument, as a reader of the written
file sees it: all statements stay, and in one of them a file is put in, renamed or taken out. A file
may bring the keyword of a new section, and for a target without sources a statement of its own. -/
theorem single_edit_read_back {environment : List (Text × Text)} {data : List (Value × Value)}
    {settings : Settings} (configured : Settings.ofData environment data = .ok settings)
    (unsorted : settings.sort = false) (nonempty : settings.separator ≠ [])
    (blank : settings.separator.Blank) (key : Text → Text) (buffer : Buffer)
    (loaded : (Document.ofBuffer buffer (settings.policy key)).state.loaded = true)
    (op : Operation) (edit : op.isEdit = true)
    (simple : op.Simple (Document.ofBuffer buffer (settings.policy key)).state)
    (clear : op.Clear (Document.ofBuffer buffer (settings.policy key)).state)
    (done : (op.apply (Document.ofBuffer buffer (settings.policy key)).state).2 =
      .ok (.flag true)) :
    op.ReadBack (Document.ofBuffer buffer (settings.policy key)).state := by
  have policy : (settings.policy key).Sound := ⟨Settings.keyword_ofData configured, nonempty, blank⟩
  obtain ⟨gaps, tail, fresh, reads⟩ := Document.fresh_ofBuffer policy loaded
  have hpolicy : (Document.ofBuffer buffer (settings.policy key)).state.policy.sorting = false := by
    rw [Document.ofBuffer_policy]
    exact unsorted
  refine ⟨_, by rw [(Document.ofBuffer_buffer _ _).1]; exact reads, ?_⟩
  have succeeded : ∀ {r : Reply Document Bool}, r.result.map Answer.flag = .ok (.flag true) →
      r.result = .ok true := by
    intro r hr
    obtain ⟨b, hb⟩ := exists_ok_of_map hr
    rw [hb] at hr ⊢
    cases hr
    rfl
  cases op with
  | add target file hint => exact fresh.adds hpolicy simple clear (succeeded done)
  | rename target file name => exact fresh.renames hpolicy simple clear (succeeded done)
  | remove target file => exact fresh.removes hpolicy clear (succeeded done)
  | _ => cases edit

theorem single_edit_read_back_touching :
    let d := (Document.ofBuffer (.ofString
      "f()\ntarget_sources(a PRIVATE x.c\"q\"(y)PUBLIC#[[ # ]]\n[[z]]w)") {}).state
    (Operation.remove "a" "q").ReadBack d ∧ (Operation.rename "a" "q" "lib/q-2.c").ReadBack d ∧
      (Operation.add "a" "b.c" (some "PUBLIC")).ReadBack d ∧
      (Operation.add "new" "b.c" none).ReadBack d := by
  intro d
  have configured : Settings.ofData [] [] = .ok {} := by decide +kernel
  have readBack : ∀ op : Operation, op.isEdit = true →
      op.Simple d ∧ op.Clear d ∧ (op.apply d).2 = .ok (.flag true) → op.ReadBack d :=
    fun op edit ⟨simple, clear, done⟩ => single_edit_read_back configured rfl (by decide)
      (by decide) id _ (by decide +kernel) op edit simple clear done
  refine ⟨readBack _ rfl ?_, readBack _ rfl ?_, readBack _ rfl ?_, readBack _ rfl ?_⟩
  all_goals decide +kernel

section Misread

def argumentTotal (statements : List Statement) : Nat :=
  (statements.flatMap (·.arguments)).length

def argumentCount? (bytes : Bytes) : Option Nat :=
  match Statement.parse (Utf8.decode bytes) with
  | .ok placed => some (argumentTotal (placed.map (·.item)))
  | .error _ => none

/-- Whether an edit may leave so many arguments of so many. -/
def Operation.counts : Operation → Nat → Nat → Bool
  | add .., m, n => m < n ∧ n ≤ m + 3
  | rename .., m, n => n = m
  | remove .., m, n => n + 1 = m
  | _, _, _ => true

theorem Reads.count {bytes : Bytes} {statements : List Statement} (h : Reads bytes statements) :
    argumentCount? bytes = some (argumentTotal statements) := by
  obtain ⟨placed, hparse, rfl⟩ := h
  rw [argumentCount?, hparse]

theorem Document.Exchanges.total {d : Document} {target : Text} {old new : List Statement}
    {was now : List (Text × Bool)} (h : d.Exchanges target old new was now) :
    argumentTotal old + now.length = argumentTotal new + was.length := by
  obtain ⟨before, s, s', after, rfl, rfl, -, -, rfl, rfl⟩ := h
  simp only [argumentTotal, Statement.readings, List.flatMap_append, List.flatMap_cons,
    List.length_append, List.length_map]
  omega

theorem Operation.Rewrites.counts {d : Document} {op : Operation} {old new : List Statement}
    (h : op.Rewrites d old new) : op.counts (argumentTotal old) (argumentTotal new) = true := by
  cases h with
  | inserts hexchange =>
    have := hexchange.total
    simp only [List.length_append, List.length_cons] at this
    simp only [Operation.counts, decide_eq_true_eq]
    omega
  | opens _ hexchange =>
    have := hexchange.total
    simp only [List.length_append, List.length_cons, List.length_nil] at this
    simp only [Operation.counts, decide_eq_true_eq]
    omega
  | @creates target file hint s _ _ hreadings hnew =>
    have hlength := congrArg List.length hreadings
    simp only [Statement.readings, List.length_map, List.length_cons, List.length_nil] at hlength
    simp [Operation.counts, hnew, argumentTotal, hlength]
  | renames hexchange =>
    have := hexchange.total
    simp only [List.length_append, List.length_cons] at this
    simp only [Operation.counts, decide_eq_true_eq]
    omega
  | removes hexchange =>
    have := hexchange.total
    simp only [List.length_append, List.length_cons] at this
    simp only [Operation.counts, decide_eq_true_eq]
    omega

def Operation.Miscounts (d : Document) (op : Operation) : Prop :=
  ∀ m ∈ argumentCount? d.buffer.content, ∀ bytes ∈ (op.apply d).1.write.result.toOption,
    ∀ n ∈ argumentCount? bytes, op.counts m n = false

instance (d : Document) (op : Operation) : Decidable (op.Miscounts d) :=
  inferInstanceAs (Decidable (∀ m ∈ argumentCount? d.buffer.content,
    ∀ bytes ∈ (op.apply d).1.write.result.toOption,
      ∀ n ∈ argumentCount? bytes, op.counts m n = false))

theorem Operation.Miscounts.not_readBack {d : Document} {op : Operation} (h : op.Miscounts d) :
    ¬ op.ReadBack d := by
  rintro ⟨old, hold, bytes, new, hresult, hnew, rewrites⟩
  have hcount := h _ hold.count bytes (by rw [hresult]; rfl) _ hnew.count
  rw [rewrites.counts] at hcount
  cases hcount

/-- A successful edit with simple names of a file that was just read, after which it is misread. -/
def Operation.Misread (text : String) (op : Operation) : Prop :=
  let d := (Document.ofBuffer (.ofString text) {}).state
  d.loaded = true ∧ op.Simple d ∧ (op.apply d).2 = .ok (.flag true) ∧ ¬ op.ReadBack d

theorem misread_of_miscounts {text : String} {op : Operation}
    (h : (Document.ofBuffer (.ofString text) {}).state.loaded = true ∧
      op.Simple (Document.ofBuffer (.ofString text) {}).state ∧
      (op.apply (Document.ofBuffer (.ofString text) {}).state).2 = .ok (.flag true) ∧
      op.Miscounts (Document.ofBuffer (.ofString text) {}).state) : op.Misread text := by
  obtain ⟨loaded, simple, done, miscounts⟩ := h
  exact ⟨loaded, simple, done, miscounts.not_readBack⟩

/-- Each condition of a clear edit is needed: a parenthesis that is removed or renamed, an argument
that is removed between two others or loses its brackets, a file that is put before one without
space, and a line break that stands in a comment. -/
theorem unclear_edits_misread :
    Operation.Misread "add_library(a b.c ( c.c ) d.c)" (.remove "a" "(") ∧
    Operation.Misread "add_library(a b.c ( c.c ) d.c)" (.rename "a" "(" "x.c") ∧
    Operation.Misread "add_library(a x\"q\"y)" (.remove "a" "q") ∧
    Operation.Misread "add_library(a [[x]]y)" (.rename "a" "x" "z") ∧
    Operation.Misread "target_sources(a PRIVATE \"b.c\"PUBLIC b.h)"
      (.add "a" "x.c" (some "PRIVATE")) ∧
    Operation.Misread "add_library(a #[[\nb c d e]] z.c)" (.add "a" "x.c" none) := by
  refine ⟨misread_of_miscounts ?_, misread_of_miscounts ?_, misread_of_miscounts ?_,
    misread_of_miscounts ?_, misread_of_miscounts ?_, misread_of_miscounts ?_⟩
  all_goals decide +kernel

end Misread

end Listfile
