import Listfile.Proofs.Outline
import Listfile.Proofs.Session
import Listfile.Proofs.Site

/-!
A document as it is kept by references. Every statement and every section is made once; lists of
statements, lists of sources, an index by target, a map from statements to their sources and, within
a statement, both the slots and the list of sections refer to them, and each operation brings up to
date the ones it has to. What such a registry shows is a document at every moment, and its
operations are those of the document.
-/

namespace Listfile

inductive Handle where
  | plain (a : Argument)
  | grouped (id : Nat)
  deriving DecidableEq, Repr

def Handle.section? : Handle → Option Nat
  | plain _ => none
  | grouped id => some id

/-- A statement that lists sources. Its sections are in a store, to which both the slots and the
list of sections refer. -/
structure Record where
  statement : Nat
  target : Text
  store : List Section := []
  slots : List Handle := []
  sections : List Nat := []
  defaultSection : Text := []
  preferred : Bool := false
  dirty : Bool := false
  deriving DecidableEq, Repr

namespace Record

def sectionAt (x : Record) (id : Nat) : Section := x.store.getD id { name := [] }

def slotOf (x : Record) : Handle → Slot
  | .plain a => .plain a
  | .grouped id => .grouped (x.sectionAt id)

def view (x : Record) (command : Command) : Sources :=
  { command := command
    target := x.target
    slots := x.slots.map x.slotOf
    defaultSection := x.defaultSection
    preferred := x.preferred
    dirty := x.dirty }

/-- The sources that a search sees, which goes by the list of sections. -/
def searched (x : Record) (command : Command) : Sources :=
  { x.view command with slots := x.sections.map fun id => .grouped (x.sectionAt id) }

/-- Makes a section and puts it at the end of both lists. -/
def addSection (x : Record) (g : Section) : Record :=
  { x with
    store := x.store ++ [g]
    slots := x.slots ++ [.grouped x.store.length]
    sections := x.sections ++ [x.store.length] }

def addPlain (x : Record) (a : Argument) : Record := { x with slots := x.slots ++ [.plain a] }

def modify (x : Record) (id : Nat) (f : Section → Section) : Record :=
  { x with store := x.store.modify id f }

def addFile (x : Record) (id : Nat) (a : Argument) : Record :=
  x.modify id fun g => { g with files := g.files ++ [a] }

/-- Reads the arguments of a list of sources, with the section that is open. -/
def readListing (x : Record) (current : Option Nat) : List Argument → Record
  | [] => x
  | a :: rest =>
    match sectionKeyword? a, current with
    | some name, _ =>
      readListing (x.addSection { name := name, keyword := some a }) (some x.store.length) rest
    | none, some id => readListing (x.addFile id a) (some id) rest
    | none, none => readListing (x.addPlain a) none rest

/-- Reads the arguments of a declared target, with its section once there is one. -/
def readTarget (x : Record) (current : Option Nat) (expectValue : Bool) : List Argument → Record
  | [] => x
  | a :: rest =>
    match current with
    | some id => readTarget (x.addFile id a) (some id) expectValue rest
    | none =>
      if expectValue then readTarget (x.addPlain a) none false rest
      else if Classify.targetModifiers.contains (Classify.keywordOf a) then
        readTarget (x.addPlain a) none false rest
      else if Classify.valueKeywords.contains (Classify.keywordOf a) then
        readTarget (x.addPlain a) none true rest
      else if a.value.isEmpty then readTarget (x.addPlain a) none false rest
      else readTarget (x.addSection { name := [], files := [a] }) (some x.store.length) false rest

def collect (x : Record) : Record :=
  x.sections.foldl (fun x id => x.modify id Section.collectDirectories) x

def bare (statement : Nat) (first : Argument) (defaultSection : Text) : Record :=
  { statement := statement
    target := first.value
    slots := [.plain first]
    defaultSection := defaultSection }

def ofStatement? (statement : Nat) (s : Statement) (defaultSection : Text) : Option Record :=
  if s.command.name = Classify.targetSources then
    match s.arguments with
    | [] => none
    | a :: rest =>
      if a.value.isEmpty then none
      else some ((bare statement a defaultSection.upper).readListing none rest).collect
  else if Classify.targetCommands.contains s.command.name then
    match s.arguments with
    | [] => none
    | a :: rest =>
      if a.value.isEmpty then none
      else if Classify.isSourceless rest then none
      else some ((bare statement a []).readTarget none false rest).collect
  else none

end Record

/-- Statements and records are referred to by their positions among those made so far. -/
structure Registry where
  buffer : Buffer
  policy : Policy := {}
  listeners : List Nat := []
  loaded : Bool := false
  dirty : Bool := false
  held : List (Placed Statement) := []
  records : List Record := []
  /-- The statements of the file. -/
  statements : List Nat := []
  /-- All records, in the order in which they were registered. -/
  sources : List Nat := []
  /-- The records of each target. -/
  index : List (Text × List Nat) := []
  /-- The record of each statement that has one. -/
  owners : List (Nat × Nat) := []
  /-- The records whose statements are not in the file yet. -/
  created : List Nat := []

namespace Registry

def nowhere : Span := ⟨⟨0, 0⟩, ⟨0, 0⟩⟩

def heldAt (r : Registry) (statement : Nat) : Placed Statement :=
  r.held.getD statement ⟨nowhere, ⟨.named [] [] [] [], []⟩⟩

def recordAt (r : Registry) (id : Nat) : Record :=
  r.records.getD id { statement := 0, target := [] }

def commandAt (r : Registry) (id : Nat) : Command :=
  (r.heldAt (r.recordAt id).statement).item.command

def view (r : Registry) (id : Nat) : Sources := (r.recordAt id).view (r.commandAt id)

def searched (r : Registry) (id : Nat) : Sources := (r.recordAt id).searched (r.commandAt id)

def owner? (r : Registry) (statement : Nat) : Option Nat := r.owners.lookup statement

def itemAt (r : Registry) (statement : Nat) : Block :=
  match r.owner? statement with
  | some id => .listing (r.view id)
  | none => .other (r.heldAt statement).item

def blockAt (r : Registry) (statement : Nat) : Placed Block :=
  ⟨(r.heldAt statement).span, r.itemAt statement⟩

/-- The document that a registry keeps. -/
def document (r : Registry) : Document :=
  { buffer := r.buffer
    policy := r.policy
    listeners := r.listeners
    loaded := r.loaded
    dirty := r.dirty
    blocks := r.statements.map r.blockAt
    pending := r.created.map r.view }

def targets (r : Registry) : List Text := r.index.map (·.1)

def candidates (r : Registry) (target : Text) : List Nat := (r.index.lookup target).getD []

def sourceFiles (r : Registry) (target : Text) : List Text :=
  (r.candidates target).flatMap fun id => (r.searched id).fileNames

/-- Enters a record under a target: after those that are there, or in a new entry. -/
def enter (index : List (Text × List Nat)) (target : Text) (id : Nat) : List (Text × List Nat) :=
  if index.any fun entry => entry.1 = target then
    index.map fun entry => if entry.1 = target then (entry.1, entry.2 ++ [id]) else entry
  else index ++ [(target, [id])]

def register (r : Registry) (x : Record) : Registry :=
  { r with
    records := r.records ++ [x]
    sources := r.sources ++ [r.records.length]
    index := enter r.index x.target r.records.length
    owners := r.owners ++ [(x.statement, r.records.length)] }

def classify (r : Registry) (statement : Nat) : Registry :=
  match Record.ofStatement? statement (r.heldAt statement).item r.policy.defaultSection with
  | some x => r.register x
  | none => r

def create (r : Registry) (target : Text) : Registry :=
  let first : Argument := ⟨target, needsQuotation target, [], none⟩
  let s : Statement := ⟨.named Classify.targetSources [] [] "\n", [first]⟩
  let made : Registry := { r with held := r.held ++ [⟨nowhere, s⟩] }
  let registered := made.register (.bare r.held.length first r.policy.defaultSection)
  { registered with created := r.created ++ [r.records.length] }

def change (r : Registry) (id : Nat) (f : Record → Record) : Registry :=
  { r with records := r.records.modify id f }

def changeSection (r : Registry) (candidates : List Nat) (place : Address)
    (f : Section → Section) : Registry × Except Fault Bool :=
  let id := candidates.getD place.statement 0
  let group := (r.recordAt id).sections.getD place.sectionIndex 0
  let changed := (r.recordAt id).modify group f
  if r.policy.sorting && (changed.sectionAt group).isUnsortable then
    (r.change id fun _ => changed, .error .nullInValue)
  else
    let done := { changed.modify group r.policy.order with dirty := true }
    ({ r.change id fun _ => done with
      dirty := true, listeners := r.listeners.map (· + 1) }, .ok true)

def addTo (r : Registry) (candidates : List Nat) (file : Text) (hint : Option Text) :
    Registry × Except Fault Bool :=
  match Placement.choose (candidates.map r.searched) file (r.document.preferredSection? hint) with
  | .error fault => (r, .error fault)
  | .ok (.existing place, _) =>
    r.changeSection candidates place (Document.appendFile r.policy.separator file)
  | .ok (.fresh n name, _) =>
    let id := candidates.getD n 0
    let opened := r.change id fun x => x.addSection (Section.opened name r.policy.separator)
    opened.changeSection candidates ⟨n, (r.recordAt id).sections.length⟩
      (Document.appendFile r.policy.separator file)

def addFile (r : Registry) (target file : Text) (hint : Option Text) :
    Registry × Except Fault Bool :=
  if !r.loaded then (r, .ok false)
  else if file.isEmpty then (r, .ok false)
  else if !(r.candidates target).isEmpty then r.addTo (r.candidates target) file hint
  else if r.policy.creating then (r.create target).addTo [r.records.length] file hint
  else (r, .ok false)

def changeFile (r : Registry) (target file : Text) (f : Nat → Section → Section) :
    Registry × Except Fault Bool :=
  if (r.index.lookup target).isNone then (r, .ok false)
  else
    match Document.findFile? ((r.candidates target).map r.searched) file with
    | none => (r, .ok false)
    | some (place, n) => r.changeSection (r.candidates target) place (f n)

def renameFile (r : Registry) (target old new : Text) : Registry × Except Fault Bool :=
  if !r.loaded then (r, .ok false)
  else if new.isEmpty then (r, .ok false)
  else r.changeFile target old (Document.renameAt new)

def removeFile (r : Registry) (target file : Text) : Registry × Except Fault Bool :=
  if !r.loaded then (r, .ok false)
  else r.changeFile target file Document.removeAt

def forEach (r : Registry) (ids : List Nat) (f : Record → Record) : Registry :=
  ids.foldl (fun r id => r.change id f) r

def setDefaultSection (r : Registry) (name : Text) : Registry × Except Fault Unit :=
  if sectionKeywords.contains name.upper then
    let policy := { r.policy with defaultSection := name.upper }
    ({ r with policy := policy }.forEach r.sources fun x =>
      if (r.heldAt x.statement).item.command.name = Classify.targetSources
        then { x with defaultSection := name.upper } else x, .ok ())
  else (r, .error (.unknownSection name.upper))

def reload (r : Registry) : Registry × Except Fault Bool :=
  let cleared : Registry := { buffer := r.buffer, policy := r.policy, listeners := r.listeners }
  match (Document.readStatements (Utf8.decode r.buffer.content)).1 with
  | some statements =>
    let read : Registry :=
      { cleared with
        loaded := true, held := statements, statements := List.range statements.length }
    (read.statements.foldl classify read, .ok true)
  | none => (cleared, .ok false)

def ofBuffer (buffer : Buffer) (policy : Policy) : Registry :=
  (reload { buffer := buffer, policy := policy }).1

def draft? (r : Registry) : Option Draft :=
  let old := Utf8.decode r.buffer.content
  (Draft.addBlocks? old (lineStarts old) {} (r.statements.map r.blockAt)).map fun drafted =>
    r.created.foldl (fun drafted id => drafted.addCreated (r.view id)) (drafted.addTail old)

def moveSpans (r : Registry) (output : Text) (placed : List (Nat × Int × Nat)) : Registry :=
  let starts := lineStarts output
  let move := fun (held : List (Placed Statement)) (p : Nat × Int × Nat) =>
    held.modify p.1 fun s => ⟨Draft.spanOf starts p.2, s.item⟩
  { r with held := placed.foldl move r.held }

/-- The registry after a draft has been written: the created statements are in the file. -/
def settleDraft (r : Registry) (drafted : Draft) : Registry :=
  let data := Utf8.encode drafted.output
  let statements := r.statements ++ r.created.map fun id => (r.recordAt id).statement
  let moved := { r with statements := statements, created := [] }.moveSpans drafted.output
    (statements.zip drafted.marks)
  { moved.forEach r.sources fun x => { x with dirty := false } with
    dirty := false
    buffer := if data = r.buffer.content then r.buffer else r.buffer.setContent data }

def write (r : Registry) : Registry × Except Fault Bytes :=
  if r.loaded then
    match r.draft? with
    | some drafted => (r.settleDraft drafted, .ok (Utf8.encode drafted.output))
    | none => (r, .error .missingLine)
  else (r, .ok r.buffer.content)

def save (r : Registry) (host : Host) : Registry × Except Fault Bool :=
  if r.loaded then
    match r.write with
    | (written, .error fault) => (written, .error fault)
    | (written, .ok _) =>
      let saved := written.buffer.save host
      ({ written with buffer := saved.state.1 }, saved.result)
  else (r, .ok false)

def apply (r : Registry) : Operation → Registry × Except Fault Answer
  | .add target file hint =>
    ((r.addFile target file hint).1, (r.addFile target file hint).2.map .flag)
  | .rename target old new =>
    ((r.renameFile target old new).1, (r.renameFile target old new).2.map .flag)
  | .remove target file => ((r.removeFile target file).1, (r.removeFile target file).2.map .flag)
  | .setSorting on => ({ r with policy := { r.policy with sorting := on } }, .ok .nothing)
  | .setCreating on => ({ r with policy := { r.policy with creating := on } }, .ok .nothing)
  | .setDefaultSection name =>
    ((r.setDefaultSection name).1, (r.setDefaultSection name).2.map fun _ => .nothing)
  | .addListener => ({ r with listeners := r.listeners ++ [0] }, .ok .nothing)
  | .write => (r.write.1, r.write.2.map .bytes)
  | .save host => ((r.save host).1, (r.save host).2.map .flag)
  | .reload => (r.reload.1, r.reload.2.map .flag)

def run (r : Registry) : List Operation → Except Fault (Registry × List Answer)
  | [] => .ok (r, [])
  | op :: rest =>
    match r.apply op with
    | (_, .error fault) => .error fault
    | (next, .ok answer) => (run next rest).map fun p => (p.1, answer :: p.2)

end Registry

theorem getD_modify {α : Type} {l : List α} {n : Nat} (h : n < l.length) (f : α → α) (m : Nat)
    (d : α) : (l.modify n f).getD m d = if n = m then f (l.getD m d) else l.getD m d := by
  simp only [List.getD_eq_getElem?_getD, List.getElem?_modify]
  by_cases hm : n = m
  · subst hm
    simp [List.getElem?_eq_getElem h]
  · simp [hm]

theorem getD_append_left {α : Type} {l : List α} (more : List α) {n : Nat} (h : n < l.length)
    (d : α) : (l ++ more).getD n d = l.getD n d := by
  rw [List.getD_eq_getElem?_getD, List.getElem?_append_left h, List.getD_eq_getElem?_getD]

theorem getD_concat {α : Type} (l : List α) (a d : α) : (l ++ [a]).getD l.length d = a := by
  simp [List.getD_eq_getElem?_getD]

theorem map_getD_range {α β : Type} (l : List α) (d : α) (f : α → β) :
    (List.range l.length).map (fun n => f (l.getD n d)) = l.map f := by
  apply List.ext_getElem
  · simp
  · intro n hn _
    simp only [List.length_map, List.length_range] at hn
    simp [List.getD_eq_getElem?_getD, List.getElem?_eq_getElem hn]

theorem foldl_modify_range {α : Type} (f : α → α) (l : List α) {n : Nat} (h : n ≤ l.length) :
    (List.range n).foldl (fun l m => l.modify m f) l = (l.take n).map f ++ l.drop n := by
  induction n with
  | zero => rfl
  | succ n ih =>
    have hlength : ((l.take n).map f).length = n := by
      rw [List.length_map, List.length_take]
      omega
    have hsplit := modify_split ((l.take n).map f) (l.drop (n + 1)) l[n] f
    rw [hlength] at hsplit
    rw [List.range_succ, List.foldl_append, List.foldl_cons, List.foldl_nil, ih (by omega),
      List.drop_eq_getElem_cons h, hsplit, List.take_succ_eq_append_getElem h, List.map_append,
      List.map_singleton, List.append_assoc, List.singleton_append]

namespace Record

variable {x : Record} {command : Command}

/-- Both lists of a record refer to the sections that were made for it, each once and in order. -/
structure Sound (x : Record) : Prop where
  sections : x.sections = List.range x.store.length
  slots : x.slots.filterMap Handle.section? = x.sections

theorem Sound.lt (h : x.Sound) {id : Nat} (mem : .grouped id ∈ x.slots) : id < x.store.length := by
  have hid : id ∈ x.slots.filterMap Handle.section? := List.mem_filterMap.mpr ⟨_, mem, rfl⟩
  rw [h.slots, h.sections] at hid
  exact List.mem_range.mp hid

theorem sections_searched (x : Record) (command : Command) :
    (x.searched command).sections = x.sections.map x.sectionAt := by
  simp only [searched, Sources.sections, List.filterMap_map]
  rw [← List.filterMap_eq_map]
  rfl

theorem Sound.sections_view (h : x.Sound) (command : Command) :
    (x.view command).sections = x.sections.map x.sectionAt := by
  have hslot : ∀ handle, (x.slotOf handle).section? = handle.section?.map x.sectionAt := by
    rintro (a | id) <;> rfl
  simp only [view, Sources.sections, List.filterMap_map, ← h.slots, List.map_filterMap]
  exact List.filterMap_congr fun handle _ => hslot handle

theorem Sound.outline_searched (h : x.Sound) (command : Command) :
    (x.searched command).outline = (x.view command).outline := by
  have hsections : (x.searched command).sections = (x.view command).sections := by
    rw [sections_searched, h.sections_view]
  simp only [Sources.outline, hsections]
  rfl

theorem Sound.addSection (h : x.Sound) (g : Section) : (x.addSection g).Sound := by
  refine ⟨?_, ?_⟩
  · simp [Record.addSection, h.sections, List.range_succ]
  · simp [Record.addSection, h.slots, Handle.section?]

theorem Sound.view_addSection (h : x.Sound) (g : Section) (command : Command) :
    (x.addSection g).view command =
      { x.view command with slots := (x.view command).slots ++ [.grouped g] } := by
  have hold : ∀ handle ∈ x.slots, (x.addSection g).slotOf handle = x.slotOf handle := by
    rintro (a | id) hmem
    · rfl
    · exact congrArg Slot.grouped (getD_append_left [g] (h.lt hmem) _)
  have hnew : (x.addSection g).sectionAt x.store.length = g := getD_concat x.store g _
  have hslots : (x.addSection g).slots.map (x.addSection g).slotOf =
      x.slots.map x.slotOf ++ [.grouped g] := by
    have : (x.addSection g).slots = x.slots ++ [.grouped x.store.length] := rfl
    rw [this, List.map_append, List.map_congr_left hold, List.map_singleton, slotOf, hnew]
  simp only [view, hslots]
  rfl

theorem Sound.modify (h : x.Sound) (id : Nat) (f : Section → Section) : (x.modify id f).Sound :=
  ⟨by simpa [Record.modify] using h.sections, h.slots⟩

theorem Sound.marked (h : x.Sound) (dirty : Bool) : { x with dirty := dirty }.Sound :=
  ⟨h.sections, h.slots⟩

/-- The section at a position of the slots is the one at that position of the store. -/
theorem map_slotOf_modify (f : Section → Section) {slots : List Handle} {start n : Nat}
    (order : slots.filterMap Handle.section? =
      List.range' start (slots.filterMap Handle.section?).length)
    (h : start + n < x.store.length) :
    slots.map (x.modify (start + n) f).slotOf = Slot.modifySection f n (slots.map x.slotOf) := by
  have hat : ∀ id, (x.modify (start + n) f).sectionAt id =
      if start + n = id then f (x.sectionAt id) else x.sectionAt id := fun id =>
    getD_modify h f id _
  induction slots generalizing start n with
  | nil => rfl
  | cons handle slots ih =>
    cases handle with
    | plain a =>
      rw [List.map_cons, List.map_cons]
      exact congrArg (Slot.plain a :: ·) (ih order h hat)
    | grouped id =>
      simp only [List.filterMap_cons, Handle.section?, List.length_cons, List.range'_succ,
        List.cons.injEq] at order
      obtain ⟨rfl, order⟩ := order
      cases n with
      | zero =>
        -- the sections behind it are others
        have hrest : slots.map (x.modify (id + 0) f).slotOf = slots.map x.slotOf := by
          refine List.map_congr_left ?_
          rintro (a | other) hmem
          · rfl
          · have hother : other ∈ slots.filterMap Handle.section? :=
              List.mem_filterMap.mpr ⟨_, hmem, rfl⟩
            rw [order, List.mem_range'_1] at hother
            have hne : ¬ id + 0 = other := by omega
            simp only [slotOf, hat, if_neg hne]
        rw [List.map_cons, List.map_cons, hrest, slotOf, hat, if_pos (Nat.add_zero id)]
        rfl
      | succ n =>
        have hne : ¬ id + (n + 1) = id := by omega
        have hshift : id + (n + 1) = id + 1 + n := by omega
        rw [List.map_cons, List.map_cons, slotOf, hat, if_neg hne]
        rw [hshift] at h hat ⊢
        exact congrArg (Slot.grouped (x.sectionAt id) :: ·) (ih order h hat)

theorem Sound.view_modify (h : x.Sound) {n : Nat} (lt : n < x.store.length)
    (f : Section → Section) (command : Command) :
    (x.modify n f).view command = (x.view command).modifySection n f := by
  have order : x.slots.filterMap Handle.section? =
      List.range' 0 (x.slots.filterMap Handle.section?).length := by
    rw [h.slots, h.sections, List.length_range, List.range_eq_range']
  have hslots := map_slotOf_modify (x := x) (n := n) f order (by omega)
  rw [Nat.zero_add] at hslots
  simp only [view, Sources.modifySection, ← hslots]
  rfl

structure Grown (x x' : Record) (slots : List Slot) : Prop where
  sound : x'.Sound
  statement : x'.statement = x.statement
  view : ∀ command, x'.view command =
    { x.view command with slots := (x.view command).slots ++ slots }

theorem Sound.grown (h : x.Sound) : x.Grown x [] := ⟨h, rfl, fun command => by simp⟩

theorem Grown.trans {x' x'' : Record} {slots more : List Slot} (h : x.Grown x' slots)
    (k : x'.Grown x'' more) : x.Grown x'' (slots ++ more) :=
  ⟨k.sound, k.statement.trans h.statement, fun command => by
    rw [k.view, h.view, List.append_assoc]⟩

theorem Sound.grown_addPlain (h : x.Sound) (a : Argument) : x.Grown (x.addPlain a) [.plain a] := by
  refine ⟨⟨h.sections, ?_⟩, rfl, fun command => ?_⟩
  · simpa [addPlain, List.filterMap_cons, Handle.section?] using h.slots
  · have hslots : (x.addPlain a).slots.map (x.addPlain a).slotOf =
        x.slots.map x.slotOf ++ [.plain a] := by
      simp only [addPlain, List.map_append, List.map_singleton]
      rfl
    simp only [Record.view, hslots]
    rfl

theorem Sound.grown_addSection (h : x.Sound) (g : Section) :
    x.Grown (x.addSection g) [.grouped g] :=
  ⟨h.addSection g, rfl, h.view_addSection g⟩

theorem addFile_addSection (x : Record) (g : Section) (a : Argument) :
    (x.addSection g).addFile x.store.length a =
      x.addSection { g with files := g.files ++ [a] } := by
  have hstore := modify_split x.store [] g fun g => { g with files := g.files ++ [a] }
  simp only [addFile, modify, addSection, hstore]

section Reading

theorem readTarget_open (g : Section) (expectValue : Bool) (arguments : List Argument) :
    (x.addSection g).readTarget (some x.store.length) expectValue arguments =
      x.addSection { g with files := g.files ++ arguments } := by
  induction arguments generalizing g with
  | nil => simp [readTarget]
  | cons a rest ih =>
    rw [readTarget, addFile_addSection, ih]
    simp

variable (h : x.Sound)
include h

theorem grown_readListing_open (g : Section) (arguments : List Argument) :
    x.Grown ((x.addSection g).readListing (some x.store.length) arguments)
      (Classify.sectionSlots g arguments) := by
  induction arguments generalizing x g with
  | nil => exact h.grown_addSection g
  | cons a rest ih =>
    cases hkeyword : sectionKeyword? a with
    | some name =>
      simp only [readListing, hkeyword, Classify.sectionSlots]
      exact (h.grown_addSection g).trans (ih (h.addSection g) _)
    | none =>
      simp only [readListing, hkeyword, Classify.sectionSlots, addFile_addSection]
      exact ih h _

theorem grown_readListing (arguments : List Argument) :
    x.Grown (x.readListing none arguments) (Classify.leadingSlots arguments) := by
  induction arguments generalizing x with
  | nil => exact h.grown
  | cons a rest ih =>
    cases hkeyword : sectionKeyword? a with
    | some name =>
      simp only [readListing, hkeyword, Classify.leadingSlots]
      exact grown_readListing_open h _ rest
    | none =>
      simp only [readListing, hkeyword, Classify.leadingSlots]
      exact (h.grown_addPlain a).trans (ih (h.grown_addPlain a).sound)

theorem grown_readTarget (expectValue : Bool) (arguments : List Argument) :
    x.Grown (x.readTarget none expectValue arguments)
      (Classify.targetSlots expectValue arguments) := by
  induction arguments generalizing x expectValue with
  | nil => exact h.grown
  | cons a rest ih =>
    have plain : ∀ expectValue, x.Grown ((x.addPlain a).readTarget none expectValue rest)
        (.plain a :: Classify.targetSlots expectValue rest) := fun expectValue =>
      (h.grown_addPlain a).trans (ih (h.grown_addPlain a).sound expectValue)
    rw [readTarget, Classify.targetSlots]
    split
    · exact plain false
    split
    · exact plain false
    split
    · exact plain true
    split
    · exact plain false
    · rw [readTarget_open]
      exact h.grown_addSection _

theorem sound_collect : x.collect.Sound ∧ x.collect.statement = x.statement ∧
    ∀ command, x.collect.view command =
      { x.view command with slots := (x.view command).slots.map Classify.collect } := by
  have along : ∀ (ids : List Nat) (x : Record),
      ids.foldl (fun x id => x.modify id Section.collectDirectories) x =
        { x with store :=
            ids.foldl (fun store id => store.modify id Section.collectDirectories) x.store } := by
    intro ids
    induction ids with
    | nil => exact fun x => rfl
    | cons id ids ih => exact fun x => ih (x.modify id _)
  have hcollect : x.collect = { x with store := x.store.map Section.collectDirectories } := by
    rw [collect, along, h.sections, foldl_modify_range _ _ (Nat.le_refl _)]
    simp
  rw [hcollect]
  refine ⟨⟨by rw [List.length_map]; exact h.sections, h.slots⟩, rfl, fun command => ?_⟩
  have hslot : ∀ handle ∈ x.slots,
      slotOf { x with store := x.store.map Section.collectDirectories } handle =
        Classify.collect (x.slotOf handle) := by
    rintro (a | id) hmem
    · rfl
    · have hlt := h.lt hmem
      simp [slotOf, sectionAt, Classify.collect, List.getD_eq_getElem?_getD, hlt]
  simp only [view, List.map_congr_left hslot, List.map_map]
  rfl

end Reading

/-- The record of a statement shows the sources of that statement. -/
theorem ofStatement?_view (statement : Nat) (s : Statement) (line : Nat) (defaultSection : Text) :
    (ofStatement? statement s defaultSection).map (fun x => x.view s.command) =
      (Sources.ofStatement? s line defaultSection).1 ∧
    ∀ x, ofStatement? statement s defaultSection = some x →
      x.Sound ∧ x.statement = statement := by
  have hbare : ∀ first default, (bare statement first default).Sound := fun _ _ => ⟨rfl, rfl⟩
  unfold ofStatement? Sources.ofStatement?
  simp only
  split
  · cases s.arguments with
    | nil => simp
    | cons a rest =>
      simp only
      split
      · simp
      · have hread := grown_readListing (hbare a defaultSection.upper) rest
        obtain ⟨hsound, hstatement, hview⟩ := sound_collect hread.sound
        refine ⟨?_, ?_⟩
        · rw [Option.map_some, hview, hread.view]
          rfl
        · rintro x ⟨⟩
          exact ⟨hsound, hstatement.trans hread.statement⟩
  split
  · cases s.arguments with
    | nil => simp
    | cons a rest =>
      simp only
      split
      · simp
      split
      · simp
      · have hread := grown_readTarget (hbare a []) false rest
        obtain ⟨hsound, hstatement, hview⟩ := sound_collect hread.sound
        refine ⟨?_, ?_⟩
        · rw [Option.map_some, hview, hread.view]
          rfl
        · rintro x ⟨⟩
          exact ⟨hsound, hstatement.trans hread.statement⟩
  · split <;> simp

end Record

theorem modify_map {α β : Type} {ids : List α} (nodup : ids.Nodup) {n : Nat} {id : α}
    (h : ids[n]? = some id) {V V' : α → β} {g : β → β} (there : V' id = g (V id))
    (others : ∀ other ∈ ids, other ≠ id → V' other = V other) :
    (ids.map V).modify n g = ids.map V' := by
  obtain ⟨before, after, rfl, rfl⟩ := split_of_getElem? h
  obtain ⟨-, hafter, hdisjoint⟩ := List.nodup_append.mp nodup
  have hbefore : before.map V' = before.map V := List.map_congr_left fun other hmem =>
    others other (List.mem_append_left _ hmem) (hdisjoint other hmem id List.mem_cons_self)
  have hrest : after.map V' = after.map V := List.map_congr_left fun other hmem => by
    refine others other (List.mem_append_right _ (.tail _ hmem)) ?_
    rintro rfl
    exact (List.nodup_cons.mp hafter).1 hmem
  have hsplit := modify_split (before.map V) (after.map V) (V id) g
  rw [List.length_map] at hsplit
  rw [List.map_append, List.map_cons, hsplit, List.map_append, List.map_cons, hbefore, hrest, there]

namespace Document

theorem restoreTarget_map {target : Text} {ids : List Nat} {V V' : Nat → Sources}
    (others : ∀ id ∈ ids, (V id).target ≠ target → V' id = V id) :
    restoreTarget target (ids.map V) ((ids.filter fun id => (V id).target = target).map V') =
      ids.map V' := by
  induction ids with
  | nil => rfl
  | cons id ids ih =>
    have hrest := ih fun other hmem => others other (.tail _ hmem)
    by_cases h : (V id).target = target
    · rw [List.filter_cons_of_pos (by simpa using h)]
      simp only [List.map_cons, restoreTarget, if_pos h, hrest]
    · rw [List.filter_cons_of_neg (by simpa using h)]
      simp only [List.map_cons, restoreTarget, if_neg h, hrest, others id List.mem_cons_self h]

end Document

end Listfile
