import Listfile.Buffer
import Listfile.Placement
import Listfile.Sources.Classify
import Listfile.Statement.Parse

/-!
A listfile that is being edited: its statements in order, those that list sources in editable
form, and the blocks that were created and are not in the file yet. All sources, read or created,
form one list; every edit is a change of that list.
-/

namespace Listfile

inductive Block where
  | other (s : Statement)
  | listing (s : Sources)
  deriving DecidableEq, Repr

namespace Block

def name : Block → Text
  | other s => s.command.name
  | listing s => s.command.name

def sources? : Block → Option Sources
  | other _ => none
  | listing s => some s

def render : Block → Text
  | other s => s.render
  | listing s => s.render

def isDirty : Block → Bool
  | other _ => false
  | listing s => s.dirty

def clean : Block → Block
  | other s => other s
  | listing s => listing { s with dirty := false }

end Block

structure Policy where
  sorting : Bool := false
  creating : Bool := true
  defaultSection : Text := "PRIVATE"
  separator : Text := defaultSeparator
  /-- The section that files of a kind prefer. -/
  sectionHints : List (Text × Text) := []
  /-- The key by which names are sorted. -/
  collation : Text → Text := id

structure Document where
  buffer : Buffer
  policy : Policy := {}
  /-- How often each listener has been called. -/
  listeners : List Nat := []
  loaded : Bool := false
  dirty : Bool := false
  blocks : List (Placed Block) := []
  /-- Created blocks, which the next write appends. -/
  pending : List Sources := []

namespace Document

def classifyAll (defaultSection : Text) :
    List (Placed Statement) → List (Placed Block) × List Event
  | [] => ([], [])
  | p :: rest =>
    let (blocks, later) := classifyAll defaultSection rest
    let (found, now) := Sources.ofStatement? p.item p.span.first.line defaultSection
    let block : Block := match found with
      | some s => .listing s
      | none => .other p.item
    (⟨p.span, block⟩ :: blocks, now ++ later)

/-- The statements of a text, or none; a failure is reported, never raised. -/
def readStatements (t : Text) : Option (List (Placed Statement)) × List Event :=
  match Statement.parse t with
  | .ok statements => (some statements, [])
  | .error e => (none, [.parseFailed e.command e.line e.fault.message])

def reload (d : Document) : Reply Document Bool :=
  match readStatements (Utf8.decode d.buffer.content) with
  | (some statements, _) =>
    let (blocks, events) := classifyAll d.policy.defaultSection statements
    ⟨{ d with loaded := true, dirty := false, blocks := blocks, pending := [] }, .ok true, events⟩
  | (none, events) =>
    ⟨{ d with loaded := false, dirty := false, blocks := [], pending := [] }, .ok false,
      events ++ [.notParsed d.buffer.fileName]⟩

def ofBuffer (buffer : Buffer) (policy : Policy) : Reply Document Bool :=
  reload { buffer := buffer, policy := policy }

/-- All statements that list sources, in the order of the file, then the created ones. -/
def sources (d : Document) : List Sources :=
  d.blocks.filterMap (·.item.sources?) ++ d.pending

/-- Puts sources back into the blocks they come from; those left over are for no block. -/
def refill : List (Placed Block) → List Sources → List (Placed Block) × List Sources
  | [], left => ([], left)
  | b :: rest, given =>
    match b.item, given with
    | .listing _, s :: more =>
      let (blocks, left) := refill rest more
      (⟨b.span, .listing s⟩ :: blocks, left)
    | _, _ =>
      let (blocks, left) := refill rest given
      (b :: blocks, left)

def withSources (d : Document) (given : List Sources) : Document :=
  let (blocks, left) := refill d.blocks given
  { d with blocks := blocks, pending := left }

/-- Texts without repetition, in the order in which they first appear. -/
def distinct (texts : List Text) : List Text :=
  texts.foldl (fun seen t => if seen.contains t then seen else seen ++ [t]) []

def targets (d : Document) : List Text := distinct (d.sources.map (·.target))

def sourcesOf (d : Document) (target : Text) : List Sources :=
  d.sources.filter fun s => s.target = target

def sourceFiles (d : Document) (target : Text) : List Text :=
  (d.sourcesOf target).flatMap Sources.fileNames

def setSorting (d : Document) (on : Bool) : Document :=
  { d with policy := { d.policy with sorting := on } }

def setCreating (d : Document) (on : Bool) : Document :=
  { d with policy := { d.policy with creating := on } }

def addListener (d : Document) : Document := { d with listeners := d.listeners ++ [0] }

def calls (d : Document) : Nat := d.listeners.foldl (· + ·) 0

/-- Sets the section for files that fit nowhere better, also in the statements at hand. -/
def setDefaultSection (d : Document) (name : Text) : Reply Document Unit :=
  let name := name.upper
  if sectionKeywords.contains name then
    let renamed := d.sources.map fun s =>
      if s.command.name = Classify.targetSources then { s with defaultSection := name } else s
    let d := d.withSources renamed
    ⟨{ d with policy := { d.policy with defaultSection := name } }, .ok (), []⟩
  else ⟨d, .error (.unknownSection name), []⟩

end Document

end Listfile
