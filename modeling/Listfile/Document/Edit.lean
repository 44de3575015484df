import Listfile.Document
import Listfile.Section.Sort

/-!
Adding, renaming and removing source files of a target. An edit that succeeds changes one section
of one statement, marks both the statement and the document, and calls every listener once.
-/

namespace Listfile

/-- The layout before a file that follows one with the given separator: the line break and
indentation at its end when it holds a comment, else the same, and never nothing. -/
def inheritSeparator (separator : Text) : Text :=
  if Section.hasComment separator then
    match separator.lastIndexOf? (.char '\n') with
    | some n => separator.drop n
    | none => " "
  else if separator.isEmpty then " "
  else separator

namespace Document

def restoreTarget (target : Text) : List Sources → List Sources → List Sources
  | [], _ => []
  | s :: rest, given =>
    if s.target = target then
      match given with
      | g :: more => g :: restoreTarget target rest more
      | [] => s :: restoreTarget target rest []
    else s :: restoreTarget target rest given

def withTarget (d : Document) (target : Text) (given : List Sources) : Document :=
  d.withSources (restoreTarget target d.sources given)

def notify (d : Document) : Document := { d with listeners := d.listeners.map (· + 1) }

/-- Changes one section of a target's sources and follows up on the change: the section is sorted
if the policy says so, the statement and the document are marked, and the listeners are called. A
section that cannot be sorted keeps the change, unmarked. -/
def changeSection (d : Document) (target : Text) (candidates : List Sources) (place : Address)
    (f : Section → Section) (events : List Event) : Reply Document Bool :=
  let changed := candidates.modify place.statement fun s => s.modifySection place.sectionIndex f
  let stuck := (Placement.section? changed place).any Section.isUnsortable
  if d.policy.sorting && stuck then
    ⟨d.withTarget target changed, .error .nullInValue, events⟩
  else
    let settleOrder := fun g : Section =>
      if d.policy.sorting then g.resort d.policy.collation else g
    let done := changed.modify place.statement fun s =>
      { s.modifySection place.sectionIndex settleOrder with dirty := true }
    ⟨{ d.withTarget target done with dirty := true }.notify, .ok true, events⟩

/-- The section that a hint asks for: a section keyword, or the section its kind prefers. -/
def preferredSection? (d : Document) (hint : Option Text) : Option Text :=
  match hint with
  | none => none
  | some kind =>
    if sectionKeywords.contains kind.upper then some kind.upper
    else (d.policy.sectionHints.find? fun h => h.1 = kind).map (·.2)

def newBlock (d : Document) (target : Text) : Sources :=
  { command := .named Classify.targetSources [] [] "\n"
    target := target
    slots := [.plain ⟨target, needsQuotation target, [], none⟩]
    defaultSection := d.policy.defaultSection }

/-- Adds a file at the end of a section. The layout before it is inherited from the last file. -/
def appendFile (separator file : Text) (s : Section) : Section :=
  let layout := match s.files.getLast? with
    | some last => inheritSeparator last.separator
    | none => separator
  { s with files := s.files ++ [⟨file, needsQuotation file, layout, none⟩] }

def addedEvents (candidates : List Sources) (place : Address) (file target : Text) : List Event :=
  match candidates[place.statement]?, Placement.section? candidates place with
  | some s, some g => [.fileAdded file s.command.name g.name target]
  | _, _ => []

def addTo (d : Document) (target file : Text) (hint : Option Text) (events : List Event) :
    Reply Document Bool :=
  let candidates := d.sourcesOf target
  match Placement.choose candidates file (d.preferredSection? hint) with
  | .error fault => ⟨d, .error fault, events⟩
  | .ok (choice, chosen) =>
    let (settled, place) := Placement.settle candidates choice d.policy.separator
    d.changeSection target settled place (appendFile d.policy.separator file)
      (events ++ chosen ++ addedEvents settled place file target)

def addFile (d : Document) (target file : Text) (hint : Option Text) : Reply Document Bool :=
  if !d.loaded then ⟨d, .ok false, [.notLoaded d.buffer.fileName]⟩
  else if file.isEmpty then ⟨d, .ok false, []⟩
  else if !(d.sourcesOf target).isEmpty then d.addTo target file hint []
  else if d.policy.creating then
    { d with pending := d.pending ++ [d.newBlock target] }.addTo target file hint
      [.blockCreated Classify.targetSources target]
  else ⟨d, .ok false, [.targetUnknown target d.buffer.fileName]⟩

/-- The first occurrence of a file among sources: its section and its position there. -/
def findFile? (candidates : List Sources) (file : Text) : Option (Address × Nat) :=
  (Placement.allSections candidates).findSome? fun p => (p.2.indexOf? file).map fun n => (p.1, n)

def changeFile (d : Document) (target file : Text) (f : Nat → Section → Section) :
    Reply Document Bool :=
  let candidates := d.sourcesOf target
  if candidates.isEmpty then ⟨d, .ok false, [.targetUnknown target d.buffer.fileName]⟩
  else
    match findFile? candidates file with
    | none => ⟨d, .ok false, [.fileUnlisted file target d.buffer.fileName]⟩
    | some (place, n) => d.changeSection target candidates place (f n) []

def renameArgument (name : Text) (a : Argument) : Argument :=
  { a.setValue name with quoted := a.quoted || needsQuotation name }

def renameFile (d : Document) (target old new : Text) : Reply Document Bool :=
  if !d.loaded then ⟨d, .ok false, [.notLoaded d.buffer.fileName]⟩
  else if new.isEmpty then ⟨d, .ok false, []⟩
  else
    d.changeFile target old fun n s => { s with files := s.files.modify n (renameArgument new) }

def removeFile (d : Document) (target file : Text) : Reply Document Bool :=
  if !d.loaded then ⟨d, .ok false, [.notLoaded d.buffer.fileName]⟩
  else d.changeFile target file fun n s => { s with files := s.files.eraseIdx n }

end Document

end Listfile
