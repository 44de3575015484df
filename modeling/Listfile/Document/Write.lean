import Listfile.Document

/-!
Writing a document. The text of the file is copied around its statements and for every statement
that did not change; the others are rendered, and created blocks follow at the end. The spans of
all statements then point into the text written.
-/

namespace Listfile

structure Draft where
  output : Text := []
  /-- The piece that was added last. -/
  lastPiece : Text := []
  /-- Where the next piece goes. -/
  length : Int := 0
  /-- How far the old text has been copied. -/
  cursor : Int := 0
  /-- The start and the length of each statement so far. -/
  marks : List (Int × Nat) := []
  deriving DecidableEq, Repr

namespace Draft

def add (r : Draft) (piece : Text) : Draft :=
  { r with output := r.output ++ piece, lastPiece := piece, length := r.length + piece.length }

def addStatement (r : Draft) (piece : Text) : Draft :=
  { r.add piece with marks := r.marks ++ [(r.length, piece.length)] }

/-- Copies the old text up to a statement and adds the statement: as it stands in the old text, or
rendered when it changed. None when the old text has no such line. -/
def addBlock? (old : Text) (starts : List Nat) (r : Draft) (b : Placed Block) : Option Draft :=
  match b.span.first.offset? starts, b.span.last.offset? starts with
  | some start, some last =>
    let stop := last + 1
    let piece := if b.item.isDirty then b.item.render else old.slice start stop
    some { (r.add (old.slice r.cursor start)).addStatement piece with cursor := stop }
  | _, _ => none

def addBlocks? (old : Text) (starts : List Nat) (r : Draft) : List (Placed Block) → Option Draft
  | [] => some r
  | b :: rest => (r.addBlock? old starts b).bind fun r => r.addBlocks? old starts rest

/-- Copies what is left of the old text. The length counts from the end of the old text, which
a statement that outlasts it lies beyond. -/
def addTail (old : Text) (r : Draft) : Draft :=
  let tail := old.sliceFrom r.cursor
  { r with
    output := r.output ++ tail, lastPiece := tail, length := r.length + (old.length - r.cursor) }

/-- Starts a new line unless there is none to end. -/
def breakLine (r : Draft) : Draft :=
  if r.length = 0 || r.lastPiece.getLast? = some (.char '\n') then r else r.add [.char '\n']

def addCreated (r : Draft) (s : Sources) : Draft :=
  let marked := r.breakLine.addStatement s.render
  { marked.add [.char '\n'] with lastPiece := s.render ++ [.char '\n'] }

def spanOf (starts : List Nat) (mark : Int × Nat) : Span :=
  ⟨.ofOffset starts mark.1, .ofOffset starts (mark.1 + mark.2 - 1)⟩

end Draft

namespace Document

/-- The text of the file after all edits; none when a statement's line is gone. -/
def draft? (d : Document) : Option Draft :=
  let old := Utf8.decode d.buffer.content
  (Draft.addBlocks? old (lineStarts old) {} d.blocks).map fun r =>
    d.pending.foldl Draft.addCreated (r.addTail old)

/-- The document after a draft has been written: created blocks are part of the file, nothing is
marked as changed, and the buffer is touched only if its bytes change. -/
def settleDraft (d : Document) (r : Draft) : Document :=
  let starts := lineStarts r.output
  let items := d.blocks.map (·.item) ++ d.pending.map Block.listing
  let blocks := List.zipWith (fun (m : Int × Nat) (b : Block) =>
    (⟨Draft.spanOf starts m, b.clean⟩ : Placed Block)) r.marks items
  let data := Utf8.encode r.output
  { d with
    dirty := false, blocks := blocks, pending := []
    buffer := if data = d.buffer.content then d.buffer else d.buffer.setContent data }

def write (d : Document) : Reply Document Bytes :=
  if d.loaded then
    match d.draft? with
    | some r => ⟨d.settleDraft r, .ok (Utf8.encode r.output), []⟩
    | none => ⟨d, .error .missingLine, []⟩
  else ⟨d, .ok d.buffer.content, []⟩

def save (d : Document) (host : Host) : Reply (Document × FileSystem) Bool :=
  if d.loaded then
    let written := d.write
    match written.result with
    | .error fault => ⟨(written.state, host.files), .error fault, written.events⟩
    | .ok _ =>
      let saved := written.state.buffer.save host
      ⟨({ written.state with buffer := saved.state.1 }, saved.state.2), saved.result,
        written.events ++ saved.events⟩
  else ⟨(d, host.files), .ok false, [.notLoaded d.buffer.fileName]⟩

end Document

end Listfile
