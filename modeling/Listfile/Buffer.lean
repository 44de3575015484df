import Listfile.Event
import Listfile.Fault
import Listfile.Host

/-!
Buffers: the bytes of a listfile on their way between a file and the editor. A buffer in memory
keeps its bytes; one on disk reads them from its file and saves them through a temporary file, which
takes the place of the old one only when it is complete. Where it cannot be moved there, it is
copied.
-/

namespace Listfile

/-- What an operation leaves behind: a state, an answer or the fault that ended it, and the events
it reported. -/
structure Reply (σ α : Type) where
  state : σ
  result : Except Fault α
  events : List Event := []

inductive Storage where
  | memory
  | disk (name : Text)
  deriving DecidableEq, Repr

structure Buffer where
  storage : Storage
  content : Bytes := []
  dirty : Bool := false
  deriving DecidableEq, Repr

namespace Buffer

def fileName (b : Buffer) : Text :=
  match b.storage with
  | .memory => "<bytes>"
  | .disk name => name

def setContent (b : Buffer) (content : Bytes) : Buffer :=
  { b with content := content, dirty := true }

def setFileName? (b : Buffer) (name : Text) : Option Buffer :=
  match b.storage with
  | .memory => none
  | .disk _ => some { b with storage := .disk name }

def hasNull (t : Text) : Bool := t.contains (.char '\x00')

def loadFrom (b : Buffer) (host : Host) (name : Text) : Reply Buffer Bool :=
  let clean := { b with dirty := false }
  if hasNull name then ⟨clean, .error .nullInFileName, []⟩
  else
    match host.refusal? .load, host.files.read host.workDirectory name with
    | some r, _ => ⟨clean, .ok false, [.cannotRead name (.refused r.message)]⟩
    | none, .ok content => ⟨{ clean with content := content }, .ok true, []⟩
    | none, .error problem => ⟨clean, .ok false, [.cannotRead name problem]⟩

def load? (b : Buffer) (host : Host) : Option (Reply Buffer Bool) :=
  match b.storage with
  | .memory => none
  | .disk name => some (b.loadFrom host name)

def temporarySuffix : Text := ".cmakelists_edit_tmp"

/-- Copies a file that cannot be moved, and removes it then. A link is made anew. -/
def copyOver (host : Host) (files : FileSystem) (source target : Text) (content : Bytes) :
    Except (FileSystem × FileProblem) FileSystem :=
  match files.readLink? host.workDirectory source with
  | some pointer =>
    match host.refusal? .overwrite, files.symlink host.workDirectory target pointer with
    | some r, _ => .error (files, .refused r.message)
    | none, .error obstacle => .error (files, .blockedOnto obstacle pointer target)
    | none, .ok linked => host.unlink .discard linked source
  | none =>
    if files.isSameFile host.workDirectory source target then
      .error (files, .sameFile source target)
    else
      match host.write .overwrite .copy files target content with
      | .error failed => .error failed
      | .ok copied =>
        match host.refusal? .copyAttributes with
        | some r => .error (copied, .refused r.message)
        | none => host.unlink .discard copied source

/-- Moves a file over another one, or copies it where the system does not move it. -/
def moveOver (host : Host) (files : FileSystem) (source target : Text) (content : Bytes) :
    Except (FileSystem × FileProblem) FileSystem :=
  match host.refusal? .move, files.rename host.workDirectory source target with
  | none, .ok moved => .ok moved
  | _, _ => copyOver host files source target content

/-- Puts a complete temporary file in the place of a path: over a file, or into a directory unless
the name is taken there. Where nothing is, it is moved and never copied. -/
def replace (host : Host) (files : FileSystem) (temporary path : Text) (content : Bytes) :
    Except (FileSystem × FileProblem) FileSystem :=
  match host.find? .inspect files path with
  | some .directory =>
    let target := Path.inside path (Path.baseName temporary)
    if (host.find? .inspectInside files target).isSome then .error (files, .taken target)
    else moveOver host files temporary target content
  | some _ => moveOver host files temporary path content
  | none =>
    match host.refusal? .move, files.rename host.workDirectory temporary path with
    | some r, _ => .error (files, .refused r.message)
    | none, .error obstacle => .error (files, .blockedOnto obstacle temporary path)
    | none, .ok moved => .ok moved

def cleanUp (host : Host) (files : FileSystem) (temporary : Text) : FileSystem :=
  match host.unlink .cleanUp files temporary with
  | .ok done => done
  | .error _ => files

def store (host : Host) (path : Text) (content : Bytes) : FileSystem × Option FileProblem :=
  let temporary := path ++ temporarySuffix
  match host.write .create .fill host.files temporary content with
  | .error (files, problem) => (cleanUp host files temporary, some problem)
  | .ok written =>
    match replace host written temporary path content with
    | .error (files, problem) => (cleanUp host files temporary, some problem)
    | .ok done => (done, none)

def save (b : Buffer) (host : Host) : Reply (Buffer × FileSystem) Bool :=
  match b.storage with
  | .memory => ⟨({ b with dirty := false }, host.files), .ok true, []⟩
  | .disk name =>
    if hasNull name then ⟨(b, host.files), .error .nullInFileName, []⟩
    else
      match store host (Path.absolute host.workDirectory name) b.content with
      | (files, none) => ⟨({ b with dirty := false }, files), .ok true, []⟩
      | (files, some problem) => ⟨(b, files), .ok false, [.cannotWrite name problem]⟩

end Buffer

end Listfile
