import Listfile.FileSystem
import Listfile.Settings.Yaml

/-!
The surroundings of a run: the files and the directories it works in, the environment, and what the
system does that the files do not show. It may refuse a call for reasons of its own, such as missing
rights, a full disk or another device; a stream may be unable to encode a text; and a locale may be
installed or not.
-/

namespace Listfile

/-- The calls that the system may refuse. Those of a save are listed in the order in which they are
made. -/
inductive SystemCall where
  | load
  | create
  | fill
  | inspect
  | inspectInside
  | move
  | overwrite
  | copy
  | copyAttributes
  | discard
  | cleanUp
  deriving DecidableEq, Repr

structure Refusal where
  message : Text
  /-- How many bytes had been written by then. -/
  written : Nat := 0
  deriving DecidableEq, Repr

def plainLocales : List Text := ["C", "POSIX", "C.UTF-8", "C.utf8"]

def plainCollation? (locale : Text) : Option (Text → Text) :=
  if plainLocales.contains locale then some id else none

structure Host where
  files : FileSystem := {}
  workDirectory : Text := "/"
  homeDirectory : Text := "/"
  environment : List (Text × Text) := []
  refusal? : SystemCall → Option Refusal := fun _ => none
  /-- What standard output answers to a text that it cannot encode. -/
  unprintable? : Text → Option Text := fun _ => none
  /-- The key by which a locale sorts, if it is installed. -/
  collation? : Text → Option (Text → Text) := plainCollation?
  /-- The data that the bytes of a settings file stand for. -/
  settings : Bytes → Except ValueFault (List (Value × Value)) := Yaml.settings

namespace Host

def setting? (h : Host) (name : Text) : Option Text :=
  (h.environment.find? fun v => v.1 = name).map (·.2)

def find? (h : Host) (call : SystemCall) (files : FileSystem) (path : Text) : Option Entry :=
  if (h.refusal? call).isSome then none else files.find? h.workDirectory path

/-- Opens a file and writes bytes to it. A call that fails leaves what was written so far. -/
def write (h : Host) (opening filling : SystemCall) (files : FileSystem) (path : Text)
    (content : Bytes) : Except (FileSystem × FileProblem) FileSystem :=
  match h.refusal? opening, h.refusal? filling with
  | some r, _ => .error (files, .refused r.message)
  | none, some r =>
    match files.write h.workDirectory path (content.take r.written) with
    | .error problem => .error (files, problem)
    | .ok begun => .error (begun, .refused r.message)
  | none, none =>
    match files.write h.workDirectory path content with
    | .error problem => .error (files, problem)
    | .ok done => .ok done

def unlink (h : Host) (call : SystemCall) (files : FileSystem) (path : Text) :
    Except (FileSystem × FileProblem) FileSystem :=
  match h.refusal? call with
  | some r => .error (files, .refused r.message)
  | none =>
    match files.unlink h.workDirectory path with
    | .error obstacle => .error (files, .blocked obstacle path)
    | .ok done => .ok done

end Host

end Listfile
