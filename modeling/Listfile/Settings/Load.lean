import Listfile.Settings

/-!
Finding and loading the settings file: the one asked for, else the first in the working directory
and then in the home directory.
-/

namespace Listfile

namespace Settings

def fileNames : List Text := [".cmakelists-edit.yaml", ".cmakelists-edit.yml"]

def isFile (host : Host) (path : Text) : Bool :=
  !Buffer.hasNull path && host.files.isFile host.workDirectory path

/-- The home directory: what the environment says, without slashes at its end, or the host's
own. -/
def home (host : Host) : Text :=
  match host.setting? "HOME" with
  | none => host.homeDirectory
  | some directory =>
    let trimmed := (directory.reverse.dropWhile (· = .char '/')).reverse
    if trimmed.isEmpty then "/" else trimmed

def searchPaths (host : Host) : List Text :=
  [host.workDirectory, home host].flatMap fun directory =>
    fileNames.map fun name => Path.inside directory name

/-- The settings file. One that is asked for and is not there is not replaced by another. -/
def locate? (host : Host) (wanted : Option Text) : Option Text :=
  match wanted.filter fun path => !path.isEmpty with
  | some path => if isFile host path then some path else none
  | none => (searchPaths host).find? (isFile host)

/-- The data of a settings file; a file that cannot be read holds none. -/
def dataOf (host : Host) (path : Text) : Except Fault (List (Value × Value)) :=
  match host.files.read host.workDirectory path with
  | .error _ => .ok []
  | .ok bytes =>
    match Utf8.firstStray? bytes with
    | some stray => .error (.undecodable stray)
    | none => (host.settings bytes).mapError .value

def load (host : Host) (wanted : Option Text) : Except Fault Settings :=
  match locate? host wanted with
  | none => (ofData host.environment []).mapError .value
  | some path => do
    let data ← dataOf host path
    (ofData host.environment data).mapError .value

end Settings

end Listfile
