import Listfile.CommandLine.Help
import Listfile.CommandLine.Parse
import Listfile.Document.Edit
import Listfile.Document.Write
import Listfile.FileKind
import Listfile.Settings.Load

/-!
A run of the program: from the words of a command line and the state of the host to what is shown,
what is left on disk and how the run ends.
-/

namespace Listfile

structure Console where
  stdout : Text := []
  stderr : Text := []
  deriving DecidableEq, Repr

namespace Console

/-- Prints texts in order, up to the first that the stream cannot encode. -/
def print (c : Console) (host : Host) : List Text → Console × Option Fault
  | [] => (c, none)
  | t :: rest =>
    match host.unprintable? t with
    | some message => (c, some (.unencodable message))
    | none => print { c with stdout := c.stdout ++ t } host rest

def complain (c : Console) (parts : List Text) : Console :=
  { c with stderr := c.stderr ++ parts.flatten ++ [.char '\n'] }

def log (c : Console) (verbose : Bool) (events : List Event) : Console :=
  let shown := events.filter fun e => verbose || e.level.isUrgent
  { c with stderr := c.stderr ++ shown.flatMap fun e => e.line ++ [.char '\n'] }

end Console

/-- How a run ends: with an exit code, refused or satisfied before it began, or by a fault. -/
inductive Ending where
  | returned (code : Nat)
  | exited (code : Nat)
  | failed (fault : Fault)
  deriving DecidableEq, Repr

structure Outcome where
  ending : Ending
  console : Console
  files : FileSystem
  deriving DecidableEq, Repr

def Outcome.printing (host : Host) (ending : Ending) (console : Console) (texts : List Text) :
    Outcome :=
  match console.print host texts with
  | (shown, none) => ⟨ending, shown, host.files⟩
  | (shown, some fault) => ⟨.failed fault, shown, host.files⟩

inductive Edit where
  | add (file : Text)
  | remove (file : Text)
  | rename (old new : Text)
  deriving DecidableEq, Repr

def Action.edits : Action → List Edit
  | add files => files.map Edit.add
  | delete files => files.map Edit.remove
  | rename old new => [.rename old new]
  | list => []

namespace Edit

/-- Carries out an edit; a file that is added prefers the section of its kind. -/
def apply (e : Edit) (target : Text) (d : Document) : Reply Document Bool :=
  match e with
  | add file => d.addFile target file ((FileKind.ofPath? file).map FileKind.label)
  | remove file => d.removeFile target file
  | rename old new => d.renameFile target old new

def complaint (e : Edit) (target : Text) : List Text :=
  match e with
  | add file => ["Could not add ", file, " to ", target]
  | remove file => ["Could not remove ", file, " from ", target]
  | rename old _ => ["Could not rename ", old, " in ", target]

end Edit

namespace Run

structure Progress where
  document : Document
  console : Console
  failures : Nat := 0

/-- Carries out edits in order; one that fails does not stop the others, a fault does. -/
def applyAll (verbose : Bool) (target : Text) (p : Progress) :
    List Edit → Progress × Option Fault
  | [] => (p, none)
  | e :: rest =>
    let reply := e.apply target p.document
    let console := p.console.log verbose reply.events
    match reply.result with
    | .error fault => (⟨reply.state, console, p.failures⟩, some fault)
    | .ok true => applyAll verbose target ⟨reply.state, console, p.failures⟩ rest
    | .ok false =>
      applyAll verbose target
        ⟨reply.state, console.complain (e.complaint target), p.failures + 1⟩ rest

def finish (host : Host) (i : Invocation) (p : Progress) : Outcome :=
  let code := if p.failures = 0 then 0 else 1
  if i.dryRun then
    let written := p.document.write
    match written.result with
    | .error fault => ⟨.failed fault, p.console, host.files⟩
    | .ok bytes => .printing host (.returned code) p.console [Utf8.decode bytes]
  else if p.document.dirty then
    let saved := p.document.save host
    let console := p.console.log i.verbose saved.events
    match saved.result with
    | .error fault => ⟨.failed fault, console, saved.state.2⟩
    | .ok true => ⟨.returned code, console, saved.state.2⟩
    | .ok false =>
      ⟨.returned 1, console.complain ["Could not save CMakeLists file ", i.file], saved.state.2⟩
  else ⟨.returned code, p.console, host.files⟩

def edit (host : Host) (i : Invocation) (target : Text) (d : Document) (console : Console) :
    Outcome :=
  match applyAll i.verbose target ⟨d, console, 0⟩ i.action.edits with
  | (p, some fault) => ⟨.failed fault, p.console, host.files⟩
  | (p, none) =>
    let logged := p.console.log i.verbose [.finished i.action.verb.word p.failures]
    finish host i { p with console := logged }

def listing (d : Document) (targets : List Text) : List Text :=
  targets.flatMap fun target =>
    let files := d.sourceFiles target
    [target, Text.ofString "  [", Text.ofNat files.length, Text.ofString " file(s)]\n"].flatten ::
      files.map fun file => Text.ofString "  " ++ file ++ [.char '\n']

/-- An empty value of an option or a setting counts as none. -/
def given (value : Option Text) : Option Text := value.filter fun t => !t.isEmpty

def onDocument (host : Host) (i : Invocation) (settings : Settings) (d : Document)
    (console : Console) : Outcome :=
  if i.action = .list then
    let targets := match given i.target with
      | some target => [target]
      | none => d.targets
    .printing host (.returned 0) console (listing d targets)
  else
    match (given i.target).or (given settings.defaultTarget) with
    | none =>
      ⟨.returned 1, console.complain ["No target specified (use --target)"], host.files⟩
    | some target => edit host i target d console

def localeVariables : List Text := ["LC_ALL", "LC_COLLATE", "LANG"]

def collationLocale? (host : Host) : Option Text :=
  localeVariables.findSome? fun name => given (host.setting? name)

/-- The key by which names are sorted. Without a locale that is installed they are sorted by
code. -/
def collation (host : Host) : Text → Text :=
  ((collationLocale? host).bind host.collation?).getD id

def localeEvents (host : Host) : List Event :=
  match collationLocale? host with
  | some name => if (host.collation? name).isSome then [] else [.localeUnsupported]
  | none => []

def onBuffer (host : Host) (i : Invocation) (settings : Settings) (buffer : Buffer)
    (console : Console) : Outcome :=
  let opened := Document.ofBuffer buffer (settings.policy (collation host))
  let console := console.log i.verbose opened.events
  if opened.state.loaded then
    let d := opened.state
    let d := if i.sort then d.setSorting true else d
    let d := if i.noCreate then d.setCreating false else d
    onDocument host i settings d console
  else
    ⟨.returned 1, console.complain ["Could not parse CMakeLists file ", i.file], host.files⟩

def invoke (host : Host) (i : Invocation) : Outcome :=
  let console := ({} : Console).log i.verbose (localeEvents host)
  match Settings.load host i.config with
  | .error fault => ⟨.failed fault, console, host.files⟩
  | .ok settings =>
    let loaded := ({ storage := .disk i.file } : Buffer).loadFrom host i.file
    let console := console.log i.verbose loaded.events
    match loaded.result with
    | .error fault => ⟨.failed fault, console, host.files⟩
    | .ok false =>
      ⟨.returned 1, console.complain ["Could not open CMakeLists file ", i.file], host.files⟩
    | .ok true => onBuffer host i settings loaded.state console

end Run

def run (host : Host) (words : List Text) : Outcome :=
  match Request.ofWords words with
  | .help scope => .printing host (.exited 0) {} [Help.full scope]
  | .refuse scope fault => ⟨.exited 2, { stderr := Help.refusal scope fault }, host.files⟩
  | .run i => Run.invoke host i

end Listfile
