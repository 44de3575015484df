import Listfile.FileSystem

/-!
What the editor reports while it works. Each event has a level, the part of the editor that it
comes from, and a message.
-/

namespace Listfile

inductive Level where
  | debug
  | info
  | warning
  | error
  deriving DecidableEq, Repr

def Level.label : Level → Text
  | debug => "DEBUG"
  | info => "INFO"
  | warning => "WARNING"
  | error => "ERROR"

def Level.isUrgent : Level → Bool
  | debug | info => false
  | warning | error => true

inductive Event where
  | parseFailed (command : Text) (line : Nat) (reason : Text)
  | notParsed (file : Text)
  | notLoaded (file : Text)
  | unsupported (command : Text) (line : Nat)
  | sourceless (command target : Text)
  | sectionIgnored (name target : Text)
  | sectionCreated (name command target : Text)
  | blockCreated (command target : Text)
  | fileAdded (file command sectionName target : Text)
  | targetUnknown (target file : Text)
  | fileUnlisted (name target file : Text)
  | cannotRead (file : Text) (problem : FileProblem)
  | cannotWrite (file : Text) (problem : FileProblem)
  | localeUnsupported
  | finished (command : Text) (failures : Nat)
  deriving DecidableEq, Repr

namespace Event

def level : Event → Level
  | parseFailed .. | notParsed .. | cannotRead .. | cannotWrite .. => .error
  | notLoaded .. | unsupported .. | targetUnknown .. | fileUnlisted .. => .warning
  | blockCreated .. => .info
  | sourceless .. | sectionIgnored .. | sectionCreated .. | fileAdded .. | localeUnsupported
  | finished .. => .debug

def origin : Event → Text
  | parseFailed .. => "cmakelists_edit.parser.statements"
  | unsupported .. | sourceless .. => "cmakelists_edit.editing.sources"
  | sectionIgnored .. | sectionCreated .. => "cmakelists_edit.editing.placement"
  | notParsed .. | notLoaded .. | blockCreated .. | fileAdded .. | targetUnknown ..
  | fileUnlisted .. => "cmakelists_edit.editing.listsfile"
  | cannotRead .. | cannotWrite .. => "cmakelists_edit.file_buffer"
  | localeUnsupported | finished .. => "cmakelists_edit.cli"

def say (parts : List Text) : Text := parts.flatten

def message : Event → Text
  | parseFailed command line reason =>
    say ["[CMakeParse] Error while parsing: ",
      if command.isEmpty then Text.ofString "<toplevel>" else command,
      " at line ", Text.ofNat line, ": ", reason]
  | notParsed file => say ["[CMakeEdit] Could not parse CMakeLists file ", file]
  | notLoaded file => say ["[CMakeEdit] CMakeLists file ", file, " is not loaded"]
  | unsupported command line =>
    say ["[CMakeEdit] ", command, " is not supported, statement at line ", Text.ofNat line,
      " is left untouched"]
  | sourceless command target =>
    say ["[CMakeEdit] ", command, "(", target, ") declares an imported or alias target"]
  | sectionIgnored name target =>
    say ["[CMakeEdit] No ", name, " section for ", target, ", placing unconstrained"]
  | sectionCreated name command target =>
    say ["[CMakeEdit] Created section ", name.quoted, " in ", command, "(", target, ")"]
  | blockCreated command target =>
    say ["[CMakeEdit] Creating ", command, " block for target ", target]
  | fileAdded file command sectionName target =>
    say ["[CMakeEdit] Added ", file, " to ", command, " section ", sectionName.quoted, " of ",
      target]
  | targetUnknown target file =>
    say ["[CMakeEdit] Target ", target, " not found in CMakeLists file ", file]
  | fileUnlisted name target file =>
    say ["[CMakeEdit] File ", name, " not listed for target ", target, " in ", file]
  | cannotRead file problem =>
    say ["[FileBuffer] Could not open ", file, " for reading: ", problem.message]
  | cannotWrite file problem => say ["[FileBuffer] Could not write ", file, ": ", problem.message]
  | localeUnsupported =>
    "[CMakeEdit] Could not set collation locale: unsupported locale setting"
  | finished command failures =>
    say ["[CMakeEdit] ", command, " finished with ", Text.ofNat failures, " failure(s)"]

def line (e : Event) : Text := say [e.level.label, "  ", e.origin, "  ", e.message]

end Event

end Listfile
