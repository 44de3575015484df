import Listfile.CommandLine

/-!
Usage and help texts of the program and its commands.
-/

namespace Listfile

namespace Help

def program (scope : Option Verb) : Text :=
  match scope with
  | none => "cmakelists-edit"
  | some v => Text.ofString "cmakelists-edit " ++ v.word

def lines (parts : List String) : Text := parts.flatMap fun p => Text.ofString p ++ [.char '\n']

def usage (scope : Option Verb) : Text :=
  match scope with
  | none =>
    lines ["usage: cmakelists-edit [-h] [-f FILE] [-t TARGET] [--sort] [--no-create]",
      "                       [--dry-run] [--config CONFIG] [-v]",
      "                       COMMAND ..."]
  | some .add => "usage: cmakelists-edit add [-h] files [files ...]\n"
  | some .delete => "usage: cmakelists-edit del [-h] files [files ...]\n"
  | some .rename => "usage: cmakelists-edit ren [-h] old new\n"
  | some .list => "usage: cmakelists-edit list [-h]\n"

def details (scope : Option Verb) : Text :=
  match scope with
  | none =>
    lines ["",
      "Add, rename and remove source files in a CMakeLists file",
      "",
      "positional arguments:",
      "  COMMAND",
      "    add                 Add source files",
      "    del                 Remove source files",
      "    ren                 Rename a source file",
      "    list                List targets and their source files",
      "",
      "options:",
      "  -h, --help            show this help message and exit",
      "  -f FILE, --file FILE  Listfile to edit (default: CMakeLists.txt)",
      "  -t TARGET, --target TARGET",
      "                        Target whose sources are edited (default: from config)",
      "  --sort                Sort the section after adding/renaming a file",
      "  --no-create           Fail instead of creating a target_sources block for",
      "                        unknown targets",
      "  --dry-run             Print the resulting file instead of saving it",
      "  --config CONFIG       Path to .cmakelists-edit.yaml config file",
      "  -v, --verbose         Enable debug logging"]
  | some .add =>
    lines ["",
      "positional arguments:",
      "  files       Files to add",
      "",
      "options:",
      "  -h, --help  show this help message and exit"]
  | some .delete =>
    lines ["",
      "positional arguments:",
      "  files       Files to remove",
      "",
      "options:",
      "  -h, --help  show this help message and exit"]
  | some .rename =>
    lines ["",
      "positional arguments:",
      "  old         Current file name",
      "  new         New file name",
      "",
      "options:",
      "  -h, --help  show this help message and exit"]
  | some .list =>
    lines ["",
      "options:",
      "  -h, --help  show this help message and exit"]

def full (scope : Option Verb) : Text := usage scope ++ details scope

def refusal (scope : Option Verb) (fault : UsageFault) : Text :=
  usage scope ++ program scope ++ Text.ofString ": error: " ++ fault.message ++ [.char '\n']

end Help

end Listfile
