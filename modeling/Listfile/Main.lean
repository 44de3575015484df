import Listfile.CommandLine.Run

/-!
The program on a real host. The files that a run may look at are read first, the run itself is
computed, and what it changed is written back, each file in one step.
-/

namespace Listfile

namespace Shell

def stringOf (t : Text) : String :=
  (String.fromUTF8? ⟨(Utf8.encode t).toArray⟩).getD ""

def itemAt? (path : Text) : IO (Option Item) := do
  try
    let content ← IO.FS.readBinFile (stringOf path)
    return some (.file content.data.toList)
  catch
    | .inappropriateType .. => return some .directory
    | _ => return none

def pathsOf (host : Host) (words : List Text) : List Text :=
  match Request.ofWords words with
  | .run i =>
    let asked := (i.file :: i.config.toList).map (Path.absolute host.workDirectory)
    asked ++ asked.map (· ++ Buffer.temporarySuffix) ++ Settings.searchPaths host
  | _ => []

def snapshot (host : Host) (paths : List Text) : IO Host := do
  let mut files := host.files.install ((Path.parts host.workDirectory).map Utf8.encode) .directory
  for path in paths do
    if let some item ← itemAt? path then
      files := files.install ((Path.parts path).map Utf8.encode) item
  return { host with files := files }

def commit (before after : FileSystem) : IO Unit := do
  for (path, _) in after.entries do
    if let some (.file content) := after.item? path then
      if before.item? path ≠ some (.file content) then
        let name := stringOf (Text.ofString "/" ++ FileSystem.pathText path)
        let temporary := name ++ stringOf Buffer.temporarySuffix
        IO.FS.writeBinFile temporary ⟨content.toArray⟩
        IO.FS.rename temporary name

def variableNames : List Text :=
  Run.localeVariables ++ (["sort", "create_blocks", "default_section", "default_separator",
    "default_target"] : List Text).map fun name => Settings.variablePrefix ++ name.upper

def environment : IO (List (Text × Text)) := do
  let mut found := []
  for name in variableNames do
    if let some value ← IO.getEnv (stringOf name) then
      found := found ++ [(name, Text.ofString value)]
  return found

def emit (stream : IO.FS.Stream) (t : Text) : IO Unit :=
  stream.write ⟨(Utf8.encode t).toArray⟩

end Shell

end Listfile

open Listfile

def main (arguments : List String) : IO UInt32 := do
  let words := arguments.map Text.ofString
  let here := Text.ofString (← IO.currentDir).toString
  let home := Text.ofString ((← IO.getEnv "HOME").getD "/")
  let bare : Host :=
    { files := {}, workDirectory := here, homeDirectory := home
      environment := ← Shell.environment }
  let host ← Shell.snapshot bare (Shell.pathsOf bare words)
  let outcome := Listfile.run host words
  Shell.commit host.files outcome.files
  Shell.emit (← IO.getStdout) outcome.console.stdout
  Shell.emit (← IO.getStderr) outcome.console.stderr
  match outcome.ending with
  | .returned code | .exited code => return code.toUInt32
  | .failed fault =>
    Shell.emit (← IO.getStderr) (fault.message ++ [.char '\n'])
    return 1
