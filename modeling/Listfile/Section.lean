import Listfile.Argument
import Listfile.Text.Case

/-!
Sections: groups of source files inside a statement, named by a keyword or anonymous. A section
remembers the directories of the files it was read with; they decide where new files go.
-/

namespace Listfile

def sectionKeywords : List Text := ["PRIVATE", "PUBLIC", "INTERFACE"]

def directoryOf (name : Text) : Text :=
  match name.lastIndexOf? (.char '/') with
  | some n => name.take n
  | none => []

/-- The section that an argument opens; a quoted one opens none. -/
def sectionKeyword? (a : Argument) : Option Text :=
  if a.quoted then none
  else if sectionKeywords.contains a.value.upper then some a.value.upper
  else none

structure Section where
  name : Text
  keyword : Option Argument := none
  files : List Argument := []
  /-- Without repetition, in increasing order. -/
  directories : List Text := []
  deriving DecidableEq, Repr

def Text.insertSorted (t : Text) : List Text → List Text
  | [] => [t]
  | u :: rest =>
    if t = u then u :: rest
    else if t.le u then t :: u :: rest
    else u :: Text.insertSorted t rest

namespace Section

def fileDirectories (s : Section) : List Text :=
  ((s.files.map (·.value)).filter fun v => !v.isEmpty).map directoryOf

def collectDirectories (s : Section) : Section :=
  { s with directories := s.fileDirectories.foldr Text.insertSorted [] }

def indexOf? (s : Section) (name : Text) : Option Nat := s.files.findIdx? (·.matchesValue name)

def arguments (s : Section) : List Argument := s.keyword.toList ++ s.files

/-- A section without files, opened by its name in upper case unless that is empty. -/
def opened (name separator : Text) : Section :=
  let upper := name.upper
  { name := upper
    keyword := if upper.isEmpty then none else some ⟨upper, false, separator, none⟩ }

end Section

end Listfile
