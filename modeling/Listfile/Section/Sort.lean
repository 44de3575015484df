import Listfile.Section

/-!
Sorting the files of a section: those in subdirectories first, then by the keys that a collation
gives to their names. Separators move with their files, but the layout before the first file stays
there unless a comment is involved, which belongs to its file.
-/

namespace Listfile

namespace Section

def hasPathSeparator (value : Text) : Bool :=
  value.contains (.char '/') || value.contains (.char '\\')

def fileLe (key : Text → Text) (a b : Argument) : Bool :=
  if hasPathSeparator a.value = hasPathSeparator b.value then (key a.value).le (key b.value)
  else hasPathSeparator a.value

def insertFile (key : Text → Text) (a : Nat × Argument) :
    List (Nat × Argument) → List (Nat × Argument)
  | [] => [a]
  | b :: rest => if fileLe key a.2 b.2 then a :: b :: rest else b :: insertFile key a rest

/-- The files in order, each with its old position; files of one key keep their order. -/
def sortedFiles (key : Text → Text) (files : List Argument) : List (Nat × Argument) :=
  (files.mapIdx Prod.mk).foldr (insertFile key) []

def hasComment (separator : Text) : Bool := separator.contains (.char '#')

/-- Exchanges the separators of the file that was first and of the one that is first now. -/
def restoreLayout (oldFirst : Argument) : List (Nat × Argument) → List Argument
  | [] => []
  | (0, first) :: rest => first :: rest.map (·.2)
  | (_ + 1, first) :: rest =>
    if hasComment oldFirst.separator || hasComment first.separator then first :: rest.map (·.2)
    else
      { first with separator := oldFirst.separator } :: rest.map fun (n, a) =>
        if n = 0 then { a with separator := first.separator } else a

def sortFiles (key : Text → Text) : List Argument → List Argument
  | [] => []
  | first :: rest => restoreLayout first (sortedFiles key (first :: rest))

def resort (key : Text → Text) (s : Section) : Section := { s with files := sortFiles key s.files }

/-- Whether some file has a null character, which no collation takes. -/
def isUnsortable (s : Section) : Bool := s.files.any fun a => a.value.contains (.char '\x00')

end Section

end Listfile
