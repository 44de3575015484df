import Listfile.Text.Case

/-!
Kinds of files, told by their extension. Settings may send files of a kind to a section.
-/

namespace Listfile

inductive FileKind where
  | header
  | source
  | resource
  | ui
  | qml
  | other
  deriving DecidableEq, Repr

namespace FileKind

def label : FileKind → Text
  | header => "header"
  | source => "source"
  | resource => "resource"
  | ui => "ui"
  | qml => "qml"
  | other => "other"

def extensions : List (Text × FileKind) :=
  [(".h", header), (".hh", header), (".hpp", header), (".hxx", header), (".inl", header),
    (".c", source), (".cc", source), (".cpp", source), (".cxx", source), (".c++", source),
    (".m", source), (".mm", source), (".cu", source), (".qrc", resource), (".rc", resource),
    (".ui", ui), (".qml", qml), (".js", qml)]

def baseName (path : Text) : Text :=
  match path.lastIndexOf? (.char '/') with
  | some n => path.drop (n + 1)
  | none => path

/-- From the last dot of the base name on. Dots at the head of the base name start no extension. -/
def extension (path : Text) : Text :=
  let base := baseName path
  match base.lastIndexOf? (.char '.') with
  | some n => if (base.take n).all (· = Glyph.char '.') then [] else base.drop n
  | none => []

def ofPath? (path : Text) : Option FileKind :=
  let ext := (extension path).lower
  if ext.isEmpty then none
  else some (((extensions.find? fun e => e.1 = ext).map (·.2)).getD other)

end FileKind

end Listfile
