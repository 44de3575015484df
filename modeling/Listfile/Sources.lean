import Listfile.Section
import Listfile.Statement

/-!
Statements that list the source files of a target, in the form in which they are edited: plain
arguments and sections in their order, so that the arguments can be given back.
-/

namespace Listfile

def defaultSeparator : Text := "\n    "

inductive Slot where
  | plain (a : Argument)
  | grouped (s : Section)
  deriving DecidableEq, Repr

def Slot.arguments : Slot → List Argument
  | plain a => [a]
  | grouped s => s.arguments

def Slot.section? : Slot → Option Section
  | plain _ => none
  | grouped s => some s

def Slot.modifySection (f : Section → Section) : Nat → List Slot → List Slot
  | _, [] => []
  | n, plain a :: rest => plain a :: Slot.modifySection f n rest
  | 0, grouped s :: rest => grouped (f s) :: rest
  | n + 1, grouped s :: rest => grouped s :: Slot.modifySection f n rest

structure Sources where
  command : Command
  target : Text
  slots : List Slot := []
  /-- The section for files that fit nowhere better. -/
  defaultSection : Text := []
  preferred : Bool := false
  /-- Whether the statement differs from the text it was read from. -/
  dirty : Bool := false
  deriving DecidableEq, Repr

namespace Sources

def sections (s : Sources) : List Section := s.slots.filterMap Slot.section?

def arguments (s : Sources) : List Argument := s.slots.flatMap Slot.arguments

def render (s : Sources) : Text := s.command.render s.arguments

/-- The names of the files, in order; arguments with an empty value are no files. -/
def fileNames (s : Sources) : List Text :=
  (s.sections.flatMap fun g => g.files.map (·.value)).filter fun v => !v.isEmpty

/-- The position of the last section with a name, in whatever case it is given. -/
def findSection? (s : Sources) (name : Text) : Option Nat :=
  go 0 none s.sections
where
  go (n : Nat) (found : Option Nat) : List Section → Option Nat
    | [] => found
    | g :: rest => go (n + 1) (if g.name = name.upper then some n else found) rest

def addSection (s : Sources) (name separator : Text) : Sources :=
  { s with slots := s.slots ++ [.grouped (Section.opened name separator)] }

def modifySection (s : Sources) (n : Nat) (f : Section → Section) : Sources :=
  { s with slots := Slot.modifySection f n s.slots }

end Sources

end Listfile
