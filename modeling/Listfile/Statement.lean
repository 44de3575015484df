import Listfile.Argument
import Listfile.Position
import Listfile.Text.Case

/-!
Command invocations. A command keeps its spelling and the layout around its parentheses, so that
an invocation renders as the text it was read from.
-/

namespace Listfile

/-- The name of a command in lower case, as it is spelled, and the layout before its opening and
its closing parenthesis. -/
structure Command where
  name : Text
  spelling : Text
  leading : Text := []
  trailing : Text := []
  deriving DecidableEq, Repr

def Command.named (name spelling leading trailing : Text) : Command :=
  ⟨name.lower, if spelling.isEmpty then name else spelling, leading, trailing⟩

def Command.render (c : Command) (arguments : List Argument) : Text :=
  c.spelling ++ c.leading ++ [.char '('] ++ arguments.flatMap Argument.render ++ c.trailing ++
    [.char ')']

structure Statement where
  command : Command
  arguments : List Argument := []
  deriving DecidableEq, Repr

def Statement.render (s : Statement) : Text := s.command.render s.arguments

structure Placed (α : Type) where
  span : Span
  item : α
  deriving DecidableEq, Repr

end Listfile
