import Listfile.Statement
import Listfile.Text.Printable
import Listfile.Token.Scan

/-!
Statements from tokens. A reader walks the tokens once: outside statements it waits for an
identifier at the start of a line, after a name it waits for the parenthesis, and inside it collects
arguments until the parentheses balance. Nothing is recovered from: one misfit fails the listfile.
-/

namespace Listfile

inductive ParseFault where
  | strayToken (kind : TokenKind) (text : Text)
  | missingParen (spelling : Text) (found : TokenKind)
  | endAfterName (spelling : Text)
  | badInside (spelling : Text) (kind : TokenKind)
  | unterminated (spelling : Text)
  | brokenBracket
  deriving DecidableEq, Repr

/-- A refusal, the statement it happened in (empty outside statements) and its line. -/
structure ParseError where
  fault : ParseFault
  command : Text
  line : Nat
  deriving DecidableEq, Repr

def strayTextLimit : Nat := 20

def ParseFault.message : ParseFault → Text
  | strayToken kind text =>
    Text.ofString "unexpected " ++ kind.label ++ [.char ' '] ++
      Text.quoted (text.take strayTextLimit)
  | missingParen spelling found =>
    Text.ofString "expected '(' after " ++ spelling ++ Text.ofString ", got " ++ found.label
  | endAfterName spelling => Text.ofString "unexpected end of file after " ++ spelling
  | badInside spelling kind =>
    Text.ofString "unexpected " ++ kind.label ++ Text.ofString " inside " ++ spelling
  | unterminated spelling => Text.ofString "unterminated " ++ spelling
  | brokenBracket => "substring not found"

namespace Parse

structure Opening where
  spelling : Text
  first : Position
  leading : Text := []
  deriving DecidableEq, Repr

/-- Where in the listfile the reader stands. Outside, `mayOpen` says that no statement has been
opened on this line. Inside, `depth` counts the open parentheses that are arguments. -/
inductive Mode where
  | outside (mayOpen : Bool)
  | named (opening : Opening)
  | inside (opening : Opening) (depth : Nat) (separator : Text) (arguments : List Argument)
  deriving DecidableEq, Repr

structure State where
  done : List (Placed Statement) := []
  mode : Mode := .outside true
  lastLine : Nat := 0
  deriving DecidableEq, Repr

def delimiterOf : TokenKind → Delimiter
  | .argumentQuoted => .quote
  | .argumentBracket => .bracket
  | _ => .none

def Opening.command (o : Opening) (trailing : Text) : Command :=
  .named o.spelling [] o.leading trailing

def Opening.error (o : Opening) (fault : ParseFault) (line : Nat) : ParseError :=
  ⟨fault, o.spelling.lower, line⟩

def stepOutside (mayOpen : Bool) (t : Token) : Except ParseError Mode :=
  if t.kind.isBad then .error ⟨.strayToken t.kind t.text, [], t.position.line⟩
  else if t.kind = .newline then .ok (.outside true)
  else if t.kind = .identifier && mayOpen then .ok (.named ⟨t.text, t.position, []⟩)
  else .ok (.outside mayOpen)

def stepNamed (o : Opening) (t : Token) : Except ParseError Mode :=
  match t.kind with
  | .space => .ok (.named { o with leading := o.leading ++ t.text })
  | .parenLeft => .ok (.inside o 0 [] [])
  | kind => .error (o.error (.missingParen o.spelling kind) t.position.line)

def pushArgument (o : Opening) (depth : Nat) (separator : Text) (arguments : List Argument)
    (t : Token) : Except ParseError Mode :=
  match Argument.ofSource? (delimiterOf t.kind) separator t.text with
  | some a => .ok (.inside o depth [] (arguments ++ [a]))
  | none => .error (o.error .brokenBracket t.position.line)

def stepInside (o : Opening) (depth : Nat) (separator : Text) (arguments : List Argument)
    (t : Token) : Except ParseError Mode :=
  if t.kind.isSeparator then .ok (.inside o depth (separator ++ t.text) arguments)
  else if t.kind.isBad then .error (o.error (.badInside o.spelling t.kind) t.position.line)
  else if t.kind = .parenLeft then pushArgument o (depth + 1) separator arguments t
  else if t.kind = .parenRight then pushArgument o (depth - 1) separator arguments t
  else pushArgument o depth separator arguments t

def step (s : State) (t : Token) : Except ParseError State :=
  match s.mode with
  | .outside mayOpen => (stepOutside mayOpen t).map fun m => ⟨s.done, m, t.position.line⟩
  | .named o => (stepNamed o t).map fun m => ⟨s.done, m, t.position.line⟩
  | .inside o depth separator arguments =>
    if t.kind = .parenRight && depth = 0 then
      let statement : Statement := ⟨o.command separator, arguments⟩
      .ok ⟨s.done ++ [⟨⟨o.first, t.position⟩, statement⟩], .outside false, t.position.line⟩
    else
      (stepInside o depth separator arguments t).map fun m => ⟨s.done, m, t.position.line⟩

def run (s : State) : List Token → Except ParseError State
  | [] => .ok s
  | t :: rest =>
    match step s t with
    | .ok s' => run s' rest
    | .error e => .error e

def finish (s : State) : Except ParseError (List (Placed Statement)) :=
  match s.mode with
  | .outside _ => .ok s.done
  | .named o => .error (o.error (.endAfterName o.spelling) s.lastLine)
  | .inside o _ _ _ => .error (o.error (.unterminated o.spelling) s.lastLine)

end Parse

def Statement.ofTokens (tokens : List Token) : Except ParseError (List (Placed Statement)) :=
  match Parse.run {} tokens with
  | .ok s => Parse.finish s
  | .error e => .error e

def Statement.parse (t : Text) : Except ParseError (List (Placed Statement)) :=
  Statement.ofTokens (Token.scan t)

end Listfile
