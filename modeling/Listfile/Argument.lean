import Listfile.Text.Glyph

/-!
Arguments of a command: the value that a build reads, and the spelling that the file shows. An
argument that was read keeps its spelling, so that it is written back as it was.
-/

namespace Listfile

/-- Resolves backslash escapes: `n`, `r` and `t` name control characters, any other glyph stands
for itself, and a backslash at the very end is kept. -/
def unescape : Text → Text
  | [] => []
  | [g] => [g]
  | g :: h :: rest =>
    if g = '\\' then
      (if h = 'n' then Glyph.char '\n'
        else if h = 'r' then Glyph.char '\r'
        else if h = 't' then Glyph.char '\t'
        else h) :: unescape rest
    else g :: unescape (h :: rest)

inductive Delimiter where
  | none
  | quote
  | bracket
  deriving DecidableEq, Repr

/-- The text between bracket delimiters, less one newline at its head. The opening delimiter ends
at the second opening bracket, and the closing one is as long; none when there is no second. -/
def bracketBody? (t : Text) : Option Text :=
  match (t.drop 1).idxOf? (.char '[') with
  | none => none
  | some n =>
    let width := n + 2
    let body := (t.drop width).take (t.length - width - width)
    some (if body.head? = some (.char '\n') then body.drop 1 else body)

/-- One argument. The separator is the layout before it, comments included; `raw` is its spelling
in the file, present as long as the value is the one that was read. -/
structure Argument where
  value : Text
  quoted : Bool := false
  separator : Text := []
  raw : Option Text := none
  deriving DecidableEq, Repr

namespace Argument

def ofSource? (delimiter : Delimiter) (separator text : Text) : Option Argument :=
  match delimiter with
  | .none => some ⟨unescape text, false, separator, some text⟩
  | .quote => some ⟨unescape ((text.drop 1).dropLast), true, separator, some text⟩
  | .bracket => (bracketBody? text).map fun value => ⟨value, false, separator, some text⟩

/-- The spelling without the separator. A value that was set is written as it is. -/
def sourceText (a : Argument) : Text :=
  match a.raw with
  | some text => text
  | none => if a.quoted then .char '"' :: a.value ++ [.char '"'] else a.value

def render (a : Argument) : Text := a.separator ++ a.sourceText

def matchesValue (a : Argument) (value : Text) : Bool := a.value = value

def setValue (a : Argument) (value : Text) : Argument := { a with value := value, raw := none }

/-- Layout and spelling play no part in whether two arguments are alike. -/
def alike (a b : Argument) : Bool := a.value = b.value && a.quoted = b.quoted

end Argument

def needsQuotation (name : Text) : Bool := name.contains (.char ' ')

end Listfile
