import Listfile.Position

/-!
The lexical units of a listfile. The texts of the tokens of a listfile, one after the other, are
the listfile.
-/

namespace Listfile

inductive TokenKind where
  | identifier
  | parenLeft
  | parenRight
  | argumentQuoted
  | argumentUnquoted
  | argumentBracket
  | space
  | newline
  | commentLine
  | commentBracket
  | badString
  | badBracket
  | badCharacter
  deriving DecidableEq, Repr

namespace TokenKind

def label : TokenKind → Text
  | identifier => "identifier"
  | parenLeft => "paren_left"
  | parenRight => "paren_right"
  | argumentQuoted => "argument_quoted"
  | argumentUnquoted => "argument_unquoted"
  | argumentBracket => "argument_bracket"
  | space => "space"
  | newline => "newline"
  | commentLine => "comment_line"
  | commentBracket => "comment_bracket"
  | badString => "bad_string"
  | badBracket => "bad_bracket"
  | badCharacter => "bad_character"

def isBad : TokenKind → Bool
  | badString | badBracket | badCharacter => true
  | _ => false

def isSeparator : TokenKind → Bool
  | space | newline | commentLine | commentBracket => true
  | _ => false

end TokenKind

structure Token where
  kind : TokenKind
  text : Text
  position : Position
  deriving DecidableEq, Repr

end Listfile
