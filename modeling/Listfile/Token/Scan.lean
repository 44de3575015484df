import Listfile.Text.Glyph
import Listfile.Token

/-!
Scanning a text into tokens. The glyph at the head decides the kind of the next token, and each
kind has a function that measures how far it reaches. Scanning never fails: an unterminated quote
or bracket is a bad token up to the end of the text, any other misfit a bad token of one glyph.
-/

namespace Listfile

namespace Scan

/-- The level of the bracket that opens at the head: the number of equals signs inside it. -/
def bracketLevel? : Text → Option Nat
  | [] => none
  | g :: rest =>
    let level := (rest.takeWhile (· = Glyph.char '=')).length
    if g = '[' && rest[level]? = some (.char '[') then some level else none

def closer (level : Nat) : Text :=
  .char ']' :: List.replicate level (.char '=') ++ [.char ']']

def closerOffset? (level : Nat) : Text → Option Nat
  | [] => none
  | g :: rest =>
    if (closer level).isPrefixOf (g :: rest) then some 0
    else (closerOffset? level rest).map (· + 1)

def bracketLength? (t : Text) : Option Nat :=
  match bracketLevel? t with
  | none => none
  | some level => (closerOffset? level (t.drop (level + 2))).map (· + 2 * (level + 2))

/-- How many glyphs after an opening quote belong to it, the closing quote included. A backslash
takes the glyph after it along. -/
def quoteLength? : Text → Option Nat
  | [] => none
  | [g] => if g = '"' then some 1 else none
  | g :: h :: rest =>
    if g = '"' then some 1
    else if g = '\\' then (quoteLength? rest).map (· + 2)
    else (quoteLength? (h :: rest)).map (· + 1)

def isOrdinary (g : Glyph) : Bool :=
  !g.isBlank && !(g = '(') && !(g = ')') && !(g = '#') && !(g = '"') && !(g = '\\')

def unquotedLength : Text → Nat
  | [] => 0
  | [g] => if isOrdinary g then 1 else 0
  | g :: h :: rest =>
    if g = '\\' then
      if h = '\n' then 0 else unquotedLength rest + 2
    else if isOrdinary g then unquotedLength (h :: rest) + 1
    else 0

def isLetter (g : Glyph) : Bool :=
  (65 ≤ g.code && g.code ≤ 90) || (97 ≤ g.code && g.code ≤ 122) || g = '_'

def isDigit (g : Glyph) : Bool := 48 ≤ g.code && g.code ≤ 57

def isIdentifier : Text → Bool
  | [] => false
  | g :: rest => isLetter g && rest.all fun h => isLetter h || isDigit h

/-- The kind and the length of an unquoted argument, or of a glyph that starts nothing. -/
def wordLexeme (t : Text) : TokenKind × Nat :=
  match unquotedLength t with
  | 0 => (.badCharacter, 1)
  | n + 1 =>
    (if isIdentifier (t.take (n + 1)) then .identifier else .argumentUnquoted, n + 1)

def lexeme (g : Glyph) (rest : Text) : TokenKind × Nat :=
  if g = '#' then
    match bracketLength? rest with
    | some n => (.commentBracket, n + 1)
    | none =>
      if (bracketLevel? rest).isSome then (.badBracket, rest.length + 1)
      else (.commentLine, (rest.takeWhile fun h : Glyph => !(h = '\n')).length + 1)
  else if g = '[' && (bracketLevel? (g :: rest)).isSome then
    match bracketLength? (g :: rest) with
    | some n => (.argumentBracket, n)
    | none => (.badBracket, rest.length + 1)
  else if g = '"' then
    match quoteLength? rest with
    | some n => (.argumentQuoted, n + 1)
    | none => (.badString, rest.length + 1)
  else if g = '\n' then (.newline, 1)
  else if g.isSpace then (.space, (rest.takeWhile Glyph.isSpace).length + 1)
  else if g = '(' then (.parenLeft, 1)
  else if g = ')' then (.parenRight, 1)
  else wordLexeme (g :: rest)

/-- The tokens of a text that starts at `p`, after passing over its first `skip` glyphs, which
belong to a token already taken. -/
def tokensFrom (p : Position) : Nat → Text → List Token
  | _, [] => []
  | skip + 1, _ :: rest => tokensFrom p skip rest
  | 0, g :: rest =>
    let lexed := lexeme g rest
    let text := (g :: rest).take lexed.2
    ⟨lexed.1, text, p⟩ :: tokensFrom (p.advance text) (lexed.2 - 1) rest

end Scan

def Token.scan (t : Text) : List Token := Scan.tokensFrom .start 0 t

end Listfile
