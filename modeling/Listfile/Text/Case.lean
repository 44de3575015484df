import Listfile.Text.Glyph
import Listfile.Text.CaseTable

/-!
Upper and lower case of a text by the full mappings of the Unicode standard. One letter may become
several, and a capital sigma at the end of a word has a small form of its own.
-/

namespace Listfile

def caseMap (expansions : List (Nat × List Nat)) (runs : List CaseRun) (n : Nat) : List Nat :=
  match expansions.find? fun e => e.1 == n with
  | some e => e.2
  | none =>
    match runs.find? fun r => r.covers n with
    | some r => [((n : Int) + r.shift).toNat]
    | none => [n]

namespace Glyph

def toUpper : Glyph → Text
  | char c =>
    if c.toNat < 0x80 then [char c.toUpper]
    else (caseMap upperExpansions upperRuns c.toNat).map fun n => char (Char.ofNat n)
  | stray b => [stray b]

def toLower : Glyph → Text
  | char c =>
    if c.toNat < 0x80 then [char c.toLower]
    else (caseMap lowerExpansions lowerRuns c.toNat).map fun n => char (Char.ofNat n)
  | stray b => [stray b]

def isCased (g : Glyph) : Bool := inRanges casedRanges g.code

def isCaseIgnorable (g : Glyph) : Bool := inRanges caseIgnorableRanges g.code

end Glyph

namespace Text

def upper (t : Text) : Text := t.flatMap Glyph.toUpper

def meetsCased (t : Text) : Bool :=
  match t.dropWhile Glyph.isCaseIgnorable with
  | [] => false
  | g :: _ => g.isCased

/-- Lower case of a text whose glyphs before it are given, the nearest first. -/
def lowerAfter (before : Text) : Text → Text
  | [] => []
  | g :: rest =>
    let small :=
      if g = Glyph.char 'Σ' then
        if meetsCased before && !meetsCased rest then [Glyph.char 'ς'] else [Glyph.char 'σ']
      else g.toLower
    small ++ lowerAfter (g :: before) rest

def lower (t : Text) : Text := lowerAfter [] t

end Text

end Listfile
