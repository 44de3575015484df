/-!
Text as the editor sees it: a list of glyphs. A glyph is a Unicode character or a stray byte, one
that belongs to no well-formed sequence of its file. Stray bytes are kept as they are, so that every
file can be read, edited and written back. Stray bytes count as the surrogates U+DC80 to U+DCFF; no
other surrogate is a glyph. No file has one when it is read, and a name with one cannot be written
to any, so names are texts without them.
-/

namespace Listfile

/-- One unit of text; `stray b` is the byte `128 + b`. -/
inductive Glyph where
  | char (c : Char)
  | stray (b : Fin 128)
  deriving DecidableEq, Repr

abbrev Text := List Glyph

namespace Glyph

instance : Coe Char Glyph := ⟨char⟩
instance : Inhabited Glyph := ⟨char ' '⟩

/-- The number that orders glyphs and names them in escapes: a stray byte counts as the
surrogate code point `0xDC00` plus the byte, which no character has. -/
def code : Glyph → Nat
  | char c => c.toNat
  | stray b => 0xDC80 + b.val

theorem code_char (c : Char) : (char c).code = c.toNat := rfl
theorem code_stray (b : Fin 128) : (stray b).code = 0xDC80 + b.val := rfl

theorem code_injective {g h : Glyph} (eq : g.code = h.code) : g = h := by
  cases g with
  | char c =>
    cases h with
    | char d =>
      have hv : c = d := by
        apply Char.ext
        exact UInt32.toNat.inj eq
      rw [hv]
    | stray b =>
      exfalso
      have hb := b.isLt
      have valid := c.valid
      simp only [code, Char.toNat] at eq
      simp only [UInt32.isValidChar, Nat.isValidChar] at valid
      omega
  | stray b =>
    cases h with
    | char d =>
      exfalso
      have hb := b.isLt
      have valid := d.valid
      simp only [code, Char.toNat] at eq
      simp only [UInt32.isValidChar, Nat.isValidChar] at valid
      omega
    | stray d =>
      have hv : b = d := by
        apply Fin.ext
        simp only [code] at eq
        omega
      rw [hv]

end Glyph

namespace Text

def ofString (s : String) : Text := s.toList.map Glyph.char

instance : Coe String Text := ⟨ofString⟩

def le : Text → Text → Bool
  | [], _ => true
  | _ :: _, [] => false
  | g :: s, h :: t => g.code < h.code || (g.code == h.code && le s t)

def ofNat (n : Nat) : Text := (Nat.toDigits 10 n).map Glyph.char

def ofInt (n : Int) : Text :=
  if n < 0 then Glyph.char '-' :: ofNat n.natAbs else ofNat n.natAbs

def join (separator : Text) : List Text → Text
  | [] => []
  | [t] => t
  | t :: u :: rest => t ++ separator ++ join separator (u :: rest)

def lastIndexOf? (g : Glyph) : Text → Option Nat
  | [] => none
  | h :: s =>
    match lastIndexOf? g s with
    | some n => some (n + 1)
    | none => if h = g then some 0 else none

/-- Resolves a slice end that may count from the end of the text, clamped to the text. -/
def clamp (length : Nat) (i : Int) : Nat :=
  if i < 0 then (i + length).toNat else min i.toNat length

/-- The glyphs from `start` up to `stop`. Ends beyond the text are clamped to it, a negative end
counts from the end of the text, and a stop before the start gives the empty text. -/
def slice (t : Text) (start stop : Int) : Text :=
  let a := clamp t.length start
  let b := clamp t.length stop
  (t.drop a).take (b - a)

def sliceFrom (t : Text) (start : Int) : Text := t.drop (clamp t.length start)

end Text

/-- Code points that are white space, as inclusive ranges. It ends an unquoted argument; only space,
tab, carriage return and newline may stand outside quotes, brackets and comments. -/
def blankRanges : List (Nat × Nat) :=
  [(0x09, 0x0D), (0x1C, 0x20), (0x85, 0x85), (0xA0, 0xA0), (0x1680, 0x1680), (0x2000, 0x200A),
    (0x2028, 0x2029), (0x202F, 0x202F), (0x205F, 0x205F), (0x3000, 0x3000)]

def inRanges (ranges : List (Nat × Nat)) (n : Nat) : Bool :=
  ranges.any fun r => r.1 ≤ n && n ≤ r.2

namespace Glyph

def isBlank (g : Glyph) : Bool := inRanges blankRanges g.code

def isSpace (g : Glyph) : Bool := g = ' ' || g = '\t' || g = '\r'

end Glyph

end Listfile
