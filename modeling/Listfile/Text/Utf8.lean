import Listfile.Text.Glyph

/-!
Bytes to text and back. A run of bytes is read as a character exactly when it is the encoding of
that character; every other byte becomes a stray glyph. Writing restores the bytes that were read.
-/

namespace Listfile

abbrev Bytes := List UInt8

namespace Utf8

def announced (lead : UInt8) : Nat :=
  if lead.toNat < 0x80 then 1
  else if lead.toNat < 0xE0 then 2
  else if lead.toNat < 0xF0 then 3
  else 4

/-- The number held by a sequence: the low bits of the lead byte, then six bits of each byte. -/
def payload : Bytes → Nat
  | [a] => a.toNat
  | [a, b] => a.toNat % 32 * 64 + b.toNat % 64
  | [a, b, c] => (a.toNat % 16 * 64 + b.toNat % 64) * 64 + c.toNat % 64
  | [a, b, c, d] => ((a.toNat % 8 * 64 + b.toNat % 64) * 64 + c.toNat % 64) * 64 + d.toNat % 64
  | _ => 0

def leading? : Bytes → Option (Char × Nat)
  | [] => none
  | a :: rest =>
    let unit := (a :: rest).take (announced a)
    let c := Char.ofNat (payload unit)
    if String.utf8EncodeChar c = unit then some (c, unit.length) else none

def strayOf (b : UInt8) : Glyph := .stray ⟨b.toNat % 128, Nat.mod_lt _ (by decide)⟩

/-- Reads bytes after passing over the first `skip` of them, the rest of a character. -/
def decodeFrom : Nat → Bytes → Text
  | _, [] => []
  | skip + 1, _ :: rest => decodeFrom skip rest
  | 0, a :: rest =>
    match leading? (a :: rest) with
    | some (c, n) => .char c :: decodeFrom (n - 1) rest
    | none => strayOf a :: decodeFrom 0 rest

def decode (bytes : Bytes) : Text := decodeFrom 0 bytes

def encodeGlyph : Glyph → Bytes
  | .char c => String.utf8EncodeChar c
  | .stray b => [UInt8.ofNat (128 + b.val)]

def encode (t : Text) : Bytes := t.flatMap encodeGlyph

/-- Text that a file can hold: reading back what it encodes to gives the same text. -/
def Stable (t : Text) : Prop := decode (encode t) = t

instance (t : Text) : Decidable (Stable t) := inferInstanceAs (Decidable (_ = _))

inductive Flaw where
  /-- No character starts with the byte. -/
  | badStart
  /-- The bytes start a character, and the next one does not go on with it. -/
  | badContinuation
  /-- The bytes start a character, and nothing follows. -/
  | cutOff
  deriving DecidableEq, Repr

structure Stray where
  bytes : Bytes
  offset : Nat
  flaw : Flaw
  deriving DecidableEq, Repr

def isContinuation (b : UInt8) : Bool := b.toNat / 64 = 2

/-- Whether a byte may follow a lead byte: the encoding is the shortest one, and it is the encoding
of a character. -/
def follows (lead b : UInt8) : Bool :=
  isContinuation b &&
    (if lead = 0xE0 then 0xA0 ≤ b.toNat
      else if lead = 0xED then b.toNat < 0xA0
      else if lead = 0xF0 then 0x90 ≤ b.toNat
      else if lead = 0xF4 then b.toNat < 0x90
      else true)

def continuations (lead : UInt8) : Bytes → Bytes
  | [] => []
  | b :: rest =>
    if follows lead b then b :: (rest.take (announced lead - 2)).takeWhile isContinuation else []

def strayAt (offset : Nat) (lead : UInt8) (rest : Bytes) : Stray :=
  if lead.toNat < 0xC2 || 0xF4 < lead.toNat then ⟨[lead], offset, .badStart⟩
  else
    let found := lead :: continuations lead rest
    ⟨found, offset, if found.length = rest.length + 1 then .cutOff else .badContinuation⟩

def firstStray? (bytes : Bytes) : Option Stray := go 0 0 bytes
where
  go : Nat → Nat → Bytes → Option Stray
    | _, _, [] => none
    | skip + 1, offset, _ :: rest => go skip (offset + 1) rest
    | 0, offset, a :: rest =>
      match leading? (a :: rest) with
      | some (_, n) => go (n - 1) (offset + 1) rest
      | none => some (strayAt offset a rest)

end Utf8

end Listfile
