import Listfile.Settings.Value
import Listfile.Text.Printable
import Listfile.Text.Utf8

/-!
Failures that end an operation without an answer. Whatever the operation had done before is kept.
-/

namespace Listfile

inductive Fault where
  /-- A default section that is none of the section keywords. -/
  | unknownSection (name : Text)
  /-- A file is to be placed, and there is no statement to place it in. -/
  | noCandidates
  /-- A value with a null character cannot be sorted. -/
  | nullInValue
  /-- A file name with a null character cannot be opened. -/
  | nullInFileName
  /-- A statement is expected on a line that the text does not have. -/
  | missingLine
  /-- A settings file holds bytes that are part of no character. -/
  | undecodable (stray : Utf8.Stray)
  /-- A value of a settings file that cannot be read or shown. -/
  | value (f : ValueFault)
  /-- A text that standard output cannot encode. -/
  | unencodable (message : Text)
  deriving DecidableEq, Repr

def flawText : Utf8.Flaw → Text
  | .badStart => "invalid start byte"
  | .badContinuation => "invalid continuation byte"
  | .cutOff => "unexpected end of data"

/-- The bytes and their place. Bytes that are cut off are all that is left of the file, and their
place is counted from the first of them. -/
def strayPlace (stray : Utf8.Stray) : Text :=
  let first := if stray.flaw = .cutOff then 0 else stray.offset
  match stray.bytes with
  | [b] =>
    Text.ofString "byte 0x" ++ Text.hex 2 b.toNat ++ Text.ofString " in position " ++
      Text.ofNat first
  | bytes =>
    Text.ofString "bytes in position " ++ Text.ofNat first ++ Text.ofString "-" ++
      Text.ofNat (first + bytes.length - 1)

def Fault.message : Fault → Text
  | unknownSection name => Text.ofString "not a section keyword: " ++ name.quoted
  | noCandidates => "find_insert_section needs at least one statement"
  | nullInValue => "embedded null character"
  | nullInFileName => "embedded null byte"
  | missingLine => "list index out of range"
  | undecodable stray =>
    Text.ofString "'utf-8' codec can't decode " ++ strayPlace stray ++ Text.ofString ": " ++
      flawText stray.flaw
  | value f => f.message
  | unencodable message => message

end Listfile
