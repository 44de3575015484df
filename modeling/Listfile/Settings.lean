import Listfile.Buffer
import Listfile.Document
import Listfile.Settings.Value

/-!
The settings of the editor. An environment variable wins over a settings file, and the file over
the built-in default. A value that cannot be shown as a text is a fault where a text is wanted.
-/

namespace Listfile

structure Settings where
  sort : Bool := false
  createBlocks : Bool := true
  defaultSection : Text := "PRIVATE"
  separator : Text := defaultSeparator
  defaultTarget : Option Text := none
  /-- The section that files of a kind prefer, in the order of the settings file. -/
  sectionHints : List (Text × Text) := []
  deriving DecidableEq, Repr

namespace Settings

def variablePrefix : Text := "CMAKELISTS_EDIT_"

def fromEnvironment? (environment : List (Text × Text)) (name : Text) : Option Text :=
  (environment.find? fun v => v.1 = variablePrefix ++ name.upper).map (·.2)

def yesWords : List Text := ["1", "true", "yes", "on"]

def textSetting (environment : List (Text × Text)) (data : List (Value × Value)) (name : Text) :
    Except ValueFault (Option Text) :=
  match fromEnvironment? environment name, Value.get? data name with
  | some t, _ => .ok (some t)
  | none, some v => v.toText.map some
  | none, none => .ok none

def boolSetting? (environment : List (Text × Text)) (data : List (Value × Value)) (name : Text) :
    Option Bool :=
  match fromEnvironment? environment name with
  | some t => some (yesWords.contains t.lower)
  | none => (Value.get? data name).map Value.isTrue

/-- Sets the section that files of a kind prefer; a kind that is there keeps its place. -/
def putHint (kind name : Text) : List (Text × Text) → List (Text × Text)
  | [] => [(kind, name)]
  | (k, n) :: rest => if k = kind then (k, name) :: rest else (k, n) :: putHint kind name rest

/-- The hints of a mapping: entries that name no section are dropped, a later entry for the same
kind replaces an earlier one. -/
def hintsOf (hints : List (Text × Text)) :
    List (Value × Value) → Except ValueFault (List (Text × Text))
  | [] => .ok hints
  | (kind, section_) :: rest => do
    let name := (← section_.toText).upper
    if sectionKeywords.contains name then hintsOf (putHint (← kind.toText) name hints) rest
    else hintsOf hints rest

def ofData (environment : List (Text × Text)) (data : List (Value × Value)) :
    Except ValueFault Settings := do
  let defaults : Settings := {}
  let given ← textSetting environment data "default_section"
  let wanted := (given.getD defaults.defaultSection).upper
  let separator ← textSetting environment data "default_separator"
  let target ← textSetting environment data "default_target"
  let hints ← match Value.get? data "section_hints" with
    | some (.map entries) => hintsOf [] entries
    | _ => .ok []
  return {
    sort := (boolSetting? environment data "sort").getD defaults.sort
    createBlocks := (boolSetting? environment data "create_blocks").getD defaults.createBlocks
    defaultSection := if sectionKeywords.contains wanted then wanted else defaults.defaultSection
    separator := separator.getD defaults.separator
    defaultTarget := target
    sectionHints := hints }

def sectionFor? (s : Settings) (kind : Option Text) : Option Text :=
  kind.bind fun k => (s.sectionHints.find? fun h => h.1 = k).map (·.2)

def policy (s : Settings) (collation : Text → Text := id) : Policy :=
  { sorting := s.sort
    creating := s.createBlocks
    defaultSection := s.defaultSection
    separator := s.separator
    sectionHints := s.sectionHints
    collation := collation }

end Settings

end Listfile
