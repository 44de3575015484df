import Listfile.Event
import Listfile.Sources

/-!
Which statements list sources, and how their arguments divide into plain arguments and sections.
Each argument lands in exactly one slot, in order.
-/

namespace Listfile

namespace Classify

def targetSources : Text := "target_sources"

def targetCommands : List Text :=
  ["add_executable", "add_library", "qt_add_executable", "qt_add_library", "qt6_add_executable",
    "qt6_add_library"]

def moduleCommands : List Text := ["qt_add_qml_module", "qt6_add_qml_module"]

def targetModifiers : List Text :=
  ["WIN32", "MACOSX_BUNDLE", "EXCLUDE_FROM_ALL", "STATIC", "SHARED", "MODULE", "INTERFACE",
    "OBJECT", "MANUAL_FINALIZATION"]

/-- Keywords that are followed by a value, which is no file. -/
def valueKeywords : List Text := ["CLASS_NAME", "OUTPUT_TARGETS"]

def sourcelessKeywords : List Text := ["IMPORTED", "ALIAS"]

/-- The upper-case value of an argument that may be a keyword; a quoted one never is. -/
def keywordOf (a : Argument) : Text := if a.quoted then [] else a.value.upper

def collect (slot : Slot) : Slot :=
  match slot with
  | .plain a => .plain a
  | .grouped s => .grouped s.collectDirectories

/-- The slots of arguments after a section keyword: `current` is the open section. -/
def sectionSlots (current : Section) : List Argument → List Slot
  | [] => [.grouped current]
  | a :: rest =>
    match sectionKeyword? a with
    | some name => .grouped current :: sectionSlots { name := name, keyword := some a } rest
    | none => sectionSlots { current with files := current.files ++ [a] } rest

def leadingSlots : List Argument → List Slot
  | [] => []
  | a :: rest =>
    match sectionKeyword? a with
    | some name => sectionSlots { name := name, keyword := some a } rest
    | none => .plain a :: leadingSlots rest

/-- The slots of a target's arguments: keywords and their values, then one anonymous section from
the first file on. -/
def targetSlots (expectValue : Bool) : List Argument → List Slot
  | [] => []
  | a :: rest =>
    if expectValue then .plain a :: targetSlots false rest
    else if targetModifiers.contains (keywordOf a) then .plain a :: targetSlots false rest
    else if valueKeywords.contains (keywordOf a) then .plain a :: targetSlots true rest
    else if a.value.isEmpty then .plain a :: targetSlots false rest
    else [.grouped { name := [], files := a :: rest }]

def isSourceless (arguments : List Argument) : Bool :=
  arguments.any fun a => sourcelessKeywords.contains (keywordOf a)

end Classify

def Sources.ofStatement? (s : Statement) (line : Nat) (defaultSection : Text) :
    Option Sources × List Event :=
  let name := s.command.name
  if name = Classify.targetSources then
    match s.arguments with
    | [] => (none, [])
    | a :: rest =>
      if a.value.isEmpty then (none, [])
      else
        let slots := (Slot.plain a :: Classify.leadingSlots rest).map Classify.collect
        (some { command := s.command, target := a.value, slots := slots,
                defaultSection := defaultSection.upper }, [])
  else if Classify.targetCommands.contains name then
    match s.arguments with
    | [] => (none, [])
    | a :: rest =>
      if a.value.isEmpty then (none, [])
      else if Classify.isSourceless rest then (none, [.sourceless name a.value])
      else
        let slots := (Slot.plain a :: Classify.targetSlots false rest).map Classify.collect
        (some { command := s.command, target := a.value, slots := slots }, [])
  else if Classify.moduleCommands.contains name then (none, [.unsupported name line])
  else (none, [])

end Listfile
