import Listfile.CommandLine

/-!
Reading a command line. Each word is first told apart as an option, an argument or the double dash
after which everything is an argument. The program takes its options up to the first argument,
which names the command; the command takes the rest. Words that nobody takes are refused at the end.
-/

namespace Listfile

/-- Code points that are decimal digits, as inclusive ranges. A word that reads as a negative number
is no option. -/
def decimalRanges : List (Nat × Nat) :=
  [(0x30, 0x39), (0x660, 0x669), (0x6F0, 0x6F9), (0x7C0, 0x7C9), (0x966, 0x96F), (0x9E6, 0x9EF),
    (0xA66, 0xA6F), (0xAE6, 0xAEF), (0xB66, 0xB6F), (0xBE6, 0xBEF), (0xC66, 0xC6F),
    (0xCE6, 0xCEF), (0xD66, 0xD6F), (0xDE6, 0xDEF), (0xE50, 0xE59), (0xED0, 0xED9),
    (0xF20, 0xF29), (0x1040, 0x1049), (0x1090, 0x1099), (0x17E0, 0x17E9), (0x1810, 0x1819),
    (0x1946, 0x194F), (0x19D0, 0x19D9), (0x1A80, 0x1A89), (0x1A90, 0x1A99), (0x1B50, 0x1B59),
    (0x1BB0, 0x1BB9), (0x1C40, 0x1C49), (0x1C50, 0x1C59), (0xA620, 0xA629), (0xA8D0, 0xA8D9),
    (0xA900, 0xA909), (0xA9D0, 0xA9D9), (0xA9F0, 0xA9F9), (0xAA50, 0xAA59), (0xABF0, 0xABF9),
    (0xFF10, 0xFF19), (0x104A0, 0x104A9), (0x10D30, 0x10D39), (0x11066, 0x1106F),
    (0x110F0, 0x110F9), (0x11136, 0x1113F), (0x111D0, 0x111D9), (0x112F0, 0x112F9),
    (0x11450, 0x11459), (0x114D0, 0x114D9), (0x11650, 0x11659), (0x116C0, 0x116C9),
    (0x11730, 0x11739), (0x118E0, 0x118E9), (0x11950, 0x11959), (0x11C50, 0x11C59),
    (0x11D50, 0x11D59), (0x11DA0, 0x11DA9), (0x16A60, 0x16A69), (0x16AC0, 0x16AC9),
    (0x16B50, 0x16B59), (0x1D7CE, 0x1D7FF), (0x1E140, 0x1E149), (0x1E2F0, 0x1E2F9),
    (0x1E950, 0x1E959), (0x1FBF0, 0x1FBF9)]

def Glyph.isDecimal (g : Glyph) : Bool := inRanges decimalRanges g.code

namespace CommandLine

/-- An option as it is spelled in a word: the flag, the name it was found by, and the value joined
to it. -/
structure Spelled where
  flag : Flag
  name : Text
  value : Option Text := none
  deriving DecidableEq, Repr

inductive WordKind where
  | argument
  | dashes
  | option (spelled : Spelled)
  | unknownOption
  deriving DecidableEq, Repr

def doubleDash : Text := "--"

def allNames (flags : List Flag) : List (Text × Flag) :=
  flags.flatMap fun f => f.names.map fun n => (n, f)

def findFlag? (flags : List Flag) (name : Text) : Option Flag :=
  ((allNames flags).find? fun n => n.1 = name).map (·.2)

def splitValue (word : Text) : Text × Option Text :=
  let name := word.takeWhile fun g : Glyph => !(g = '=')
  match word.drop name.length with
  | [] => (name, none)
  | _ :: value => (name, some value)

/-- The readings of a word as an abbreviated long option, or as a short one joined to its value. -/
def readings (flags : List Flag) (word : Text) : List Spelled :=
  if (word.take 2) = doubleDash then
    let (name, value) := splitValue word
    (allNames flags).filterMap fun n =>
      if name.isPrefixOf n.1 then some ⟨n.2, n.1, value⟩ else none
  else
    (allNames flags).filterMap fun n =>
      if n.1 = word.take 2 then some ⟨n.2, n.1, some (word.drop 2)⟩
      else if word.isPrefixOf n.1 then some ⟨n.2, n.1, none⟩
      else none

def isNegativeNumber : Text → Bool
  | [] => false
  | g :: rest =>
    let body := if rest.getLast? = some (.char '\n') then rest.dropLast else rest
    let whole := body.takeWhile Glyph.isDecimal
    g = '-' &&
      match body.drop whole.length with
      | [] => !whole.isEmpty
      | h :: part => h = '.' && !part.isEmpty && part.all Glyph.isDecimal

def kindOf (flags : List Flag) (word : Text) : Except UsageFault WordKind :=
  if !(word.head? = some (.char '-')) then .ok .argument
  else
    match findFlag? flags word with
    | some f => .ok (.option ⟨f, word, none⟩)
    | none =>
      if word.length = 1 then .ok .argument
      else
        match splitValue word with
        | (name, some value) =>
          match findFlag? flags name with
          | some f => .ok (.option ⟨f, name, some value⟩)
          | none => byReadings
        | (_, none) => byReadings
where
  byReadings : Except UsageFault WordKind :=
    match readings flags word with
    | [s] => .ok (.option s)
    | s :: t :: more => .error (.ambiguous word ((s :: t :: more).map (·.name)))
    | [] =>
      if isNegativeNumber word || word.contains (.char ' ') then .ok .argument
      else .ok .unknownOption

def classify (flags : List Flag) : List Text → Except UsageFault (List (Text × WordKind))
  | [] => .ok []
  | w :: rest =>
    if w = doubleDash then .ok ((w, .dashes) :: rest.map fun r => (r, .argument))
    else
      match kindOf flags w, classify flags rest with
      | .error e, _ => .error e
      | .ok _, .error e => .error e
      | .ok k, .ok more => .ok ((w, k) :: more)

def bundle (flags : List Flag) (flag : Flag) : Text → Except UsageFault (List Flag × Option Spelled)
  | [] => .ok ([flag], none)
  | g :: rest =>
    match findFlag? flags [.char '-', g] with
    | none => .error (.valueUnwanted flag (g :: rest))
    | some next =>
      if next.takesValue then
        .ok ([flag], some ⟨next, [.char '-', g], if rest.isEmpty then none else some rest⟩)
      else (bundle flags next rest).map fun (fs, s) => (flag :: fs, s)

def unbundle (flags : List Flag) (s : Spelled) : Except UsageFault (List Flag × Option Spelled) :=
  if s.flag.takesValue then .ok ([], some s)
  else
    match s.value with
    | none => .ok ([s.flag], none)
    | some value =>
      if s.name.length = 2 && !value.isEmpty then bundle flags s.flag value
      else .error (.valueUnwanted s.flag value)

/-- Takes an option and the words that belong to it: the flags it sets, each with its value. -/
def takeOption (flags : List Flag) (s : Spelled) (rest : List (Text × WordKind)) :
    Except UsageFault (List (Flag × Text) × List (Text × WordKind)) :=
  match unbundle flags s with
  | .error e => .error e
  | .ok (set, none) => .ok (set.map fun f => (f, []), rest)
  | .ok (set, some last) =>
    let before := set.map fun f => (f, [])
    match last.value with
    | some value => .ok (before ++ [(last.flag, value)], rest)
    | none =>
      match rest with
      | (w, .argument) :: more => .ok (before ++ [(last.flag, w)], more)
      | _ => .error (.valueMissing last.flag)

def setFlag (i : Invocation) : Flag × Text → Invocation
  | (.help, _) => i
  | (.file, value) => { i with file := value }
  | (.target, value) => { i with target := some value }
  | (.sort, _) => { i with sort := true }
  | (.noCreate, _) => { i with noCreate := true }
  | (.dryRun, _) => { i with dryRun := true }
  | (.config, value) => { i with config := some value }
  | (.verbose, _) => { i with verbose := true }

inductive Positional where
  | one (name : Text)
  | many (name : Text)
  deriving DecidableEq, Repr

def Positional.name : Positional → Text
  | one n => n
  | many n => n

def positionalsOf : Verb → List Positional
  | .add | .delete => [.many "files"]
  | .rename => [.one "old", .one "new"]
  | .list => []

def isDashes (w : Text × WordKind) : Bool := w.2 = .dashes

def isArgument (w : Text × WordKind) : Bool := w.2 = .argument

/-- The words that a positional takes from the head, and the rest; none when no argument is there
before the next option. -/
def takePositional (p : Positional) (words : List (Text × WordKind)) :
    Option (List Text × List (Text × WordKind)) :=
  let lead := words.takeWhile isDashes
  match words.drop lead.length with
  | w :: rest =>
    if isArgument w then
      let more := match p with
        | .one _ => rest.takeWhile isDashes
        | .many _ => rest.takeWhile fun r => isDashes r || isArgument r
      some ((lead ++ w :: more).map (·.1), rest.drop more.length)
    else none
  | [] => none

structure Taken where
  left : List Positional
  values : List (List Text) := []
  extras : List Text := []
  deriving DecidableEq, Repr

def takePositionals (values : List (List Text)) :
    List Positional → List (Text × WordKind) →
      List (List Text) × List Positional × List (Text × WordKind)
  | [], words => (values, [], words)
  | p :: rest, words =>
    match takePositional p words with
    | some (taken, words) => takePositionals (values ++ [taken.erase doubleDash]) rest words
    | none => (values, p :: rest, words)

/-- Walks the words of a command: arguments for its positionals, then options one by one. -/
def walkVerb (verb : Verb) (t : Taken) : Nat → List (Text × WordKind) → Except Request Taken
  | 0, _ => .ok t
  | fuel + 1, words =>
    let (values, left, words) := takePositionals t.values t.left words
    let surplus := words.takeWhile fun w => isDashes w || isArgument w
    let t : Taken := ⟨left, values, t.extras ++ surplus.map (·.1)⟩
    match words.drop surplus.length with
    | [] => .ok t
    | (w, .option s) :: rest =>
      match takeOption Flag.ofVerb s rest with
      | .error e => .error (.refuse (some verb) e)
      | .ok (set, rest) =>
        if set.any fun f => f.1 = .help then .error (.help (some verb))
        else walkVerb verb { t with extras := t.extras ++ [w] } fuel rest
    | (w, _) :: rest => walkVerb verb { t with extras := t.extras ++ [w] } fuel rest

def parseVerb (verb : Verb) (words : List Text) : Except Request (Action × List Text) :=
  match classify Flag.ofVerb words with
  | .error e => .error (.refuse (some verb) e)
  | .ok classified =>
    match walkVerb verb ⟨positionalsOf verb, [], []⟩ (words.length + 1) classified with
    | .error r => .error r
    | .ok t =>
      if !t.left.isEmpty then .error (.refuse (some verb) (.required (t.left.map Positional.name)))
      else
        let action := match verb, t.values with
          | .add, files :: _ => Action.add files
          | .delete, files :: _ => Action.delete files
          | .rename, old :: new :: _ => Action.rename old.flatten new.flatten
          | _, _ => Action.list
        .ok (action, t.extras)

def walkProgram (i : Invocation) (extras : List Text) :
    Nat → List (Text × WordKind) → Request
  | 0, _ => .refuse none (.required ["COMMAND"])
  | fuel + 1, words =>
    match words with
    | [] => .refuse none (.required ["COMMAND"])
    | (w, .unknownOption) :: rest => walkProgram i (extras ++ [w]) fuel rest
    | (_, .option s) :: rest =>
      match takeOption Flag.ofProgram s rest with
      | .error e => .refuse none e
      | .ok (set, rest) =>
        if set.any fun f => f.1 = .help then .help none
        else walkProgram (set.foldl setFlag i) extras fuel rest
    | (w, .dashes) :: rest =>
      if rest.isEmpty then .refuse none (.required ["COMMAND"])
      else .refuse none (.unknownCommand w)
    | (w, .argument) :: rest =>
      match Verb.ofWord? w with
      | none => .refuse none (.unknownCommand w)
      | some verb =>
        match parseVerb verb (rest.map (·.1)) with
        | .error r => r
        | .ok (action, left) =>
          if (extras ++ left).isEmpty then .run { i with action := action }
          else .refuse none (.unrecognized (extras ++ left))

end CommandLine

def Request.ofWords (words : List Text) : Request :=
  match CommandLine.classify Flag.ofProgram words with
  | .error e => .refuse none e
  | .ok classified => CommandLine.walkProgram {} [] (words.length + 1) classified

end Listfile
