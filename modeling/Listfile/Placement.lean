import Listfile.Event
import Listfile.Fault
import Listfile.Sources

/-!
Where a new file goes. The sections of a target are scored by how much of the file's directory
they share, and the first best one takes the file. Choosing changes nothing; a choice may say that
a section has to be opened first.
-/

namespace Listfile

/-- How well a section fits a directory: it has no files, it shares a leading run of the
directory's glyphs, or it has a file in that very directory. -/
inductive Score where
  | noFiles
  | shared (length : Nat)
  | exact
  deriving DecidableEq, Repr

def Score.beats : Score → Score → Bool
  | noFiles, _ => false
  | shared _, noFiles => true
  | shared m, shared n => n < m
  | shared _, exact => false
  | exact, exact => false
  | exact, _ => true

def commonPrefixLength : Text → Text → Nat
  | g :: s, h :: t => if g = h then commonPrefixLength s t + 1 else 0
  | _, _ => 0

def Section.score (s : Section) (directory : Text) : Score :=
  if s.directories.isEmpty then .noFiles
  else if s.directories.contains directory then .exact
  else .shared ((s.directories.map (commonPrefixLength · directory)).foldl max 0)

/-- A section by the position of its statement among the candidates and its own position there. -/
structure Address where
  statement : Nat
  sectionIndex : Nat
  deriving DecidableEq, Repr

inductive Choice where
  | existing (address : Address)
  | fresh (statement : Nat) (name : Text)
  deriving DecidableEq, Repr

namespace Placement

def section? (candidates : List Sources) (address : Address) : Option Section :=
  candidates[address.statement]?.bind fun s => s.sections[address.sectionIndex]?

def addressed (statement : Nat) (s : Sources) : List (Address × Section) :=
  s.sections.mapIdx fun n g => (⟨statement, n⟩, g)

def allSections (candidates : List Sources) : List (Address × Section) :=
  (candidates.mapIdx addressed).flatten

/-- The sections that may take a file: those of the wanted name, or all. -/
def eligible (wanted : Option Text) (candidates : List Sources) : List (Address × Section) :=
  match wanted with
  | none => allSections candidates
  | some name => (allSections candidates).filter fun p => p.2.name = name.upper

/-- Walks sections with the best one so far; an exact match ends the walk. -/
def bestFrom (directory : Text) (best : Option Address) (score : Score) :
    List (Address × Section) → Option Address
  | [] => best
  | (address, s) :: rest =>
    if s.score directory = .exact then some address
    else if (s.score directory).beats score then
      bestFrom directory (some address) (s.score directory) rest
    else bestFrom directory best score rest

/-- The first best section for a directory; none when no section has files. -/
def best? (directory : Text) (sections : List (Address × Section)) : Option Address :=
  bestFrom directory none .noFiles sections

/-- The first candidate with a section of a name, and its last such section. -/
def firstNamed? (name : Text) (passed : Nat) : List Sources → Option Address
  | [] => none
  | s :: rest =>
    match s.findSection? name with
    | some n => some ⟨passed, n⟩
    | none => firstNamed? name (passed + 1) rest

def namedIn (statement : Nat) (s : Sources) (name : Text) : Choice :=
  match s.findSection? name with
  | some n => .existing ⟨statement, n⟩
  | none => .fresh statement name

def preferred? (candidates : List Sources) : Option (Nat × Sources) :=
  (candidates.mapIdx Prod.mk).find? (·.2.preferred)

/-- An empty preference is none. -/
def preference (wanted : Option Text) : Option Text := wanted.filter fun name => !name.isEmpty

def chooseByScore (first : Sources) (rest : List Sources) (file : Text) (wanted : Option Text) :
    Choice × List Event :=
  let candidates := first :: rest
  let applies := (preference wanted).filter fun name => (firstNamed? name 0 candidates).isSome
  let ignored :=
    match preference wanted, applies with
    | some name, none => [Event.sectionIgnored name first.target]
    | _, _ => []
  match best? (directoryOf file) (eligible applies candidates) with
  | some address => (.existing address, ignored)
  | none =>
    match applies.bind fun name => firstNamed? name 0 candidates with
    | some address => (.existing address, ignored)
    | none =>
      match namedIn 0 first first.defaultSection with
      | .existing address => (.existing address, ignored)
      | .fresh n name =>
        (.fresh n name, ignored ++ [.sectionCreated name first.command.name first.target])

def choose (candidates : List Sources) (file : Text) (wanted : Option Text) :
    Except Fault (Choice × List Event) :=
  match candidates with
  | [] => .error .noCandidates
  | first :: rest =>
    match preferred? candidates with
    | some (n, s) => .ok (namedIn n s ((preference wanted).getD s.defaultSection), [])
    | none => .ok (chooseByScore first rest file wanted)

/-- Opens the section of a choice if it is not there, and gives its address. -/
def settle (candidates : List Sources) (choice : Choice) (separator : Text) :
    List Sources × Address :=
  match choice with
  | .existing address => (candidates, address)
  | .fresh n name =>
    (candidates.modify n fun s => s.addSection name separator,
      ⟨n, ((candidates[n]?.map fun s => s.sections.length).getD 0)⟩)

end Placement

end Listfile
