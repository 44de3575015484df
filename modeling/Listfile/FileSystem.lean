import Listfile.Text.Printable
import Listfile.Text.Utf8

/-!
A file system as a finite map from paths to files, directories and links, with the few operations
that a buffer needs. A file is known by a number, so that several names can stand for it. A path
given as text is walked from the root or the working directory, and the walk fails as the operating
system would: every name is looked up in a directory, and a link is followed to where it leads.
-/

namespace Listfile

abbrev FileName := Bytes

abbrev Path := List FileName

inductive Entry where
  | file (node : Nat)
  | directory
  | link (target : Text)
  deriving DecidableEq, Repr

inductive Item where
  | file (content : Bytes)
  | directory
  | link (target : Text)
  deriving DecidableEq, Repr

inductive Obstacle where
  | missing
  | occupied
  | notDirectory
  | isDirectory
  | nameTooLong
  | tooManyLinks
  deriving DecidableEq, Repr

def Obstacle.message : Obstacle → Text
  | missing => "[Errno 2] No such file or directory"
  | occupied => "[Errno 17] File exists"
  | notDirectory => "[Errno 20] Not a directory"
  | isDirectory => "[Errno 21] Is a directory"
  | nameTooLong => "[Errno 36] File name too long"
  | tooManyLinks => "[Errno 40] Too many levels of symbolic links"

/-- Why a file operation fails, with the paths as they were given. -/
inductive FileProblem where
  | blocked (obstacle : Obstacle) (path : Text)
  | blockedOnto (obstacle : Obstacle) (path target : Text)
  | taken (path : Text)
  | sameFile (path target : Text)
  /-- The system has its own reasons. -/
  | refused (message : Text)
  deriving DecidableEq, Repr

def FileProblem.message : FileProblem → Text
  | blocked obstacle path => obstacle.message ++ Text.ofString ": " ++ path.quoted
  | blockedOnto obstacle path target =>
    obstacle.message ++ Text.ofString ": " ++ path.quoted ++ Text.ofString " -> " ++ target.quoted
  | taken path => Text.ofString "Destination path '" ++ path ++ Text.ofString "' already exists"
  | sameFile path target =>
    path.quoted ++ Text.ofString " and " ++ target.quoted ++ Text.ofString " are the same file"
  | refused message => message

def Text.splitAt (g : Glyph) : Text → List Text
  | [] => [[]]
  | h :: rest =>
    if h = g then [] :: Text.splitAt g rest
    else
      match Text.splitAt g rest with
      | [] => [[h]]
      | t :: ts => (h :: t) :: ts

namespace Path

def parts (t : Text) : List Text := (t.splitAt (.char '/')).filter fun p => !p.isEmpty

/-- The names of a path text. A slash at the end asks for the directory itself. -/
def namesOf (t : Text) : List FileName :=
  let names := (parts t).map Utf8.encode
  if t.getLast? = some (.char '/') then names ++ [Utf8.encode (Text.ofString ".")] else names

def baseName (t : Text) : Text := (t.splitAt (.char '/')).getLast?.getD []

def inside (directory name : Text) : Text :=
  if directory.getLast? = some (.char '/') then directory ++ name
  else directory ++ [.char '/'] ++ name

/-- Names with `.` dropped and each `..` taken back together with the name before it. -/
def normal (names : List Text) : List Text :=
  names.foldl (fun done name =>
    if name.isEmpty || name = Text.ofString "." then done
    else if name = Text.ofString ".." then done.dropLast
    else done ++ [name]) []

/-- The absolute form of a path text below a working directory. Two slashes at the head, not three,
are kept. -/
def absolute (workDirectory path : Text) : Text :=
  let full := if path.head? = some (.char '/') then path else inside workDirectory path
  let slashes : Text :=
    if full.take 2 = Text.ofString "//" && !(full.take 3 = Text.ofString "///") then "//" else "/"
  slashes ++ Text.join (Text.ofString "/") (normal (full.splitAt (.char '/')))

def start (here : Path) (t : Text) : Path := if t.head? = some (.char '/') then [] else here

end Path

/-- Entries below the root, which is itself a directory, and the bytes of the files. -/
structure FileSystem where
  entries : List (Path × Entry) := []
  contents : List (Nat × Bytes) := []
  deriving DecidableEq, Repr

namespace FileSystem

def lookup (fs : FileSystem) : Path → Option Entry
  | [] => some .directory
  | p => (fs.entries.find? fun e => e.1 == p).map (·.2)

def content (fs : FileSystem) (node : Nat) : Bytes := (fs.contents.lookup node).getD []

def itemOf (fs : FileSystem) : Entry → Item
  | .file node => .file (fs.content node)
  | .directory => .directory
  | .link target => .link target

def item? (fs : FileSystem) (p : Path) : Option Item := (fs.lookup p).map fs.itemOf

def erase (fs : FileSystem) (p : Path) : FileSystem :=
  { fs with entries := fs.entries.filter fun e => !(e.1 == p) }

def insert (fs : FileSystem) (p : Path) (e : Entry) : FileSystem :=
  { fs with entries := (fs.erase p).entries ++ [(p, e)] }

def setContent (fs : FileSystem) (node : Nat) (content : Bytes) : FileSystem :=
  { fs with contents := (node, content) :: fs.contents }

def aboveNode : Entry → Nat
  | .file node => node + 1
  | _ => 0

def unused (fs : FileSystem) : Nat := fs.entries.foldr (fun e n => max (aboveNode e.2) n) 0

def put (fs : FileSystem) (p : Path) (content : Bytes) : FileSystem :=
  match fs.lookup p with
  | some (.file node) => fs.setContent node content
  | _ => (fs.insert p (.file fs.unused)).setContent fs.unused content

def install (fs : FileSystem) (p : Path) (item : Item) : FileSystem :=
  let above := (List.range p.length).map p.take
  let prepared := above.foldl (fun acc q => if (acc.lookup q).isSome then acc
    else acc.insert q .directory) fs
  match item with
  | .file content => prepared.put p content
  | .directory => if (prepared.lookup p).isSome then prepared else prepared.insert p .directory
  | .link target => prepared.insert p (.link target)

def nameLimit : Nat := 255
def pathLimit : Nat := 4096

def linkLimit : Nat := 40

/-- Looks a name up in a directory: the place it stands for, with the target of a link there. -/
def step (fs : FileSystem) (here : Path) (name : FileName) :
    Except Obstacle (Path × Option Text) :=
  match fs.lookup here with
  | none => .error .missing
  | some .directory =>
    if name = Utf8.encode (Text.ofString ".") then .ok (here, none)
    else if name = Utf8.encode (Text.ofString "..") then .ok (here.dropLast, none)
    else if nameLimit < name.length then .error .nameTooLong
    else
      match fs.lookup (here ++ [name]) with
      | some (.link target) => .ok (here ++ [name], some target)
      | _ => .ok (here ++ [name], none)
  | some _ => .error .notDirectory

/-- Walks names from a directory. A link on the way is handed to `jump`, and one at the last name
too if it is to be followed. -/
def walkNames (fs : FileSystem) (follow : Bool)
    (jump : Path → Text → List FileName → Except Obstacle Path) (here : Path) :
    List FileName → Except Obstacle Path
  | [] => .ok here
  | name :: rest =>
    match fs.step here name with
    | .error obstacle => .error obstacle
    | .ok (there, none) => walkNames fs follow jump there rest
    | .ok (there, some target) =>
      if rest.isEmpty && !follow then .ok there else jump here target rest

def walk (fs : FileSystem) (follow : Bool) : Nat → Path → List FileName → Except Obstacle Path
  | 0 => fs.walkNames follow fun _ _ _ => .error .tooManyLinks
  | links + 1 => fs.walkNames follow fun here target rest =>
    if target.isEmpty then .error .missing
    else fs.walk follow links (Path.start here target) (Path.namesOf target ++ rest)

def resolve (fs : FileSystem) (follow : Bool) (workDirectory path : Text) :
    Except Obstacle Path :=
  if path.isEmpty then .error .missing
  else if pathLimit ≤ (Utf8.encode path).length then .error .nameTooLong
  else
    let here := (Path.normal (workDirectory.splitAt (.char '/'))).map Utf8.encode
    fs.walk follow linkLimit (Path.start here path) (Path.namesOf path)

def find? (fs : FileSystem) (workDirectory path : Text) : Option Entry :=
  match fs.resolve true workDirectory path with
  | .ok p => fs.lookup p
  | .error _ => none

def isFile (fs : FileSystem) (workDirectory path : Text) : Bool :=
  match fs.find? workDirectory path with
  | some (.file _) => true
  | _ => false

def read (fs : FileSystem) (workDirectory path : Text) : Except FileProblem Bytes :=
  match fs.resolve true workDirectory path with
  | .error obstacle => .error (.blocked obstacle path)
  | .ok p =>
    match fs.lookup p with
    | some (.file node) => .ok (fs.content node)
    | some .directory => .error (.blocked .isDirectory path)
    | _ => .error (.blocked .missing path)

def write (fs : FileSystem) (workDirectory path : Text) (content : Bytes) :
    Except FileProblem FileSystem :=
  match fs.resolve true workDirectory path with
  | .error obstacle => .error (.blocked obstacle path)
  | .ok p =>
    match fs.lookup p with
    | some .directory => .error (.blocked .isDirectory path)
    | some (.link _) => .error (.blocked .missing path)
    | _ => .ok (fs.put p content)

/-- Moves a file or a link, in the place of a file or a link. Two names of one file both stay. -/
def rename (fs : FileSystem) (workDirectory source target : Text) : Except Obstacle FileSystem :=
  match fs.resolve false workDirectory source, fs.resolve false workDirectory target with
  | .error obstacle, _ => .error obstacle
  | .ok _, .error obstacle => .error obstacle
  | .ok p, .ok q =>
    match fs.lookup p, fs.lookup q with
    | none, _ => .error .missing
    | some .directory, _ => .error .isDirectory
    | some _, some .directory => .error .isDirectory
    | some (.file n), some (.file m) =>
      .ok (if n = m then fs else (fs.erase p).insert q (.file n))
    | some e, _ => .ok ((fs.erase p).insert q e)

def symlink (fs : FileSystem) (workDirectory path target : Text) : Except Obstacle FileSystem :=
  match fs.resolve false workDirectory path with
  | .error obstacle => .error obstacle
  | .ok p => if (fs.lookup p).isSome then .error .occupied else .ok (fs.insert p (.link target))

def unlink (fs : FileSystem) (workDirectory path : Text) : Except Obstacle FileSystem :=
  match fs.resolve false workDirectory path with
  | .error obstacle => .error obstacle
  | .ok p =>
    match fs.lookup p with
    | none => .error .missing
    | some .directory => .error .isDirectory
    | some _ => .ok (fs.erase p)

def readLink? (fs : FileSystem) (workDirectory path : Text) : Option Text :=
  match fs.resolve false workDirectory path with
  | .error _ => none
  | .ok p =>
    match fs.lookup p with
    | some (.link target) => some target
    | _ => none

def isSameFile (fs : FileSystem) (workDirectory path target : Text) : Bool :=
  match fs.find? workDirectory path, fs.find? workDirectory target with
  | some (.file n), some (.file m) => n = m
  | _, _ => false

def isOccupied (fs : FileSystem) (p : Path) : Bool :=
  fs.entries.any fun e => p.isPrefixOf e.1 && !(e.1 == p)

def pathText (p : Path) : Text := Text.join (Text.ofString "/") (p.map Utf8.decode)

def insertLine (line : Text × Option Bytes) :
    List (Text × Option Bytes) → List (Text × Option Bytes)
  | [] => [line]
  | l :: rest => if line.1.le l.1 then line :: l :: rest else l :: insertLine line rest

def line? (fs : FileSystem) (root : Path) (e : Path × Entry) : Option (Text × Option Bytes) :=
  let name := pathText (e.1.drop root.length)
  match e.2 with
  | .file node => some (name, some (fs.content node))
  | .link _ => some (name, none)
  | .directory => if fs.isOccupied e.1 then none else some (name ++ [.char '/'], none)

/-- The files and links below a directory and the directories with nothing in them, which end in a
slash, sorted by path. -/
def listing (fs : FileSystem) (root : Path) : List (Text × Option Bytes) :=
  let below := fs.entries.filter fun e => root.isPrefixOf e.1 && !(e.1 == root)
  (below.filterMap (fs.line? root)).foldr insertLine []

end FileSystem

end Listfile
