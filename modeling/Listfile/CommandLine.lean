import Listfile.Text.Printable

/-!
The command line: what can be asked for, and the ways in which asking can go wrong.
-/

namespace Listfile

inductive Action where
  | add (files : List Text)
  | delete (files : List Text)
  | rename (old new : Text)
  | list
  deriving DecidableEq, Repr

structure Invocation where
  file : Text := "CMakeLists.txt"
  target : Option Text := none
  sort : Bool := false
  noCreate : Bool := false
  dryRun : Bool := false
  config : Option Text := none
  verbose : Bool := false
  action : Action := .list
  deriving DecidableEq, Repr

/-- The commands; each has a usage of its own, as has the program as a whole. -/
inductive Verb where
  | add
  | delete
  | rename
  | list
  deriving DecidableEq, Repr

namespace Verb

def all : List Verb := [add, delete, rename, list]

def word : Verb → Text
  | add => "add"
  | delete => "del"
  | rename => "ren"
  | list => "list"

def ofWord? (t : Text) : Option Verb := all.find? fun v => v.word = t

end Verb

def Action.verb : Action → Verb
  | add _ => .add
  | delete _ => .delete
  | rename _ _ => .rename
  | list => .list

inductive Flag where
  | help
  | file
  | target
  | sort
  | noCreate
  | dryRun
  | config
  | verbose
  deriving DecidableEq, Repr

namespace Flag

def names : Flag → List Text
  | help => ["-h", "--help"]
  | file => ["-f", "--file"]
  | target => ["-t", "--target"]
  | sort => ["--sort"]
  | noCreate => ["--no-create"]
  | dryRun => ["--dry-run"]
  | config => ["--config"]
  | verbose => ["-v", "--verbose"]

def takesValue : Flag → Bool
  | file | target | config => true
  | _ => false

def ofProgram : List Flag := [help, file, target, sort, noCreate, dryRun, config, verbose]

def ofVerb : List Flag := [help]

def title (f : Flag) : Text := Text.join (Text.ofString "/") f.names

end Flag

inductive UsageFault where
  | ambiguous (word : Text) (names : List Text)
  | valueMissing (flag : Flag)
  | valueUnwanted (flag : Flag) (value : Text)
  | required (names : List Text)
  | unknownCommand (word : Text)
  | unrecognized (words : List Text)
  deriving DecidableEq, Repr

def UsageFault.message : UsageFault → Text
  | ambiguous word names =>
    Text.ofString "ambiguous option: " ++ word ++ Text.ofString " could match " ++
      Text.join (Text.ofString ", ") names
  | valueMissing flag =>
    Text.ofString "argument " ++ flag.title ++ Text.ofString ": expected one argument"
  | valueUnwanted flag value =>
    Text.ofString "argument " ++ flag.title ++ Text.ofString ": ignored explicit argument " ++
      value.quoted
  | required names =>
    Text.ofString "the following arguments are required: " ++ Text.join (Text.ofString ", ") names
  | unknownCommand word =>
    Text.ofString "argument COMMAND: invalid choice: " ++ word.quoted ++
      Text.ofString " (choose from " ++
      Text.join (Text.ofString ", ") (Verb.all.map fun v => v.word.quoted) ++ Text.ofString ")"
  | unrecognized words =>
    Text.ofString "unrecognized arguments: " ++ Text.join (Text.ofString " ") words

/-- What comes of reading a command line: a request, or help or a refusal from the program as a
whole or from one command. -/
inductive Request where
  | run (invocation : Invocation)
  | help (scope : Option Verb)
  | refuse (scope : Option Verb) (fault : UsageFault)
  deriving DecidableEq, Repr

end Listfile
