import LetPoly.Report

/-!
# Command lines

The options, the names that they go by, and the words of a command line: a word is a name of an
example, the double hyphen that ends the options, or an option with the text attached to it.
-/

namespace LetPoly.CommandLine

inductive Switch where
  | help
  | version
  | env
  deriving DecidableEq

inductive Opt where
  /-- an option without a value -/
  | switch (s : Switch)
  | out
  | format
  deriving DecidableEq

namespace Opt

def names : Opt → List String
  | switch .help => ["-?", "-h", "--help"]
  | switch .version => ["-v", "--version"]
  | switch .env => ["--env", "--show-env"]
  | out => ["-o", "--out"]
  | format => ["-r", "--report-fmt", "--report-format"]

def all : List Opt := [switch .help, switch .version, out, format, switch .env]

def find? (name : String) : Option Opt := all.find? fun o => o.names.contains name

def findLetter? (c : Char) : Option Opt := find? (String.ofList ['-', c])

/-- all names of an option, as messages call it -/
def label (o : Opt) : String := "/".intercalate o.names

end Opt

inductive Word where
  | name
  /-- what follows is no option, whatever it looks like -/
  | endOfOptions
  /-- `long` unless a single hyphen stands in front; `attached` is the text that came with it -/
  | option (o : Opt) (long : Bool) (attached : Option String)
  | unknownOption
  deriving DecidableEq

/-- a number with a hyphen in front, perhaps with a line feed behind it -/
def isNegativeNumber (w : List Char) : Bool :=
  match w with
  | '-' :: cs =>
    let cs := if cs.getLast? = some '\n' then cs.dropLast else cs
    match cs.span Text.isDigit with
    | (_ :: _, []) => true
    | (_, '.' :: d :: ds) => (d :: ds).all Text.isDigit
    | _ => false
  | _ => false

/-- the part before the first equals sign and the part behind it -/
def splitEquals? : List Char → Option (List Char × List Char)
  | [] => none
  | '=' :: cs => some ([], cs)
  | c :: cs => (splitEquals? cs).map fun (a, b) => (c :: a, b)

/-- an option whose name ends at an equals sign -/
def withEquals? (w : List Char) : Option Word := do
  let (name, value) ← splitEquals? w
  let o ← Opt.find? (String.ofList name)
  return .option o (name[1]? == some '-') (some (String.ofList value))

/-- an option with a short name and more text behind it -/
def withLetter? : List Char → Option Word
  | '-' :: c :: d :: cs => do
    if c = '-' then none
    let o ← Opt.findLetter? c
    return .option o false (some (String.ofList (d :: cs)))
  | _ => none

/-- what a word is, before the options end -/
def Word.of (w : String) : Word :=
  match w.toList with
  | '-' :: c :: cs =>
    if w = "--" then .endOfOptions
    else match Opt.find? w with
      | some o => .option o (c == '-') none
      | none =>
        match withEquals? ('-' :: c :: cs) <|> withLetter? ('-' :: c :: cs) with
        | some word => word
        | none =>
          if isNegativeNumber ('-' :: c :: cs) || (c :: cs).contains ' ' then .name
          else .unknownOption
  | _ => .name

def classify : List String → List (String × Word)
  | [] => []
  | w :: ws =>
    match Word.of w with
    | .endOfOptions => (w, .endOfOptions) :: ws.map fun v => (v, .name)
    | kind => (w, kind) :: classify ws

/-!
## reading a command line

Options may stand anywhere; the names of the examples have to stand together in one block.  An
option that cannot be read ends the reading at once, while unknown options and names after the
first block are collected and refused at the end.
-/

/-- what a command line asks for -/
structure Arguments where
  only : List String := []
  showHelp : Bool := false
  showVersion : Bool := false
  showEnv : Bool := false
  /-- none if the value given was an attached double hyphen, which counts as no value -/
  out : Option String := some "stdout"
  /-- none in the same case -/
  format : Option Format := some .short

inductive UsageError where
  | valueExpected (o : Opt)
  /-- text is attached to an option without a value -/
  | valueRefused (o : Opt) (text : String)
  | unknownFormat (text : String)
  | unrecognized (words : List String)

def formats : List Format := [.json, .long, .short]

namespace UsageError

def about (o : Opt) (s : String) : String := "argument " ++ o.label ++ ": " ++ s

def message : UsageError → String
  | valueExpected o => about o "expected one argument"
  | valueRefused o text => about o ("ignored explicit argument " ++ Text.quoted text)
  | unknownFormat text =>
    about .format <| "invalid choice: " ++ Text.quoted text ++ " (choose from "
      ++ ", ".intercalate (formats.map fun f => Text.quoted f.name) ++ ")"
  | unrecognized words => "unrecognized arguments: " ++ " ".intercalate words

end UsageError

/-- how far the block of names has been read -/
inductive Block where
  | ahead
  | open (words : List String)
  | closed (words : List String)

namespace Block

def words : Block → List String
  | ahead => []
  | .open ws => ws
  | closed ws => ws

def close : Block → Block
  | .open ws => closed ws
  | b => b

end Block

structure Reading where
  args : Arguments := {}
  block : Block := .ahead
  extras : List String := []

abbrev Reader := Except UsageError

namespace Reading

/-- one more name, or the word that ends the options -/
def addName (r : Reading) (w : String) : Reading :=
  match r.block with
  | .ahead => { r with block := .open [w] }
  | .open ws => { r with block := .open (ws ++ [w]) }
  | .closed _ => { r with extras := r.extras ++ [w] }

def addExtra (r : Reading) (w : String) : Reading := { r with extras := r.extras ++ [w] }

def setSwitch (r : Reading) (s : Switch) : Reading :=
  match s with
  | .help => { r with args.showHelp := true }
  | .version => { r with args.showVersion := true }
  | .env => { r with args.showEnv := true }

/-- give an option its value; a double hyphen counts as none -/
def setValue (r : Reading) (o : Opt) (text : String) : Reader Reading :=
  match o with
  | .switch s => .ok (r.setSwitch s)
  | .out => .ok { r with args.out := if text = "--" then none else some text }
  | .format =>
    if text = "--" then .ok { r with args.format := none }
    else match formats.find? fun f => f.name = text with
      | some f => .ok { r with args.format := some f }
      | none => .error (.unknownFormat text)

/-- an option with text attached to it, by a short name: either its value, or more short names. The
last option comes back if it still needs a value. -/
def attachShort (r : Reading) : Opt → List Char → Reader (Reading × Option Opt)
  | .switch s, c :: cs =>
    let r := r.setSwitch s
    match Opt.findLetter? c, cs with
    | none, _ => .error (.valueRefused (.switch s) (String.ofList (c :: cs)))
    | some (.switch t), [] => .ok (r.setSwitch t, none)
    | some o, [] => .ok (r, some o)
    | some o, d :: ds => r.attachShort o (d :: ds)
  | .switch s, [] => .error (.valueRefused (.switch s) "")
  | o, cs => do return (← r.setValue o (String.ofList cs), none)

/-- an option with its attached text; comes back if it needs the next word as its value -/
def takeOption (r : Reading) (o : Opt) (long : Bool) (attached : Option String) :
    Reader (Reading × Option Opt) :=
  match o, long, attached with
  | .switch s, _, none => .ok (r.setSwitch s, none)
  | o, _, none => .ok (r, some o)
  | o, false, some text => r.attachShort o text.toList
  | .switch s, true, some text => .error (.valueRefused (.switch s) text)
  | o, true, some text => do return (← r.setValue o text, none)

end Reading

/-- read the words; with `pending` the next one has to be the value of that option -/
def readWords (r : Reading) (pending : Option Opt) : List (String × Word) → Reader Reading
  | [] =>
    match pending with
    | none => .ok r
    | some o => .error (.valueExpected o)
  | (w, kind) :: ws =>
    match pending, kind with
    | some o, .name => do readWords (← r.setValue o w) none ws
    | some o, _ => .error (.valueExpected o)
    | none, .name | none, .endOfOptions => readWords (r.addName w) none ws
    | none, .unknownOption => readWords ({ r with block := r.block.close }.addExtra w) none ws
    | none, .option o long attached => do
      let (r, pending) ← { r with block := r.block.close }.takeOption o long attached
      readWords r pending ws

def blockNames (b : Block) : List String := b.words.erase "--"

def parse (argv : List String) : Reader Arguments := do
  let r ← readWords {} none (classify argv)
  if r.extras.isEmpty then return { r.args with only := blockNames r.block }
  else throw (.unrecognized r.extras)

/-!
## the texts about the command line

The usage line, the help text, the version line, and the refusal of a command line.
-/

def usage : String :=
  "usage: milner [-?] [-v] [-o OUT] [-r \x7bjson,long,short\x7d] [--env] [example ...]\n"

def help : String :=
  usage ++
  "\npositional arguments:\n" ++
  "  example               The names of the examples to check. All of them are\n" ++
  "                        checked by default.\n" ++
  "\noptions:\n" ++
  "  -?, -h, --help        Show this help message and quit.\n" ++
  "  -v, --version         Show the program version number and quit.\n" ++
  "  -o OUT, --out OUT     Where to write the results of checking the examples.\n" ++
  "                        You can also pass in \"stdout\" and \"stderr\".\n" ++
  "  -r \x7bjson,long,short\x7d, --report-fmt \x7bjson,long,short\x7d, --report-format \x7bjson,long,short\x7d\n" ++
  "                        The format of any error message that may arise.\n" ++
  "  --env, --show-env     Show the types of the names in the environment before\n" ++
  "                        the examples.\n"

def version : String := "Milner Version 0.1.0\n"

/-- what the user is told about a command line that cannot be read -/
def UsageError.text (e : UsageError) : String := usage ++ "milner: error: " ++ e.message ++ "\n"

end LetPoly.CommandLine
