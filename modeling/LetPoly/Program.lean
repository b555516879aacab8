import LetPoly.CommandLine
import LetPoly.FileTree
import LetPoly.Check

/-!
# The program

The program reads its command line, opens the place that the text goes to, and writes one text
there: the help, the version, or the outcome of checking the examples.

It runs on any host that offers the few effects it needs.  `Machine` is a host without effects: a
tree of files and the texts written so far.
-/

namespace LetPoly

/-- the effects that the program needs -/
structure Host (m : Type → Type) where
  /-- make sure that a file can be written, without a change to the text in it -/
  openFile : String → m (Except OpenFault Unit)
  writeFile : String → String → m Unit
  out : String → m Unit
  err : String → m Unit
  note : Event → m Unit

/-- where the text for the user goes -/
inductive Target where
  | out
  | err
  | file (path : String)
  deriving DecidableEq

def Target.of (name : String) : Target :=
  if name = "stdout" then out else if name = "stderr" then err else file name

/-- a fault that nothing takes care of -/
inductive Escape where
  /-- an output path that is no path at all -/
  | noPath
  /-- a report format that is no text at all -/
  | noFormat
  | openFault (fault : OpenFault)
  | failure (f : Failure)
  /-- a text that has no bytes -/
  | unencodable (fault : Text.EncodeFault)

def Escape.message : Escape → String
  | noPath => "expected str, bytes or os.PathLike object, not list"
  | noFormat => "unhashable type: 'list'"
  | openFault fault => fault.message
  | failure f => f.message
  | unencodable fault => fault.message

inductive Ending where
  | exit (status : Nat)
  | escaped (e : Escape)

namespace Program

def statusUsage : Nat := 2
def statusNoOutput : Nat := 66

def options (args : CommandLine.Arguments) (format : Format) : Options :=
  ({} : Options).apply {
    only := some args.only
    showEnv := some args.showEnv
    showHelp := some args.showHelp
    showVersion := some args.showVersion
    format := some format }

/-- the report on an output file that cannot be opened -/
def refusal (fault : OutputFault) (path : String) : String :=
  Report.frame (Report.wrapText (fault.explanation path)) path

variable {m : Type → Type} [Monad m]

def openTarget (h : Host m) : Target → m (Except OpenFault Unit)
  | .file path => h.openFile path
  | _ => return .ok ()

/-- Write a text.  If it has a surrogate, the output takes nothing of it and a file is left empty; the
error stream has escapes for them. -/
def write (h : Host m) (target : Target) (text : List Nat) : m (Option Text.EncodeFault) := do
  let fault := Text.encodeFault? 0 text
  match target with
  | .err =>
    h.err (Text.escaped text)
    return none
  | .out =>
    if fault.isNone then h.out (Text.ofCodePoints text)
    return fault
  | .file path =>
    h.writeFile path (if fault.isNone then Text.ofCodePoints text else "")
    return fault

def finish (h : Host m) (target : Target) (status : Nat) (text : List Nat) : m Ending := do
  match ← write h target text with
  | none => return .exit status
  | some fault => return .escaped (.unencodable fault)

/-- the code points of what the checks have come to; unknown names are the user's own words, and no
display names -/
def outcomeCodes (o : Options) (text : String) : List Nat :=
  if o.unknown.isEmpty then Text.shownCodes text else Text.codePoints text

def answer (h : Host m) (o : Options) (target : Target) : m Ending := do
  if o.showHelp then
    h.note .helpShown
    finish h target 0 (Text.codePoints CommandLine.help)
  else if o.showVersion then
    h.note .versionShown
    finish h target 0 (Text.codePoints CommandLine.version)
  else
    match o.checkExamples.run {} with
    | .ok (status, text) s =>
      s.events.toList.forM h.note
      finish h target status (outcomeCodes o text)
    | .error f s =>
      s.events.toList.forM h.note
      return .escaped (.failure f)

def start (h : Host m) (args : CommandLine.Arguments) : m Ending := do
  match args.format, args.out with
  | none, _ => return .escaped .noFormat
  | _, none => return .escaped .noPath
  | some format, some path =>
    match ← openTarget h (Target.of path) with
    | .ok () => answer h (options args format) (Target.of path)
    | .error (.refused fault) =>
      h.note (.outputRefused path)
      h.err (refusal fault path)
      return .exit statusNoOutput
    | .error fault => return .escaped (.openFault fault)

def run (h : Host m) (argv : List String) : m Ending := do
  match CommandLine.parse argv with
  | .ok args => start h args
  | .error e =>
    h.err e.text
    return .exit statusUsage

end Program

/-- a host without effects -/
structure Machine where
  tree : FileTree := {}
  out : String := ""
  err : String := ""
  events : Array Event := #[]

namespace Machine

def host : Host (StateM Machine) where
  openFile path := do
    match (← get).tree.openFile path with
    | .ok tree =>
      modify fun m => { m with tree }
      return .ok ()
    | .error e => return .error e
  writeFile path text := modify fun m => { m with tree := m.tree.writeFile path text }
  out text := modify fun m => { m with out := m.out ++ text }
  err text := modify fun m => { m with err := m.err ++ text }
  note e := modify fun m => { m with events := m.events.push e }

def run (m : Machine) (argv : List String) : Ending × Machine := (Program.run host argv).run m

end Machine
end LetPoly
