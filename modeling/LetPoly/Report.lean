import LetPoly.Json
import LetPoly.Store.LookUp
import LetPoly.Text.Escape
import LetPoly.Text.Wrap

/-!
# Error reports

A failure is reported as a JSON object, as a framed explanation, or as a short text that stands
beside the expression.  The types of a circular problem are rendered when a report asks for them,
since rendering names their vars for good.

* `Problem.message`, `Problem.alert`, `Problem.explanation`, `Problem.fields`   the parts of a report;
* `Failure.report`   the report in a format, for problems and internal errors alike.
-/

namespace LetPoly

/-- how failures are reported -/
inductive Format where
  | json
  | long
  | short
  deriving DecidableEq, Inhabited

def Format.name : Format → String
  | json => "json"
  | long => "long"
  | short => "short"

namespace Report

def lineWidth : Nat := 87

def wrapText (s : String) : String := Text.wrap lineWidth s

def bar (n : Nat) : String := String.ofList (List.replicate n '=')

def frame (message path : String) : String :=
  "\n" ++ bar 34 ++ " Error Encountered " ++ bar 34 ++ "\nFrom \"" ++ path ++ "\":\n\n" ++ message
    ++ "\n\n" ++ bar lineWidth ++ "\n"

/-- the printed expression, indented -/
def quoteSource (source : String) : String := if source.isEmpty then "" else "    " ++ source

/-- the printed expression above an explanation -/
def underSource (source explanation : String) : String :=
  quoteSource source ++ "\n\n" ++ wrapText explanation

/-- what the user is told about an internal error -/
def internalText (kind : String) : String :=
  "Internal Error: Encountered unknown error condition: \"" ++ kind ++ "\"."

end Report

/-- the notes of a failure as one text -/
def Failure.message (e : Failure) : String :=
  match e.notes with
  | [] => ""
  | [note] => note
  | notes => Text.quotedTuple notes

namespace OutputFault

def alert (path : String) : OutputFault → String
  | fileNotFound => "The file \"" ++ path ++ "\" was not found."
  | noPermission =>
    "Unable to write to the file \"" ++ path ++ "\" since we don't have the necessary permissions."
  | pathIsFolder => "The path \"" ++ path ++ "\" is a folder instead of a file."

def explanation (path : String) : OutputFault → String
  | fileNotFound =>
    "The file \"" ++ path ++ "\" could not be found, please check if the path given is correct and"
      ++ " if its folder still exists."
  | noPermission =>
    "We were unable to open the file \"" ++ path ++ "\" because we do not have the necessary"
      ++ " permissions. Please grant the program file write permissions then try again."
  | pathIsFolder =>
    "We were unable to open the file at \"" ++ path ++ "\" because it is actually a folder rather"
      ++ " than a file and cannot be written to like a regular file."

end OutputFault

namespace Problem

def message (p : Problem) : String := (Failure.problem p).message

/-- the short form -/
def alert (p : Problem) (path : String) : String :=
  match p with
  | output fault => fault.alert path
  | p => p.message

def explanation (p : Problem) (source path : String) : StoreM String := do
  match p with
  | circular inner outer =>
    let innerText ← inner.render
    let outerText ← outer.render
    return Report.underSource source <|
      "These 2 types are infinitely recursive so they cannot be inferred. They are recursive because `"
        ++ innerText ++ "` was found inside `" ++ outerText
        ++ "`. This usually means that a function is being applied to itself."
  | mismatch leftText rightText =>
    return Report.underSource source <|
      "This expression has a value with an unexpected type. It has the type `" ++ leftText
        ++ "` but the type is supposed to be `" ++ rightText ++ "`."
  | undefinedName x =>
    return Report.underSource source <|
      "The name \"" ++ x ++ "\" is being used but it has not been defined. Try binding it with `let`"
        ++ " or adding it to the environment."
  | output fault => return Report.wrapText (fault.explanation path)
  | general _ => return Report.wrapText p.message

def fields (p : Problem) (source path : String) : StoreM (List (String × String)) := do
  match p with
  | circular inner outer =>
    let innerText ← inner.render
    let outerText ← outer.render
    return [("error_name", p.name), ("inner", innerText), ("outer", outerText),
      ("source", source), ("source_path", path)]
  | mismatch leftText rightText =>
    return [("source_path", path), ("error_name", p.name), ("source", source),
      ("actual_type", leftText), ("expected_type", rightText)]
  | undefinedName x =>
    return [("source_path", path), ("error_name", p.name), ("source", source), ("value", x)]
  | output fault =>
    return [("error_name", p.name), ("specific_error", fault.label), ("source_path", path)]
  | general _ => return [("source_path", path), ("error_name", p.name)]

def report (p : Problem) (format : Format) (source path : String) : StoreM String := do
  match format with
  | .json => return Json.object .full (← p.fields source path)
  | .long => return Report.frame (← p.explanation source path) path
  | .short => return p.alert path

end Problem

namespace Report

def internalFields (kind path : String) : List (String × String) :=
  [("source_path", path), ("error_name", "internal_error"), ("actual_error", kind)]

def internal (kind : String) (format : Format) (path : String) : String :=
  match format with
  | .json => Json.object .ascii (internalFields kind path)
  | .long =>
    frame (wrapText (internalText kind ++ " Please check the log file for more details.")) path
  | .short => wrapText (internalText kind)

end Report

/-- the report on any failure; an internal error is noted in the account -/
def Failure.report (e : Failure) (format : Format) (source path : String) : StoreM String := do
  match e with
  | problem p => p.report format source path
  | e =>
    StoreM.note (.internalError e.kind e.notes)
    return Report.internal e.kind format path

end LetPoly
