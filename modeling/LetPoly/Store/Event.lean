import LetPoly.Ty.Basic

/-!
# The account of a run

Every event has a level and a text; types are written in their short form, so an account never
depends on what happens after the event.
-/

namespace LetPoly

inductive Level where
  | debug
  | info
  | error
  | critical
  deriving DecidableEq

def Level.text : Level → String
  | debug => "DEBUG"
  | info => "INFO"
  | error => "ERROR"
  | critical => "CRITICAL"

inductive Event where
  | bound (v : Var) (t : Ty)
  | circular (v : Var) (t : Ty)
  | clash (left right : Ty)
  | undefinedName (name : String)
  | inferred (t : Ty)
  /-- the example with this name ended in the problem with this name -/
  | exampleFailed (exampleName problem : String)
  | internalError (kind : String) (notes : List String)
  | unknownExamples (names : List String)
  | helpShown
  | versionShown
  | outputRefused (path : String)

namespace Event

def level : Event → Level
  | bound .. | inferred _ => .debug
  | exampleFailed .. | helpShown | versionShown => .info
  | undefinedName _ | internalError .. | unknownExamples _ => .error
  | circular .. | clash .. | outputRefused _ => .critical

/-- two types that were to be made equal -/
def equation (left right : Ty) : String := "(" ++ left.text ++ ") ~ (" ++ right.text ++ ")"

def message : Event → String
  | bound v t => equation (.var v) t
  | circular v t => "Circularity detected in " ++ equation (.var v) t
  | clash l r => "Cannot unify: " ++ equation l r
  | undefinedName x => "Undefined name: " ++ x
  | inferred t => "inferred type: " ++ t.text
  | exampleFailed e p => e ++ " failed with " ++ p
  | internalError k ns => "Unknown error condition: " ++ k ++ "( " ++ ", ".intercalate ns ++ " )"
  | unknownExamples xs => "Unknown examples requested: " ++ ", ".intercalate xs
  | helpShown => "Printing the help message."
  | versionShown => "Printing the version."
  | outputRefused p => "Unable to open the output file: " ++ p

/-- a line of the log -/
def text (e : Event) : String := "[" ++ e.level.text ++ "] " ++ e.message

end Event
end LetPoly
