import LetPoly.Ty.Basic

/-!
# What can go wrong

A `Problem` is a fault of the user's input and has a report of its own; a `Failure` is a problem or
a fault of another kind, which is reported as an internal error.

* `Problem.name`      the name a problem goes by in reports and in the log;
* `Failure.kind`      the name that an internal error is reported under;
* `Failure.notes`     the pieces of text that come with a failure.
-/

namespace LetPoly

/-- why the output file cannot be opened -/
inductive OutputFault where
  | fileNotFound
  | pathIsFolder
  | noPermission
  deriving DecidableEq

def OutputFault.label : OutputFault → String
  | fileNotFound => "file_not_found"
  | pathIsFolder => "path_is_folder"
  | noPermission => "no_permission"

inductive Problem where
  /-- `inner` would have to stand for a type that it occurs in -/
  | circular (inner outer : Ty)
  /-- two operators that cannot be equal, already shown -/
  | mismatch (leftText rightText : String)
  | undefinedName (name : String)
  | output (fault : OutputFault)
  /-- any other problem of the user's input, in the words of whoever found it -/
  | general (notes : List String)

def Problem.name : Problem → String
  | circular .. => "circular_type_error"
  | mismatch .. => "type_mismatch"
  | undefinedName _ => "undefined_name"
  | output _ => "command_line_error"
  | general _ => "milner_error"

/-- what was being done to a missing type -/
inductive HoleUse where
  | shown
  | searched
  | takenApart
  deriving DecidableEq

inductive Failure where
  | problem (p : Problem)
  /-- there is no code point left to name a var with -/
  | namesExhausted
  /-- the first display name has to be one character -/
  | notOneCharacter (length : Nat)
  | missingType (use : HoleUse)
  /-- a chain of bindings that comes back to itself; no store built by unification has one -/
  | endlessChain
  /-- a fault that this library knows nothing about -/
  | foreign (kind : String) (notes : List String)

namespace Failure

def kind : Failure → String
  | problem p => p.name
  | namesExhausted => "ValueError"
  | notOneCharacter _ => "TypeError"
  | missingType .takenApart => "AttributeError"
  | missingType _ => "TypeError"
  | endlessChain => "endless_chain"
  | foreign k _ => k

def notes : Failure → List String
  | problem (.circular ..) => ["recursive unification"]
  | problem (.mismatch l r) => ["Type mismatch: " ++ l ++ " != " ++ r]
  | problem (.undefinedName x) => ["Undefined symbol " ++ x]
  | problem (.output f) => [f.label]
  | problem (.general ns) => ns
  | namesExhausted => ["chr() arg not in range(0x110000)"]
  | notOneCharacter n =>
    ["ord() expected a character, but string of length " ++ toString n ++ " found"]
  | missingType .shown => ["<class 'NoneType'> is an invalid subtype of types.Type."]
  | missingType .searched => ["argument of type 'NoneType' is not iterable"]
  | missingType .takenApart => ["'NoneType' object has no attribute 'name'"]
  | endlessChain => ["a chain of bindings comes back to itself"]
  | foreign _ ns => ns

end Failure
end LetPoly
