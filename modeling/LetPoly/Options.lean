import LetPoly.Report

/-!
# Options

What the user can ask for, and how several sets of options are merged into one.  The first
non-empty choice of examples counts, a switch stays on once it is on, and the last format counts.
-/

namespace LetPoly

structure Options where
  /-- the examples to check; none stands for all of them -/
  only : List String := []
  showEnv : Bool := false
  showHelp : Bool := false
  showVersion : Bool := false
  format : Format := .short

namespace Options

/-- a set of options that may leave some of them open -/
structure Changes where
  only : Option (List String) := none
  showEnv : Option Bool := none
  showHelp : Option Bool := none
  showVersion : Option Bool := none
  format : Option Format := none

def apply (o : Options) (c : Changes) : Options where
  only := if o.only.isEmpty then c.only.getD [] else o.only
  showEnv := o.showEnv || c.showEnv.getD false
  showHelp := o.showHelp || c.showHelp.getD false
  showVersion := o.showVersion || c.showVersion.getD false
  format := c.format.getD o.format

/-- what options are merged with -/
inductive Operand where
  | changes (c : Changes)
  /-- a value of another kind, which cannot be merged -/
  | other (kind : String)

/-- the kind of a whole set of options, which cannot be merged with another one -/
def kind : String := "ConfigData"

/-- options met a value of this kind -/
structure MergeFault where
  kind : String

def MergeFault.message (f : MergeFault) : String :=
  "unsupported operand type(s) for |: '" ++ Options.kind ++ "' and '" ++ f.kind ++ "'"

def merge (o : Options) : Operand → Except MergeFault Options
  | .changes c => .ok (o.apply c)
  | .other kind => .error ⟨kind⟩

def mergeAll (o : Options) (l : List Operand) : Except MergeFault Options := l.foldlM merge o

end Options
end LetPoly
