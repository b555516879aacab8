import Mathlib.Data.List.Basic
import LetPoly.CommandLine

/-!
# The settings of a command line

`CommandLine.settings` lists the switches of a command line and the values that it gives to options,
from left to right.  A value may stand in a word of its own, or be attached to its option, also
behind a row of short switches.

A command line that can be read asks for just these settings (`parse_settings`): a switch is on if it
is there at all, and of several values of an option the last one counts.
-/

namespace LetPoly.CommandLine

inductive Setting where
  | on (s : Switch)
  | value (o : Opt) (text : String)
  deriving DecidableEq

/-- the settings of an option with a short name, with the text behind it; the last option comes back
if the next word is its value -/
def shortSettings : Opt → List Char → List Setting × Option Opt
  | .switch s, c :: cs =>
    match Opt.findLetter? c, cs with
    | none, _ => ([.on s], none)
    | some (.switch t), [] => ([.on s, .on t], none)
    | some o, [] => ([.on s], some o)
    | some o, d :: ds => (.on s :: (shortSettings o (d :: ds)).1, (shortSettings o (d :: ds)).2)
  | .switch s, [] => ([.on s], none)
  | o, cs => ([.value o (String.ofList cs)], none)

/-- the settings of an option with the text attached to it -/
def optionSettings : Opt → Bool → Option String → List Setting × Option Opt
  | .switch s, _, none => ([.on s], none)
  | o, _, none => ([], some o)
  | o, false, some text => shortSettings o text.toList
  | o, true, some text => ([.value o text], none)

/-- the settings of some words, where the first one may be the value of an option -/
def wordSettings : Option Opt → List (String × Word) → List Setting
  | _, [] => []
  | some o, (w, _) :: ws => .value o w :: wordSettings none ws
  | none, (_, .option o long attached) :: ws =>
    (optionSettings o long attached).1 ++ wordSettings (optionSettings o long attached).2 ws
  | none, _ :: ws => wordSettings none ws

def settings (argv : List String) : List Setting := wordSettings none (classify argv)

/-- a double hyphen counts as no value -/
def valueText (text : String) : Option String := if text = "--" then none else some text

def formatNamed (text : String) : Option Format := formats.find? fun f => f.name = text

def Arguments.set (a : Arguments) : Setting → Arguments
  | .on .help | .value (.switch .help) _ => { a with showHelp := true }
  | .on .version | .value (.switch .version) _ => { a with showVersion := true }
  | .on .env | .value (.switch .env) _ => { a with showEnv := true }
  | .value .out text => { a with out := valueText text }
  | .value .format text => { a with format := (valueText text).bind formatNamed }

variable {a : Arguments} {r r' : Reading} {o : Opt} {p p' : Option Opt} {text : String}
  {long : Bool} {attached : Option String} {cs : List Char} {ws : List (String × Word)}
  {l : List Setting} {argv : List String}

/-! ## reading -/

theorem bind_ok {α β : Type} {x : Reader α} {f : α → Reader β} {b : β} (h : x >>= f = .ok b) :
    ∃ a, x = .ok a ∧ f a = .ok b := by
  cases x with
  | error e => cases h
  | ok a => exact ⟨a, rfl, h⟩

theorem args_setSwitch (r : Reading) (s : Switch) : (r.setSwitch s).args = r.args.set (.on s) := by
  cases s <;> rfl

theorem args_setValue (h : r.setValue o text = .ok r') : r'.args = r.args.set (.value o text) := by
  cases o with
  | switch s =>
    cases h
    cases s <;> rfl
  | out =>
    cases h
    rfl
  | format =>
    rw [Reading.setValue] at h
    rw [Arguments.set, valueText]
    split at h
    · next hnone =>
      cases h
      rw [if_pos hnone, Option.bind_none]
    · next hsome =>
      rw [if_neg hsome, Option.bind_some, formatNamed]
      split at h
      · next f hf =>
        cases h
        rw [hf]
      · cases h

theorem args_valueGiven (h : (do return (← r.setValue o text, none) : Reader _) = .ok (r', p)) :
    r'.args = [Setting.value o text].foldl Arguments.set r.args ∧ none = p := by
  obtain ⟨r₁, h₁, h₂⟩ := bind_ok h
  cases h₂
  exact ⟨args_setValue h₁, rfl⟩

theorem args_attachShort (h : r.attachShort o cs = .ok (r', p)) :
    r'.args = (shortSettings o cs).1.foldl Arguments.set r.args ∧ (shortSettings o cs).2 = p := by
  induction cs generalizing r o with
  | nil =>
    cases o with
    | switch s => cases h
    | out => exact args_valueGiven h
    | format => exact args_valueGiven h
  | cons c cs ih =>
    cases o with
    | switch s =>
      rw [Reading.attachShort.eq_def] at h
      rw [shortSettings.eq_def]
      dsimp only at h ⊢
      cases hc : Opt.findLetter? c with
      | none =>
        rw [hc] at h
        cases h
      | some o =>
        rw [hc] at h
        cases cs with
        | nil =>
          cases o with
          | switch t =>
            cases h
            exact ⟨by rw [args_setSwitch, args_setSwitch]; rfl, rfl⟩
          | out =>
            cases h
            exact ⟨args_setSwitch r s, rfl⟩
          | format =>
            cases h
            exact ⟨args_setSwitch r s, rfl⟩
        | cons d ds =>
          have hrest : (r.setSwitch s).attachShort o (d :: ds) = .ok (r', p) := by
            cases o <;> exact h
          obtain ⟨hargs, hp⟩ := ih hrest
          rw [args_setSwitch] at hargs
          cases o <;> exact ⟨hargs, hp⟩
    | out => exact args_valueGiven h
    | format => exact args_valueGiven h

theorem args_takeOption (h : r.takeOption o long attached = .ok (r', p)) :
    r'.args = (optionSettings o long attached).1.foldl Arguments.set r.args ∧
      (optionSettings o long attached).2 = p := by
  cases attached with
  | none =>
    cases o with
    | switch s =>
      cases h
      exact ⟨args_setSwitch r s, rfl⟩
    | out =>
      cases h
      exact ⟨rfl, rfl⟩
    | format =>
      cases h
      exact ⟨rfl, rfl⟩
  | some text =>
    cases long with
    | false => cases o <;> exact args_attachShort h
    | true =>
      cases o with
      | switch s => cases h
      | out => exact args_valueGiven h
      | format => exact args_valueGiven h

theorem args_addName (r : Reading) (w : String) : (r.addName w).args = r.args := by
  rw [Reading.addName]
  split <;> rfl

theorem args_readWords (h : readWords r p ws = .ok r') :
    r'.args = (wordSettings p ws).foldl Arguments.set r.args := by
  induction ws generalizing r p with
  | nil =>
    cases p with
    | none =>
      cases h
      rfl
    | some o => cases h
  | cons word ws ih =>
    obtain ⟨w, kind⟩ := word
    cases p with
    | some o =>
      cases kind with
      | name =>
        obtain ⟨r₁, h₁, h₂⟩ := bind_ok h
        rw [ih h₂, args_setValue h₁]
        rfl
      | endOfOptions => cases h
      | option o' long attached => cases h
      | unknownOption => cases h
    | none =>
      cases kind with
      | name => rw [ih h, args_addName]; rfl
      | endOfOptions => rw [ih h, args_addName]; rfl
      | option o long attached =>
        obtain ⟨⟨r₁, p₁⟩, h₁, h₂⟩ := bind_ok h
        obtain ⟨hargs, rfl⟩ := args_takeOption h₁
        rw [ih h₂, hargs, wordSettings, List.foldl_append]
      | unknownOption => rw [ih h]; rfl

theorem parse_args {args : Arguments} (h : parse argv = .ok args) :
    args = { (settings argv).foldl Arguments.set {} with only := args.only } := by
  obtain ⟨r, hread, h⟩ := bind_ok h
  split at h
  · cases h
    rw [args_readWords hread]
    rfl
  · cases h

/-! ## names behind an output path -/

namespace Setting

def turnsOn (s : Switch) : Setting → Bool
  | on t | value (.switch t) _ => t = s
  | value .out _ | value .format _ => false

def valueOf? (o : Opt) : Setting → Option String
  | value o' text => if o' = o then some text else none
  | on _ => none

end Setting

def isOn (s : Switch) (l : List Setting) : Bool := l.any fun x => x.turnsOn s

/-- of several values of an option the last one counts -/
def lastValue (o : Opt) (l : List Setting) : Option String := (l.filterMap (Setting.valueOf? o)).getLast?

theorem lastValue_foldl {α : Type} {o : Opt} {field : Arguments → α} {read : String → α}
    (hset : ∀ a text, field (Arguments.set a (.value o text)) = read text)
    (hkeep : ∀ a x, x.valueOf? o = none → field (Arguments.set a x) = field a) (a : Arguments)
    (l : List Setting) :
    field (l.foldl Arguments.set a) = (lastValue o l).elim (field a) read := by
  induction l generalizing a with
  | nil => rfl
  | cons x l ih =>
    rw [List.foldl_cons, ih, lastValue, lastValue, List.filterMap_cons]
    cases hx : x.valueOf? o with
    | none => rw [hkeep a x hx]
    | some text =>
      have hvalue : x = .value o text := by
        cases x with
        | on s => cases hx
        | value o' text' =>
          rw [Setting.valueOf?] at hx
          split at hx
          · next ho =>
            cases hx
            rw [ho]
          · cases hx
      rw [hvalue, hset, List.getLast?_cons]
      cases (l.filterMap (Setting.valueOf? o)).getLast? <;> rfl

/-- a setting without a value for an option leaves what the option was given before -/
theorem out_set_of_none (a : Arguments) (x : Setting) (hx : x.valueOf? .out = none) :
    (a.set x).out = a.out := by
  cases x with
  | on s => cases s <;> rfl
  | value o text =>
    cases o with
    | switch s => cases s <;> rfl
    | out => cases hx
    | format => rfl

theorem format_set_of_none (a : Arguments) (x : Setting) (hx : x.valueOf? .format = none) :
    (a.set x).format = a.format := by
  cases x with
  | on s => cases s <;> rfl
  | value o text =>
    cases o with
    | switch s => cases s <;> rfl
    | out => rfl
    | format => cases hx

def Arguments.switch (a : Arguments) : Switch → Bool
  | .help => a.showHelp
  | .version => a.showVersion
  | .env => a.showEnv

theorem switch_set (s : Switch) (a : Arguments) (x : Setting) :
    (a.set x).switch s = (a.switch s || x.turnsOn s) := by
  cases x with
  | on t => cases s <;> cases t <;> simp [Arguments.set, Arguments.switch, Setting.turnsOn]
  | value o text =>
    cases o with
    | switch t => cases s <;> cases t <;> simp [Arguments.set, Arguments.switch, Setting.turnsOn]
    | out => cases s <;> simp [Arguments.set, Arguments.switch, Setting.turnsOn]
    | format => cases s <;> simp [Arguments.set, Arguments.switch, Setting.turnsOn]

theorem switch_foldl (s : Switch) (a : Arguments) (l : List Setting) :
    (l.foldl Arguments.set a).switch s = (a.switch s || isOn s l) := by
  induction l generalizing a with
  | nil => rw [List.foldl_nil, isOn, List.any_nil, Bool.or_false]
  | cons x l ih => rw [List.foldl_cons, ih, switch_set, isOn, isOn, List.any_cons, Bool.or_assoc]

end LetPoly.CommandLine
