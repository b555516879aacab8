import LetPoly.Text.Classes

/-!
# Escapes

Texts that are written with escapes, since some of their characters cannot stand for themselves:
quoted texts, and texts with lone surrogates.
-/

namespace LetPoly.Text

def hex : (count n : Nat) → List Char
  | 0, _ => []
  | count + 1, n => hex count (n / 16) ++ [Nat.digitChar (n % 16)]

/-!
## quoted texts

A text between quotes, as it appears inside a message.  Single quotes are used unless the text has
one and has no double quote.  The quote and the backslash get a backslash, and characters that are
not printable are written as escapes.
-/

/-- the quote around a text -/
def quoteFor (s : String) : Char := if s.contains '\'' && !s.contains '"' then '"' else '\''

def escapeQuoted (quote c : Char) : List Char :=
  if c = quote ∨ c = '\\' then ['\\', c]
  else if c = '\t' then ['\\', 't']
  else if c = '\n' then ['\\', 'n']
  else if c = '\r' then ['\\', 'r']
  else if isPrintable c then [c]
  else if c.toNat < 0x100 then '\\' :: 'x' :: hex 2 c.toNat
  else if c.toNat < 0x10000 then '\\' :: 'u' :: hex 4 c.toNat
  else '\\' :: 'U' :: hex 8 c.toNat

def quoted (s : String) : String :=
  let q := quoteFor s
  String.ofList (q :: s.toList.flatMap (escapeQuoted q) ++ [q])

def quotedTuple : List String → String
  | [s] => "(" ++ quoted s ++ ",)"
  | ss => "(" ++ ", ".intercalate (ss.map quoted) ++ ")"

/-!
## lone surrogates

Display names are code points, and some code points are no characters: the surrogates.  While a text
is put together, such a name is written as a character of its own, a `standIn`.  These are the last
code points of all, and no word characters; names get there when there are hardly any left.

A text is written as code points, with each stand-in turned back.  It has no bytes if there is a
surrogate among them.
-/

def isSurrogate (n : Nat) : Bool := 0xd800 ≤ n && n ≤ 0xdfff

/-- the first stand-in; the last one is the last code point -/
def standInStart : Nat := 0x10f800

def standIn (surrogate : Nat) : Nat := surrogate - 0xd800 + standInStart

/-- the character that a display name is written as -/
def nameChar (code : Nat) : Char := Char.ofNat (if isSurrogate code then standIn code else code)

theorem isSurrogate_of_valid {n : Nat} (h : n.isValidChar) : isSurrogate n = false := by
  rw [Nat.isValidChar] at h
  rw [isSurrogate, Bool.and_eq_false_iff, decide_eq_false_iff_not, decide_eq_false_iff_not]
  omega

/-- a name that is a character is written as itself -/
theorem nameChar_of_valid {n : Nat} (h : n.isValidChar) : nameChar n = Char.ofNat n := by
  rw [nameChar, isSurrogate_of_valid h]
  rfl

theorem nameChar_toNat (c : Char) : nameChar c.toNat = c := by
  have hvalid : c.toNat.isValidChar := c.valid
  rw [nameChar_of_valid hvalid, Char.ofNat_toNat]

def codePoints (s : String) : List Nat := s.toList.map Char.toNat

/-- the code point that a character of a text with display names stands for -/
def shownCode (c : Char) : Nat :=
  if standInStart ≤ c.toNat then c.toNat - standInStart + 0xd800 else c.toNat

def shownCodes (s : String) : List Nat := s.toList.map shownCode

def ofCodePoints (ns : List Nat) : String := String.ofList (ns.map Char.ofNat)

/-- a surrogate at this position of a text -/
structure EncodeFault where
  code : Nat
  position : Nat
  deriving DecidableEq

def EncodeFault.message (f : EncodeFault) : String :=
  "'utf-8' codec can't encode character '\\u" ++ String.ofList (hex 4 f.code) ++ "' in position "
    ++ toString f.position ++ ": surrogates not allowed"

/-- the first surrogate of a text that goes on at this position -/
def encodeFault? (position : Nat) : List Nat → Option EncodeFault
  | [] => none
  | n :: ns => if isSurrogate n then some ⟨n, position⟩ else encodeFault? (position + 1) ns

/-- a code point, or an escape if it is a surrogate -/
def escapeSurrogate (n : Nat) : List Char :=
  if isSurrogate n then '\\' :: 'u' :: hex 4 n else [Char.ofNat n]

def escaped (ns : List Nat) : String := String.ofList (ns.flatMap escapeSurrogate)

end LetPoly.Text
