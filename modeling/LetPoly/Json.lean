import LetPoly.Text.Escape

/-!
# JSON objects of texts

Reports are JSON objects whose values are strings, in the order of their fields.  Outside ASCII a
character is kept, or written as an escape of its UTF-16 units.
-/

namespace LetPoly.Json

open LetPoly.Text

inductive Charset where
  /-- every character that JSON allows in a string stands for itself -/
  | full
  /-- only the printable ASCII characters do -/
  | ascii
  deriving DecidableEq

def unit (n : Nat) : List Char := '\\' :: 'u' :: hex 4 n

/-- the escape of a code point, as two units above `U+FFFF` -/
def units (n : Nat) : List Char :=
  if n < 0x10000 then unit n
  else unit (0xd800 + (n - 0x10000) / 0x400) ++ unit (0xdc00 + (n - 0x10000) % 0x400)

def escapeChar (cs : Charset) (c : Char) : List Char :=
  if c = '"' ∨ c = '\\' then ['\\', c]
  else if c = '\n' then ['\\', 'n']
  else if c = '\r' then ['\\', 'r']
  else if c = '\t' then ['\\', 't']
  else if c = '\x08' then ['\\', 'b']
  else if c = '\x0c' then ['\\', 'f']
  else if c.toNat < 0x20 then unit c.toNat
  else if cs = .ascii ∧ 0x7e < c.toNat then units c.toNat
  else [c]

def escape (cs : Charset) (s : List Char) : List Char := s.flatMap (escapeChar cs)

theorem escape_cons (cs : Charset) (c : Char) (s : List Char) :
    escape cs (c :: s) = escapeChar cs c ++ escape cs s := rfl

def string (cs : Charset) (s : String) : String :=
  String.ofList ('"' :: escape cs s.toList ++ ['"'])

def field (cs : Charset) (f : String × String) : String :=
  string cs f.1 ++ ": " ++ string cs f.2

def object (cs : Charset) (fields : List (String × String)) : String :=
  "\x7b" ++ ", ".intercalate (fields.map (field cs)) ++ "\x7d"

end LetPoly.Json
