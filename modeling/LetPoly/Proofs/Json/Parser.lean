import LetPoly.Json
import Mathlib.Data.List.Basic

/-!
# Reading JSON

A reader of JSON texts, which knows all of the grammar: blanks, numbers, literals, arrays, objects,
and strings with every kind of escape.  It reads back the objects that reports are written as, in
either set of characters (`parse?_object`).

* `Json.Value`        what a text stands for;
* `Json.readChar?`    one character of a string, `readChar?_escapeChar` undoes its escape;
* `Json.readValue?`   one value at the start of a text, in at most so many nested steps;
* `Json.parse?`       the value that a whole text stands for.
-/

namespace LetPoly.Json

open LetPoly.Text

inductive Value where
  | null
  | bool (b : Bool)
  /-- a number as it is written -/
  | number (literal : String)
  | string (s : String)
  | array (items : List Value)
  | object (members : List (String × Value))

/-! ## strings -/

def hexValue? (c : Char) : Option Nat :=
  if '0' ≤ c ∧ c ≤ '9' then some (c.toNat - '0'.toNat)
  else if 'a' ≤ c ∧ c ≤ 'f' then some (c.toNat - 'a'.toNat + 10)
  else if 'A' ≤ c ∧ c ≤ 'F' then some (c.toNat - 'A'.toNat + 10)
  else none

/-- one UTF-16 unit in four hexadecimal digits -/
def readUnit? : List Char → Option (Nat × List Char)
  | a :: b :: c :: d :: rest => do
    let a ← hexValue? a
    let b ← hexValue? b
    let c ← hexValue? c
    let d ← hexValue? d
    return (((a * 16 + b) * 16 + c) * 16 + d, rest)
  | _ => none

/-- the code point that a pair of surrogates stands for -/
def pairValue (high low : Nat) : Nat := 0x10000 + (high - 0xd800) * 0x400 + (low - 0xdc00)

/-- the character of an escape that has begun with `\u`; a surrogate stands for a character only in
a pair with another one -/
def readUnits? (cs : List Char) : Option (Char × List Char) := do
  let (high, rest) ← readUnit? cs
  if 0xd800 ≤ high ∧ high < 0xdc00 then
    let (low, rest) ← readUnit? (← ['\\', 'u'].isPrefixOf? rest)
    if 0xdc00 ≤ low ∧ low < 0xe000 then
      return (Char.ofNat (pairValue high low), rest)
    else none
  else if 0xdc00 ≤ high ∧ high < 0xe000 then none
  else return (Char.ofNat high, rest)

/-- the character of an escape, after its backslash -/
def readEscape? : List Char → Option (Char × List Char)
  | [] => none
  | c :: rest =>
    if c = '"' ∨ c = '\\' ∨ c = '/' then some (c, rest)
    else if c = 'n' then some ('\n', rest)
    else if c = 'r' then some ('\r', rest)
    else if c = 't' then some ('\t', rest)
    else if c = 'b' then some ('\x08', rest)
    else if c = 'f' then some ('\x0c', rest)
    else if c = 'u' then readUnits? rest
    else none

def readChar? : List Char → Option (Char × List Char)
  | [] => none
  | c :: rest =>
    if c = '\\' then readEscape? rest
    else if c = '"' ∨ c.toNat < 0x20 then none
    else some (c, rest)

/-- the characters up to the closing quote, which are fewer than `fuel` -/
def readChars? : Nat → List Char → Option (List Char × List Char)
  | 0, _ => none
  | fuel + 1, cs =>
    match readChar? cs with
    | some (c, rest) => do
      let (s, rest) ← readChars? fuel rest
      return (c :: s, rest)
    | none => do return ([], ← ['"'].isPrefixOf? cs)

def readString? (cs : List Char) : Option (String × List Char) := do
  let (s, rest) ← readChars? (cs.length + 1) cs
  return (String.ofList s, rest)

/-! ## values -/

def skipBlanks (cs : List Char) : List Char :=
  cs.dropWhile fun c => c = ' ' ∨ c = '\t' ∨ c = '\n' ∨ c = '\r'

def readDigits? (cs : List Char) : Option (List Char × List Char) :=
  match cs.span Char.isDigit with
  | ([], _) => none
  | (digits, rest) => some (digits, rest)

/-- an integer without a sign, which starts with zero only if it is zero -/
def readInteger? : List Char → Option (List Char × List Char)
  | '0' :: rest => some (['0'], rest)
  | cs => readDigits? cs

def readFraction? : List Char → Option (List Char × List Char)
  | '.' :: rest => do
    let (digits, rest) ← readDigits? rest
    return ('.' :: digits, rest)
  | cs => some ([], cs)

def readExponent? : List Char → Option (List Char × List Char)
  | [] => some ([], [])
  | c :: rest =>
    if c = 'e' ∨ c = 'E' then do
      let sign := rest.take 1 |>.filter fun d => d = '+' ∨ d = '-'
      let (digits, rest) ← readDigits? (rest.drop sign.length)
      return (c :: sign ++ digits, rest)
    else some ([], c :: rest)

def readNumber? (cs : List Char) : Option (Value × List Char) := do
  let sign := cs.take 1 |>.filter fun c => c = '-'
  let (whole, rest) ← readInteger? (cs.drop sign.length)
  let (fraction, rest) ← readFraction? rest
  let (exponent, rest) ← readExponent? rest
  return (.number (String.ofList (sign ++ whole ++ fraction ++ exponent)), rest)

/-- a value that is written as one word -/
def readWord? (word : String) (v : Value) (cs : List Char) : Option (Value × List Char) := do
  return (v, ← word.toList.isPrefixOf? cs)

def readAtom? (cs : List Char) : Option (Value × List Char) :=
  readWord? "null" .null cs <|> readWord? "true" (.bool true) cs
    <|> readWord? "false" (.bool false) cs <|> readNumber? cs

mutual
def readValue? : Nat → List Char → Option (Value × List Char)
  | 0, _ => none
  | fuel + 1, cs =>
    match skipBlanks cs with
    | '"' :: rest => do
      let (s, rest) ← readString? rest
      return (.string s, rest)
    | '[' :: rest =>
      match skipBlanks rest with
      | ']' :: rest => some (.array [], rest)
      | rest => do
        let (items, rest) ← readItems? fuel rest
        return (.array items, rest)
    | '\x7b' :: rest =>
      match skipBlanks rest with
      | '\x7d' :: rest => some (.object [], rest)
      | rest => do
        let (members, rest) ← readMembers? fuel rest
        return (.object members, rest)
    | rest => readAtom? rest

/-- the items of an array up to its closing bracket -/
def readItems? : Nat → List Char → Option (List Value × List Char)
  | 0, _ => none
  | fuel + 1, cs => do
    let (v, rest) ← readValue? fuel cs
    match skipBlanks rest with
    | ',' :: rest => do
      let (items, rest) ← readItems? fuel rest
      return (v :: items, rest)
    | ']' :: rest => some ([v], rest)
    | _ => none

def readMember? : Nat → List Char → Option ((String × Value) × List Char)
  | 0, _ => none
  | fuel + 1, cs => do
    let (key, rest) ← readString? (← ['"'].isPrefixOf? (skipBlanks cs))
    let (v, rest) ← readValue? fuel (← [':'].isPrefixOf? (skipBlanks rest))
    return ((key, v), rest)

/-- the members of an object up to its closing bracket -/
def readMembers? : Nat → List Char → Option (List (String × Value) × List Char)
  | 0, _ => none
  | fuel + 1, cs => do
    let (m, rest) ← readMember? fuel cs
    match skipBlanks rest with
    | ',' :: rest => do
      let (members, rest) ← readMembers? fuel rest
      return (m :: members, rest)
    | '\x7d' :: rest => some ([m], rest)
    | _ => none
end

/-- the value that a text stands for, with nothing but blanks behind it -/
def parse? (text : String) : Option Value := do
  let (v, rest) ← readValue? (text.length + 1) text.toList
  if skipBlanks rest = [] then some v else none

/-! ## escapes are undone -/

variable {cs : Charset} {rest : List Char}

theorem hexValue?_digitChar : ∀ d < 16, hexValue? (Nat.digitChar d) = some d := by decide

theorem readUnit?_hex {n : Nat} (hn : n < 0x10000) :
    readUnit? (hex 4 n ++ rest) = some (n, rest) := by
  have hdigits : hex 4 n = [Nat.digitChar (n / 16 / 16 / 16 % 16),
      Nat.digitChar (n / 16 / 16 % 16), Nat.digitChar (n / 16 % 16), Nat.digitChar (n % 16)] := rfl
  have hvalue (m : Nat) : hexValue? (Nat.digitChar (m % 16)) = some (m % 16) :=
    hexValue?_digitChar (m % 16) (Nat.mod_lt m (by omega))
  have hsum : ((n / 16 / 16 / 16 % 16 * 16 + n / 16 / 16 % 16) * 16 + n / 16 % 16) * 16 + n % 16 =
      n := by omega
  simp [hdigits, readUnit?, hvalue, hsum]

theorem isPrefixOf?_append (word : List Char) (rest : List Char) :
    word.isPrefixOf? (word ++ rest) = some rest := by
  induction word with
  | nil => rfl
  | cons c word ih => simp [List.isPrefixOf?, ih]

theorem readUnits?_unit {c : Char} (hc : c.toNat < 0x10000) :
    readUnits? (hex 4 c.toNat ++ rest) = some (c, rest) := by
  have hvalid : c.toNat < 0xd800 ∨ 0xdfff < c.toNat ∧ c.toNat < 0x110000 := c.valid
  have hhigh : ¬ (0xd800 ≤ c.toNat ∧ c.toNat < 0xdc00) := by omega
  have hlow : ¬ (0xdc00 ≤ c.toNat ∧ c.toNat < 0xe000) := by omega
  rw [readUnits?, readUnit?_hex hc]
  simp [hhigh, hlow]

theorem readUnits?_pair {high low : Nat} (hhigh : 0xd800 ≤ high ∧ high < 0xdc00)
    (hlow : 0xdc00 ≤ low ∧ low < 0xe000) :
    readUnits? (hex 4 high ++ (unit low ++ rest)) = some (Char.ofNat (pairValue high low), rest) := by
  have hword : ['\\', 'u'].isPrefixOf? (unit low ++ rest) = some (hex 4 low ++ rest) :=
    isPrefixOf?_append ['\\', 'u'] (hex 4 low ++ rest)
  have hread : readUnit? (hex 4 low ++ rest) = some (low, rest) := readUnit?_hex (by omega)
  rw [readUnits?, readUnit?_hex (by omega)]
  simp [hhigh, hword, hread, hlow]

theorem readChar?_unit {c : Char} (hc : c.toNat < 0x10000) :
    readChar? (unit c.toNat ++ rest) = some (c, rest) := by
  show readUnits? (hex 4 c.toNat ++ rest) = _
  exact readUnits?_unit hc

theorem readChar?_units (c : Char) : readChar? (units c.toNat ++ rest) = some (c, rest) := by
  have hvalid : c.toNat < 0xd800 ∨ 0xdfff < c.toNat ∧ c.toNat < 0x110000 := c.valid
  unfold units
  by_cases hc : c.toNat < 0x10000
  · rw [if_pos hc]
    exact readChar?_unit hc
  · rw [if_neg hc, List.append_assoc]
    have hpair : pairValue (0xd800 + (c.toNat - 0x10000) / 0x400)
        (0xdc00 + (c.toNat - 0x10000) % 0x400) = c.toNat := by
      unfold pairValue
      omega
    refine (readUnits?_pair (by omega) (by omega)).trans ?_
    rw [hpair, Char.ofNat_toNat]

theorem readChar?_escapeChar (cs : Charset) (c : Char) (rest : List Char) :
    readChar? (escapeChar cs c ++ rest) = some (c, rest) := by
  unfold escapeChar
  split
  · next h => rcases h with rfl | rfl <;> rfl
  · next hmark =>
    split
    · next h => subst h; rfl
    split
    · next h => subst h; rfl
    split
    · next h => subst h; rfl
    split
    · next h => subst h; rfl
    split
    · next h => subst h; rfl
    split
    · next h => exact readChar?_unit (by omega)
    · next hctl =>
      split
      · exact readChar?_units c
      · rw [not_or] at hmark
        simp [readChar?, hmark, hctl]

theorem escapeChar_ne_nil (cs : Charset) (c : Char) : escapeChar cs c ≠ [] := by
  intro h
  have hread := readChar?_escapeChar cs c []
  rw [h] at hread
  cases hread

theorem length_le_escape (cs : Charset) (s : List Char) : s.length ≤ (escape cs s).length := by
  induction s with
  | nil => exact Nat.zero_le _
  | cons c s ih =>
    have hpos := List.length_pos_iff.2 (escapeChar_ne_nil cs c)
    rw [escape_cons, List.length_append, List.length_cons]
    omega

theorem readChars?_escape {s : List Char} {fuel : Nat} (hfuel : s.length < fuel) :
    readChars? fuel (escape cs s ++ '"' :: rest) = some (s, rest) := by
  induction s generalizing fuel with
  | nil =>
    cases fuel with
    | zero => omega
    | succ fuel => rfl
  | cons c s ih =>
    rw [List.length_cons] at hfuel
    cases fuel with
    | zero => omega
    | succ fuel =>
      rw [escape_cons, List.append_assoc, readChars?, readChar?_escapeChar]
      simp [ih (show s.length < fuel by omega)]

theorem readString?_escape (s : String) :
    readString? (escape cs s.toList ++ '"' :: rest) = some (s, rest) := by
  have hle := length_le_escape cs s.toList
  rw [readString?, readChars?_escape (by rw [List.length_append]; omega)]
  simp

/-! ## objects are read back -/

theorem toList_string (cs : Charset) (s : String) :
    (string cs s).toList = '"' :: (escape cs s.toList ++ ['"']) := by
  rw [string, String.toList_ofList]
  rfl

theorem readValue?_string (s : String) (fuel : Nat) :
    readValue? (fuel + 1) (' ' :: ((string cs s).toList ++ rest)) = some (.string s, rest) := by
  have hblank : skipBlanks (' ' :: '"' :: (escape cs s.toList ++ '"' :: rest)) =
      '"' :: (escape cs s.toList ++ '"' :: rest) := rfl
  rw [toList_string, List.cons_append, List.append_assoc, List.singleton_append, readValue?, hblank]
  simp [readString?_escape]

theorem toList_field (cs : Charset) (f : String × String) :
    (field cs f).toList =
      '"' :: (escape cs f.1.toList ++ '"' :: ':' :: ' ' :: (string cs f.2).toList) := by
  rw [field, String.toList_append, String.toList_append, toList_string]
  simp

theorem readMember?_field (f : String × String) {fuel : Nat} (hfuel : 2 ≤ fuel) :
    readMember? fuel ((field cs f).toList ++ rest) = some ((f.1, .string f.2), rest) := by
  obtain ⟨fuel, rfl⟩ := Nat.exists_eq_add_of_le' hfuel
  have hquote (text : List Char) : skipBlanks ('"' :: text) = '"' :: text := rfl
  have hcolon (text : List Char) : skipBlanks (':' :: text) = ':' :: text := rfl
  rw [toList_field, readMember?, List.cons_append, hquote]
  simp [List.isPrefixOf?, readString?_escape, hcolon, readValue?_string]

theorem readMembers?_blank (fuel : Nat) (text : List Char) :
    readMembers? fuel (' ' :: text) = readMembers? fuel text := by
  cases fuel with
  | zero => rfl
  | succ fuel =>
    cases fuel with
    | zero => rfl
    | succ fuel => rfl

def members (fields : List (String × String)) : List (String × Value) :=
  fields.map fun f => (f.1, .string f.2)

theorem readMembers?_fields (f : String × String) (fields : List (String × String)) {fuel : Nat}
    (hfuel : fields.length + 3 ≤ fuel) :
    readMembers? fuel ((", ".intercalate ((f :: fields).map (field cs))).toList ++ '\x7d' :: rest) =
      some (members (f :: fields), rest) := by
  induction fields generalizing f fuel with
  | nil =>
    cases fuel with
    | zero => omega
    | succ fuel =>
      rw [List.length_nil] at hfuel
      have hclose : skipBlanks ('\x7d' :: rest) = '\x7d' :: rest := rfl
      rw [List.map_singleton, String.intercalate_singleton, readMembers?,
        readMember?_field f (by omega)]
      simp [hclose, members]
  | cons g fields ih =>
    cases fuel with
    | zero => omega
    | succ fuel =>
      rw [List.length_cons] at hfuel
      have htail := ih g (show fields.length + 3 ≤ fuel by omega)
      have hcomma (text : List Char) : skipBlanks (',' :: text) = ',' :: text := rfl
      rw [List.map_cons] at htail
      rw [List.map_cons, List.map_cons, String.intercalate_cons_cons]
      generalize ", ".intercalate (field cs g :: fields.map (field cs)) = tail at htail ⊢
      rw [String.append_assoc, String.toList_append, List.append_assoc, readMembers?,
        readMember?_field f (by omega)]
      simp [hcomma, readMembers?_blank, htail, members]

theorem length_le_intercalate (cs : Charset) (fields : List (String × String)) :
    fields.length ≤ (", ".intercalate (fields.map (field cs))).length := by
  induction fields with
  | nil => exact Nat.zero_le _
  | cons f fields ih =>
    have hpos : 1 ≤ (field cs f).length := by
      rw [← String.length_toList, toList_field, List.length_cons]
      omega
    cases fields with
    | nil => simpa using hpos
    | cons g fields =>
      rw [List.map_cons, List.map_cons, String.intercalate_cons_cons, String.length_append,
        String.length_append, List.length_cons]
      rw [List.map_cons] at ih
      omega

/-- members start with the quote of the first one -/
theorem exists_toList_fields (cs : Charset) (f : String × String) (fields : List (String × String)) :
    ∃ text, (", ".intercalate ((f :: fields).map (field cs))).toList = '"' :: text := by
  cases fields with
  | nil =>
    rw [List.map_singleton, String.intercalate_singleton, toList_field]
    exact ⟨_, rfl⟩
  | cons g fields =>
    rw [List.map_cons, List.map_cons, String.intercalate_cons_cons, String.append_assoc,
      String.toList_append, toList_field]
    exact ⟨_, rfl⟩

theorem toList_object (cs : Charset) (fields : List (String × String)) :
    (object cs fields).toList =
      '\x7b' :: ((", ".intercalate (fields.map (field cs))).toList ++ ['\x7d']) := by
  rw [object, String.toList_append, String.toList_append]
  rfl

theorem parse?_object (cs : Charset) (fields : List (String × String)) :
    parse? (object cs fields) = some (.object (members fields)) := by
  have hlength := length_le_intercalate cs fields
  have hobject := congrArg List.length (toList_object cs fields)
  rw [String.length_toList, List.length_cons, List.length_append, String.length_toList,
    List.length_singleton] at hobject
  have hbrace (text : List Char) : skipBlanks ('\x7b' :: text) = '\x7b' :: text := rfl
  have hnil : skipBlanks [] = [] := rfl
  cases fields with
  | nil =>
    have hclose (text : List Char) : skipBlanks ('\x7d' :: text) = '\x7d' :: text := rfl
    rw [parse?, toList_object, readValue?, hbrace]
    simp [hclose, hnil, members]
  | cons f fields =>
    have hread : readMembers? (object cs (f :: fields)).length
        ((", ".intercalate ((f :: fields).map (field cs))).toList ++ ['\x7d']) =
          some (members (f :: fields), []) := by
      refine readMembers?_fields f fields ?_
      rw [List.length_cons] at hlength
      omega
    have hquote (text : List Char) : skipBlanks ('"' :: text) = '"' :: text := rfl
    obtain ⟨text, htext⟩ := exists_toList_fields cs f fields
    rw [parse?, toList_object, readValue?, hbrace, htext]
    rw [htext, List.cons_append] at hread
    simp [hquote, hread, hnil]

/-- texts that are written in other ways are read as well -/
example : parse? " [\x7b\"a\\/\" : -1.5E+3 \x7d ,\ntrue]" =
    some (.array [.object [("a/", .number "-1.5E+3")], .bool true]) := by cbv

/-- half a pair of surrogates is no character -/
example : parse? "\"\\ud83d\"" = none := by cbv

/-- nothing may be left out behind a comma -/
example : parse? "[1,]" = none := by cbv

end LetPoly.Json
