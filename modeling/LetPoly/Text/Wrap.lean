import LetPoly.Text.Classes

/-!
# Wrapping

A text is put on lines of limited width: its tabs are expanded, it is cut into pieces at the places
where a line may end, and each line is filled with pieces.

A text may be broken between two of its characters

* where blanks begin or end;
* before and after a dash, which is two or more hyphens between words;
* after a single hyphen between two letters and a letter, as in `goof-ball` or `a-b-c`.

`pieces` cuts a text at all these places and loses nothing.
-/

namespace LetPoly.Text

def isBlank (c : Char) : Bool :=
  c == ' ' || c == '\t' || c == '\n' || c == '\x0b' || c == '\x0c' || c == '\r'

/-- a character that a word can end with, marks included -/
def isWordEnd (c : Char) : Bool :=
  isWord c || c == '!' || c == '"' || c == '\'' || c == '&' || c == '.' || c == ',' || c == '?'

/-- what stands behind two or more hyphens -/
def beyondDash? : List Char → Option Char
  | '-' :: '-' :: cs => (cs.dropWhile (· == '-')).head?
  | _ => none

/-- a hyphen behind two letters, which may have a hyphen between them; the nearest character comes
first -/
def hyphenBehind : List Char → Bool
  | '-' :: x :: y :: cs =>
    isLetter x && (isLetter y || y == '-' && cs.head?.any isLetter)
  | _ => false

/-- two letters, perhaps with a hyphen between them -/
def lettersAhead : List Char → Bool
  | a :: b :: cs => isLetter a && (isLetter b || b == '-' && cs.head?.any isLetter)
  | _ => false

/-- whether a text may be broken between `behind`, its nearest character first, and `ahead` -/
def breakable (behind ahead : List Char) : Bool :=
  match behind, ahead with
  | b :: _, a :: _ =>
    isBlank b != isBlank a
      || isWordEnd b && (beyondDash? ahead).any isWord
      || isWord a && (beyondDash? behind).any isWordEnd
      || hyphenBehind behind && lettersAhead ahead
  | _, _ => false

/-- the pieces of a text that goes on after `behind` -/
def piecesAfter (behind : List Char) : List Char → List (List Char)
  | [] => []
  | c :: cs =>
    match piecesAfter (c :: behind) cs with
    | [] => [[c]]
    | p :: ps => if breakable (c :: behind) cs then [c] :: p :: ps else (c :: p) :: ps

def pieces (text : List Char) : List (List Char) := piecesAfter [] text

theorem flatten_piecesAfter (behind cs : List Char) : (piecesAfter behind cs).flatten = cs := by
  induction cs generalizing behind with
  | nil => rfl
  | cons c cs ih =>
    rw [piecesAfter]
    have h := ih (c :: behind)
    split
    · next hp => rw [hp] at h; simpa using h
    · next p ps hp =>
      rw [hp] at h
      split <;> simpa using h

@[simp] theorem flatten_pieces (cs : List Char) : (pieces cs).flatten = cs :=
  flatten_piecesAfter [] cs

/-!
## tabs

A tab is replaced by as many blanks as lead to the next stop; a line feed and a carriage return
start again at column zero.
-/

/-- the column after a character other than a tab -/
def nextColumn (col : Nat) (c : Char) : Nat := if c = '\n' ∨ c = '\r' then 0 else col + 1

/-- expand the tabs of a text that starts at a column, with a stop every `size` columns -/
def expandTabs (size : Nat) : Nat → List Char → List Char
  | _, [] => []
  | col, c :: cs =>
    if c = '\t' then
      let width := size - col % size
      List.replicate width ' ' ++ expandTabs size (col + width) cs
    else c :: expandTabs size (nextColumn col c) cs

theorem expandTabs_of_notMem (size col : Nat) (cs : List Char) (h : '\t' ∉ cs) :
    expandTabs size col cs = cs := by
  induction cs generalizing col with
  | nil => rfl
  | cons c cs ih =>
    rw [List.mem_cons, not_or] at h
    rw [expandTabs, if_neg (Ne.symm h.1), ih _ h.2]

/-!
## filling lines

A text is put on lines of limited width, each line as full as its pieces allow.  Blanks and line
feeds are kept as they are.  A piece that is wider than a line is cut, after its last hyphen that
still fits if there is one behind something else, and its beginning goes on the current line.
-/

/-- the beginning of a piece that does not fit into `room` places -/
def cut (room : Nat) (piece : List Char) : List Char :=
  let part := piece.take room
  let toHyphen := (part.reverse.dropWhile (· != '-')).reverse
  if toHyphen.any (· != '-') then toHyphen else part

theorem cut_prefix_take (room : Nat) (piece : List Char) : cut room piece <+: piece.take room := by
  rw [cut]
  split
  · rw [← List.reverse_reverse (piece.take room), List.reverse_prefix, List.reverse_reverse]
    exact List.dropWhile_suffix _
  · exact List.prefix_rfl

theorem cut_append_drop (room : Nat) (piece : List Char) :
    cut room piece ++ piece.drop (cut room piece).length = piece := by
  obtain ⟨t, ht⟩ := (cut_prefix_take room piece).trans (List.take_prefix room piece)
  generalize cut room piece = front at ht
  rw [← ht, List.drop_left]

/-- put a piece on the current line: the lines that are full now, and the line after them -/
def placeWithin (width : Nat) : Nat → List Char → List Char → List (List Char) × List Char
  | 0, line, piece => ([], line ++ piece)
  | fuel + 1, line, piece =>
    if line.length + piece.length ≤ width then ([], line ++ piece)
    else if piece.length ≤ width then ([line], piece)
    else
      let head := cut (width - line.length) piece
      let (full, last) := placeWithin width fuel [] (piece.drop head.length)
      ((line ++ head) :: full, last)

/-- each cut but the first makes the piece shorter, so its length is enough -/
def place (width : Nat) (line piece : List Char) : List (List Char) × List Char :=
  placeWithin width (piece.length + 1) line piece

theorem flatten_placeWithin (width fuel : Nat) (line piece : List Char) :
    (placeWithin width fuel line piece).1.flatten ++ (placeWithin width fuel line piece).2 =
      line ++ piece := by
  induction fuel generalizing line piece with
  | zero => rfl
  | succ fuel ih =>
    rw [placeWithin]
    split
    · rfl
    · split
      · simp
      · have h := ih [] (piece.drop (cut (width - line.length) piece).length)
        simp only [List.flatten_cons, List.append_assoc]
        rw [h, List.nil_append, cut_append_drop]

/-- the lines of the pieces that follow `line` -/
def fill (width : Nat) (line : List Char) : List (List Char) → List (List Char)
  | [] => if line.isEmpty then [] else [line]
  | p :: ps =>
    let (full, last) := place width line p
    full ++ fill width last ps

theorem flatten_fill (width : Nat) (line : List Char) (ps : List (List Char)) :
    (fill width line ps).flatten = line ++ ps.flatten := by
  induction ps generalizing line with
  | nil =>
    rw [fill]
    split
    · next h => rw [List.isEmpty_iff] at h; simp [h]
    · simp
  | cons p ps ih =>
    rw [fill, List.flatten_append, ih, ← List.append_assoc, place, flatten_placeWithin,
      List.flatten_cons, List.append_assoc]

def tabSize : Nat := 4

/-- the lines of a text with its tabs expanded -/
def lines (width : Nat) (text : String) : List String :=
  (fill width [] (pieces (expandTabs tabSize 0 text.toList))).map String.ofList

def wrap (width : Nat) (text : String) : String := "\n".intercalate (lines width text)

end LetPoly.Text
