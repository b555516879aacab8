import LetPoly.Failure
import LetPoly.Store.Event
import LetPoly.Text.Escape

/-!
# The store of vars

A session makes vars and names them.  The store keeps, for every var of every session, what the var
is bound to and the display name it got.  Operations run in `StoreM`: a failure keeps all changes
made before it.

* `Store.binding?`   what a var is bound to, the view that every look-up goes through;
* `Store.label?`     the display name of a var, as a code point;
* `StoreM.newVar`, `StoreM.newOp`, `StoreM.assign`, `StoreM.note`   the basic steps;
* `StoreM.nameOf`    the display name of a var, picked the first time it is asked for.
-/

namespace LetPoly

structure Cell where
  binding : Option Ty := none
  label : Option Nat := none

structure Session where
  cells : Array Cell := #[]
  /-- the code point of the next display name -/
  cursor : Nat

structure Store where
  sessions : Array Session := #[]
  nextMark : Nat := Ty.firstMark
  /-- oldest first -/
  events : Array Event := #[]
  /-- whether a look-up shortens the chain of bindings that it follows -/
  compress : Bool := true

/-- the display name of the first var that is shown, unless a session is given another one -/
def firstName : String := "α"

/-- display names are code points below this one -/
def labelBound : Nat := 0x110000

namespace Store

def cell? (s : Store) (v : Var) : Option Cell :=
  (s.sessions[v.session]?).bind fun t => t.cells[v.id]?

def binding? (s : Store) (v : Var) : Option Ty := (s.cell? v).bind Cell.binding

def label? (s : Store) (v : Var) : Option Nat := (s.cell? v).bind Cell.label

def varCount (s : Store) : Nat := s.sessions.foldl (fun n t => n + t.cells.size) 0

def madeBy (s : Store) (session : Nat) : Nat :=
  match s.sessions[session]? with
  | some t => t.cells.size
  | none => 0

def modifySession (s : Store) (i : Nat) (f : Session → Session) : Store :=
  { s with sessions := s.sessions.modify i f }

def modifyCell (s : Store) (v : Var) (f : Cell → Cell) : Store :=
  s.modifySession v.session fun t => { t with cells := t.cells.modify v.id f }

end Store

abbrev StoreM := EStateM Failure Store

namespace StoreM

def note (e : Event) : StoreM Unit := modify fun s => { s with events := s.events.push e }

/-- open a session whose display names start at `first`, which has to be one character -/
def newSession (first : String) : StoreM Nat := do
  match first.toList with
  | [c] =>
    let i := (← get).sessions.size
    modify fun s => { s with sessions := s.sessions.push { cursor := c.toNat } }
    return i
  | cs => throw (.notOneCharacter cs.length)

/-- a new, unbound var without a display name -/
def newVar (session : Nat) : StoreM Var := do
  let id := (← get).madeBy session
  modify fun s => s.modifySession session fun t => { t with cells := t.cells.push {} }
  return ⟨session, id⟩

/-- an operator that is not the same as any built before -/
def newOp (name : String) (args : List Ty) : StoreM Ty := do
  let mark := (← get).nextMark
  modify fun s => { s with nextMark := mark + 1 }
  return .op mark name args

def newFunc (arg result : Ty) : StoreM Ty := newOp Ty.funcName [arg, result]

def newPair (first second : Ty) : StoreM Ty := newOp Ty.pairName [first, second]

/-- bind `v`, whatever it was bound to; with no type given it is unbound again -/
def assign (v : Var) (t : Option Ty) : StoreM Unit :=
  modify fun s => s.modifyCell v fun c => { c with binding := t }

/-- the text of a display name; that of a surrogate is a stand-in -/
def labelText (code : Nat) : String := String.singleton (Text.nameChar code)

/-- take the next display name of a session -/
def nextLabel (session : Nat) : StoreM Nat := do
  match (← get).sessions[session]? with
  | some t =>
    if t.cursor < labelBound then
      modify fun s => s.modifySession session fun t => { t with cursor := t.cursor + 1 }
      return t.cursor
    else throw .namesExhausted
  | none => throw .namesExhausted

def nameOf (v : Var) : StoreM String := do
  match (← get).label? v with
  | some code => return labelText code
  | none =>
    let code ← nextLabel v.session
    modify fun s => s.modifyCell v fun c => { c with label := some code }
    return labelText code

end StoreM

/-!
## what the basic steps do to the store

Each change of a cell or of a session is described through the views `cell?`, `binding?`, `label?`,
`madeBy` and `varCount`; after that no proof looks inside the arrays.
-/

namespace Store

theorem cell?_modifyCell (s : Store) (v w : Var) (f : Cell → Cell) :
    (s.modifyCell v f).cell? w = if v = w then (s.cell? w).map f else s.cell? w := by
  obtain ⟨i, k⟩ := v
  obtain ⟨j, l⟩ := w
  simp only [cell?, modifyCell, modifySession, Array.getElem?_modify, Var.mk.injEq]
  by_cases hi : i = j
  · subst hi
    cases s.sessions[i]? with
    | none => simp
    | some t =>
      by_cases hk : k = l <;> simp [Array.getElem?_modify, hk]
  · simp [hi]

theorem cell?_modifyCell_self (s : Store) (v : Var) (f : Cell → Cell) :
    (s.modifyCell v f).cell? v = (s.cell? v).map f := by
  rw [cell?_modifyCell, if_pos rfl]

theorem cell?_modifyCell_of_ne (s : Store) {v w : Var} (h : v ≠ w) (f : Cell → Cell) :
    (s.modifyCell v f).cell? w = s.cell? w := by
  rw [cell?_modifyCell, if_neg h]

theorem madeBy_modifyCell (s : Store) (v : Var) (f : Cell → Cell) (i : Nat) :
    (s.modifyCell v f).madeBy i = s.madeBy i := by
  simp only [madeBy, modifyCell, modifySession, Array.getElem?_modify]
  by_cases h : v.session = i
  · subst h
    cases s.sessions[v.session]? <;> simp
  · simp [h]

theorem isSome_cell?_iff (s : Store) (v : Var) : (s.cell? v).isSome ↔ v.id < s.madeBy v.session := by
  simp only [cell?, madeBy]
  cases s.sessions[v.session]? with
  | none => simp
  | some t => simp

theorem binding?_modifyCell_of_ne (s : Store) {v w : Var} (h : v ≠ w) (f : Cell → Cell) :
    (s.modifyCell v f).binding? w = s.binding? w := by
  rw [binding?, binding?, cell?_modifyCell_of_ne s h]

theorem label?_modifyCell_of_ne (s : Store) {v w : Var} (h : v ≠ w) (f : Cell → Cell) :
    (s.modifyCell v f).label? w = s.label? w := by
  rw [label?, label?, cell?_modifyCell_of_ne s h]

theorem binding?_assigned (s : Store) (v : Var) (t : Option Ty) (h : (s.cell? v).isSome) :
    (s.modifyCell v fun c => { c with binding := t }).binding? v = t := by
  rw [binding?, cell?_modifyCell_self]
  cases hc : s.cell? v with
  | none => rw [hc] at h; exact absurd h (by simp)
  | some c => rfl

theorem label?_assigned (s : Store) (v w : Var) (t : Option Ty) :
    (s.modifyCell v fun c => { c with binding := t }).label? w = s.label? w := by
  rw [label?, label?, cell?_modifyCell]
  split
  · cases s.cell? w <;> rfl
  · rfl

theorem binding?_named (s : Store) (v w : Var) (code : Option Nat) :
    (s.modifyCell v fun c => { c with label := code }).binding? w = s.binding? w := by
  rw [binding?, binding?, cell?_modifyCell]
  split
  · cases s.cell? w <;> rfl
  · rfl

end Store
end LetPoly
