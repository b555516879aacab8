import LetPoly.Store.LookUp

/-!
# Scopes

A scope is a chain of frames, the innermost first; each frame binds finitely many names.  Scopes
are never changed: binding a name makes a scope with one more frame.

* `Frame.ofList`    a repeated name keeps its last value, at its first place;
* `Scope.get?`      the value of a name, where the innermost binding wins;
* `Scope.contains`  whether a name is bound at all;
* `Scope.toList`    the visible bindings, inner frames first.
-/

namespace LetPoly

universe u
variable {α : Type u}

/-- the names bound at one level, in the order in which they were first bound -/
structure Frame (α : Type u) where
  entries : List (String × α) := []
  nodup : (entries.map Prod.fst).Nodup := by exact List.nodup_nil

namespace Frame

/-- bind `x` anew at its old place, or at the end -/
def put (x : String) (a : α) : List (String × α) → List (String × α)
  | [] => [(x, a)]
  | e :: es => if e.1 = x then (x, a) :: es else e :: put x a es

theorem map_fst_put (x : String) (a : α) (l : List (String × α)) :
    (put x a l).map Prod.fst =
      if x ∈ l.map Prod.fst then l.map Prod.fst else l.map Prod.fst ++ [x] := by
  induction l with
  | nil => rfl
  | cons e es ih =>
    rw [put]
    split
    · next h => simp [h]
    · next h =>
      rw [List.map_cons, ih]
      have hx : x ≠ e.1 := fun hx => h hx.symm
      by_cases hm : x ∈ es.map Prod.fst <;> simp [hx, hm]

def insert (f : Frame α) (x : String) (a : α) : Frame α where
  entries := put x a f.entries
  nodup := by
    rw [map_fst_put]
    split
    · exact f.nodup
    · next h =>
      refine List.nodup_append.2 ⟨f.nodup, by simp, fun y hy z hz hyz => h ?_⟩
      rw [List.mem_singleton] at hz
      rwa [← hz, ← hyz]

def ofList (l : List (String × α)) : Frame α := l.foldl (fun f e => f.insert e.1 e.2) {}

def get? (f : Frame α) (x : String) : Option α := f.entries.lookup x

def contains (f : Frame α) (x : String) : Bool := f.entries.any fun e => x == e.1

end Frame

structure Scope (α : Type u) where
  frames : List (Frame α) := []

namespace Scope

def empty : Scope α := {}

/-- `frame` inside `parent` -/
def nest (parent : Scope α) (frame : Frame α) : Scope α := ⟨frame :: parent.frames⟩

def ofList (l : List (String × α)) : Scope α := empty.nest (Frame.ofList l)

def extend (s : Scope α) (x : String) (a : α) : Scope α := s.nest (Frame.ofList [(x, a)])

def get? (s : Scope α) (x : String) : Option α := s.frames.findSome? fun f => f.get? x

def contains (s : Scope α) (x : String) : Bool := s.frames.any fun f => f.contains x

/-- the bindings of a chain of frames whose names have not been seen yet -/
def unseen (seen : List String) : List (Frame α) → List (String × α)
  | [] => []
  | f :: fs =>
    let new := f.entries.filter fun e => !seen.contains e.1
    new ++ unseen (new.map Prod.fst ++ seen) fs

def toList (s : Scope α) : List (String × α) := unseen [] s.frames

end Scope
/-!
## a scope is one finite map

Membership and look-up agree, and a new frame hides the names that it binds and no others.
-/

namespace Frame

theorem contains_eq_isSome_get? (f : Frame α) (x : String) : f.contains x = (f.get? x).isSome := by
  rw [contains, get?]
  induction f.entries with
  | nil => rfl
  | cons e es ih =>
    rw [List.any_cons, List.lookup_cons, ih]
    cases x == e.1 <;> rfl

theorem lookup_put (x y : String) (a : α) (l : List (String × α)) :
    (put x a l).lookup y = if y = x then some a else l.lookup y := by
  induction l with
  | nil =>
    rw [put, List.lookup_cons, List.lookup_nil]
    by_cases h : y = x
    · rw [if_pos h, beq_iff_eq.2 h]
    · rw [if_neg h, beq_eq_false_iff_ne.2 h]
  | cons e es ih =>
    obtain ⟨z, b⟩ := e
    rw [put]
    by_cases hz : z = x
    · subst hz
      rw [if_pos rfl, List.lookup_cons, List.lookup_cons]
      by_cases h : y = z
      · rw [if_pos h, beq_iff_eq.2 h]
      · rw [if_neg h, beq_eq_false_iff_ne.2 h]
    · rw [if_neg hz, List.lookup_cons, List.lookup_cons, ih]
      by_cases h : y = z
      · subst h
        simp only [if_neg hz]
      · rw [beq_eq_false_iff_ne.2 h]

theorem get?_insert (f : Frame α) (x y : String) (a : α) :
    (f.insert x a).get? y = if y = x then some a else f.get? y := lookup_put x y a f.entries

@[simp] theorem get?_empty (x : String) : ({} : Frame α).get? x = none := rfl

end Frame

namespace Scope

@[simp] theorem get?_empty (x : String) : (empty : Scope α).get? x = none := rfl

theorem get?_nest (s : Scope α) (f : Frame α) (x : String) :
    (s.nest f).get? x = (f.get? x).or (s.get? x) := by
  rw [get?, nest, List.findSome?_cons]
  cases f.get? x <;> rfl

theorem get?_extend (s : Scope α) (x y : String) (a : α) :
    (s.extend x a).get? y = if y = x then some a else s.get? y := by
  rw [extend, get?_nest, Frame.ofList, List.foldl_cons, List.foldl_nil, Frame.get?_insert]
  by_cases h : y = x <;> simp [h]

theorem contains_eq_isSome_get? (s : Scope α) (x : String) :
    s.contains x = (s.get? x).isSome := by
  rw [contains, get?]
  induction s.frames with
  | nil => rfl
  | cons f fs ih =>
    rw [List.any_cons, List.findSome?_cons, ih, Frame.contains_eq_isSome_get?]
    cases f.get? x <;> rfl

/-!
### a scope as the user sees it

One line for each visible name, ordered by code points.  Types are rendered in that order, so the
display names depend on the visible bindings only.
-/

def sorted {α : Type} (s : Scope α) : List (String × α) :=
  s.toList.mergeSort fun a b => decide (a.1 ≤ b.1)

def renderEntry (e : String × Ty) : StoreM String := return e.1 ++ " : " ++ (← e.2.render)

def render (s : Scope Ty) : StoreM String :=
  return "\n".intercalate (← s.sorted.mapM renderEntry)

end Scope
end LetPoly
