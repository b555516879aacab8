import LetPoly.Failure
import LetPoly.Proofs.Scope

/-!
# Scopes that share their parents

A scope is an object with names of its own and, unless it is an outermost one, a parent that was
made before it.  Many scopes may have the same parent.  What an object says is the `Scope` along its
parents, and nothing that is made later changes that (`Heap.Extends.scope_eq`).

* `Scope.OneMap`      membership, look-up and iteration agree; `oneMap` holds of every scope;
* `Scope.Nests`       the bindings of a frame hide those around it, and are listed first;
* `Scope.Step`        the ways in which scopes are made;
* `scope_of_step`     what each step of a program makes, whatever is made before and after it.
-/

namespace LetPoly.Scope

universe u
variable {α : Type u}

/-! ## one scope -/

/-- the value of a name; a name without one is undefined -/
def lookup (s : Scope α) (x : String) : Except Problem α :=
  match s.get? x with
  | some a => .ok a
  | none => .error (.undefinedName x)

theorem lookup_eq_ok_iff {s : Scope α} {x : String} {a : α} :
    s.lookup x = .ok a ↔ s.get? x = some a := by
  unfold lookup
  cases s.get? x with
  | none => exact ⟨nofun, nofun⟩
  | some b => rw [Except.ok.injEq, Option.some.injEq]

theorem lookup_congr {s s' : Scope α} {x : String} (h : s.get? x = s'.get? x) :
    s.lookup x = s'.lookup x := by
  rw [lookup, lookup, h]

/-- a scope is one finite map -/
structure OneMap (s : Scope α) : Prop where
  contains_iff : ∀ x, s.contains x ↔ ∃ a, s.lookup x = .ok a
  undefined : ∀ x, ¬ s.contains x → s.lookup x = .error (.undefinedName x)
  listed : ∀ x a, (x, a) ∈ s.toList ↔ s.lookup x = .ok a
  once : (s.toList.map Prod.fst).Nodup

theorem oneMap (s : Scope α) : s.OneMap where
  contains_iff x := by
    rw [contains_eq_isSome_get?, Option.isSome_iff_exists]
    exact exists_congr fun a => lookup_eq_ok_iff.symm
  undefined x h := by
    rw [contains_eq_isSome_get?, Option.not_isSome_iff_eq_none] at h
    rw [lookup, h]
  listed x a := mem_toList_iff.trans lookup_eq_ok_iff.symm
  once := s.nodup_toList

/-- `s` binds what `frame` binds, and all else as `outer` does -/
structure Nests (outer : Scope α) (frame : Frame α) (s : Scope α) : Prop where
  inner : ∀ x a, frame.get? x = some a → s.lookup x = .ok a
  around : ∀ x, frame.get? x = none → s.lookup x = outer.lookup x
  toList_eq : s.toList = frame.entries ++ outer.toList.filter fun e => !frame.contains e.1

theorem get?_frame_singleton (x y : String) (a : α) :
    (Frame.ofList [(x, a)]).get? y = if y = x then some a else none :=
  Frame.get?_insert {} x y a

theorem Nests.singleton {outer s : Scope α} {x : String} {a : α}
    (h : Nests outer (.ofList [(x, a)]) s) :
    (∀ y, s.lookup y = if y = x then .ok a else outer.lookup y) ∧
      s.toList = (x, a) :: outer.toList.filter fun e => e.1 ≠ x := by
  refine ⟨fun y => ?_, ?_⟩
  · have hget := get?_frame_singleton x y a
    by_cases hy : y = x
    · rw [if_pos hy] at hget ⊢
      exact h.inner y a hget
    · rw [if_neg hy] at hget ⊢
      exact h.around y hget
  · rw [h.toList_eq]
    refine congrArg _ (List.filter_congr fun e _ => ?_)
    rw [Frame.contains_eq_isSome_get?, get?_frame_singleton]
    by_cases he : e.1 = x
    · simp [he]
    · simp [he]

theorem nests_nest (outer : Scope α) (frame : Frame α) : Nests outer frame (outer.nest frame) where
  inner x a h := by rw [lookup_eq_ok_iff, get?_nest, h, Option.some_or]
  around x h := lookup_congr (by rw [get?_nest, h, Option.none_or])
  toList_eq := toList_nest outer frame

/-! ## objects -/

/-- a scope as an object: its own names, and the place of the scope around it -/
structure Node (α : Type u) where
  frame : Frame α
  parent : Option Nat

/-- the scopes that there are, in the order in which they were made -/
structure Heap (α : Type u) where
  nodes : Array (Node α)
  earlier : ∀ i (node : Node α), nodes[i]? = some node → ∀ p ∈ node.parent, p < i

namespace Heap

variable {h h' : Heap α} {i : Nat}

def empty : Heap α where
  nodes := #[]
  earlier i node hi := by cases hi

def size (h : Heap α) : Nat := h.nodes.size

def frames (h : Heap α) (i : Nat) : List (Frame α) :=
  match _ : h.nodes[i]? with
  | none => []
  | some node =>
    node.frame :: match _ : node.parent with
      | none => []
      | some p => h.frames p
termination_by i
decreasing_by exact h.earlier i node ‹_› p ‹_›

def scope (h : Heap α) (i : Nat) : Scope α := ⟨h.frames i⟩

/-- the scope that a parent is -/
def outer (h : Heap α) (parent : Option Nat) : Scope α := parent.elim Scope.empty h.scope

theorem scope_eq {node : Node α} (hi : h.nodes[i]? = some node) :
    h.scope i = (h.outer node.parent).nest node.frame := by
  rw [scope, frames]
  split
  · next hnone =>
    rw [hnone] at hi
    cases hi
  · next node' hsome =>
    rw [hsome] at hi
    cases hi
    cases node.parent with
    | none => rfl
    | some p => rfl

def Extends (h h' : Heap α) : Prop :=
  ∀ (i : Nat) (node : Node α), h.nodes[i]? = some node → h'.nodes[i]? = some node

/-- a scope says the same whatever has been made since -/
theorem Extends.scope_eq (hext : h.Extends h') (hi : i < h.size) : h'.scope i = h.scope i := by
  induction i using Nat.strongRecOn with
  | ind i ih =>
    have hnode : h.nodes[i]? = some h.nodes[i] := Array.getElem?_eq_getElem hi
    generalize h.nodes[i] = node at hnode
    rw [Heap.scope_eq hnode, Heap.scope_eq (hext i node hnode)]
    have hearlier := h.earlier i node hnode
    cases hparent : node.parent with
    | none => rfl
    | some p =>
      have hp := hearlier p hparent
      have hsame : h'.scope p = h.scope p := ih p hp (Nat.lt_trans hp hi)
      show (h'.scope p).nest node.frame = (h.scope p).nest node.frame
      rw [hsame]

def push (h : Heap α) (frame : Frame α) (parent : Option Nat) (hp : ∀ p ∈ parent, p < h.size) :
    Heap α where
  nodes := h.nodes.push ⟨frame, parent⟩
  earlier i node hi p hnode := by
    rw [Array.getElem?_push] at hi
    split at hi
    · next hlast =>
      cases hi
      exact hlast ▸ hp p hnode
    · exact h.earlier i node hi p hnode

end Heap

/-! ## programs -/

inductive Step (α : Type u) where
  /-- without names of its own -/
  | inside (parent : Option Nat)
  | ofDict (data : List (String × α)) (parent : Option Nat)
  | extend (scope : Nat) (x : String) (a : α)

namespace Step

def frame : Step α → Frame α
  | inside _ => {}
  | ofDict data _ => .ofList data
  | extend _ x a => .ofList [(x, a)]

def parent : Step α → Option Nat
  | inside parent => parent
  | ofDict _ parent => parent
  | extend scope _ _ => some scope

def Within (step : Step α) (h : Heap α) : Prop := ∀ p ∈ step.parent, p < h.size

instance (step : Step α) (h : Heap α) : Decidable (step.Within h) :=
  inferInstanceAs (Decidable (∀ p ∈ step.parent, p < h.size))

end Step

namespace Heap

variable {h h' h₁ : Heap α} {i : Nat} {step : Step α}

/-- nothing is made inside a scope that there is not -/
def make (h : Heap α) (step : Step α) : Heap α :=
  if hp : step.Within h then h.push step.frame step.parent hp else h

def run (h : Heap α) (steps : List (Step α)) : Heap α := steps.foldl make h

theorem Extends.refl (h : Heap α) : h.Extends h := fun _ _ hi => hi

theorem Extends.trans (hext : h.Extends h₁) (hext' : h₁.Extends h') : h.Extends h' :=
  fun i node hi => hext' i node (hext i node hi)

theorem extends_make (h : Heap α) (step : Step α) : h.Extends (h.make step) := by
  intro i node hi
  unfold make
  split
  · have hlt : i < h.size := (Array.getElem?_eq_some_iff.1 hi).1
    show (h.nodes.push ⟨step.frame, step.parent⟩)[i]? = some node
    rw [Array.getElem?_push_lt hlt, ← Array.getElem?_eq_getElem hlt, hi]
  · exact hi

theorem extends_run (h : Heap α) (steps : List (Step α)) : h.Extends (h.run steps) := by
  induction steps generalizing h with
  | nil => exact .refl h
  | cons step steps ih => exact (h.extends_make step).trans (ih (h.make step))

theorem node_make (hstep : step.Within h) :
    (h.make step).nodes[h.size]? = some ⟨step.frame, step.parent⟩ := by
  unfold make
  rw [dif_pos hstep]
  exact Array.getElem?_push_size

theorem run_append (h : Heap α) (pre : List (Step α)) (step : Step α) (post : List (Step α)) :
    h.run (pre ++ step :: post) = ((h.run pre).make step).run post :=
  List.foldl_append

end Heap

/-- what a step has made of the scopes `before`, when there are the scopes `after` -/
structure Step.Makes (step : Step α) (before after : Heap α) : Prop where
  oneMap : (after.scope before.size).OneMap
  nests : Nests (after.outer step.parent) step.frame (after.scope before.size)
  /-- the scopes of before are as they were -/
  others : ∀ i < before.size, after.scope i = before.scope i
  /-- the names of a dictionary stand in the order in which they were first put in, with the values
  put in last -/
  ofDict : ∀ data parent, step = .ofDict data parent →
    step.frame.entries.map Prod.fst = (data.map Prod.fst).eraseDups ∧
      ∀ x, step.frame.get? x = data.reverse.lookup x
  /-- only the name that is bound is looked up differently -/
  extend : ∀ i x a, step = .extend i x a →
    (∀ y, (after.scope before.size).lookup y =
      if y = x then .ok a else (after.scope i).lookup y) ∧
    (after.scope before.size).toList =
      (x, a) :: (after.scope i).toList.filter fun e => e.1 ≠ x

/-- whatever scopes a program makes, each of them is one map, and later steps change none -/
theorem step_makes (pre post : List (Step α)) (step : Step α)
    (hstep : step.Within (Heap.empty.run pre)) :
    step.Makes (Heap.empty.run pre) (Heap.empty.run (pre ++ step :: post)) := by
  rw [Heap.run_append]
  generalize Heap.empty.run pre = before at hstep
  have hrest := (before.make step).extends_run post
  have hall := (before.extends_make step).trans hrest
  generalize (before.make step).run post = after at hrest hall
  have hnests : Nests (after.outer step.parent) step.frame (after.scope before.size) := by
    rw [Heap.scope_eq (hrest _ _ (Heap.node_make hstep))]
    exact nests_nest _ _
  refine ⟨(after.scope before.size).oneMap, hnests, fun i hi => hall.scope_eq hi, ?_, ?_⟩
  · intro data parent h
    rw [h]
    exact ⟨Frame.names_ofList data, Frame.get?_ofList data⟩
  · intro i x a h
    rw [h] at hnests
    exact hnests.singleton

def siblings : List (Step Bool) :=
  [.ofDict [("z", true), ("y", true)] none, .extend 0 "z" false, .extend 0 "x" false]

/-- the first child hides a name of the parent, for itself only -/
theorem step_makes_of_siblings :
    ((Heap.empty.run siblings).scope 0).toList = [("z", true), ("y", true)] ∧
      ((Heap.empty.run siblings).scope 1).toList = [("z", false), ("y", true)] ∧
      ((Heap.empty.run siblings).scope 2).toList = [("x", false), ("z", true), ("y", true)] := by
  have hparent := step_makes [] [.extend 0 "z" false, .extend 0 "x" false]
    (.ofDict [("z", true), ("y", true)] none) (by decide)
  have hfirst := step_makes [.ofDict [("z", true), ("y", true)] none] [.extend 0 "x" false]
    (.extend 0 "z" false) (by decide)
  have hsecond := step_makes [.ofDict [("z", true), ("y", true)] none, .extend 0 "z" false] []
    (.extend 0 "x" false) (by decide)
  have hlist : ((Heap.empty.run siblings).scope 0).toList = [("z", true), ("y", true)] :=
    hparent.nests.toList_eq
  refine ⟨hlist, ?_, ?_⟩
  · refine (hfirst.extend 0 "z" false rfl).2.trans ?_
    show _ :: ((Heap.empty.run siblings).scope 0).toList.filter _ = _
    rw [hlist]
    rfl
  · refine (hsecond.extend 0 "x" false rfl).2.trans ?_
    show _ :: ((Heap.empty.run siblings).scope 0).toList.filter _ = _
    rw [hlist]
    rfl

end LetPoly.Scope
