import LetPoly.Proofs.Term.Basic

/-!
# Where two terms first differ

A place in a term is the list of the argument numbers on the way down to it.  In the order of lists
a place comes before the places below it and before those further to the right, so it is the order
in which a term is read.

* `Term.sub?`            the part of a term at a place;
* `Term.head`            what a part shows at its top: its var, or its operator and argument count;
* `Term.DiffersFirst`    the first place where two terms show different things, with both parts.
-/

namespace LetPoly.Term

variable {α : Type}

def sub? : Term α → List Nat → Option (Term α)
  | t, [] => some t
  | var _, _ :: _ => none
  | op _ as, i :: p => as[i]?.bind fun a => a.sub? p

def head : Term α → α ⊕ String × Nat
  | var a => .inl a
  | op n as => .inr (n, as.length)

/-- `x` and `y` are what `t` and `u` have at the place `p`, the first one where they differ -/
structure DiffersFirst (t u : Term α) (p : List Nat) (x y : Term α) : Prop where
  left : t.sub? p = some x
  right : u.sub? p = some y
  differ : x.head ≠ y.head
  first : ∀ q < p, (t.sub? q).map head = (u.sub? q).map head

variable {t u x y x' y' : Term α} {n : String} {as bs : List (Term α)} {p p' : List Nat} {i : Nat}

theorem sub?_nil (t : Term α) : t.sub? [] = some t := by
  cases t <;> rfl

namespace DiffersFirst

theorem top (h : t.head ≠ u.head) : DiffersFirst t u [] t u :=
  ⟨sub?_nil t, sub?_nil u, h, fun _ hq => absurd hq (List.not_lt_nil _)⟩

theorem unique (h : DiffersFirst t u p x y) (h' : DiffersFirst t u p' x' y') :
    p = p' ∧ x = x' ∧ y = y' := by
  have hle : ∀ {p p' : List Nat} {x y x' y'}, DiffersFirst t u p x y →
      DiffersFirst t u p' x' y' → ¬ p < p' := by
    intro p p' x y x' y' h h' hlt
    have heq := h'.first p hlt
    rw [h.left, h.right, Option.map_some, Option.map_some, Option.some.injEq] at heq
    exact h.differ heq
  have hp : p = p' := List.le_antisymm (List.not_lt.1 (hle h' h)) (List.not_lt.1 (hle h h'))
  subst hp
  refine ⟨rfl, Option.some.inj ?_, Option.some.inj ?_⟩
  · rw [← h.left, ← h'.left]
  · rw [← h.right, ← h'.right]

/-- below two operators that agree -/
theorem exists_cons (h : DiffersFirst (op n as) (op n bs) p x y) (hlen : as.length = bs.length) :
    ∃ i q, p = i :: q := by
  cases p with
  | nil =>
    have hx := h.left
    have hy := h.right
    rw [sub?_nil, Option.some.injEq] at hx hy
    refine absurd ?_ h.differ
    rw [← hx, ← hy, head, head, hlen]
  | cons i q => exact ⟨i, q, rfl⟩

theorem here {a b : Term α} (h : DiffersFirst a b p x y) (hlen : as.length = bs.length) :
    DiffersFirst (op n (a :: as)) (op n (b :: bs)) (0 :: p) x y where
  left := h.left
  right := h.right
  differ := h.differ
  first q hq := by
    cases q with
    | nil => simp [sub?_nil, head, hlen]
    | cons j q =>
      rcases List.cons_lt_cons_iff.1 hq with hj | ⟨hj, hlt⟩
      · exact absurd hj (Nat.not_lt_zero j)
      · rw [hj]
        exact h.first q hlt

theorem there {a : Term α} (h : DiffersFirst (op n as) (op n bs) (i :: p) x y)
    (hlen : as.length = bs.length) :
    DiffersFirst (op n (a :: as)) (op n (a :: bs)) ((i + 1) :: p) x y where
  left := h.left
  right := h.right
  differ := h.differ
  first q hq := by
    cases q with
    | nil => simp [sub?_nil, head, hlen]
    | cons j q =>
      cases j with
      | zero => rfl
      | succ j =>
        refine h.first (j :: q) ?_
        rcases List.cons_lt_cons_iff.1 hq with hj | ⟨hj, hlt⟩
        · exact List.cons_lt_cons_iff.2 (.inl (Nat.lt_of_succ_lt_succ hj))
        · exact List.cons_lt_cons_iff.2 (.inr ⟨Nat.succ.inj hj, hlt⟩)

end DiffersFirst
end LetPoly.Term
