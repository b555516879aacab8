import LetPoly.Proofs.Expr.Names

/-!
# Expressions up to the names of their binders

`AlphaEq m e e'` walks through two expressions side by side.  The list `m` pairs the binders around
them, the innermost first, and two names are the same if the same pair binds both or none binds
either of them (`Paired`).  Whole expressions are compared with no binders around.

* `AlphaEq.refl`, `AlphaEq.symm`, `AlphaEq.trans`   an equivalence;
* `AlphaEq.of_renaming`   renaming free names by a substitution keeps to the pairs around;
* `alphaEq_fn`, `alphaEq_letIn`, `alphaEq_letRec`   a binder may get any name that is not free there.
-/

namespace LetPoly

/-- `x` and `y` are bound by one pair, or they are the same name and no pair binds it -/
inductive Paired : List (String × String) → String → String → Prop where
  | free (x : String) : Paired [] x x
  | here {m : List (String × String)} (x y : String) : Paired ((x, y) :: m) x y
  | there {m : List (String × String)} {p q x y : String} (hx : x ≠ p) (hy : y ≠ q)
      (h : Paired m x y) : Paired ((p, q) :: m) x y

namespace Expr

/-- the same but for the names of binders, where the binders around are paired by `m` -/
inductive AlphaEq : List (String × String) → Expr → Expr → Prop where
  | name {m : List (String × String)} {x y : String} (h : Paired m x y) :
      AlphaEq m (name x) (name y)
  | fn {m : List (String × String)} {p q : String} {body body' : Expr}
      (hbody : AlphaEq ((p, q) :: m) body body') : AlphaEq m (fn p body) (fn q body')
  | app {m : List (String × String)} {f f' a a' : Expr} (hf : AlphaEq m f f')
      (ha : AlphaEq m a a') : AlphaEq m (app f a) (app f' a')
  | letIn {m : List (String × String)} {x y : String} {value value' body body' : Expr}
      (hvalue : AlphaEq m value value') (hbody : AlphaEq ((x, y) :: m) body body') :
      AlphaEq m (letIn x value body) (letIn y value' body')
  | letRec {m : List (String × String)} {x y : String} {value value' body body' : Expr}
      (hvalue : AlphaEq ((x, y) :: m) value value') (hbody : AlphaEq ((x, y) :: m) body body') :
      AlphaEq m (letRec x value body) (letRec y value' body')

end Expr

variable {m : List (String × String)} {x y z : String}

/-! ## an equivalence -/

theorem Paired.swap (h : Paired m x y) : Paired (m.map Prod.swap) y x := by
  induction h with
  | free x => exact .free x
  | here x y => exact .here y x
  | there hx hy _ ih => exact .there hy hx ih

theorem Paired.trans {t : List (String × String × String)}
    (h : Paired (t.map fun b => (b.1, b.2.1)) x y) (h' : Paired (t.map fun b => b.2) y z) :
    Paired (t.map fun b => (b.1, b.2.2)) x z := by
  induction t with
  | nil =>
    cases h
    exact h'
  | cons b t ih =>
    obtain ⟨p, q, r⟩ := b
    cases h with
    | here _ _ =>
      cases h' with
      | here _ _ => exact .here p z
      | there hq _ _ => exact absurd rfl hq
    | there hx hq h =>
      cases h' with
      | here _ _ => exact absurd rfl hq
      | there _ hz h' => exact .there hx hz (ih h h')

namespace Expr

variable {e e' e'' value body : Expr} {f : String → String} {p q : String} {names : List String}

theorem AlphaEq.swap (h : AlphaEq m e e') : AlphaEq (m.map Prod.swap) e' e := by
  induction h with
  | name h => exact .name h.swap
  | fn _ ih => exact .fn ih
  | app _ _ ihf iha => exact .app ihf iha
  | letIn _ _ ihv ihb => exact .letIn ihv ihb
  | letRec _ _ ihv ihb => exact .letRec ihv ihb

theorem AlphaEq.symm (h : AlphaEq [] e e') : AlphaEq [] e' e := h.swap

/-- the middle names of two comparisons drop out -/
theorem AlphaEq.comp {t : List (String × String × String)}
    (h : AlphaEq (t.map fun b => (b.1, b.2.1)) e e') (h' : AlphaEq (t.map fun b => b.2) e' e'') :
    AlphaEq (t.map fun b => (b.1, b.2.2)) e e'' := by
  induction e generalizing t e' e'' with
  | name x =>
    cases h with
    | name h =>
      cases h' with
      | name h' => exact .name (h.trans h')
  | fn p body ih =>
    cases h with
    | @fn _ _ q _ _ hb =>
      cases h' with
      | @fn _ _ r _ _ hb' => exact .fn (ih (t := (p, q, r) :: t) hb hb')
  | app f a ihf iha =>
    cases h with
    | app hf ha =>
      cases h' with
      | app hf' ha' => exact .app (ihf hf hf') (iha ha ha')
  | letIn x value body ihv ihb =>
    cases h with
    | @letIn _ _ y _ _ _ _ hv hb =>
      cases h' with
      | @letIn _ _ z _ _ _ _ hv' hb' =>
        exact .letIn (ihv hv hv') (ihb (t := (x, y, z) :: t) hb hb')
  | letRec x value body ihv ihb =>
    cases h with
    | @letRec _ _ y _ _ _ _ hv hb =>
      cases h' with
      | @letRec _ _ z _ _ _ _ hv' hb' =>
        exact .letRec (ihv (t := (x, y, z) :: t) hv hv') (ihb (t := (x, y, z) :: t) hb hb')

theorem AlphaEq.trans (h : AlphaEq [] e e') (h' : AlphaEq [] e' e'') : AlphaEq [] e e'' :=
  @AlphaEq.comp _ _ _ [] h h'

/-! ## renaming by substitution -/

theorem under_rename : under (fun x => name (f x)) p q = fun x => name (Function.update f p q x) :=
  (Function.comp_update name f p q).symm

theorem paired_under (h : ∀ y ∈ names.filter (· ≠ p), Paired m y (f y)) :
    ∀ y ∈ names, Paired ((p, binder (fun x => name (f x)) p names) :: m) y
      (Function.update f p (binder (fun x => name (f x)) p names) y) := by
  intro y hy
  by_cases hp : y = p
  · subst hp
    rw [Function.update_self]
    exact .here y _
  · rw [Function.update_of_ne hp]
    refine .there hp (fun hq => ?_) (h y (mem_filter_ne.2 ⟨hy, hp⟩))
    refine @binder_notMem (fun x => name (f x)) p y names hy hp ?_
    rw [← hq]
    exact List.mem_singleton_self (f y)

theorem AlphaEq.of_renaming (h : ∀ y ∈ e.freeNames, Paired m y (f y)) :
    AlphaEq m e (e.subst fun x => .name (f x)) := by
  induction e generalizing m f with
  | name x => exact .name (h x (List.mem_singleton_self x))
  | fn p body ih =>
    rw [subst, under_rename]
    exact .fn (ih (paired_under h))
  | app g a ihg iha =>
    rw [freeNames, List.forall_mem_append] at h
    exact .app (ihg h.1) (iha h.2)
  | letIn x value body ihv ihb =>
    rw [freeNames, List.forall_mem_append] at h
    rw [subst, under_rename]
    exact .letIn (ihv h.1) (ihb (paired_under h.2))
  | letRec x value body ihv ihb =>
    have hboth := paired_under h
    rw [List.forall_mem_append] at hboth
    rw [subst, under_rename]
    exact .letRec (ihv hboth.1) (ihb hboth.2)

theorem AlphaEq.refl (e : Expr) : AlphaEq [] e e := by
  have h : AlphaEq [] e (e.subst .name) := .of_renaming fun y _ => .free y
  rwa [subst_name] at h

theorem update_name : Function.update name p (name q) = fun x => name (Function.update id p q x) :=
  (Function.comp_update name id p q).symm

theorem paired_rename (hq : q ∉ names.filter (· ≠ p)) :
    ∀ y ∈ names, Paired [(p, q)] y (Function.update id p q y) := by
  intro y hy
  by_cases hp : y = p
  · subst hp
    rw [Function.update_self]
    exact .here y q
  · rw [Function.update_of_ne hp, id]
    refine .there hp ?_ (.free y)
    rintro rfl
    exact hq (mem_filter_ne.2 ⟨hy, hp⟩)

theorem alphaEq_fn (hq : q ∉ (fn p body).freeNames) :
    AlphaEq [] (fn p body) (fn q (body.substName p (name q))) := by
  rw [substName, update_name]
  exact .fn (.of_renaming (paired_rename hq))

/-- the target of a definition that is not recursive is not visible in its value -/
theorem alphaEq_letIn (hq : q ∉ body.freeNames.filter (· ≠ p)) :
    AlphaEq [] (letIn p value body) (letIn q value (body.substName p (name q))) := by
  rw [substName, update_name]
  exact .letIn (.refl value) (.of_renaming (paired_rename hq))

theorem alphaEq_letRec (hq : q ∉ (letRec p value body).freeNames) :
    AlphaEq [] (letRec p value body)
      (letRec q (value.substName p (name q)) (body.substName p (name q))) := by
  have hnames := paired_rename hq
  rw [List.forall_mem_append] at hnames
  rw [substName, substName, update_name]
  exact .letRec (.of_renaming hnames.1) (.of_renaming hnames.2)

end Expr
end LetPoly
