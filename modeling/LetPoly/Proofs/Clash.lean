import LetPoly.Proofs.History
import LetPoly.Proofs.Store.Unifying
import LetPoly.Proofs.Term.Difference
import LetPoly.Report

/-!
# What a failed unification reports

The store that a failure leaves behind has all the bindings made before it.  Resolved there, the two
types differ, and the failure is about the first place where they do, in the order of reading
(`unify_reports_first_difference`).  The left text of a mismatch shows what the left type has at
that place; swapping the sides never reaches two operators, only a var and what it meets.
-/

namespace LetPoly

open StoreM

namespace Ty

/-- the user sees `text` for `u`, also when it is shown again -/
structure Displayed (s : Store) (u : Term Var) (text : String) : Prop extends s.Spells u text where
  again : ∀ t, s.Has t → s.resolve t = u → Ends (render t) s (fun text' _ => text' = text) never

/-- the failure `f` is about the parts `x` and `y` of two resolved forms in `s'` -/
inductive Reported (s' : Store) : Failure → Term Var → Term Var → Prop where
  | mismatch {n m : String} {xs ys : List (Term Var)} {leftText rightText : String}
      (hne : ¬ (n = m ∧ xs.length = ys.length)) (hleft : Displayed s' (.op n xs) leftText)
      (hright : Displayed s' (.op m ys) rightText) :
      Reported s' (.problem (.mismatch leftText rightText)) (.op n xs) (.op m ys)
  | circleLeft {v : Var} {k : Nat} {n : String} {as : List Ty} (hv : s'.binding? v = none)
      (hin : v ∈ (s'.resolve (op k n as)).vars) :
      Reported s' (.problem (.circular (var v) (op k n as))) (.var v) (s'.resolve (op k n as))
  | circleRight {v : Var} {k : Nat} {n : String} {as : List Ty} (hv : s'.binding? v = none)
      (hin : v ∈ (s'.resolve (op k n as)).vars) :
      Reported s' (.problem (.circular (var v) (op k n as))) (s'.resolve (op k n as)) (.var v)
  /-- no names were left to show two operators that differ -/
  | unshown {n m : String} {xs ys : List (Term Var)} (hne : ¬ (n = m ∧ xs.length = ys.length))
      (hout : s'.Exhausted) : Reported s' .namesExhausted (.op n xs) (.op m ys)

/-- `f` is about the first difference of two resolved forms -/
def ReportedOf (s' : Store) (f : Failure) (t u : Term Var) : Prop :=
  ∃ p x y, Term.DiffersFirst t u p x y ∧ Reported s' f x y

/-- the same of a task; the arguments stand under any operator -/
def Task.Reports (f : Failure) (s' : Store) : Task → Prop
  | .types l r => ReportedOf s' f (s'.resolve l) (s'.resolve r)
  | .ends l r => ReportedOf s' f (s'.resolve l) (s'.resolve r)
  | .args as bs => ∀ n, ReportedOf s' f (.op n (as.map s'.resolve)) (.op n (bs.map s'.resolve))

variable {s s' s₁ : Store} {l r t : Ty} {f : Failure} {o : Outcome} {task : Task}

/-! ## single calls -/

theorem displayed_of_spells (hs : s.Sound) {u : Term Var} {text : String} (h : s.Spells u text) :
    Displayed s u text :=
  ⟨h, fun _ ht hu => renders_of_spells hs ht (hu ▸ h)⟩

/-- a var that occurs in the end of another chain occurs in an operator -/
theorem eq_op_of_occurs {v : Var} (ht : s.Has t) (he : s.Ended t) (hne : t ≠ var v)
    (ho : v ∈ (s.resolve t).vars) : ∃ k n as, t = op k n as := by
  cases t with
  | var w =>
    rw [Store.resolve_var, Store.value_of_unbound (he w rfl), Term.vars_var,
      List.mem_singleton] at ho
    exact absurd (ho ▸ rfl) hne
  | op k n as => exact ⟨k, n, as, rfl⟩
  | hole => exact absurd ht Store.not_has_hole

/-- a circle is found at an unbound var that meets an operator -/
theorem circle_of_bindVar {v : Var} (hs : s.Sound) (hv : s.binding? v = none) (ht : s.Has t)
    (he : s.Ended t) (hne : t ≠ var v) (h : bindVar v t s = .error f s') :
    ∃ k n as, t = op k n as ∧ f = .problem (.circular (var v) (op k n as)) ∧
      s'.binding? v = none ∧ v ∈ (s'.resolve (op k n as)).vars ∧ s'.resolve (var v) = .var v := by
  obtain ⟨hf, ho, hq⟩ := (ends_bindVar hs ht).error h
  obtain ⟨k, n, as, rfl⟩ := eq_op_of_occurs ht he hne ho
  have hv' := (hq.bound v).2 hv
  refine ⟨k, n, as, rfl, hf, hv', ?_, Store.value_of_unbound hv'⟩
  rwa [hq.resolve_eq hs.acyclic]

theorem head_ne_of_op {v : Var} {k : Nat} {n : String} {as : List Ty} :
    (Term.var v).head ≠ (s.resolve (op k n as)).head := by
  rw [Store.resolve_op]
  nofun

theorem head_ne_of_clash {k j : Nat} {n m : String} {as bs : List Ty}
    (hne : ¬ (n = m ∧ as.length = bs.length)) :
    (s.resolve (op k n as)).head ≠ (s.resolve (op j m bs)).head := by
  rw [Store.resolve_op, Store.resolve_op, Term.head, Term.head, List.length_map, List.length_map,
    ne_eq, Sum.inr.injEq, Prod.mk.injEq]
  exact hne

theorem reported_clash {k j : Nat} {n m : String} {as bs : List Ty} (hs : s.Sound)
    (hl : s.Has (op k n as)) (hr : s.Has (op j m bs)) (hne : ¬ (n = m ∧ as.length = bs.length))
    (h : clash (op k n as) (op j m bs) s = .error f s') :
    Reported s' f (s'.resolve (op k n as)) (s'.resolve (op j m bs)) := by
  obtain ⟨hq, hf⟩ := (ends_clash hs hl hr).error h
  rw [← hq.resolve_eq hs.acyclic, ← hq.resolve_eq hs.acyclic] at hf
  rw [Store.resolve_op, Store.resolve_op] at hf ⊢
  have hne' : ¬ (n = m ∧ (as.map s'.resolve).length = (bs.map s'.resolve).length) := by
    rwa [List.length_map, List.length_map]
  rcases hf with ⟨a, b, rfl, ha, hb⟩ | ⟨rfl, hout⟩
  · have hs' := hq.sound hs
    exact .mismatch hne' (displayed_of_spells hs' ha) (displayed_of_spells hs' hb)
  · exact .unshown hne' hout

/-! ## whole runs -/

/-- the calls that fail report the first difference of their sides, and so do those that make
them -/
theorem Unifying.reports (h : Unifying s task o) (hready : task.Ready s) (ho : o = .error f s') :
    task.Reports f s' := by
  induction h with
  | @lookUp s _ s₂ l r l' r' o hl hr h ih =>
    subst ho
    have hlook := hready.lookUp hl hr
    have hg := (Unifying.lookUp hl hr h).refused hready |>.grows
    have hrep : ReportedOf s' f (s'.resolve l') (s'.resolve r') := ih hlook.ready rfl
    rwa [hg.resolve_congr hready.sound.acyclic hlook.left,
      hg.resolve_congr hready.sound.acyclic hlook.right] at hrep
  | same => cases ho
  | @left s v r hr =>
    obtain ⟨hl, hre⟩ := hready.prepared
    obtain ⟨k, n, as, rfl, rfl, hv, hin, hval⟩ :=
      circle_of_bindVar hready.sound (hl v rfl) hready.right hre hr ho
    refine ⟨[], _, _, .top ?_, hval ▸ .circleLeft hv hin⟩
    rw [hval]
    exact head_ne_of_op
  | @right s w l hl =>
    obtain ⟨hle, hr⟩ := hready.prepared
    obtain ⟨k, n, as, rfl, rfl, hw, hin, hval⟩ :=
      circle_of_bindVar hready.sound (hr w rfl) hready.left hle (hl w) ho
    refine ⟨[], _, _, .top ?_, hval ▸ .circleRight hw hin⟩
    rw [hval]
    exact head_ne_of_op.symm
  | clash hne =>
    exact ⟨[], _, _, .top (head_ne_of_clash hne),
      reported_clash hready.sound hready.left hready.right hne ho⟩
  | @operators s k j n as bs o hlen _ ih =>
    have hrep := ih (hready.operators hlen) ho n
    rwa [← Store.resolve_op k, ← Store.resolve_op j] at hrep
  | missing hl hr hole =>
    rcases hole with rfl | rfl
    · exact absurd hready.left Store.not_has_hole
    · exact absurd hready.right Store.not_has_hole
  | done => cases ho
  | @next s s₁ a b as bs o h hrest ih ihrest =>
    subst ho
    have heq := h.equated hready.head
    have hready₁ := hready.rest heq.grows
    have hg := (hrest.refused hready₁).grows
    have hab : s'.resolve a = s'.resolve b := hg.resolve_congr heq.grows.acyclic heq.resolve_eq
    intro n
    obtain ⟨p, x, y, hd, hf⟩ := ihrest hready₁ rfl n
    have hlen : (as.map s'.resolve).length = (bs.map s'.resolve).length := by
      rw [List.length_map, List.length_map]
      exact hready₁.prepared
    obtain ⟨i, q, rfl⟩ := hd.exists_cons hlen
    refine ⟨(i + 1) :: q, x, y, ?_, hf⟩
    rw [List.map_cons, List.map_cons, hab]
    exact hd.there hlen
  | @stop s s₁ a b as bs g h ih =>
    intro n
    obtain ⟨p, x, y, hd, hf⟩ := ih hready.head ho
    refine ⟨0 :: p, x, y, hd.here ?_, hf⟩
    rw [List.length_map, List.length_map]
    exact Nat.succ.inj hready.prepared

/-- a failed unification is about the first place where the two types differ in the store that it
leaves behind; the left type is the actual one of a report and the right one the expected one -/
theorem unify_reports_first_difference (hs : s.Sound) (hl : s.Has l) (hr : s.Has r)
    (h : unify l r s = .error f s') :
    (∃ p x y, Term.DiffersFirst (s'.resolve l) (s'.resolve r) p x y ∧ Reported s' f x y) ∧
      ∀ leftText rightText, f = .problem (.mismatch leftText rightText) → ∀ source path s₁,
        Ends (Problem.fields (.mismatch leftText rightText) source path) s₁
          (fun fields _ => fields.lookup "actual_type" = some leftText ∧
            fields.lookup "expected_type" = some rightText) never := by
  refine ⟨((unifying_iff hs hl hr).2 h).reports ⟨hs, hl, hr, trivial⟩ rfl, ?_⟩
  rintro leftText rightText - source path s₁
  exact ⟨rfl, rfl⟩

/-- one var on the left, once against an integer and then against a boolean: the var has been bound
by then, and the second arguments are reported -/
theorem unify_reports_first_difference_of_second :
    let l := op 3 funcName [var ⟨0, 1⟩, var ⟨0, 1⟩]
    let r := op 4 funcName [int, bool]
    ∃ f s', unify l r pairStore = .error f s' ∧
      ∃ p x y, Term.DiffersFirst (s'.resolve l) (s'.resolve r) p x y ∧ Reported s' f x y := by
  intro l r
  have hrun : Ends (unify l r) pairStore (fun _ _ => False) fun _ _ => True := by decide +kernel
  have hl : pairStore.Has l := ⟨rfl, by decide +kernel⟩
  have hr : pairStore.Has r := ⟨rfl, by decide +kernel⟩
  cases h : unify l r pairStore with
  | ok u s' => exact (hrun.ok h).elim
  | error f s' =>
    exact ⟨f, s', rfl, (unify_reports_first_difference reached_pairStore.sound hl hr h).1⟩

end Ty
end LetPoly
