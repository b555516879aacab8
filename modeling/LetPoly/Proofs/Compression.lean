import LetPoly.Proofs.Parallel.Runs

/-!
# Path compression is unobservable

With `Store.compress` a look-up points every var on its way straight at the end of the chain;
without it, a look-up writes nothing (`prune_plain`).  Chains differ between the two from the first
look-up on, but nothing that a run gives back or leaves behind does (`compression_unobservable`):
the ends of chains are the same, and no call sees more of a chain than its end.
-/

namespace LetPoly

open StoreM Store

variable {s s' : Store}

theorem prune_plain (hs : s.Acyclic) (hc : s.compress = false) (t : Ty) :
    t.prune s = .ok (s.last t) s := by
  rw [Ty.prune_eq hs, shortened, hc]
  rfl

theorem Parallel.sameView (h : Parallel .same s s') : s.SameView s' where
  size := (h.session_next 0).symm
  madeBy i := (Var.mk.inj (h.var_next i trivial 0)).2.symm
  unbound_iff _ := h.unbound_iff
  last v := (h.last v).eq
  resolve t := by
    have hvalue : s'.value = s.value := by
      funext v
      exact (h.value_eq v).trans (Term.rename_eq_self fun _ _ => rfl)
    rw [Store.resolve, Store.resolve, hvalue]
  label v := (h.label v trivial).trans Option.map_id'
  cursor i := h.cursor i trivial
  nextMark := h.mark_eq trivial
  events := h.events_eq trivial

/-- a run with compression and one without give the same answers, and stores with the same view -/
theorem compression_unobservable {cs : List Call} (hs : s.Sound)
    (hcs : Call.AllWithin { s with compress := true } cs) :
    Call.answers { s with compress := false } cs = Call.answers { s with compress := true } cs ∧
      (run { s with compress := true } cs).SameView (run { s with compress := false } cs) ∧
      (run { s with compress := true } cs).compress = true ∧
      (run { s with compress := false } cs).compress = false := by
  have hs₁ := (Parallel.setCompress hs true).sound'
  have hs₂ := (Parallel.setCompress hs false).sound'
  have h : Parallel .same { s with compress := true } { s with compress := false } :=
    .setCompress hs₁ false
  obtain ⟨hanswers, hrun⟩ := h.run hcs
  have hcs₂ : Call.AllWithin { s with compress := false } cs := h.allWithin hcs
  exact ⟨hanswers, hrun.sameView, (stays_run hs₁ hcs).compress, (stays_run hs₂ hcs₂).compress⟩

/-- a chain is made longer, looked up and shown -/
def longChain : List Call :=
  [.op (.unify (.var ⟨0, 1⟩) (.var ⟨0, 2⟩)), .op (.prune (.var ⟨0, 0⟩)),
    .op (.render (.var ⟨0, 0⟩))]

/-- only with compression does the first var of the chain skip the second one -/
theorem compression_unobservable_of_chain :
    ((chainStore.run longChain).binding? ⟨0, 0⟩).map Ty.text = some "@2" ∧
      ((run { chainStore with compress := false } longChain).binding? ⟨0, 0⟩).map Ty.text
        = some "@1" ∧
      Call.answers { chainStore with compress := false } longChain
        = Call.answers chainStore longChain ∧
      (chainStore.run longChain).SameView
        (run { chainStore with compress := false } longChain) := by
  have hcs : Call.AllWithin { chainStore with compress := true } longChain :=
    ⟨⟨⟨rfl, by decide +kernel⟩, rfl, by decide +kernel⟩, ⟨rfl, by decide +kernel⟩,
      ⟨rfl, by decide +kernel⟩, trivial⟩
  obtain ⟨hanswers, hview, -⟩ := compression_unobservable Store.sound_chainStore hcs
  exact ⟨by decide +kernel, by decide +kernel, hanswers, hview⟩

end LetPoly
