import LetPoly.Proofs.Check
import LetPoly.Proofs.Parallel.Runs
import LetPoly.Proofs.Parallel.Skip

/-!
# Checks are independent

Checks of one scope share its store, and each of them leaves its vars behind, also if it fails.
Without a session every check says what it would say by itself.  In one session the names go on
where the checks before have left off; but up to that, and to which vars are new, inference still
ends as it would by itself, as long as there are names left (`checks_independent`).

* `SameOutcome`   how inference ends in two stores, up to a renaming of vars;
* `advance_check`    what a check leaves alone: all that was there before.
-/

namespace LetPoly

open StoreM Store

variable {s t : Store} {scope : Scope Ty} {session : Option Nat} {format : Format} {x : String}
  {e : Expr} {i : Nat}

def checks (scope : Scope Ty) (format : Format) (session : Option Nat)
    (es : List (String × Expr)) : List Call :=
  es.map fun p => .check p.1 p.2 scope format session

/-! ## what checks leave alone -/

/-- a check binds and names only vars that it makes itself -/
theorem advance_check (hscope : scope.Within s) (hi : ∀ i ∈ session, i < s.sessions.size)
    (x : String) (e : Expr) (format : Format) (h : Advance (.fresh s session) s t t) :
    Advance (.fresh s session) t (after (e.check x scope format session) t)
      (after (e.check x scope format session) t) := by
  have hst : Start (.fresh s session) s scope session := hscope.start hi fun _ hin => .inl hin
  have hrun : InStep (.fresh s session) (fun _ => False) (e.check x scope format session) t
      (e.check x scope format (session.map (Renaming.fresh s session).session)) t _ :=
    inStep_check x e format h.parallel (fun _ => rfl) (hst.later h)
  rw [Renaming.map_session (.fresh s session) trivial] at hrun
  exact hrun.advance fun _ => rfl

theorem advance_checks (hscope : scope.Within s) (hi : ∀ i ∈ session, i < s.sessions.size)
    (format : Format) (es : List (String × Expr)) (h : Advance (.fresh s session) s t t) :
    Advance (.fresh s session) t (t.run (checks scope format session es))
      (t.run (checks scope format session es)) := by
  induction es generalizing t with
  | nil => exact .refl h.parallel
  | cons p es ih =>
    have hcheck := advance_check hscope hi p.1 p.2 format h
    rw [← after_return _ Answer.text] at hcheck
    exact (ih (hcheck.after h)).after hcheck

/-! ## what checks say -/

/-- no matter which checks came before, a check without a session says the same -/
theorem result_check_alone (hs : s.Sound) (hscope : scope.Within s)
    (h : Advance (.fresh s none) s t t) (x : String) (e : Expr) (format : Format) :
    (Call.check x e scope format none).perform.result t =
      (Call.check x e scope format none).perform.result s := by
  have hno : ∀ i ∈ (none : Option Nat), i < s.sessions.size := fun i hi => by cases hi
  have hcheck := inStep_check_skip x e format (h.stays.parallel_skip hs hno)
    (Renaming.ahead_skip_none s t) hscope hno
  have hrun := hcheck.then_return Answer.text
  have hfail := (ends_check x e format hs hscope hno).then_return Answer.text
  unfold result
  rcases hrun.alike (Renaming.ahead_skip_none s t) with
    ⟨a, s₁, b, t₁, ha, hb, -, rfl⟩ | ⟨f, s₁, g, t₁, hf, hg, -, hfg⟩
  · rw [Call.perform, ha, hb]
  · obtain rfl := hfail.error hf
    rw [Call.perform, hf, hg]
    cases hfg
    rfl

theorem answers_checks (hs : s.Sound) (hscope : scope.Within s) (format : Format)
    (es : List (String × Expr)) (h : Advance (.fresh s none) s t t) :
    Call.answers t (checks scope format none es) =
      (checks scope format none es).map fun c => c.perform.result s := by
  induction es generalizing t with
  | nil => rfl
  | cons p es ih =>
    have hnext := (advance_checks hscope (fun i hi => by cases hi) format [p] h).after h
    rw [checks, List.map_cons, Call.answers, List.map_cons, result_check_alone hs hscope h]
    exact congrArg _ (ih hnext)

/-! ## how inference ends in one session -/

/-- two texts print one term, with the names that its vars have in the two stores -/
def SameText (ρ : Var → Var) (t t' : Store) (x x' : String) : Prop :=
  ∃ u : Term Var, (∀ v ∈ u.vars, t.label? v ≠ none ∧ t'.label? (ρ v) ≠ none) ∧
    x = u.print t.nameText ∧ x' = (u.rename ρ).print t'.nameText

/-- two endings of inference are the same but for a renaming of vars -/
inductive SameOutcome (ρ : Var → Var) (t t' : Store) :
    Except Failure Ty → Except Failure Ty → Prop where
  | ok {a a' : Ty} (h : t'.resolve a' = (t.resolve a).rename ρ) :
    SameOutcome ρ t t' (.ok a) (.ok a')
  | circular {a b a' b' : Ty} (ha : t'.resolve a' = (t.resolve a).rename ρ)
    (hb : t'.resolve b' = (t.resolve b).rename ρ) :
    SameOutcome ρ t t' (.error (.problem (.circular a b))) (.error (.problem (.circular a' b')))
  | mismatch {x y x' y' : String} (hx : SameText ρ t t' x x') (hy : SameText ρ t t' y y') :
    SameOutcome ρ t t' (.error (.problem (.mismatch x y))) (.error (.problem (.mismatch x' y')))
  | undefinedName (x : String) :
    SameOutcome ρ t t' (.error (.problem (.undefinedName x))) (.error (.problem (.undefinedName x)))
  | namesExhausted : SameOutcome ρ t t' (.error .namesExhausted) (.error .namesExhausted)

theorem Renaming.ShowsAlike.sameText {r : Renaming} {w : Term Var} {y y' : String}
    (h : r.ShowsAlike s t w y y') (hp : Parallel r s t) : SameText r.var s t y y' := by
  refine ⟨w, fun v hv => ?_, h.text_eq, h.text_eq'⟩
  obtain ⟨code, hcode⟩ := h.named v hv
  rw [hp.label v (h.shown v hv), hcode]
  exact ⟨Option.some_ne_none _, Option.some_ne_none _⟩

theorem Renaming.MapsFailure.sameOutcome {r : Renaming} {f g : Failure}
    (h : r.MapsFailure s t f g) (hp : Parallel r s t) (hf : Rejection f s) :
    SameOutcome r.var s t (.error f) (.error g) := by
  cases h with
  | circular _ _ haa' hbb' => exact .circular (hp.resolve_eq haa') (hp.resolve_eq hbb')
  | mismatch ha hb => exact .mismatch (ha.sameText hp) (hb.sameText hp)
  | undefinedName x => exact .undefinedName x
  | namesExhausted => exact .namesExhausted
  | notOneCharacter n =>
    obtain (⟨_, _, h⟩ | ⟨_, _, h⟩ | ⟨h, -⟩) | ⟨_, h⟩ := hf <;> cases h

/-- two runs of inference in step end in the same way, unless the second one has given up -/
theorem InStep.sameOutcome {r : Renaming} {act act' : StoreM Ty} {s' : Store}
    (h : InStep r (fun _ => False) act s act' s' fun ty ty' _ _ => r.Maps ty ty')
    (hno : Ends act' s' (fun _ _ => True) fun g t' => ¬ r.GaveUp g t')
    (hfail : Ends act s (fun _ _ => True) Rejection) :
    SameOutcome r.var (after act s) (after act' s') (act.result s) (act'.result s') := by
  unfold after result
  rcases h.both hno with
    ⟨a, t, b, t', ha, hb, hadv, hmaps⟩ | ⟨f, t, g, t', hf, hg, hadv, hfg⟩
  · rw [ha, hb]
    exact .ok (hadv.parallel.resolve_eq hmaps)
  · rw [hf, hg]
    exact hfg.sameOutcome hadv.parallel (hfail.error hf)

/-- inference ends as it would by itself, if the session still has a name left then -/
theorem exists_sameOutcome (e : Expr) (hs : s.Sound) (hscope : scope.Within s)
    (hi : i < s.sessions.size) (h : Advance (.fresh s (some i)) s t t)
    (hleft : (after (e.inferType scope (some i)) t).cursor i < labelBound) :
    ∃ ρ : Var → Var, ρ.Injective ∧ (∀ v, s.Made v → ρ v = v) ∧
      SameOutcome ρ (after (e.inferType scope (some i)) s) (after (e.inferType scope (some i)) t)
        ((e.inferType scope (some i)).result s) ((e.inferType scope (some i)).result t) := by
  have his : ∀ j ∈ some i, j < s.sessions.size := fun j hj => by cases hj; exact hi
  have hrun := inStep_inferType_skip e (h.stays.parallel_skip hs his) hscope his
  have hno := Renaming.ends_not_gaveUp_skip (s := s) hi hleft
  refine ⟨s.skipVar t, skipVar_injective s t, fun v hv => skipVar_of_made hv, ?_⟩
  refine (hrun.mono fun _ _ _ _ _ hX => hX.1).sameOutcome hno ?_
  exact (ends_inferType hs hscope his).mono (fun _ _ _ => trivial) fun _ _ hf => hf.2.1

/-- the rest of a check takes no names back -/
theorem cursor_le_check (x : String) (e : Expr) (format : Format) (hs : s.Sound)
    (hscope : scope.Within s) (hi : ∀ i ∈ session, i < s.sessions.size) (i : Nat) :
    (after (e.inferType scope session) s).cursor i ≤
      (after (e.check x scope format session) s).cursor i := by
  obtain ⟨hp, hmaps⟩ := mapsOutcome_inferType e hs hscope hi
  have hrun := (inStep_conclude x e format hp Renaming.ahead_same hmaps).advance Renaming.ahead_same
  have hcheck : after (e.check x scope format session) s =
      after (e.conclude x format ((e.inferType scope session).result s))
        (after (e.inferType scope session) s) := by
    rw [after, check_from]
    rfl
  rw [hcheck]
  exact hrun.stays.names.cursor_le i

/-! ## the result -/

theorem run_checks_append (s : Store) (scope : Scope Ty) (format : Format) (session : Option Nat)
    (es ds : List (String × Expr)) :
    s.run (checks scope format session (es ++ ds)) =
      (s.run (checks scope format session es)).run (checks scope format session ds) := by
  rw [checks, List.map_append, run_append]
  rfl

/-- checks without a session say what each of them says alone; and in one session, as long as it has
names left, inference ends at each place as it would alone, up to a one-to-one renaming of vars -/
theorem checks_independent (hs : s.Sound) (hscope : scope.Within s) (format : Format)
    (es : List (String × Expr)) :
    Call.answers s (checks scope format none es) =
      (checks scope format none es).map (fun c => c.perform.result s) ∧
    ∀ i < s.sessions.size, (s.run (checks scope format (some i) es)).cursor i < labelBound →
      ∀ pre x e post, es = pre ++ (x, e) :: post →
        ∃ ρ : Var → Var, ρ.Injective ∧ (∀ v, s.Made v → ρ v = v) ∧
          SameOutcome ρ (after (e.inferType scope (some i)) s)
            (after (e.inferType scope (some i)) (s.run (checks scope format (some i) pre)))
            ((e.inferType scope (some i)).result s)
            ((e.inferType scope (some i)).result (s.run (checks scope format (some i) pre))) := by
  refine ⟨answers_checks hs hscope format es (.refl (.fresh hs none)), ?_⟩
  rintro i hi hleft pre x e post rfl
  have his : ∀ j ∈ some i, j < s.sessions.size := fun j hj => by cases hj; exact hi
  have hpre := advance_checks hscope his format pre (.refl (.fresh hs (some i)))
  have hthis := advance_checks hscope his format [(x, e)] hpre
  have hpost := advance_checks hscope his format post (hthis.after hpre)
  rw [← List.singleton_append, run_checks_append, run_checks_append] at hleft
  refine exists_sameOutcome e hs hscope hi hpre (lt_of_le_of_lt ?_ hleft)
  -- names are given out by inference, then by the rest of the check, then by the checks after it
  refine le_trans ?_ (hpost.stays.names.cursor_le i)
  have hgrows := hpre.stays.binds.grows
  have hcursor := cursor_le_check x e format hgrows.sound (hscope.mono hgrows.made)
    (fun j hj => (his j hj).trans_le hgrows.sessions) i
  rwa [← after_return _ Answer.text] at hcursor

def circleExample : String × Expr := ("circle", .fn "x" (.app (.name "x") (.name "x")))

/-- the failed check has left vars behind, and the next one says what it would have said before -/
theorem checks_independent_of_circle :
    Call.answers chainStore
        (checks identityScope .long none [circleExample, ("calls", Expr.calls)]) =
      (checks identityScope .long none [circleExample, ("calls", Expr.calls)]).map
        (fun c => c.perform.result chainStore) ∧
    (chainStore.run (checks identityScope .long (some 0) [circleExample])).madeBy 0 = 5 ∧
    ∃ ρ : Var → Var, ρ.Injective ∧ (∀ v, chainStore.Made v → ρ v = v) ∧
      SameOutcome ρ (after (Expr.calls.inferType identityScope (some 0)) chainStore)
        (after (Expr.calls.inferType identityScope (some 0))
          (chainStore.run (checks identityScope .long (some 0) [circleExample])))
        ((Expr.calls.inferType identityScope (some 0)).result chainStore)
        ((Expr.calls.inferType identityScope (some 0)).result
          (chainStore.run (checks identityScope .long (some 0) [circleExample]))) := by
  obtain ⟨hsame, hshared⟩ := checks_independent sound_chainStore within_identityScope .long
    [circleExample, ("calls", Expr.calls)]
  have hleft : (chainStore.run (checks identityScope .long (some 0)
      [circleExample, ("calls", Expr.calls)])).cursor 0 < labelBound := by decide +kernel
  exact ⟨hsame, by decide +kernel, hshared 0 (by decide) hleft [circleExample] "calls" _ [] rfl⟩

end LetPoly
