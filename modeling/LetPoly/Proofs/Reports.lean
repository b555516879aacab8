import LetPoly.Proofs.Check
import LetPoly.Proofs.DisplayNames

/-!
# When a check reports

If there are names for all vars that a check shows, it returns the printed expression with the type
or the report behind it, and whatever inference has raised is reported, a mismatch that could not be
shown included.  If there are not, the check fails over the first var that finds no name, and nothing
is reported (`check_returns`).
-/

namespace LetPoly

open StoreM Store

variable {s : Store} {scope : Scope Ty} {session : Option Nat}

/-- what a check returns for an outcome of inference: the printed expression, and behind it the type
or the report on whatever inference has raised -/
inductive Concluded (x : String) (e : Expr) (format : Format) (s : Store) :
    Except Failure Ty → String → Store → Prop where
  | shown {t : Ty} {s' : Store} :
    Concluded x e format s (.ok t) (e.text ++ " : " ++ (s.resolve t).print s'.nameText) s'
  | reported {f : Failure} {report : String} {s' : Store}
      (h : (do noteFailed x f; f.report format e.text x) s = .ok report s') :
    Concluded x e format s (.error f) (e.text ++ " : " ++ report) s'

theorem ends_concluded (x : String) (e : Expr) (format : Format) (y : Except Failure Ty)
    (hs : s.Sound) (hy : ∀ t ∈ format.typesShown y, s.Has t) :
    Ends (e.conclude x format y) s (Concluded x e format s y) fun _ _ => True := by
  cases y with
  | ok t =>
    have hshow := Ty.shows_render hs (hy t (by simp [Format.typesShown]))
    refine (hshow.error_mono fun _ _ _ => trivial).bind fun text u h => ?_
    rw [h.text_eq]
    exact .shown
  | error f =>
    have heq : e.conclude x format (.error f) = (do
        let report ← (do noteFailed x f; f.report format e.text x)
        return e.text ++ " : " ++ report) := by
      rw [bind_assoc]
      rfl
    rw [heq]
    cases h : (do noteFailed x f; f.report format e.text x : StoreM String) s with
    | ok report u =>
      rw [Ends, bind_of_ok h]
      exact .reported h
    | error g u =>
      rw [Ends, bind_of_error h]
      trivial

/-- a check returns exactly if there are names for all vars that it shows, and what it returns is the
printed expression with the type or the report behind it; all other failures are reported -/
theorem check_returns (x : String) (e : Expr) (format : Format) (hs : s.Sound)
    (hscope : scope.Within s) (hi : ∀ i ∈ session, i < s.sessions.size) {y : Except Failure Ty}
    {t : Store} (hy : (e.inferType scope session).result s = y)
    (ht : after (e.inferType scope session) s = t) :
    Ends (e.check x scope format session) s
      (fun text u => t.Suffices (t.varsShown (format.typesShown y)) ∧
        Concluded x e format t y text u)
      fun f _ => f.kind = "ValueError" ∧ ¬ t.Suffices (t.varsShown (format.typesShown y)) := by
  have hsound := (mapsOutcome_inferType e hs hscope hi).1.sound
  have hhas := has_typesShown e format hs hscope hi
  have hshown := displays_inferred x e format hs hscope hi
  rw [Ends, check_from]
  rw [hy, ht] at hhas hshown ⊢
  rw [ht] at hsound
  refine (hshown.and (ends_concluded x e format y hsound hhas)).mono
    (fun text u h => ⟨h.1.named.suffices, h.2⟩) fun f u h => ⟨?_, h.1.not_suffices⟩
  rw [h.1.failure]
  rfl

theorem within_empty (s : Store) : (Scope.empty : Scope Ty).Within s := by
  intro x t hx
  cases hx

def keepFirst : Expr := .fn "x" (.fn "y" (.name "x"))

/-- from "α" on there are names for both vars -/
theorem check_returns_of_keepFirst :
    ∃ text u t, keepFirst.check "first" .empty .short (some 0) (startAt 945) = .ok text u ∧
      Concluded "first" keepFirst .short t
        ((keepFirst.inferType .empty (some 0)).result (startAt 945)) text u := by
  have hrun : Ends (keepFirst.check "first" .empty .short (some 0)) (startAt 945)
      (fun _ _ => True) never := by decide +kernel
  obtain ⟨text, u, h, -⟩ := hrun.exists_ok
  have hi : ∀ i ∈ some 0, i < (startAt 945).sessions.size := by decide
  have hends := check_returns "first" keepFirst .short (sound_startAt 945)
    (within_empty (startAt 945)) hi rfl rfl
  exact ⟨text, u, _, h, (hends.ok h).2⟩

/-- where one name is left, the check fails and nothing is reported -/
theorem keepFirst_unreported :
    (startAt 0x10FFFF).Sound ∧ (Scope.empty : Scope Ty).Within (startAt 0x10FFFF) ∧
      Ends (keepFirst.check "first" .empty .short (some 0)) (startAt 0x10FFFF)
        (fun _ _ => False) fun f _ => f.kind = "ValueError" :=
  ⟨sound_startAt _, within_empty _, by decide +kernel⟩

end LetPoly
