import LetPoly.Proofs.Parallel.Skip
import LetPoly.Proofs.Reports

/-!
# How many names an example uses up

A check of an example takes as many display names as `Examples.letters` says, wherever they start;
it fails exactly if there are not that many (`Examples.ends_letters`).

Inference is evaluated once for each example, where no names are left at all: it takes none, and
leaves so many vars to be named for the outcome (`Examples.ends_inferType`).  A store with names
left is parallel to that one, which is so many names ahead, so what is left to be named is the same
(`Examples.pending_result`).
-/

namespace LetPoly

open StoreM Store

variable {s t u : Store} {c : Nat} {p : String × Expr}

/-! ## what is shown in two runs -/

section

variable {r : Renaming} {y y' : Except Failure Ty} {as bs : List Ty}

theorem Parallel.varsShown_eq (h : Parallel r s t)
    (hab : List.Forall₂ (fun a b => r.Shows s a ∧ r.Maps a b) as bs) :
    (∀ v ∈ s.varsShown as, v ∈ r.shown) ∧ t.varsShown bs = (s.varsShown as).map r.var := by
  induction hab with
  | nil => exact ⟨List.forall_mem_nil _, rfl⟩
  | cons hab _ ih =>
    refine ⟨fun v hv => ?_, ?_⟩
    · exact (List.mem_append.1 hv).elim (hab.1.shown v) (ih.1 v)
    · rw [Store.varsShown, List.flatMap_cons, Store.varsShown, List.flatMap_cons, List.map_append,
        h.vars_eq hab.2]
      exact congrArg _ ih.2

/-- as many vars get a name in one run as in the other -/
theorem Renaming.MapsOutcome.unnamed_eq (h : r.MapsOutcome s t y y') (hp : Parallel r s t)
    (format : Format) :
    t.unnamed (t.varsShown (format.typesShown y')) =
      (s.unnamed (s.varsShown (format.typesShown y))).map r.var := by
  obtain ⟨hshown, hvars⟩ := hp.varsShown_eq (h.typesShown format)
  rw [hvars, hp.unnamed_map hshown]

end

/-! ## the standard environment -/

def standardTypes : Scope Ty :=
  match standardScope 0 (startAt 0) with
  | .ok scope _ => scope
  | .error _ _ => .empty

/-- the store with their vars, whose names start at `c` -/
def standardStore (c : Nat) : Store where
  sessions := #[{ cells := #[{}, {}, {}], cursor := c }]
  nextMark := Ty.firstMark + 10

theorem standardScope_startAt (c : Nat) :
    standardScope 0 (startAt c) = .ok standardTypes (standardStore c) := rfl

namespace Store

/-- there is one session, with the vars of the standard environment and no bindings -/
structure Standard (s : Store) : Prop where
  sound : s.Sound
  within : standardTypes.Within s
  size : s.sessions.size = 1
  madeBy : s.madeBy 0 = 3
  unbound : ∀ v, s.binding? v = none

theorem standard_standardStore (c : Nat) : (standardStore c).Standard := by
  have hrun : Ends (standardScope 0) (startAt c) _ never := ends_standardScope_within Nat.one_pos
  obtain ⟨hk, hscope⟩ := hrun.ok (standardScope_startAt c)
  refine ⟨hk.sound (sound_startAt c), hscope, rfl, rfl, fun v => (hk.bound v).2 ?_⟩
  refine binding?_of_not_made fun hm => ?_
  have hsession : v.session = 0 := Nat.lt_one_iff.1 hm.session_lt
  rw [Made, hsession] at hm
  exact Nat.not_lt_zero _ hm

namespace Standard

theorem session (hs : s.Standard) : ∀ i ∈ some 0, i < s.sessions.size := by
  intro i hi
  cases hi
  rw [hs.size]
  exact Nat.one_pos

theorem made_iff (hs : s.Standard) (v : Var) : s.Made v ↔ v.session = 0 ∧ v.id < 3 := by
  rw [Made]
  by_cases hv : v.session = 0
  · rw [hv, hs.madeBy, and_iff_right rfl]
  · rw [madeBy_of_le (by rw [hs.size]; omega)]
    exact iff_of_false (Nat.not_lt_zero _) fun h => hv h.1

theorem last_eq (hs : s.Standard) (v : Var) : s.last (.var v) = .var v :=
  Ended.last_eq fun w hw => by cases hw; exact hs.unbound v

/-- what looks like the standard store to begin with still does after some checks -/
theorem parallel (hs : s.Standard) (hu : u.Standard) (h : Stays (.fresh u (some 0)) u t)
    (hle : s.cursor 0 ≤ t.cursor 0) : Parallel (.skip s t (some 0)) s t := by
  have hmade : ∀ v, s.Made v → u.Made v := fun v hv => (hu.made_iff v).2 ((hs.made_iff v).1 hv)
  have hgrows := h.binds.grows
  refine .skip hs.sound hgrows.sound ?_ (fun v hv => hgrows.made v (hmade v hv)) (fun v hv => ?_)
    hs.session fun i hi => ?_
  · rw [hs.size, ← hu.size]
    exact hgrows.sessions
  · rw [h.last_of_made hu.sound (hmade v hv), hu.last_eq, hs.last_eq]
  · cases hi
    exact hle

end Standard
end Store

namespace Examples

/-! ## the letters of an example -/

/-- how many names the outcome of an example uses up: those of a type or of a circular problem, if
the report has room for it -/
def letters (format : Format) (x : String) : Nat :=
  if x = "non_generic" then 1
  else if x = "composition" then 3
  else if x = "self_application" ∧ format ≠ .short then 2
  else 0

theorem letters_le (format : Format) (x : String) : letters format x ≤ 3 := by
  unfold letters
  split_ifs <;> omega

/-- so many vars of the session have no name yet when `y` is reported -/
def Pending (format : Format) (x : String) (y : Except Failure Ty) (t : Store) : Prop :=
  (∀ w ∈ t.unnamed (t.varsShown (format.typesShown y)), w.session = 0) ∧
    (t.unnamed (t.varsShown (format.typesShown y))).length = letters format x

/-- inference takes no name, even where none is left -/
theorem ends_inferType (format : Format) (hp : p ∈ all) :
    Ends (p.2.inferType standardTypes (some 0)) (standardStore labelBound)
      (fun ty t => t.cursor 0 = labelBound ∧ Pending format p.1 (.ok ty) t)
      fun f t => (t.cursor 0 = labelBound ∧ Pending format p.1 (.error f) t) ∧
        f.kind ≠ "ValueError" := by
  revert p
  unfold Pending
  cases format <;> decide +kernel

/-- where names are left, inference ends in the same way -/
theorem mapsOutcome_standard (hp : p ∈ all) (hc : c ≤ labelBound) :
    Advance (.skip (standardStore c) (standardStore labelBound) (some 0)) (standardStore c)
        (after (p.2.inferType standardTypes (some 0)) (standardStore c))
        (after (p.2.inferType standardTypes (some 0)) (standardStore labelBound)) ∧
      (Renaming.skip (standardStore c) (standardStore labelBound) (some 0)).MapsOutcome
        (after (p.2.inferType standardTypes (some 0)) (standardStore c))
        (after (p.2.inferType standardTypes (some 0)) (standardStore labelBound))
        ((p.2.inferType standardTypes (some 0)).result (standardStore c))
        ((p.2.inferType standardTypes (some 0)).result (standardStore labelBound)) := by
  have hs := standard_standardStore c
  have hs' := standard_standardStore labelBound
  have hrun := inStep_inferType_skip p.2 (hs.parallel hs' (.refl hs'.sound) hc) hs.within hs.session
  exact hrun.mapsOutcome ((ends_inferType .short hp).mono (fun _ _ _ => trivial)
    fun g t hg hgave => hg.2 (congrArg Failure.kind hgave.1))

theorem pending_result (hp : p ∈ all) (format : Format) (hc : c ≤ labelBound) :
    (after (p.2.inferType standardTypes (some 0)) (standardStore c)).cursor 0 = c ∧
      Pending format p.1 ((p.2.inferType standardTypes (some 0)).result (standardStore c))
        (after (p.2.inferType standardTypes (some 0)) (standardStore c)) := by
  have hs := standard_standardStore c
  obtain ⟨hadv, hmaps⟩ := mapsOutcome_standard hp hc
  obtain ⟨hcursor, hsession, hlength⟩ := Ends.result
    (P := fun y t => t.cursor 0 = labelBound ∧ Pending format p.1 y t)
    ((ends_inferType format hp).error_mono fun _ _ hf => hf.1)
  rw [hmaps.unnamed_eq hadv.parallel format] at hsession hlength
  refine ⟨?_, fun w hw => ?_, by rwa [List.length_map] at hlength⟩
  · have hsame := hadv.parallel.cursor 0 (.inl rfl)
    have hfirst : (standardStore c).cursor 0 = c := rfl
    have hlast : (standardStore labelBound).cursor 0 = labelBound := rfl
    dsimp only [Renaming.skip] at hsame
    rw [skipSession_of_lt (hs.session 0 rfl), if_pos (Option.mem_some_self 0), hcursor, hfirst,
      hlast] at hsame
    omega
  · have hvar := hsession _ (List.mem_map_of_mem hw)
    dsimp only [Renaming.skip] at hvar
    rw [session_skipVar] at hvar
    have hlt : w.session < (standardStore c).sessions.size := by
      rw [← skipSession_lt_iff (t := standardStore labelBound), hvar]
      exact Nat.one_pos
    exact Nat.lt_one_iff.1 hlt

/-- a check takes its letters, wherever they start; it fails exactly if there are not that many -/
theorem ends_letters (hp : p ∈ all) (format : Format) (hc : c ≤ labelBound) :
    Ends (p.2.check p.1 standardTypes format (some 0)) (standardStore c)
      (fun _ t => t.cursor 0 = c + letters format p.1 ∧ c + letters format p.1 ≤ labelBound)
      fun f _ => f = .namesExhausted ∧ labelBound < c + letters format p.1 := by
  have hs := standard_standardStore c
  have hshown := displays_inferred p.1 p.2 format hs.sound hs.within hs.session
  obtain ⟨hcursor, hsession, hlength⟩ := pending_result hp format hc
  rw [Ends, check_from]
  generalize (p.2.inferType standardTypes (some 0)).result (standardStore c) = y at *
  generalize after (p.2.inferType standardTypes (some 0)) (standardStore c) = t at *
  have hcount : (t.unnamed (t.varsShown (format.typesShown y))).countP (·.session = 0) =
      letters format p.1 := by
    rw [← hlength, List.countP_eq_length]
    simpa using hsession
  refine hshown.mono (fun _ u h => ?_) fun f u h => ?_
  · have hnext : u.cursor 0 = c + letters format p.1 := by rw [h.named.cursor, hcursor, hcount]
    refine ⟨hnext, ?_⟩
    rcases Nat.eq_zero_or_pos (letters format p.1) with hnone | hsome
    · rwa [hnone]
    · obtain ⟨w, hw⟩ := List.exists_mem_of_length_pos (hlength.symm ▸ hsome)
      have hlast := h.named.bound w hw
      rwa [hsession w hw, hnext] at hlast
  · refine ⟨h.failure, ?_⟩
    by_contra hle
    refine h.not_suffices fun w hw => ?_
    rw [hsession w hw, hcursor, hcount]
    exact Nat.le_of_not_lt hle

end Examples
end LetPoly
