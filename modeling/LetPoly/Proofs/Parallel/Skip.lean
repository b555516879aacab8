import LetPoly.Proofs.Parallel.Identity

/-!
# A run that starts later

Steps that bind and name only vars that they make themselves, in a session of theirs or in new ones,
leave behind a store that looks like the one before them (`Stays.parallel_skip`): what was there is
still there, and the vars and sessions still to come have only moved on.  So whatever comes next
goes as it would have gone at once, up to `Renaming.skip` (`inStep_inferType_skip`,
`inStep_check_skip`).  More than that is not asked of the two stores (`Parallel.skip`).
-/

namespace LetPoly

open StoreM Store

variable {s t : Store} {session : Option Nat} {scope : Scope Ty} {i j : Nat} {v w : Var}

/-! ## what is still to come -/

namespace Store

/-- the sessions that a run may make vars in: the one it is given, if any, and new ones -/
def ownSessions (s : Store) (session : Option Nat) : Set Nat :=
  {i | i ∈ session ∨ s.sessions.size ≤ i}

/-- the vars that such a run may make -/
def ownVars (s : Store) (session : Option Nat) : Set Var :=
  {v | v.session ∈ s.ownSessions session ∧ ¬ s.Made v}

theorem own_next (s : Store) (session : Option Nat) (k : Nat) :
    s.sessions.size + k ∈ s.ownSessions session := .inr (Nat.le_add_right _ k)

/-- what a session of a run from `s` is in a run from `t` -/
def skipSession (s t : Store) (i : Nat) : Nat :=
  if i < s.sessions.size then i else i + (t.sessions.size - s.sessions.size)

theorem skipSession_of_lt (h : i < s.sessions.size) : s.skipSession t i = i := if_pos h

theorem skipSession_of_le (h : s.sessions.size ≤ i) :
    s.skipSession t i = i + (t.sessions.size - s.sessions.size) := if_neg (Nat.not_lt.2 h)

theorem skipSession_lt_iff : s.skipSession t i < s.sessions.size ↔ i < s.sessions.size := by
  unfold skipSession
  split <;> omega

theorem skipSession_injective (s t : Store) : (s.skipSession t).Injective := by
  intro i j h
  unfold skipSession at h
  split at h <;> split at h <;> omega

/-- what a var of a run from `s` is in a run from `t` -/
def skipVar (s t : Store) (v : Var) : Var :=
  if s.Made v then v
  else ⟨s.skipSession t v.session,
    v.id + (t.madeBy (s.skipSession t v.session) - s.madeBy v.session)⟩

theorem skipVar_of_made (h : s.Made v) : s.skipVar t v = v := if_pos h

theorem skipVar_of_not_made (h : ¬ s.Made v) : s.skipVar t v =
    ⟨s.skipSession t v.session,
      v.id + (t.madeBy (s.skipSession t v.session) - s.madeBy v.session)⟩ := if_neg h

theorem session_skipVar (s t : Store) (v : Var) :
    (s.skipVar t v).session = s.skipSession t v.session := by
  by_cases h : s.Made v
  · rw [skipVar_of_made h, skipSession_of_lt h.session_lt]
  · rw [skipVar_of_not_made h]

theorem skipVar_ne (hv : s.Made v) (hw : ¬ s.Made w) : v ≠ s.skipVar t w := by
  rintro heq
  have hsession : v.session = w.session := by
    have hlt := hv.session_lt
    rw [heq, session_skipVar] at hlt ⊢
    exact skipSession_of_lt (skipSession_lt_iff.1 hlt)
  have hid : w.id ≤ v.id := by
    rw [heq, skipVar_of_not_made hw]
    exact Nat.le_add_right _ _
  refine hw (Nat.lt_of_le_of_lt hid ?_)
  rw [← hsession]
  exact hv

theorem not_made_skipVar (h : ¬ s.Made v) : ¬ s.Made (s.skipVar t v) :=
  fun hm => skipVar_ne hm h rfl

theorem skipVar_injective (s t : Store) : (s.skipVar t).Injective := by
  intro v w h
  by_cases hv : s.Made v <;> by_cases hw : s.Made w
  · rwa [skipVar_of_made hv, skipVar_of_made hw] at h
  · rw [skipVar_of_made hv] at h
    exact absurd h (skipVar_ne hv hw)
  · rw [skipVar_of_made hw] at h
    exact absurd h.symm (skipVar_ne hw hv)
  · obtain ⟨i, k⟩ := v
    obtain ⟨j, l⟩ := w
    rw [skipVar_of_not_made hv, skipVar_of_not_made hw, Var.mk.injEq] at h
    obtain rfl : i = j := skipSession_injective s t h.1
    obtain rfl : k = l := Nat.add_right_cancel h.2
    rfl

theorem skipVar_next (h : s.madeBy i ≤ t.madeBy (s.skipSession t i)) (k : Nat) :
    s.skipVar t ⟨i, s.madeBy i + k⟩ =
      ⟨s.skipSession t i, t.madeBy (s.skipSession t i) + k⟩ := by
  have hnot : ¬ s.Made ⟨i, s.madeBy i + k⟩ := Nat.not_lt.2 (Nat.le_add_right _ k)
  rw [skipVar_of_not_made hnot, Var.mk.injEq]
  exact ⟨rfl, by dsimp only; omega⟩

end Store

namespace Renaming

/-- nothing is renamed, and only vars still to be made may be bound and named -/
def fresh (s : Store) (session : Option Nat) : Renaming :=
  .identity (s.ownVars session) (s.ownSessions session) fun _ hv => hv.1

/-- from a run that starts in `s` to one that starts in `t`, after some steps -/
def skip (s t : Store) (session : Option Nat) : Renaming where
  session := s.skipSession t
  var := s.skipVar t
  shown := s.ownVars session
  own := s.ownSessions session
  ahead i := if i ∈ session then t.cursor i - s.cursor i else 0
  exact := False
  injective := skipVar_injective s t
  session_var := session_skipVar s t
  own_of_shown _ hv := hv.1
  var_of_exact := False.elim

/-- the second run is not ahead, if the names of the session that it shares go on at one place -/
theorem ahead_skip_of_le (h : ∀ i ∈ session, t.cursor i ≤ s.cursor i) (i : Nat) :
    (skip s t session).ahead i = 0 := by
  show (if i ∈ session then t.cursor i - s.cursor i else 0) = 0
  split_ifs with hi
  · exact Nat.sub_eq_zero_of_le (h i hi)
  · rfl

theorem ahead_skip_none (s t : Store) (i : Nat) : (skip s t none).ahead i = 0 :=
  ahead_skip_of_le (fun j hj => by cases hj) i

theorem not_gaveUp_skip {u : Store} (hi : i < s.sessions.size) (hleft : u.cursor i < labelBound)
    (f : Failure) : ¬ (skip s t (some i)).GaveUp f u := by
  rintro ⟨-, j, hj, hbound⟩
  by_cases hij : j ∈ some i
  · cases hij
    have hsession : (skip s t (some i)).session i = i := skipSession_of_lt hi
    rw [hsession] at hbound
    exact absurd hleft (Nat.not_lt.2 hbound)
  · exact hj (if_neg hij)

theorem ends_not_gaveUp_skip {α : Type} {act : StoreM α} (hi : i < s.sessions.size)
    (hleft : (after act t).cursor i < labelBound) :
    Ends act t (fun _ _ => True) fun g u => ¬ (skip s t (some i)).GaveUp g u := by
  unfold Ends
  unfold after at hleft
  cases hend : act t with
  | ok a u => trivial
  | error g u =>
    rw [hend] at hleft
    exact not_gaveUp_skip hi hleft g

theorem maps_skip {ty : Ty} (hty : s.Has ty) : (skip s t session).Maps ty ty :=
  .self hty.whole fun v hv => skipVar_of_made (hty.made v hv)

/-- chains that were there end where they ended, and vars still to come are unbound -/
theorem maps_last_skip {r : Renaming} (hr : r.var = s.skipVar t) (hs : s.Sound)
    (hold : ∀ v, s.Made v → t.last (.var v) = s.last (.var v))
    (hnew : ∀ v, ¬ s.Made v → t.binding? (s.skipVar t v) = none) (v : Var) :
    r.Maps (s.last (.var v)) (t.last (.var (r.var v))) := by
  by_cases hv : s.Made v
  · have hlast := hs.has_last (has_var.2 hv)
    rw [hr, skipVar_of_made hv, hold v hv]
    exact .self hlast.whole fun w hw => by rw [hr, skipVar_of_made (hlast.made w hw)]
  · have hnext := hnew v hv
    rw [← hr] at hnext
    rw [Ended.last_eq fun w hw => by cases hw; exact binding?_of_not_made hv,
      Ended.last_eq fun w hw => by cases hw; exact hnext]
    exact .var r v

end Renaming

theorem Parallel.fresh (hs : s.Sound) (session : Option Nat) :
    Parallel (.fresh s session) s s :=
  .refl hs (s.own_next session) fun _ hm hown => ⟨hown, hm⟩

/-! ## after some steps -/

namespace Store

variable (hmade : ∀ v, s.Made v → t.Made v)
include hmade

theorem madeBy_le (i : Nat) : s.madeBy i ≤ t.madeBy i := by
  by_contra hlt
  exact Nat.lt_irrefl _ (hmade ⟨i, t.madeBy i⟩ (Nat.lt_of_not_le hlt))

theorem madeBy_le_skip (i : Nat) : s.madeBy i ≤ t.madeBy (s.skipSession t i) := by
  by_cases hi : i < s.sessions.size
  · rw [skipSession_of_lt hi]
    exact madeBy_le hmade i
  · rw [madeBy_of_le (Nat.le_of_not_lt hi)]
    exact Nat.zero_le _

theorem not_made_skip (hv : ¬ s.Made v) : ¬ t.Made (s.skipVar t v) := by
  intro hm
  rw [skipVar_of_not_made hv, Made] at hm
  have hle : s.madeBy v.session ≤ v.id := Nat.le_of_not_lt hv
  have := madeBy_le_skip hmade v.session
  dsimp only at hm
  omega

end Store

/-- a store looks like one that has all its vars and sessions, if the chains that it has end there
where they end in it -/
theorem Parallel.skip (hs : s.Sound) (ht : t.Sound) (hsize : s.sessions.size ≤ t.sessions.size)
    (hmade : ∀ v, s.Made v → t.Made v)
    (hold : ∀ v, s.Made v → t.last (.var v) = s.last (.var v))
    (hi : ∀ i ∈ session, i < s.sessions.size) (hle : ∀ i ∈ session, s.cursor i ≤ t.cursor i) :
    Parallel (.skip s t session) s t where
  sound := hs
  sound' := ht
  made v hv := by
    show t.Made (s.skipVar t v)
    rw [skipVar_of_made hv]
    exact hmade v hv
  last := Renaming.maps_last_skip rfl hs hold
    fun _ hv => binding?_of_not_made (not_made_skip hmade hv)
  label v hv := by
    show t.label? (s.skipVar t v) = _
    rw [label?_of_not_made hv.2, label?_of_not_made (not_made_skip hmade hv.2)]
    rfl
  cursor i hown := by
    show t.cursor (s.skipSession t i) = s.cursor i + if i ∈ session then _ else 0
    by_cases hin : i ∈ session
    · rw [skipSession_of_lt (hi i hin), if_pos hin, Nat.add_sub_cancel' (hle i hin)]
    · have hlarge : s.sessions.size ≤ i := hown.resolve_left hin
      rw [if_neg hin, skipSession_of_le hlarge, cursor_of_le hlarge, cursor_of_le (by omega)]
  session_lt i hlt := by
    show s.skipSession t i < _
    rw [skipSession_of_lt hlt]
    exact hlt.trans_le hsize
  session_next k := by
    show s.skipSession t _ = _
    rw [skipSession_of_le (Nat.le_add_right _ k)]
    omega
  ahead_next k := if_neg fun hin => absurd (hi _ hin) (Nat.not_lt.2 (Nat.le_add_right _ k))
  own_next := s.own_next session
  var_next i _ := skipVar_next (madeBy_le_skip hmade i)
  shown_next v hm hown := ⟨hown, hm⟩
  mark_eq := False.elim
  events_eq := False.elim

namespace Stays

variable (h : Stays (.fresh s session) s t) (hs : s.Sound)
include h hs

theorem last_of_made (hv : s.Made v) : t.last (.var v) = s.last (.var v) := by
  rw [h.binds.grows.last]
  refine Ended.last_eq fun w hw => ?_
  have hb := hs.acyclic.ended_last (.var v) w hw
  have hm : s.Made w := by
    rw [← has_var, ← hw]
    exact hs.has_last (has_var.2 hv)
  exact (h.binds.touches w hm hb).1 fun hown => hown.2 hm

theorem parallel_skip (hi : ∀ i ∈ session, i < s.sessions.size) :
    Parallel (.skip s t session) s t :=
  .skip hs h.binds.sound h.binds.grows.sessions h.binds.grows.made
    (fun _ hv => h.last_of_made hs hv) hi fun i _ => h.names.cursor_le i

end Stays

/-! ## the scope that both runs see -/

theorem Scope.Within.start_skip (hscope : scope.Within s)
    (hi : ∀ i ∈ session, i < s.sessions.size) : Start (.skip s t session) s scope session where
  within := hscope
  maps x ty hx := Renaming.maps_skip (hscope x ty hx)
  session i hin := ⟨hi i hin, .inl hin⟩

theorem map_skipSession (hi : ∀ i ∈ session, i < s.sessions.size) :
    session.map (Renaming.skip s t session).session = session := by
  cases session with
  | none => rfl
  | some i => exact congrArg some (skipSession_of_lt (hi i rfl))

/-- inference goes as it would have gone from `s`, as long as it finds names -/
theorem inStep_inferType_skip (e : Expr) (h : Parallel (.skip s t session) s t)
    (hscope : scope.Within s) (hi : ∀ i ∈ session, i < s.sessions.size) :
    InStep (.skip s t session) (fun _ => False) (e.inferType scope session) s
      (e.inferType scope session) t
      fun ty ty' u _ => (Renaming.skip s t session).Maps ty ty' ∧
        (Renaming.skip s t session).Shows u ty := by
  have hrun : InStep (.skip s t session) (fun _ => False) (e.inferType scope session) s
      (e.inferType scope (session.map (Renaming.skip s t session).session)) t _ :=
    inStep_inferType e h (hscope.start_skip hi)
  rwa [map_skipSession hi] at hrun

/-- a check says what it would have said, if its names go on at one place -/
theorem inStep_check_skip (x : String) (e : Expr) (format : Format)
    (h : Parallel (.skip s t session) s t)
    (hahead : ∀ i, (Renaming.skip s t session).ahead i = 0) (hscope : scope.Within s)
    (hi : ∀ i ∈ session, i < s.sessions.size) :
    InStep (.skip s t session) (fun _ => False) (e.check x scope format session) s
      (e.check x scope format session) t fun y y' _ _ => y' = y := by
  have hrun : InStep (.skip s t session) (fun _ => False) (e.check x scope format session) s
      (e.check x scope format (session.map (Renaming.skip s t session).session)) t _ :=
    inStep_check x e format h hahead (hscope.start_skip hi)
  rwa [map_skipSession hi] at hrun

end LetPoly
