import LetPoly.Store.Basic

/-!
# How a run ends

`StoreM.Ends act s Q R` says that `act`, started in the store `s`, either returns a result and a
store in `Q`, or fails with a failure and a store in `R`.  A failure keeps the store, so `R` is as
much of a statement as `Q`; with `R` empty the run does not fail at all.

`Ends.bind` takes a run apart at its first step, `ends_get` at one that looks at the store.
-/

namespace LetPoly.StoreM

variable {α β : Type} {act : StoreM α} {s s' : Store} {Q Q' : α → Store → Prop}
  {R R' : Failure → Store → Prop}

def Ends (act : StoreM α) (s : Store) (Q : α → Store → Prop) (R : Failure → Store → Prop) : Prop :=
  match act s with
  | .ok a s' => Q a s'
  | .error f s' => R f s'

def never (_ : Failure) (_ : Store) : Prop := False

def after (act : StoreM α) (s : Store) : Store :=
  match act s with
  | .ok _ s' => s'
  | .error _ s' => s'

instance (f : Failure) (s : Store) : Decidable (never f s) := .isFalse id

instance [∀ a s, Decidable (Q a s)] [∀ f s, Decidable (R f s)] : Decidable (Ends act s Q R) :=
  match h : act s with
  | .ok a s' => decidable_of_iff (Q a s') (by rw [Ends, h])
  | .error f s' => decidable_of_iff (R f s') (by rw [Ends, h])

theorem ends_pure {a : α} : Ends (pure a) s Q R ↔ Q a s := Iff.rfl

theorem ends_get {k : Store → StoreM α} : Ends (get >>= k) s Q R ↔ Ends (k s) s Q R := Iff.rfl

theorem ends_of_ok {a : α} (h : act s = .ok a s') : Ends act s Q R ↔ Q a s' := by
  rw [Ends, h]

theorem get_bind (k : Store → StoreM α) (s : Store) : (get >>= k) s = k s s := rfl

theorem bind_of_ok {act : StoreM β} {b : β} (h : act s = .ok b s') (k : β → StoreM α) :
    (act >>= k) s = k b s' := by
  show EStateM.bind act k s = _
  rw [EStateM.bind, h]

theorem bind_of_error {act : StoreM β} {f : Failure} (h : act s = .error f s')
    (k : β → StoreM α) : (act >>= k) s = .error f s' := by
  show EStateM.bind act k s = _
  rw [EStateM.bind, h]

theorem Ends.of_eq {act' : StoreM α} (h : Ends act' s' Q R) (hact : act s = act' s') :
    Ends act s Q R := by
  unfold Ends at h ⊢
  rwa [hact]

theorem Ends.mono (h : Ends act s Q R) (hQ : ∀ a s', Q a s' → Q' a s')
    (hR : ∀ f s', R f s' → R' f s') : Ends act s Q' R' := by
  unfold Ends at h ⊢
  cases hact : act s with
  | ok a s' =>
    rw [hact] at h
    exact hQ a s' h
  | error f s' =>
    rw [hact] at h
    exact hR f s' h

theorem Ends.ok_mono (h : Ends act s Q R) (hQ : ∀ a s', Q a s' → Q' a s') : Ends act s Q' R :=
  h.mono hQ fun _ _ h => h

theorem Ends.error_mono (h : Ends act s Q R) (hR : ∀ f s', R f s' → R' f s') : Ends act s Q R' :=
  h.mono (fun _ _ h => h) hR

/-- a run that does not fail may be given any failures -/
theorem Ends.safe (h : Ends act s Q never) : Ends act s Q R := h.mono (fun _ _ h => h) nofun

theorem Ends.and (h : Ends act s Q R) (h' : Ends act s Q' R') :
    Ends act s (fun a s' => Q a s' ∧ Q' a s') (fun f s' => R f s' ∧ R' f s') := by
  unfold Ends at h h' ⊢
  cases hact : act s with
  | ok a s' =>
    rw [hact] at h h'
    exact ⟨h, h'⟩
  | error f s' =>
    rw [hact] at h h'
    exact ⟨h, h'⟩

theorem ends_bind_iff {k : β → StoreM α} {act : StoreM β} :
    Ends (act >>= k) s Q R ↔ Ends act s (fun b s' => Ends (k b) s' Q R) R := by
  show (match EStateM.bind act k s with | .ok a s' => Q a s' | .error f s' => R f s') ↔ _
  unfold Ends EStateM.bind
  cases act s <;> exact Iff.rfl

theorem Ends.bind {k : β → StoreM α} {act : StoreM β} {P : β → Store → Prop} (h : Ends act s P R)
    (hk : ∀ b s', P b s' → Ends (k b) s' Q R) : Ends (act >>= k) s Q R :=
  ends_bind_iff.2 (h.mono hk fun _ _ h => h)

/-- the same first step, followed by what goes on alike from wherever it may end -/
theorem Ends.bind_congr {k k' : β → StoreM α} {act act' : StoreM β} {P : β → Store → Prop}
    (h : Ends act s P R) (hact : act' s = act s) (hk : ∀ b s', P b s' → k' b s' = k b s') :
    (act' >>= k') s = (act >>= k) s := by
  show EStateM.bind act' k' s = EStateM.bind act k s
  unfold Ends at h
  unfold EStateM.bind
  rw [hact]
  cases hrun : act s with
  | ok b s' =>
    rw [hrun] at h
    exact hk b s' h
  | error f s' => rfl

theorem Ends.ok (h : Ends act s Q R) {a : α} (ha : act s = .ok a s') : Q a s' :=
  (ends_of_ok ha).1 h

theorem Ends.error (h : Ends act s Q R) {f : Failure} (hf : act s = .error f s') : R f s' := by
  rwa [Ends, hf] at h

theorem Ends.exists_ok (h : Ends act s Q never) : ∃ a s', act s = .ok a s' ∧ Q a s' := by
  unfold Ends at h
  cases hact : act s with
  | ok a s' =>
    rw [hact] at h
    exact ⟨a, s', rfl, h⟩
  | error f s' =>
    rw [hact] at h
    exact absurd h (by simp [never])

theorem Ends.after {P : Store → Prop} (h : Ends act s (fun _ s' => P s') fun _ s' => P s') :
    P (StoreM.after act s) := by
  unfold Ends at h
  unfold StoreM.after
  cases hact : act s with
  | ok a s' =>
    rw [hact] at h
    exact h
  | error f s' =>
    rw [hact] at h
    exact h

theorem Ends.safe_after {P : Store → Prop} (h : Ends act s Q never) (hP : ∀ a s', Q a s' → P s') :
    P (StoreM.after act s) :=
  (h.ok_mono hP).safe.after

end LetPoly.StoreM
