import LetPoly.Proofs.Infer.Context
import LetPoly.Proofs.Parallel.Basic

/-!
# Runs in step

`InStep r out act s act' s' X` says that `act` from `s` and `act'` from `s'` end alike: both return,
with results and stores in `X`, or both fail alike.  The stores they leave are parallel again, so
`InStep.bind` takes two runs apart at their first steps.

* `Stays r s t`         what the steps from `s` to `t` leave alone: names and bindings of vars that
                        may not be shown, and names that were given;
* `Renaming.MapsFailure`   two failures are the same up to the renaming;
* `Renaming.GaveUp`     the second run has found no names left, in a session where it is ahead.

Fuel differs between the runs.  So failures in `out` count as no ending at all while a recursion is
being compared, and are excluded afterwards (`InStep.strict`).
-/

namespace LetPoly

open StoreM Store

/-- from `s` to `t` only vars that may be shown were bound and named -/
structure Stays (r : Renaming) (s t : Store) : Prop where
  binds : Binds r.shown s t
  names : s.NamesGrow t
  new_own : ∀ v, t.Made v → ¬ s.Made v → v.session ∈ r.own
  label_other : ∀ v ∉ r.shown, t.label? v = s.label? v
  /-- a store goes on shortening chains, or leaving them alone -/
  compress : t.compress = s.compress

/-- two runs have gone on to `t` and `t'`, the first of them from `s` -/
structure Advance (r : Renaming) (s t t' : Store) : Prop where
  parallel : Parallel r t t'
  stays : Stays r s t

namespace Renaming

/-- two texts show one term, in the names of the two runs -/
structure ShowsAlike (r : Renaming) (t t' : Store) (u : Term Var) (text text' : String) : Prop where
  shown : ∀ v ∈ u.vars, v ∈ r.shown
  named : ∀ v ∈ u.vars, ∃ code, t.label? v = some code
  text_eq : text = u.print t.nameText
  text_eq' : text' = (u.rename r.var).print t'.nameText

/-- `t` is a type of the store whose vars may all be shown -/
structure Shows (r : Renaming) (s : Store) (t : Ty) : Prop where
  has : s.Has t
  shown : ∀ v ∈ (s.resolve t).vars, v ∈ r.shown

/-- the two failures are the same, up to the renaming of what they report -/
inductive MapsFailure (r : Renaming) (t t' : Store) : Failure → Failure → Prop where
  | circular {a b a' b' : Ty} (ha : r.Shows t a) (hb : r.Shows t b) (haa' : r.Maps a a')
    (hbb' : r.Maps b b') :
    MapsFailure r t t' (.problem (.circular a b)) (.problem (.circular a' b'))
  | mismatch {u w : Term Var} {a b a' b' : String} (ha : r.ShowsAlike t t' u a a')
    (hb : r.ShowsAlike t t' w b b') :
    MapsFailure r t t' (.problem (.mismatch a b)) (.problem (.mismatch a' b'))
  | undefinedName (x : String) :
    MapsFailure r t t' (.problem (.undefinedName x)) (.problem (.undefinedName x))
  | namesExhausted : MapsFailure r t t' .namesExhausted .namesExhausted
  | notOneCharacter (n : Nat) : MapsFailure r t t' (.notOneCharacter n) (.notOneCharacter n)

/-- the second run has no names left in a session where it is ahead of the first -/
def GaveUp (r : Renaming) (g : Failure) (t' : Store) : Prop :=
  g = .namesExhausted ∧ ∃ i, r.ahead i ≠ 0 ∧ labelBound ≤ t'.cursor (r.session i)

theorem not_gaveUp {r : Renaming} (h : ∀ i, r.ahead i = 0) (g : Failure) (t' : Store) :
    ¬ r.GaveUp g t' := fun ⟨_, i, hi, _⟩ => hi (h i)

end Renaming

theorem Renaming.ends_not_gaveUp {β : Type} (r : Renaming) (h : ∀ i, r.ahead i = 0)
    (act' : StoreM β) (s' : Store) :
    Ends act' s' (fun _ _ => True) fun g t' => ¬ r.GaveUp g t' := by
  unfold Ends
  cases act' s' with
  | ok b t' => trivial
  | error g t' => exact not_gaveUp h g t'

/-- `act` from `s` and `act'` from `s'` end alike, or one of them fails with a failure in `out` -/
def InStep {α β : Type} (r : Renaming) (out : Failure → Prop) (act : StoreM α) (s : Store)
    (act' : StoreM β) (s' : Store) (X : α → β → Store → Store → Prop) : Prop :=
  Ends act s
    (fun a t => Ends act' s' (fun b t' => Advance r s t t' ∧ X a b t t')
      fun g t' => out g ∨ r.GaveUp g t')
    fun f t => Ends act' s' (fun _ _ => out f)
      fun g t' => out f ∨ out g ∨ r.GaveUp g t' ∨ (Advance r s t t' ∧ r.MapsFailure t t' f g)

/-- the failure of a recursion without fuel left -/
def Endless (f : Failure) : Prop := f = .endlessChain

variable {r : Renaming} {out : Failure → Prop} {s s' s₁ t t' u u' : Store} {ty ty' : Ty}

/-! ## what stays -/

namespace Stays

theorem refl (hs : s.Sound) : Stays r s s where
  binds := .refl hs
  names := .of_same (fun _ => rfl) fun _ _ => rfl
  new_own _ hm hn := absurd hm hn
  label_other _ _ := rfl
  compress := rfl

theorem trans (h : Stays r s t) (h' : Stays r t u) : Stays r s u where
  binds := h.binds.trans h'.binds fun _ hw => mem_orNew_of_mem hw
  names := h.names.trans h'.names h.binds.grows.sessions
  new_own v hm hn := by
    by_cases ht : t.Made v
    · exact h.new_own v ht hn
    · exact h'.new_own v hm ht
  label_other v hv := (h'.label_other v hv).trans (h.label_other v hv)
  compress := h'.compress.trans h.compress

theorem mem_shown (h : Stays r s t) (hp : Parallel r s s') {v : Var} (hm : t.Made v)
    (hv : v ∈ s.orNew r.shown) : v ∈ r.shown := by
  by_cases hold : s.Made v
  · exact hv hold
  · exact hp.shown_next v hold (h.new_own v hm hold)

theorem shows (h : Stays r s t) (hp : Parallel r s s') (hty : r.Shows s ty) : r.Shows t ty := by
  have hhas := h.binds.grows.has hty.has
  refine ⟨hhas, fun v hv => h.mem_shown hp (h.binds.sound.made_of_mem hhas hv) ?_⟩
  exact h.binds.touches.mem_resolve h.binds.grows hp.sound hty.has (fun _ hw => hw)
    (fun w hw => mem_orNew_of_mem (hty.shown w hw)) v hv

end Stays

namespace Advance

theorem refl (h : Parallel r s s') : Advance r s s s' := ⟨h, .refl h.sound⟩

theorem after (h' : Advance r t u u') (h : Advance r s t t') : Advance r s u u' :=
  ⟨h'.parallel, h.stays.trans h'.stays⟩

theorem showsAlike {w : Term Var} {a b : String} (hp : Parallel r t t') (h : Advance r t u u')
    (hw : r.ShowsAlike t t' w a b) : r.ShowsAlike u u' w a b := by
  have hname : ∀ v ∈ w.vars, ∃ code, t.label? v = some code ∧ u.label? v = some code := by
    intro v hv
    obtain ⟨code, hcode⟩ := hw.named v hv
    exact ⟨code, hcode, h.stays.names.keep v code hcode⟩
  refine ⟨hw.shown, fun v hv => (hname v hv).imp fun _ hc => hc.2, ?_, ?_⟩
  · rw [hw.text_eq]
    refine Term.print_congr fun v hv => ?_
    obtain ⟨code, ht, hu⟩ := hname v hv
    rw [nameText, nameText, ht, hu]
  · rw [hw.text_eq', Term.print_rename, Term.print_rename]
    refine Term.print_congr fun v hv => ?_
    obtain ⟨code, ht, hu⟩ := hname v hv
    rw [nameText, nameText, hp.label v (hw.shown v hv), h.parallel.label v (hw.shown v hv), ht, hu]

theorem mapsFailure {f g : Failure} (hp : Parallel r t t') (h : Advance r t u u')
    (hf : r.MapsFailure t t' f g) : r.MapsFailure u u' f g := by
  cases hf with
  | circular ha hb haa' hbb' =>
    exact .circular (h.stays.shows hp ha) (h.stays.shows hp hb) haa' hbb'
  | mismatch ha hb => exact .mismatch (showsAlike hp h ha) (showsAlike hp h hb)
  | undefinedName x => exact .undefinedName x
  | namesExhausted => exact .namesExhausted
  | notOneCharacter n => exact .notOneCharacter n

end Advance

/-! ## two runs -/

namespace InStep

variable {α β γ δ : Type} {act : StoreM α} {act' : StoreM β} {X Y : α → β → Store → Store → Prop}

theorem of_ok {a : α} {b : β} (ha : act s = .ok a t) (hb : act' s' = .ok b t')
    (h : Advance r s t t') (hX : X a b t t') : InStep r out act s act' s' X := by
  rw [InStep, ends_of_ok ha, ends_of_ok hb]
  exact ⟨h, hX⟩

theorem of_error {f g : Failure} (hf : act s = .error f t) (hg : act' s' = .error g t')
    (h : Advance r s t t') (hfg : r.MapsFailure t t' f g) : InStep r out act s act' s' X := by
  rw [InStep, Ends, hf]
  dsimp only
  rw [Ends, hg]
  exact .inr (.inr (.inr ⟨h, hfg⟩))

theorem pure {a : α} {b : β} (hp : Parallel r s s') (hX : X a b s s') :
    InStep r out (Pure.pure a) s (Pure.pure b) s' X := .of_ok rfl rfl (.refl hp) hX

theorem throw {f g : Failure} (hp : Parallel r s s') (hfg : r.MapsFailure s s' f g) :
    InStep r out (MonadExcept.throw f : StoreM α) s (MonadExcept.throw g : StoreM β) s' X :=
  .of_error rfl rfl (.refl hp) hfg

theorem mono (h : InStep r out act s act' s' X)
    (hXY : ∀ a b t t', Advance r s t t' → X a b t t' → Y a b t t') :
    InStep r out act s act' s' Y :=
  h.ok_mono fun a t hact => hact.ok_mono fun b t' ⟨hadv, hX⟩ => ⟨hadv, hXY a b t t' hadv hX⟩

theorem and {Q : α → Store → Prop} {R : Failure → Store → Prop} (h : InStep r out act s act' s' X)
    (hact : Ends act s Q R) : InStep r out act s act' s' fun a b t t' => X a b t t' ∧ Q a t :=
  (Ends.and h hact).mono
    (fun _ _ ⟨h, hQ⟩ => h.ok_mono fun _ _ ⟨hadv, hX⟩ => ⟨hadv, hX, hQ⟩) fun _ _ h => h.1

theorem and_right {Q : β → Store → Prop} {R : Failure → Store → Prop}
    (h : InStep r out act s act' s' X) (hact' : Ends act' s' Q R) :
    InStep r out act s act' s' fun a b t t' => X a b t t' ∧ Q b t' :=
  h.ok_mono fun _ _ h => (h.and hact').mono
    (fun _ _ ⟨⟨hadv, hX⟩, hQ⟩ => ⟨hadv, hX, hQ⟩) fun _ _ h => h.1

theorem of_eq {act₁ : StoreM α} {act₁' : StoreM β} {s₁' : Store} (hact : act s = act₁ s)
    (hact' : act' s' = act₁' s₁') (h : InStep r out act₁ s act₁' s₁' X) :
    InStep r out act s act' s' X :=
  (Ends.mono h (fun _ _ h => h.of_eq hact') fun _ _ h => h.of_eq hact').of_eq hact

theorem bind {k : α → StoreM γ} {k' : β → StoreM δ} {Z : γ → δ → Store → Store → Prop}
    (h : InStep r out act s act' s' X)
    (hk : ∀ a b t t', Advance r s t t' → X a b t t' → InStep r out (k a) t (k' b) t' Z) :
    InStep r out (act >>= k) s (act' >>= k') s' Z := by
  rw [InStep, ends_bind_iff]
  refine Ends.mono h (fun a t hact => ?_) fun f t hact => ?_
  · -- the first step of the first run returns
    cases hact' : act' s' with
    | ok b t' =>
      obtain ⟨hadv, hX⟩ := hact.ok hact'
      refine Ends.mono (hk a b t t' hadv hX) (fun c u hc => ?_) fun f u hf => ?_
      · rw [ends_bind_iff, ends_of_ok hact']
        exact hc.ok_mono fun d u' ⟨hadv', hZ⟩ => ⟨hadv'.after hadv, hZ⟩
      · rw [ends_bind_iff, ends_of_ok hact']
        refine hf.error_mono fun g u' hg => ?_
        exact hg.imp_right (Or.imp_right (Or.imp_right fun ⟨hadv', hfg⟩ =>
          ⟨hadv'.after hadv, hfg⟩))
    | error g t' =>
      have hg := hact.error hact'
      have hend : ∀ {Q : δ → Store → Prop} {R : Failure → Store → Prop}, R g t' →
          Ends (act' >>= k') s' Q R := by
        intro Q R hR
        rw [ends_bind_iff, Ends, hact']
        exact hR
      unfold Ends
      cases k a t with
      | ok c u => exact hend hg
      | error f u => exact hend (.inr (hg.imp_right .inl))
  · rw [ends_bind_iff]
    refine hact.ok_mono fun b t' hout => ?_
    unfold Ends
    cases k' b t' with
    | ok d u' => exact hout
    | error g u' => exact .inl hout

/-- a recursion that never fails with a failure in `out` -/
theorem strict (h : InStep r out act s act' s' X)
    (hact : Ends act s (fun _ _ => True) fun f _ => ¬ out f)
    (hact' : Ends act' s' (fun _ _ => True) fun g _ => ¬ out g) :
    InStep r (fun _ => False) act s act' s' X := by
  refine (Ends.and h hact).mono (fun a t ⟨h, _⟩ => ?_) fun f t ⟨h, hf⟩ => ?_
  · exact (h.and hact').mono (fun _ _ h => h.1) fun g t' ⟨h, hg⟩ => .inr (h.resolve_left hg)
  · refine (h.and hact').mono (fun _ _ h => hf h.1) fun g t' ⟨h, hg⟩ => ?_
    exact .inr (.inr ((h.resolve_left hf).resolve_left hg))

/-- if nothing is left out and the second run has not given up, both return or both fail -/
theorem both (h : InStep r (fun _ => False) act s act' s' X)
    (hno : Ends act' s' (fun _ _ => True) fun g t' => ¬ r.GaveUp g t') :
    (∃ a t b t', act s = .ok a t ∧ act' s' = .ok b t' ∧ Advance r s t t' ∧ X a b t t') ∨
      ∃ f t g t', act s = .error f t ∧ act' s' = .error g t' ∧ Advance r s t t' ∧
        r.MapsFailure t t' f g := by
  cases hact : act s with
  | ok a t =>
    have hok := Ends.ok h hact
    cases hact' : act' s' with
    | ok b t' => exact .inl ⟨a, t, b, t', rfl, rfl, hok.ok hact'⟩
    | error g t' => exact (hno.error hact' ((hok.error hact').resolve_left id)).elim
  | error f t =>
    have herr := Ends.error h hact
    cases hact' : act' s' with
    | ok b t' => exact (herr.ok hact').elim
    | error g t' =>
      have hfg := ((herr.error hact').resolve_left id).resolve_left id
      exact .inr ⟨f, t, g, t', rfl, rfl, hfg.resolve_left (hno.error hact')⟩

theorem alike (h : InStep r (fun _ => False) act s act' s' X) (hr : ∀ i, r.ahead i = 0) :
    (∃ a t b t', act s = .ok a t ∧ act' s' = .ok b t' ∧ Advance r s t t' ∧ X a b t t') ∨
      ∃ f t g t', act s = .error f t ∧ act' s' = .error g t' ∧ Advance r s t t' ∧
        r.MapsFailure t t' f g := by
  exact h.both (r.ends_not_gaveUp hr act' s')

/-- a strict comparison holds whatever is left out -/
theorem relax (h : InStep r (fun _ => False) act s act' s' X) : InStep r out act s act' s' X := by
  refine Ends.mono h (fun a t h => ?_) fun f t h => ?_
  · exact h.error_mono fun g t' hg => .inr (hg.resolve_left id)
  · refine h.mono (fun _ _ hno => hno.elim) fun g t' hg => ?_
    exact .inr (.inr ((hg.resolve_left id).resolve_left id))

/-- nothing is said of runs that fail with a failure in `out` -/
theorem out_left {f : Failure} (hact : act s = .error f t) (hf : out f) :
    InStep r out act s act' s' X := by
  rw [InStep, Ends, hact]
  dsimp only
  unfold Ends
  cases act' s' with
  | ok b t' => exact hf
  | error g t' => exact .inl hf

theorem out_right {g : Failure} (hact' : act' s' = .error g u) (hg : out g) :
    InStep r out act s act' s' X := by
  unfold InStep Ends
  rw [hact']
  cases act s with
  | ok a t => exact .inl hg
  | error f t => exact .inr (.inl hg)

end InStep
end LetPoly
