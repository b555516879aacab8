import LetPoly.Proofs.Parallel.Identity
import LetPoly.Proofs.History

/-!
# Inference leaves the environment alone

A scope and the types that are inferred share one store, and still inference binds and names no var
of the scope, unless it occurs in one of the non-generic types: it works on copies
(`inference_leaves_environment`).  That holds however inference ends.

* `Store.Untouched E s s'`   of the vars of `s` only those in `E` were bound or named, so a resolved
  form changes at these vars only;
* `value_not_kept`   a bound var stands for other vars, and may change although it does not itself
  occur in a non-generic type.
-/

namespace LetPoly

open StoreM Store
open Store (chainStore)

/-- of the vars of `s` only those in `E` were bound or named on the way to `s'` -/
structure Store.Untouched (E : Set Var) (s s' : Store) : Prop where
  unbound : ∀ v, s.Made v → v ∉ E → s.binding? v = none → s'.binding? v = none
  label : ∀ v, s.Made v → v ∉ E → s'.label? v = s.label? v
  /-- a resolved form changes at the vars of `E` only -/
  value : ∀ v, s.Made v →
    s'.value v = (s.value v).subst fun w => open Classical in if w ∈ E then s'.value w else .var w
  value_eq : ∀ v, s.Made v → (∀ w ∈ (s.value v).vars, w ∉ E) → s'.value v = s.value v

variable {E : Set Var} {s s' t : Store} {Γ : Context} {e : Expr}

/-- new vars and those of `E` may be bound and named, in any session -/
def Renaming.within (E : Set Var) (s : Store) : Renaming :=
  .identity (s.orNew E) Set.univ fun _ _ => trivial

theorem Parallel.within (hs : s.Sound) (E : Set Var) : Parallel (.within E s) s s :=
  .refl hs (fun _ => trivial) fun _ hm _ => mem_orNew_of_not_made hm

theorem Stays.untouched (h : Stays (.within E s) s t) (hs : s.Sound) : s.Untouched E t := by
  have hnot : ∀ v, s.Made v → v ∉ E → v ∉ s.orNew E := fun v hm hv hE => hv (hE hm)
  have hunbound : ∀ v, s.Made v → v ∉ E → s.binding? v = none → t.binding? v = none :=
    fun v hm hv hb => (h.binds.touches v hm hb).1 (hnot v hm hv)
  have hvar : ∀ v w, s.Made v → w ∈ (s.value v).vars → w ∉ E → t.value w = .var w := by
    intro v w hm hw hE
    exact value_of_unbound <| hunbound w (hs.made_of_mem (has_var.2 hm) hw) hE <|
      hs.acyclic.unbound_of_mem_value hw
  refine ⟨hunbound, fun v hm hv => h.label_other v (hnot v hm hv), fun v hm => ?_,
    fun v hm hv => ?_⟩
  · rw [h.binds.grows.value_eq hs.acyclic]
    refine Term.subst_congr fun w hw => ?_
    split
    · rfl
    · next hE => exact hvar v w hm hw hE
  · rw [h.binds.grows.value_eq hs.acyclic]
    exact Term.subst_eq_self fun w hw => hvar v w hm hw (hv w hw)

/-- what is said of the types of two runs holds for one, with all that it leaves alone -/
theorem InStep.untouched {act : StoreM Ty} (hs : s.Sound)
    (h : InStep (.within E s) (fun _ => False) act s act s fun ty _ t _ =>
      (Renaming.within E s).Shows t ty) :
    Ends act s (fun ty t => s.Untouched E t ∧ ∀ w ∈ (t.resolve ty).vars, s.Made w → w ∈ E)
      fun _ t => s.Untouched E t := by
  rcases h.alike fun _ => rfl with
    ⟨ty, t, _, _, hact, -, hadv, hty⟩ | ⟨f, t, _, _, hact, -, hadv, -⟩
  · exact (ends_of_ok hact).2 ⟨hadv.stays.untouched hs, hty.shown⟩
  · rw [Ends, hact]
    exact hadv.stays.untouched hs

theorem untouched_infer {i : Nat} (hs : s.Sound) (hΓ : Γ.Within s) (hi : i < s.sessions.size) :
    Ends (e.infer i Γ) s
      (fun ty t => s.Untouched (s.varsOf Γ.nonGeneric) t ∧
        ∀ w ∈ (t.resolve ty).vars, s.Made w → w ∈ s.varsOf Γ.nonGeneric)
      fun _ t => s.Untouched (s.varsOf Γ.nonGeneric) t := by
  have hp := Parallel.within hs (s.varsOf Γ.nonGeneric)
  have hr : Ready (.within (s.varsOf Γ.nonGeneric) s) s s Γ Γ i :=
    hΓ.ready hp hi trivial fun _ hv => mem_orNew_of_mem hv
  exact InStep.untouched hs <| ((inStep_infer e hp hr).part hp hr).mono fun _ _ _ _ _ hX => hX.2.1

theorem untouched_inferType {scope : Scope Ty} {session : Option Nat} (hs : s.Sound)
    (hscope : scope.Within s) (hi : ∀ i ∈ session, i < s.sessions.size) :
    Ends (e.inferType scope session) s
      (fun ty t => s.Untouched ∅ t ∧ ∀ w ∈ (t.resolve ty).vars, ¬ s.Made w)
      fun _ t => s.Untouched ∅ t := by
  have hst : Start (.within ∅ s) s scope session := hscope.start hi fun _ _ => trivial
  have hrun : InStep (.within ∅ s) (fun _ => False) (e.inferType scope session) s
      (e.inferType scope (session.map (Renaming.within ∅ s).session)) s
      fun ty _ t _ => (Renaming.within ∅ s).Shows t ty :=
    (inStep_inferType e (.within hs ∅) hst).mono fun _ _ _ _ _ hX => hX.2
  rw [Renaming.map_session (.within ∅ s) trivial] at hrun
  exact InStep.untouched hs hrun

/-! ## both entry points -/

variable {a b : Analyser} {ty : Ty} {f : Failure}

theorem analyse_ok (h : AnalyserM.analyse e Γ (a, s) = .ok ty (b, t)) :
    b = a ∧ e.infer a.session Γ s = .ok ty t := by
  rw [analyse_eq] at h
  cases hrun : e.infer a.session Γ s with
  | ok ty' t' =>
    rw [hrun] at h
    cases h
    exact ⟨rfl, rfl⟩
  | error f' t' =>
    rw [hrun] at h
    cases h

theorem analyse_error (h : AnalyserM.analyse e Γ (a, s) = .error f (b, t)) :
    b = a ∧ e.infer a.session Γ s = .error f t := by
  rw [analyse_eq] at h
  cases hrun : e.infer a.session Γ s with
  | ok ty' t' =>
    rw [hrun] at h
    cases h
  | error f' t' =>
    rw [hrun] at h
    cases h
    exact ⟨rfl, rfl⟩

theorem Binds.varsOf_later {ts : List Ty} {w : Var} (h : Binds E s t) (hs : s.Sound)
    (hw : w ∈ s.varsOf ts) (hb : t.binding? w = none) : w ∈ t.varsOf ts := by
  refine (h.mem_varsOf_later hs).2 ⟨w, hw, ?_⟩
  rw [value_of_unbound hb]
  exact List.mem_singleton_self w

/-- inference binds and names only vars of non-generic types and new ones, and returns a type over
them; inferring the type of a whole expression touches no var that was there before -/
theorem inference_leaves_environment (e : Expr) (hs : s.Sound) :
    (∀ (Γ : Context) (a : Analyser), Γ.Within s → a.session < s.sessions.size →
      (∀ ty b t, AnalyserM.analyse e Γ (a, s) = .ok ty (b, t) →
        s.Untouched (s.varsOf Γ.nonGeneric) t ∧ ∀ w ∈ (t.resolve ty).vars,
          ¬ s.Made w ∨ (w ∈ s.varsOf Γ.nonGeneric ∧ w ∈ t.varsOf Γ.nonGeneric)) ∧
      ∀ f b t, AnalyserM.analyse e Γ (a, s) = .error f (b, t) →
        s.Untouched (s.varsOf Γ.nonGeneric) t) ∧
    ∀ (scope : Scope Ty) (session : Option Nat), scope.Within s →
      (∀ i ∈ session, i < s.sessions.size) →
      (∀ ty t, e.inferType scope session s = .ok ty t →
        s.Untouched ∅ t ∧ ∀ w ∈ (t.resolve ty).vars, ¬ s.Made w) ∧
      ∀ f t, e.inferType scope session s = .error f t → s.Untouched ∅ t := by
  refine ⟨fun Γ a hΓ ha => ?_, fun scope session hscope hi => ?_⟩
  · have hrun := (untouched_infer (e := e) hs hΓ ha).and (infers e hs hΓ ha)
    constructor
    · intro ty b t h
      obtain ⟨rfl, hok⟩ := analyse_ok h
      obtain ⟨⟨hun, hvars⟩, htyped⟩ := hrun.ok hok
      refine ⟨hun, fun w hw => or_iff_not_imp_left.2 fun hm => ?_⟩
      have hE := hvars w hw (not_not.1 hm)
      exact ⟨hE, htyped.binds.varsOf_later hs hE (htyped.binds.sound.acyclic.unbound_of_mem hw)⟩
    · intro f b t h
      obtain ⟨rfl, herr⟩ := analyse_error h
      exact (hrun.error herr).1
  · have hrun := untouched_inferType (e := e) hs hscope hi
    exact ⟨fun ty t h => hrun.ok h, fun f t h => hrun.error h⟩

/-! ## a call of a function whose argument is non-generic -/

/-- `f` takes the first component of the pair in `pairStore`, which has to stay the same -/
def callContext : Context where
  scope := .ofList [("f", .op 3 Ty.funcName [.var ⟨0, 1⟩, .var ⟨0, 2⟩])]
  nonGeneric := [.var ⟨0, 1⟩]

def callOfF : Expr := .app (.name "f") (.name "5")

theorem within_callContext : callContext.Within pairStore := by
  refine ⟨fun x t hx => ?_, fun t ht => ?_⟩
  · have hget : callContext.scope.get? x = if x = "f" then
        some (.op 3 Ty.funcName [.var ⟨0, 1⟩, .var ⟨0, 2⟩]) else none :=
      Scope.get?_extend .empty "f" x _
    rw [hget] at hx
    split at hx
    · cases hx
      exact ⟨rfl, by decide +kernel⟩
    · cases hx
  · rw [callContext, List.mem_singleton] at ht
    subst ht
    exact ⟨rfl, by decide +kernel⟩

/-- the call binds the non-generic var, and the pair then has another first component -/
theorem exists_callOfF : ∃ ty t,
    AnalyserM.analyse callOfF callContext ({ session := 0 }, pairStore)
      = .ok ty ({ session := 0 }, t) ∧
      (t.binding? ⟨0, 1⟩).map Ty.text = some "int" ∧ (t.value ⟨0, 0⟩).vars = [⟨0, 2⟩] := by
  have hrun : Ends (callOfF.infer 0 callContext) pairStore
      (fun _ t => (t.binding? ⟨0, 1⟩).map Ty.text = some "int" ∧ (t.value ⟨0, 0⟩).vars = [⟨0, 2⟩])
      never := by decide +kernel
  obtain ⟨ty, t, h, hbound, hvars⟩ := hrun.exists_ok
  refine ⟨ty, t, ?_, hbound, hvars⟩
  rw [analyse_eq, h]

/-- the call touches no var but the one that is non-generic -/
theorem inference_leaves_environment_of_call : ∃ ty b t,
    AnalyserM.analyse callOfF callContext ({ session := 0 }, pairStore) = .ok ty (b, t) ∧
      pairStore.Untouched (pairStore.varsOf callContext.nonGeneric) t := by
  obtain ⟨ty, t, h, -, -⟩ := exists_callOfF
  have hall := (inference_leaves_environment callOfF reached_pairStore.sound).1 callContext
    { session := 0 } within_callContext (by decide +kernel)
  exact ⟨ty, _, t, h, (hall.1 ty _ t h).1⟩

/-- a var that occurs in no non-generic type need not keep its resolved form: it may be bound to
a type over vars that do occur there -/
theorem value_not_kept : ¬ ∀ (s t : Store) (e : Expr) (Γ : Context) (a b : Analyser) (ty : Ty),
    s.Sound → Γ.Within s → a.session < s.sessions.size →
      AnalyserM.analyse e Γ (a, s) = .ok ty (b, t) →
        ∀ v, s.Made v → v ∉ s.varsOf Γ.nonGeneric → t.value v = s.value v := by
  intro hkept
  obtain ⟨ty, t, h, -, hvars⟩ := exists_callOfF
  have hnot : (⟨0, 0⟩ : Var) ∉ pairStore.varsOf callContext.nonGeneric := by
    rintro ⟨u, hu, hv⟩
    rw [callContext, List.mem_singleton] at hu
    subst hu
    revert hv
    decide +kernel
  have hvalue := hkept pairStore t callOfF callContext _ _ ty reached_pairStore.sound
    within_callContext (by decide +kernel) h ⟨0, 0⟩ (by decide +kernel) hnot
  rw [hvalue] at hvars
  revert hvars
  decide +kernel

end LetPoly
