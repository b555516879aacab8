import LetPoly.Proofs.Check
import LetPoly.Proofs.Json.Decoding
import LetPoly.Proofs.ShownTypes

/-!
# The long report from the JSON one

What the JSON report on a failure says is enough for the long report on it.  A reader makes a
failure of the fields (`Failure.ofFields`), and the long report on that is the same.  The reader does
not know the types of a circular problem, but their texts: once they were shown, they are shown with
the same texts again, so operators of these names stand for them.

* `Failure.ofFields`            a failure that reads like the one with these fields;
* `Failure.members_readBack`    it does, as long as nothing but showing has happened since;
* `Failure.long_of_json`        so two failures with the same JSON report have the same long report.
-/

namespace LetPoly

open StoreM Store

variable {s u v : Store} {inner outer : Ty} {a b source path : String} {e e' : Failure}
  {fields : List (String × String)}

/-! ## types that were shown -/

namespace Ty

theorem ends_shown_again {α : Type} (hs : s.Sound) (hi : s.Has inner) (ho : s.Has outer)
    (ha : s.Spells (s.resolve inner) a) (hb : s.Spells (s.resolve outer) b)
    (f : String → String → α) :
    Ends (do let x ← inner.render; let y ← outer.render; return f x y : StoreM α) s
      (fun r _ => r = f a b) never := by
  have hfirst := (renders_of_spells hs hi ha).and (displays_render hs hi)
  refine (hfirst.error_mono fun _ _ h => h.1).bind fun x s₁ ⟨hx, hd⟩ => ?_
  have hb₁ : s₁.Spells (s₁.resolve outer) b := by
    rw [hd.quiet.resolve_eq hs.acyclic]
    exact hb.keep hd.named
  refine (renders_of_spells (hd.quiet.sound hs) (hd.quiet.has_of_has ho) hb₁).bind fun y _ hy => ?_
  rw [hx, hy]
  exact ends_pure.2 rfl

theorem render_constant (k : Nat) (n : String) (s : Store) : (op k n []).render s = .ok n s := by
  have htext : operatorText n [] = n := operatorText_eq n []
  have hwithin (fuel : Nat) : renderWithin fuel (op k n []) s = .ok (operatorText n []) s := by
    cases fuel with
    | zero => rfl
    | succ fuel => rfl
  rw [htext] at hwithin
  exact hwithin s.varCount

end Ty

/-! ## reading a report back -/

namespace OutputFault

def ofLabel (text : String) : OutputFault :=
  if text = noPermission.label then noPermission
  else if text = pathIsFolder.label then pathIsFolder
  else fileNotFound

theorem ofLabel_label (fault : OutputFault) : ofLabel fault.label = fault := by
  cases fault <;> decide +kernel

end OutputFault

namespace Failure

/-- the value of a field, empty if there is none -/
def valueOf (fields : List (String × String)) (x : String) : String := (fields.lookup x).getD ""

/-- a failure that reads like the one with these fields; operators that are named like the types of
a circular problem are shown stand for them -/
def ofFields (fields : List (String × String)) : Failure :=
  let value := valueOf fields
  let name := value "error_name"
  if name = "circular_type_error" then
    problem (.circular (.op 0 (value "inner") []) (.op 0 (value "outer") []))
  else if name = "type_mismatch" then
    problem (.mismatch (value "actual_type") (value "expected_type"))
  else if name = "undefined_name" then problem (.undefinedName (value "value"))
  else if name = "command_line_error" then
    problem (.output (.ofLabel (value "specific_error")))
  else foreign (value "actual_error") []

def longOf (fields : List (String × String)) : StoreM String :=
  (ofFields fields).report .long (valueOf fields "source") (valueOf fields "source_path")

/-- whatever has been shown since `u`, the long report is the one made of the fields -/
def ReadBack (e : Failure) (source path : String) (fields : List (String × String)) (u : Store) :
    Prop :=
  ∀ vs v, u.Displayed vs v → ∃ long,
    Ends (e.report .long source path) v (fun text _ => text = long) never ∧
    ∀ w, Ends (longOf fields) w (fun text _ => text = long) never

/-- the long report on a circular problem, from the texts of its types -/
theorem exists_circular_long : ∃ f : String → String → String → String → String,
    ∀ inner outer source path, (problem (.circular inner outer)).report .long source path =
      (do let x ← inner.render; let y ← outer.render; return f source path x y) := by
  apply Exists.intro
  intro inner outer source path
  simp only [report, Problem.report, Problem.explanation, bind_assoc, pure_bind]
  rfl

theorem readBack_circular (hu : u.Sound) (hi : u.Has inner) (ho : u.Has outer)
    (ha : u.Spells (u.resolve inner) a) (hb : u.Spells (u.resolve outer) b) :
    ReadBack (problem (.circular inner outer)) source path
      [("error_name", "circular_type_error"), ("inner", a), ("outer", b), ("source", source),
        ("source_path", path)] u := by
  intro vs v hd
  obtain ⟨f, hf⟩ := exists_circular_long
  refine ⟨f source path a b, ?_, fun w => ?_⟩
  · rw [hf]
    refine Ty.ends_shown_again (hd.quiet.sound hu) (hd.quiet.has_of_has hi)
      (hd.quiet.has_of_has ho) ?_ ?_ _
    · rw [hd.quiet.resolve_eq hu.acyclic]
      exact ha.keep hd.named
    · rw [hd.quiet.resolve_eq hu.acyclic]
      exact hb.keep hd.named
  · have hlong : longOf [("error_name", "circular_type_error"), ("inner", a), ("outer", b),
        ("source", source), ("source_path", path)] =
        (problem (.circular (.op 0 a []) (.op 0 b []))).report .long source path := by
      simp [longOf, ofFields, valueOf, List.lookup_cons]
    rw [hlong, hf, Ends, bind_of_ok (Ty.render_constant 0 a w),
      bind_of_ok (Ty.render_constant 0 b w)]
    rfl

theorem readBack_of_problem {p : Problem} {long : String}
    (hlong : ∀ w, (problem p).report .long source path w = .ok long w)
    (hp : longOf fields = (problem p).report .long source path) :
    ReadBack (problem p) source path fields u := by
  intro vs v hd
  refine ⟨long, (ends_of_ok (hlong v)).2 rfl, fun w => ?_⟩
  rw [hp]
  exact (ends_of_ok (hlong w)).2 rfl

theorem readBack_internal (kind : String) (notes : List String)
    (he : ∀ format source path, e.report format source path =
      (do note (.internalError kind notes); return Report.internal kind format path)) :
    ReadBack e source path (Report.internalFields kind path) u := by
  intro vs v hd
  refine ⟨Report.internal kind .long path, ?_, fun w => ?_⟩
  · rw [he]
    exact rfl
  · have hlong : longOf (Report.internalFields kind path) =
        (foreign kind []).report .long "" path := by
      simp [longOf, ofFields, valueOf, Report.internalFields, List.lookup_cons]
    rw [hlong]
    exact rfl

theorem members_readBack (he : ∀ notes, e ≠ problem (.general notes)) (hs : s.Sound)
    (hhas : ∀ t ∈ Format.json.typesShown (.error e), s.Has t) (source path : String) :
    Ends (e.members source path) s (fun fields u => ReadBack e source path fields u)
      fun _ _ => True := by
  cases e with
  | problem p =>
    cases p with
    | circular inner outer =>
      have hi : s.Has inner := hhas inner (by simp [Format.typesShown])
      have ho : s.Has outer := hhas outer (by simp [Format.typesShown])
      refine ((Ty.shows_render hs hi).error_mono fun _ _ _ => trivial).bind fun a s₁ ha => ?_
      have hs₁ := ha.quiet.sound hs
      have ho₁ := ha.quiet.has_of_has ho
      refine ((Ty.shows_render hs₁ ho₁).error_mono fun _ _ _ => trivial).bind fun b s₂ hb => ?_
      have hq := ha.quiet.trans hb.quiet
      refine readBack_circular (hq.sound hs) (hq.has_of_has hi) (hq.has_of_has ho) ?_ ?_
      · rw [hq.resolve_eq hs.acyclic]
        exact ha.spells.keep hb.named
      · rw [hb.quiet.resolve_eq hs₁.acyclic]
        exact hb.spells
    | mismatch leftText rightText =>
      refine readBack_of_problem (fun w => rfl) ?_
      simp [longOf, ofFields, valueOf, Problem.name, List.lookup_cons]
    | undefinedName x =>
      refine readBack_of_problem (fun w => rfl) ?_
      simp [longOf, ofFields, valueOf, Problem.name, List.lookup_cons]
    | output fault =>
      refine readBack_of_problem (fun w => rfl) ?_
      simp [longOf, ofFields, valueOf, Problem.name, List.lookup_cons, OutputFault.ofLabel_label]
      rfl
    | general notes => exact absurd rfl (he notes)
  | namesExhausted => exact readBack_internal _ _ fun _ _ _ => rfl
  | notOneCharacter n => exact readBack_internal _ _ fun _ _ _ => rfl
  | missingType use => exact readBack_internal _ _ fun _ _ _ => rfl
  | endlessChain => exact readBack_internal _ _ fun _ _ _ => rfl
  | foreign kind notes => exact readBack_internal _ _ fun _ _ _ => rfl

/-- a JSON report was made of the fields that a reader finds in it -/
theorem members_of_json {text : String} (h : e.report .json source path s = .ok text u) :
    ∃ fields, e.members source path s = .ok fields u ∧
      Json.parse? text = some (.object (Json.members fields)) := by
  rw [report_eq] at h
  cases hrun : e.members source path s with
  | ok fields w =>
    rw [bind_of_ok hrun] at h
    cases h
    exact ⟨fields, rfl, Json.parse?_object e.charset fields⟩
  | error f w =>
    rw [bind_of_error hrun] at h
    cases h

theorem fields_eq_of_json {s' u' : Store} {source' path' text : String}
    (h : e.report .json source path s = .ok text u)
    (h' : e'.report .json source' path' s' = .ok text u') :
    ∃ fields, e.members source path s = .ok fields u ∧
      e'.members source' path' s' = .ok fields u' := by
  obtain ⟨fields, hfields, hparse⟩ := members_of_json h
  obtain ⟨fields', hfields', hparse'⟩ := members_of_json h'
  rw [hparse, Option.some.injEq, Json.Value.object.injEq] at hparse'
  have hinj : Function.Injective fun f : String × String => (f.1, Json.Value.string f.2) := by
    intro f g hfg
    rw [Prod.mk.injEq, Json.Value.string.injEq] at hfg
    exact Prod.ext hfg.1 hfg.2
  obtain rfl : fields = fields' := List.map_injective_iff.2 hinj hparse'
  exact ⟨fields, hfields, hfields'⟩

/-- if the JSON reports on two failures are the same text, whatever the stores, sources and paths
are, then so are the long reports on them, right after the JSON reports or once more has been
shown -/
theorem long_of_json {s' u' v' : Store} {vs vs' : List Var} {source' path' text : String}
    (he : ∀ notes, e ≠ problem (.general notes)) (he' : ∀ notes, e' ≠ problem (.general notes))
    (hs : s.Sound) (hs' : s'.Sound) (hhas : ∀ t ∈ Format.json.typesShown (.error e), s.Has t)
    (hhas' : ∀ t ∈ Format.json.typesShown (.error e'), s'.Has t)
    (h : e.report .json source path s = .ok text u)
    (h' : e'.report .json source' path' s' = .ok text u') (hv : u.Displayed vs v)
    (hv' : u'.Displayed vs' v') :
    ∃ long w w', e.report .long source path v = .ok long w ∧
      e'.report .long source' path' v' = .ok long w' := by
  obtain ⟨fields, hfields, hfields'⟩ := fields_eq_of_json h h'
  obtain ⟨long, hlong, hread⟩ := (members_readBack he hs hhas source path).ok hfields vs v hv
  obtain ⟨long', hlong', hread'⟩ :=
    (members_readBack he' hs' hhas' source' path').ok hfields' vs' v' hv'
  obtain ⟨text, w, hw, rfl⟩ := hlong.exists_ok
  obtain ⟨text', w', hw', rfl⟩ := hlong'.exists_ok
  obtain ⟨read, x, hx, rfl⟩ := (hread v).exists_ok
  obtain rfl := (hread' v).ok hx
  exact ⟨_, w, w', hw, hw'⟩

def selfApplied (v : Var) : Failure :=
  problem (.circular (.var v) (.op 2 Ty.funcName [.var v, .var v]))

def selfAppliedFields : List (String × String) :=
  [("error_name", "circular_type_error"), ("inner", "α"), ("outer", "(α -> α)"), ("source", "x"),
    ("source_path", "self")]

/-- the second of two vars, before and after the first one is bound to it -/
theorem long_of_json_of_bound : ∃ u u' long w w',
    (selfApplied ⟨0, 1⟩).report .json "x" "self" ((startAt Term.firstCode).run showSecond) =
      .ok (Json.object .full selfAppliedFields) u ∧
    (selfApplied ⟨0, 0⟩).report .json "x" "self" Ty.boundToShown =
      .ok (Json.object .full selfAppliedFields) u' ∧
    (selfApplied ⟨0, 1⟩).report .long "x" "self" u = .ok long w ∧
    (selfApplied ⟨0, 0⟩).report .long "x" "self" u' = .ok long w' := by
  have hsound : ((startAt Term.firstCode).run showSecond).Sound :=
    (stays_run (sound_startAt _) (allWithin_showSecond _)).binds.grows.sound
  have hjson : Ends ((selfApplied ⟨0, 1⟩).report .json "x" "self")
      ((startAt Term.firstCode).run showSecond)
      (fun text _ => text = Json.object .full selfAppliedFields) never := by decide +kernel
  have hjson' : Ends ((selfApplied ⟨0, 0⟩).report .json "x" "self") Ty.boundToShown
      (fun text _ => text = Json.object .full selfAppliedFields) never := by decide +kernel
  obtain ⟨text, u, hu, rfl⟩ := hjson.exists_ok
  obtain ⟨text', u', hu', rfl⟩ := hjson'.exists_ok
  have hhas (v : Var) (s : Store) (hv : s.Made v) :
      ∀ t ∈ Format.json.typesShown (.error (selfApplied v)), s.Has t := by
    have hvar : s.Has (.var v) := has_var.2 hv
    have hop : s.Has (.op 2 Ty.funcName [.var v, .var v]) := by
      refine has_op.2 fun t ht => ?_
      rcases List.mem_pair.1 ht with rfl | rfl <;> exact hvar
    intro t ht
    rcases List.mem_pair.1 ht with rfl | rfl
    · exact hvar
    · exact hop
  have hrefl (s : Store) : s.Displayed [] s := .of_quiet (.refl s) (refl_of SameNames s)
  have hcircular (v : Var) (notes : List String) :
      selfApplied v ≠ problem (.general notes) := by
    intro h
    cases h
  obtain ⟨long, w, w', hlong, hlong'⟩ := long_of_json (hcircular ⟨0, 1⟩) (hcircular ⟨0, 0⟩) hsound
    Ty.sound_boundToShown (hhas _ _ (by decide +kernel)) (hhas _ _ (by decide +kernel)) hu hu'
    (hrefl u) (hrefl u')
  exact ⟨u, u', long, w, w', hu, hu', hlong, hlong'⟩

end Failure
end LetPoly
