import LetPoly.Proofs.Parallel.Runs

/-!
# Display names over whole runs

The names of a session are the code points from its first one on, without a gap and each with one
owner, at all times; and a name is never taken back (`display_names`).  Whatever has happened
before, showing a type prints its resolved form, in which unnamed vars get the next names from left
to right, and showing it again gives the same text.

* `Store.Suffices s vs`   there are names left for all vars of the list;
* `Ty.ShownOnce`, `Ty.Stopped`   what a shown type leaves behind, and what one that found no name;
* `Ty.render_returns_iff`   a type is shown exactly if the names suffice.
-/

namespace LetPoly

open StoreM Store

variable {s t u : Store} {ty : Ty} {text : String} {f : Failure} {i c : Nat} {cs ds : List Call}

/-- every session has names left for those of the vars that have none -/
def Store.Suffices (s : Store) (vs : List Var) : Prop :=
  ∀ w ∈ s.unnamed vs,
    s.cursor w.session + (s.unnamed vs).countP (·.session = w.session) ≤ labelBound

theorem Store.Named.suffices {vs : List Var} (h : Named (s.unnamed vs) s u) : s.Suffices vs := by
  intro w hw
  rw [← h.cursor]
  exact h.bound w hw

/-- where the vars before `w` have taken the last names, the names do not suffice -/
theorem Store.Named.not_suffices {vs pre post : List Var} {w : Var}
    (heq : s.unnamed vs = pre ++ w :: post) (h : Named pre s u)
    (hbound : labelBound ≤ u.cursor w.session) : ¬ s.Suffices vs := by
  intro hall
  have hw := hall w (by rw [heq]; simp)
  rw [heq, List.countP_append, List.countP_cons_of_pos (by simp)] at hw
  rw [h.cursor] at hbound
  omega

theorem Store.OutOfNames.not_suffices {vs : List Var} (h : s.OutOfNames vs f u) :
    ¬ s.Suffices vs := by
  obtain ⟨pre, w, post, heq, hnamed, hbound⟩ := h.stopped
  exact hnamed.not_suffices heq hbound

/-! ## showing a type -/

namespace Ty

/-- `text` is the printed resolved form, and showing it again changes nothing that can be seen -/
structure ShownOnce (s : Store) (ty : Ty) (text : String) (u : Store) : Prop
    extends Shown s (s.resolve ty) text u where
  again : Ends ty.render u (fun text' w => text' = text ∧ u.SameView w) never

/-- the var that asked stays unnamed, and the names given to those before it stay -/
structure Stopped (s : Store) (ty : Ty) (f : Failure) (u : Store) : Prop where
  failure : f = .namesExhausted
  kind : f.kind = "ValueError"
  stopped : ∃ pre w post, s.unnamed (s.resolve ty).vars = pre ++ w :: post ∧ Named pre s u ∧
    u.label? w = none ∧ labelBound ≤ u.cursor w.session

theorem shownOnce (hs : s.Sound) (hty : s.Has ty) (h : s.Shown (s.resolve ty) text u) :
    ShownOnce s ty text u where
  toShown := h
  again := by
    have hu := h.quiet.sound hs
    have hnil := h.spells.unnamed_eq_nil
    have hrun := (shows_render hu (h.quiet.has_of_has hty)).and (unmoved_render ty u)
    rw [h.quiet.resolve_eq hs.acyclic] at hrun
    refine hrun.mono (fun text' w ⟨hshown, hmoved⟩ => ?_) fun f w ⟨hstop, _⟩ => ?_
    · have hnamed : Named [] u w := hnil ▸ hshown.named
      have hstill : u.Still w :=
        ⟨hmoved, fun v => hnamed.others v List.not_mem_nil, fun i => hnamed.cursor i⟩
      refine ⟨?_, hstill.sameView hshown.quiet hu.acyclic⟩
      rw [hshown.text_eq, h.text_eq, h.named.print_eq hnamed fun _ hv => hv]
    · obtain ⟨pre, w, post, heq, -⟩ := hstop.stopped
      rw [hnil] at heq
      simp at heq

theorem stopped (h : s.OutOfNames (s.resolve ty).vars f u) : Stopped s ty f u where
  failure := h.failure
  kind := by rw [h.failure]; rfl
  stopped := by
    obtain ⟨pre, w, post, heq, hnamed, hbound⟩ := h.stopped
    refine ⟨pre, w, post, heq, hnamed, hnamed.label?_eq_none_iff.2 ⟨?_, ?_⟩, hbound⟩
    · have hw : w ∈ s.unnamed (s.resolve ty).vars := by rw [heq]; simp
      exact (mem_unnamed.1 hw).2
    · have hnodup := s.nodup_unnamed (s.resolve ty).vars
      rw [heq] at hnodup
      exact fun hw => (List.nodup_append.1 hnodup).2.2 w hw w List.mem_cons_self rfl

theorem suffices_of_shown (h : s.Shown (s.resolve ty) text u) :
    s.Suffices (s.resolve ty).vars := h.named.suffices

theorem not_suffices_of_stopped (h : Stopped s ty f u) : ¬ s.Suffices (s.resolve ty).vars := by
  obtain ⟨pre, w, post, heq, hnamed, -, hbound⟩ := h.stopped
  exact hnamed.not_suffices heq hbound

theorem ends_shown (hs : s.Sound) (hty : s.Has ty) :
    Ends ty.render s (fun text u => ShownOnce s ty text u) (Stopped s ty) :=
  (shows_render hs hty).mono (fun _ _ h => shownOnce hs hty h) fun _ _ h => stopped h

theorem render_returns_iff (hs : s.Sound) (hty : s.Has ty) :
    (∃ text u, ty.render s = .ok text u) ↔ s.Suffices (s.resolve ty).vars := by
  have hrun := ends_shown hs hty
  cases h : ty.render s with
  | ok text u => exact ⟨fun _ => suffices_of_shown (hrun.ok h).toShown, fun _ => ⟨text, u, rfl⟩⟩
  | error f u =>
    constructor
    · rintro ⟨text, u, h⟩
      cases h
    · exact fun hall => absurd hall (not_suffices_of_stopped (hrun.error h))

end Ty

/-! ## whole runs -/

/-- a session whose vars have no names yet -/
theorem Store.owns_of_unlabelled (hlabel : ∀ v : Var, v.session = i → s.label? v = none) :
    s.Owns i (s.cursor i) := by
  refine ⟨Nat.le_refl _, fun code => ⟨?_, ?_⟩, fun v w hv _ code hc => ?_⟩
  · rintro ⟨v, hv, hc⟩
    rw [hlabel v hv] at hc
    cases hc
  · rintro ⟨hle, hlt⟩
    exact absurd hlt (Nat.not_lt.2 hle)
  · rw [hlabel v hv] at hc
    cases hc

theorem Store.owns_of_new (hi : s.sessions[i]? = some { cells := #[], cursor := c }) :
    s.Owns i c := by
  have hcursor : s.cursor i = c := by rw [cursor, hi, Option.elim_some]
  rw [← hcursor]
  refine owns_of_unlabelled fun v hv => ?_
  rw [label?, cell?, hv, hi]
  rfl

/-- the names of a session are those from its first one to the next one, each with one owner, and
they are kept; a type is shown with them, and unnamed vars get the next ones in order -/
theorem display_names (hs : s.Sound) (hi : s.sessions[i]? = some { cells := #[], cursor := c })
    (hcs : Call.AllWithin s cs) :
    (s.run cs).Owns i c ∧
      (∀ ds, Call.AllWithin (s.run cs) ds → ∀ v code, (s.run cs).label? v = some code →
        ((s.run cs).run ds).label? v = some code) ∧
      ∀ ty, (s.run cs).Has ty →
        (∀ text u, ty.render (s.run cs) = .ok text u → Ty.ShownOnce (s.run cs) ty text u) ∧
        (∀ f u, ty.render (s.run cs) = .error f u → Ty.Stopped (s.run cs) ty f u) ∧
        ((∃ text u, ty.render (s.run cs) = .ok text u) ↔
          (s.run cs).Suffices ((s.run cs).resolve ty).vars) := by
  have hstays := stays_run hs hcs
  have hsound := hstays.binds.sound
  have hsize : i < s.sessions.size := (Array.getElem?_eq_some_iff.1 hi).1
  refine ⟨hstays.names.owns i c hsize (owns_of_new hi), fun ds hds => ?_, fun ty hty => ?_⟩
  · exact (stays_run hsound hds).names.keep
  · have hrun := Ty.ends_shown hsound hty
    exact ⟨fun _ _ h => hrun.ok h, fun _ _ h => hrun.error h, Ty.render_returns_iff hsound hty⟩

/-- one session, whose names start at `c` -/
def startAt (c : Nat) : Store where
  sessions := #[{ cursor := c }]

theorem sound_startAt (c : Nat) : (startAt c).Sound := by
  refine (Reached.start fun v hv => ?_).sound
  have hsession := hv.session_lt
  obtain ⟨i, k⟩ := v
  obtain rfl : i = 0 := Nat.lt_one_iff.1 hsession
  exact Nat.not_lt_zero k hv

/-- two vars, of which the second one is shown first -/
def showSecond : List Call :=
  [.op (.newVar 0), .op (.newVar 0), .op (.render (.var ⟨0, 1⟩))]

theorem allWithin_showSecond (c : Nat) : Call.AllWithin (startAt c) showSecond := by
  refine ⟨Nat.zero_lt_one, Nat.zero_lt_one, ⟨rfl, fun v hv => ?_⟩, trivial⟩
  rw [Ty.term_var, Term.vars_var, List.mem_singleton] at hv
  subst hv
  exact Nat.one_lt_two

def firstToSecond : Ty := .op 2 Ty.funcName [.var ⟨0, 0⟩, .var ⟨0, 1⟩]

/-- the first var gets the name after that of the second one, or none if that was the last name -/
theorem display_names_of_two :
    (∃ u, firstToSecond.render ((startAt 945).run showSecond) = .ok "(β -> α)" u ∧
      Ty.ShownOnce ((startAt 945).run showSecond) firstToSecond "(β -> α)" u) ∧
    ∃ f u, firstToSecond.render ((startAt 0x10FFFF).run showSecond) = .error f u ∧
      Ty.Stopped ((startAt 0x10FFFF).run showSecond) firstToSecond f u := by
  constructor
  · obtain ⟨-, -, hshow⟩ := display_names (i := 0) (c := 945) (sound_startAt 945) rfl
      (allWithin_showSecond 945)
    have hrun : Ends firstToSecond.render ((startAt 945).run showSecond)
        (fun text _ => text = "(β -> α)") never := by decide +kernel
    obtain ⟨text, u, h, rfl⟩ := hrun.exists_ok
    exact ⟨u, h, (hshow _ ⟨rfl, by decide +kernel⟩).1 _ u h⟩
  · obtain ⟨-, -, hshow⟩ := display_names (i := 0) (c := 0x10FFFF) (sound_startAt 0x10FFFF) rfl
      (allWithin_showSecond 0x10FFFF)
    have hrun : Ends firstToSecond.render ((startAt 0x10FFFF).run showSecond)
        (fun _ _ => False) (fun _ _ => True) := by decide +kernel
    cases h : firstToSecond.render ((startAt 0x10FFFF).run showSecond) with
    | ok text u => exact (hrun.ok h).elim
    | error f u => exact ⟨f, u, rfl, (hshow _ ⟨rfl, by decide +kernel⟩).2.1 f u h⟩

end LetPoly
