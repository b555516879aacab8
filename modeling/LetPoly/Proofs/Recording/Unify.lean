import LetPoly.Proofs.Recording.Basic
import LetPoly.Proofs.Store.Frame
import LetPoly.Proofs.Store.Unify

/-!
# Unification, watched

The text of unification once more, with every look-up, every attempt to bind a var and every clash
observed.  Each attempt binds one var or none, so the record is in the order in which the vars were
bound.
-/

namespace LetPoly

open StoreM
open Ty (Refusal bindVar clash prune render var op hole same)

namespace Watched

mutual
def unifyWith (onward : Ty → Ty → Recording Unit) : Ty → Ty → Recording Unit
  | var v, right => do
    match ← prune (var v), ← prune right with
    | var v, right => unless same (var v) right do bindVar v right
    | left, var w => bindVar w left
    | left, right => onward left right
  | op k n as, right => do
    match ← prune right with
    | var w => bindVar w (op k n as)
    | op l m bs =>
      if n = m ∧ as.length = bs.length then unifyAllWith onward as bs
      else clash (op k n as) (op l m bs)
    | hole => throw (.missingType .takenApart)
  | hole, right => do
    match ← prune right with
    | var w => bindVar w hole
    | _ => throw (.missingType .takenApart)

def unifyAllWith (onward : Ty → Ty → Recording Unit) : List Ty → List Ty → Recording Unit
  | a :: as, b :: bs => do
    unifyWith onward a b
    unifyAllWith onward as bs
  | _, _ => return
end

def unifyWithin : Nat → Ty → Ty → Recording Unit
  | 0 => unifyWith fun _ _ => throw .endlessChain
  | fuel + 1 => unifyWith (unifyWithin fuel)

def unify (left right : Ty) : Recording Unit := do
  unifyWithin (← getThe Store).unifyBound left right

end Watched

namespace Ty

variable {s : Store} {v : Var} {t l r : Ty}

/-! ## the steps -/

theorem watches_prune (hs : s.Sound) (t : Ty) : Watches (observe (prune t)) (prune t) s := by
  have hends := (ends_prune hs.acyclic t).and (still_prune t s)
  refine .observe hs (hends.mono (fun _ _ h => ?_) fun _ _ h => h.1)
  exact ⟨h.1.2.toKeeps, h.2.events⟩

/-- what binding a var writes, to its cell and to the account -/
theorem ends_bindVar_noted (hs : s.Sound) (ht : s.Has t) :
    Ends (bindVar v t) s
      (fun _ s' => v ∉ (s.resolve t).vars ∧ ∃ s₁, s.Quiet s₁ ∧ s₁.events = s.events ∧
        s' = { s₁.bindTo v t with events := s.events.push (.bound v t) })
      fun f s' => f = .problem (.circular (var v) t) ∧ s.Quiet s' ∧
        s'.events = s.events.push (.circular v t) := by
  have hocc := (ends_occursIn hs ht).and (still_occursIn (var v) t s)
  refine (hocc.error_mono fun _ _ h => h.1.elim).bind fun b s₁ ⟨⟨hq, hocc⟩, hstill⟩ => ?_
  cases b with
  | true =>
    have hnote := (ends_note (s := s₁) (.circular v t)).ok rfl
    exact ⟨rfl, hq.trans hnote, by rw [← hstill.events]⟩
  | false =>
    refine ⟨fun ho => ?_, s₁, hq, hstill.events, by rw [← hstill.events]; rfl⟩
    exact absurd (hocc.2 ⟨v, rfl, ho⟩) nofun

theorem watches_bindVar (hs : s.Sound) (hv : s.Made v) (hb : s.binding? v = none) (ht : s.Has t) :
    Watches (observe (bindVar v t)) (bindVar v t) s := by
  have hends := ends_bindVar_noted (v := v) hs ht
  cases hrun : bindVar v t s with
  | ok u s' =>
    obtain ⟨ho, s₁, hq, he, rfl⟩ := hends.ok hrun
    have hs₁ := hq.sound hs
    have hb₁ := (hq.bound v).2 hb
    have hv₁ := hq.made v hv
    rw [← hq.resolve_eq hs.acyclic] at ho
    have hnote : (s₁.bindTo v t).Quiet
        { s₁.bindTo v t with events := s.events.push (.bound v t) } :=
      .of_binding?_eq (Nat.le_refl _) (fun _ => Iff.rfl) fun _ => rfl
    have hsince : s.bindingsSince { s₁.bindTo v t with events := s.events.push (.bound v t) }
        = [(v, t)] := by
      refine Store.bindingsSince_eq_singleton ((Store.made_bindTo v).2 hv₁) hb ?_ fun w hw hwb => ?_
      · show (s₁.bindTo v t).binding? v = _
        rw [Store.binding?_bindTo hv₁, if_pos rfl]
      · show (s₁.bindTo v t).binding? w = _
        rw [Store.binding?_bindTo hv₁, if_neg hw, (hq.bound w).2 hwb]
    refine ⟨[(v, t)], fun before => ?_, ?_⟩
    · rw [observe, hrun]
      simp only [hsince, recorded]
    · rw [ends_of_ok hrun]
      have hbinds := Store.bindsAll_bindTo hs₁ hv₁ hb₁ (hq.has_of_has ht) ho
      have hall := ((hq.bindsAll hs).trans hbinds).trans
        (hnote.bindsAll hbinds.grows.sound)
      exact ⟨hall, by simp⟩
  | error f s' =>
    obtain ⟨rfl, hq, he⟩ := hends.error hrun
    have hk : s.Keeps (after (bindVar v t) s) := by rw [after, hrun]; exact hq.toKeeps
    refine ⟨[], fun before => by rw [observe_of_keeps hk, List.append_nil], ?_⟩
    · rw [Ends, hrun]
      exact .inr ⟨_, .circular, accounts_of_noted hs hq.toKeeps he⟩

theorem watches_clash (hs : s.Sound) (hl : s.Has l) (hr : s.Has r) (hne : l.Differ r) :
    Watches (observe (clash l r)) (clash l r) s := by
  have hnoted : Ends (clash l r) s (fun _ s' => s'.events = s.events.push (.clash l r))
      fun _ s' => s'.events = s.events.push (.clash l r) := by
    have hshow : Preserves Store.Unmoved (do
        let leftText ← render l
        let rightText ← render r
        throw (.problem (.mismatch leftText rightText)) : StoreM Unit) :=
      (unmoved_render l).bind fun _ => (unmoved_render r).bind fun _ => preserves_throw _
    exact (hshow { s with events := s.events.push (.clash l r) }).mono (fun _ _ h => h.events)
      fun _ _ h => h.events
  have hends := (ends_clash hs hl hr).and hnoted
  cases hrun : clash l r s with
  | ok u s' => exact (hends.ok hrun).1.elim
  | error f s' =>
    obtain ⟨⟨hq, hf⟩, he⟩ := hends.error hrun
    have hk : s.Keeps (after (clash l r) s) := by rw [after, hrun]; exact hq.toKeeps
    refine ⟨[], fun before => by rw [observe_of_keeps hk, List.append_nil], ?_⟩
    · rw [Ends, hrun]
      rw [← hq.resolve_eq hs.acyclic, ← hq.resolve_eq hs.acyclic] at hf
      have hacc := accounts_of_noted hs hq.toKeeps he
      rcases hf with ⟨a, b, rfl, ha, hb⟩ | ⟨rfl, hout⟩
      · exact .inr ⟨_, .mismatch hne ha hb, hacc⟩
      · exact .inr ⟨_, .namesExhausted hne hout, hacc⟩

/-! ## the text -/

/-- a watched unification of any two types of any sound store -/
def WatchesAll (w : Ty → Ty → Recording Unit) (act : Ty → Ty → StoreM Unit) : Prop :=
  ∀ (s : Store) (l r : Ty), s.Sound → s.Has l → s.Has r → Watches (w l r) (act l r) s

variable {w onward' : Ty → Ty → Recording Unit} {onward : Ty → Ty → StoreM Unit}

theorem watches_allWith {as bs : List Ty} (hlen : as.length = bs.length) (hs : s.Sound)
    (hl : ∀ a ∈ as, s.Has a) (hr : ∀ b ∈ bs, s.Has b)
    (h : ∀ a ∈ as, ∀ (s : Store) (b : Ty), s.Sound → s.Has a → s.Has b →
      Watches (Watched.unifyWith onward' a b) (unifyWith onward a b) s) :
    Watches (Watched.unifyAllWith onward' as bs) (unifyAllWith onward as bs) s := by
  induction as generalizing bs s with
  | nil =>
    cases bs with
    | nil => exact .pure hs _
    | cons b bs => cases hlen
  | cons a as ih =>
    cases bs with
    | nil => cases hlen
    | cons b bs =>
      obtain ⟨hla, hlas⟩ := List.forall_mem_cons.1 hl
      obtain ⟨hrb, hrbs⟩ := List.forall_mem_cons.1 hr
      rw [unifyAllWith, Watched.unifyAllWith]
      refine .bind (h a List.mem_cons_self s b hs hla hrb) fun _ s₁ _ hg => ?_
      exact ih (Nat.succ.inj hlen) hg.sound (fun t ht => hg.has (hlas t ht))
        (fun t ht => hg.has (hrbs t ht)) fun t ht => h t (List.mem_cons_of_mem a ht)

theorem watches_with (hon : WatchesAll onward' onward) :
    WatchesAll (Watched.unifyWith onward') (unifyWith onward) := by
  intro s l r hs hl hr
  induction l generalizing s r with
  | var v =>
    rw [unifyWith, Watched.unifyWith]
    refine .bind (watches_prune hs _) fun l' s₁ hl' hg₁ => ?_
    obtain ⟨rfl, hq₁⟩ := (ends_prune hs.acyclic _).ok hl'
    have hs₁ := hg₁.sound
    refine .bind (watches_prune hs₁ _) fun r' s₂ hr' hg₂ => ?_
    obtain ⟨rfl, hq₂⟩ := (ends_prune hs₁.acyclic _).ok hr'
    have hlast : s₂.Has (s.last (var v)) := hg₂.has (hg₁.has (hs.has_last hl))
    have hlast' : s₂.Has (s₁.last r) := hg₂.has (hs₁.has_last (hg₁.has hr))
    have hle := (hq₁.trans hq₂).ended (hs.acyclic.ended_last (var v))
    have hre := hq₂.ended (hs₁.acyclic.ended_last r)
    generalize s.last (var v) = l' at *
    generalize s₁.last r = r' at *
    cases l' with
    | var x =>
      by_cases hsame : same (var x) r'
      · simp only [hsame, if_true]
        exact .pure hg₂.sound _
      · simp only [hsame, Bool.false_eq_true, if_false]
        exact watches_bindVar hg₂.sound (Store.has_var.1 hlast) (hle x rfl) hlast'
    | op k n as =>
      cases r' with
      | var x => exact watches_bindVar hg₂.sound (Store.has_var.1 hlast') (hre x rfl) hlast
      | op j m bs => exact hon s₂ _ _ hg₂.sound hlast hlast'
      | hole => exact absurd hlast' Store.not_has_hole
    | hole => exact absurd hlast Store.not_has_hole
  | op k n as ih =>
    rw [unifyWith, Watched.unifyWith]
    refine .bind (watches_prune hs _) fun r' s₁ hr' hg => ?_
    obtain ⟨rfl, hq⟩ := (ends_prune hs.acyclic _).ok hr'
    have hl₁ := hg.has hl
    have hlast : s₁.Has (s.last r) := hg.has (hs.has_last hr)
    have hre := hq.ended (hs.acyclic.ended_last r)
    generalize s.last r = r' at *
    cases r' with
    | var x => exact watches_bindVar hg.sound (Store.has_var.1 hlast) (hre x rfl) hl₁
    | op j m bs =>
      dsimp only
      split
      · next h =>
        exact watches_allWith h.2 hg.sound (Store.has_op.1 hl₁) (Store.has_op.1 hlast)
          fun a ha s b hs hla hrb => ih a ha s b hs hla hrb
      · next h => exact watches_clash hg.sound hl₁ hlast h
    | hole => exact absurd hlast Store.not_has_hole
  | hole => exact absurd hl Store.not_has_hole

theorem watches_within (fuel : Nat) : WatchesAll (Watched.unifyWithin fuel) (unifyWithin fuel) := by
  induction fuel with
  | zero => exact watches_with fun _ _ _ _ _ _ => .outOfFuel
  | succ fuel ih => exact watches_with ih

theorem watches_unify (hs : s.Sound) (hl : s.Has l) (hr : s.Has r) :
    Watches (Watched.unify l r) (unify l r) s := by
  have hget : Watches (observe get) get s := .observe hs ⟨.refl s, rfl⟩
  refine hget.bind fun s₀ s₁ h _ => ?_
  cases h
  exact watches_within s.unifyBound s l r hs hl hr

end Ty
end LetPoly
