import LetPoly.Proofs.Store.Growth
import LetPoly.Proofs.Store.Outcome

/-!
# The basic steps

Opening a session, making a var, building an operator, writing to the account and naming a var
touch no binding, so they keep the meaning of a store.  A new var is unbound and was not made
before.
-/

namespace LetPoly

open StoreM

namespace Store

variable {s : Store}

theorem size_modifySession (s : Store) (i : Nat) (f : Session → Session) :
    (s.modifySession i f).sessions.size = s.sessions.size := Array.size_modify

theorem binding?_of_not_made {v : Var} (h : ¬ s.Made v) : s.binding? v = none := by
  cases hb : s.binding? v with
  | none => rfl
  | some t => exact absurd (made_of_binding? hb) h

/-! ## changes of a session -/

theorem cell?_modifySession (s : Store) (i : Nat) {f : Session → Session}
    (hf : ∀ t, (f t).cells = t.cells) (v : Var) : (s.modifySession i f).cell? v = s.cell? v := by
  simp only [cell?, modifySession, Array.getElem?_modify]
  split
  · cases s.sessions[v.session]? with
    | none => rfl
    | some t => simp [hf]
  · rfl

theorem madeBy_modifySession (s : Store) (i : Nat) {f : Session → Session}
    (hf : ∀ t, (f t).cells = t.cells) (j : Nat) : (s.modifySession i f).madeBy j = s.madeBy j := by
  simp only [madeBy, modifySession, Array.getElem?_modify]
  by_cases h : i = j
  · subst h
    cases s.sessions[i]? <;> simp [hf]
  · rw [if_neg h]

theorem made_modifySession (s : Store) (i : Nat) {f : Session → Session}
    (hf : ∀ t, (f t).cells = t.cells) (v : Var) : (s.modifySession i f).Made v ↔ s.Made v := by
  rw [Made, madeBy_modifySession s i hf, Made]

theorem binding?_modifySession (s : Store) (i : Nat) {f : Session → Session}
    (hf : ∀ t, (f t).cells = t.cells) (v : Var) :
    (s.modifySession i f).binding? v = s.binding? v := by
  rw [binding?, binding?, cell?_modifySession s i hf]

theorem made_modifyCell (s : Store) (v : Var) (f : Cell → Cell) (w : Var) :
    (s.modifyCell v f).Made w ↔ s.Made w := by
  rw [Made, madeBy_modifyCell, Made]

theorem quiet_modifySession (s : Store) (i : Nat) {f : Session → Session}
    (hf : ∀ t, (f t).cells = t.cells) : s.Quiet (s.modifySession i f) :=
  .of_binding?_eq (s.size_modifySession i f).ge (s.made_modifySession i hf)
    (s.binding?_modifySession i hf)

theorem quiet_named (s : Store) (v : Var) (code : Option Nat) :
    s.Quiet (s.modifyCell v fun c => { c with label := code }) :=
  .of_binding?_eq (s.size_modifySession _ _).ge (s.made_modifyCell v _)
    fun w => s.binding?_named v w code

/-! ## new vars and new sessions -/

def pushVar (s : Store) (i : Nat) : Store :=
  s.modifySession i fun t => { t with cells := t.cells.push {} }

def nextVar (s : Store) (i : Nat) : Var := ⟨i, s.madeBy i⟩

theorem not_made_nextVar (s : Store) (i : Nat) : ¬ s.Made (s.nextVar i) := Nat.lt_irrefl _

theorem madeBy_pushVar {i : Nat} (hi : i < s.sessions.size) (j : Nat) :
    (s.pushVar i).madeBy j = if i = j then s.madeBy i + 1 else s.madeBy j := by
  simp only [madeBy, pushVar, modifySession, Array.getElem?_modify]
  by_cases h : i = j
  · subst h
    rw [if_pos rfl, if_pos rfl, Array.getElem?_eq_getElem hi]
    simp
  · rw [if_neg h, if_neg h]

theorem binding?_pushVar (s : Store) (i : Nat) (v : Var) :
    (s.pushVar i).binding? v = s.binding? v := by
  obtain ⟨j, k⟩ := v
  simp only [binding?, cell?, pushVar, modifySession, Array.getElem?_modify]
  by_cases h : i = j
  · subst h
    cases s.sessions[i]? with
    | none => simp
    | some t =>
      simp only [if_true, Option.map_some, Option.bind_some, Array.getElem?_push]
      by_cases hk : k = t.cells.size
      · subst hk
        simp
      · rw [if_neg hk]
  · rw [if_neg h]

theorem made_pushVar {i : Nat} (hi : i < s.sessions.size) (v : Var) :
    (s.pushVar i).Made v ↔ s.Made v ∨ v = s.nextVar i := by
  obtain ⟨j, k⟩ := v
  simp only [Made, madeBy_pushVar hi, nextVar, Var.mk.injEq]
  by_cases h : i = j
  · subst h
    rw [if_pos rfl]
    omega
  · rw [if_neg h]
    constructor
    · exact .inl
    · rintro (hk | ⟨hj, -⟩)
      · exact hk
      · exact absurd hj.symm h

theorem keeps_pushVar {i : Nat} (hi : i < s.sessions.size) : s.Keeps (s.pushVar i) :=
  .of_binding?_eq (s.size_modifySession _ _).ge (fun v hv => (made_pushVar hi v).2 (.inl hv))
    (s.binding?_pushVar i)

def pushSession (s : Store) (cursor : Nat) : Store :=
  { s with sessions := s.sessions.push { cursor } }

theorem cell?_pushSession (s : Store) (cursor : Nat) (v : Var) :
    (s.pushSession cursor).cell? v = s.cell? v := by
  simp only [cell?, pushSession, Array.getElem?_push]
  by_cases h : v.session = s.sessions.size
  · rw [if_pos h, h, Array.getElem?_eq_none (Nat.le_refl _)]
    simp
  · rw [if_neg h]

theorem madeBy_pushSession (s : Store) (cursor i : Nat) :
    (s.pushSession cursor).madeBy i = s.madeBy i := by
  by_cases hi : i = s.sessions.size
  · rw [madeBy, pushSession, Array.getElem?_push, if_pos hi, madeBy_of_le hi.ge]
    rfl
  · rw [madeBy, pushSession, Array.getElem?_push, if_neg hi, madeBy]

theorem size_pushSession (s : Store) (cursor : Nat) :
    (s.pushSession cursor).sessions.size = s.sessions.size + 1 := Array.size_push _

theorem lt_size_pushSession (s : Store) (cursor : Nat) :
    s.sessions.size < (s.pushSession cursor).sessions.size := by
  rw [size_pushSession]
  exact Nat.lt_succ_self _

theorem keeps_pushSession (s : Store) (cursor : Nat) : s.Keeps (s.pushSession cursor) := by
  refine .of_binding?_eq ?_ (fun v hv => ?_) fun v => ?_
  · simp [pushSession]
  · rwa [← isSome_cell?, cell?_pushSession, isSome_cell?]
  · rw [binding?, binding?, cell?_pushSession]

/-- the name supply of some session has run out -/
def Exhausted (s : Store) : Prop :=
  ∃ (i : Nat) (t : Session), s.sessions[i]? = some t ∧ labelBound ≤ t.cursor

end Store

namespace StoreM

variable {s : Store}

theorem ends_note (e : Event) : Ends (note e) s (fun _ s' => s.Quiet s') never :=
  .of_binding?_eq (Nat.le_refl _) (fun _ => Iff.rfl) fun _ => rfl

theorem ends_newOp (n : String) (as : List Ty) :
    Ends (newOp n as) s (fun t s' => t = .op s.nextMark n as ∧ s.Quiet s') never :=
  ⟨rfl, .of_binding?_eq (Nat.le_refl _) (fun _ => Iff.rfl) fun _ => rfl⟩

/-- what is known of a new var -/
structure Fresh (s s' : Store) (v : Var) : Prop where
  keeps : s.Keeps s'
  not_made : ¬ s.Made v
  made : s'.Made v
  unbound : s'.binding? v = none
  only : ∀ w, s'.Made w → s.Made w ∨ w = v

theorem ends_newVar {i : Nat} (hi : i < s.sessions.size) :
    Ends (newVar i) s (fun v s' => Fresh s s' v) never where
  keeps := Store.keeps_pushVar hi
  not_made := s.not_made_nextVar i
  made := (Store.made_pushVar hi _).2 (.inr rfl)
  unbound := by
    show (s.pushVar i).binding? _ = none
    rw [Store.binding?_pushVar]
    exact Store.binding?_of_not_made (s.not_made_nextVar i)
  only w hw := (Store.made_pushVar hi w).1 hw

theorem ends_newSession (first : String) :
    Ends (newSession first) s (fun i s' => s.Keeps s' ∧ i < s'.sessions.size)
      fun _ s' => s' = s := by
  unfold newSession
  split
  · next c _ => exact ⟨s.keeps_pushSession c.toNat, by simp⟩
  · exact rfl

/-- the failure of a run that changes no meaning and found no names left -/
def NamesOut (s : Store) (f : Failure) (s' : Store) : Prop :=
  f = .namesExhausted ∧ s.Quiet s' ∧ s'.Exhausted

end StoreM
end LetPoly
