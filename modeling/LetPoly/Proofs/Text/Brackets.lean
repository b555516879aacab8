import Mathlib.Data.List.Basic

/-!
# Texts in brackets

A text in brackets is an atom, or a group of such texts in which a blank follows each but the last.
Atoms stand without quotes, they may be empty, and no word is reserved.  All that tells an atom from
what stands around it is that it has no blank and no bracket inside.

* `Bracketed.chars`     the text written out;
* `Reading.step`        what one character does to a text that has been read so far;
* `Bracketed.read?`     the text that was written, read from the left with a stack of open groups;
* `read?_chars`, `chars_inj`   what is written out can be read again, so it is written in one way.
-/

namespace LetPoly

variable {α : Type}

/-- the characters that atoms are free of -/
structure Marks (α : Type) where
  blank : α
  opening : α
  closing : α
  blank_ne_opening : blank ≠ opening
  closing_ne_opening : closing ≠ opening
  closing_ne_blank : closing ≠ blank

def Marks.Free (m : Marks α) (cs : List α) : Prop :=
  ∀ c ∈ cs, c ≠ m.blank ∧ c ≠ m.opening ∧ c ≠ m.closing

instance [DecidableEq α] (m : Marks α) (cs : List α) : Decidable (m.Free cs) :=
  inferInstanceAs (Decidable (∀ c ∈ cs, c ≠ m.blank ∧ c ≠ m.opening ∧ c ≠ m.closing))

/-- the marks and the characters written in another way -/
def Marks.map {β : Type} (m : Marks α) {f : α → β} (hf : Function.Injective f) : Marks β where
  blank := f m.blank
  opening := f m.opening
  closing := f m.closing
  blank_ne_opening := fun h => m.blank_ne_opening (hf h)
  closing_ne_opening := fun h => m.closing_ne_opening (hf h)
  closing_ne_blank := fun h => m.closing_ne_blank (hf h)

theorem Marks.Free.map {β : Type} {m : Marks α} {cs : List α} (h : m.Free cs) {f : α → β}
    (hf : Function.Injective f) : (m.map hf).Free (cs.map f) := by
  intro c hc
  obtain ⟨a, ha, rfl⟩ := List.mem_map.1 hc
  obtain ⟨hblank, hopening, hclosing⟩ := h a ha
  exact ⟨hf.ne hblank, hf.ne hopening, hf.ne hclosing⟩

/-- atoms have no space and no round bracket inside -/
def roundBrackets : Marks Char where
  blank := ' '
  opening := '('
  closing := ')'
  blank_ne_opening := by decide
  closing_ne_opening := by decide
  closing_ne_blank := by decide

inductive Bracketed (α : Type) where
  | atom (cs : List α)
  | group (init : List (Bracketed α)) (last : Bracketed α)

namespace Bracketed

mutual
def chars (m : Marks α) : Bracketed α → List α
  | atom cs => cs
  | group init last => m.opening :: (charsAll m init ++ (last.chars m ++ [m.closing]))

/-- the items of a group before its last one -/
def charsAll (m : Marks α) : List (Bracketed α) → List α
  | [] => []
  | t :: ts => t.chars m ++ m.blank :: charsAll m ts
end

inductive Plain (m : Marks α) : Bracketed α → Prop where
  | atom {cs : List α} (h : m.Free cs) : Plain m (atom cs)
  | group {init : List (Bracketed α)} {last : Bracketed α} (hinit : ∀ t ∈ init, Plain m t)
      (hlast : Plain m last) : Plain m (group init last)

end Bracketed

/-! ## reading -/

/-- a text that has been read up to some place: the open groups, the innermost first and each with
its finished items, the last first; and the item that is being read -/
structure Reading (α : Type) where
  outer : List (List (Bracketed α))
  current : Bracketed α

namespace Reading

variable [DecidableEq α]

def step (m : Marks α) (r : Reading α) (c : α) : Option (Reading α) :=
  if c = m.opening then
    match r.current with
    | .atom [] => some ⟨[] :: r.outer, .atom []⟩
    | _ => none
  else if c = m.blank then
    match r.outer with
    | [] => none
    | items :: outer => some ⟨(r.current :: items) :: outer, .atom []⟩
  else if c = m.closing then
    match r.outer with
    | [] => none
    | items :: outer => some ⟨outer, .group items.reverse r.current⟩
  else
    match r.current with
    | .atom cs => some ⟨r.outer, .atom (cs ++ [c])⟩
    | .group _ _ => none

variable {m : Marks α} {outer : List (List (Bracketed α))} {items : List (Bracketed α)}
  {t : Bracketed α} {cs : List α}

theorem step_opening : step m ⟨outer, .atom []⟩ m.opening = some ⟨[] :: outer, .atom []⟩ := by
  unfold step
  rw [if_pos rfl]

theorem step_blank :
    step m ⟨items :: outer, t⟩ m.blank = some ⟨(t :: items) :: outer, .atom []⟩ := by
  unfold step
  rw [if_neg m.blank_ne_opening, if_pos rfl]

theorem step_closing :
    step m ⟨items :: outer, t⟩ m.closing = some ⟨outer, .group items.reverse t⟩ := by
  unfold step
  rw [if_neg m.closing_ne_opening, if_neg m.closing_ne_blank, if_pos rfl]

theorem step_free {c : α} (hc : c ≠ m.blank ∧ c ≠ m.opening ∧ c ≠ m.closing) :
    step m ⟨outer, .atom cs⟩ c = some ⟨outer, .atom (cs ++ [c])⟩ := by
  unfold step
  rw [if_neg hc.2.1, if_neg hc.1, if_neg hc.2.2]

theorem run_atom {ds : List α} (h : m.Free ds) :
    ds.foldlM (step m) ⟨outer, .atom cs⟩ = some ⟨outer, .atom (cs ++ ds)⟩ := by
  induction ds generalizing cs with
  | nil => rw [List.append_nil]; rfl
  | cons d ds ih =>
    have hds : m.Free ds := fun c hc => h c (List.mem_cons_of_mem d hc)
    rw [List.foldlM_cons, step_free (h d List.mem_cons_self)]
    show ds.foldlM (step m) ⟨outer, .atom (cs ++ [d])⟩ = _
    rw [ih hds, List.append_assoc]
    rfl

/-- items that are read one by one are put on the innermost open group -/
theorem run_charsAll {ts : List (Bracketed α)}
    (h : ∀ t ∈ ts, ∀ outer, (t.chars m).foldlM (step m) ⟨outer, .atom []⟩ = some ⟨outer, t⟩) :
    (Bracketed.charsAll m ts).foldlM (step m) ⟨items :: outer, .atom []⟩ =
      some ⟨(ts.reverse ++ items) :: outer, .atom []⟩ := by
  induction ts generalizing items with
  | nil => rfl
  | cons t ts ih =>
    rw [Bracketed.charsAll, List.foldlM_append, h t List.mem_cons_self]
    show (step m ⟨items :: outer, t⟩ m.blank >>= (Bracketed.charsAll m ts).foldlM (step m)) = _
    rw [step_blank]
    show (Bracketed.charsAll m ts).foldlM (step m) ⟨(t :: items) :: outer, .atom []⟩ = _
    rw [ih fun u hu => h u (List.mem_cons_of_mem t hu), List.reverse_cons, List.append_assoc]
    rfl

/-- a text is read as one item, whatever groups are open around it -/
theorem run_chars (h : t.Plain m) (outer : List (List (Bracketed α))) :
    (t.chars m).foldlM (step m) ⟨outer, .atom []⟩ = some ⟨outer, t⟩ := by
  induction h generalizing outer with
  | atom hfree => exact run_atom hfree
  | @group init last _ _ ihinit ihlast =>
    rw [Bracketed.chars, List.foldlM_cons, step_opening]
    show (Bracketed.charsAll m init ++ (last.chars m ++ [m.closing])).foldlM (step m)
      ⟨[] :: outer, .atom []⟩ = _
    rw [List.foldlM_append, run_charsAll ihinit]
    show (last.chars m ++ [m.closing]).foldlM (step m) ⟨(init.reverse ++ []) :: outer, .atom []⟩ = _
    rw [List.foldlM_append, ihlast]
    show (step m ⟨(init.reverse ++ []) :: outer, last⟩ m.closing >>= pure) = _
    rw [step_closing, List.append_nil, List.reverse_reverse]
    rfl

end Reading

namespace Bracketed

variable [DecidableEq α] {m : Marks α} {t u : Bracketed α}

/-- the text that is written so, if there is one -/
def read? (m : Marks α) (cs : List α) : Option (Bracketed α) :=
  match cs.foldlM (Reading.step m) ⟨[], .atom []⟩ with
  | some ⟨[], t⟩ => some t
  | _ => none

theorem read?_chars (h : t.Plain m) : read? m (t.chars m) = some t := by
  unfold read?
  rw [Reading.run_chars h]

theorem chars_inj (ht : t.Plain m) (hu : u.Plain m) (h : t.chars m = u.chars m) : t = u := by
  have hread := read?_chars ht
  rw [h, read?_chars hu] at hread
  exact (Option.some.inj hread).symm

end Bracketed
end LetPoly
