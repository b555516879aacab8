import LetPoly.Proofs.Term.Print
import LetPoly.Proofs.Text.Brackets
import LetPoly.Store.Basic
import Mathlib.Data.Set.Function

/-!
# Reading a printed term back

What is printed of a term is a text in brackets: an operator with two arguments is a group of three
items with its name in the middle, and all else is an atom.  An atom of one character from `α` on is
a var, so a term can be read back if its operators are legible (`Term.parse?_codes`).

Vars are named by code points, and some code points are no characters.  So the text is taken as a
list of code points here, of which `Term.print` is the text as far as there is one.

* `Term.Legible`      operators with no or two arguments, and with names of their own;
* `Term.codes`        the code points of a printed term, `print_eq` says that they are its text;
* `Term.parse?`       the term over display names that code points are the text of;
* `Term.codes_inj`, `Term.print_inj`   terms with the same text are the same.
-/

namespace LetPoly

open StoreM Text

/-! ## texts as code points -/

/-- the text that shows these code points -/
def textOf (codes : List Nat) : String := String.ofList (codes.map nameChar)

theorem textOf_append (a b : List Nat) : textOf (a ++ b) = textOf a ++ textOf b := by
  rw [textOf, List.map_append, String.ofList_append]
  rfl

theorem textOf_cons (c : Nat) (codes : List Nat) :
    textOf (c :: codes) = labelText c ++ textOf codes := by
  rw [← List.singleton_append, textOf_append]
  rfl

theorem textOf_codePoints (text : String) : textOf (codePoints text) = text := by
  have hback : nameChar ∘ Char.toNat = id := by
    funext c
    exact nameChar_toNat c
  rw [textOf, codePoints, List.map_map, hback, List.map_id, String.ofList_toList]

/-- code points that are characters are given by their text -/
theorem codePoints_textOf {codes : List Nat} (h : ∀ c ∈ codes, c.isValidChar) :
    codePoints (textOf codes) = codes := by
  have hback : ∀ c ∈ codes, (Char.toNat ∘ nameChar) c = id c := by
    intro c hc
    show (nameChar c).toNat = c
    rw [nameChar_of_valid (h c hc), Char.ofNat, dif_pos (h c hc)]
    rfl
  rw [codePoints, textOf, String.toList_ofList, List.map_map, List.map_congr_left hback,
    List.map_id]

namespace Term

variable {α β : Type} {t u : Term α} {label : α → Nat}

/-! ## what is printed -/

def codesOp (n : List Nat) : List (List Nat) → List Nat
  | [] => n
  | [a, b] => '('.toNat :: (a ++ ' '.toNat :: (n ++ ' '.toNat :: (b ++ [')'.toNat])))
  | args => n ++ args.flatMap (' '.toNat :: ·)

mutual
/-- the code points of a term whose vars are named by code points -/
def codes (label : α → Nat) : Term α → List Nat
  | var a => [label a]
  | op n as => codesOp (codePoints n) (codesAll label as)

def codesAll (label : α → Nat) : List (Term α) → List (List Nat)
  | [] => []
  | a :: as => codes label a :: codesAll label as
end

theorem codesAll_eq_map (label : α → Nat) (as : List (Term α)) :
    codesAll label as = as.map (codes label) := by
  induction as with
  | nil => rfl
  | cons a as ih => rw [codesAll, ih, List.map_cons]

@[simp] theorem codes_var (label : α → Nat) (a : α) : (var a).codes label = [label a] := rfl

@[simp] theorem codes_op (label : α → Nat) (n : String) (as : List (Term α)) :
    (op n as).codes label = codesOp (codePoints n) (as.map (codes label)) := by
  rw [codes, codesAll_eq_map]

theorem textOf_flatMap_blank (args : List (List Nat)) :
    textOf (args.flatMap (' '.toNat :: ·)) = String.join ((args.map textOf).map (" " ++ ·)) := by
  induction args with
  | nil => rfl
  | cons a args ih =>
    rw [List.flatMap_cons, textOf_append, ih, List.map_cons, List.map_cons, String.join_cons,
      textOf_cons]
    rfl

theorem textOf_codesOp (n : String) (args : List (List Nat)) :
    textOf (codesOp (codePoints n) args) = printOp n (args.map textOf) := by
  have hprefix (args : List (List Nat)) : textOf (codePoints n ++ args.flatMap (' '.toNat :: ·)) =
      n ++ String.join ((args.map textOf).map (" " ++ ·)) := by
    rw [textOf_append, textOf_codePoints, textOf_flatMap_blank]
  rcases args with - | ⟨a, - | ⟨b, - | ⟨c, args⟩⟩⟩
  · exact textOf_codePoints n
  · exact hprefix [a]
  · show textOf
        ('('.toNat :: (a ++ ' '.toNat :: (codePoints n ++ ' '.toNat :: (b ++ [')'.toNat])))) =
      "(" ++ textOf a ++ " " ++ n ++ " " ++ textOf b ++ ")"
    have hopening : labelText '('.toNat = "(" := by decide
    have hblank : labelText ' '.toNat = " " := by decide
    have hclosing : textOf [')'.toNat] = ")" := by decide
    simp only [textOf_cons, textOf_append, textOf_codePoints, hopening, hblank, hclosing,
      String.append_assoc]
  · exact hprefix (a :: b :: c :: args)

theorem print_eq (label : α → Nat) (t : Term α) :
    t.print (fun a => labelText (label a)) = textOf (t.codes label) := by
  induction t with
  | var a => rfl
  | op n as ih =>
    rw [print_op, codes_op, textOf_codesOp, List.map_map]
    congr 1
    exact List.map_congr_left ih

/-! ## reading it back -/

theorem toNat_injective : Function.Injective Char.toNat :=
  Function.LeftInverse.injective Char.ofNat_toNat

def codeMarks : Marks Nat := roundBrackets.map toNat_injective

/-- display names are code points from this one on, which is `firstName` -/
def firstCode : Nat := 'α'.toNat

/-- all operators have no or two arguments and names without spaces and round brackets; without
arguments they do not go by a name that a var may have -/
inductive Legible : Term α → Prop where
  | var {a : α} : Legible (var a)
  | nullary {n : String} (hfree : roundBrackets.Free n.toList)
      (hname : ∀ c, n.toList = [c] → c.toNat < firstCode) : Legible (op n [])
  | binary {n : String} {a b : Term α} (hfree : roundBrackets.Free n.toList) (ha : Legible a)
      (hb : Legible b) : Legible (op n [a, b])

def bracketed (label : α → Nat) : Term α → Bracketed Nat
  | var a => .atom [label a]
  | op n [a, b] => .group [bracketed label a, .atom (codePoints n)] (bracketed label b)
  | op n _ => .atom (codePoints n)

/-- a var if it is a display name -/
def ofAtom : List Nat → Term Nat
  | [c] => if firstCode ≤ c then var c else op (textOf [c]) []
  | cs => op (textOf cs) []

def ofBracketed? : Bracketed Nat → Option (Term Nat)
  | .atom cs => some (ofAtom cs)
  | .group [a, .atom n] b => do return op (textOf n) [← ofBracketed? a, ← ofBracketed? b]
  | _ => none

/-- the term over display names that is printed so -/
def parse? (codes : List Nat) : Option (Term Nat) :=
  (Bracketed.read? codeMarks codes).bind ofBracketed?

theorem chars_bracketed (label : α → Nat) (h : t.Legible) :
    (t.bracketed label).chars codeMarks = t.codes label := by
  induction h with
  | var => simp [bracketed, Bracketed.chars]
  | nullary hfree hname => simp [bracketed, Bracketed.chars, codesOp]
  | binary hfree ha hb iha ihb =>
    simp [bracketed, Bracketed.chars, Bracketed.charsAll, codesOp, iha, ihb]
    exact ⟨rfl, rfl, rfl⟩

theorem forall_mem_vars_binary {P : α → Prop} {n : String} :
    (∀ a ∈ (op n [t, u]).vars, P a) ↔ (∀ a ∈ t.vars, P a) ∧ ∀ a ∈ u.vars, P a := by
  simp [or_imp, forall_and]

theorem plain_bracketed (h : t.Legible) (hlabel : ∀ a ∈ t.vars, firstCode ≤ label a) :
    (t.bracketed label).Plain codeMarks := by
  induction h with
  | @var a =>
    refine .atom fun c hc => ?_
    have hle : firstCode ≤ c := by
      rw [List.mem_singleton.1 hc]
      exact hlabel a (List.mem_singleton_self a)
    have hmarks : codeMarks.blank < firstCode ∧ codeMarks.opening < firstCode ∧
        codeMarks.closing < firstCode := by decide
    omega
  | nullary hfree hname => exact .atom (hfree.map toNat_injective)
  | binary hfree ha hb iha ihb =>
    obtain ⟨hla, hlb⟩ := forall_mem_vars_binary.1 hlabel
    refine .group (fun u hu => ?_) (ihb hlb)
    rw [List.mem_cons, List.mem_singleton] at hu
    rcases hu with rfl | rfl
    · exact iha hla
    · exact .atom (hfree.map toNat_injective)

theorem ofAtom_codesOf {n : String} (hname : ∀ c, n.toList = [c] → c.toNat < firstCode) :
    ofAtom (codePoints n) = op n [] := by
  unfold ofAtom
  split
  · next c hc =>
    have hlt : c < firstCode := by
      obtain ⟨d, hd, rfl⟩ := List.map_eq_singleton_iff.1 hc
      exact hname d hd
    rw [if_neg (Nat.not_le.2 hlt), ← hc, textOf_codePoints]
  · rw [textOf_codePoints]

theorem ofBracketed?_bracketed (h : t.Legible) (hlabel : ∀ a ∈ t.vars, firstCode ≤ label a) :
    ofBracketed? (t.bracketed label) = some (t.rename label) := by
  induction h with
  | @var a =>
    have hle : firstCode ≤ label a := hlabel a (List.mem_singleton_self a)
    rw [bracketed, ofBracketed?, ofAtom, if_pos hle, rename_var]
  | nullary hfree hname => simp [bracketed, ofBracketed?, ofAtom_codesOf hname]
  | binary hfree ha hb iha ihb =>
    obtain ⟨hla, hlb⟩ := forall_mem_vars_binary.1 hlabel
    simp [bracketed, ofBracketed?, iha hla, ihb hlb, textOf_codePoints]

/-- a printed term is read back as the term over the display names -/
theorem parse?_codes (h : t.Legible) (hlabel : ∀ a ∈ t.vars, firstCode ≤ label a) :
    parse? (t.codes label) = some (t.rename label) := by
  rw [parse?, ← chars_bracketed label h, Bracketed.read?_chars (plain_bracketed h hlabel),
    Option.bind_some, ofBracketed?_bracketed h hlabel]

/-! ## what the text determines -/

theorem rename_inj [Nonempty α] {ρ : α → β} (hinj : Set.InjOn ρ {a | a ∈ t.vars ∨ a ∈ u.vars})
    (h : t.rename ρ = u.rename ρ) : t = u := by
  have hback {w : Term α} (hw : ∀ a ∈ w.vars, a ∈ t.vars ∨ a ∈ u.vars) :
      (w.rename ρ).rename (Function.invFunOn ρ {a | a ∈ t.vars ∨ a ∈ u.vars}) = w := by
    unfold rename
    rw [subst_subst]
    exact subst_eq_self fun a ha => congrArg var (hinj.leftInvOn_invFunOn (hw a ha))
  rw [← hback fun a ha => .inl ha, h, hback fun a ha => .inr ha]

theorem codes_inj [Nonempty α] (ht : t.Legible) (hu : u.Legible)
    (hlabel : ∀ a, a ∈ t.vars ∨ a ∈ u.vars → firstCode ≤ label a)
    (hinj : Set.InjOn label {a | a ∈ t.vars ∨ a ∈ u.vars}) :
    t.codes label = u.codes label ↔ t = u := by
  refine ⟨fun h => rename_inj hinj ?_, fun h => h ▸ rfl⟩
  have hparse := parse?_codes ht fun a ha => hlabel a (.inl ha)
  rw [h, parse?_codes hu fun a ha => hlabel a (.inr ha)] at hparse
  exact (Option.some.inj hparse).symm

theorem valid_codePoints (n : String) : ∀ c ∈ codePoints n, c.isValidChar := by
  intro c hc
  obtain ⟨d, -, rfl⟩ := List.mem_map.1 hc
  exact d.valid

/-- if all names are characters, so are the code points of the text -/
theorem valid_codes (h : t.Legible) (hlabel : ∀ a ∈ t.vars, (label a).isValidChar) :
    ∀ c ∈ t.codes label, c.isValidChar := by
  induction h with
  | @var a =>
    intro c hc
    rw [codes_var, List.mem_singleton] at hc
    rw [hc]
    exact hlabel a (List.mem_singleton_self a)
  | @nullary n hfree hname => exact valid_codePoints n
  | @binary n a b hfree ha hb iha ihb =>
    obtain ⟨hla, hlb⟩ := forall_mem_vars_binary.1 hlabel
    intro c hc
    simp only [codes_op, List.map_cons, List.map_nil, codesOp, List.mem_cons, List.mem_append,
      List.not_mem_nil, or_false] at hc
    rcases hc with rfl | hc | rfl | hc | rfl | hc | rfl
    · decide
    · exact iha hla c hc
    · decide
    · exact valid_codePoints n c hc
    · decide
    · exact ihb hlb c hc
    · decide

/-- then the text itself tells the terms apart -/
theorem print_inj [Nonempty α] (ht : t.Legible) (hu : u.Legible)
    (hlabel : ∀ a, a ∈ t.vars ∨ a ∈ u.vars → firstCode ≤ label a)
    (hvalid : ∀ a, a ∈ t.vars ∨ a ∈ u.vars → (label a).isValidChar)
    (hinj : Set.InjOn label {a | a ∈ t.vars ∨ a ∈ u.vars}) :
    textOf (t.codes label) = textOf (u.codes label) ↔ t = u := by
  refine ⟨fun h => (codes_inj ht hu hlabel hinj).1 ?_, fun h => h ▸ rfl⟩
  rw [← codePoints_textOf (valid_codes ht fun a ha => hvalid a (.inl ha)), h,
    codePoints_textOf (valid_codes hu fun a ha => hvalid a (.inr ha))]

end Term
end LetPoly
