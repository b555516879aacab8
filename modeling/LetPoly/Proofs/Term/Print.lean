import LetPoly.Proofs.Term.Basic
import LetPoly.Store.LookUp

/-!
# How a term is printed

`Term.print` is the reference for everything that is shown to the user: a nullary operator bare, a
binary one infix in brackets, any other before its arguments, and every var by its name.

* `Term.print_congr`    only the names of the vars that occur matter;
* `Term.print_rename`   renaming the vars is naming them differently;
* `operatorText_eq`     the texts of operators keep to the reference.
-/

namespace LetPoly

namespace Term

variable {α β : Type}

def rename (ρ : α → β) (t : Term α) : Term β := t.subst fun a => var (ρ a)

@[simp] theorem rename_var (ρ : α → β) (a : α) : (var a).rename ρ = var (ρ a) := rfl

@[simp] theorem rename_op (ρ : α → β) (n : String) (as : List (Term α)) :
    (op n as).rename ρ = op n (as.map (rename ρ)) := subst_op _ n as

theorem rename_eq_self {ρ : α → α} {t : Term α} (h : ∀ a ∈ t.vars, ρ a = a) : t.rename ρ = t :=
  subst_eq_self fun a ha => congrArg var (h a ha)

theorem vars_op (n : String) (as : List (Term α)) : (op n as).vars = as.flatMap vars :=
  varsAll_eq_flatMap as

theorem vars_rename (ρ : α → β) (t : Term α) : (t.rename ρ).vars = t.vars.map ρ := by
  induction t with
  | var a => rfl
  | op n as ih =>
    rw [rename_op, vars_op, vars_op, List.map_flatMap, List.flatMap_map]
    exact List.flatMap_congr ih

def printOp (n : String) : List String → String
  | [] => n
  | [a, b] => "(" ++ a ++ " " ++ n ++ " " ++ b ++ ")"
  | args => n ++ String.join (args.map (" " ++ ·))

mutual
def print (name : α → String) : Term α → String
  | var a => name a
  | op n as => printOp n (printAll name as)

def printAll (name : α → String) : List (Term α) → List String
  | [] => []
  | a :: as => print name a :: printAll name as
end

theorem printAll_eq_map (name : α → String) (as : List (Term α)) :
    printAll name as = as.map (print name) := by
  induction as with
  | nil => rfl
  | cons a as ih => rw [printAll, ih, List.map_cons]

@[simp] theorem print_var (name : α → String) (a : α) : (var a).print name = name a := rfl

@[simp] theorem print_op (name : α → String) (n : String) (as : List (Term α)) :
    (op n as).print name = printOp n (as.map (print name)) := by
  rw [print, printAll_eq_map]

theorem print_congr {name name' : α → String} {t : Term α} (h : ∀ a ∈ t.vars, name a = name' a) :
    t.print name = t.print name' := by
  induction t with
  | var a => exact h a (List.mem_singleton_self a)
  | op n as ih =>
    rw [print_op, print_op]
    congr 1
    exact List.map_congr_left fun t ht => ih t ht fun a ha => h a (mem_vars_op.2 ⟨t, ht, ha⟩)

theorem print_rename (name : β → String) (ρ : α → β) (t : Term α) :
    (t.rename ρ).print name = t.print fun a => name (ρ a) := by
  induction t with
  | var a => rfl
  | op n as ih =>
    rw [rename_op, print_op, print_op, List.map_map]
    congr 1
    exact List.map_congr_left ih

end Term

theorem intercalate_cons (n : String) (args : List String) :
    " ".intercalate (n :: args) = n ++ String.join (args.map (" " ++ ·)) := by
  induction args generalizing n with
  | nil => rw [String.intercalate_singleton, List.map_nil, String.join_nil, String.append_empty]
  | cons a args ih =>
    rw [String.intercalate_cons_cons, ih, List.map_cons, String.join_cons]
    simp only [String.append_assoc]

theorem operatorText_eq (n : String) (args : List String) :
    Ty.operatorText n args = Term.printOp n args := by
  rcases args with - | ⟨a, - | ⟨b, - | ⟨c, args⟩⟩⟩
  · show " ".intercalate [n] = n
    exact String.intercalate_singleton
  · exact intercalate_cons n [a]
  · rfl
  · exact intercalate_cons n (a :: b :: c :: args)

end LetPoly
