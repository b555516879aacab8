import LetPoly.Proofs.Json.Parser
import LetPoly.Proofs.Store.Outcome
import LetPoly.Report

/-!
# What a JSON report says

A report in JSON is one object, and a reader finds in it the fields of the failure with their values,
whatever characters those have.  Every report stays on one line, and that on an internal error is
printable ASCII.

* `Json.Written`          the characters that a text may be written with; `written_object`;
* `Failure.members`       the fields that the report on a failure has to say;
* `Failure.report_decodes`   it says them.
-/

namespace LetPoly

namespace Json

open LetPoly.Text

variable {cs : Charset} {text rest : List Char}

def isPrintable (c : Char) : Bool := 0x20 ≤ c.toNat && c.toNat ≤ 0x7e

/-- no character is a control character, and with `ascii` all are printable ASCII -/
def Written (cs : Charset) (text : List Char) : Prop :=
  ∀ c ∈ text, 0x20 ≤ c.toNat ∧ (cs = .ascii → c.toNat ≤ 0x7e)

theorem Written.of_printable (h : text.all isPrintable = true) : Written cs text := by
  intro c hc
  have hboth := List.all_eq_true.1 h c hc
  rw [isPrintable, Bool.and_eq_true, decide_eq_true_eq, decide_eq_true_eq] at hboth
  exact ⟨hboth.1, fun _ => hboth.2⟩

theorem Written.append (h : Written cs text) (hrest : Written cs rest) :
    Written cs (text ++ rest) := by
  intro c hc
  rcases List.mem_append.1 hc with hc | hc
  · exact h c hc
  · exact hrest c hc

theorem written_hex (count n : Nat) : Written cs (hex count n) := by
  have hdigit : ∀ d < 16, isPrintable (Nat.digitChar d) = true := by decide
  induction count generalizing n with
  | zero => exact .of_printable rfl
  | succ count ih =>
    refine (ih (n / 16)).append (.of_printable ?_)
    rw [List.all_cons, hdigit (n % 16) (Nat.mod_lt n (by omega))]
    rfl

theorem written_unit (n : Nat) : Written cs (unit n) := by
  show Written cs (['\\', 'u'] ++ hex 4 n)
  exact Written.append (.of_printable rfl) (written_hex 4 n)

theorem written_units (n : Nat) : Written cs (units n) := by
  unfold units
  split
  · exact written_unit n
  · exact (written_unit _).append (written_unit _)

theorem written_escapeChar (c : Char) : Written cs (escapeChar cs c) := by
  unfold escapeChar
  split
  · next h => rcases h with rfl | rfl <;> exact .of_printable rfl
  split
  · exact .of_printable rfl
  split
  · exact .of_printable rfl
  split
  · exact .of_printable rfl
  split
  · exact .of_printable rfl
  split
  · exact .of_printable rfl
  split
  · exact written_unit c.toNat
  · next hctl =>
    split
    · exact written_units c.toNat
    · next hascii =>
      intro d hd
      rw [List.mem_singleton.1 hd]
      refine ⟨by omega, fun h => ?_⟩
      rw [h] at hascii
      simpa using hascii

theorem written_escape (s : List Char) : Written cs (escape cs s) := by
  induction s with
  | nil => exact .of_printable rfl
  | cons c s ih =>
    rw [escape_cons]
    exact (written_escapeChar c).append ih

theorem written_string (s : String) : Written cs (string cs s).toList := by
  rw [toList_string]
  show Written cs (['"'] ++ (escape cs s.toList ++ ['"']))
  have hquote : Written cs ['"'] := .of_printable rfl
  exact hquote.append ((written_escape s.toList).append hquote)

theorem written_field (f : String × String) : Written cs (field cs f).toList := by
  rw [field, String.toList_append, String.toList_append]
  exact ((written_string f.1).append (.of_printable rfl)).append (written_string f.2)

theorem written_fields (fields : List (String × String)) :
    Written cs (", ".intercalate (fields.map (field cs))).toList := by
  induction fields with
  | nil => exact .of_printable rfl
  | cons f fields ih =>
    cases fields with
    | nil =>
      rw [List.map_singleton, String.intercalate_singleton]
      exact written_field f
    | cons g fields =>
      rw [List.map_cons, List.map_cons, String.intercalate_cons_cons, String.toList_append,
        String.toList_append]
      exact ((written_field f).append (.of_printable rfl)).append ih

theorem written_object (cs : Charset) (fields : List (String × String)) :
    Written cs (object cs fields).toList := by
  rw [object, String.toList_append, String.toList_append]
  exact (Written.append (.of_printable rfl) (written_fields fields)).append
    (.of_printable rfl)

end Json

open StoreM

/-! ## reports -/

namespace Failure

/-- the characters that the report on a failure may have -/
def charset : Failure → Json.Charset
  | problem _ => .full
  | _ => .ascii

/-- the fields that the report on a failure has to say: those of a problem, and for an internal error
the name it goes by -/
def members (e : Failure) (source path : String) : StoreM (List (String × String)) :=
  match e with
  | problem p => p.fields source path
  | e => do
    note (.internalError e.kind e.notes)
    return [("source_path", path), ("error_name", "internal_error"), ("actual_error", e.kind)]

end Failure

/-- only the types of a circular problem may be impossible to show -/
theorem Problem.ends_fields (p : Problem) (source path : String) (s : Store) :
    Ends (p.fields source path) s (fun fields _ => (fields.map Prod.fst).Nodup)
      fun _ _ => ∃ inner outer, p = .circular inner outer := by
  cases p with
  | circular inner outer =>
    have hrender (t : Ty) (s : Store) : Ends t.render s (fun _ _ => True)
        fun _ _ => ∃ a b, Problem.circular inner outer = .circular a b := by
      unfold Ends
      split
      · trivial
      · exact ⟨inner, outer, rfl⟩
    refine (hrender inner s).bind fun innerText s₁ _ => ?_
    refine (hrender outer s₁).bind fun outerText s₂ _ => ?_
    show List.Nodup ["error_name", "inner", "outer", "source", "source_path"]
    decide
  | mismatch leftText rightText =>
    show List.Nodup ["source_path", "error_name", "source", "actual_type", "expected_type"]
    decide
  | undefinedName x =>
    show List.Nodup ["source_path", "error_name", "source", "value"]
    decide
  | output fault =>
    show List.Nodup ["error_name", "specific_error", "source_path"]
    decide
  | general notes =>
    show List.Nodup ["source_path", "error_name"]
    decide

namespace Failure

theorem ends_members (e : Failure) (source path : String) (s : Store) :
    Ends (e.members source path) s (fun fields _ => (fields.map Prod.fst).Nodup)
      fun _ _ => ∃ inner outer, e = problem (.circular inner outer) := by
  have hinternal : List.Nodup ["source_path", "error_name", "actual_error"] := by decide
  cases e with
  | problem p =>
    refine (p.ends_fields source path s).error_mono fun _ _ h => ?_
    obtain ⟨inner, outer, rfl⟩ := h
    exact ⟨inner, outer, rfl⟩
  | namesExhausted => exact hinternal
  | notOneCharacter n => exact hinternal
  | missingType use => exact hinternal
  | endlessChain => exact hinternal
  | foreign kind notes => exact hinternal

theorem report_eq (e : Failure) (source path : String) :
    e.report .json source path = (do return Json.object e.charset (← e.members source path)) := by
  cases e <;> rfl

/-- the report on a failure is one object, in which a reader finds the fields of the failure, none of
them twice; it is on one line, and that on an internal error is printable ASCII.  There is no report
only where the types of a circular problem cannot be shown -/
theorem report_decodes (e : Failure) (source path : String) (s : Store) :
    Ends (e.report .json source path) s
      (fun text u => ∃ fields, e.members source path s = .ok fields u ∧
        Json.parse? text = some (.object (Json.members fields)) ∧ (fields.map Prod.fst).Nodup ∧
        Json.Written e.charset text.toList)
      fun f u => e.members source path s = .error f u ∧
        ∃ inner outer, e = problem (.circular inner outer) := by
  have hmembers := e.ends_members source path s
  rw [report_eq]
  unfold Ends at hmembers
  cases hrun : e.members source path s with
  | ok fields u =>
    rw [hrun] at hmembers
    rw [Ends, bind_of_ok hrun]
    exact ⟨fields, rfl, Json.parse?_object e.charset fields, hmembers,
      Json.written_object e.charset fields⟩
  | error f u =>
    rw [hrun] at hmembers
    rw [Ends, bind_of_error hrun]
    exact ⟨rfl, hmembers⟩

end Failure
end LetPoly
