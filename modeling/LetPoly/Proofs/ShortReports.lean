import LetPoly.Proofs.ShownTypes
import LetPoly.Proofs.Text.OneLine

/-!
# When a short report is one line

A short report stands beside the expression, so it should be one line.  A problem's is, as long as
the texts that it shows are.  The report on an internal error is wrapped like a long one: it is on
one line only if its text is not wider than a line, that is, if the name that the error goes by has
at most 31 characters (`fitsShort_foreign`).

* `Failure.shortTexts`   the texts that the short report shows;
* `Term.NamesOneLine`    no operator or var of a term has a name with a line feed;
* `short_report_oneLine_iff`   the law for all failures, where the texts of a clash are traced to its
  types.
-/

namespace LetPoly

open StoreM Text

/-! ## printed terms -/

namespace Term

variable {α : Type} {name : α → String} {n : String} {as : List (Term α)}

inductive NamesOneLine (name : α → String) : Term α → Prop where
  | var {a : α} (h : OneLine (name a)) : NamesOneLine name (var a)
  | op {n : String} {as : List (Term α)} (hn : OneLine n) (has : ∀ a ∈ as, NamesOneLine name a) :
    NamesOneLine name (op n as)

theorem oneLine_printOp {texts : List String} (hn : OneLine n) (h : ∀ text ∈ texts, OneLine text) :
    OneLine (printOp n texts) := by
  have hblank : OneLine " " := by decide
  have hbefore : OneLine (n ++ String.join (texts.map (" " ++ ·))) := by
    refine oneLine_append.2 ⟨hn, oneLine_join.2 fun x hx => ?_⟩
    obtain ⟨text, htext, rfl⟩ := List.mem_map.1 hx
    exact oneLine_append.2 ⟨hblank, h text htext⟩
  unfold printOp
  split
  · exact hn
  · next a b =>
    have ha := h a List.mem_cons_self
    have hb := h b (List.mem_cons_of_mem a List.mem_cons_self)
    have hopen : OneLine "(" := by decide
    have hclose : OneLine ")" := by decide
    simp only [oneLine_append, hopen, hclose, hblank, hn, ha, hb, and_self]
  · exact hbefore

theorem NamesOneLine.print {t : Term α} (h : t.NamesOneLine name) : OneLine (t.print name) := by
  induction h with
  | var h => exact h
  | op hn _ ih =>
    rw [print_op]
    refine oneLine_printOp hn fun text htext => ?_
    obtain ⟨a, ha, rfl⟩ := List.mem_map.1 htext
    exact ih a ha

end Term

/-! ## failures -/

namespace Failure

/-- the texts that the short report on a failure shows; a circular problem shows none of its types,
and several notes are quoted -/
def shortTexts (path : String) : Failure → List String
  | problem (.circular ..) => []
  | problem (.mismatch leftText rightText) => [leftText, rightText]
  | problem (.undefinedName x) => [x]
  | problem (.output _) => [path]
  | problem (.general [note]) => [note]
  | problem (.general _) => []
  | e => [e.kind]

/-- only the report on an internal error has to fit on a line -/
def FitsShort : Failure → Prop
  | problem _ => True
  | e => (expanded (Report.internalText e.kind)).length ≤ 87

variable {kind path : String}

theorem oneLine_internalText : OneLine (Report.internalText kind) ↔ OneLine kind := by
  have hbefore : OneLine "Internal Error: Encountered unknown error condition: \"" := by
    decide +kernel
  have hafter : OneLine "\"." := by decide
  unfold Report.internalText
  rw [oneLine_append, oneLine_append, and_iff_right hbefore, and_iff_left hafter]

theorem oneLine_internal :
    OneLine (Report.internal kind .short path) ↔
      (∀ text ∈ [kind], OneLine text) ∧ (expanded (Report.internalText kind)).length ≤ 87 := by
  have hwrap : Report.internal kind .short path = wrap 87 (Report.internalText kind) := rfl
  rw [hwrap, oneLine_wrap (by decide), oneLine_internalText, List.forall_mem_singleton]

theorem fitsShort_foreign {notes : List String} (htab : '\t' ∉ kind.toList) :
    (foreign kind notes).FitsShort ↔ kind.length ≤ 31 := by
  have hbefore : '\t' ∉ ("Internal Error: Encountered unknown error condition: \"").toList := by
    decide +kernel
  have hafter : '\t' ∉ ("\".").toList := by decide
  have hlength : (expanded (Report.internalText kind)).length = 54 + kind.length + 2 := by
    unfold Report.internalText expanded
    rw [expandTabs_of_notMem, String.ofList_toList, String.length_append, String.length_append]
    · rfl
    · simp only [String.toList_append, List.mem_append, hbefore, htab, hafter, or_self,
        not_false_eq_true]
  show (expanded (Report.internalText kind)).length ≤ 87 ↔ kind.length ≤ 31
  rw [hlength]
  omega

theorem oneLine_faultAlert (fault : OutputFault) :
    OneLine (fault.alert path) ↔ OneLine path := by
  have h (before after : String) (hbefore : OneLine before) (hafter : OneLine after) :
      OneLine (before ++ path ++ after) ↔ OneLine path := by
    rw [oneLine_append, oneLine_append, and_iff_right hbefore, and_iff_left hafter]
  cases fault with
  | fileNotFound => exact h _ _ (by decide) (by decide)
  | noPermission => exact h _ _ (by decide) (by decide +kernel)
  | pathIsFolder => exact h _ _ (by decide) (by decide +kernel)

theorem oneLine_alert (p : Problem) :
    OneLine (p.alert path) ↔ ∀ text ∈ (problem p).shortTexts path, OneLine text := by
  cases p with
  | circular inner outer =>
    have hfixed : OneLine "recursive unification" := by decide
    exact iff_of_true hfixed fun _ h => absurd h List.not_mem_nil
  | mismatch leftText rightText =>
    have hbefore : OneLine "Type mismatch: " := by decide
    have hbetween : OneLine " != " := by decide
    show OneLine ("Type mismatch: " ++ leftText ++ " != " ++ rightText) ↔
      ∀ text ∈ [leftText, rightText], OneLine text
    rw [List.forall_mem_cons, List.forall_mem_singleton, oneLine_append, oneLine_append,
      oneLine_append, and_iff_right hbefore, and_iff_left hbetween]
  | undefinedName x =>
    have hbefore : OneLine "Undefined symbol " := by decide
    show OneLine ("Undefined symbol " ++ x) ↔ ∀ text ∈ [x], OneLine text
    rw [oneLine_append, and_iff_right hbefore, List.forall_mem_singleton]
  | output fault =>
    show OneLine (fault.alert path) ↔ ∀ text ∈ [path], OneLine text
    rw [oneLine_faultAlert, List.forall_mem_singleton]
  | general notes =>
    match notes with
    | [] => exact iff_of_true (by decide : OneLine "") fun _ h => absurd h List.not_mem_nil
    | [note] => exact List.forall_mem_singleton.symm
    | a :: b :: notes =>
      exact iff_of_true (oneLine_quotedTuple _) fun _ h => absurd h List.not_mem_nil

theorem ends_short (e : Failure) (source path : String) (s : Store) :
    Ends (e.report .short source path) s
      (fun text _ => OneLine text ↔ (∀ part ∈ e.shortTexts path, OneLine part) ∧ e.FitsShort)
      never := by
  cases e with
  | problem p => exact (oneLine_alert p).trans (and_iff_left trivial).symm
  | namesExhausted => exact oneLine_internal
  | notOneCharacter length => exact oneLine_internal
  | missingType use => exact oneLine_internal
  | endlessChain => exact oneLine_internal
  | foreign kind notes => exact oneLine_internal

end Failure

/-- a clash of types without line feeds in the names of their operators and vars -/
theorem ends_clash_oneLine {s : Store} {l r : Ty} (hs : s.Sound) (hl : s.Has l) (hr : s.Has r)
    (path : String) :
    Ends (Ty.clash l r) s (fun _ _ => False) fun f u =>
      (s.resolve l).NamesOneLine u.nameText → (s.resolve r).NamesOneLine u.nameText →
        (∀ part ∈ f.shortTexts path, OneLine part) ∧ f.FitsShort := by
  refine (Ty.ends_clash hs hl hr).error_mono fun f u h hnl hnr => ?_
  rcases h.2 with ⟨a, b, rfl, ha, hb⟩ | ⟨rfl, -⟩
  · refine ⟨?_, trivial⟩
    have hleft : OneLine a := ha.text_eq ▸ hnl.print
    have hright : OneLine b := hb.text_eq ▸ hnr.print
    exact List.forall_mem_cons.2 ⟨hleft, List.forall_mem_singleton.2 hright⟩
  · have hkind : OneLine "ValueError" := by decide
    have hfits : (Failure.foreign "ValueError" []).FitsShort :=
      (Failure.fitsShort_foreign (by decide)).2 (by decide)
    exact ⟨List.forall_mem_singleton.2 hkind, hfits⟩

/-- a short report is always made, and it is one line exactly if the texts that it shows are and if
that on an internal error fits on a line.  Two types that clash are shown on one line if the names
of their operators and vars are -/
theorem short_report_oneLine_iff (source path : String) :
    (∀ (e : Failure) (s : Store), Ends (e.report .short source path) s
      (fun text _ => OneLine text ↔ (∀ part ∈ e.shortTexts path, OneLine part) ∧ e.FitsShort)
      never) ∧
    ∀ (s : Store) (l r : Ty), s.Sound → s.Has l → s.Has r →
      Ends (Ty.clash l r) s (fun _ _ => False) fun f u =>
        (s.resolve l).NamesOneLine u.nameText → (s.resolve r).NamesOneLine u.nameText →
          (∀ part ∈ f.shortTexts path, OneLine part) ∧ f.FitsShort :=
  ⟨fun e s => e.ends_short source path s, fun _ _ _ hs hl hr => ends_clash_oneLine hs hl hr path⟩

/-- "int" clashes with "bool", and the report on that is one line -/
theorem short_report_oneLine_of_constants :
    ∃ f u text w, Ty.clash .int .bool (startAt 945) = .error f u ∧
      f.report .short "x" "constants" u = .ok text w ∧ OneLine text := by
  have hhas (k : Nat) (n : String) : (startAt 945).Has (.op k n []) :=
    Store.has_op.2 fun _ h => absurd h List.not_mem_nil
  obtain ⟨hreport, hall⟩ := short_report_oneLine_iff "x" "constants"
  have hclash := hall (startAt 945) .int .bool (sound_startAt 945) (hhas 0 "int") (hhas 1 "bool")
  have hnames (u : Store) {n : String} (hn : OneLine n) :
      (Term.op n []).NamesOneLine u.nameText :=
    .op hn fun _ h => absurd h List.not_mem_nil
  cases hrun : Ty.clash .int .bool (startAt 945) with
  | ok x u => exact (hclash.ok hrun).elim
  | error f u =>
    have hparts := hclash.error hrun (hnames u (by decide)) (hnames u (by decide))
    obtain ⟨text, w, htext, hline⟩ := (hreport f u).exists_ok
    exact ⟨f, u, text, w, rfl, htext, hline.2 hparts⟩

/-- a name of 33 characters -/
theorem short_report_of_wideName :
    OneLine "MultipartInvariantViolationDefect" ∧ OneLine "mail" ∧
      Ends ((Failure.foreign "MultipartInvariantViolationDefect" []).report .short "x" "mail")
        (startAt 945) (fun text _ => ¬ OneLine text) never := by
  refine ⟨by decide +kernel, by decide, ?_⟩
  have hshort := Failure.ends_short (.foreign "MultipartInvariantViolationDefect" []) "x" "mail"
    (startAt 945)
  refine hshort.ok_mono fun text _ h hline => ?_
  have hle := (Failure.fitsShort_foreign (by decide +kernel)).1 (h.1 hline).2
  exact absurd hle (by decide +kernel)

end LetPoly
