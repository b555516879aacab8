import LetPoly.Proofs.Json.Decoding
import LetPoly.Proofs.Text.Wrap

/-!
# Texts on one line

* `OneLine`           a text without a line feed;
* `oneLine_wrap`      a wrapped text is on one line exactly if it was and is not too wide;
* `oneLine_quoted`    a quoted text is on one line, since a line feed is written as an escape.
-/

namespace LetPoly.Text

def OneLine (s : String) : Prop := '\n' ∉ s.toList

instance (s : String) : Decidable (OneLine s) :=
  inferInstanceAs (Decidable ('\n' ∉ s.toList))

variable {s t sep : String} {ss : List String}

theorem oneLine_append : OneLine (s ++ t) ↔ OneLine s ∧ OneLine t := by
  rw [OneLine, String.toList_append, List.mem_append, not_or]
  rfl

theorem oneLine_join : OneLine (String.join ss) ↔ ∀ s ∈ ss, OneLine s := by
  induction ss with
  | nil => simp [OneLine]
  | cons s ss ih => rw [String.join_cons, oneLine_append, ih, List.forall_mem_cons]

theorem oneLine_intercalate (hsep : OneLine sep) :
    OneLine (sep.intercalate ss) ↔ ∀ s ∈ ss, OneLine s := by
  induction ss with
  | nil => simp [OneLine]
  | cons s ss ih =>
    cases ss with
    | nil => rw [String.intercalate_singleton, List.forall_mem_singleton]
    | cons t ss =>
      rw [String.intercalate_cons_cons, oneLine_append, oneLine_append, ih, and_iff_left hsep,
        ← List.forall_mem_cons]

/-! ## wrapping -/

theorem lineFeed_mem_expandTabs (size col : Nat) (cs : List Char) :
    '\n' ∈ expandTabs size col cs ↔ '\n' ∈ cs := by
  induction cs generalizing col with
  | nil => exact Iff.rfl
  | cons c cs ih =>
    unfold expandTabs
    split
    · next hc =>
      have hblank : '\n' ≠ ' ' := by decide
      have htab : '\n' ≠ '\t' := by decide
      rw [hc, List.mem_append, ih, List.mem_cons, List.mem_replicate]
      simp only [hblank, htab, and_false, false_or]
    · rw [List.mem_cons, List.mem_cons, ih]

theorem oneLine_expanded : OneLine (expanded s) ↔ OneLine s := by
  rw [OneLine, expanded, String.toList_ofList, lineFeed_mem_expandTabs, OneLine]

/-- a line feed stands between two lines -/
theorem length_le_one_of_oneLine (h : OneLine ("\n".intercalate ss)) : ss.length ≤ 1 := by
  match ss with
  | [] => exact Nat.zero_le 1
  | [_] => exact Nat.le_refl 1
  | s :: t :: ss =>
    rw [String.intercalate_cons_cons, oneLine_append, oneLine_append] at h
    exact absurd h.1.2 (by decide)

theorem oneLine_wrap {width : Nat} (hwidth : 0 < width) :
    OneLine (wrap width s) ↔ OneLine s ∧ (expanded s).length ≤ width := by
  constructor
  · intro h
    have hle : (lines width s).length ≤ 1 := length_le_one_of_oneLine h
    have hjoin := join_lines width s
    have hfit := lines_fit hwidth s
    have hwrap : wrap width s = "\n".intercalate (lines width s) := rfl
    rw [hwrap] at h
    rw [← oneLine_expanded, ← hjoin]
    generalize lines width s = ls at h hle hfit
    match ls with
    | [] => exact ⟨by decide, Nat.zero_le width⟩
    | [l] =>
      rw [String.intercalate_singleton] at h
      rw [String.join_cons, String.join_nil, String.append_empty]
      exact ⟨h, (hfit l List.mem_cons_self).2⟩
    | l :: m :: ls =>
      rw [List.length_cons, List.length_cons] at hle
      omega
  · rintro ⟨h, hle⟩
    rw [wrap_of_le hle]
    exact oneLine_expanded.2 h

/-! ## quoting -/

theorem lineFeed_notMem_hex (count n : Nat) : '\n' ∉ hex count n := by
  intro h
  have hwritten : Json.Written .full (hex count n) := Json.written_hex count n
  exact absurd (hwritten '\n' h).1 (by decide)

theorem lineFeed_notMem_escape (letter : Char) (count n : Nat) (h : letter ≠ '\n') :
    '\n' ∉ '\\' :: letter :: hex count n := by
  rw [List.mem_cons, List.mem_cons, not_or, not_or]
  exact ⟨by decide, h.symm, lineFeed_notMem_hex count n⟩

theorem lineFeed_notMem_escapeQuoted {quote : Char} (hquote : quote ≠ '\n') (c : Char) :
    '\n' ∉ escapeQuoted quote c := by
  unfold escapeQuoted
  split
  · next h =>
    have hc : c ≠ '\n' := by
      rintro rfl
      exact h.elim hquote.symm (by decide)
    rw [List.mem_cons, List.mem_singleton, not_or]
    exact ⟨by decide, hc.symm⟩
  split
  · decide
  split
  · decide
  · next hc =>
    split
    · decide
    split
    · rwa [List.mem_singleton, eq_comm]
    split
    · exact lineFeed_notMem_escape 'x' 2 _ (by decide)
    split
    · exact lineFeed_notMem_escape 'u' 4 _ (by decide)
    · exact lineFeed_notMem_escape 'U' 8 _ (by decide)

theorem oneLine_quoted (s : String) : OneLine (quoted s) := by
  have hquote : quoteFor s ≠ '\n' := by
    unfold quoteFor
    split <;> decide
  have hchars : '\n' ∉ s.toList.flatMap (escapeQuoted (quoteFor s)) := by
    rw [List.mem_flatMap]
    rintro ⟨c, -, hc⟩
    exact lineFeed_notMem_escapeQuoted hquote c hc
  simp [OneLine, quoted, hchars, Ne.symm hquote]

theorem oneLine_quotedTuple (ss : List String) : OneLine (quotedTuple ss) := by
  unfold quotedTuple
  split
  · next s =>
    exact oneLine_append.2 ⟨oneLine_append.2 ⟨by decide, oneLine_quoted s⟩, by decide⟩
  · have hall : ∀ s ∈ ss.map quoted, OneLine s := by
      intro s hs
      obtain ⟨t, -, rfl⟩ := List.mem_map.1 hs
      exact oneLine_quoted t
    have hsep : OneLine ", " := by decide
    have hjoined := (oneLine_intercalate hsep).2 hall
    exact oneLine_append.2 ⟨oneLine_append.2 ⟨by decide, hjoined⟩, by decide⟩

end LetPoly.Text
