import LetPoly.Report

/-!
# Wrapped text

Text is put on lines that are neither empty nor wider than the width, however long its words are and
wherever they are cut, and the lines together are the text with its tabs expanded.

* `Tabbed`          a text with its tabs expanded, in words of columns;
* `Fits`            a line as it may be put out;
* `place_fits`      what putting one piece on the current line leaves behind;
* `lines_fit`       so all lines fit; `wrap_of_le` says that a short text stays on one line;
* `Report.wrapText_lines`   wrapping loses nothing and keeps to the width.
-/

namespace LetPoly

namespace Text

/-! ## tabs -/

/-- the second text is the first one, which starts at a column, with every tab replaced by blanks up
to the next column that is a multiple of `size`; line feeds and carriage returns start at column
zero again, and all other characters take one column -/
inductive Tabbed (size : Nat) : Nat → List Char → List Char → Prop where
  | nil {col : Nat} : Tabbed size col [] []
  | tab {col width : Nat} {cs out : List Char} (hpos : 0 < width) (hle : width ≤ size)
      (hstop : size ∣ col + width) (hrest : Tabbed size (col + width) cs out) :
      Tabbed size col ('\t' :: cs) (List.replicate width ' ' ++ out)
  | lineBreak {col : Nat} {c : Char} {cs out : List Char} (hc : c = '\n' ∨ c = '\r')
      (hrest : Tabbed size 0 cs out) : Tabbed size col (c :: cs) (c :: out)
  | other {col : Nat} {c : Char} {cs out : List Char} (htab : c ≠ '\t')
      (hc : ¬ (c = '\n' ∨ c = '\r')) (hrest : Tabbed size (col + 1) cs out) :
      Tabbed size col (c :: cs) (c :: out)

theorem tabbed_expandTabs {size : Nat} (hsize : 0 < size) (col : Nat) (cs : List Char) :
    Tabbed size col cs (expandTabs size col cs) := by
  induction cs generalizing col with
  | nil => exact .nil
  | cons c cs ih =>
    unfold expandTabs
    by_cases htab : c = '\t'
    · rw [if_pos htab, htab]
      have hlt : col % size < size := Nat.mod_lt col hsize
      have hstop : size ∣ col + (size - col % size) := by
        refine ⟨col / size + 1, ?_⟩
        have hcol := Nat.div_add_mod col size
        rw [Nat.mul_add, Nat.mul_one]
        omega
      exact .tab (by omega) (by omega) hstop (ih _)
    · rw [if_neg htab]
      by_cases hc : c = '\n' ∨ c = '\r'
      · refine .lineBreak hc ?_
        have hcol : nextColumn col c = 0 := if_pos hc
        rw [hcol]
        exact ih 0
      · refine .other htab hc ?_
        have hcol : nextColumn col c = col + 1 := if_neg hc
        rw [hcol]
        exact ih (col + 1)

/-! ## pieces and where they are cut -/

theorem ne_nil_of_mem_piecesAfter {behind cs p : List Char} (h : p ∈ piecesAfter behind cs) :
    p ≠ [] := by
  induction cs generalizing behind p with
  | nil => cases h
  | cons c cs ih =>
    unfold piecesAfter at h
    have hrest := fun q => @ih (c :: behind) q
    generalize piecesAfter (c :: behind) cs = qs at h hrest
    cases qs with
    | nil =>
      rw [List.mem_singleton.1 h]
      simp
    | cons q qs =>
      dsimp only at h
      split at h
      · rcases List.mem_cons.1 h with rfl | h
        · simp
        · exact hrest p h
      · rcases List.mem_cons.1 h with rfl | h
        · simp
        · exact hrest p (List.mem_cons_of_mem q h)

theorem length_cut_le (room : Nat) (piece : List Char) : (cut room piece).length ≤ room := by
  have hle := (cut_prefix_take room piece).length_le
  rw [List.length_take] at hle
  omega

theorem cut_ne_nil {room : Nat} {piece : List Char} (hroom : 0 < room) (hpiece : piece ≠ []) :
    cut room piece ≠ [] := by
  unfold cut
  dsimp only
  split
  · next hany =>
    intro hnil
    rw [hnil] at hany
    cases hany
  · intro hnil
    rcases List.take_eq_nil_iff.1 hnil with h | h
    · omega
    · exact hpiece h

/-! ## lines -/

/-- a line that may be put out -/
structure Fits (width : Nat) (line : List Char) : Prop where
  ne_nil : line ≠ []
  length_le : line.length ≤ width

variable {width fuel : Nat} {line piece : List Char} {ps : List (List Char)}

/-- lines that are full, and the line that is current after them -/
structure AllFit (width : Nat) (r : List (List Char) × List Char) : Prop where
  full : ∀ l ∈ r.1, Fits width l
  last : Fits width r.2

/-- at the start of a line every cut makes the piece shorter -/
theorem placeWithin_start (hwidth : 0 < width) (hpiece : piece ≠ []) (hfuel : piece.length ≤ fuel) :
    AllFit width (placeWithin width fuel [] piece) := by
  induction fuel generalizing piece with
  | zero => exact absurd (List.length_eq_zero_iff.1 (Nat.le_zero.1 hfuel)) hpiece
  | succ fuel ih =>
    unfold placeWithin
    rw [List.length_nil, Nat.zero_add]
    by_cases hfits : piece.length ≤ width
    · rw [if_pos hfits]
      exact ⟨fun _ hl => absurd hl List.not_mem_nil, hpiece, hfits⟩
    · rw [if_neg hfits, if_neg hfits]
      have hhead : cut (width - 0) piece ≠ [] := cut_ne_nil hwidth hpiece
      have hlength := length_cut_le (width - 0) piece
      generalize cut (width - 0) piece = head at hhead hlength
      have hpos : 0 < head.length := List.length_pos_iff.2 hhead
      have hrest : piece.drop head.length ≠ [] := by
        rw [Ne, List.drop_eq_nil_iff]
        omega
      have htail := ih hrest (by rw [List.length_drop]; omega)
      refine ⟨fun l hl => ?_, htail.last⟩
      rcases List.mem_cons.1 hl with rfl | hl
      · exact ⟨hhead, by omega⟩
      · exact htail.full l hl

/-- a piece goes on the current line, on the next one, or begins on the current one; if there is no
room left there, nothing of it does -/
theorem place_fits (hwidth : 0 < width) (hline : line.length ≤ width) (hpiece : piece ≠ []) :
    AllFit width (place width line piece) := by
  unfold place
  by_cases hnil : line = []
  · rw [hnil]
    exact placeWithin_start hwidth hpiece (Nat.le_succ _)
  · unfold placeWithin
    by_cases hfits : line.length + piece.length ≤ width
    · rw [if_pos hfits]
      refine ⟨fun _ hl => absurd hl List.not_mem_nil,
        fun h => hnil (List.append_eq_nil_iff.1 h).1, ?_⟩
      rw [List.length_append]
      exact hfits
    · rw [if_neg hfits]
      by_cases hnext : piece.length ≤ width
      · rw [if_pos hnext]
        refine ⟨fun l hl => ?_, hpiece, hnext⟩
        rw [List.mem_singleton.1 hl]
        exact ⟨hnil, hline⟩
      · rw [if_neg hnext]
        have hlength := length_cut_le (width - line.length) piece
        generalize cut (width - line.length) piece = head at hlength
        have hrest : piece.drop head.length ≠ [] := by
          rw [Ne, List.drop_eq_nil_iff]
          omega
        have htail : AllFit width (placeWithin width piece.length [] (piece.drop head.length)) :=
          placeWithin_start hwidth hrest (by rw [List.length_drop]; omega)
        refine ⟨fun l hl => ?_, htail.last⟩
        rcases List.mem_cons.1 hl with rfl | hl
        · refine ⟨fun h => hnil (List.append_eq_nil_iff.1 h).1, ?_⟩
          rw [List.length_append]
          omega
        · exact htail.full l hl

theorem fill_fits (hwidth : 0 < width) (hline : line.length ≤ width) (hps : ∀ p ∈ ps, p ≠ []) :
    ∀ l ∈ fill width line ps, Fits width l := by
  induction ps generalizing line with
  | nil =>
    intro l hl
    unfold fill at hl
    split at hl
    · cases hl
    · next hempty =>
      rw [List.mem_singleton.1 hl]
      exact ⟨by simpa using hempty, hline⟩
  | cons p ps ih =>
    intro l hl
    have hplace := place_fits hwidth hline (hps p List.mem_cons_self)
    rcases List.mem_append.1 hl with hl | hl
    · exact hplace.full l hl
    · exact ih hplace.last.length_le (fun q hq => hps q (List.mem_cons_of_mem p hq)) l hl

theorem fill_of_le (h : (line ++ ps.flatten).length ≤ width) :
    fill width line ps = if (line ++ ps.flatten).isEmpty then [] else [line ++ ps.flatten] := by
  induction ps generalizing line with
  | nil => rw [List.flatten_nil, List.append_nil]; rfl
  | cons p ps ih =>
    rw [List.flatten_cons, ← List.append_assoc] at h ⊢
    have hfits : line.length + p.length ≤ width := by
      rw [List.length_append, List.length_append] at h
      omega
    have hplace : place width line p = ([], line ++ p) := by
      unfold place placeWithin
      exact if_pos hfits
    unfold fill
    rw [hplace]
    exact ih h

def expanded (s : String) : String := String.ofList (expandTabs tabSize 0 s.toList)

theorem join_map_ofList (ls : List (List Char)) :
    String.join (ls.map String.ofList) = String.ofList ls.flatten := by
  induction ls with
  | nil => rfl
  | cons l ls ih =>
    rw [List.map_cons, String.join_cons, ih, List.flatten_cons, String.ofList_append]

theorem join_lines (width : Nat) (s : String) : String.join (lines width s) = expanded s := by
  unfold lines
  rw [join_map_ofList, flatten_fill, List.nil_append, flatten_pieces, expanded]

theorem lines_fit (hwidth : 0 < width) (s : String) :
    ∀ l ∈ lines width s, l ≠ "" ∧ l.length ≤ width := by
  intro l hl
  obtain ⟨cs, hcs, rfl⟩ := List.mem_map.1 hl
  have hpieces : ∀ p ∈ pieces (expandTabs tabSize 0 s.toList), p ≠ [] :=
    fun p => ne_nil_of_mem_piecesAfter
  have hfits := fill_fits hwidth (Nat.zero_le _) hpieces cs hcs
  refine ⟨fun h => hfits.ne_nil ?_, ?_⟩
  · simpa using h
  · rw [String.length_ofList]
    exact hfits.length_le

theorem wrap_of_le {s : String} (h : (expanded s).length ≤ width) : wrap width s = expanded s := by
  rw [expanded, String.length_ofList] at h
  have hline : fill width [] (pieces (expandTabs tabSize 0 s.toList)) =
      if (expandTabs tabSize 0 s.toList).isEmpty then []
      else [expandTabs tabSize 0 s.toList] := by
    rw [fill_of_le (by rwa [List.nil_append, flatten_pieces]), List.nil_append, flatten_pieces]
  unfold wrap lines expanded
  rw [hline]
  split
  · next hempty =>
    rw [List.isEmpty_iff.1 hempty]
    rfl
  · exact String.intercalate_singleton

end Text

namespace Report

open Text

/-- wrapped text is its lines, with a line feed between two of them; together they are the text with
its tabs expanded, none is empty or wider than 87 characters, and nothing is added to a text that is
no wider than that itself -/
theorem wrapText_lines (s : String) :
    wrapText s = "\n".intercalate (lines 87 s) ∧
      String.join (lines 87 s) = expanded s ∧
      Tabbed 4 0 s.toList (expanded s).toList ∧
      (∀ l ∈ lines 87 s, l ≠ "" ∧ l.length ≤ 87) ∧
      ((expanded s).length ≤ 87 → wrapText s = expanded s) := by
  refine ⟨rfl, join_lines 87 s, ?_, lines_fit (by omega) s, wrap_of_le⟩
  rw [expanded, String.toList_ofList]
  exact tabbed_expandTabs (by decide) 0 s.toList

end Report
end LetPoly
