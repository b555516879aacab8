import LetPoly.Proofs.Json.Decoding
import LetPoly.Proofs.Term.Print
import LetPoly.Proofs.Text.Wrap

/-!
# Texts with stand-ins

A display name that is a surrogate is written as a stand-in, and then the code points of the text are
no Unicode text.  A stand-in that gets into a text stays there, whatever is made of the text.

* `HasStandIn`              a text with a stand-in;
* `hasStandIn_labelText`    a display name, which needs a stand-in or not;
* `hasStandIn_wrap`, `hasStandIn_object`, `Term.hasStandIn_print`   one `iff` for each writer;
* `encodeFault?_shownCodes`   the code points of a text have a surrogate exactly if it has a stand-in.
-/

namespace LetPoly

namespace Text

def HasStandIn (s : String) : Prop := ∃ c ∈ s.toList, standInStart ≤ c.toNat

instance (s : String) : Decidable (HasStandIn s) :=
  List.decidableBEx (fun c : Char => standInStart ≤ c.toNat) s.toList

variable {s t sep : String} {ss : List String} {cs : List Char} {n k : Nat}

theorem hasStandIn_ofList :
    HasStandIn (String.ofList cs) ↔ ∃ c ∈ cs, standInStart ≤ c.toNat := by
  rw [HasStandIn, String.toList_ofList]

theorem hasStandIn_append : HasStandIn (s ++ t) ↔ HasStandIn s ∨ HasStandIn t := by
  simp only [HasStandIn, String.toList_append, List.mem_append, or_and_right, exists_or]

theorem hasStandIn_join : HasStandIn (String.join ss) ↔ ∃ s ∈ ss, HasStandIn s := by
  induction ss with
  | nil => simp [HasStandIn]
  | cons s ss ih => rw [String.join_cons, hasStandIn_append, ih, List.exists_mem_cons_iff]

theorem hasStandIn_intercalate (hsep : ¬ HasStandIn sep) :
    HasStandIn (sep.intercalate ss) ↔ ∃ s ∈ ss, HasStandIn s := by
  induction ss with
  | nil => simp [HasStandIn]
  | cons s ss ih =>
    cases ss with
    | nil => simp
    | cons t ss =>
      rw [String.intercalate_cons_cons, hasStandIn_append, hasStandIn_append, ih,
        or_iff_left hsep, List.exists_mem_cons_iff (p := HasStandIn) (a := s)]

/-! ## display names -/

/-- a name that is written as a stand-in -/
def NeedsStandIn (n : Nat) : Prop := standInStart ≤ (nameChar n).toNat

theorem hasStandIn_labelText (n : Nat) : HasStandIn (StoreM.labelText n) ↔ NeedsStandIn n := by
  simp [HasStandIn, StoreM.labelText, NeedsStandIn]

theorem needsStandIn_surrogate : NeedsStandIn 0xd800 := by
  rw [NeedsStandIn]
  decide

theorem not_needsStandIn_of_lt (h : n < 0xd800) : ¬ NeedsStandIn n := by
  rw [NeedsStandIn, nameChar_of_valid (.inl h), Char.ofNat, dif_pos (.inl h), Nat.not_le]
  exact Nat.lt_trans h (by decide)

/-- one of the names from `first` on needs a stand-in, and comes before `next` -/
def NeedStandIns (first next : Nat) : Prop := ∃ n, first ≤ n ∧ n < next ∧ NeedsStandIn n

theorem not_needStandIns_self (first : Nat) : ¬ NeedStandIns first first :=
  fun ⟨_, hle, hlt, _⟩ => absurd hlt (Nat.not_lt.2 hle)

theorem needStandIns_trans {first next last : Nat} (h : first ≤ next) (h' : next ≤ last) :
    NeedStandIns first next ∨ NeedStandIns next last ↔ NeedStandIns first last := by
  constructor
  · rintro (⟨n, hle, hlt, hn⟩ | ⟨n, hle, hlt, hn⟩)
    · exact ⟨n, hle, Nat.lt_of_lt_of_le hlt h', hn⟩
    · exact ⟨n, Nat.le_trans h hle, hlt, hn⟩
  · rintro ⟨n, hle, hlt, hn⟩
    rcases Nat.lt_or_ge n next with hnext | hnext
    · exact .inl ⟨n, hle, hnext, hn⟩
    · exact .inr ⟨n, hnext, hlt, hn⟩

theorem needStandIns_iff {first next : Nat} (h : first ≤ 0xd800) :
    NeedStandIns first next ↔ 0xd800 < next := by
  constructor
  · rintro ⟨n, -, hlt, hn⟩
    by_contra hle
    exact not_needsStandIn_of_lt (Nat.lt_of_lt_of_le hlt (Nat.le_of_not_lt hle)) hn
  · exact fun hlt => ⟨0xd800, h, hlt, needsStandIn_surrogate⟩

/-! ## wrapping -/

theorem standIn_mem_expandTabs (size col : Nat) (cs : List Char) :
    (∃ c ∈ expandTabs size col cs, standInStart ≤ c.toNat) ↔
      ∃ c ∈ cs, standInStart ≤ c.toNat := by
  induction cs generalizing col with
  | nil => exact Iff.rfl
  | cons c cs ih =>
    unfold expandTabs
    split
    · next hc =>
      have hblank : ¬ standInStart ≤ ' '.toNat := by decide
      have htab : ¬ standInStart ≤ '\t'.toNat := by decide
      simp only [hc, List.mem_append, List.mem_replicate, or_and_right, exists_or, ih,
        List.exists_mem_cons_iff, htab, false_or, or_iff_right_iff_imp]
      rintro ⟨d, ⟨-, rfl⟩, hd⟩
      exact absurd hd hblank
    · rw [List.exists_mem_cons_iff, List.exists_mem_cons_iff, ih]

theorem hasStandIn_wrap (width : Nat) (s : String) : HasStandIn (wrap width s) ↔ HasStandIn s := by
  have hbreak : ¬ HasStandIn "\n" := by decide
  rw [wrap, hasStandIn_intercalate hbreak, ← hasStandIn_join, join_lines, expanded,
    hasStandIn_ofList, standIn_mem_expandTabs, HasStandIn]

/-! ## JSON -/

/-- a character of JSON stands for itself, unless it is in ASCII and so is its escape -/
theorem escapeChar_full (c : Char) : Json.escapeChar .full c = [c] ∨
    c.toNat < standInStart ∧ Json.Written .ascii (Json.escapeChar .full c) := by
  unfold Json.escapeChar
  split
  · next h => rcases h with rfl | rfl <;> exact .inr ⟨by decide, .of_printable rfl⟩
  split
  · next h => exact .inr ⟨by rw [h]; decide, .of_printable rfl⟩
  split
  · next h => exact .inr ⟨by rw [h]; decide, .of_printable rfl⟩
  split
  · next h => exact .inr ⟨by rw [h]; decide, .of_printable rfl⟩
  split
  · next h => exact .inr ⟨by rw [h]; decide, .of_printable rfl⟩
  split
  · next h => exact .inr ⟨by rw [h]; decide, .of_printable rfl⟩
  split
  · next h => exact .inr ⟨Nat.lt_trans h (by decide), Json.written_unit c.toNat⟩
  · exact .inl (if_neg fun h => nomatch h.1)

theorem standIn_mem_escapeChar (c : Char) :
    (∃ d ∈ Json.escapeChar .full c, standInStart ≤ d.toNat) ↔ standInStart ≤ c.toNat := by
  rcases escapeChar_full c with h | ⟨hc, hwritten⟩
  · simp [h]
  · refine iff_of_false ?_ (Nat.not_le.2 hc)
    rintro ⟨d, hd, hle⟩
    have hsmall : d.toNat ≤ 0x7e := (hwritten d hd).2 rfl
    rw [standInStart] at hle
    omega

theorem hasStandIn_string (s : String) : HasStandIn (Json.string .full s) ↔ HasStandIn s := by
  have hquote : ¬ HasStandIn "\"" := by decide
  have hescape : HasStandIn (String.ofList (Json.escape .full s.toList)) ↔ HasStandIn s := by
    simp only [hasStandIn_ofList, Json.escape, List.mem_flatMap]
    constructor
    · rintro ⟨d, ⟨c, hc, hd⟩, hle⟩
      exact ⟨c, hc, (standIn_mem_escapeChar c).1 ⟨d, hd, hle⟩⟩
    · rintro ⟨c, hc, hle⟩
      obtain ⟨d, hd, hle⟩ := (standIn_mem_escapeChar c).2 hle
      exact ⟨d, ⟨c, hc, hd⟩, hle⟩
  have hstring : Json.string .full s =
      "\"" ++ String.ofList (Json.escape .full s.toList) ++ "\"" := by
    rw [← String.toList_inj, Json.toList_string]
    simp
  rw [hstring, hasStandIn_append, hasStandIn_append, hescape, or_iff_right hquote,
    or_iff_left hquote]

theorem hasStandIn_object (fields : List (String × String)) :
    HasStandIn (Json.object .full fields) ↔ ∃ f ∈ fields, HasStandIn f.1 ∨ HasStandIn f.2 := by
  have hopening : ¬ HasStandIn "\x7b" := by decide
  have hclosing : ¬ HasStandIn "\x7d" := by decide
  have hcolon : ¬ HasStandIn ": " := by decide
  have hcomma : ¬ HasStandIn ", " := by decide
  have hfield (f : String × String) :
      HasStandIn (Json.field .full f) ↔ HasStandIn f.1 ∨ HasStandIn f.2 := by
    rw [Json.field, hasStandIn_append, hasStandIn_append, hasStandIn_string, hasStandIn_string,
      or_iff_left hcolon]
  rw [Json.object, hasStandIn_append, hasStandIn_append, or_iff_left hclosing,
    or_iff_right hopening, hasStandIn_intercalate hcomma]
  simp only [List.mem_map, exists_exists_and_eq_and, hfield]

/-! ## code points -/

theorem isSurrogate_shownCode (c : Char) : isSurrogate (shownCode c) ↔ standInStart ≤ c.toNat := by
  have hvalid : c.toNat.isValidChar := c.valid
  rw [shownCode]
  split
  · next h =>
    refine iff_of_true ?_ h
    rw [Nat.isValidChar] at hvalid
    rw [isSurrogate, Bool.and_eq_true, decide_eq_true_eq, decide_eq_true_eq]
    rw [standInStart] at h ⊢
    omega
  · next h =>
    rw [isSurrogate_of_valid hvalid]
    exact iff_of_false Bool.false_ne_true h

theorem encodeFault?_eq_none_iff {ns : List Nat} :
    encodeFault? k ns = none ↔ ∀ n ∈ ns, isSurrogate n = false := by
  induction ns generalizing k with
  | nil => simp [encodeFault?]
  | cons n ns ih =>
    rw [encodeFault?, List.forall_mem_cons]
    cases h : isSurrogate n with
    | true => simp
    | false => simp [ih]

theorem encodeFault?_codePoints (s : String) : encodeFault? k (codePoints s) = none := by
  rw [encodeFault?_eq_none_iff]
  intro n hn
  obtain ⟨c, -, rfl⟩ := List.mem_map.1 hn
  exact isSurrogate_of_valid c.valid

/-- a text with a stand-in has no bytes -/
theorem encodeFault?_shownCodes : encodeFault? k (shownCodes s) = none ↔ ¬ HasStandIn s := by
  rw [encodeFault?_eq_none_iff, shownCodes, List.forall_mem_map, HasStandIn]
  simp only [← isSurrogate_shownCode, Bool.not_eq_true, not_exists, not_and]

theorem escaped_of_noFault {ns : List Nat} (h : encodeFault? k ns = none) :
    escaped ns = ofCodePoints ns := by
  rw [encodeFault?_eq_none_iff] at h
  have hchars : ns.flatMap escapeSurrogate = ns.flatMap fun n => [Char.ofNat n] :=
    List.flatMap_congr fun n hn => by
      rw [escapeSurrogate, h n hn]
      rfl
  rw [escaped, hchars, ofCodePoints, List.map_eq_flatMap]

theorem ofCodePoints_codePoints (s : String) : ofCodePoints (codePoints s) = s := by
  have hback : Char.ofNat ∘ Char.toNat = id := by
    funext c
    exact Char.ofNat_toNat c
  rw [ofCodePoints, codePoints, List.map_map, hback, List.map_id, String.ofList_toList]

/-- any other text is written as it is -/
theorem ofCodePoints_shownCodes (h : ¬ HasStandIn s) : ofCodePoints (shownCodes s) = s := by
  have hshown : shownCodes s = codePoints s := by
    refine List.map_congr_left fun c hc => if_neg fun hle => h ⟨c, hc, hle⟩
  rw [hshown, ofCodePoints_codePoints]

end Text

namespace Term

open Text

variable {α : Type}

mutual
def operators : Term α → List String
  | var _ => []
  | op n as => n :: operatorsAll as

def operatorsAll : List (Term α) → List String
  | [] => []
  | a :: as => operators a ++ operatorsAll as
end

theorem operatorsAll_eq_flatMap (as : List (Term α)) : operatorsAll as = as.flatMap operators := by
  induction as with
  | nil => rfl
  | cons a as ih => rw [operatorsAll, ih, List.flatMap_cons]

theorem operators_op (n : String) (as : List (Term α)) :
    (op n as).operators = n :: as.flatMap operators := by
  rw [operators, operatorsAll_eq_flatMap]

theorem hasStandIn_printOp (n : String) (args : List String) :
    HasStandIn (printOp n args) ↔ HasStandIn n ∨ ∃ a ∈ args, HasStandIn a := by
  have hblank : ¬ HasStandIn " " := by decide
  have hopening : ¬ HasStandIn "(" := by decide
  have hclosing : ¬ HasStandIn ")" := by decide
  have hprefix (args : List String) : HasStandIn (n ++ String.join (args.map (" " ++ ·))) ↔
      HasStandIn n ∨ ∃ a ∈ args, HasStandIn a := by
    simp only [hasStandIn_append, hasStandIn_join, List.mem_map, exists_exists_and_eq_and, hblank,
      false_or]
  rcases args with - | ⟨a, - | ⟨b, - | ⟨c, args⟩⟩⟩
  · simp [printOp]
  · exact hprefix [a]
  · simp only [printOp, hasStandIn_append, hblank, hopening, hclosing, or_false, false_or]
    simp [or_assoc, or_left_comm]
  · exact hprefix (a :: b :: c :: args)

/-- a printed term has the stand-ins of its operators and of the names of its vars -/
theorem hasStandIn_print (name : α → String) (t : Term α) : HasStandIn (t.print name) ↔
    (∃ n ∈ t.operators, HasStandIn n) ∨ ∃ a ∈ t.vars, HasStandIn (name a) := by
  induction t with
  | var a => simp [operators]
  | op n as ih =>
    rw [print_op, hasStandIn_printOp, operators_op, vars_op, List.exists_mem_cons_iff]
    simp only [List.mem_map, exists_exists_and_eq_and, List.mem_flatMap]
    constructor
    · rintro (h | ⟨a, ha, h⟩)
      · exact .inl (.inl h)
      · rcases (ih a ha).1 h with ⟨m, hm, h⟩ | ⟨v, hv, h⟩
        · exact .inl (.inr ⟨m, ⟨a, ha, hm⟩, h⟩)
        · exact .inr ⟨v, ⟨a, ha, hv⟩, h⟩
    · rintro ((h | ⟨m, ⟨a, ha, hm⟩, h⟩) | ⟨v, ⟨a, ha, hv⟩, h⟩)
      · exact .inl h
      · exact .inr ⟨a, ha, (ih a ha).2 (.inl ⟨m, hm, h⟩)⟩
      · exact .inr ⟨a, ha, (ih a ha).2 (.inr ⟨v, hv, h⟩)⟩

theorem operators_rename {β : Type} (ρ : α → β) (t : Term α) :
    (t.rename ρ).operators = t.operators := by
  induction t with
  | var a => rfl
  | op n as ih =>
    rw [rename_op, operators_op, operators_op, List.flatMap_map]
    exact congrArg (n :: ·) (List.flatMap_congr ih)

end Term
end LetPoly
