import LetPoly.Proofs.Independence
import LetPoly.Proofs.Letters
import LetPoly.Proofs.Scope.Listing

/-!
# A selection, outcome by outcome

The checks of a selection share a session and a scope.  All that a check inherits from those before
it is the place where the names go on (`Between`): its outcome is that of its example by itself, in
a session whose names start there.  As each outcome takes a fixed number of names, that place is
known in advance, and so is whether there are names for all of them
(`Options.checkExamples_outcomes`).

* `checkAlone`           an example by itself, in a new session;
* `Examples.startOf`     where the names of an outcome start;
* `Outcomes`             one outcome for each name, each as by itself;
* `Options.environment`  the lines that are shown first.
-/

namespace LetPoly

open StoreM Store

variable {t u : Store} {c : Nat} {format : Format} {p : String × Expr}

/-- the first code point that is no character -/
def surrogates : Nat := 0xD800

/-- the outcome of one example in a new session, whose names start at `first` -/
def checkAlone (format : Format) (first : Nat) (x : String) (e : Expr) : StoreM String := do
  let session ← newSession (labelText first)
  let scope ← standardScope session
  e.check x scope format (some session)

namespace Examples

/-- how many names the outcomes of some examples use up together -/
def lettersOf (format : Format) : List String → Nat
  | [] => 0
  | x :: xs => letters format x + lettersOf format xs

/-- where the names of the `k`-th outcome start, if those of the first one start at `c` -/
def startOf (format : Format) (c : Nat) (names : List String) (k : Nat) : Nat :=
  c + lettersOf format (names.take k)

theorem startOf_cons (format : Format) (c : Nat) (x : String) (xs : List String) (k : Nat) :
    startOf format c (x :: xs) (k + 1) = startOf format (c + letters format x) xs k := by
  rw [startOf, startOf, List.take_succ_cons, lettersOf, Nat.add_assoc]

/-- the names of the last outcome start shortly before all letters are used up -/
theorem exists_startOf_le (format : Format) (c : Nat) {names : List String} (h : names ≠ []) :
    ∃ k < names.length, c + lettersOf format names ≤ startOf format c names k + 3 := by
  induction names generalizing c with
  | nil => exact absurd rfl h
  | cons x xs ih =>
    rw [lettersOf, ← Nat.add_assoc]
    by_cases hxs : xs = []
    · subst hxs
      exact ⟨0, Nat.one_pos, Nat.add_le_add_left (letters_le format x) c⟩
    · obtain ⟨k, hk, hle⟩ := ih (c + letters format x) hxs
      exact ⟨k + 1, Nat.succ_lt_succ hk, by rwa [startOf_cons]⟩

theorem get?_eq_some_iff {x : String} {e : Expr} : get? x = some e ↔ (x, e) ∈ all := by
  constructor
  · intro h
    obtain ⟨pre, post, heq, -⟩ := List.lookup_eq_some_iff.1 h
    rw [heq]
    simp
  · intro h
    simp only [all, List.mem_cons, List.not_mem_nil, or_false] at h
    rcases h with h | h | h | h | h | h | h | h <;> cases h <;> rfl

theorem mem_names_iff {x : String} : x ∈ names ↔ ∃ e, get? x = some e := by
  simp [names, get?_eq_some_iff]

end Examples

/-! ## one check after the other -/

theorem newSession_labelText (hc : c < surrogates) :
    newSession (labelText c) {} = .ok 0 (startAt c) := by
  have hchar : (Text.nameChar c).toNat = c := by
    rw [Text.nameChar_of_valid (.inl hc), Char.ofNat, dif_pos (.inl hc)]
    rfl
  rw [newSession, labelText, String.toList_singleton]
  show EStateM.Result.ok 0 (startAt (Text.nameChar c).toNat) = _
  rw [hchar]

theorem checkAlone_eq (hc : c < surrogates) (format : Format) (x : String) (e : Expr) :
    checkAlone format c x e {} = e.check x standardTypes format (some 0) (standardStore c) := by
  rw [checkAlone, bind_of_ok (newSession_labelText hc), bind_of_ok (standardScope_startAt c)]

/-- what holds between the checks of a selection: what was there at the start, in `u`, was left
alone, and the names go on at `c` -/
structure Between (u t : Store) (c : Nat) : Prop where
  standard : u.Standard
  advance : Advance (.fresh u (some 0)) u t t
  cursor : t.cursor 0 = c
  bound : c ≤ labelBound

namespace Between

open Examples

/-- a check says what it would say by itself in the standard store, and the next one goes on after its
letters -/
theorem ends_check (h : Between u t c) (hp : p ∈ all) (format : Format) :
    Ends (p.2.check p.1 standardTypes format (some 0)) t
      (fun text t' => Between u t' (c + letters format p.1) ∧
        ∃ s', p.2.check p.1 standardTypes format (some 0) (standardStore c) = .ok text s')
      fun f _ => f = .namesExhausted ∧ labelBound < c + letters format p.1 := by
  have hu := h.standard
  have hs := standard_standardStore c
  have hadv := (advance_check hu.within hu.session p.1 p.2 format h.advance).after h.advance
  have hcursor : t.cursor 0 = (standardStore c).cursor 0 := h.cursor
  have hahead : ∀ i, (Renaming.skip (standardStore c) t (some 0)).ahead i = 0 :=
    Renaming.ahead_skip_of_le fun i hi => by cases hi; exact hcursor.le
  have hrun := inStep_check_skip p.1 p.2 format (hs.parallel hu h.advance.stays hcursor.ge) hahead
    hs.within hs.session
  have halone := ends_letters hp format h.bound
  unfold after at hadv
  unfold Ends
  rcases hrun.alike hahead with ⟨text, s', text', t', hs', ht', hthis, rfl⟩ |
    ⟨f, s', g, t', hs', ht', -, hfg⟩
  · rw [ht'] at hadv ⊢
    obtain ⟨hnext, hbound⟩ := halone.ok hs'
    have hsame := hthis.parallel.cursor 0 (.inl rfl)
    rw [hnext, hahead] at hsame
    exact ⟨⟨hu, hadv, hsame, hbound⟩, s', hs'⟩
  · rw [ht']
    obtain ⟨rfl, hlarge⟩ := halone.error hs'
    cases hfg
    exact ⟨rfl, hlarge⟩

end Between

/-! ## whole selections -/

open Examples in
/-- one outcome for each name: the one that its example has by itself, with names that start where
the outcomes before it have left off -/
structure Outcomes (format : Format) (c : Nat) (names texts : List String) : Prop where
  length : texts.length = names.length
  alone : ∀ k x, names[k]? = some x → ∃ e, get? x = some e ∧
    (startOf format c names k < surrogates → ∃ text s,
      checkAlone format (startOf format c names k) x e {} = .ok text s ∧ texts[k]? = some text)

theorem Outcomes.cons {names texts : List String} {text : String} (hp : p ∈ Examples.all)
    (h : ∃ s', p.2.check p.1 standardTypes format (some 0) (standardStore c) = .ok text s')
    (hl : Outcomes format (c + Examples.letters format p.1) names texts) :
    Outcomes format c (p.1 :: names) (text :: texts) := by
  refine ⟨congrArg Nat.succ hl.length, fun k x hk => ?_⟩
  cases k with
  | zero =>
    cases hk
    refine ⟨p.2, Examples.get?_eq_some_iff.2 hp, fun hc => ?_⟩
    obtain ⟨s', hs'⟩ := h
    exact ⟨text, s', (checkAlone_eq hc format p.1 p.2).trans hs', rfl⟩
  | succ k =>
    rw [Examples.startOf_cons]
    exact hl.alone k x hk

/-- checks of examples end in their outcomes, exactly if there are names for all their letters -/
theorem Between.ends_checks (h : Between u t c) (format : Format) (l : List (String × Expr))
    (hl : ∀ p ∈ l, p ∈ Examples.all) :
    Ends (l.mapM fun p => p.2.check p.1 standardTypes format (some 0)) t
      (fun texts _ => Outcomes format c (l.map Prod.fst) texts ∧
        c + Examples.lettersOf format (l.map Prod.fst) ≤ labelBound)
      fun f _ => f = .namesExhausted ∧
        labelBound < c + Examples.lettersOf format (l.map Prod.fst) := by
  induction l generalizing t c with
  | nil => exact ⟨⟨rfl, fun k x hk => by cases hk⟩, h.bound⟩
  | cons p l ih =>
    obtain ⟨hp, hl⟩ := List.forall_mem_cons.1 hl
    rw [List.mapM_cons, List.map_cons, Examples.lettersOf, ← Nat.add_assoc]
    refine ((h.ends_check hp format).error_mono fun f _ hf => ?_).bind fun text t' h' => ?_
    · exact ⟨hf.1, hf.2.trans_le (Nat.le_add_right _ _)⟩
    · exact (ih h'.1 hl).bind fun texts _ ho => ⟨ho.1.cons hp h'.2, ho.2⟩

/-! ### the environment -/

def environmentText : String := "\n".intercalate
  ["cond : (bool -> (α -> (α -> α)))", "pair : (β -> (γ -> (β × γ)))", "pred : (int -> int)",
    "times : (int -> (int -> int))", "true : bool", "zero : (int -> bool)"]

theorem sorted_standardTypes :
    standardTypes.sorted = ["cond", "pair", "pred", "times", "true", "zero"].filterMap fun x =>
      (standardTypes.get? x).map fun t => (x, t) := by
  show List.mergeSort
      [("pair", _), ("true", _), ("cond", _), ("zero", _), ("pred", _), ("times", _)] _ =
    [("cond", _), ("pair", _), ("pred", _), ("times", _), ("true", _), ("zero", _)]
  simp [List.mergeSort, List.MergeSort.Internal.splitInTwo]

theorem ends_renderStandard :
    Ends standardTypes.render (standardStore 'α'.toNat) (fun text u => text = environmentText ∧
      u.cursor 0 = 'α'.toNat + 3 ∧ u.sessions.size = 1 ∧ u.madeBy 0 = 3) never := by
  rw [Scope.render, sorted_standardTypes]
  decide +kernel

namespace Options

def selected (o : Options) : List String := if o.only.isEmpty then Examples.names else o.only

/-- the lines above the outcomes: the environment and an empty line, if asked for -/
def environment (o : Options) : List String := if o.showEnv then [environmentText, ""] else []

/-- the code point at which the names of the first outcome start -/
def firstCode (o : Options) : Nat := 'α'.toNat + if o.showEnv then 3 else 0

/-- showing the environment takes a name for each of its vars -/
theorem ends_envLines_standard (o : Options) :
    Ends (o.envLines standardTypes) (standardStore 'α'.toNat)
      (fun lines u => lines = o.environment ∧ Between u u o.firstCode) never := by
  have hs := standard_standardStore 'α'.toNat
  rw [envLines, environment, firstCode]
  cases o.showEnv with
  | false => exact ⟨rfl, hs, .refl (.fresh hs.sound _), rfl, by decide⟩
  | true =>
    have hrun := (ends_renderScope hs.sound hs.within).and ends_renderStandard
    refine (hrun.error_mono fun _ _ h => h.2).bind fun text u h => ?_
    obtain ⟨hq, rfl, hcursor, hsize, hmade⟩ := h
    have hu : u.Standard := ⟨hq.sound hs.sound, hs.within.mono hq.made, hsize, hmade,
      fun v => (hq.bound v).2 (hs.unbound v)⟩
    exact ⟨rfl, hu, .refl (.fresh hu.sound _), hcursor, by decide⟩

theorem unknown_eq (o : Options) : o.unknown = o.only.filter (· ∉ Examples.names) := by
  refine List.filter_congr fun x _ => ?_
  rw [Bool.eq_iff_iff, decide_eq_true_iff, Examples.mem_names_iff, ← Option.isSome_iff_exists]
  simp

theorem chosen_of_known (o : Options) (h : ∀ x ∈ o.only, x ∈ Examples.names) :
    o.chosen.map Prod.fst = o.selected ∧ ∀ p ∈ o.chosen, p ∈ Examples.all := by
  rw [chosen, selected]
  split_ifs with hall
  · exact ⟨rfl, fun _ hp => hp⟩
  · constructor
    · rw [List.map_filterMap]
      refine Eq.trans (List.filterMap_congr fun x hx => ?_) List.filterMap_some
      obtain ⟨e, he⟩ := Examples.mem_names_iff.1 (h x hx)
      rw [he]
      rfl
    · intro p hp
      obtain ⟨x, -, hx⟩ := List.mem_filterMap.1 hp
      obtain ⟨e, he, rfl⟩ := Option.map_eq_some_iff.1 hx
      exact Examples.get?_eq_some_iff.1 he

/-- a selection without enough names for its letters has gone past the characters before its end -/
theorem exists_surrogates_le (o : Options)
    (h : labelBound < o.firstCode + Examples.lettersOf o.format o.selected) :
    ∃ k < o.selected.length,
      surrogates ≤ Examples.startOf o.format o.firstCode o.selected k := by
  have hfirst : o.firstCode ≤ labelBound := by
    unfold firstCode
    split <;> decide
  have hne : o.selected ≠ [] := by
    intro hnil
    rw [hnil] at h
    exact absurd hfirst (Nat.not_le.2 h)
  obtain ⟨k, hk, hle⟩ := Examples.exists_startOf_le o.format o.firstCode hne
  have hbound : surrogates + 3 ≤ labelBound := by decide
  exact ⟨k, hk, by omega⟩

/-- the checks of known examples start where the environment has left off, and the text is made of
their outcomes -/
theorem ends_selected (o : Options) (h : ∀ x ∈ o.only, x ∈ Examples.names)
    {Q : List String → Store → Prop} {R : Failure → Store → Prop}
    (hrun : ∀ u, Between u u o.firstCode →
      Ends (o.chosen.mapM fun p => p.2.check p.1 standardTypes o.format (some 0)) u Q R) :
    Ends o.checkExamples {}
      (fun r s => r.1 = statusChecked ∧ ∃ outcomes,
        r.2 = "\n".intercalate (o.environment ++ outcomes) ++ "\n" ∧ Q outcomes s) R := by
  have hnone : o.unknown = [] := by
    rw [unknown_eq, List.filter_eq_nil_iff]
    simpa using h
  rw [checkExamples, hnone]
  have hopen : Ends (newSession firstName) {} (fun i s => i = 0 ∧ s = startAt 'α'.toNat) never :=
    ⟨rfl, rfl⟩
  refine hopen.safe.bind fun i s h => ?_
  obtain ⟨rfl, rfl⟩ := h
  have hscope : Ends (standardScope 0) (startAt 'α'.toNat)
      (fun scope s => scope = standardTypes ∧ s = standardStore 'α'.toNat) never := ⟨rfl, rfl⟩
  refine hscope.safe.bind fun scope s h => ?_
  obtain ⟨rfl, rfl⟩ := h
  refine o.ends_envLines_standard.safe.bind fun env u h => ?_
  obtain ⟨rfl, hbetween⟩ := h
  exact (hrun u hbetween).bind fun outcomes _ hQ => ⟨rfl, outcomes, rfl, hQ⟩

/-- known examples are checked to the end, exactly if there are names for all their letters -/
theorem ends_known (o : Options) (h : ∀ x ∈ o.only, x ∈ Examples.names) :
    Ends o.checkExamples {}
      (fun r _ => r.1 = statusChecked ∧
        o.firstCode + Examples.lettersOf o.format o.selected ≤ labelBound ∧
        ∃ outcomes, Outcomes o.format o.firstCode o.selected outcomes ∧
          r.2 = "\n".intercalate (o.environment ++ outcomes) ++ "\n")
      fun f _ => f = .namesExhausted ∧
        labelBound < o.firstCode + Examples.lettersOf o.format o.selected := by
  obtain ⟨hnames, hall⟩ := o.chosen_of_known h
  rw [← hnames]
  refine (o.ends_selected h fun u hu => hu.ends_checks o.format o.chosen hall).ok_mono
    fun r _ hr => ?_
  obtain ⟨hstatus, outcomes, htext, houtcomes, hbound⟩ := hr
  exact ⟨hstatus, hbound, outcomes, houtcomes, htext⟩

/-- a selection with an unknown name is not checked, and the text lists the unknown ones; in any
other, each outcome is that of its example by itself, with names that start where those of the
outcomes before it end, and it is checked to its end exactly if there are names for all letters; so
it always is, if all these places are below the surrogates -/
theorem checkExamples_outcomes (o : Options) :
    if ∀ x ∈ o.only, x ∈ Examples.names then
      Ends o.checkExamples {}
        (fun r _ => r.1 = 0 ∧
          o.firstCode + Examples.lettersOf o.format o.selected ≤ labelBound ∧
          ∃ outcomes, Outcomes o.format o.firstCode o.selected outcomes ∧
            r.2 = "\n".intercalate (o.environment ++ outcomes) ++ "\n")
        fun f _ => f = .namesExhausted ∧
          labelBound < o.firstCode + Examples.lettersOf o.format o.selected ∧
          ∃ k < o.selected.length,
            surrogates ≤ Examples.startOf o.format o.firstCode o.selected k
    else
      o.checkExamples {} = .ok
        (64, "Unknown example(s): " ++ ", ".intercalate (o.only.filter (· ∉ Examples.names))
          ++ ". Choose from: " ++ ", ".intercalate Examples.names ++ ".\n")
        { events := #[.unknownExamples (o.only.filter (· ∉ Examples.names))] } := by
  by_cases hknown : ∀ x ∈ o.only, x ∈ Examples.names
  · rw [if_pos hknown]
    exact (o.ends_known hknown).error_mono fun f _ h => ⟨h.1, h.2, o.exists_surrogates_le h.2⟩
  · rw [if_neg hknown, checkExamples]
    have hsome : o.unknown.isEmpty = false := by
      rw [unknown_eq]
      simpa using hknown
    rw [hsome, ← unknown_eq]
    rfl

end Options
end LetPoly
