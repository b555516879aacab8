import LetPoly.Proofs.Outcomes
import LetPoly.Proofs.ShownTypes
import LetPoly.Proofs.Text.StandIns

/-!
# Names that are no characters

A session has a name for each code point, and the surrogates among them are no characters.  The
outcome of an example shows all names that it uses up, so it has a stand-in exactly if one of these
names needs one (`Examples.standIns_check`), and the outcomes of a selection have one exactly if its
names go past the first surrogate (`Options.standIns_known`).

The words of an outcome that are no names have no stand-ins; inference is evaluated once for each
example to see this (`Examples.ends_plain`), and a store with names left is parallel to that one.
-/

namespace LetPoly

open StoreM Store Text

variable {s t u : Store} {c : Nat} {format : Format} {p : String × Expr} {y y' : Except Failure Ty}
  {text text' source path : String} {a b : Ty} {w w' : Term Var} {f : Failure}

/-! ## the texts of reports -/

namespace Report

theorem hasStandIn_frame (message path : String) :
    HasStandIn (frame message path) ↔ HasStandIn message ∨ HasStandIn path := by
  simp +decide only [frame, hasStandIn_append, or_false, false_or]
  exact or_comm

theorem hasStandIn_underSource (source explanation : String) :
    HasStandIn (underSource source explanation) ↔ HasStandIn source ∨ HasStandIn explanation := by
  have hblank : ¬ HasStandIn "\n\n" := by decide
  have hindent : ¬ HasStandIn "    " := by decide
  have hsource : HasStandIn (quoteSource source) ↔ HasStandIn source := by
    rw [quoteSource]
    split
    · next hempty => rw [String.isEmpty_iff.1 hempty]
    · rw [hasStandIn_append, or_iff_right hindent]
  rw [underSource, hasStandIn_append, hasStandIn_append, hsource, or_iff_left hblank, wrapText,
    hasStandIn_wrap]

end Report

/-! ## outcomes -/

namespace Store

/-- the outcome is one that an example may have, and its own words have no stand-in -/
noncomputable def isPlain (s : Store) : Except Failure Ty → Bool
  | .ok t => decide (∀ n ∈ (s.resolve t).operators, ¬ HasStandIn n)
  | .error (.problem (.circular inner outer)) =>
    decide (∀ n ∈ (s.resolve inner).operators ++ (s.resolve outer).operators, ¬ HasStandIn n)
  | .error (.problem (.mismatch leftText rightText)) =>
    decide (¬ HasStandIn leftText ∧ ¬ HasStandIn rightText)
  | .error (.problem (.undefinedName x)) => decide (¬ HasStandIn x)
  | .error _ => false

theorem Quiet.isPlain_eq (h : s.Quiet u) (hs : s.Acyclic) (y : Except Failure Ty) :
    u.isPlain y = s.isPlain y := by
  unfold isPlain
  simp only [h.resolve_eq hs]

/-- one of the vars goes by a name that needs a stand-in -/
def NamesStandIn (s : Store) (vs : List Var) : Prop :=
  ∃ v ∈ vs, ∃ code, s.label? v = some code ∧ NeedsStandIn code

theorem namesStandIn_append (vs ws : List Var) :
    s.NamesStandIn (vs ++ ws) ↔ s.NamesStandIn vs ∨ s.NamesStandIn ws := by
  simp only [NamesStandIn, List.mem_append, or_and_right, exists_or]

theorem Spells.hasStandIn_iff (h : s.Spells w text) (hw : ∀ n ∈ w.operators, ¬ HasStandIn n) :
    HasStandIn text ↔ s.NamesStandIn w.vars := by
  have hname : ∀ v ∈ w.vars,
      (HasStandIn (s.nameText v) ↔ ∃ code, s.label? v = some code ∧ NeedsStandIn code) := by
    intro v hv
    obtain ⟨code, hcode⟩ := h.named v hv
    rw [nameText_of_label hcode, hasStandIn_labelText, hcode]
    simp
  have hnone : ¬ ∃ n ∈ w.operators, HasStandIn n := fun ⟨n, hn, hstand⟩ => hw n hn hstand
  rw [h.text_eq, Term.hasStandIn_print, or_iff_right hnone]
  exact exists_congr fun v => and_congr_right (hname v)

end Store

/-- the texts of two types, one after the other, and what is made of them -/
theorem standIns_texts {α : Type} {g : String → String → α} {P : α → Prop} (hs : s.Sound)
    (ha : s.Has a) (hb : s.Has b)
    (hplain : ∀ n ∈ (s.resolve a).operators ++ (s.resolve b).operators, ¬ HasStandIn n)
    (hP : ∀ x x', P (g x x') ↔ HasStandIn x ∨ HasStandIn x') :
    Ends (do let x ← a.render; let x' ← b.render; return g x x' : StoreM α) s
      (fun r u => P r ↔ u.NamesStandIn (s.varsShown [a, b])) fun _ _ => True := by
  have hvars : s.varsShown [a, b] = (s.resolve a).vars ++ (s.resolve b).vars := by
    simp [Store.varsShown]
  have hshown : (do let x ← a.render; let x' ← b.render; return g x x' : StoreM α) =
      (do return (← a.render, ← b.render)) >>= fun r => return g r.1 r.2 := by
    simp only [bind_assoc, pure_bind]
  rw [hshown, hvars]
  refine ((Ty.ends_render_both hs ha hb).error_mono fun _ _ _ => trivial).bind fun r u h => ?_
  obtain ⟨-, hx, hx'⟩ := h
  show P (g r.1 r.2) ↔ _
  rw [hP, hx.hasStandIn_iff fun n hn => hplain n (List.mem_append_left _ hn),
    hx'.hasStandIn_iff fun n hn => hplain n (List.mem_append_right _ hn), namesStandIn_append]

/-- the stand-ins of a report on a circle are those of the names in its types, if it shows them -/
theorem standIns_circular (hs : s.Sound) (format : Format)
    (hf : ∀ t ∈ format.typesShown (.error (.problem (.circular a b))), s.Has t)
    (hplain : ∀ n ∈ (s.resolve a).operators ++ (s.resolve b).operators, ¬ HasStandIn n)
    (hsource : ¬ HasStandIn source) (hpath : ¬ HasStandIn path) :
    Ends ((Problem.circular a b).report format source path) s
      (fun text u => HasStandIn text ↔
        u.NamesStandIn (s.varsShown (format.typesShown (.error (.problem (.circular a b))))))
      fun _ _ => True := by
  cases format with
  | json =>
    have hfields : Ends ((Problem.circular a b).fields source path) s
        (fun fields u => HasStandIn (Json.object .full fields) ↔
          u.NamesStandIn (s.varsShown [a, b])) fun _ _ => True := by
      refine standIns_texts hs (hf a (by simp [Format.typesShown]))
        (hf b (by simp [Format.typesShown])) hplain fun x x' => ?_
      simp +decide [hasStandIn_object, Problem.name, hsource, hpath]
    exact hfields.bind fun fields u h => h
  | long =>
    have hexplanation : Ends ((Problem.circular a b).explanation source path) s
        (fun text u => HasStandIn text ↔ u.NamesStandIn (s.varsShown [a, b]))
        fun _ _ => True := by
      refine standIns_texts hs (hf a (by simp [Format.typesShown]))
        (hf b (by simp [Format.typesShown])) hplain fun x x' => ?_
      simp +decide only [Report.hasStandIn_underSource, hasStandIn_append, hsource, false_or,
        or_false]
    refine hexplanation.bind fun text u h => ?_
    show HasStandIn (Report.frame text path) ↔ _
    rw [Report.hasStandIn_frame, or_iff_left hpath]
    exact h
  | short =>
    have hwords : ¬ HasStandIn "recursive unification" := by decide
    refine iff_of_false hwords ?_
    rintro ⟨v, hv, -⟩
    exact List.not_mem_nil hv

theorem not_hasStandIn_mismatch {l r : String} (hl : ¬ HasStandIn l) (hr : ¬ HasStandIn r)
    (hsource : ¬ HasStandIn source) (hpath : ¬ HasStandIn path) (format : Format) :
    Ends ((Problem.mismatch l r).report format source path) s (fun text _ => ¬ HasStandIn text)
      never := by
  cases format with
  | json =>
    show ¬ HasStandIn (Json.object .full _)
    simp +decide [hasStandIn_object, Problem.name, hl, hr, hsource, hpath]
  | long =>
    show ¬ HasStandIn (Report.frame (Report.underSource source _) path)
    simp +decide only [Report.hasStandIn_frame, Report.hasStandIn_underSource, hasStandIn_append,
      hl, hr, hsource, hpath]
  | short =>
    show ¬ HasStandIn ("Type mismatch: " ++ l ++ " != " ++ r)
    simp +decide only [hasStandIn_append, hl, hr]

theorem not_hasStandIn_undefinedName {x : String} (hx : ¬ HasStandIn x)
    (hsource : ¬ HasStandIn source) (hpath : ¬ HasStandIn path) (format : Format) :
    Ends ((Problem.undefinedName x).report format source path) s (fun text _ => ¬ HasStandIn text)
      never := by
  cases format with
  | json =>
    show ¬ HasStandIn (Json.object .full _)
    simp +decide [hasStandIn_object, Problem.name, hx, hsource, hpath]
  | long =>
    show ¬ HasStandIn (Report.frame (Report.underSource source _) path)
    simp +decide only [Report.hasStandIn_frame, Report.hasStandIn_underSource, hasStandIn_append,
      hx, hsource, hpath]
  | short =>
    show ¬ HasStandIn ("Undefined symbol " ++ x)
    simp +decide only [hasStandIn_append, hx]

theorem not_namesStandIn_nil (s : Store) : ¬ s.NamesStandIn [] :=
  fun ⟨_, hv, _⟩ => List.not_mem_nil hv

/-- the report on a failure has the stand-ins of the names that it shows -/
theorem standIns_report (hs : s.Sound) (format : Format)
    (hf : ∀ t ∈ format.typesShown (.error f), s.Has t) (hplain : s.isPlain (.error f))
    (hsource : ¬ HasStandIn source) (hpath : ¬ HasStandIn path) :
    Ends (f.report format source path) s
      (fun text u => HasStandIn text ↔ u.NamesStandIn (s.varsShown (format.typesShown (.error f))))
      fun _ _ => True := by
  cases f with
  | problem p =>
    cases p with
    | circular a b =>
      exact standIns_circular hs format hf (of_decide_eq_true hplain) hsource hpath
    | mismatch l r =>
      obtain ⟨hl, hr⟩ := of_decide_eq_true hplain
      exact (not_hasStandIn_mismatch hl hr hsource hpath format).mono
        (fun _ u h => iff_of_false h (not_namesStandIn_nil u)) nofun
    | undefinedName x =>
      exact (not_hasStandIn_undefinedName (of_decide_eq_true hplain) hsource hpath format).mono
        (fun _ u h => iff_of_false h (not_namesStandIn_nil u)) nofun
    | output fault => cases hplain
    | general notes => cases hplain
  | _ => cases hplain

/-- the outcome of a check has the stand-ins of the names that it shows -/
theorem standIns_conclude {x : String} {e : Expr} (hs : s.Sound)
    (hy : ∀ t ∈ format.typesShown y, s.Has t) (hplain : s.isPlain y)
    (he : ¬ HasStandIn e.text) (hx : ¬ HasStandIn x) :
    Ends (e.conclude x format y) s
      (fun text u => HasStandIn text ↔ u.NamesStandIn (s.varsShown (format.typesShown y)))
      fun _ _ => True := by
  have hcolon : ¬ HasStandIn " : " := by decide
  have hline (text : String) : HasStandIn (e.text ++ " : " ++ text) ↔ HasStandIn text := by
    rw [hasStandIn_append, hasStandIn_append, or_iff_right (not_or.2 ⟨he, hcolon⟩)]
  cases y with
  | ok t =>
    have hvars : s.varsShown (format.typesShown (.ok t)) = (s.resolve t).vars := by
      simp [Store.varsShown, Format.typesShown]
    have hshow := Ty.shows_render hs (hy t (by simp [Format.typesShown]))
    rw [hvars]
    refine (hshow.error_mono fun _ _ _ => trivial).bind fun text u h => ?_
    show HasStandIn (e.text ++ " : " ++ text) ↔ _
    rw [hline]
    exact h.spells.hasStandIn_iff (of_decide_eq_true hplain)
  | error f =>
    refine (Ends.error_mono (displays_noteFailed x f) fun _ _ _ => trivial).bind fun _ s₁ hd => ?_
    have hreport := standIns_report (hd.quiet.sound hs) format
      (fun t ht => hd.quiet.has_of_has (hy t ht)) (hd.quiet.isPlain_eq hs.acyclic _ ▸ hplain) he hx
    rw [hd.varsShown_eq hs.acyclic] at hreport
    refine hreport.bind fun text u h => ?_
    show HasStandIn (e.text ++ " : " ++ text) ↔ _
    rw [hline]
    exact h

/-! ## outcomes in two runs -/

namespace Renaming

variable {r : Renaming}

/-- where no var has a name, a term that was shown has none, so its words are all there is -/
theorem ShowsAlike.not_hasStandIn (h : r.ShowsAlike s t w text text')
    (hnone : ∀ v, s.label? v = none) (hplain : ¬ HasStandIn text') : ¬ HasStandIn text := by
  have hvars : ∀ v, v ∉ w.vars := by
    intro v hv
    obtain ⟨code, hcode⟩ := h.named v hv
    rw [hnone] at hcode
    cases hcode
  rw [h.text_eq', Term.hasStandIn_print, Term.operators_rename, not_or] at hplain
  rw [h.text_eq, Term.hasStandIn_print, not_or]
  exact ⟨hplain.1, fun ⟨v, hv, _⟩ => hvars v hv⟩

theorem MapsOutcome.isPlain (h : r.MapsOutcome s t y y') (hp : Parallel r s t)
    (hnone : ∀ v, s.label? v = none) (hplain : t.isPlain y') : s.isPlain y := by
  have hsame {a b : Ty} (hab : r.Maps a b) :
      (t.resolve b).operators = (s.resolve a).operators := by
    rw [hp.resolve_eq hab, Term.operators_rename]
  cases h with
  | ok hu huu' =>
    rw [Store.isPlain, hsame huu'] at hplain
    exact hplain
  | error hfg =>
    cases hfg with
    | circular ha hb haa' hbb' =>
      rw [Store.isPlain, hsame haa', hsame hbb'] at hplain
      exact hplain
    | mismatch ha hb =>
      obtain ⟨hl, hr⟩ := of_decide_eq_true hplain
      exact decide_eq_true ⟨ha.not_hasStandIn hnone hl, hb.not_hasStandIn hnone hr⟩
    | undefinedName x => exact hplain
    | namesExhausted => cases hplain
    | notOneCharacter n => cases hplain

end Renaming

/-! ## the examples -/

theorem Store.Named.namesStandIn_iff {vs : List Var} (h : Named (s.unnamed vs) s u)
    (howns : s.Owns 0 c) (hnone : ∀ v, s.label? v = none)
    (hsession : ∀ v ∈ s.unnamed vs, v.session = 0) :
    u.NamesStandIn vs ↔ NeedStandIns (s.cursor 0) (u.cursor 0) := by
  have hmem (v : Var) : v ∈ s.unnamed vs ↔ v ∈ vs := by rw [mem_unnamed, hnone, and_iff_left rfl]
  constructor
  · rintro ⟨v, hv, code, hcode, hneeds⟩
    have hunnamed := (hmem v).2 hv
    have hv0 := hsession v hunnamed
    have hlt := ((h.owns howns).given_iff code).1 ⟨v, hv0, hcode⟩
    exact ⟨code, (h.cursor_le_iff howns hv0 hcode).2 hunnamed, hlt.2, hneeds⟩
  · rintro ⟨code, hle, hlt, hneeds⟩
    obtain ⟨v, hv0, hcode⟩ := ((h.owns howns).given_iff code).2 ⟨howns.le.trans hle, hlt⟩
    exact ⟨v, (hmem v).1 ((h.cursor_le_iff howns hv0 hcode).1 hle), code, hcode, hneeds⟩

/-- in a store with one session, no var goes by a name until the session has handed one out -/
theorem Store.Owns.label?_eq_none (h : s.Owns 0 c) (hcursor : s.cursor 0 = c)
    (hsize : s.sessions.size = 1) (v : Var) : s.label? v = none := by
  by_contra hsome
  obtain ⟨code, hcode⟩ := Option.ne_none_iff_exists'.1 hsome
  have hmade : s.Made v := by
    by_contra hnot
    rw [label?_of_not_made hnot] at hcode
    cases hcode
  have hv0 : v.session = 0 := by
    have hlt := hmade.session_lt
    omega
  have hrange := (h.given_iff code).1 ⟨v, hv0, hcode⟩
  omega

namespace Examples

/-- the words of an outcome are plain, even where no names are left -/
theorem ends_plain (hp : p ∈ all) :
    Ends (p.2.inferType standardTypes (some 0)) (standardStore labelBound)
      (fun ty t => t.sessions.size = 1 ∧ t.isPlain (.ok ty))
      fun f t => t.sessions.size = 1 ∧ t.isPlain (.error f) := by
  revert p
  decide +kernel

theorem label?_standardStore (c : Nat) (v : Var) : (standardStore c).label? v = none := by
  by_cases hv : (standardStore c).Made v
  · obtain ⟨i, k⟩ := v
    obtain ⟨rfl, hk⟩ : i = 0 ∧ k < 3 := ((standard_standardStore c).made_iff ⟨i, k⟩).1 hv
    obtain rfl | rfl | rfl : k = 0 ∨ k = 1 ∨ k = 2 := by omega
    all_goals rfl
  · exact label?_of_not_made hv

theorem skipSession_standard (c d i : Nat) :
    (standardStore c).skipSession (standardStore d) i = i := by
  unfold skipSession
  split <;> rfl

theorem not_hasStandIn_words (hp : p ∈ all) : ¬ HasStandIn p.2.text ∧ ¬ HasStandIn p.1 := by
  revert p
  decide +kernel

/-- what is there to see after inference, wherever the names start -/
structure Inferred (c : Nat) (y : Except Failure Ty) (t : Store) : Prop where
  cursor : t.cursor 0 = c
  owns : t.Owns 0 c
  label : ∀ v, t.label? v = none
  plain : t.isPlain y

theorem inferred_standard (hp : p ∈ all) (hc : c ≤ labelBound) :
    Inferred c ((p.2.inferType standardTypes (some 0)).result (standardStore c))
      (after (p.2.inferType standardTypes (some 0)) (standardStore c)) := by
  obtain ⟨hadv, hmaps⟩ := mapsOutcome_standard hp hc
  obtain ⟨hcursor, -⟩ := pending_result hp .short hc
  obtain ⟨hsize, hplain⟩ := Ends.result (P := fun y t => t.sessions.size = 1 ∧ t.isPlain y)
    (ends_plain hp)
  have howns := hadv.stays.names.owns 0 c Nat.one_pos
    (owns_of_unlabelled fun v _ => label?_standardStore c v)
  have hone : (after (p.2.inferType standardTypes (some 0)) (standardStore c)).sessions.size = 1 := by
    have hnext := hadv.parallel.session_next 0
    dsimp only [Renaming.skip] at hnext
    rw [skipSession_standard, hsize] at hnext
    omega
  have hlabel := howns.label?_eq_none hcursor hone
  exact ⟨hcursor, howns, hlabel, hmaps.isPlain hadv.parallel hlabel hplain⟩

/-- the outcome of an example has a stand-in exactly if one of its names needs one -/
theorem standIns_check (hp : p ∈ all) (format : Format) (hc : c ≤ labelBound) :
    Ends (p.2.check p.1 standardTypes format (some 0)) (standardStore c)
      (fun text _ => HasStandIn text ↔ NeedStandIns c (c + letters format p.1))
      fun _ _ => True := by
  have hs := standard_standardStore c
  have hinferred := inferred_standard hp hc
  have hsound := (mapsOutcome_inferType p.2 hs.sound hs.within hs.session).1.sound
  have hhas := has_typesShown p.2 format hs.sound hs.within hs.session
  have hshown := displays_inferred p.1 p.2 format hs.sound hs.within hs.session
  have hnext := ends_letters hp format hc
  obtain ⟨-, hsession, -⟩ := pending_result hp format hc
  obtain ⟨htext, hname⟩ := not_hasStandIn_words hp
  rw [Ends, check_from] at hnext ⊢
  generalize (p.2.inferType standardTypes (some 0)).result (standardStore c) = y at *
  generalize after (p.2.inferType standardTypes (some 0)) (standardStore c) = t at *
  have hstand := standIns_conclude hsound hhas hinferred.plain htext hname
  refine ((hstand.and hshown).and hnext).mono (fun text u h => ?_) fun _ _ _ => trivial
  obtain ⟨⟨hiff, hdisplayed⟩, hcursor, -⟩ := h
  rw [hiff, hdisplayed.named.namesStandIn_iff hinferred.owns hinferred.label hsession, hcursor,
    hinferred.cursor]

end Examples

/-! ## selections -/

/-- the outcomes of some checks have a stand-in exactly if one of their names needs one -/
theorem Between.standIns_checks (h : Between u t c) (format : Format) (l : List (String × Expr))
    (hl : ∀ p ∈ l, p ∈ Examples.all) :
    Ends (l.mapM fun p => p.2.check p.1 standardTypes format (some 0)) t
      (fun texts _ => (∃ text ∈ texts, HasStandIn text) ↔
        NeedStandIns c (c + Examples.lettersOf format (l.map Prod.fst))) fun _ _ => True := by
  induction l generalizing t c with
  | nil => exact iff_of_false (by simp) (not_needStandIns_self c)
  | cons p l ih =>
    obtain ⟨hp, hl⟩ := List.forall_mem_cons.1 hl
    rw [List.mapM_cons, List.map_cons, Examples.lettersOf, ← Nat.add_assoc]
    refine ((h.ends_check hp format).error_mono fun _ _ _ => trivial).bind fun text t' h' => ?_
    obtain ⟨hnext, s', hs'⟩ := h'
    refine (ih hnext hl).bind fun texts _ hrest => ?_
    have hfirst := (Examples.standIns_check hp format h.bound).ok hs'
    show (∃ x ∈ text :: texts, HasStandIn x) ↔ _
    rw [List.exists_mem_cons_iff, hfirst, hrest]
    exact needStandIns_trans (Nat.le_add_right _ _) (Nat.le_add_right _ _)

namespace Options

/-- the text of a known selection has a stand-in exactly if its names go past the first surrogate -/
theorem standIns_known (o : Options) (h : ∀ x ∈ o.only, x ∈ Examples.names) :
    Ends o.checkExamples {}
      (fun r _ => HasStandIn r.2 ↔
        surrogates < o.firstCode + Examples.lettersOf o.format o.selected) fun _ _ => True := by
  obtain ⟨hnames, hall⟩ := o.chosen_of_known h
  have henv : ¬ ∃ line ∈ o.environment, HasStandIn line := by
    rw [environment]
    split <;> decide +kernel
  have hfirst : o.firstCode ≤ surrogates := by
    unfold firstCode
    split <;> decide
  have hbreak : ¬ HasStandIn "\n" := by decide
  refine (o.ends_selected h fun u hu => hu.standIns_checks o.format o.chosen hall).ok_mono
    fun r _ hr => ?_
  obtain ⟨-, outcomes, htext, hiff⟩ := hr
  rw [hnames] at hiff
  rw [htext, hasStandIn_append, or_iff_left hbreak, hasStandIn_intercalate hbreak]
  simp only [List.mem_append, or_and_right, exists_or]
  rw [or_iff_right henv, hiff]
  exact needStandIns_iff hfirst

end Options
end LetPoly
