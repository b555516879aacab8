import Mathlib.Data.List.TakeWhile
import LetPoly.Proofs.CommandLine.Items
import LetPoly.Proofs.Program

/-!
# Names in one block

The items of a command line may stand in any order, but their names have to stand together
(`parse_items`): if they do, the command line asks for just these items, wherever the block is; if
options split the names, all names behind the first block are refused.

What becomes of a name depends on the phase of the block only: it is still ahead (`foldl_ahead`), it
is open (`foldl_open`), or an option has closed it (`foldl_closed`).
-/

namespace LetPoly.CommandLine

def names (l : List Item) : List String := l.filterMap Item.name?

def firstNames (l : List Item) : List String :=
  names ((l.dropWhile fun i => !i.isName).takeWhile Item.isName)

def laterNames (l : List Item) : List String :=
  names ((l.dropWhile fun i => !i.isName).dropWhile Item.isName)

/-- all names stand together, or there are none -/
def OneBlock (l : List Item) : Prop :=
  ∃ before block after, l = before ++ block ++ after ∧ (∀ i ∈ before, i.isName = false) ∧
    (∀ i ∈ block, i.isName = true) ∧ ∀ i ∈ after, i.isName = false

/-- what some items ask for: all names in their order, each switch that is there, and of several
values the last one -/
def asked (l : List Item) : Arguments where
  only := names l
  showHelp := .help ∈ (uses l).flatMap Use.switches
  showVersion := .version ∈ (uses l).flatMap Use.switches
  showEnv := .env ∈ (uses l).flatMap Use.switches
  out := some (((uses l).filterMap Use.path?).getLast?.getD "stdout")
  format := some (((uses l).filterMap Use.format?).getLast?.getD .short)

variable {w : String} {l : List Item} {r : Reading} {ws : List String}

/-! ## what becomes of the names -/

theorem names_eq_nil_iff : names l = [] ↔ ∀ i ∈ l, i.isName = false := by
  rw [names, List.filterMap_eq_nil_iff]
  refine forall₂_congr fun i _ => ?_
  cases i <;> simp [Item.name?, Item.isName]

theorem names_append (l l' : List Item) : names (l ++ l') = names l ++ names l' :=
  List.filterMap_append

namespace Reading

/-- behind the block all names are left to be refused -/
theorem foldl_closed (h : r.block = .closed ws) (l : List Item) :
    (l.foldl take r).block = .closed ws ∧ (l.foldl take r).extras = r.extras ++ names l := by
  induction l generalizing r with
  | nil => exact ⟨h, (List.append_nil _).symm⟩
  | cons i l ih =>
    cases i with
    | name w plain =>
      have htake : r.take (.name w plain) = { r with extras := r.extras ++ [w] } := by
        show r.addName w = _
        rw [addName, h]
      obtain ⟨hblock, hextras⟩ := ih (r := { r with extras := r.extras ++ [w] }) h
      rw [List.foldl_cons, htake]
      refine ⟨hblock, ?_⟩
      rw [hextras, List.append_assoc]
      rfl
    | use u =>
      have hblock : (r.take (.use u)).block = .closed ws := by
        show r.block.close = _
        rw [h]
        rfl
      exact ih hblock

/-- within the block names are taken up to the next option -/
theorem foldl_open (h : r.block = .open ws) (l : List Item) :
    (l.foldl take r).block.words = ws ++ names (l.takeWhile Item.isName) ∧
      (l.foldl take r).extras = r.extras ++ names (l.dropWhile Item.isName) := by
  induction l generalizing r ws with
  | nil =>
    show r.block.words = ws ++ [] ∧ r.extras = r.extras ++ []
    rw [h, List.append_nil, List.append_nil]
    exact ⟨rfl, rfl⟩
  | cons i l ih =>
    cases i with
    | name w plain =>
      have htake : r.take (.name w plain) = { r with block := .open (ws ++ [w]) } := by
        show r.addName w = _
        rw [addName, h]
      obtain ⟨hblock, hextras⟩ := ih (r := { r with block := .open (ws ++ [w]) }) rfl
      rw [List.foldl_cons, htake]
      refine ⟨?_, hextras⟩
      rw [hblock, List.append_assoc]
      rfl
    | use u =>
      have hblock : (r.take (.use u)).block = .closed ws := by
        show r.block.close = _
        rw [h]
        rfl
      obtain ⟨hclosed, hextras⟩ := foldl_closed hblock l
      rw [List.foldl_cons, hclosed]
      exact ⟨(List.append_nil ws).symm, hextras⟩

/-- options in front of the block leave it ahead -/
theorem foldl_ahead (h : r.block = .ahead) (l : List Item) :
    (l.foldl take r).block.words = firstNames l ∧
      (l.foldl take r).extras = r.extras ++ laterNames l := by
  induction l generalizing r with
  | nil =>
    show r.block.words = [] ∧ r.extras = r.extras ++ []
    rw [h, List.append_nil]
    exact ⟨rfl, rfl⟩
  | cons i l ih =>
    cases i with
    | name w plain =>
      have htake : r.take (.name w plain) = { r with block := .open [w] } := by
        show r.addName w = _
        rw [addName, h]
      rw [List.foldl_cons, htake]
      exact foldl_open (r := { r with block := .open [w] }) rfl l
    | use u =>
      have hblock : (r.take (.use u)).block = .ahead := by
        show r.block.close = _
        rw [h]
        rfl
      exact ih hblock

end Reading

/-! ## whole command lines -/

theorem asked_eq (l : List Item) :
    { ((uses l).flatMap Use.settings).foldl Arguments.set {} with only := names l } = asked l := by
  have hhelp : (((uses l).flatMap Use.settings).foldl Arguments.set {}).showHelp = _ :=
    switch_read .help (uses l)
  have hversion : (((uses l).flatMap Use.settings).foldl Arguments.set {}).showVersion = _ :=
    switch_read .version (uses l)
  have henv : (((uses l).flatMap Use.settings).foldl Arguments.set {}).showEnv = _ :=
    switch_read .env (uses l)
  rw [asked, ← hhelp, ← hversion, ← henv, ← out_read, ← format_read]

theorem names_eq_append (l : List Item) : names l = firstNames l ++ laterNames l := by
  have hfront : names (l.takeWhile fun i => !i.isName) = [] := by
    rw [names_eq_nil_iff]
    intro i hi
    simpa using List.mem_takeWhile_imp hi
  calc names l
      = names (l.takeWhile fun i => !i.isName) ++ names (l.dropWhile fun i => !i.isName) := by
        rw [← names_append, List.takeWhile_append_dropWhile]
    _ = names (l.dropWhile fun i => !i.isName) := by rw [hfront, List.nil_append]
    _ = firstNames l ++ laterNames l := by
        rw [firstNames, laterNames, ← names_append, List.takeWhile_append_dropWhile]

theorem laterNames_eq_nil_iff : laterNames l = [] ↔ OneBlock l := by
  constructor
  · intro h
    refine ⟨l.takeWhile fun i => !i.isName, (l.dropWhile fun i => !i.isName).takeWhile Item.isName,
      (l.dropWhile fun i => !i.isName).dropWhile Item.isName, ?_, ?_, ?_, ?_⟩
    · rw [List.append_assoc, List.takeWhile_append_dropWhile, List.takeWhile_append_dropWhile]
    · intro i hi
      simpa using List.mem_takeWhile_imp hi
    · exact fun i hi => List.mem_takeWhile_imp hi
    · exact names_eq_nil_iff.1 h
  · intro ⟨before, block, after, hl, hbefore, hblock, hafter⟩
    have hskip : l.dropWhile (fun i => !i.isName) =
        (block ++ after).dropWhile fun i => !i.isName := by
      rw [hl, List.append_assoc, List.dropWhile_append_of_pos fun i hi => by simp [hbefore i hi]]
    rw [laterNames, hskip, names_eq_nil_iff]
    intro i hi
    apply hafter
    cases block with
    | nil => exact (List.dropWhile_sublist _).subset ((List.dropWhile_sublist _).subset hi)
    | cons j block =>
      -- the block begins with a name, so it is all dropped at once
      rw [List.cons_append, List.dropWhile_cons_of_neg (by simp [hblock j List.mem_cons_self]),
        ← List.cons_append, List.dropWhile_append_of_pos hblock] at hi
      exact (List.dropWhile_sublist _).subset hi

instance (l : List Item) : Decidable (OneBlock l) := decidable_of_iff _ laterNames_eq_nil_iff

theorem plain_of_mem_names (h : w ∈ names l) : Plain w := by
  obtain ⟨i, -, hi⟩ := List.mem_filterMap.1 h
  cases i with
  | name w' plain =>
    cases hi
    exact plain
  | use u => cases hi

theorem parse_line (l : List Item) :
    parse (line l) =
      if laterNames l = [] then .ok (asked l) else .error (.unrecognized (laterNames l)) := by
  obtain ⟨hwords, hextras⟩ := Reading.foldl_ahead (r := {}) rfl l
  have hextras : (l.foldl Reading.take {}).extras = laterNames l := hextras
  rw [parse, readWords_line]
  show (if (l.foldl Reading.take {}).extras.isEmpty then
      .ok { (l.foldl Reading.take {}).args with only := blockNames (l.foldl Reading.take {}).block }
    else .error (.unrecognized (l.foldl Reading.take {}).extras) : Reader Arguments) = _
  rw [hextras, args_foldl_take]
  by_cases hlater : laterNames l = []
  · have hnames : names l = firstNames l := by rw [names_eq_append, hlater, List.append_nil]
    have hend : "--" ∉ names l := fun h => plain_of_mem_names h rfl
    rw [blockNames, hwords, ← hnames, List.erase_of_not_mem hend, if_pos hlater, hlater, ← asked_eq]
    rfl
  · rw [if_neg hlater, if_neg]
    rwa [List.isEmpty_iff]

theorem text_unrecognized (ws : List String) : (UsageError.unrecognized ws).text =
    usage ++ "milner: error: unrecognized arguments: " ++ " ".intercalate ws ++ "\n" := by
  have hjoin : "milner: error: unrecognized arguments: " =
      "milner: error: " ++ "unrecognized arguments: " := by decide
  unfold UsageError.text UsageError.message
  dsimp only
  rw [hjoin, ← String.append_assoc, ← String.append_assoc]

/-- Names that stand together are read, wherever they stand among the options.  Otherwise all names
behind the first block are refused. -/
theorem parse_items (l : List Item) :
    (OneBlock l → parse (line l) = .ok (asked l)) ∧
      (¬ OneBlock l → parse (line l) = .error (.unrecognized (laterNames l)) ∧
        ∀ m : Machine, m.run (line l) = (.exit 2, { m with
          err := m.err ++ (usage ++ "milner: error: unrecognized arguments: "
            ++ " ".intercalate (laterNames l) ++ "\n") })) := by
  constructor
  · intro h
    rw [parse_line, if_pos (laterNames_eq_nil_iff.2 h)]
  · intro h
    have hparse : parse (line l) = .error (.unrecognized (laterNames l)) := by
      rw [parse_line, if_neg fun hnil => h (laterNames_eq_nil_iff.1 hnil)]
    refine ⟨hparse, fun m => ?_⟩
    rw [m.run_of_parse_error hparse, text_unrecognized]
    rfl

def splitItems : List Item :=
  [.name "a" (by decide), .use (.switch .version "-v" (by decide)),
    .use (.out "-o" (by decide) "x" (by decide)), .name "b" (by decide), .name "c" (by decide)]

def joinedItems : List Item :=
  [.use (.switch .version "-v" (by decide)), .use (.out "-o" (by decide) "x" (by decide)),
    .name "a" (by decide), .name "b" (by decide), .name "c" (by decide)]

theorem parse_items_of_split :
    parse ["a", "-v", "-o", "x", "b", "c"] = .error (.unrecognized ["b", "c"]) ∧
      parse ["-v", "-o", "x", "a", "b", "c"] =
        .ok { only := ["a", "b", "c"], showVersion := true, out := some "x" } := by
  constructor
  · exact ((parse_items splitItems).2 (by decide)).1
  · exact (parse_items joinedItems).1 (by decide)

end LetPoly.CommandLine
