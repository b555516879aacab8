import LetPoly.Proofs.CommandLine

/-!
# Command lines item by item

An `Item` is a part of a command line as a user means it: the name of an example, some switches, or
an option with the value behind it.  The words of an item are read at one go, so a whole line of
items is read item by item (`readWords_line`).

What the options come to can be told from the items as well: a switch is on if an item turns it on
(`switch_read`), and of several values of an option the last one counts (`out_read`, `format_read`).
-/

namespace LetPoly.CommandLine

def Plain (w : String) : Prop := w.toList.head? ≠ some '-'

instance (w : String) : Decidable (Plain w) := inferInstanceAs (Decidable (_ ≠ _))

/-- a letter that stands for a switch behind a single hyphen -/
structure Letter where
  char : Char
  switch : Switch
  mem : String.ofList ['-', char] ∈ (Opt.switch switch).names

def Letter.setting (x : Letter) : Setting := .on x.switch

/-- a use of options, with the values behind them -/
inductive Use where
  | switch (s : Switch) (w : String) (mem : w ∈ (Opt.switch s).names)
  /-- several switches in one word -/
  | row (first second : Letter) (rest : List Letter)
  | out (w : String) (mem : w ∈ Opt.out.names) (path : String) (plain : Plain path)
  | format (w : String) (mem : w ∈ Opt.format.names) (f : Format)

inductive Item where
  | name (w : String) (plain : Plain w)
  | use (u : Use)

namespace Use

def words : Use → List String
  | switch _ w _ => [w]
  | row first second rest =>
    [String.ofList ('-' :: first.char :: second.char :: rest.map Letter.char)]
  | out w _ path _ => [w, path]
  | format w _ f => [w, f.name]

def switches : Use → List Switch
  | switch s _ _ => [s]
  | row first second rest => (first :: second :: rest).map Letter.switch
  | out _ _ _ _ | format _ _ _ => []

def path? : Use → Option String
  | out _ _ path _ => some path
  | _ => none

def format? : Use → Option Format
  | format _ _ f => some f
  | _ => none

def settings : Use → List Setting
  | switch s _ _ => [.on s]
  | row first second rest => (first :: second :: rest).map Letter.setting
  | out _ _ path _ => [.value .out path]
  | format _ _ f => [.value .format f.name]

end Use

namespace Item

def words : Item → List String
  | name w _ => [w]
  | use u => u.words

def isName : Item → Bool
  | name _ _ => true
  | use _ => false

def name? : Item → Option String
  | name w _ => some w
  | use _ => none

def use? : Item → Option Use
  | name _ _ => none
  | use u => some u

end Item

/-- the words of some items, one after the other -/
def line (l : List Item) : List String := l.flatMap Item.words

def uses (l : List Item) : List Use := l.filterMap Item.use?

variable {o : Opt} {w : String} {r : Reading}

/-! ## what the words of items are -/

theorem wordOf_plain (h : Plain w) : Word.of w = .name := by
  rw [Word.of]
  split
  · next c cs hw =>
    rw [Plain, hw] at h
    exact absurd rfl h
  · rfl

theorem mem_all (o : Opt) : o ∈ Opt.all := by
  cases o with
  | switch s => cases s <;> decide
  | out => decide
  | format => decide

theorem find?_of_mem (h : w ∈ o.names) : Opt.find? w = some o := by
  have hall : ∀ o ∈ Opt.all, ∀ w ∈ o.names, Opt.find? w = some o := by decide +kernel
  exact hall o (mem_all o) w h

theorem wordOf_mem (h : w ∈ o.names) : ∃ long, Word.of w = .option o long none := by
  have hall : ∀ o ∈ Opt.all, ∀ w ∈ o.names,
      Word.of w = .option o (w.toList[1]? = some '-') none := by decide +kernel
  exact ⟨_, hall o (mem_all o) w h⟩

namespace Letter

theorem short (x : Letter) : Opt.findLetter? x.char = some (.switch x.switch) := find?_of_mem x.mem

theorem char_ne (x : Letter) {c : Char} (hc : ∀ o ∈ Opt.all, String.ofList ['-', c] ∉ o.names) :
    x.char ≠ c := by
  intro heq
  exact hc _ (mem_all _) (heq ▸ x.mem)

theorem ne_hyphen (x : Letter) : x.char ≠ '-' := x.char_ne (by decide +kernel)

theorem ne_equals (x : Letter) : x.char ≠ '=' := x.char_ne (by decide +kernel)

end Letter

/-- a single hyphen with at least two characters is the name of no option -/
theorem find?_row {c d : Char} {cs : List Char} (hc : c ≠ '-') :
    Opt.find? (String.ofList ('-' :: c :: d :: cs)) = none := by
  have hall : ∀ o ∈ Opt.all, ∀ w ∈ o.names, w.toList.length = 2 ∨ w.toList[1]? = some '-' := by
    decide +kernel
  rw [Opt.find?, List.find?_eq_none]
  intro o ho hw
  rcases hall o ho _ (List.contains_iff_mem.1 hw) with h | h
  · rw [String.toList_ofList] at h
    simp at h
  · rw [String.toList_ofList] at h
    simp [hc] at h

theorem splitEquals?_eq_none {cs : List Char} (h : '=' ∉ cs) : splitEquals? cs = none := by
  induction cs with
  | nil => rfl
  | cons c cs ih =>
    rw [List.mem_cons, not_or] at h
    rw [splitEquals?.eq_def]
    split
    · rfl
    · next heq =>
      cases heq
      exact absurd rfl h.1
    · next heq =>
      cases heq
      rw [ih h.2]
      rfl

theorem wordOf_row (x y : Letter) (zs : List Letter) :
    Word.of (String.ofList ('-' :: x.char :: y.char :: zs.map Letter.char)) =
      .option (.switch x.switch) false (some (String.ofList (y.char :: zs.map Letter.char))) := by
  have hend : String.ofList ('-' :: x.char :: y.char :: zs.map Letter.char) ≠ "--" := by
    intro h
    have hlist := congrArg String.toList h
    rw [String.toList_ofList] at hlist
    simp at hlist
  have hequals : '=' ∉ '-' :: x.char :: y.char :: zs.map Letter.char := by
    simp only [List.mem_cons, List.mem_map, not_or, not_exists, not_and]
    exact ⟨by decide, x.ne_equals.symm, y.ne_equals.symm, fun z _ => z.ne_equals⟩
  have hletter : withLetter? ('-' :: x.char :: y.char :: zs.map Letter.char) =
      some (.option (.switch x.switch) false
        (some (String.ofList (y.char :: zs.map Letter.char)))) := by
    rw [withLetter?.eq_def]
    simp [x.ne_hyphen, x.short]
  rw [Word.of, String.toList_ofList]
  split
  · next c cs heq =>
    cases heq
    rw [if_neg hend, find?_row x.ne_hyphen, withEquals?, splitEquals?_eq_none hequals, hletter]
    rfl
  · next hno => exact absurd rfl (hno _ _)

/-! ## reading items one by one -/

namespace Reading

def take (r : Reading) (i : Item) : Reading :=
  match i with
  | .name w _ => r.addName w
  | .use u => { r with args := u.settings.foldl Arguments.set r.args, block := r.block.close }

theorem setSwitch_eq (r : Reading) (s : Switch) :
    r.setSwitch s = { r with args := r.args.set (.on s) } := by cases s <;> rfl

theorem setValue_format (r : Reading) (f : Format) :
    r.setValue .format f.name = .ok { r with args := r.args.set (.value .format f.name) } := by
  cases f <;> rfl

theorem attachShort_row (r : Reading) (s : Switch) (x : Letter) (xs : List Letter) :
    r.attachShort (.switch s) ((x :: xs).map Letter.char) =
      .ok ({ r with args := (.on s :: (x :: xs).map Letter.setting).foldl Arguments.set r.args },
        none) := by
  induction xs generalizing r s x with
  | nil =>
    show r.attachShort (.switch s) [x.char] = _
    rw [attachShort.eq_def]
    dsimp only
    rw [x.short]
    show Except.ok ((r.setSwitch s).setSwitch x.switch, none) = _
    rw [setSwitch_eq, setSwitch_eq]
    rfl
  | cons y ys ih =>
    show r.attachShort (.switch s) (x.char :: (y :: ys).map Letter.char) = _
    rw [attachShort.eq_def]
    dsimp only
    rw [x.short]
    show (r.setSwitch s).attachShort (.switch x.switch) ((y :: ys).map Letter.char) = _
    rw [ih, setSwitch_eq]
    rfl

end Reading

theorem classify_cons (h : Word.of w ≠ .endOfOptions) (ws : List String) :
    classify (w :: ws) = (w, Word.of w) :: classify ws := by
  rw [classify]
  split
  · next heq => exact absurd heq h
  · rfl

theorem classify_plain (h : Plain w) (ws : List String) :
    classify (w :: ws) = (w, .name) :: classify ws := by
  have hw := wordOf_plain h
  rw [classify_cons (by rw [hw]; exact nofun), hw]

theorem plain_format (f : Format) : Plain f.name := by cases f <;> decide

theorem readWords_option {long : Bool} {attached : Option String} {r' : Reading} {p : Option Opt}
    (htake : { r with block := r.block.close }.takeOption o long attached = .ok (r', p))
    (w : String) (ws : List (String × Word)) :
    readWords r none ((w, .option o long attached) :: ws) = readWords r' p ws := by
  show ({ r with block := r.block.close }.takeOption o long attached >>= fun x =>
    readWords x.1 x.2 ws) = _
  rw [htake]
  rfl

theorem readWords_value {text : String} {r' : Reading} (hneeds : ∀ s, o ≠ .switch s)
    (hw : w ∈ o.names) (htext : Plain text)
    (hset : { r with block := r.block.close }.setValue o text = .ok r') (ws : List String) :
    readWords r none (classify (w :: text :: ws)) = readWords r' none (classify ws) := by
  obtain ⟨long, hword⟩ := wordOf_mem hw
  have htake : { r with block := r.block.close }.takeOption o long none =
      .ok ({ r with block := r.block.close }, some o) := by
    cases o with
    | switch s => exact absurd rfl (hneeds s)
    | out => rfl
    | format => rfl
  rw [classify_cons (by rw [hword]; exact nofun), classify_plain htext, hword,
    readWords_option htake]
  show ({ r with block := r.block.close }.setValue o text >>= fun x =>
    readWords x none (classify ws)) = _
  rw [hset]
  rfl

theorem readWords_use (r : Reading) (u : Use) (ws : List String) :
    readWords r none (classify (u.words ++ ws)) =
      readWords (r.take (.use u)) none (classify ws) := by
  cases u with
  | switch s w mem =>
    obtain ⟨long, hword⟩ := wordOf_mem mem
    have htake : { r with block := r.block.close }.takeOption (.switch s) long none =
        .ok (r.take (.use (.switch s w mem)), none) := by
      show Except.ok ({ r with block := r.block.close }.setSwitch s, none) = _
      rw [Reading.setSwitch_eq]
      rfl
    show readWords r none (classify (w :: ws)) = _
    rw [classify_cons (by rw [hword]; exact nofun), hword, readWords_option htake]
  | row x y zs =>
    have hword := wordOf_row x y zs
    have htake : { r with block := r.block.close }.takeOption (.switch x.switch) false
        (some (String.ofList (y.char :: zs.map Letter.char))) =
        .ok (r.take (.use (.row x y zs)), none) := by
      show { r with block := r.block.close }.attachShort (.switch x.switch)
        (String.ofList ((y :: zs).map Letter.char)).toList = _
      rw [String.toList_ofList, Reading.attachShort_row]
      rfl
    show readWords r none (classify (String.ofList _ :: ws)) = _
    rw [classify_cons (by rw [hword]; exact nofun), hword, readWords_option htake]
  | out w mem path plain =>
    have hset : { r with block := r.block.close }.setValue .out path =
        .ok (r.take (.use (.out w mem path plain))) := rfl
    exact readWords_value (by intro s h; cases h) mem plain hset ws
  | format w mem f =>
    have hset := Reading.setValue_format { r with block := r.block.close } f
    exact readWords_value (by intro s h; cases h) mem (plain_format f) hset ws

theorem readWords_item (r : Reading) (i : Item) (ws : List String) :
    readWords r none (classify (i.words ++ ws)) = readWords (r.take i) none (classify ws) := by
  cases i with
  | name w plain =>
    show readWords r none (classify (w :: ws)) = _
    rw [classify_plain plain]
    rfl
  | use u => exact readWords_use r u ws

theorem readWords_line (r : Reading) (l : List Item) :
    readWords r none (classify (line l)) = .ok (l.foldl Reading.take r) := by
  induction l generalizing r with
  | nil => rfl
  | cons i l ih =>
    show readWords r none (classify (i.words ++ line l)) = _
    rw [readWords_item, ih]
    rfl

/-! ## what the settings of items come to -/

theorem args_foldl_take (r : Reading) (l : List Item) :
    (l.foldl Reading.take r).args = ((uses l).flatMap Use.settings).foldl Arguments.set r.args := by
  induction l generalizing r with
  | nil => rfl
  | cons i l ih =>
    rw [List.foldl_cons, ih]
    cases i with
    | name w plain =>
      show ((uses l).flatMap Use.settings).foldl _ (r.addName w).args = _
      rw [args_addName]
      rfl
    | use u =>
      show ((uses l).flatMap Use.settings).foldl _ (u.settings.foldl Arguments.set r.args) = _
      rw [← List.foldl_append]
      rfl

theorem isOn_settings (s : Switch) (us : List Use) :
    isOn s (us.flatMap Use.settings) = decide (s ∈ us.flatMap Use.switches) := by
  have huse : ∀ u : Use, (u.settings.any fun x => x.turnsOn s) ↔ s ∈ u.switches := by
    intro u
    cases u with
    | switch t w mem => simp [Use.settings, Use.switches, Setting.turnsOn, eq_comm (a := s)]
    | row x y zs =>
      simp [Use.settings, Use.switches, Letter.setting, Setting.turnsOn, eq_comm (a := s)]
    | out w mem path plain => simp [Use.settings, Use.switches, Setting.turnsOn]
    | format w mem f => simp [Use.settings, Use.switches, Setting.turnsOn]
  rw [Bool.eq_iff_iff, isOn, List.any_flatMap, List.any_eq_true, decide_eq_true_iff,
    List.mem_flatMap]
  simp only [huse]

theorem lastValue_settings {value? : Use → Option String}
    (h : ∀ u : Use, u.settings.filterMap (Setting.valueOf? o) = (value? u).toList) (us : List Use) :
    lastValue o (us.flatMap Use.settings) = (us.filterMap value?).getLast? := by
  have hall : (us.flatMap Use.settings).filterMap (Setting.valueOf? o) = us.filterMap value? := by
    rw [List.filterMap_flatMap, List.filterMap_eq_flatMap_toList]
    simp only [h]
  rw [lastValue, hall]

theorem filterMap_row (hletter : ∀ s, Setting.valueOf? o (.on s) = none) (xs : List Letter) :
    (xs.map Letter.setting).filterMap (Setting.valueOf? o) = [] := by
  rw [List.filterMap_eq_nil_iff]
  intro x hx
  obtain ⟨y, -, rfl⟩ := List.mem_map.1 hx
  exact hletter y.switch

theorem lastValue_out (us : List Use) :
    lastValue .out (us.flatMap Use.settings) = (us.filterMap Use.path?).getLast? := by
  refine lastValue_settings (fun u => ?_) us
  cases u with
  | switch s w mem => rfl
  | row x y zs => exact filterMap_row (fun _ => rfl) _
  | out w mem path plain => rfl
  | format w mem f => rfl

theorem lastValue_format (us : List Use) :
    lastValue .format (us.flatMap Use.settings) =
      (us.filterMap Use.format?).getLast?.map Format.name := by
  rw [← List.getLast?_map, List.map_filterMap]
  refine lastValue_settings (fun u => ?_) us
  cases u with
  | switch s w mem => rfl
  | row x y zs => exact filterMap_row (fun _ => rfl) _
  | out w mem path plain => rfl
  | format w mem f => rfl

theorem valueText_plain (h : Plain w) : valueText w = some w := by
  have hne : w ≠ "--" := by
    rintro rfl
    exact h rfl
  rw [valueText, if_neg hne]

theorem out_read (us : List Use) :
    ((us.flatMap Use.settings).foldl Arguments.set {}).out =
      some ((us.filterMap Use.path?).getLast?.getD "stdout") := by
  have hread : ((us.flatMap Use.settings).foldl Arguments.set {}).out =
      (lastValue .out (us.flatMap Use.settings)).elim (some "stdout") valueText :=
    lastValue_foldl (fun _ _ => rfl) out_set_of_none {} _
  rw [hread, lastValue_out]
  cases hlast : (us.filterMap Use.path?).getLast? with
  | none => rfl
  | some path =>
    obtain ⟨u, -, hu⟩ := List.mem_filterMap.1 (List.mem_of_getLast? hlast)
    have hplain : Plain path := by
      cases u with
      | out w mem path' plain =>
        cases hu
        exact plain
      | switch s w mem => cases hu
      | row x y zs => cases hu
      | format w mem f => cases hu
    exact valueText_plain hplain

theorem format_read (us : List Use) :
    ((us.flatMap Use.settings).foldl Arguments.set {}).format =
      some ((us.filterMap Use.format?).getLast?.getD .short) := by
  have hread : ((us.flatMap Use.settings).foldl Arguments.set {}).format =
      (lastValue .format (us.flatMap Use.settings)).elim (some .short)
        fun text => (valueText text).bind formatNamed :=
    lastValue_foldl (fun _ _ => rfl) format_set_of_none {} _
  rw [hread, lastValue_format]
  cases (us.filterMap Use.format?).getLast? with
  | none => rfl
  | some f => cases f <;> rfl

theorem switch_read (s : Switch) (us : List Use) :
    ((us.flatMap Use.settings).foldl Arguments.set {}).switch s =
      decide (s ∈ us.flatMap Use.switches) := by
  rw [switch_foldl, isOn_settings]
  cases s <;> rfl

end LetPoly.CommandLine
