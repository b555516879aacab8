import LetPoly.Program
import LetPoly.Proofs.CommandLine
import LetPoly.Proofs.FileTree
import LetPoly.Proofs.NameSupply

/-!
# One text, written to one place

A run of the program that is refused leaves the files and the standard output alone.  Any other run
writes one text to the one place that its command line names, as long as the display names in it are
characters (`Machine.run_writes_once`).  How far the names get is known from the command line
(`Options.nextCode`).  A text whose names go past the first surrogate has no bytes: the run ends over
it, with the output file emptied.

The output file is opened before the text is there.  So the steps after it start on a machine that is
`Opened`, and end on one that is `Answered`; both speak of the machine that the run began with.
-/

namespace LetPoly

open CommandLine StoreM Text

/-- the run ended before it came to its text -/
def Ending.Refused : Ending → Prop
  | .exit status => status = Program.statusUsage ∨ status = Program.statusNoOutput
  | .escaped (.failure _) => False
  | .escaped (.unencodable _) => False
  | .escaped _ => True

/-! ## what a command line asks for -/

namespace CommandLine

variable {argv : List String} {args : Arguments} {format : Format} {path : String}

end CommandLine

/-! ## the text -/

namespace Options

variable {o : Options} {text : String}

/-- the exit status and the text for the user: the help, the version, or the outcome of the checks -/
def reply (o : Options) : StoreM (Nat × String) :=
  if o.showHelp then return (0, CommandLine.help)
  else if o.showVersion then return (0, CommandLine.version)
  else o.checkExamples

def status (o : Options) : Nat :=
  if o.showHelp ∨ o.showVersion then 0
  else if ∃ x ∈ o.only, Examples.get? x = none then statusUnknown
  else statusChecked

theorem unknown_eq_nil_iff (o : Options) :
    o.unknown = [] ↔ ¬ ∃ x ∈ o.only, Examples.get? x = none := by
  simp [unknown, List.filter_eq_nil_iff]

/-- where the display names go on after the text -/
def nextCode (o : Options) : Nat :=
  if o.showHelp ∨ o.showVersion ∨ o.unknown ≠ [] then 'α'.toNat
  else o.firstCode + Examples.lettersOf o.format o.selected

def codes (o : Options) (text : String) : List Nat :=
  if o.showHelp ∨ o.showVersion then codePoints text else Program.outcomeCodes o text

/-- the code points that are written have a surrogate exactly if the names go past the first one -/
structure Encodes (o : Options) (text : String) : Prop where
  noFault_iff : encodeFault? 0 (o.codes text) = none ↔ o.nextCode ≤ surrogates
  text_eq : o.nextCode ≤ surrogates → ofCodePoints (o.codes text) = text
  codes_eq : surrogates < o.nextCode → o.codes text = shownCodes text

theorem Encodes.of_codePoints (hcodes : o.codes text = codePoints text)
    (hnext : o.nextCode = 'α'.toNat) : o.Encodes text where
  noFault_iff := by
    rw [hcodes, hnext]
    exact iff_of_true (encodeFault?_codePoints text) (by decide)
  text_eq _ := by rw [hcodes, ofCodePoints_codePoints]
  codes_eq h := by
    rw [hnext] at h
    exact absurd h (by decide)

theorem Encodes.of_shownCodes (hcodes : o.codes text = shownCodes text)
    (hstand : HasStandIn text ↔ surrogates < o.nextCode) : o.Encodes text where
  noFault_iff := by rw [hcodes, encodeFault?_shownCodes, hstand, Nat.not_lt]
  text_eq h := by
    rw [hcodes]
    exact ofCodePoints_shownCodes fun hs => absurd (hstand.1 hs) (Nat.not_lt.2 h)
  codes_eq _ := hcodes

theorem ends_unknown (h : o.unknown ≠ []) :
    Ends o.checkExamples {} (fun r _ => r.1 = statusUnknown) never := by
  have hsome : o.unknown.isEmpty = false := by simpa using h
  rw [checkExamples, hsome]
  exact rfl

theorem ends_checked (h : o.unknown = []) :
    Ends o.checkExamples {}
      (fun r _ => r.1 = statusChecked ∧
        o.firstCode + Examples.lettersOf o.format o.selected ≤ labelBound ∧
        (HasStandIn r.2 ↔ surrogates < o.firstCode + Examples.lettersOf o.format o.selected))
      fun f _ => f = .namesExhausted ∧
        labelBound < o.firstCode + Examples.lettersOf o.format o.selected := by
  have hknown : ∀ x ∈ o.only, x ∈ Examples.names := by
    rw [unknown_eq, List.filter_eq_nil_iff] at h
    simpa using h
  refine ((o.ends_known hknown).and (o.standIns_known hknown)).mono (fun r _ hr => ?_)
    fun f _ hf => hf.1
  obtain ⟨⟨hstatus, hbound, -⟩, hstand⟩ := hr
  exact ⟨hstatus, hbound, hstand⟩

/-- only the supply of display names can keep a run from its text -/
theorem ends_reply (o : Options) :
    Ends o.reply {} (fun r _ => r.1 = o.status ∧ o.nextCode ≤ labelBound ∧ o.Encodes r.2)
      fun f _ => f = .namesExhausted ∧ labelBound < o.nextCode := by
  have hfirst : 'α'.toNat ≤ labelBound := by decide
  rw [reply, status]
  by_cases hhelp : o.showHelp = true
  · have hnext : o.nextCode = 'α'.toNat := if_pos (.inl hhelp)
    rw [if_pos hhelp, if_pos (.inl hhelp), hnext]
    exact ⟨rfl, hfirst, .of_codePoints (if_pos (.inl hhelp)) hnext⟩
  by_cases hversion : o.showVersion = true
  · have hnext : o.nextCode = 'α'.toNat := if_pos (.inr (.inl hversion))
    rw [if_neg hhelp, if_pos hversion, if_pos (.inr hversion), hnext]
    exact ⟨rfl, hfirst, .of_codePoints (if_pos (.inr hversion)) hnext⟩
  have hcheck : ¬ (o.showHelp = true ∨ o.showVersion = true) := not_or.2 ⟨hhelp, hversion⟩
  have hcodes (text : String) : o.codes text = Program.outcomeCodes o text := if_neg hcheck
  rw [if_neg hhelp, if_neg hversion, if_neg hcheck]
  by_cases hunknown : o.unknown = []
  · have hnext : o.nextCode = o.firstCode + Examples.lettersOf o.format o.selected :=
      if_neg (by simp [hhelp, hversion, hunknown])
    have hshown (text : String) : o.codes text = shownCodes text := by
      rw [hcodes, Program.outcomeCodes, hunknown]
      rfl
    rw [if_neg ((unknown_eq_nil_iff o).1 hunknown), hnext]
    refine (ends_checked hunknown).ok_mono fun r _ h => ?_
    obtain ⟨hstatus, hbound, hstand⟩ := h
    exact ⟨hstatus, hbound, .of_shownCodes (hshown r.2) (hnext ▸ hstand)⟩
  · have hnext : o.nextCode = 'α'.toNat := if_pos (.inr (.inr hunknown))
    have hplain (text : String) : o.codes text = codePoints text := by
      rw [hcodes, Program.outcomeCodes, if_neg (by simpa using hunknown)]
    rw [if_pos (not_not.1 fun h => hunknown ((unknown_eq_nil_iff o).2 h)), hnext]
    exact (ends_unknown hunknown).safe.ok_mono fun r _ h =>
      ⟨h, hfirst, .of_codePoints (hplain r.2) hnext⟩

theorem not_refused (o : Options) : ¬ (Ending.exit o.status).Refused := by
  rw [status]
  split_ifs
  all_goals exact not_or.2 ⟨nofun, nofun⟩

end Options

namespace Machine

variable {m m₁ m₂ : Machine} {o : Options} {target : Target}

/-! ## what the steps of a run change -/

/-- nothing was written; the notes may differ -/
structure Same (m m' : Machine) : Prop where
  out : m'.out = m.out
  err : m'.err = m.err
  tree : m'.tree = m.tree

theorem Same.refl (m : Machine) : m.Same m := ⟨rfl, rfl, rfl⟩

theorem Same.trans (h₁ : m.Same m₁) (h₂ : m₁.Same m₂) : m.Same m₂ :=
  ⟨h₂.out.trans h₁.out, h₂.err.trans h₁.err, h₂.tree.trans h₁.tree⟩

/-- the place for the text was opened; at most its file is new -/
def Opened (m : Machine) (m' : Machine) : Target → Prop
  | .file path => m'.out = m.out ∧ m'.err = m.err ∧ m.tree.Opened path m'.tree
  | _ => m.Same m'

def Wrote (m : Machine) (text : String) (m' : Machine) : Target → Prop
  | .out => m'.out = m.out ++ text ∧ m'.err = m.err ∧ m'.tree = m.tree
  | .err => m'.out = m.out ∧ m'.err = m.err ++ text ∧ m'.tree = m.tree
  | .file path => m'.out = m.out ∧ m'.err = m.err ∧ m.tree.Written path text m'.tree

/-- the place for the text was opened, and a file there is empty now -/
def Emptied (m : Machine) (m' : Machine) : Target → Prop
  | .file path => m'.out = m.out ∧ m'.err = m.err ∧ m.tree.Written path "" m'.tree
  | _ => m.Same m'

/-- How a run ends that is not refused.  While all names in the text are characters, the text is in its
place.  A text with a surrogate goes to the error stream with escapes, and nowhere else; and if there
are not enough names, there is no text. -/
inductive Answered (m : Machine) (o : Options) : Target → Ending → Machine → Prop where
  | text {target : Target} {text : String} {s : Store} {m' : Machine}
      (names : o.nextCode ≤ surrogates) (reply : o.reply.run {} = .ok (o.status, text) s)
      (wrote : m.Wrote text m' target) : Answered m o target (.exit o.status) m'
  | escaped {text : String} {s : Store} {m' : Machine}
      (names : surrogates < o.nextCode ∧ o.nextCode ≤ labelBound)
      (reply : o.reply.run {} = .ok (o.status, text) s)
      (wrote : m.Wrote (Text.escaped (shownCodes text)) m' .err) :
      Answered m o .err (.exit o.status) m'
  | unencodable {target : Target} {text : String} {s : Store} {fault : EncodeFault} {m' : Machine}
      (names : surrogates < o.nextCode ∧ o.nextCode ≤ labelBound)
      (reply : o.reply.run {} = .ok (o.status, text) s) (stream : target ≠ .err)
      (found : encodeFault? 0 (shownCodes text) = some fault) (emptied : m.Emptied m' target) :
      Answered m o target (.escaped (.unencodable fault)) m'
  | noNames {target : Target} {s : Store} {m' : Machine} (names : labelBound < o.nextCode)
      (reply : o.reply.run {} = .error .namesExhausted s) (opened : m.Opened m' target) :
      Answered m o target (.escaped (.failure .namesExhausted)) m'

theorem same_notes (l : List Event) (m : Machine) : m.Same ((l.forM host.note).run m).2 := by
  induction l generalizing m with
  | nil => exact .refl m
  | cons e l ih =>
    have hnote : m.Same ((host.note e).run m).2 := ⟨rfl, rfl, rfl⟩
    exact hnote.trans (ih _)

theorem Same.opened (h : m₁.Same m₂) (ho : m.Opened m₁ target) : m.Opened m₂ target := by
  cases target with
  | out => exact Same.trans ho h
  | err => exact Same.trans ho h
  | file path =>
    obtain ⟨hout, herr, htree⟩ := ho
    exact ⟨h.out.trans hout, h.err.trans herr, h.tree ▸ htree⟩

theorem finish_written {ns : List Nat} (ho : m.Opened m₁ target) (hns : encodeFault? 0 ns = none)
    (status : Nat) :
    ∃ m₂, (Program.finish host target status ns).run m₁ = (.exit status, m₂) ∧
      m.Wrote (ofCodePoints ns) m₂ target := by
  cases target with
  | out =>
    refine ⟨{ m₁ with out := m₁.out ++ ofCodePoints ns }, ?_,
      congrArg (· ++ ofCodePoints ns) ho.out, ho.err, ho.tree⟩
    rw [Program.finish, Program.write, hns]
    rfl
  | err =>
    refine ⟨{ m₁ with err := m₁.err ++ Text.escaped ns }, rfl, ho.out, ?_, ho.tree⟩
    rw [← escaped_of_noFault hns]
    exact congrArg (· ++ Text.escaped ns) ho.err
  | file path =>
    obtain ⟨hout, herr, htree⟩ := ho
    refine ⟨{ m₁ with tree := m₁.tree.writeFile path (ofCodePoints ns) }, ?_, hout, herr,
      htree.write (ofCodePoints ns)⟩
    rw [Program.finish, Program.write, hns]
    rfl

theorem finish_escaped (ho : m.Opened m₁ .err) (status : Nat) (ns : List Nat) :
    ∃ m₂, (Program.finish host .err status ns).run m₁ = (.exit status, m₂) ∧
      m.Wrote (Text.escaped ns) m₂ .err :=
  ⟨_, rfl, ho.out, congrArg (· ++ Text.escaped ns) ho.err, ho.tree⟩

/-- no other place takes a text with a surrogate -/
theorem finish_unencodable {ns : List Nat} {fault : EncodeFault} (ho : m.Opened m₁ target)
    (htarget : target ≠ .err) (hns : encodeFault? 0 ns = some fault) (status : Nat) :
    ∃ m₂, (Program.finish host target status ns).run m₁ = (.escaped (.unencodable fault), m₂) ∧
      m.Emptied m₂ target := by
  cases target with
  | out =>
    refine ⟨m₁, ?_, ho⟩
    rw [Program.finish, Program.write, hns]
    rfl
  | err => exact absurd rfl htarget
  | file path =>
    obtain ⟨hout, herr, htree⟩ := ho
    refine ⟨{ m₁ with tree := m₁.tree.writeFile path "" }, ?_, hout, herr, htree.write ""⟩
    rw [Program.finish, Program.write, hns]
    rfl

theorem run_openFile (m : Machine) (path : String) :
    (host.openFile path).run m =
      match m.tree.openFile path with
      | .ok tree => (.ok (), { m with tree })
      | .error fault => (.error fault, m) := by
  unfold host
  cases h : m.tree.openFile path with
  | ok tree =>
    simp only [StateT.run_bind, StateT.run_get, pure_bind, h]
    rfl
  | error fault =>
    simp only [StateT.run_bind, StateT.run_get, pure_bind, h]
    rfl

theorem answered_finish {status : Nat} {text : String} {s : Store}
    (hreply : o.reply.run {} = .ok (status, text) s) (l : List Event) (ho : m.Opened m₁ target) :
    m.Answered o target
      ((Program.finish host target status (o.codes text)).run ((l.forM host.note).run m₁).2).1
      ((Program.finish host target status (o.codes text)).run ((l.forM host.note).run m₁).2).2 := by
  obtain ⟨hstatus, hbound, hencodes⟩ := o.ends_reply.ok hreply
  dsimp only at hstatus hencodes
  subst hstatus
  have hopened := (same_notes l m₁).opened ho
  by_cases hnext : o.nextCode ≤ surrogates
  · obtain ⟨m₂, hrun, hwrote⟩ := finish_written hopened (hencodes.noFault_iff.2 hnext) o.status
    rw [hencodes.text_eq hnext] at hwrote
    rw [hrun]
    exact .text hnext hreply hwrote
  · have hcodes := hencodes.codes_eq (Nat.lt_of_not_le hnext)
    have hnames : surrogates < o.nextCode ∧ o.nextCode ≤ labelBound :=
      ⟨Nat.lt_of_not_le hnext, hbound⟩
    obtain ⟨fault, hfault⟩ := Option.ne_none_iff_exists'.1 fun h => hnext (hencodes.noFault_iff.1 h)
    by_cases htarget : target = .err
    · subst htarget
      obtain ⟨m₂, hrun, hwrote⟩ := finish_escaped hopened o.status (o.codes text)
      rw [hrun]
      rw [hcodes] at hwrote
      exact .escaped hnames hreply hwrote
    · obtain ⟨m₂, hrun, hemptied⟩ := finish_unencodable hopened htarget hfault o.status
      rw [hrun]
      rw [hcodes] at hfault
      exact .unencodable hnames hreply htarget hfault hemptied

theorem answered_answer (o : Options) (ho : m.Opened m₁ target) :
    m.Answered o target ((Program.answer host o target).run m₁).1
      ((Program.answer host o target).run m₁).2 := by
  rw [Program.answer]
  by_cases hhelp : o.showHelp = true
  · rw [if_pos hhelp]
    have hreply : o.reply.run {} = .ok (0, CommandLine.help) {} := by
      rw [Options.reply, if_pos hhelp]
      rfl
    have hcodes : o.codes CommandLine.help = codePoints CommandLine.help := if_pos (.inl hhelp)
    rw [← hcodes]
    exact answered_finish hreply [.helpShown] ho
  by_cases hversion : o.showVersion = true
  · rw [if_neg hhelp, if_pos hversion]
    have hreply : o.reply.run {} = .ok (0, CommandLine.version) {} := by
      rw [Options.reply, if_neg hhelp, if_pos hversion]
      rfl
    have hcodes : o.codes CommandLine.version = codePoints CommandLine.version :=
      if_pos (.inr hversion)
    rw [← hcodes]
    exact answered_finish hreply [.versionShown] ho
  rw [if_neg hhelp, if_neg hversion]
  have hreply : o.reply = o.checkExamples := by rw [Options.reply, if_neg hhelp, if_neg hversion]
  cases hrun : o.checkExamples.run {} with
  | ok r s =>
    have hcodes : o.codes r.2 = Program.outcomeCodes o r.2 :=
      if_neg (not_or.2 ⟨hhelp, hversion⟩)
    show m.Answered o target
      ((Program.finish host target r.1 (Program.outcomeCodes o r.2)).run
        ((s.events.toList.forM host.note).run m₁).2).1
      ((Program.finish host target r.1 (Program.outcomeCodes o r.2)).run
        ((s.events.toList.forM host.note).run m₁).2).2
    rw [← hcodes]
    exact answered_finish (hreply ▸ hrun) s.events.toList ho
  | error f s =>
    obtain ⟨rfl, hnames⟩ := o.ends_reply.error (hreply ▸ hrun)
    exact .noNames hnames (hreply ▸ hrun) ((same_notes s.events.toList m₁).opened ho)

theorem Answered.not_refused {e : Ending} (h : m.Answered o target e m₁) : ¬ e.Refused := by
  cases h with
  | text => exact o.not_refused
  | escaped => exact o.not_refused
  | unencodable => exact id
  | noNames => exact id

variable {argv : List String} {args : Arguments} {format : Format} {path : String}

theorem run_of_parse (h : parse argv = .ok args) (m : Machine) :
    m.run argv = (Program.start host args).run m := by
  rw [run, Program.run, h]

/-- a run whose output file was opened comes to its text -/
theorem answered_run (hparse : parse argv = .ok args) (hformat : args.format = some format)
    (hout : args.out = some path) (htarget : Target.of path = .file path) {tree : FileTree}
    (h : m.tree.openFile path = .ok tree) :
    m.Answered (Program.options args format) (.file path) (m.run argv).1 (m.run argv).2 := by
  have hopen : (Program.openTarget host (.file path)).run m = (.ok (), { m with tree }) := by
    rw [Program.openTarget, run_openFile, h]
  have hopened : m.Opened { m with tree } (.file path) := ⟨rfl, rfl, FileTree.open_ok h⟩
  rw [run_of_parse hparse, Program.start, hformat, hout]
  dsimp only
  rw [htarget, StateT.run_bind, hopen]
  exact answered_answer (Program.options args format) hopened

theorem run_of_parse_error {e : UsageError} (h : parse argv = .error e) (m : Machine) :
    m.run argv = (.exit Program.statusUsage, { m with err := m.err ++ e.text }) := by
  rw [run, Program.run, h]
  rfl

end Machine
end LetPoly
