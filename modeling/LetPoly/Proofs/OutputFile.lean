import LetPoly.Proofs.Program

/-!
# Output files that cannot be opened

A path is refused if it leads to a folder, if the folder that it leads into is missing, or if its file
is missing and may not be made there (`FileTree.Refuses`).  Then the program ends with status 66 and
one report, and changes no file; no other output file gives this status.  A path that goes on below a
plain file is not among them: there the program ends over a fault that nobody takes care of, and says
nothing (`Machine.run_output`).  Which paths do, and which lead into a missing folder, can be told
from their parts (`FileTree.walk_beyond_iff`).
-/

namespace LetPoly

open CommandLine

/-- where a way ends that goes on beyond this place, if it ends at all -/
def Place.beyond : Place → Option Place
  | file _ => some belowFile
  | vacant _ => some nowhere
  | _ => none

namespace FileTree

variable {t : FileTree} {here ns : Names} {path : String} {fault : OutputFault}

/-! ## ways that end early -/

theorem walk_cons (t : FileTree) (here : Names) (n : String) :
    (∃ q, ∀ ns, t.walk here (n :: ns) = t.walk q ns) ∨
      ∃ e, (e = .tooLong ∨ e.beyond.isSome) ∧
        ∀ ns, t.walk here (n :: ns) = if ns.isEmpty then e else e.beyond.getD .tooLong := by
  by_cases hup : n = ".."
  · exact .inl ⟨here.dropLast, fun ns => by rw [walk, if_pos hup]⟩
  by_cases hlong : Path.maxName < n.utf8ByteSize
  · refine .inr ⟨.tooLong, .inl rfl, fun ns => ?_⟩
    rw [walk, if_neg hup, if_pos hlong]
    split <;> rfl
  by_cases hin : t.isFolder (here ++ [n])
  · refine .inl ⟨here ++ [n], fun ns => ?_⟩
    rw [walk, if_neg hup, if_neg hlong]
    exact if_pos hin
  by_cases htext : (t.text? (here ++ [n])).isSome
  · refine .inr ⟨.file (here ++ [n]), .inr rfl, fun ns => ?_⟩
    rw [walk, if_neg hup, if_neg hlong]
    simp only [if_neg hin, if_pos htext]
    rfl
  · refine .inr ⟨.vacant (here ++ [n]), .inr rfl, fun ns => ?_⟩
    rw [walk, if_neg hup, if_neg hlong]
    simp only [if_neg hin, if_neg htext]
    rfl

/-- a way leads below a file exactly if a part of it leads to that file, and into a folder that is
missing exactly if a part of it leads to the place of that folder -/
theorem walk_beyond_iff {e : Place} (he : e = .belowFile ∨ e = .nowhere) : t.walk here ns = e ↔
    ∃ pre rest, ns = pre ++ rest ∧ rest ≠ [] ∧ (t.walk here pre).beyond = some e := by
  induction ns generalizing here with
  | nil =>
    constructor
    · rw [walk]
      rintro rfl
      rcases he with he | he <;> cases he
    · rintro ⟨pre, rest, h, hne, -⟩
      exact absurd (List.append_eq_nil_iff.1 h.symm).2 hne
  | cons n ns ih =>
    constructor
    · intro h
      obtain ⟨q, hq⟩ | ⟨e', he', hstop⟩ := walk_cons t here n
      · rw [hq, ih] at h
        obtain ⟨pre, rest, rfl, hne, hpre⟩ := h
        exact ⟨n :: pre, rest, rfl, hne, by rwa [hq]⟩
      · -- the way stops at its first name, and goes on
        rw [hstop] at h
        split at h
        · subst h
          rcases he with rfl | rfl <;> rcases he' with he' | he' <;> cases he'
        · next hrest =>
          refine ⟨[n], ns, rfl, by simpa using hrest, ?_⟩
          rw [hstop, List.isEmpty_nil, if_pos rfl]
          rcases he' with rfl | hsome
          · subst h
            rcases he with he | he <;> cases he
          · obtain ⟨b, hb⟩ := Option.isSome_iff_exists.1 hsome
            rw [hb, Option.getD_some] at h
            rw [hb, h]
    · rintro ⟨pre, rest, hns, hne, hpre⟩
      cases pre with
      | nil => cases hpre
      | cons n' pre =>
        obtain ⟨rfl, rfl⟩ := List.cons.inj hns
        obtain ⟨q, hq⟩ | ⟨e', he', hstop⟩ := walk_cons t here n
        · rw [hq] at hpre ⊢
          exact ih.2 ⟨pre, rest, rfl, hne, hpre⟩
        · rw [hstop] at hpre ⊢
          split at hpre
          · next hempty =>
            obtain rfl := List.isEmpty_iff.1 hempty
            rw [if_neg (by simpa using hne), hpre, Option.getD_some]
          · -- nothing lies beyond what is beyond a place already
            exfalso
            rcases he' with rfl | hsome
            · cases hpre
            · cases e' <;> cases hsome <;> cases hpre

/-! ## paths that are refused -/

/-- why `path` cannot be opened as a file, for the reasons that the user is told -/
inductive Refuses (t : FileTree) (path : String) : OutputFault → Prop where
  | folder {p : Names} (h : t.locate path = .folder p) : Refuses t path .pathIsFolder
  | nowhere (h : t.locate path = .nowhere) : Refuses t path .fileNotFound
  | locked {p : Names} (h : t.locate path = .vacant p) (hlocked : t.locked p) :
    Refuses t path .noPermission

theorem openFile_refused_iff (hnul : path.contains '\x00' = false) :
    t.openFile path = .error (.refused fault) ↔ t.Refuses path fault := by
  rw [openFile, hnul]
  simp only [Bool.false_eq_true, if_false]
  constructor
  · intro h
    split at h
    · next q hq =>
      cases h
      exact .folder hq
    · cases h
    · next q hq =>
      split at h
      · next hlocked =>
        cases h
        exact .locked hq hlocked
      · cases h
    · next hq =>
      cases h
      exact .nowhere hq
    · cases h
    · cases h
  · intro h
    cases h with
    | folder h => rw [h]
    | nowhere h => rw [h]
    | locked h hlocked =>
      rw [h]
      simp only [hlocked, if_true]

end FileTree

namespace Machine

variable {m : Machine} {argv : List String} {args : Arguments} {format : Format} {path : String}
  {fault : OutputFault}

/-! ## runs -/

theorem run_openFault (hparse : parse argv = .ok args) (hformat : args.format = some format)
    (hout : args.out = some path) (htarget : Target.of path = .file path) {e : OpenFault}
    (h : m.tree.openFile path = .error e) :
    m.run argv = (match e with
      | .refused fault => (.exit Program.statusNoOutput,
        { m with
          err := m.err ++ Program.refusal fault path
          events := m.events.push (.outputRefused path) })
      | e => (.escaped (.openFault e), m)) := by
  have hopen : (Program.openTarget host (Target.of path)).run m = (.error e, m) := by
    rw [htarget, Program.openTarget, run_openFile, h]
  rw [run_of_parse hparse, Program.start, hformat, hout]
  dsimp only
  rw [StateT.run_bind, hopen]
  cases e <;> rfl

theorem exits_iff (hparse : parse argv = .ok args) (hformat : args.format = some format)
    (hout : args.out = some path) (htarget : Target.of path = .file path)
    (hnul : path.contains '\x00' = false) :
    (m.run argv).1 = .exit Program.statusNoOutput ↔ ∃ fault, m.tree.Refuses path fault := by
  cases h : m.tree.openFile path with
  | ok tree =>
    constructor
    · intro hexit
      refine absurd ?_ (answered_run hparse hformat hout htarget h).not_refused
      rw [hexit]
      exact .inr rfl
    · rintro ⟨fault, hfault⟩
      rw [(FileTree.openFile_refused_iff hnul).2 hfault] at h
      cases h
  | error e =>
    rw [run_openFault hparse hformat hout htarget h]
    cases e with
    | refused fault => exact ⟨fun _ => ⟨fault, (FileTree.openFile_refused_iff hnul).1 h⟩, fun _ => rfl⟩
    | _ =>
      constructor
      · intro hexit
        cases hexit
      · rintro ⟨fault, hfault⟩
        rw [(FileTree.openFile_refused_iff hnul).2 hfault] at h
        cases h

theorem openFile_belowFile (h : m.tree.locate path = .belowFile)
    (hnul : path.contains '\x00' = false) :
    m.tree.openFile path = .error (.belowFile (Path.normalized path)) := by
  rw [FileTree.openFile, hnul, h]
  rfl

/-- an output file whose path is refused ends the run with status 66 and one report, nothing else is
written and no file changes; only such a path gives this status, and one that goes on below a plain
file ends the run without a report -/
theorem run_output (m : Machine) (hparse : parse argv = .ok args)
    (hformat : args.format = some format) (hout : args.out = some path) (hstdout : path ≠ "stdout")
    (hstderr : path ≠ "stderr") (hnul : path.contains '\x00' = false) :
    ((m.run argv).1 = .exit 66 ↔ ∃ fault, m.tree.Refuses path fault) ∧
      (∀ fault, m.tree.Refuses path fault → m.run argv = (.exit 66, { m with
        err := m.err ++ Program.refusal fault path
        events := m.events.push (.outputRefused path) })) ∧
      (m.tree.locate path = .belowFile →
        m.run argv = (.escaped (.openFault (.belowFile (Path.normalized path))), m)) := by
  have htarget : Target.of path = .file path := by
    rw [Target.of, if_neg hstdout, if_neg hstderr]
  refine ⟨exits_iff hparse hformat hout htarget hnul, fun fault hfault => ?_, fun hbelow => ?_⟩
  · have hopen := (FileTree.openFile_refused_iff hnul).2 hfault
    rw [run_openFault hparse hformat hout htarget hopen]
    rfl
  · have hopen := openFile_belowFile hbelow hnul
    rw [run_openFault hparse hformat hout htarget hopen]

def withNotes : Machine := { tree := { files := [(["notes"], "hi")] } }

/-- the folder of the output file is missing -/
theorem run_output_of_missing : withNotes.run ["-o", "missing/out.txt"] = (.exit 66, { withNotes with
    err := Program.refusal .fileNotFound "missing/out.txt"
    events := #[.outputRefused "missing/out.txt"] }) := by
  have hparse : parse ["-o", "missing/out.txt"] = .ok { out := some "missing/out.txt" } := rfl
  have hrun := run_output withNotes hparse rfl rfl (by decide) (by decide) (by simp)
  exact hrun.2.1 .fileNotFound (.nowhere (by decide))

/-- a plain file stands where the folder of the output file should be -/
theorem belowNotes_unreported : withNotes.tree.locate "notes/out.txt" = .belowFile ∧
    withNotes.run ["-o", "notes/out.txt"]
      = (.escaped (.openFault (.belowFile "notes/out.txt")), withNotes) := by
  have hparse : parse ["-o", "notes/out.txt"] = .ok { out := some "notes/out.txt" } := rfl
  have hbelow : withNotes.tree.locate "notes/out.txt" = .belowFile := by decide
  refine ⟨hbelow, ?_⟩
  rw [run_openFault hparse rfl rfl rfl (openFile_belowFile hbelow (by simp))]
  rfl

end Machine
end LetPoly
