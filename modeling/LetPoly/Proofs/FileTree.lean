import LetPoly.FileTree

/-!
# The file that a path names

A path reaches a file if it leads to one, or to a place in a folder where there is none yet
(`FileTree.Reaches`).  Opening a path creates the file at most, and the path leads to it afterwards;
so what is written then becomes its text, and no other file changes.

* `FileTree.text?_setText`   one file gets a text, the others keep theirs;
* `FileTree.open_ok`         opening changes at most a file that was missing (`FileTree.Opened`);
* `FileTree.Opened.write`    writing then replaces the text of this one file (`FileTree.Written`).
-/

namespace LetPoly.FileTree

variable {t t' : FileTree} {p q here ns : Names} {path text : String}

/-! ## texts -/

theorem lookup_put (p q : Names) (text : String) (l : List (Names × String)) :
    (put p text l).lookup q = if q = p then some text else l.lookup q := by
  induction l with
  | nil =>
    rw [put, List.lookup_cons, List.lookup_nil]
    by_cases h : q = p
    · rw [if_pos h, beq_iff_eq.2 h]
    · rw [if_neg h, beq_eq_false_iff_ne.2 h]
  | cons f fs ih =>
    obtain ⟨r, old⟩ := f
    rw [put]
    by_cases hr : r = p
    · subst hr
      rw [if_pos rfl, List.lookup_cons, List.lookup_cons]
      by_cases h : q = r
      · rw [if_pos h, beq_iff_eq.2 h]
      · rw [if_neg h, beq_eq_false_iff_ne.2 h]
    · rw [if_neg hr, List.lookup_cons, List.lookup_cons, ih]
      by_cases h : q = r
      · subst h
        simp only [if_neg hr]
      · rw [beq_eq_false_iff_ne.2 h]

theorem text?_setText (t : FileTree) (p q : Names) (text : String) :
    (t.setText p text).text? q = if q = p then some text else t.text? q := lookup_put p q text t.files

theorem text?_setText_self (t : FileTree) (p : Names) (text : String) :
    (t.setText p text).text? p = some text := by
  rw [text?_setText, if_pos rfl]

theorem text?_setText_of_ne (t : FileTree) (h : q ≠ p) (text : String) :
    (t.setText p text).text? q = t.text? q := by
  rw [text?_setText, if_neg h]

theorem put_put (p : Names) (old text : String) (l : List (Names × String)) :
    put p text (put p old l) = put p text l := by
  induction l with
  | nil => exact if_pos rfl
  | cons f fs ih =>
    rw [put, put]
    by_cases h : f.1 = p
    · rw [if_pos h, if_pos h, put, if_pos rfl]
    · rw [if_neg h, if_neg h, put, if_neg h, ih]

theorem setText_setText (t : FileTree) (p : Names) (old text : String) :
    (t.setText p old).setText p text = t.setText p text := by
  rw [setText, setText, setText, put_put]

/-! ## places -/

/-- `path` leads to the file `p`, or to the place in a folder where it would be -/
def Reaches (t : FileTree) (path : String) (p : Names) : Prop :=
  t.locate path = .file p ∨ t.locate path = .vacant p

/-- once there is a file, the way that led to its place leads to it -/
theorem walk_setText (h : t.walk here ns = .file p ∨ t.walk here ns = .vacant p) (text : String) :
    (t.setText p text).walk here ns = .file p := by
  induction ns generalizing here with
  | nil =>
    rw [walk] at h
    rcases h with h | h <;> cases h
  | cons n ns ih =>
    have hfolder : (t.setText p text).isFolder = t.isFolder := rfl
    rw [walk] at h ⊢
    rw [hfolder]
    by_cases hup : n = ".."
    · rw [if_pos hup] at h ⊢
      exact ih h
    by_cases hlong : Path.maxName < n.utf8ByteSize
    · rw [if_neg hup, if_pos hlong] at h
      rcases h with h | h <;> cases h
    rw [if_neg hup, if_neg hlong] at h ⊢
    by_cases hin : t.isFolder (here ++ [n])
    · simp only [if_pos hin] at h ⊢
      exact ih h
    simp only [if_neg hin] at h ⊢
    -- the way ends here, at the place of the file
    have hlast : ns.isEmpty ∧ here ++ [n] = p := by
      split at h <;> split at h <;> rcases h with h | h <;> cases h
      · exact ⟨‹_›, rfl⟩
      · exact ⟨‹_›, rfl⟩
    obtain ⟨hempty, rfl⟩ := hlast
    rw [text?_setText_self, Option.isSome_some, if_pos rfl, if_pos hempty]

theorem locate_setText (h : t.Reaches path p) (text : String) :
    (t.setText p text).locate path = .file p := by
  unfold Reaches locate at h
  rw [locate]
  split at h
  · rcases h with h | h <;> cases h
  · next hlong =>
    rw [if_neg hlong]
    exact walk_setText h text

/-! ## opening and writing -/

/-- `path` leads to a file now: the one that was there, or a new and empty one -/
def Opened (t : FileTree) (path : String) (t' : FileTree) : Prop :=
  ∃ p, t.Reaches path p ∧ t'.locate path = .file p ∧
    (t' = t ∨ (t.locate path = .vacant p ∧ t' = t.setText p ""))

/-- the file that `path` names has this text now, and all others are as before -/
def Written (t : FileTree) (path text : String) (t' : FileTree) : Prop :=
  ∃ p, t.Reaches path p ∧ t'.locate path = .file p ∧ t' = t.setText p text ∧
    t'.text? p = some text ∧ ∀ q, q ≠ p → t'.text? q = t.text? q

theorem written_setText (h : t.Reaches path p) (text : String) :
    t.Written path text (t.setText p text) :=
  ⟨p, h, locate_setText h text, rfl, text?_setText_self t p text,
    fun _ hq => text?_setText_of_ne t hq text⟩

theorem open_ok (h : t.openFile path = .ok t') : t.Opened path t' := by
  rw [openFile] at h
  split at h
  · cases h
  · split at h
    · cases h
    · next p hp =>
      cases h
      exact ⟨p, .inl hp, hp, .inl rfl⟩
    · next p hp =>
      split at h
      · cases h
      · cases h
        exact ⟨p, .inr hp, locate_setText (.inr hp) "", .inr ⟨hp, rfl⟩⟩
    all_goals cases h

/-- what is written to a path that was opened replaces the text that its file had at first -/
theorem Opened.write (h : t.Opened path t') (text : String) :
    t.Written path text (t'.writeFile path text) := by
  obtain ⟨p, hreach, hfile, hopened⟩ := h
  have hset : t'.writeFile path text = t.setText p text := by
    rw [writeFile, hfile]
    obtain rfl | ⟨-, rfl⟩ := hopened
    · rfl
    · exact setText_setText t p "" text
  rw [hset]
  exact written_setText hreach text

end LetPoly.FileTree
