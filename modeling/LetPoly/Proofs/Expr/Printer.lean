import LetPoly.Expr
import LetPoly.Proofs.Text.Brackets

/-!
# Reading an expression back

The text of an expression is a text in brackets: an application is a group of two items, a function
one of four, and a local definition one of six.  The number of items and the word in front tell the
kinds apart, so names may be words like `fn` or `in` themselves, and they may be empty.

* `Expr.bracketed`       an expression as a text in brackets; `toList_text` says that it is its text;
* `Expr.parse?`          reads a text in brackets and takes it for an expression;
* `Expr.text_unambiguous`   parsing gives an expression back from its text, so no two have the same.
-/

namespace LetPoly

namespace Expr

open Bracketed

/-- all names in an expression, parameters and targets of definitions included -/
def words : Expr → List String
  | name x => [x]
  | fn p body => p :: body.words
  | app f a => f.words ++ a.words
  | letIn x value body => x :: (value.words ++ body.words)
  | letRec x value body => x :: (value.words ++ body.words)

/-- no name has a space or a round bracket inside -/
def Plain (e : Expr) : Prop := ∀ x ∈ e.words, roundBrackets.Free x.toList

instance (e : Expr) : Decidable e.Plain :=
  inferInstanceAs (Decidable (∀ x ∈ e.words, roundBrackets.Free x.toList))

def bracketed : Expr → Bracketed Char
  | name x => atom x.toList
  | fn p body => group [atom "fn".toList, atom p.toList, atom "=>".toList] body.bracketed
  | app f a => group [f.bracketed] a.bracketed
  | letIn x value body =>
    group [atom "let".toList, atom x.toList, atom "=".toList, value.bracketed, atom "in".toList]
      body.bracketed
  | letRec x value body =>
    group [atom "letrec".toList, atom x.toList, atom "=".toList, value.bracketed, atom "in".toList]
      body.bracketed

/-- the expression that a text in brackets is one of, if it is -/
def ofBracketed? : Bracketed Char → Option Expr
  | atom cs => some (name (String.ofList cs))
  | group [f] a => do return app (← ofBracketed? f) (← ofBracketed? a)
  | group [atom word, atom p, atom arrow] body =>
    if word = "fn".toList ∧ arrow = "=>".toList then do
      return fn (String.ofList p) (← ofBracketed? body)
    else none
  | group [atom word, atom x, atom equals, value, atom within] body =>
    if equals = "=".toList ∧ within = "in".toList then
      if word = "let".toList then do
        return letIn (String.ofList x) (← ofBracketed? value) (← ofBracketed? body)
      else if word = "letrec".toList then do
        return letRec (String.ofList x) (← ofBracketed? value) (← ofBracketed? body)
      else none
    else none
  | _ => none

/-- the expression with a text -/
def parse? (text : String) : Option Expr := (read? roundBrackets text.toList).bind ofBracketed?

theorem toList_text (e : Expr) : e.text.toList = e.bracketed.chars roundBrackets := by
  induction e with
  | name x => rfl
  | fn p body ih => simp [text, bracketed, chars, charsAll, roundBrackets, ih]
  | app f a ihf iha => simp [text, bracketed, chars, charsAll, roundBrackets, ihf, iha]
  | letIn x value body ihv ihb => simp [text, bracketed, chars, charsAll, roundBrackets, ihv, ihb]
  | letRec x value body ihv ihb => simp [text, bracketed, chars, charsAll, roundBrackets, ihv, ihb]

theorem ofBracketed?_bracketed (e : Expr) : ofBracketed? e.bracketed = some e := by
  induction e with
  | name x => simp [bracketed, ofBracketed?]
  | fn p body ih => simp [bracketed, ofBracketed?, ih]
  | app f a ihf iha => simp [bracketed, ofBracketed?, ihf, iha]
  | letIn x value body ihv ihb => simp [bracketed, ofBracketed?, ihv, ihb]
  | letRec x value body ihv ihb => simp [bracketed, ofBracketed?, ihv, ihb]

theorem plain_parts {x : String} {value body : Expr}
    (h : ∀ y ∈ x :: (value.words ++ body.words), roundBrackets.Free y.toList) :
    roundBrackets.Free x.toList ∧ value.Plain ∧ body.Plain := by
  rw [List.forall_mem_cons, List.forall_mem_append] at h
  exact h

theorem plain_definition {word x : String} {value body : Bracketed Char}
    (hword : roundBrackets.Free word.toList) (hx : roundBrackets.Free x.toList)
    (hvalue : value.Plain roundBrackets) (hbody : body.Plain roundBrackets) :
    (group [atom word.toList, atom x.toList, atom "=".toList, value, atom "in".toList]
      body).Plain roundBrackets := by
  refine .group (fun t ht => ?_) hbody
  simp only [List.mem_cons, List.not_mem_nil, or_false] at ht
  rcases ht with rfl | rfl | rfl | rfl | rfl
  · exact .atom hword
  · exact .atom hx
  · exact .atom (by decide)
  · exact hvalue
  · exact .atom (by decide)

theorem plain_bracketed {e : Expr} (h : e.Plain) : e.bracketed.Plain roundBrackets := by
  induction e with
  | name x => exact .atom (h x List.mem_cons_self)
  | fn p body ih =>
    obtain ⟨hp, hbody⟩ := List.forall_mem_cons.1 h
    refine .group (fun t ht => ?_) (ih hbody)
    simp only [List.mem_cons, List.not_mem_nil, or_false] at ht
    rcases ht with rfl | rfl | rfl
    · exact .atom (by decide)
    · exact .atom hp
    · exact .atom (by decide)
  | app f a ihf iha =>
    obtain ⟨hf, ha⟩ := List.forall_mem_append.1 h
    refine .group (fun t ht => ?_) (iha ha)
    rw [List.mem_singleton.1 ht]
    exact ihf hf
  | letIn x value body ihv ihb =>
    obtain ⟨hx, hvalue, hbody⟩ := plain_parts h
    exact plain_definition (by decide) hx (ihv hvalue) (ihb hbody)
  | letRec x value body ihv ihb =>
    obtain ⟨hx, hvalue, hbody⟩ := plain_parts h
    exact plain_definition (by decide) hx (ihv hvalue) (ihb hbody)

theorem parse?_text {e : Expr} (h : e.Plain) : parse? e.text = some e := by
  rw [parse?, toList_text, read?_chars (plain_bracketed h), Option.bind_some,
    ofBracketed?_bracketed]

/-- expressions with the same text are the same, and parsing the text gives the expression back -/
theorem text_unambiguous {a b : Expr} (ha : a.Plain) (hb : b.Plain) :
    (a.text = b.text ↔ a = b) ∧ parse? a.text = some a := by
  refine ⟨⟨fun h => ?_, fun h => h ▸ rfl⟩, parse?_text ha⟩
  have hparse := parse?_text ha
  rw [h, parse?_text hb] at hparse
  exact (Option.some.inj hparse).symm

/-- a definition of `in`, whose value and body have keywords and empty names in them -/
def definitionOfIn (define : String → Expr → Expr → Expr) : Expr :=
  define "in" (.fn "fn" (.name "")) (.app (.name "=>") (.name "letrec"))

/-- as a recursive one it has another text, and either is what its own text is read as -/
theorem text_unambiguous_of_keywords :
    (definitionOfIn letIn).text ≠ (definitionOfIn letRec).text ∧
      parse? "(let in = (fn fn => ) in (=> letrec))" = some (definitionOfIn letIn) ∧
      parse? "(letrec in = (fn fn => ) in (=> letrec))" = some (definitionOfIn letRec) := by
  have hlet := text_unambiguous (show (definitionOfIn letIn).Plain by decide)
    (show (definitionOfIn letRec).Plain by decide)
  have hrec := text_unambiguous (show (definitionOfIn letRec).Plain by decide)
    (show (definitionOfIn letIn).Plain by decide)
  have hdistinct : definitionOfIn letIn ≠ definitionOfIn letRec := by decide
  exact ⟨fun h => hdistinct (hlet.1.1 h), hlet.2, hrec.2⟩

end Expr
end LetPoly
