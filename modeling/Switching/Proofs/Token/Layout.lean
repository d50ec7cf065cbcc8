import Switching.Proofs.Token.Kinds

/-!
# Texts with the same tokens

Blanks and comments stand between tokens and mean nothing else. Texts of tokens that stand apart from
each other are therefore scanned to those tokens again, whatever stands between them.

* `Gap`: blanks and whole lines of comment. `Gap.skipTrivia`, `Gap.endsWord`: it is skipped, and it
  ends a word.
* `LaidOut words cs`: the text `cs` is the words in this order, with gaps around them.
* **`lexes_of_laidOut`**: texts of tokens, laid out, have these tokens.
-/

namespace Switching

/-! ## Gaps -/

/-- Blanks, and comments with the ends of their lines. -/
inductive Gap : List Char → Prop where
  | nil : Gap []
  | blank {c : Char} {cs : List Char} (hc : isBlank c = true) (hcs : Gap cs) : Gap (c :: cs)
  | comment {c : Char} {body cs : List Char} (hbody : ∀ d ∈ body, isLineBreak d = false)
    (hc : isLineBreak c = true) (hcs : Gap cs) : Gap ('/' :: '/' :: (body ++ c :: cs))

variable {gap cs : List Char} {ls : List Lexeme}

theorem skipTrivia_comment {c : Char} {body : List Char} (hbody : ∀ d ∈ body, isLineBreak d = false)
    (hc : isLineBreak c = true) (offset : Nat) (cs : List Char) :
    skipTrivia true offset (body ++ c :: cs) =
      skipTrivia false (offset + byteLength body + c.utf8Size) cs := by
  induction body generalizing offset with
  | nil => simp [skipTrivia, hc, byteLength]
  | cons d body ih =>
    rw [List.forall_mem_cons] at hbody
    rw [List.cons_append, skipTrivia, if_pos rfl, hbody.1, Bool.not_false, ih hbody.2, byteLength,
      Nat.add_assoc offset]

theorem Gap.skipTrivia (h : Gap gap) (offset : Nat) (cs : List Char) :
    ∃ offset', Switching.skipTrivia false offset (gap ++ cs) =
      Switching.skipTrivia false offset' cs := by
  induction h generalizing offset with
  | nil => exact ⟨offset, rfl⟩
  | @blank c gap hc _ ih =>
    rw [List.cons_append, Switching.skipTrivia, if_neg Bool.false_ne_true, if_pos hc]
    exact ih _
  | @comment c body gap hbody hc _ ih =>
    rw [List.cons_append, List.cons_append, List.append_assoc, List.cons_append,
      skipTrivia_slashes, skipTrivia_comment hbody hc]
    exact ih _

theorem isWordPart_of_isBlank {c : Char} (h : isBlank c = true) : isWordPart c = false := by
  simp only [isBlank, Bool.or_eq_true, decide_eq_true_eq] at h
  rcases h with ((rfl | rfl) | rfl) | rfl <;> rfl

theorem Gap.endsWord (h : Gap gap) (hne : gap ≠ []) (cs : List Char) : EndsWord (gap ++ cs) := by
  cases h with
  | nil => exact absurd rfl hne
  | blank hc _ => exact endsWord_cons (isWordPart_of_isBlank hc) _
  | comment => exact endsWord_cons rfl _

theorem Gap.lexes (h : Gap gap) (hcs : Lexes cs ls) : Lexes (gap ++ cs) ls := by
  intro offset
  obtain ⟨offset', hskip⟩ := h.skipTrivia offset cs
  rw [scanFrom_congr hskip]
  exact hcs offset'

/-! ## Words with gaps -/

/-- The words in this order, with a gap after each. Between two words it is not empty. -/
inductive Spaced : List String → List Char → Prop where
  | nil : Spaced [] []
  | cons {w : String} {words : List String} {gap cs : List Char} (hgap : Gap gap)
    (hapart : words ≠ [] → gap ≠ []) (hcs : Spaced words cs) :
    Spaced (w :: words) (w.toList ++ (gap ++ cs))

/-- The words in this order, with gaps before, after and between them. -/
def LaidOut (words : List String) (cs : List Char) : Prop :=
  ∃ gap body, cs = gap ++ body ∧ Gap gap ∧ Spaced words body

theorem Spaced.endsWord {words : List String} (h : Spaced words cs) (hgap : Gap gap)
    (hapart : words ≠ [] → gap ≠ []) : EndsWord (gap ++ cs) := by
  by_cases hne : gap = []
  · subst hne
    cases h with
    | nil => exact endsWord_nil
    | cons => exact absurd rfl (hapart (List.cons_ne_nil _ _))
  · exact hgap.endsWord hne cs

theorem Spaced.lexes (hls : ∀ l ∈ ls, l.terminal.IsText l.text)
    (h : Spaced (ls.map Lexeme.text) cs) : Lexes cs ls := by
  induction ls generalizing cs with
  | nil =>
    cases h
    exact lexes_nil
  | cons l ls ih =>
    rw [List.forall_mem_cons] at hls
    cases h with
    | cons hgap hapart hcs =>
      have hhead := munch?_of_isText hls.1 (hcs.endsWord hgap hapart)
      have hlexes := lexes_of_munch? hhead (hgap.lexes (ih hls.2 hcs))
      rwa [String.ofList_toList] at hlexes

/-- **Texts of tokens, laid out,** have these tokens. -/
theorem lexes_of_laidOut (hls : ∀ l ∈ ls, l.terminal.IsText l.text)
    (h : LaidOut (ls.map Lexeme.text) cs) : Lexes cs ls := by
  obtain ⟨gap, body, rfl, hgap, hbody⟩ := h
  exact hgap.lexes (hbody.lexes hls)

end Switching
