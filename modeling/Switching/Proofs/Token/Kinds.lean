import Switching.Proofs.Token.Lexeme

/-!
# The texts of tokens

* `Terminal.IsText`: the texts of the tokens of a kind. A word is an identifier unless it is a keyword.
* `munch?_of_isText`, `Munch.isText`: a token of the kind is found at such a text, and only there.
* **`terminal_eq_iff`**: what kind a token of a text is, is said by its own text.
-/

namespace Switching

namespace Terminal

/-- The texts of the tokens of a kind. -/
def IsText (k : Terminal) (s : String) : Prop :=
  match k with
  | lparen => s = "("
  | rparen => s = ")"
  | star => s = "*"
  | comma => s = ","
  | colon => s = ":"
  | semicolon => s = ";"
  | equals => s = "="
  | lbrace => s = "\x7b"
  | rbrace => s = "\x7d"
  | builtin f => s = f.keyword
  | operator op => s = op.keyword
  | .not => s = "not"
  | table => s = "table"
  | string => ∃ u : String, '"' ∉ u.toList ∧ s = "\"" ++ u ++ "\""
  | digits => s ≠ "" ∧ ∀ c ∈ s.toList, isBinaryDigit c = true
  | identifier => isIdentifier s = true

theorem isText_of_ofMark? {c : Char} {k : Terminal} (h : ofMark? c = some k) :
    k.IsText (String.singleton c) := by
  unfold ofMark? at h
  split at h <;> cases h <;> rfl

theorem isText_ofWord {w : String} (h : isWord w.toList = true) : (ofWord w).IsText w := by
  unfold ofWord
  split
  case h_1 f _ hf =>
    have hkeyword := List.find?_some hf
    exact (of_decide_eq_true hkeyword).symm
  case h_2 op _ hop =>
    have hkeyword := List.find?_some hop
    exact (of_decide_eq_true hkeyword).symm
  case h_3 hbuiltin hoperator =>
    split
    case isTrue hnot => exact hnot
    case isFalse hnot =>
      split
      case isTrue htable => exact htable
      case isFalse htable =>
        have hword : w ∉ keywords := by
          simp only [keywords, List.mem_append, not_or]
          exact ⟨⟨find?_eq_none_iff_not_mem_map.1 hbuiltin, find?_eq_none_iff_not_mem_map.1 hoperator⟩,
            by simp [hnot, htable]⟩
        simp [IsText, isIdentifier, h, hword]

theorem isText_string {cs rest : List Char} {q : Char} (h : cs.dropWhile (· ≠ '"') = q :: rest) :
    string.IsText (String.ofList ('"' :: cs.takeWhile (· ≠ '"') ++ [q])) := by
  have hhead := List.head?_dropWhile_not (· ≠ '"') cs
  rw [h] at hhead
  obtain rfl : q = '"' := by simpa using hhead
  refine ⟨String.ofList (cs.takeWhile (· ≠ '"')), fun hmem => ?_, ?_⟩
  · rw [String.toList_ofList] at hmem
    exact absurd (List.mem_takeWhile_imp hmem) (by simp)
  · rw [← String.toList_inj]
    simp

theorem isText_digits {c : Char} (h : isBinaryDigit c = true) (cs : List Char) :
    digits.IsText (String.ofList (c :: cs.takeWhile isBinaryDigit)) := by
  refine ⟨by simp, fun d hd => ?_⟩
  rw [String.toList_ofList] at hd
  rcases List.mem_cons.1 hd with rfl | hd
  · exact h
  · exact List.mem_takeWhile_imp hd

end Terminal

open Terminal

variable {k : Terminal} {s : String} {cs rest : List Char} {m : Munch} {source : String}

theorem munch?_text {w : String} (h : isWord w.toList = true) (hrest : EndsWord rest) :
    munch? (w.toList ++ rest) = some ⟨ofWord w, w.toList, rest⟩ := by
  rw [munch?_word h hrest, String.ofList_toList]

/-- A text of a token is one token, of its kind, wherever no word goes on after it. -/
theorem munch?_of_isText (h : k.IsText s) (hrest : EndsWord rest) :
    munch? (s.toList ++ rest) = some ⟨k, s.toList, rest⟩ := by
  cases k with
  | builtin f =>
    cases h
    rw [munch?_text (isWord_builtin f) hrest, ofWord_builtin]
  | operator op =>
    cases h
    rw [munch?_text (isWord_operator op) hrest, ofWord_operator]
  | not =>
    cases h
    exact munch?_text (by decide) hrest
  | table =>
    cases h
    exact munch?_text (by decide) hrest
  | string =>
    obtain ⟨u, hu, rfl⟩ := h
    simpa using munch?_string hu rest
  | digits => exact munch?_digits (by simpa using h.1) h.2 hrest
  | identifier =>
    rw [munch?_text (isWord_of_isIdentifier h) hrest, ofWord_of_isIdentifier h]
  | _ =>
    cases h
    exact munch?_mark (by decide) rest

theorem Munch.isText (h : munch? cs = some m) : m.terminal.IsText (String.ofList m.chars) := by
  cases cs with
  | nil => cases h
  | cons c cs =>
    simp only [munch?] at h
    split at h
    · rename_i k hk
      cases h
      exact isText_of_ofMark? hk
    split at h
    · rename_i hquote
      split at h <;> cases h
      subst hquote
      exact isText_string ‹_›
    split at h
    · rename_i hdigit
      cases h
      exact isText_digits hdigit cs
    split at h <;> cases h
    rename_i hstart
    refine isText_ofWord ?_
    rw [String.toList_ofList, isWord, Bool.and_eq_true, List.all_eq_true]
    exact ⟨hstart, fun d hd => List.mem_takeWhile_imp hd⟩

theorem Terminal.IsText.unique {k' : Terminal} (h : k.IsText s) (h' : k'.IsText s) : k = k' := by
  have hmunch := (munch?_of_isText h endsWord_nil).symm.trans (munch?_of_isText h' endsWord_nil)
  exact congrArg Munch.terminal (Option.some.inj hmunch)

theorem Terminal.IsText.ne_empty (h : k.IsText s) : s.toList ≠ [] := by
  intro hs
  have hmunch := munch?_of_isText h endsWord_nil
  rw [hs] at hmunch
  cases hmunch

theorem isText_of_mem_scanFrom (offset : Nat) {t : Token} (ht : t ∈ (scanFrom offset cs).tokens) :
    t.terminal.IsText t.text := by
  induction offset, cs using scanFrom.induct with
  | case1 offset cs trivia hnone =>
    rw [scanFrom_of_none hnone] at ht
    cases ht
  | case2 offset cs trivia m hm stop ih =>
    rw [scanFrom_of_some hm] at ht
    rcases List.mem_cons.1 ht with rfl | ht
    · exact Munch.isText hm
    · exact ih ht

theorem isText_of_mem_lexemes {l : Lexeme} (hl : l ∈ (scan source).tokens.map Token.lexeme) :
    l.terminal.IsText l.text := by
  obtain ⟨t, ht, rfl⟩ := List.mem_map.1 hl
  exact isText_of_mem_scanFrom 0 ht

/-- **The kinds of the tokens of a text.** -/
theorem terminal_eq_iff {t : Token} (ht : t ∈ (scan source).tokens) :
    t.terminal = k ↔ k.IsText t.text := by
  have htext := isText_of_mem_scanFrom 0 ht
  constructor
  · rintro rfl
    exact htext
  · exact fun h => htext.unique h

end Switching
