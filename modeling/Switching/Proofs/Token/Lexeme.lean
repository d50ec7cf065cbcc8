import Mathlib.Data.List.Forall2
import Mathlib.Data.List.TakeWhile
import Switching.Expr.Printer
import Switching.Token.Scan

/-!
# Texts and their tokens

* `munch?_mark`, `munch?_word`, `munch?_digits`, `munch?_string`: the token at the head of a text.
  A word or a number ends before a text that does not go on with it (`EndsWord`).
* `Lexeme`: a token without its place.
* `Lexes cs ls`: the text `cs` scans to `ls`, at whatever offset it begins.
* `Spells text ls`: before a text that ends a word, `text` scans to `ls`. It is what the text of a
  phrase keeps wherever the phrase stands.
* `isIdentifier`: the words that are not keywords.
* **`Spells.commaList`**: a list with commas scans to the tokens of its items with commas.
-/

namespace Switching

/-! ## Words -/

/-- The characters of a word. -/
def isWord : List Char → Bool
  | [] => false
  | c :: cs => isWordStart c && cs.all isWordPart

def keywords : List String :=
  Builtin.all.map Builtin.keyword ++ Operator.all.map Operator.keyword ++ ["not", "table"]

/-- The text is a word and no keyword. -/
def isIdentifier (n : String) : Bool := isWord n.toList && !keywords.contains n

theorem isWord_of_isIdentifier {n : String} (h : isIdentifier n = true) :
    isWord n.toList = true := by
  rw [isIdentifier, Bool.and_eq_true] at h
  exact h.1

theorem find?_eq_none_iff_not_mem_map {α : Type} {f : α → String} {xs : List α} {n : String} :
    xs.find? (f · = n) = none ↔ n ∉ xs.map f := by
  simp [List.find?_eq_none]

namespace Terminal

theorem ofWord_of_isIdentifier {n : String} (h : isIdentifier n = true) :
    ofWord n = identifier := by
  have hn : n ∉ keywords := by
    rw [isIdentifier, Bool.and_eq_true] at h
    simpa using h.2
  simp only [keywords, List.mem_append, not_or] at hn
  obtain ⟨⟨hbuiltin, hoperator⟩, hrest⟩ := hn
  rw [ofWord, Builtin.ofKeyword?, Operator.ofKeyword?, find?_eq_none_iff_not_mem_map.2 hbuiltin,
    find?_eq_none_iff_not_mem_map.2 hoperator]
  simp at hrest
  simp [hrest]

theorem ofWord_builtin (f : Builtin) : ofWord f.keyword = builtin f := by
  rw [ofWord, Builtin.ofKeyword?_keyword]

theorem ofWord_operator (op : Operator) : ofWord op.keyword = operator op := by
  cases op <;> rfl

end Terminal

theorem isWord_builtin (f : Builtin) : isWord f.keyword.toList = true := by cases f <;> rfl

theorem isWord_operator (op : Operator) : isWord op.keyword.toList = true := by cases op <;> rfl

/-! ## The token at the head -/

/-- The text does not begin with a letter, a digit or an underscore. -/
def EndsWord (cs : List Char) : Prop := ∀ c ∈ cs.head?, isWordPart c = false

theorem endsWord_nil : EndsWord [] := fun _ h => nomatch h

theorem endsWord_cons {c : Char} (h : isWordPart c = false) (cs : List Char) :
    EndsWord (c :: cs) := by
  rintro _ ⟨⟩
  exact h

theorem takeWhile_append_of_stops {p : Char → Bool} {cs rest : List Char}
    (hcs : ∀ c ∈ cs, p c = true) (hrest : ∀ c ∈ rest.head?, p c = false) :
    (cs ++ rest).takeWhile p = cs ∧ (cs ++ rest).dropWhile p = rest := by
  rw [List.takeWhile_append_of_pos hcs, List.dropWhile_append_of_pos hcs]
  cases rest with
  | nil => simp
  | cons c rest => simp [hrest c rfl]

theorem munch?_mark {c : Char} {t : Terminal} (h : Terminal.ofMark? c = some t)
    (rest : List Char) : munch? (c :: rest) = some ⟨t, [c], rest⟩ := by
  simp only [munch?, h]

theorem ofMark?_of_isWordPart {c : Char} (h : isWordPart c = true) :
    Terminal.ofMark? c = none := by
  unfold Terminal.ofMark?
  split
  case h_10 => rfl
  all_goals cases h

theorem isWordPart_of_isWordStart {c : Char} (h : isWordStart c = true) :
    isWordPart c = true := by
  simp only [isWordStart, isWordPart, Char.isAlphanum, Bool.or_eq_true] at h ⊢
  tauto

theorem isBinaryDigit_iff {c : Char} : isBinaryDigit c = true ↔ c = '0' ∨ c = '1' := by
  rw [isBinaryDigit, Bool.or_eq_true, decide_eq_true_eq, decide_eq_true_eq]

theorem isWordPart_of_isBinaryDigit {c : Char} (h : isBinaryDigit c = true) :
    isWordPart c = true := by
  rcases isBinaryDigit_iff.1 h with rfl | rfl <;> rfl

theorem isBinaryDigit_of_isWordStart {c : Char} (h : isWordStart c = true) :
    isBinaryDigit c = false := by
  rw [Bool.eq_false_iff]
  intro hd
  rcases isBinaryDigit_iff.1 hd with rfl | rfl <;> cases h

theorem ne_quote_of_isWordPart {c : Char} (h : isWordPart c = true) : c ≠ '"' := by
  rintro rfl
  cases h

theorem munch?_word {w rest : List Char} (h : isWord w = true) (hrest : EndsWord rest) :
    munch? (w ++ rest) = some ⟨.ofWord (String.ofList w), w, rest⟩ := by
  cases w with
  | nil => nomatch h
  | cons c cs =>
    rw [isWord, Bool.and_eq_true, List.all_eq_true] at h
    have hc := isWordPart_of_isWordStart h.1
    have hdigit := isBinaryDigit_of_isWordStart h.1
    obtain ⟨htake, hdrop⟩ := takeWhile_append_of_stops h.2 hrest
    simp only [List.cons_append, munch?, ofMark?_of_isWordPart hc,
      if_neg (ne_quote_of_isWordPart hc), hdigit, h.1, htake, hdrop, if_true, Bool.false_eq_true,
      if_false]

theorem munch?_digits {ds rest : List Char} (hds : ds ≠ [])
    (h : ∀ c ∈ ds, isBinaryDigit c = true) (hrest : EndsWord rest) :
    munch? (ds ++ rest) = some ⟨.digits, ds, rest⟩ := by
  cases ds with
  | nil => exact absurd rfl hds
  | cons c cs =>
    have hc := h c List.mem_cons_self
    have hrest' : ∀ d ∈ rest.head?, isBinaryDigit d = false := fun d hd =>
      Bool.eq_false_iff.2 fun hdigit =>
        Bool.eq_false_iff.1 (hrest d hd) (isWordPart_of_isBinaryDigit hdigit)
    obtain ⟨htake, hdrop⟩ :=
      takeWhile_append_of_stops (fun d hd => h d (List.mem_cons_of_mem _ hd)) hrest'
    simp only [List.cons_append, munch?, ofMark?_of_isWordPart (isWordPart_of_isBinaryDigit hc),
      if_neg (ne_quote_of_isWordPart (isWordPart_of_isBinaryDigit hc)), hc, htake, hdrop, if_true]

theorem munch?_string {cs : List Char} (h : '"' ∉ cs) (rest : List Char) :
    munch? ('"' :: cs ++ '"' :: rest) = some ⟨.string, '"' :: cs ++ ['"'], rest⟩ := by
  have hcs : ∀ c ∈ cs, decide (c ≠ '"') = true := fun c hc =>
    decide_eq_true fun heq => h (heq ▸ hc)
  have hstops : ∀ c ∈ ('"' :: rest).head?, decide (c ≠ '"') = false := by simp
  obtain ⟨htake, hdrop⟩ := takeWhile_append_of_stops hcs hstops
  have hmark : Terminal.ofMark? '"' = none := rfl
  simp only [List.cons_append, munch?, hmark, if_true, hdrop, htake]

/-! ## Scanning -/

/-- A token without its place. -/
structure Lexeme where
  terminal : Terminal
  text : String

def Token.lexeme (t : Token) : Lexeme := ⟨t.terminal, t.text⟩

/-- The mark `c`, of the kind `t`. -/
def Lexeme.mark (t : Terminal) (c : Char) : Lexeme := ⟨t, String.singleton c⟩

def Lexeme.name (n : String) : Lexeme := ⟨.identifier, n⟩

/-- The text `cs` has the tokens `ls`, and no part of it is no token. -/
def Lexes (cs : List Char) (ls : List Lexeme) : Prop :=
  ∀ offset, (scanFrom offset cs).tokens.map Token.lexeme = ls ∧
    (scanFrom offset cs).invalid? = none

/-- Where a token begins there is no blank and no comment. -/
theorem skipTrivia_of_munch? {cs : List Char} {m : Munch} (h : munch? cs = some m)
    (offset : Nat) : skipTrivia false offset cs = (offset, cs) := by
  cases cs with
  | nil => rfl
  | cons c cs =>
    have hblank : isBlank c = false := by
      rw [Bool.eq_false_iff]
      intro hc
      simp only [isBlank, Bool.or_eq_true, decide_eq_true_eq] at hc
      rcases hc with ((rfl | rfl) | rfl) | rfl <;> cases h
    have hslash : c ≠ '/' := by
      rintro rfl
      cases h
    simp [skipTrivia, hblank, hslash]

theorem skipTrivia_slashes (offset : Nat) (cs : List Char) :
    skipTrivia false offset ('/' :: '/' :: cs) = skipTrivia true (offset + 2) cs := by
  simp [skipTrivia, isBlank, isLineBreak]
  rfl

theorem scanFrom_of_none {offset : Nat} {cs : List Char}
    (h : munch? (skipTrivia false offset cs).2 = none) :
    scanFrom offset cs = ⟨[], if (skipTrivia false offset cs).2.isEmpty then none
      else some (skipTrivia false offset cs).1⟩ := by
  rw [scanFrom]
  split
  case h_1 => rfl
  case h_2 m hm => rw [h] at hm; cases hm

theorem scanFrom_of_some {offset : Nat} {cs : List Char} {m : Munch}
    (h : munch? (skipTrivia false offset cs).2 = some m) :
    let start := (skipTrivia false offset cs).1
    let stop := start + byteLength m.chars
    scanFrom offset cs =
      ⟨⟨m.terminal, String.ofList m.chars, ⟨start, stop⟩⟩ :: (scanFrom stop m.rest).tokens,
        (scanFrom stop m.rest).invalid?⟩ := by
  rw [scanFrom]
  split
  case h_1 hm => rw [h] at hm; cases hm
  case h_2 m hm => rw [h] at hm; cases hm; rfl

theorem scanFrom_congr {offset offset' : Nat} {cs cs' : List Char}
    (h : skipTrivia false offset cs = skipTrivia false offset' cs') :
    scanFrom offset cs = scanFrom offset' cs' := by
  cases hm : munch? (skipTrivia false offset cs).2 with
  | none =>
    rw [scanFrom_of_none hm, h]
    exact (scanFrom_of_none (h ▸ hm)).symm
  | some m =>
    rw [scanFrom_of_some hm, h]
    exact (scanFrom_of_some (h ▸ hm)).symm

theorem lexes_nil : Lexes [] [] := fun offset => by
  rw [scanFrom_of_none rfl]
  exact ⟨rfl, rfl⟩

theorem lexes_of_munch? {cs chars rest : List Char} {t : Terminal} {ls : List Lexeme}
    (h : munch? cs = some ⟨t, chars, rest⟩) (hrest : Lexes rest ls) :
    Lexes cs (⟨t, String.ofList chars⟩ :: ls) := by
  intro offset
  have hskip := skipTrivia_of_munch? h offset
  rw [scanFrom_of_some (m := ⟨t, chars, rest⟩) (by rw [hskip, h])]
  obtain ⟨htokens, hinvalid⟩ := hrest ((skipTrivia false offset cs).1 + byteLength chars)
  exact ⟨congrArg _ htokens, hinvalid⟩

theorem lexes_mark {c : Char} {t : Terminal} {cs : List Char} {ls : List Lexeme}
    (h : Terminal.ofMark? c = some t) (hcs : Lexes cs ls) : Lexes (c :: cs) (.mark t c :: ls) :=
  lexes_of_munch? (munch?_mark h cs) hcs

theorem lexes_blank {c : Char} {cs : List Char} {ls : List Lexeme} (h : isBlank c = true)
    (hcs : Lexes cs ls) : Lexes (c :: cs) ls := by
  intro offset
  have hskip : skipTrivia false offset (c :: cs) = skipTrivia false (offset + c.utf8Size) cs := by
    rw [skipTrivia, if_neg Bool.false_ne_true, if_pos h]
  rw [scanFrom_congr hskip]
  exact hcs _

/-! ## Texts wherever they stand -/

/-- Before every text that ends a word, `cs` has the tokens `ls`. -/
def Spells (cs : List Char) (ls : List Lexeme) : Prop :=
  ∀ rest ls', EndsWord rest → Lexes rest ls' → Lexes (cs ++ rest) (ls ++ ls')

namespace Spells

variable {as bs : List Char} {la lb : List Lexeme}

theorem lexes (ha : Spells as la) : Lexes as la := by
  simpa using ha [] [] endsWord_nil lexes_nil

theorem nil : Spells [] [] := fun _ _ _ hls' => hls'

theorem word {w : String} (h : isWord w.toList = true) : Spells w.toList [⟨.ofWord w, w⟩] :=
  fun rest ls' hrest hls' => by
    have hw := lexes_of_munch? (munch?_word h hrest) hls'
    rwa [String.ofList_toList] at hw

theorem identifier {n : String} (h : isIdentifier n = true) :
    Spells n.toList [.name n] := by
  rw [Lexeme.name, ← Terminal.ofWord_of_isIdentifier h]
  exact word (isWord_of_isIdentifier h)

theorem builtin (f : Builtin) : Spells f.keyword.toList [⟨.builtin f, f.keyword⟩] :=
  Terminal.ofWord_builtin f ▸ word (isWord_builtin f)

theorem operator (op : Operator) : Spells op.keyword.toList [⟨.operator op, op.keyword⟩] :=
  Terminal.ofWord_operator op ▸ word (isWord_operator op)

theorem digits {pattern : List Bool} (h : pattern ≠ []) :
    Spells (Bits.text pattern).toList [⟨.digits, Bits.text pattern⟩] :=
  fun rest ls' hrest hls' => by
    have hds : ∀ c ∈ pattern.map Bits.digit, isBinaryDigit c = true := by
      simp only [List.mem_map]
      rintro _ ⟨b, -, rfl⟩
      cases b <;> rfl
    have hlexes := lexes_of_munch? (munch?_digits (by simpa using h) hds hrest) hls'
    rwa [Bits.text, String.toList_ofList]

theorem string {t : String} (h : '"' ∉ t.toList) :
    Spells ("\"" ++ t ++ "\"").toList [⟨.string, "\"" ++ t ++ "\""⟩] :=
  fun rest ls' _ hls' => by
    have hlexes := lexes_of_munch? (munch?_string h rest) hls'
    have htext : String.ofList ('"' :: t.toList ++ ['"']) = "\"" ++ t ++ "\"" := by
      rw [← String.toList_inj]
      simp
    rw [htext] at hlexes
    simpa using hlexes

theorem blank (hb : Spells bs lb) : Spells (' ' :: bs) lb :=
  fun rest ls' hrest hls' => lexes_blank rfl (hb rest ls' hrest hls')

theorem spaced (ha : Spells as la) (hb : Spells bs lb) : Spells (as ++ ' ' :: bs) (la ++ lb) :=
  fun rest ls' hrest hls' => by
    rw [List.append_assoc, List.append_assoc]
    exact ha _ _ (endsWord_cons rfl _) (hb.blank rest ls' hrest hls')

theorem marked {c : Char} {t : Terminal} (ha : Spells as la) (hc : Terminal.ofMark? c = some t)
    (hb : Spells bs lb) : Spells (as ++ c :: bs) (la ++ .mark t c :: lb) :=
  fun rest ls' hrest hls' => by
    have hword : isWordPart c = false := by
      rw [Bool.eq_false_iff]
      intro hw
      rw [ofMark?_of_isWordPart hw] at hc
      cases hc
    rw [List.append_assoc, List.append_assoc]
    exact ha _ _ (endsWord_cons hword _) (lexes_mark hc (hb rest ls' hrest hls'))

end Spells

/-! ## Lists with commas -/

/-- The tokens of the items, with commas between them. -/
def commas (items : List (List Lexeme)) : List Lexeme := [.mark .comma ','].intercalate items

/-- The tokens of a list in parentheses after the token `l`. -/
def applied (l : Lexeme) (items : List (List Lexeme)) : List Lexeme :=
  l :: .mark .lparen '(' :: (commas items ++ [.mark .rparen ')'])

theorem Spells.commaList {items : List String} {lss : List (List Lexeme)}
    (h : List.Forall₂ (fun item ls => Spells item.toList ls) items lss) :
    Spells (Switching.commaList items).toList (commas lss) := by
  induction h with
  | nil => exact .nil
  | @cons a la items lss ha hitems ih =>
    cases hitems with
    | nil => simpa [Switching.commaList, commas] using ha
    | @cons b lb items lss hb hitems =>
      have htail := ha.marked (c := ',') rfl ih.blank
      simpa [Switching.commaList, commas, String.toList_intercalate] using htail

theorem Spells.applied {w : String} {l : Lexeme} {items : List String}
    {lss : List (List Lexeme)} (hw : Spells w.toList [l])
    (h : List.Forall₂ (fun item ls => Spells item.toList ls) items lss) :
    Spells (w ++ "(" ++ Switching.commaList items ++ ")").toList (Switching.applied l lss) := by
  have happlied := hw.marked (c := '(') rfl ((commaList h).marked (c := ')') rfl .nil)
  simpa [Switching.applied] using happlied

end Switching
