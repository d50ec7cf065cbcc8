import Switching.Proofs.Token.Kinds

/-!
# Where tokens stand

Offsets count bytes. What a scan returns stands in the text at the offsets that it gives.

* `isValid_byteLength`: the length of a part of a text is a boundary of characters in the text.
* `exists_skipped`: what is skipped stands at the head of a text, and what remains behind it.
* `Token.StandsIn offset cs t`: the token `t` stands at its place in `cs`, which begins at `offset`.
  `standsIn_of_mem_scanFrom`: the tokens of a text do; `pairwise_scanFrom`: one after the other.
  `isValid_start`, `isValid_stop`: they begin and end at boundaries of characters.
* `Trivia`: what is skipped in one piece. `Blocked`: no trivia and no token begins a text.
* **`blocked_of_invalid`**: where a scan stops, behind all tokens, the text is blocked.
-/

namespace Switching

variable {cs before after chars : List Char} {offset o : Nat} {t : Token} {m : Munch}
  {source : String}

/-! ## Offsets -/

@[simp] theorem byteLength_append (cs ds : List Char) :
    byteLength (cs ++ ds) = byteLength cs + byteLength ds := by
  induction cs with
  | nil => simp [byteLength]
  | cons c cs ih => rw [List.cons_append, byteLength, ih, byteLength, Nat.add_assoc]

theorem byteLength_pos (h : cs ≠ []) : 0 < byteLength cs := by
  cases cs with
  | nil => exact absurd rfl h
  | cons c cs => exact Nat.add_pos_left c.utf8Size_pos _

theorem utf8ByteSize_eq_byteLength (cs : List Char) :
    (String.ofList cs).utf8ByteSize = byteLength cs := by
  induction cs with
  | nil => rfl
  | cons c cs ih =>
    rw [← List.singleton_append, String.ofList_append, String.utf8ByteSize_append, ih]
    exact congrArg (· + byteLength cs) String.utf8ByteSize_singleton

theorem isValid_byteLength (h : source.toList = before ++ after) :
    (⟨byteLength before⟩ : String.Pos.Raw).IsValid source := by
  rw [String.Pos.Raw.isValid_iff_exists_append]
  refine ⟨String.ofList before, String.ofList after, ?_, ?_⟩
  · rw [← String.ofList_append, ← h, String.ofList_toList]
  · rw [String.Pos.Raw.ext_iff, String.rawEndPos, utf8ByteSize_eq_byteLength]

/-! ## What is skipped -/

/-- What is skipped is the head of the text, and what remains stands behind it. -/
theorem exists_skipped (inComment : Bool) (offset : Nat) (cs : List Char) :
    ∃ skipped, cs = skipped ++ (skipTrivia inComment offset cs).2 ∧
      (skipTrivia inComment offset cs).1 = offset + byteLength skipped := by
  induction cs generalizing inComment offset with
  | nil => exact ⟨[], rfl, rfl⟩
  | cons c cs ih =>
    have hnext : ∀ k, ∃ skipped, c :: cs = skipped ++ (skipTrivia k (offset + c.utf8Size) cs).2 ∧
        (skipTrivia k (offset + c.utf8Size) cs).1 = offset + byteLength skipped := fun k => by
      obtain ⟨skipped, hcs, hoffset⟩ := ih k (offset + c.utf8Size)
      refine ⟨c :: skipped, congrArg (c :: ·) hcs, ?_⟩
      rw [hoffset, byteLength, Nat.add_assoc]
    simp only [skipTrivia]
    split_ifs
    · exact hnext _
    · exact hnext _
    · exact hnext _
    · exact ⟨[], rfl, rfl⟩

theorem skipTrivia_remaining (inComment : Bool) (offset o : Nat) (cs : List Char) :
    skipTrivia false o (skipTrivia inComment offset cs).2 =
      (o, (skipTrivia inComment offset cs).2) := by
  induction cs generalizing inComment offset with
  | nil => rfl
  | cons c cs ih =>
    rw [skipTrivia]
    split_ifs with hcomment hblank hopens
    · exact ih _ _
    · exact ih _ _
    · exact ih _ _
    · rw [skipTrivia, if_neg Bool.false_ne_true, if_neg hblank, if_neg hopens]

theorem exists_skipped_of_munch? (h : munch? (skipTrivia false offset cs).2 = some m) :
    ∃ skipped, cs = skipped ++ (m.chars ++ m.rest) ∧
      (skipTrivia false offset cs).1 = offset + byteLength skipped := by
  obtain ⟨skipped, hcs, hoffset⟩ := exists_skipped false offset cs
  refine ⟨skipped, ?_, hoffset⟩
  rwa [Munch.append_rest h]

/-! ## Tokens -/

/-- The token stands at its place in the text `cs`, which begins at `offset`. -/
def Token.StandsIn (offset : Nat) (cs : List Char) (t : Token) : Prop :=
  ∃ before after, cs = before ++ (t.text.toList ++ after) ∧
    t.span.start = offset + byteLength before ∧
    t.span.stop = offset + byteLength (before ++ t.text.toList)

theorem Token.StandsIn.append {t : Token} (h : t.StandsIn (offset + byteLength before) cs) :
    t.StandsIn offset (before ++ cs) := by
  obtain ⟨middle, after, rfl, hstart, hstop⟩ := h
  refine ⟨before ++ middle, after, (List.append_assoc ..).symm, ?_, ?_⟩
  · rw [hstart, byteLength_append, Nat.add_assoc]
  · rw [hstop, List.append_assoc, byteLength_append before, Nat.add_assoc]

theorem standsIn_of_mem_scanFrom (ht : t ∈ (scanFrom offset cs).tokens) : t.StandsIn offset cs := by
  induction offset, cs using scanFrom.induct with
  | case1 offset cs trivia hnone =>
    rw [scanFrom_of_none hnone] at ht
    cases ht
  | case2 offset cs trivia m hm stop ih =>
    rw [scanFrom_of_some hm] at ht
    obtain ⟨skipped, hcs, hoffset⟩ := exists_skipped_of_munch? hm
    have hstop : stop = offset + byteLength (skipped ++ m.chars) := by
      rw [byteLength_append, ← Nat.add_assoc, ← hoffset]
    rcases List.mem_cons.1 ht with rfl | ht
    · refine ⟨skipped, m.rest, ?_, hoffset, ?_⟩
      · rwa [String.toList_ofList]
      · rwa [String.toList_ofList]
    · have hrest := ih ht
      rw [hstop] at hrest
      rw [hcs, ← List.append_assoc]
      exact hrest.append

theorem Token.StandsIn.le_start (h : t.StandsIn offset cs) : offset ≤ t.span.start := by
  obtain ⟨_, _, _, hstart, _⟩ := h
  exact hstart ▸ Nat.le_add_right _ _

theorem start_lt_stop_of_mem (ht : t ∈ (scanFrom offset cs).tokens) : t.span.start < t.span.stop := by
  obtain ⟨before, _, _, hstart, hstop⟩ := standsIn_of_mem_scanFrom ht
  have hpos := byteLength_pos (isText_of_mem_scanFrom offset ht).ne_empty
  rw [hstart, hstop, byteLength_append]
  omega

theorem isValid_start (ht : t ∈ (scan source).tokens) :
    (⟨t.span.start⟩ : String.Pos.Raw).IsValid source := by
  obtain ⟨before, after, hsource, hstart, -⟩ := standsIn_of_mem_scanFrom ht
  rw [hstart, Nat.zero_add]
  exact isValid_byteLength hsource

theorem isValid_stop (ht : t ∈ (scan source).tokens) :
    (⟨t.span.stop⟩ : String.Pos.Raw).IsValid source := by
  obtain ⟨before, after, hsource, -, hstop⟩ := standsIn_of_mem_scanFrom ht
  rw [hstop, Nat.zero_add]
  exact isValid_byteLength (hsource.trans (List.append_assoc ..).symm)

theorem pairwise_scanFrom (offset : Nat) (cs : List Char) :
    (scanFrom offset cs).tokens.Pairwise fun t u => t.span.stop ≤ u.span.start := by
  induction offset, cs using scanFrom.induct with
  | case1 offset cs trivia hnone =>
    rw [scanFrom_of_none hnone]
    exact .nil
  | case2 offset cs trivia m hm stop ih =>
    rw [scanFrom_of_some hm]
    exact .cons (fun u hu => (standsIn_of_mem_scanFrom hu).le_start) ih

/-! ## Where a scan stops -/

/-- What is skipped in one piece: blanks, or a comment with the line breaks after it. -/
inductive Trivia : List Char → Prop where
  | blanks {cs : List Char} (h : ∀ c ∈ cs, isBlank c = true) : Trivia cs
  | comment {body breaks : List Char} (hbody : ∀ c ∈ body, isLineBreak c = false)
    (hbreaks : ∀ c ∈ breaks, isLineBreak c = true) : Trivia ('/' :: '/' :: (body ++ breaks))

/-- No trivia, but for none at all, and no token begins the text. -/
def Blocked (cs : List Char) : Prop :=
  ∀ chars after, cs = chars ++ after →
    (chars ≠ [] → ¬ Trivia chars) ∧ ∀ k : Terminal, ¬ k.IsText (String.ofList chars)

theorem not_trivia_of_skipTrivia (h : skipTrivia false o (chars ++ after) = (o, chars ++ after))
    (hne : chars ≠ []) : ¬ Trivia chars := by
  -- Otherwise a character would be skipped, and less would remain.
  have hshorter : ∀ {k : Bool} {o' : Nat} {ds es : List Char}, ds.length < es.length →
      skipTrivia k o' ds ≠ (o, es) := fun {k o' ds es} hlt heq => by
    have hle := length_skipTrivia_le k o' ds
    rw [heq] at hle
    exact absurd hlt (Nat.not_lt.2 hle)
  intro htrivia
  cases htrivia with
  | blanks hblanks =>
    obtain ⟨c, cs, rfl⟩ := List.exists_cons_of_ne_nil hne
    rw [List.cons_append, skipTrivia, if_neg Bool.false_ne_true,
      if_pos (hblanks c List.mem_cons_self)] at h
    exact hshorter (Nat.lt_succ_self _) h
  | comment hbody hbreaks =>
    rw [List.cons_append, List.cons_append, skipTrivia_slashes] at h
    exact hshorter (Nat.lt_succ_of_lt (Nat.lt_succ_self _)) h

/-- The first character says whether a token begins, except that a quote has to be closed. -/
theorem isSome_munch?_cons {c : Char} : (munch? (c :: cs)).isSome ↔ (Terminal.ofMark? c).isSome ∨
    (c = '"' ∧ '"' ∈ cs) ∨ isBinaryDigit c = true ∨ isWordStart c = true := by
  cases hmark : Terminal.ofMark? c with
  | some k => simp [munch?, hmark]
  | none =>
    by_cases hquote : c = '"'
    · have hdigit : isBinaryDigit '"' = false := rfl
      have hword : isWordStart '"' = false := rfl
      have hclosed : cs.dropWhile (· ≠ '"') ≠ [] ↔ '"' ∈ cs := by simp
      subst hquote
      rw [← hclosed]
      simp only [munch?, hmark, if_true]
      cases cs.dropWhile (· ≠ '"') <;> simp [hdigit, hword]
    · simp only [munch?, hmark, hquote]
      split_ifs <;> simp_all

/-- Where a token begins, one begins whatever is added to the text. -/
theorem isSome_munch?_append (h : (munch? cs).isSome) (ds : List Char) :
    (munch? (cs ++ ds)).isSome := by
  cases cs with
  | nil => cases h
  | cons c cs =>
    rw [List.cons_append, isSome_munch?_cons, List.mem_append]
    rw [isSome_munch?_cons] at h
    tauto

theorem not_isText_of_munch? {s : String} {k : Terminal} (h : munch? (s.toList ++ after) = none) :
    ¬ k.IsText s := by
  intro htext
  have hmunch := munch?_of_isText htext endsWord_nil
  rw [List.append_nil] at hmunch
  have hsome := isSome_munch?_append (Option.isSome_of_eq_some hmunch) after
  rw [h] at hsome
  cases hsome

/-- Where a scan stops before the end of the text, nothing goes on. -/
theorem blocked_of_invalid (h : (scanFrom offset cs).invalid? = some o) :
    ∃ before after, cs = before ++ after ∧ o = offset + byteLength before ∧ after ≠ [] ∧
      Blocked after := by
  induction offset, cs using scanFrom.induct with
  | case1 offset cs trivia hnone =>
    rw [scanFrom_of_none hnone] at h
    obtain ⟨skipped, hcs, hoffset⟩ := exists_skipped false offset cs
    by_cases hend : (skipTrivia false offset cs).2.isEmpty
    · simp [hend] at h
    simp only [hend, if_false, Option.some.injEq, Bool.false_eq_true] at h
    subst h
    refine ⟨skipped, _, hcs, hoffset, fun hnil => hend (List.isEmpty_iff.2 hnil), ?_⟩
    intro chars after hchars
    have hstops := skipTrivia_remaining false offset 0 cs
    rw [hchars] at hstops
    have hnone : munch? ((String.ofList chars).toList ++ after) = none := by
      rwa [String.toList_ofList, ← hchars]
    exact ⟨not_trivia_of_skipTrivia hstops, fun _ => not_isText_of_munch? hnone⟩
  | case2 offset cs trivia m hm stop ih =>
    rw [scanFrom_of_some hm] at h
    obtain ⟨skipped, hcs, hoffset⟩ := exists_skipped_of_munch? hm
    obtain ⟨before, after, hrest, ho, hne, hblocked⟩ := ih h
    refine ⟨skipped ++ m.chars ++ before, after, ?_, ?_, hne, hblocked⟩
    · rw [hcs, hrest]
      simp
    · rw [ho, byteLength_append, byteLength_append, ← Nat.add_assoc, ← Nat.add_assoc, ← hoffset]

theorem stop_le_invalid (h : (scanFrom offset cs).invalid? = some o)
    (ht : t ∈ (scanFrom offset cs).tokens) : t.span.stop ≤ o := by
  induction offset, cs using scanFrom.induct with
  | case1 offset cs trivia hnone =>
    rw [scanFrom_of_none hnone] at ht
    cases ht
  | case2 offset cs trivia m hm stop ih =>
    rw [scanFrom_of_some hm] at h ht
    rcases List.mem_cons.1 ht with rfl | ht
    · obtain ⟨before, _, _, ho, _⟩ := blocked_of_invalid h
      exact ho ▸ Nat.le_add_right _ _
    · exact ih h ht

end Switching
