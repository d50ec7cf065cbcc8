import Mathlib
import Switching.Proofs.Grammar.FirstError

/-!
# Locations

A line and a column say as much as an offset, as far as offsets stand at boundaries of characters.

* `exists_text_between`: two boundaries, and the text between them.
* `Location.key`: locations in lexicographic order. `Location.past`: the location behind a piece of
  text; `Location.key_lt_key_past`: it is later, unless the piece is empty.
* `Location.past_first`: lines and columns counted from the start of a text.
* `Location.key_ofOffset_lt`: later boundaries have later locations.
* `SyntaxError.IsOf source`: the errors of a source, read as a program or as an expression.
* **`Location.ofOffset_identifies`**: what locations say about offsets.
-/

namespace Switching

/-! ## Boundaries of characters -/

theorem isValid_iff_exists_byteLength {source : String} {p : Nat} :
    (⟨p⟩ : String.Pos.Raw).IsValid source ↔
      ∃ before after, source.toList = before ++ after ∧ byteLength before = p := by
  constructor
  · intro h
    obtain ⟨s, t, hsource, hp⟩ := String.Pos.Raw.isValid_iff_exists_append.1 h
    refine ⟨s.toList, t.toList, by rw [hsource, String.toList_append], ?_⟩
    rw [← utf8ByteSize_eq_byteLength, String.ofList_toList]
    exact (String.Pos.Raw.ext_iff.1 hp).symm
  · rintro ⟨before, after, hsource, rfl⟩
    exact isValid_byteLength hsource

/-- The text up to the first boundary, between the two, and behind the second one. -/
theorem exists_text_between {source : String} {p q : Nat}
    (hp : (⟨p⟩ : String.Pos.Raw).IsValid source) (hq : (⟨q⟩ : String.Pos.Raw).IsValid source)
    (h : p < q) :
    ∃ before middle after, source.toList = before ++ (middle ++ after) ∧ middle ≠ [] ∧
      byteLength before = p ∧ byteLength (before ++ middle) = q := by
  obtain ⟨before, after, hsource, rfl⟩ := isValid_iff_exists_byteLength.1 hp
  obtain ⟨before', after', hsource', rfl⟩ := isValid_iff_exists_byteLength.1 hq
  rcases List.append_eq_append_iff.1 (hsource.symm.trans hsource') with
    ⟨middle, rfl, rfl⟩ | ⟨middle, rfl, -⟩
  · refine ⟨before, middle, after', hsource, ?_, rfl, rfl⟩
    rintro rfl
    rw [List.append_nil] at h
    exact absurd h (Nat.lt_irrefl _)
  · rw [byteLength_append] at h
    omega

namespace Location

/-! ## Going on in a text -/

/-- The place behind `cs`, which begins at `loc`. -/
def past (loc : Location) (cs : List Char) : Location := cs.foldl advance loc

/-- Locations in the order in which a reader meets them: by lines, then by columns. -/
def key (loc : Location) : ℕ ×ₗ ℕ := toLex (loc.line, loc.column)

theorem key_lt_key_advance (loc : Location) (c : Char) : loc.key < (loc.advance c).key := by
  rw [key, key, Prod.Lex.toLex_lt_toLex, advance]
  split_ifs
  · exact .inl (Nat.lt_succ_self _)
  · exact .inr ⟨rfl, Nat.lt_succ_self _⟩

theorem key_lt_key_past (loc : Location) {cs : List Char} (h : cs ≠ []) :
    loc.key < (loc.past cs).key := by
  induction cs generalizing loc with
  | nil => exact absurd rfl h
  | cons c cs ih =>
    have hstep := key_lt_key_advance loc c
    by_cases hcs : cs = []
    · rwa [hcs]
    · exact hstep.trans (ih _ hcs)

/-- From the start of a text, lines are counted by the newlines, and columns by the characters
behind the last one. -/
theorem past_first (cs : List Char) :
    first.past cs = ⟨cs.count '\n' + 1, (cs.rtakeWhile (· ≠ '\n')).length + 1⟩ := by
  induction cs using List.reverseRecOn with
  | nil => rfl
  | append_singleton cs c ih =>
    rw [past] at ih
    rw [past, List.foldl_concat, ih, advance, List.rtakeWhile_concat]
    by_cases hc : c = '\n'
    · simp [hc]
    · simp [hc]

/-! ## Offsets -/

theorem ahead_byteLength (loc : Location) (before after : List Char) :
    ahead (byteLength before) loc (before ++ after) = loc.past before := by
  induction before generalizing loc with
  | nil =>
    cases after with
    | nil => rfl
    | cons c after => exact if_pos c.utf8Size_pos
  | cons c before ih =>
    rw [List.cons_append, ahead, byteLength, if_neg (Nat.not_lt.2 (Nat.le_add_right _ _)),
      Nat.add_sub_cancel_left, ih]
    rfl

theorem ahead_of_le {loc : Location} {cs : List Char} {offset : Nat} (h : byteLength cs ≤ offset) :
    ahead offset loc cs = loc.past cs := by
  induction cs generalizing loc offset with
  | nil => rfl
  | cons c cs ih =>
    rw [byteLength] at h
    rw [ahead, if_neg (by omega), ih (by omega)]
    rfl

theorem column_past_first_eq_one_iff {cs : List Char} :
    (first.past cs).column = 1 ↔ cs = [] ∨ cs.getLast? = some '\n' := by
  rw [past_first]
  cases cs using List.reverseRecOn with
  | nil => simp
  | append_singleton cs c =>
    rw [List.rtakeWhile_concat]
    by_cases hc : c = '\n'
    · simp [hc]
    · simp [hc]

variable {source : String} {p q : Nat}

theorem ofOffset_byteLength {before after : List Char} (h : source.toList = before ++ after) :
    ofOffset source (byteLength before) = first.past before := by
  rw [ofOffset, h, ahead_byteLength]

theorem ofOffset_of_le (h : byteLength source.toList ≤ p) :
    ofOffset source p = first.past source.toList :=
  ahead_of_le h

theorem key_ofOffset_lt (hp : (⟨p⟩ : String.Pos.Raw).IsValid source)
    (hq : (⟨q⟩ : String.Pos.Raw).IsValid source) (h : p < q) :
    (ofOffset source p).key < (ofOffset source q).key := by
  obtain ⟨before, middle, after, hsource, hne, rfl, rfl⟩ := exists_text_between hp hq h
  rw [ofOffset_byteLength hsource,
    ofOffset_byteLength (hsource.trans (List.append_assoc ..).symm), past, past, List.foldl_append]
  exact key_lt_key_past _ hne

theorem ofOffset_ne (hp : (⟨p⟩ : String.Pos.Raw).IsValid source)
    (hq : (⟨q⟩ : String.Pos.Raw).IsValid source) (h : p ≠ q) :
    ofOffset source p ≠ ofOffset source q := by
  intro heq
  rcases Nat.lt_or_gt_of_ne h with hlt | hlt
  · exact (key_ofOffset_lt hp hq hlt).ne (congrArg key heq)
  · exact (key_ofOffset_lt hq hp hlt).ne' (congrArg key heq)

end Location

/-! ## Errors -/

/-- The source, read as a program or as an expression, is refused with this error. -/
def SyntaxError.IsOf (source : String) (err : SyntaxError) : Prop :=
  Program.parse source = .error err ∨ Expr.parse source = .error err

theorem SyntaxError.IsOf.isValid {source : String} {err : SyntaxError} (h : err.IsOf source) :
    (⟨err.offset⟩ : String.Pos.Raw).IsValid source := by
  rcases h with h | h
  · exact (Grammar.program_realised.isEarliest programReader_completable h).1
  · exact (Grammar.expr_realised.isEarliest exprReader_completable h).1

/-- **Locations identify offsets.** A text begins at line 1 and column 1. Lines are counted by the
newlines before an offset, and columns by the characters behind the last of them, so that the column
is 1 at the start and behind each newline only. Later boundaries of characters have later locations;
offsets past the end have that of the end. Errors at different offsets of one source have different
locations. -/
theorem Location.ofOffset_identifies (source : String) :
    ofOffset source 0 = ⟨1, 1⟩ ∧
      (∀ before after, source.toList = before ++ after →
        ofOffset source (byteLength before) =
            ⟨before.count '\n' + 1, (before.rtakeWhile (· ≠ '\n')).length + 1⟩ ∧
          ((ofOffset source (byteLength before)).column = 1 ↔
            before = [] ∨ before.getLast? = some '\n')) ∧
      (∀ p q : Nat, (⟨p⟩ : String.Pos.Raw).IsValid source → (⟨q⟩ : String.Pos.Raw).IsValid source →
        p < q → (ofOffset source p).key < (ofOffset source q).key) ∧
      (∀ p, source.utf8ByteSize ≤ p → ofOffset source p = ofOffset source source.utf8ByteSize) ∧
      ∀ err err' : SyntaxError, err.IsOf source → err'.IsOf source → err.offset ≠ err'.offset →
        err.location source ≠ err'.location source := by
  have hsize : source.utf8ByteSize = byteLength source.toList := by
    rw [← utf8ByteSize_eq_byteLength, String.ofList_toList]
  refine ⟨ofOffset_byteLength (List.nil_append source.toList).symm, fun before after h => ?_,
    fun p q => key_ofOffset_lt, fun p hp => ?_,
    fun err err' h h' => ofOffset_ne h.isValid h'.isValid⟩
  · rw [ofOffset_byteLength h]
    exact ⟨past_first before, column_past_first_eq_one_iff⟩
  · rw [hsize] at hp ⊢
    rw [ofOffset_of_le hp, ofOffset_of_le le_rfl]

/-- A comment with a character of two bytes, and a line on which a program goes wrong at another
place than an expression. -/
theorem Location.ofOffset_identifies_commented :
    (ofOffset "// é\nA = 1 B" 5).key < (ofOffset "// é\nA = 1 B" 6).key ∧
      (ofOffset "// é\nA = 1 B" 6).column = 1 ∧
      ∃ err err' : SyntaxError, err.IsOf "// é\nA = 1 B" ∧ err'.IsOf "// é\nA = 1 B" ∧
        err.offset = 12 ∧ err'.offset = 8 ∧
        err.location "// é\nA = 1 B" ≠ err'.location "// é\nA = 1 B" := by
  obtain ⟨-, hcolumn, horder, -, herrors⟩ := ofOffset_identifies "// é\nA = 1 B"
  have hcomment : "// é\nA = 1 B".toList = "// é".toList ++ "\nA = 1 B".toList := by decide
  have hline : "// é\nA = 1 B".toList = "// é\n".toList ++ "A = 1 B".toList := by decide
  obtain ⟨expected, hprogram⟩ : ∃ expected, Program.parse "// é\nA = 1 B" =
      .error (.unrecognized ⟨.identifier, "B", ⟨12, 13⟩⟩ expected) := ⟨_, by cbv⟩
  obtain ⟨expected', hexpr⟩ : ∃ expected, Expr.parse "// é\nA = 1 B" =
      .error (.unrecognized ⟨.equals, "=", ⟨8, 9⟩⟩ expected) := ⟨_, by cbv⟩
  have hne : 12 ≠ 8 := by decide
  refine ⟨horder _ _ (isValid_byteLength hcomment) (isValid_byteLength hline) (by decide),
    (hcolumn _ _ hline).2.2 (.inr (by decide)), _, _, .inl hprogram, .inr hexpr, rfl, rfl,
    herrors _ _ (.inl hprogram) (.inr hexpr) hne⟩

end Switching
