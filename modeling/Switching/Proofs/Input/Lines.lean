import Mathlib.Data.List.TakeWhile
import Switching.Input.Lines

/-!
# Which lines a reader takes

* `LinesOf`: the lines of a stream of bytes. `linesOf_iff`: each stream has just one list of them.
* `Line.Says`, `Line.Malformed`: what a line says, in terms of the text that its bytes encode.
  `Line.content_eq_bit_iff` and `Line.content_eq_malformed_iff`: a reader finds that out.
* `Turn`: the lines that go into one reply. `Turn.Proper`: they end at the first line that decides.
* `LineReader.exists_turn`: every request is a turn; `LineReader.exists_turns_from`: so is each of
  several requests.
* **`LineReader.exists_turns`**: the turns of all requests to a stream, with nothing between them.
-/

namespace Switching

/-! ## Lines -/

/-- The lines of a stream. Each goes up to and including a line feed; the last may lack it, but is not
empty. -/
inductive LinesOf : List UInt8 → List (List UInt8) → Prop where
  | nil : LinesOf [] []
  | last {body : List UInt8} (hne : body ≠ []) (hbody : lineFeed ∉ body) : LinesOf body [body]
  | ended {body rest : List UInt8} {lines : List (List UInt8)} (hbody : lineFeed ∉ body)
    (hrest : LinesOf rest lines) :
    LinesOf (body ++ lineFeed :: rest) ((body ++ [lineFeed]) :: lines)

section Lines

variable {b : UInt8} {bytes body rest : List UInt8} {lines : List (List UInt8)}

theorem LinesOf.cons (hb : b ≠ lineFeed) {l : List UInt8} (h : LinesOf bytes (l :: lines)) :
    LinesOf (b :: bytes) ((b :: l) :: lines) := by
  have hnot : ∀ {body : List UInt8}, lineFeed ∉ body → lineFeed ∉ b :: body := fun hbody hmem =>
    (List.mem_cons.1 hmem).elim (hb ·.symm) hbody
  cases h with
  | last _ hbody => exact .last (List.cons_ne_nil b _) (hnot hbody)
  | ended hbody hrest => exact .ended (hnot hbody) hrest

theorem linesOf_splitLines (bytes : List UInt8) : LinesOf bytes (splitLines bytes) := by
  induction bytes with
  | nil => exact .nil
  | cons b bytes ih =>
    rw [splitLines]
    split_ifs with hb
    · subst hb
      exact .ended List.not_mem_nil ih
    · cases hlines : splitLines bytes with
      | nil =>
        have hnil : bytes = [] := by rw [← flatten_splitLines bytes, hlines, List.flatten_nil]
        subst hnil
        exact .last (List.cons_ne_nil b _) (by simpa using Ne.symm hb)
      | cons l lines => exact (hlines ▸ ih).cons hb

theorem splitLines_append_lineFeed (hbody : lineFeed ∉ body) :
    splitLines (body ++ lineFeed :: rest) = (body ++ [lineFeed]) :: splitLines rest := by
  induction body with
  | nil => simp [splitLines]
  | cons b body ih =>
    obtain ⟨hb, hbody⟩ := not_or.1 (mt List.mem_cons.2 hbody)
    simp [splitLines, Ne.symm hb, ih hbody]

theorem splitLines_of_notMem (hne : body ≠ []) (hbody : lineFeed ∉ body) :
    splitLines body = [body] := by
  induction body with
  | nil => exact absurd rfl hne
  | cons b body ih =>
    obtain ⟨hb, hbody⟩ := not_or.1 (mt List.mem_cons.2 hbody)
    cases body with
    | nil => simp [splitLines, Ne.symm hb]
    | cons c body => rw [splitLines, if_neg (Ne.symm hb), ih (List.cons_ne_nil c _) hbody]

/-- **The lines of a stream** are the one list that there is of them. -/
theorem linesOf_iff : LinesOf bytes lines ↔ lines = splitLines bytes := by
  constructor
  · intro h
    induction h with
    | nil => rfl
    | last hne hbody => exact (splitLines_of_notMem hne hbody).symm
    | ended hbody _ ih => rw [splitLines_append_lineFeed hbody, ih]
  · rintro rfl
    exact linesOf_splitLines bytes

end Lines

/-! ## White space -/

section Trim

variable {cs before after : List Char} {c : Char}

theorem exists_trim (cs : List Char) : ∃ before after, cs = before ++ trim cs ++ after ∧
    (∀ c ∈ before, isWhiteSpace c = true) ∧ ∀ c ∈ after, isWhiteSpace c = true := by
  let rest := cs.dropWhile isWhiteSpace
  refine ⟨cs.takeWhile isWhiteSpace, (rest.reverse.takeWhile isWhiteSpace).reverse, ?_,
    fun c => List.mem_takeWhile_imp, fun c hc => List.mem_takeWhile_imp (List.mem_reverse.1 hc)⟩
  have hrest : trim cs ++ (rest.reverse.takeWhile isWhiteSpace).reverse = rest := by
    rw [trim, ← List.reverse_append, List.takeWhile_append_dropWhile, List.reverse_reverse]
  rw [List.append_assoc, hrest, List.takeWhile_append_dropWhile]

theorem trim_append_cons (hbefore : ∀ d ∈ before, isWhiteSpace d = true)
    (hafter : ∀ d ∈ after, isWhiteSpace d = true) (hc : isWhiteSpace c = false) :
    trim (before ++ c :: after) = [c] := by
  have hfront : (before ++ c :: after).dropWhile isWhiteSpace = c :: after := by
    rw [List.dropWhile_append_of_pos hbefore, List.dropWhile_cons_of_neg (by simp [hc])]
  have hback : (c :: after).reverse.dropWhile isWhiteSpace = [c] := by
    rw [List.reverse_cons,
      List.dropWhile_append_of_pos fun d hd => hafter d (List.mem_reverse.1 hd),
      List.dropWhile_cons_of_neg (by simp [hc])]
  rw [trim, hfront, hback, List.reverse_singleton]

theorem isWhiteSpace_digit (b : Bool) : isWhiteSpace (Bits.digit b) = false := by
  cases b <;> rfl

theorem trim_eq_digit_iff {b : Bool} : trim cs = [Bits.digit b] ↔
    ∃ before after, cs = before ++ Bits.digit b :: after ∧
      (∀ c ∈ before, isWhiteSpace c = true) ∧ ∀ c ∈ after, isWhiteSpace c = true := by
  constructor
  · intro h
    obtain ⟨before, after, hcs, hbefore, hafter⟩ := exists_trim cs
    rw [h, List.append_assoc, List.singleton_append] at hcs
    exact ⟨before, after, hcs, hbefore, hafter⟩
  · rintro ⟨before, after, rfl, hbefore, hafter⟩
    exact trim_append_cons hbefore hafter (isWhiteSpace_digit b)

end Trim

theorem Bits.ofDigit?_eq_some_iff {c : Char} {b : Bool} : ofDigit? c = some b ↔ c = digit b := by
  constructor
  · intro h
    unfold ofDigit? at h
    split at h <;> cases h <;> rfl
  · rintro rfl
    exact ofDigit?_digit b

/-! ## What a line says -/

namespace Line

variable {l : List UInt8} {b : Bool} {s : String}

/-- The bytes of the line are the text in UTF-8. -/
def Encodes (l : List UInt8) (s : String) : Prop := s.toUTF8 = ⟨l.toArray⟩

/-- The line is a text, and this is one digit with nothing but white space around it. -/
def Says (l : List UInt8) (b : Bool) : Prop :=
  ∃ s before after, Encodes l s ∧ s.toList = before ++ Bits.digit b :: after ∧
    (∀ c ∈ before, isWhiteSpace c = true) ∧ ∀ c ∈ after, isWhiteSpace c = true

/-- The line is no text in UTF-8. -/
def Malformed (l : List UInt8) : Prop := ∀ s, ¬ Encodes l s

theorem fromUTF8?_eq_some_iff : String.fromUTF8? ⟨l.toArray⟩ = some s ↔ Encodes l s := by
  rw [String.fromUTF8?, Encodes]
  constructor
  · intro h
    split_ifs at h
    cases h
    rfl
  · intro h
    rw [dif_pos (h ▸ s.isValidUTF8)]
    exact congrArg some (String.toByteArray_inj.1 h.symm)

theorem content_eq_bit_iff_trim (hs : Encodes l s) :
    content l = .bit b ↔ trim s.toList = [Bits.digit b] := by
  rw [content, fromUTF8?_eq_some_iff.2 hs]
  dsimp only
  split
  case h_1 c hc =>
    rw [hc, List.cons.injEq, and_iff_left rfl, ← Bits.ofDigit?_eq_some_iff]
    cases Bits.ofDigit? c <;> simp
  case h_2 hc => exact ⟨(nomatch ·), fun h => absurd h (hc _)⟩

theorem content_ne_malformed (hs : Encodes l s) : content l ≠ .malformed := by
  rw [content, fromUTF8?_eq_some_iff.2 hs]
  dsimp only
  split
  · cases Bits.ofDigit? _ <;> simp
  · simp

theorem content_eq_bit_iff : content l = .bit b ↔ Says l b := by
  constructor
  · intro h
    cases hs : String.fromUTF8? ⟨l.toArray⟩ with
    | none => simp [content, hs] at h
    | some s =>
      have hencodes := fromUTF8?_eq_some_iff.1 hs
      obtain ⟨before, after, htext⟩ := trim_eq_digit_iff.1 ((content_eq_bit_iff_trim hencodes).1 h)
      exact ⟨s, before, after, hencodes, htext⟩
  · rintro ⟨s, before, after, hs, htext⟩
    exact (content_eq_bit_iff_trim hs).2 (trim_eq_digit_iff.2 ⟨before, after, htext⟩)

theorem content_eq_malformed_iff : content l = .malformed ↔ Malformed l := by
  constructor
  · exact fun h s hs => content_ne_malformed hs h
  · intro h
    have hnone : String.fromUTF8? ⟨l.toArray⟩ = none :=
      Option.eq_none_iff_forall_ne_some.2 fun s hs => h s (fromUTF8?_eq_some_iff.1 hs)
    simp [content, hnone]

/-- The line decides nothing: it is a text that is not a bit. -/
def Undecided (l : List UInt8) : Prop := ¬ Malformed l ∧ ∀ b, ¬ Says l b

theorem undecided_of_content (h : content l = .other) : Undecided l := by
  refine ⟨fun hmalformed => ?_, fun b hb => ?_⟩
  · rw [content_eq_malformed_iff.2 hmalformed] at h
    cases h
  · rw [content_eq_bit_iff.2 hb] at h
    cases h

end Line

/-! ## Turns -/

/-- What happens between a prompt and its reply. -/
structure Turn where
  prompt : String
  /-- The lines that are taken. -/
  taken : List (List UInt8)
  /-- After these, the end of the lines is met. -/
  ended : Bool
  reply : Reply

namespace Turn

/-- The question is written once for each line that is taken, and once more for the end. -/
def written (u : Turn) : String :=
  String.join (List.replicate (u.taken.length + u.ended.toNat) (LineReader.question u.prompt))

/-- A turn ends at the first line that decides: the reply is the bit that it says, and cancelled if it
is no text or if there is no such line. Then `rest` is still to come. -/
inductive Proper (rest : List (List UInt8)) : Turn → Prop where
  | answered {p : String} {passed : List (List UInt8)} {l : List UInt8} {b : Bool}
    (hpassed : ∀ q ∈ passed, Line.Undecided q) (hl : Line.Says l b) :
    Proper rest ⟨p, passed ++ [l], false, .ok b⟩
  | broken {p : String} {passed : List (List UInt8)} {l : List UInt8}
    (hpassed : ∀ q ∈ passed, Line.Undecided q) (hl : Line.Malformed l) :
    Proper rest ⟨p, passed ++ [l], false, .error .cancelled⟩
  | atEnd {p : String} {passed : List (List UInt8)} (hpassed : ∀ q ∈ passed, Line.Undecided q)
    (hrest : rest = []) : Proper rest ⟨p, passed, true, .error .cancelled⟩

/-- One more line in front that decides nothing. -/
def later (u : Turn) (l : List UInt8) : Turn := { u with taken := l :: u.taken }

variable {u : Turn} {rest : List (List UInt8)} {l : List UInt8}

theorem Proper.later (h : u.Proper rest) (hl : Line.Undecided l) : (u.later l).Proper rest := by
  cases h with
  | answered hpassed hq => exact .answered (List.forall_mem_cons.2 ⟨hl, hpassed⟩) hq
  | broken hpassed hq => exact .broken (List.forall_mem_cons.2 ⟨hl, hpassed⟩) hq
  | atEnd hpassed hrest => exact .atEnd (List.forall_mem_cons.2 ⟨hl, hpassed⟩) hrest

theorem written_later : (u.later l).written = LineReader.question u.prompt ++ u.written := by
  rw [written, later, List.length_cons, Nat.succ_add, List.replicate_succ, String.join_cons, written]

/-- The turns are proper one after the other, and in the end `rest` is still to come. -/
inductive Succession (rest : List (List UInt8)) : List Turn → Prop where
  | nil : Succession rest []
  | cons {u : Turn} {turns : List Turn} (hu : u.Proper (turns.flatMap taken ++ rest))
    (hturns : Succession rest turns) : Succession rest (u :: turns)

end Turn

namespace LineReader

/-- **A request is a turn.** -/
theorem exists_turn (p written : String) (lines : List (List UInt8)) :
    ∃ (u : Turn) (rest : List (List UInt8)), u.prompt = p ∧ lines = u.taken ++ rest ∧ u.Proper rest ∧
      await p written lines = (u.reply, ⟨rest, written ++ u.written, true⟩) := by
  induction lines generalizing written with
  | nil => exact ⟨⟨p, [], true, .error .cancelled⟩, [], rfl, rfl, .atEnd (by simp) rfl, by
      simp [await, Turn.written]⟩
  | cons l lines ih =>
    rw [await]
    cases hl : Line.content l with
    | bit b =>
      exact ⟨⟨p, [] ++ [l], false, .ok b⟩, lines, rfl, rfl,
        .answered (by simp) (Line.content_eq_bit_iff.1 hl), by simp [Turn.written]⟩
    | malformed =>
      exact ⟨⟨p, [] ++ [l], false, .error .cancelled⟩, lines, rfl, rfl,
        .broken (by simp) (Line.content_eq_malformed_iff.1 hl), by simp [Turn.written]⟩
    | other =>
      obtain ⟨u, rest, rfl, rfl, hu, hawait⟩ := ih (written ++ question p)
      refine ⟨u.later l, rest, rfl, rfl, hu.later (Line.undecided_of_content hl), ?_⟩
      rw [hawait, Turn.written_later, String.append_assoc]
      rfl

/-- **Several requests are turns**, one after the other. -/
theorem exists_turns_from (prompts : List String) (written : String) (lines : List (List UInt8)) :
    ∃ (turns : List Turn) (rest : List (List UInt8)), turns.map Turn.prompt = prompts ∧
      lines = turns.flatMap Turn.taken ++ rest ∧ Turn.Succession rest turns ∧
      (prompts.mapM Dialogue.request).run (⟨lines, written, true⟩ : LineReader) =
        (turns.map Turn.reply, ⟨rest, written ++ String.join (turns.map Turn.written), true⟩) := by
  induction prompts generalizing written lines with
  | nil => exact ⟨[], lines, rfl, rfl, .nil, by simp [Pure.pure]⟩
  | cons p prompts ih =>
    obtain ⟨u, others, rfl, rfl, hu, hawait⟩ := exists_turn p written lines
    obtain ⟨turns, rest, rfl, rfl, hturns, hrun⟩ := ih (written ++ u.written) others
    refine ⟨u :: turns, rest, rfl, ?_, .cons hu hturns, ?_⟩
    · rw [List.flatMap_cons, List.append_assoc]
    · have hreply : (Dialogue.request u.prompt).run
          (⟨u.taken ++ (turns.flatMap Turn.taken ++ rest), written, true⟩ : LineReader) =
            (u.reply, ⟨turns.flatMap Turn.taken ++ rest, written ++ u.written, true⟩) := hawait
      rw [List.mapM_cons, Dialogue.run_bind, hreply, Dialogue.run_bind, hrun, List.map_cons,
        List.map_cons, String.join_cons, String.append_assoc]
      rfl

/-- **Requests take the lines of a stream in order.** Nothing is left out and nothing is read twice:
the lines that the requests take, one request after the other, and those that are left, are the lines
of the stream. Each request ends at the first line that decides it, or at the end of the lines, and the
question is written once for each line that it takes and once more for the end. -/
theorem exists_turns (bytes : List UInt8) (prompts : List String) :
    ∃ (lines : List (List UInt8)) (turns : List Turn) (r : LineReader), LinesOf bytes lines ∧
      (prompts.mapM Dialogue.request).run (ofBytes bytes) = (turns.map Turn.reply, r) ∧
      turns.map Turn.prompt = prompts ∧ lines = turns.flatMap Turn.taken ++ r.lines ∧
      Turn.Succession r.lines turns ∧ r.written = String.join (turns.map Turn.written) := by
  obtain ⟨turns, rest, hprompts, hlines, hturns, hrun⟩ :=
    exists_turns_from prompts "" (splitLines bytes)
  exact ⟨_, turns, _, linesOf_splitLines bytes, hrun, hprompts, hlines, hturns, String.empty_append⟩

/-- The first line is no bit, and the second request meets the end. -/
example : (["A", "B"].mapM Dialogue.request).run (ofBytes [109, 10, 32, 49, 10]) =
    ([.ok true, .error .cancelled], ⟨[], "A [0/1]: A [0/1]: B [0/1]: ", true⟩) := by
  rfl

end LineReader

end Switching
