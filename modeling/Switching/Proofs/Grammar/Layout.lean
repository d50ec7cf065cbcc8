import Mathlib
import Switching.Proofs.Grammar.Parse
import Switching.Proofs.Token.Layout

/-!
# Layout

* `ParsedAlike`: both texts are parsed to the same up to places, or neither is parsed.
* `Grammar.Recognises.alike`: what recognises derivations parses texts with the same tokens alike.
* **`parse_laidOut`**: programs and expressions are parsed alike however their tokens are laid out.
-/

namespace Switching

/-- Both texts are parsed to the same, up to the places that `erase` takes out, or neither is. -/
def ParsedAlike {α : Type} (parse : String → Except SyntaxError α) (erase : α → α)
    (source text : String) : Prop :=
  (∃ a a', parse source = .ok a ∧ parse text = .ok a' ∧ erase a' = erase a) ∨
    ∃ err err', parse source = .error err ∧ parse text = .error err'

variable {source text : String}

namespace Grammar

variable {α : Type} {parse : String → Except SyntaxError α} {Derives : List Token → α → Prop}
  {erase : α → α} {a : α} {err : SyntaxError}

theorem Recognises.not_error (h : Recognises parse Derives erase)
    (htext : (scan text).invalid? = none)
    (hsame : (scan source).tokens.map Token.lexeme = (scan text).tokens.map Token.lexeme)
    (hsource : parse source = .ok a) : parse text ≠ .error err := by
  intro hrefused
  have hderives := ((h.ok_iff source a).1 hsource).2
  rcases (h.error_iff text).1 ⟨err, hrefused⟩ with hinvalid | hnone
  · exact hinvalid htext
  · exact hnone _ a hsame hderives

/-- **Texts with the same tokens** are parsed alike. -/
theorem Recognises.alike (h : Recognises parse Derives erase)
    (hsource : (scan source).invalid? = none) (htext : (scan text).invalid? = none)
    (hsame : (scan text).tokens.map Token.lexeme = (scan source).tokens.map Token.lexeme) :
    ParsedAlike parse erase source text := by
  cases hparse : parse source with
  | ok a =>
    cases hparse' : parse text with
    | ok a' =>
      have hderives := ((h.ok_iff source a).1 hparse).2
      have hderives' := ((h.ok_iff text a').1 hparse').2
      exact .inl ⟨a, a', hparse, hparse', h.unique _ _ a a' hsame hderives hderives'⟩
    | error err => exact absurd hparse' (h.not_error htext hsame.symm hparse)
  | error err =>
    cases hparse' : parse text with
    | ok a' => exact absurd hparse (h.not_error hsource hsame hparse')
    | error err' => exact .inr ⟨err, err', hparse, hparse'⟩

end Grammar

theorem scan_laidOut (h : LaidOut ((scan source).tokens.map Token.text) text.toList) :
    (scan text).invalid? = none ∧
      (scan text).tokens.map Token.lexeme = (scan source).tokens.map Token.lexeme := by
  have htexts : (scan source).tokens.map Token.text =
      ((scan source).tokens.map Token.lexeme).map Lexeme.text := by
    rw [List.map_map]
    rfl
  rw [htexts] at h
  exact (lexes_of_laidOut (fun _ => isText_of_mem_lexemes) h 0).symm

/-- **Layout means nothing**: a text with the tokens of a source in the same order, with any blanks
and comments around them that keep them apart, is parsed to the same as the source, up to places, or
is refused as the source is. -/
theorem parse_laidOut (hsource : (scan source).invalid? = none)
    (hlayout : LaidOut ((scan source).tokens.map Token.text) text.toList) :
    ParsedAlike Program.parse (List.map Statement.eraseSpans) source text ∧
      ParsedAlike Expr.parse Expr.eraseSpans source text := by
  obtain ⟨htext, hsame⟩ := scan_laidOut hlayout
  exact ⟨Grammar.program_recognises.alike hsource htext hsame,
    Grammar.expr_recognises.alike hsource htext hsame⟩

theorem parse_laidOut_commented :
    (scan "A=not B;").invalid? = none ∧
      LaidOut ((scan "A=not B;").tokens.map Token.text) "// A\nA\t= not//;\r\n B ;\n".toList ∧
      ParsedAlike Program.parse (List.map Statement.eraseSpans) "A=not B;"
        "// A\nA\t= not//;\r\n B ;\n" ∧
      ParsedAlike Expr.parse Expr.eraseSpans "A=not B;" "// A\nA\t= not//;\r\n B ;\n" := by
  have hsource : (scan "A=not B;").invalid? = none := by cbv
  have htexts : (scan "A=not B;").tokens.map Token.text = ["A", "=", "not", "B", ";"] := by cbv
  have hlayout : LaidOut ["A", "=", "not", "B", ";"] "// A\nA\t= not//;\r\n B ;\n".toList := by
    have hblank : Gap [' '] := .blank rfl .nil
    have hcomment : Gap ['/', '/', ';', '\r', '\n', ' '] :=
      .comment (List.forall_mem_singleton.2 rfl) rfl (.blank rfl hblank)
    have hbody : ∀ d ∈ [' ', 'A'], isLineBreak d = false := by simp [isLineBreak]
    have hbefore : Gap ['/', '/', ' ', 'A', '\n'] := .comment hbody rfl .nil
    have hwords : Spaced ["A", "=", "not", "B", ";"] _ :=
      .cons (.blank (rfl : isBlank '\t' = true) .nil) (by simp) <| .cons hblank (by simp) <|
        .cons hcomment (by simp) <| .cons hblank (by simp) <|
        .cons (.blank (rfl : isBlank '\n' = true) .nil) (by simp) .nil
    exact ⟨_, _, by rfl, hbefore, hwords⟩
  rw [← htexts] at hlayout
  exact ⟨hsource, hlayout, parse_laidOut hsource hlayout⟩

end Switching
