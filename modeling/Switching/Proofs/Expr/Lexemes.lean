import Switching.Proofs.Expr.Basic
import Switching.Proofs.Token.Lexeme

/-!
# The tokens of the text of an expression

* `Expr.isSource`: no node is an error, names are identifiers, and strings hold no quotation mark.
* `Expr.lexemesAt min`: the tokens of `Expr.textAt min`, by the same recursion.
* **`Expr.spells_textAt`**: the text of an expression scans to them.
-/

namespace Switching

theorem Bits.text_singleton (b : Bool) : text [b] = String.singleton (digit b) := by
  rw [← String.toList_inj, String.toList_singleton, text, String.toList_ofList, List.map_singleton]

namespace Expr

mutual

/-- The expression can stand in a source. -/
def isSource : Expr → Bool
  | .lit .. => true
  | .str t _ => !t.toList.contains '"'
  | .var n _ _ => isIdentifier n
  | .binary a _ b _ => a.isSource && b.isSource
  | .not a _ => a.isSource
  | .call n args _ => isIdentifier n && allSource args
  | .builtin _ args _ => allSource args
  | .error .. => false

def allSource : List Expr → Bool
  | [] => true
  | e :: es => e.isSource && allSource es

end

theorem allSource_iff {es : List Expr} : allSource es = true ↔ ∀ e ∈ es, e.isSource = true := by
  induction es with
  | nil => simp [allSource]
  | cons e es ih => rw [allSource, Bool.and_eq_true, ih, List.forall_mem_cons]

mutual

/-- The tokens of an expression in a place that admits operators of precedence `min` and above. -/
def lexemesAt (min : Nat) : Expr → List Lexeme
  | .lit b _ => [⟨.digits, Bits.text [b]⟩]
  | .str t _ => [⟨.string, "\"" ++ t ++ "\""⟩]
  | .var n reference _ => .name n :: if reference then [.mark .star '*'] else []
  | .binary a op b _ =>
    let inner := a.lexemesAt op.precedence ++
      ⟨.operator op, op.keyword⟩ :: b.lexemesAt (op.precedence + 1)
    if op.precedence < min then .mark .lparen '(' :: (inner ++ [.mark .rparen ')']) else inner
  | .not a _ => ⟨.not, "not"⟩ :: a.lexemesAt Operator.notPrecedence
  | .call n args _ => applied (.name n) (lexemesAll args)
  | .builtin f args _ => applied ⟨.builtin f, f.keyword⟩ (lexemesAll args)
  | .error .. => []

def lexemesAll : List Expr → List (List Lexeme)
  | [] => []
  | e :: es => e.lexemesAt 0 :: lexemesAll es

end

def lexemes (e : Expr) : List Lexeme := e.lexemesAt 0

theorem lexemesAll_eq_map (es : List Expr) : lexemesAll es = es.map lexemes := by
  induction es with
  | nil => rfl
  | cons e es ih => rw [lexemesAll, ih, List.map_cons, lexemes]

theorem spells_textAll {es : List Expr} (h : ∀ e ∈ es, Spells e.text.toList e.lexemes) :
    List.Forall₂ (fun text ls => Spells text.toList ls) (textAll es) (lexemesAll es) := by
  rw [textAll_eq_map, lexemesAll_eq_map, List.forall₂_map_left_iff, List.forall₂_map_right_iff,
    List.forall₂_same]
  exact h

/-- **The text of an expression, token by token.** -/
theorem spells_textAt {e : Expr} (he : e.isSource = true) (min : Nat) :
    Spells (e.textAt min).toList (e.lexemesAt min) := by
  induction e generalizing min with
  | lit b s =>
    have hb := Spells.digits (List.cons_ne_nil b [])
    rwa [textAt, lexemesAt, ← Bits.text_singleton]
  | str t s =>
    rw [isSource, Bool.not_eq_true', List.contains_eq_mem, decide_eq_false_iff_not] at he
    rw [textAt, lexemesAt]
    exact .string he
  | var n reference s =>
    rw [isSource] at he
    have hn := Spells.identifier he
    cases reference with
    | false => simpa [textAt, lexemesAt] using hn
    | true => simpa [textAt, lexemesAt] using hn.marked (c := '*') rfl .nil
  | binary a op b s iha ihb =>
    rw [isSource, Bool.and_eq_true] at he
    have hinner := ((iha he.1 op.precedence).spaced (.operator op)).spaced
      (ihb he.2 (op.precedence + 1))
    rw [textAt, lexemesAt]
    split
    case isFalse => simpa using hinner
    case isTrue =>
      have hgroup := Spells.nil.marked (c := '(') rfl (hinner.marked (c := ')') rfl .nil)
      simpa using hgroup
  | not a s ih =>
    rw [isSource] at he
    have hnot : Spells "not".toList [⟨.not, "not"⟩] := .word rfl
    have hspaced := hnot.spaced (ih he Operator.notPrecedence)
    simpa [textAt, lexemesAt] using hspaced
  | call n args s ih =>
    rw [isSource, Bool.and_eq_true, allSource_iff] at he
    exact (Spells.identifier he.1).applied
      (spells_textAll fun a ha => ih a ha (he.2 a ha) 0)
  | builtin f args s ih =>
    rw [isSource, allSource_iff] at he
    exact (Spells.builtin f).applied (spells_textAll fun a ha => ih a ha (he a ha) 0)
  | error m s => cases he

end Expr

end Switching
