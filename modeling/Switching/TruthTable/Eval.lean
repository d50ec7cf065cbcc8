import Switching.Engine.Config
import Switching.Engine.Eval
import Switching.Expr.Printer
import Switching.TruthTable.Basic

/-!
# Truth tables of expressions

* `sampleAll`: the results of a computation for each item of a list.
* `Expr.truthTable`: the truth table of an expression over its inputs.
* `Expr.truthTable_of_reference`, `Expr.truthTable_of_lt`, `Expr.truthTable_of_le`: the three ways in
  which that goes.
-/

namespace Switching

/-- The results of `f` on each item, in order. -/
def sampleAll {α : Type} (f : α → EvalM Bool) :
    (items : List α) → EvalM { bits : List Bool // bits.length = items.length }
  | [] => pure ⟨[], rfl⟩
  | a :: rest => do
    let b ← f a
    let bits ← sampleAll f rest
    return ⟨b :: bits.1, by simp [bits.2]⟩

/-- The largest number of inputs of a table. Row indices fit into a word. -/
def Config.tableLimit (config : Config) : Nat := min config.maxTableVariables (Bits.wordSize - 1)

/-- The truth table of an expression. Its inputs, which are then no global variables, are the
columns; it is evaluated once for each combination of their bits. -/
def Expr.truthTable (env : Environment) (config : Config) (e : Expr) : EvalM TruthTable := do
  if let some (name, span) := e.firstReference? then
    throw (.referenceAtTopLevel name span)
  let limit := config.tableLimit
  if limit < e.inputs.length then
    throw (.tableTooLarge e.inputs.length limit e.span)
  let outputs ← sampleAll (fun bits => e.eval env config.maxCallDepth (.zip e.inputs bits))
    (Bits.patterns e.inputs.length)
  return ⟨e.inputs, e.text, outputs.1, by simp [outputs.2]⟩

namespace Expr

variable {env : Environment} {config : Config} {e : Expr}

theorem truthTable_of_reference {name : String} {span : Span}
    (h : e.firstReference? = some (name, span)) :
    e.truthTable env config = throw (.referenceAtTopLevel name span) := by
  rw [truthTable, h]
  rfl

theorem truthTable_of_lt (href : e.firstReference? = none)
    (hlimit : config.tableLimit < e.inputs.length) :
    e.truthTable env config =
      throw (.tableTooLarge e.inputs.length config.tableLimit e.span) := by
  simp only [truthTable, href, hlimit, if_true]
  rfl

/-- The table of an expression whose inputs fit, in terms of a list that equals them. -/
theorem truthTable_of_le (href : e.firstReference? = none) {inputs : List String}
    (hinputs : e.inputs = inputs) (hlimit : inputs.length ≤ config.tableLimit) :
    e.truthTable env config = do
      let outputs ← sampleAll (fun bits => e.eval env config.maxCallDepth (.zip inputs bits))
        (Bits.patterns inputs.length)
      return ⟨inputs, e.text, outputs.1, by simp [outputs.2]⟩ := by
  subst hinputs
  simp only [truthTable, href, Nat.not_lt.2 hlimit, if_false]

end Expr

end Switching
