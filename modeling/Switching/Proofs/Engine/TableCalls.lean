import Switching.Input.Basic
import Switching.Proofs.Engine.CallGraph
import Switching.Proofs.Engine.Display
import Switching.Proofs.Engine.Stability
import Switching.Proofs.Engine.Tables

/-!
# Tables, values and calls

A row of a table is evaluated in the scope of its inputs. The same bits are found where the inputs
are global variables and nothing is called around them, and where the inputs are the parameters of a
function.

* `Expr.evalWith_call_eq`: a call enters its function with the bits of the arguments.
* `Expr.eval_of_globals`: a value stays where the inputs are global variables.
* `Expr.enterBody_eq_or_exceedsLimit`: a function declared later returns the value of its body.
* **`Expr.truthTable_agrees`**: a table holds what its expression evaluates to, as well as what a
  function with this body returns.
-/

namespace Switching.Expr

variable {env env' : Environment} {e : Expr} {b : Bool} {bits : List Bool}

/-- Where the inputs are global variables, an expression without references has its value outside
every function, too. -/
theorem eval_of_globals {limit : Nat} (href : e.firstReference? = none)
    (hread : List.Forall₂ (fun n x => env.bit? n = some x) e.inputs bits)
    (h : e.eval env limit (.zip e.inputs bits) = pure b) : e.eval env limit .empty = pure b := by
  have hplain : List.Forall₂ (fun n x => env.plain? .empty n = some x) e.inputs bits := hread
  exact evalWith_congr rfl (fun _ _ _ _ h => h) (fun _ hn => (plain?_zip_inputs hplain hn).symm)
    (.inl href) h

theorem evalWith_call_eq {enter : Enter} {scope : Scope} {n : String} {args : List Expr} {s : Span}
    {f : Function} (hf : env.function? n = some f) (hlen : f.params.length = args.length)
    (hargs : List.Forall₂ (fun a x => a.evalWith env enter scope = pure x) args bits) :
    (call n args s).evalWith env enter scope = enter f bits s := by
  have hcallee : env.callee n args.length s = .ok f := Environment.callee_eq_ok_iff.2 ⟨hf, hlen⟩
  rw [evalWith, hcallee, evalAllWith_eq_pure_iff.2 hargs]
  rfl

/-- A function whose body had a value before more was declared returns it, if more calls can be
opened than it took; else it may meet the limit. -/
theorem enterBody_eq_or_exceedsLimit (hextends : env.Extends env') {k : Nat} {f : Function}
    (h : f.body.eval env k (.zip f.params bits) = pure b) (limit d : Nat) (s : Span) :
    enterBody env' limit d f bits s = pure b ∨
      d ≤ k ∧ ∃ n s', enterBody env' limit d f bits s = throw (.recursionLimit n limit s') := by
  have hbody : enterBody env' k (k + 1) f bits s = pure b :=
    (hextends.sameUnless_evalWith k k (.zip f.params bits) f.body).eq_pure h
  by_cases hd : d ≤ k
  · have hroom : d ≤ k + 1 := by omega
    obtain h | ⟨e, ⟨n, s', rfl⟩, h⟩ := (sameUnless_enterBody_of_le hroom f bits s).eq_pure_or hbody
    · exact .inl h
    · exact .inr ⟨hd, n, s', h⟩
  · have hroom : k + 1 ≤ d := by omega
    exact .inl ((sameUnless_enterBody_of_le hroom f bits s).eq_pure hbody)

/-- **A table agrees with values and with calls.** Let there be no `INPUT`, and let the table exist.
Where its inputs are global variables, the expression has the output of their row. And if a function
with a free name has the expression as its body and the inputs as its parameters, it can be
declared, and any call of it returns the output of the row of the arguments, whatever the scope of
the call; only where no more calls can be opened than for the table, it may meet the limit. -/
theorem truthTable_agrees {σ : Type} [Replier σ] {config : Config} {t : TruthTable}
    (hinput : InputFree env e) {s : σ} (h : ((e.truthTable env config).run.run s).1 = .ok t) :
    ((∀ n ∈ t.inputs, (env.bit? n).isSome) →
      ∃ bits b, List.Forall₂ (fun n x => env.bit? n = some x) t.inputs bits ∧
        t.outputs[Bits.index bits]? = some b ∧ e.eval env config.maxCallDepth .empty = pure b) ∧
    ∀ name span, env.declared? name = none →
      ∃ env', env.declareFunction ⟨name, t.inputs, e, span⟩ = .ok env' ∧
        ∀ bits : List Bool, bits.length = t.inputs.length →
          ∃ b, t.outputs[Bits.index bits]? = some b ∧
            ∀ limit d scope args s,
              List.Forall₂ (fun a x => a.evalWith env' (enterBody env' limit d) scope = pure x)
                args bits →
              (call name args s).evalWith env' (enterBody env' limit d) scope = pure b ∨
                d ≤ config.maxCallDepth ∧
                  ∃ n s', (call name args s).evalWith env' (enterBody env' limit d) scope =
                    throw (.recursionLimit n limit s') := by
  have ht : e.truthTable env config = pure t := (settled_truthTable hinput).eq_pure h
  obtain ⟨href, hinputs, hrows⟩ := truthTable_eq_pure ht
  rw [hinputs]
  -- the inputs fit into a word
  have hrow : ∀ bits : List Bool, bits.length = e.inputs.length →
      ∃ b, t.outputs[Bits.index bits]? = some b ∧
        e.eval env config.maxCallDepth (.zip e.inputs bits) = pure b := fun bits hlen => by
    have hword : bits.length ≤ Bits.wordSize := by
      have hle := length_inputs_le_of_truthTable ht
      rw [Config.tableLimit] at hle
      omega
    rw [Bits.index_eq_number hword]
    exact hrows bits hlen
  refine ⟨fun hglobal => ?_, fun name span hfree => ?_⟩
  · obtain ⟨bits, hread⟩ := exists_bits hglobal
    obtain ⟨b, hb, heval⟩ := hrow bits hread.length_eq.symm
    exact ⟨bits, b, hread, hb, eval_of_globals href hread heval⟩
  · let f : Function := ⟨name, e.inputs, e, span⟩
    let env' : Environment := { env with functions := env.functions ++ [f] }
    have hdeclare : env.declareFunction f = .ok env' :=
      Environment.declareFunction_eq_ok_iff.2 ⟨hfree, nodup_inputs e, rfl⟩
    have hextends := (Environment.declares_of_declareFunction hdeclare).extends
    have hf : env'.function? name = some f := by
      rw [Environment.function?, List.find?_append, ← Environment.function?,
        (Environment.declared?_eq_none_iff.1 hfree).2, Option.none_or]
      simp [f]
    refine ⟨env', hdeclare, fun bits hlen => ?_⟩
    obtain ⟨b, hb, heval⟩ := hrow bits hlen
    refine ⟨b, hb, fun limit d scope args s hargs => ?_⟩
    rw [evalWith_call_eq hf (hlen.symm.trans hargs.length_eq.symm) hargs]
    exact enterBody_eq_or_exceedsLimit hextends heval limit d s

/-- The variables `A = 1` and `B = 0` and the function `G(X) = not X`. -/
def pairDeclared : Environment :=
  ⟨[("A", true), ("B", false)], [⟨"G", ["X"], .not (.var "X" false .none) .none, .none⟩]⟩

/-- The table of `G(A) xor B`, for which one call is opened: at `A = 1` and `B = 0` the expression
has the bit of the third row, and `F(0, 1)` that of the second one if two calls can be opened. -/
theorem truthTable_agrees_xor :
    let s : Silent := ⟨.unavailable⟩
    let config : Config := { maxCallDepth := 1 }
    let a : Expr := .call "G" [.var "A" false .none] .none
    let e : Expr := .binary a .xor (.var "B" false .none) .none
    let t : TruthTable := ⟨["A", "B"], "G(A) xor B", [true, false, false, true], rfl⟩
    let call : Expr := .call "F" [.lit false .none, .lit true .none] .none
    InputFree pairDeclared e ∧
      ((e.truthTable pairDeclared config).run.run s).1 = .ok t ∧
      e.eval pairDeclared config.maxCallDepth .empty = pure false ∧
      pairDeclared.declared? "F" = none ∧
      ∃ env', pairDeclared.declareFunction ⟨"F", t.inputs, e, .none⟩ = .ok env' ∧
        call.evalWith env' (enterBody env' 2 2) .empty = pure false := by
  intro s config a e t call
  have hinput : InputFree pairDeclared e :=
    throughout_of_functions rfl fun f hf => List.mem_singleton.1 hf ▸ rfl
  have htable : ((e.truthTable pairDeclared config).run.run s).1 = .ok t := by cbv
  have hfree : pairDeclared.declared? "F" = none := by decide
  obtain ⟨hvalue, hcalls⟩ := truthTable_agrees hinput htable
  obtain ⟨bits, b, hread, hb, heval⟩ := hvalue (by decide)
  obtain rfl : bits = [true, false] := by
    simpa [t, pairDeclared, Environment.bit?, List.lookup, List.forall₂_cons_left_iff] using hread
  obtain rfl : false = b := Option.some.inj hb
  obtain ⟨env', hdeclare, hreturns⟩ := hcalls "F" .none hfree
  obtain ⟨c, hc, hcall⟩ := hreturns [false, true] rfl
  obtain rfl : false = c := Option.some.inj hc
  refine ⟨hinput, htable, heval, hfree, env', hdeclare, ?_⟩
  obtain h | ⟨hroom, -⟩ := hcall 2 2 .empty [.lit false .none, .lit true .none] .none
    (.cons rfl (.cons rfl .nil))
  · exact h
  · exact absurd hroom (by decide)

end Switching.Expr
