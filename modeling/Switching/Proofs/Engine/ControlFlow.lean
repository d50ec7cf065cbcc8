import Mathlib.Data.Option.Defs
import Switching.Engine.Basic
import Switching.Proofs.Engine.Coupling
import Switching.Proofs.Engine.Display

/-!
# Bits do not steer runs

All parts of an expression are evaluated, and all errors are decided by names, numbers and shapes.
So two runs of a program with different replies go through the same prompts and end alike.

* `Environment.Resembles`, `Engine.Resembles`: the same names, whatever the bits.
* `EvalM.Alike`: computations that differ in bits only.
* `Expr.alike_evalWith`, `Expr.alike_truthTable`, `Expr.alike_display`: evaluating, tabulating and
  displaying do not depend on bits.
* `Statement.alike_effect`, `Engine.alike_runFrom`: nor do statements and programs.
* **`Engine.run_alike`**: two runs on fresh engines.
-/

namespace Switching

variable {α α' : Type}

/-- Computations that ask for the same and fail alike, whatever bits they get. -/
abbrev EvalM.Alike (R : α → α' → Prop) (m : EvalM α) (m' : EvalM α') : Prop :=
  EvalM.Coupled Dialogue.AnyBits Eq R m m'

/-- Any two results. -/
abbrev Whatever (_ : α) (_ : α') : Prop := True

open EvalM

/-! ## Names -/

def Scope.names (scope : Scope) : List String := scope.bindings.map (·.1)

/-- The same functions and the same variables, whatever their bits. -/
structure Environment.Resembles (env env' : Environment) : Prop where
  functions : env.functions = env'.functions
  globals : env.globals.map (·.1) = env'.globals.map (·.1)

theorem isSome_lookup_congr {l l' : List (String × Bool)} (h : l.map (·.1) = l'.map (·.1))
    (n : String) : (l.lookup n).isSome = (l'.lookup n).isSome := by
  induction l generalizing l' with
  | nil =>
    obtain rfl := List.map_eq_nil_iff.1 h.symm
    rfl
  | cons p l ih =>
    obtain ⟨p', l', rfl, hp, hl⟩ := List.map_eq_cons_iff.1 h.symm
    rw [List.lookup_cons, List.lookup_cons, hp]
    cases n == p.1
    · exact ih hl.symm
    · rfl

section Read

variable {env env' : Environment} {scope scope' : Scope}

theorem Environment.Resembles.function? (h : env.Resembles env') :
    env.function? = env'.function? := function?_congr h.functions

theorem Environment.Resembles.callee (h : env.Resembles env') : env.callee = env'.callee :=
  callee_congr fun n => congrFun h.function? n

theorem Environment.Resembles.declared? (h : env.Resembles env') :
    env.declared? = env'.declared? := by
  funext n
  rw [Environment.declared?, Environment.declared?, bit?, bit?, isSome_lookup_congr h.globals,
    h.function?]

theorem Environment.Resembles.ensureUndeclared (h : env.Resembles env') :
    env.ensureUndeclared = env'.ensureUndeclared := by
  funext n s
  rw [Environment.ensureUndeclared, Environment.ensureUndeclared, h.declared?]

theorem Scope.isEmpty_congr (h : scope.names = scope'.names) :
    scope.isEmpty = scope'.isEmpty := by
  rw [isEmpty, isEmpty, ← List.isEmpty_map (f := Prod.fst), ← List.isEmpty_map (f := Prod.fst)]
  exact congrArg List.isEmpty h

theorem corresponds_elim {o o' : Option Bool} (h : o.isSome = o'.isSome) (e : RuntimeError) :
    Corresponds Eq Whatever (o.elim (.error e) .ok) (o'.elim (.error e) .ok) := by
  cases o <;> cases o'
  · exact .error rfl
  · nomatch h
  · nomatch h
  · exact .ok trivial

theorem Environment.Resembles.corresponds_read (h : env.Resembles env')
    (hscope : scope.names = scope'.names) (n : String) (r : Bool) (s : Span) :
    Corresponds Eq Whatever (env.read scope n r s) (env'.read scope' n r s) := by
  have hbit : (env.bit? n).isSome = (env'.bit? n).isSome := isSome_lookup_congr h.globals n
  have hget : (scope.get? n).isSome = (scope'.get? n).isSome := isSome_lookup_congr hscope n
  unfold read
  rw [← Scope.isEmpty_congr hscope]
  cases scope.isEmpty <;> cases r
  · exact corresponds_elim hget _
  · exact corresponds_elim hbit _
  · exact corresponds_elim hbit _
  · exact .error rfl

end Read

/-! ## Evaluation -/

theorem alike_requestBit (prompt : String) (s : Span) :
    Alike Whatever (requestBit prompt s) (requestBit prompt s) := by
  refine .ask fun r r' h => ?_
  obtain ⟨b, b', rfl, rfl⟩ := h
  exact .done (.ok trivial)

theorem bitsCorrespond_whatever : BitsCorrespond Dialogue.AnyBits Whatever :=
  ⟨fun _ => trivial, fun _ _ _ => trivial, fun _ _ _ _ _ _ _ => trivial, alike_requestBit⟩

/-- Functions that are entered with as many bits as they have parameters behave alike. -/
def AlikeEnter (enter enter' : Enter) : Prop :=
  ∀ f bits bits' s, bits.length = f.params.length → bits'.length = f.params.length →
    Alike Whatever (enter f bits s) (enter' f bits' s)

namespace Expr

section Eval

variable {env env' : Environment} {enter enter' : Enter} {scope scope' : Scope}

theorem alike_evalWith (henv : env.Resembles env') (henter : AlikeEnter enter enter')
    (hscope : scope.names = scope'.names) (e : Expr) :
    Alike Whatever (e.evalWith env enter scope) (e.evalWith env' enter' scope') := by
  refine coupled_evalWith bitsCorrespond_whatever henv.callee ?_ ?_
  · exact fun _ _ n r s _ => henv.corresponds_read hscope n r s
  · intro f _ bits bits' s hlen hbits
    exact henter f bits bits' s hlen (hbits.length_eq.symm.trans hlen)

theorem alike_enterBody (henv : env.Resembles env') (limit d : Nat) :
    AlikeEnter (enterBody env limit d) (enterBody env' limit d) := by
  induction d with
  | zero => exact fun f bits bits' s _ _ => coupled_throw rfl
  | succ d ih =>
    intro f bits bits' s hbits hbits'
    refine alike_evalWith henv ih ?_ f.body
    exact (List.map_fst_zip (Nat.le_of_eq hbits.symm)).trans
      (List.map_fst_zip (Nat.le_of_eq hbits'.symm)).symm

theorem alike_eval (henv : env.Resembles env') (limit : Nat) (scope : Scope) (e : Expr) :
    Alike Whatever (e.eval env limit scope) (e.eval env' limit scope) :=
  alike_evalWith henv (alike_enterBody henv limit limit) rfl e

/-! ## Tables and displayed expressions -/

theorem alike_truthTable (henv : env.Resembles env') (config : Config) (e : Expr) :
    Alike Whatever (e.truthTable env config) (e.truthTable env' config) := by
  cases href : e.firstReference? with
  | some reference =>
    rw [truthTable_of_reference href, truthTable_of_reference href]
    exact coupled_throw rfl
  | none =>
    by_cases hlimit : config.tableLimit < e.inputs.length
    · rw [truthTable_of_lt href hlimit, truthTable_of_lt href hlimit]
      exact coupled_throw rfl
    · rw [truthTable_of_le href rfl (Nat.not_lt.1 hlimit),
        truthTable_of_le href rfl (Nat.not_lt.1 hlimit)]
      exact (Coupled.sampleAll fun bits => alike_eval henv _ _ e).bind fun _ _ _ =>
        coupled_pure trivial

/-- The same calls are replaced, by bodies that are displayed alike. -/
def AlikeInline (inline inline' : Inline) : Prop :=
  ∀ n arity, Option.Rel (fun found found' => Alike Whatever found.2 found'.2) (inline n arity)
    (inline' n arity)

theorem alike_displayAllWith {config : Config} {inline inline' : Inline} {args : List Expr}
    (h : ∀ a ∈ args,
      Alike Whatever (a.displayWith env config inline) (a.displayWith env' config inline')) :
    Alike Whatever (displayAllWith env config inline args)
      (displayAllWith env' config inline' args) := by
  induction args with
  | nil => exact coupled_pure trivial
  | cons a args ih =>
    obtain ⟨ha, hargs⟩ := List.forall_mem_cons.1 h
    exact ha.bind fun _ _ _ => (ih hargs).bind fun _ _ _ => coupled_pure trivial

/-- What is displayed depends on bits, but not what is asked for, and not whether it fails. -/
theorem alike_displayWith (henv : env.Resembles env') {config : Config} {inline inline' : Inline}
    (hinline : AlikeInline inline inline') (e : Expr) :
    Alike Whatever (e.displayWith env config inline) (e.displayWith env' config inline') := by
  induction e with
  | lit b s => exact coupled_pure trivial
  | str t s => exact coupled_pure trivial
  | var n r s => exact coupled_pure trivial
  | error m s => exact coupled_pure trivial
  | binary a op b s iha ihb =>
    exact iha.bind fun _ _ _ => ihb.bind fun _ _ _ => coupled_pure trivial
  | not a s ih => exact ih.bind fun _ _ _ => coupled_pure trivial
  | call n args s ih =>
    refine (alike_displayAllWith ih).bind fun args₁ args₂ _ => ?_
    have hfound := hinline n args.length
    revert hfound
    cases inline n args.length <;> cases inline' n args.length <;> intro hfound
    · exact coupled_pure trivial
    · nomatch hfound
    · nomatch hfound
    · cases hfound with
      | some hbody => exact hbody.bind fun _ _ _ => coupled_pure trivial
  | builtin f args s ih =>
    cases f with
    | toNand | toNor =>
      rcases args with _ | ⟨a, _ | ⟨b, args⟩⟩
      · exact coupled_throw rfl
      · exact (ih a (List.mem_singleton_self a)).bind fun _ _ _ => coupled_pure trivial
      · exact coupled_throw rfl
    | solveSop | solvePos =>
      rcases args with _ | ⟨a, _ | ⟨b, args⟩⟩
      · exact coupled_throw rfl
      · exact (alike_truthTable henv config a).bind fun _ _ _ => coupled_pure trivial
      · exact coupled_throw rfl
    | print | display | table | graph | exportTo | importFrom | input =>
      exact (alike_displayAllWith ih).bind fun _ _ _ => coupled_pure trivial

theorem alike_inlinedBody (henv : env.Resembles env') (config : Config) (rounds : Nat)
    (available : List Function) :
    AlikeInline (inlinedBody env config rounds available)
      (inlinedBody env' config rounds available) := by
  induction rounds generalizing available with
  | zero => exact fun _ _ => .none
  | succ rounds ih =>
    intro n arity
    simp only [inlinedBody]
    cases available.find? (·.name = n) with
    | none => exact .none
    | some f =>
      by_cases hf : f.params.length = arity
      · simp only [hf, if_true]
        exact .some (alike_displayWith henv (ih _) f.body)
      · simp only [hf, if_false]
        exact .none

theorem alike_display (henv : env.Resembles env') (config : Config) (e : Expr) :
    Alike Whatever (e.display env config) (e.display env' config) := by
  rw [display, display, ← henv.functions]
  refine alike_displayWith henv ?_ e
  split
  · exact alike_inlinedBody henv config _ _
  · exact fun _ _ => .none

theorem alike_printed (henv : env.Resembles env') (config : Config) (e : Expr) :
    Alike Whatever (e.printed env config) (e.printed env' config) := by
  cases e with
  | str t s => exact coupled_pure trivial
  | lit _ _ | var _ _ _ | binary _ _ _ _ | not _ _ | call _ _ _ | builtin _ _ _ | error _ _ =>
    exact (alike_eval henv _ _ _).bind fun _ _ _ => coupled_pure trivial

end Eval

end Expr

/-! ## Statements -/

section Statements

variable {env env' : Environment}

theorem Builtin.alike_output (henv : env.Resembles env') (config : Config) (f : Builtin)
    (args : List Expr) (s : Span) :
    Alike Whatever (f.output env config args s) (f.output env' config args s) := by
  have hargs : ∀ {g g' : Expr → EvalM String}, (∀ a, Alike Whatever (g a) (g' a)) →
      Alike (List.Forall₂ Whatever) (args.mapM g) (args.mapM g') := fun h =>
    Coupled.mapM (List.forall₂_same.2 fun a _ => h a)
  cases f with
  | print =>
    exact (hargs fun a => a.alike_printed henv config).bind fun _ _ _ => coupled_pure trivial
  | display =>
    exact (hargs fun a => (a.alike_display henv config).bind fun _ _ _ =>
      coupled_pure trivial).bind fun _ _ _ => coupled_pure trivial
  | table =>
    exact (hargs fun a => (a.alike_truthTable henv config).bind fun _ _ _ =>
      coupled_pure trivial).bind fun _ _ _ => coupled_pure trivial
  | graph | exportTo | importFrom | toNand | toNor | solveSop | solvePos | input =>
    exact coupled_throw rfl

/-- Declarations of the same name, or one unit of output each. -/
inductive Effect.Resembles : Effect → Effect → Prop where
  | declare {env env' : Environment} (h : env.Resembles env') :
    Resembles (.declare env) (.declare env')
  | emit (unit unit' : String) : Resembles (.emit unit) (.emit unit')

theorem Environment.Resembles.corresponds_declareVariable (henv : env.Resembles env') (n : String)
    (b b' : Bool) (s : Span) :
    Corresponds Eq Environment.Resembles (env.declareVariable n b s) (env'.declareVariable n b' s) := by
  rw [declareVariable, declareVariable, henv.ensureUndeclared]
  cases env'.ensureUndeclared n s with
  | error e => exact .error rfl
  | ok u =>
    refine .ok ⟨henv.functions, ?_⟩
    rw [List.map_append, List.map_append, henv.globals]
    rfl

theorem Environment.Resembles.corresponds_declareFunction (henv : env.Resembles env') (f : Function) :
    Corresponds Eq Environment.Resembles (env.declareFunction f) (env'.declareFunction f) := by
  rw [declareFunction, declareFunction, henv.ensureUndeclared]
  cases env'.ensureUndeclared f.name f.span with
  | error e => exact .error rfl
  | ok u =>
    cases firstRepeated? [] f.params with
    | some p => exact .error rfl
    | none => exact .ok ⟨congrArg (· ++ [f]) henv.functions, henv.globals⟩

/-- The effect of a statement depends on bits only in the bits that it holds. -/
theorem Statement.alike_effect (henv : env.Resembles env') (config : Config) (s : Statement) :
    Alike Effect.Resembles (s.effect env config) (s.effect env' config) := by
  cases s with
  | «variable» n e s =>
    rw [effect, effect, henv.ensureUndeclared]
    refine (coupled_ofExcept_refl _).bind fun _ _ _ => (e.alike_eval henv _ _).bind fun b b' _ => ?_
    exact (coupled_ofExcept (henv.corresponds_declareVariable n b b' s)).bind fun _ _ h =>
      coupled_pure (.declare h)
  | function f =>
    exact (coupled_ofExcept (henv.corresponds_declareFunction f)).bind fun _ _ h =>
      coupled_pure (.declare h)
  | table t =>
    rw [effect, effect, henv.ensureUndeclared]
    refine (coupled_ofExcept_refl _).bind fun _ _ _ => (coupled_ofExcept_refl _).bind fun f _ hf => ?_
    subst hf
    exact (coupled_ofExcept (henv.corresponds_declareFunction f)).bind fun _ _ h =>
      coupled_pure (.declare h)
  | builtin f args s =>
    exact (f.alike_output henv config args s).bind fun unit unit' _ =>
      coupled_pure (.emit unit unit')
  | error m s => exact coupled_throw rfl

end Statements

/-! ## Runs -/

namespace Engine

/-- The same settings, functions and variables, and as many units of output, whatever the bits. -/
structure Resembles (g g' : Engine) : Prop where
  config : g.config = g'.config
  environment : g.environment.Resembles g'.environment
  output : g.output.length = g'.output.length

theorem Resembles.refl (g : Engine) : g.Resembles g := ⟨rfl, ⟨rfl, rfl⟩, rfl⟩

theorem Resembles.apply {g g' : Engine} (h : g.Resembles g') {effect effect' : Effect}
    (heffect : effect.Resembles effect') : (g.apply effect).Resembles (g'.apply effect') := by
  cases heffect with
  | declare henv => exact ⟨h.config, henv, h.output⟩
  | emit unit unit' =>
    refine ⟨h.config, h.environment, ?_⟩
    rw [Engine.apply, Engine.apply, List.length_append, List.length_append, h.output]
    rfl

theorem alike_execute {g g' : Engine} (h : g.Resembles g') (s : Statement) :
    Dialogue.Coupled Dialogue.AnyBits (fun r r' => r.1 = r'.1 ∧ r.2.Resembles r'.2) (g.execute s)
      (g'.execute s) := by
  rw [execute, execute, ← h.config]
  refine Dialogue.Coupled.bind (s.alike_effect h.environment g.config) fun r r' hout => ?_
  cases hout with
  | ok heffect => exact .done ⟨rfl, h.apply heffect⟩
  | error he => exact .done ⟨congrArg Except.error he, h⟩

/-- Both runs succeed with as many units of output, or both fail at the same statement, with the same
error and after as many units. -/
inductive SameEnd :
    Except ExecutionError (List String) → Except ExecutionError (List String) → Prop where
  | success {units units' : List String} (h : units.length = units'.length) :
    SameEnd (.ok units) (.ok units')
  | failure {index : Nat} {statement : String} {span : Span} {error : RuntimeError}
    {units units' : List String} (h : units.length = units'.length) :
    SameEnd (.error ⟨index, statement, span, error, units⟩)
      (.error ⟨index, statement, span, error, units'⟩)

theorem alike_runFrom {g g' : Engine} (h : g.Resembles g') (start index : Nat) (p : Program) :
    Dialogue.Coupled Dialogue.AnyBits (fun r r' => SameEnd r.1 r'.1 ∧ r.2.Resembles r'.2)
      (g.runFrom start index p) (g'.runFrom start index p) := by
  have hdrop : ∀ {g g' : Engine}, g.Resembles g' →
      (g.output.drop start).length = (g'.output.drop start).length := fun h => by
    rw [List.length_drop, List.length_drop, h.output]
  induction p generalizing g g' index with
  | nil => exact .done ⟨.success (hdrop h), h⟩
  | cons s p ih =>
    refine (alike_execute h s).bind fun r r' hr => ?_
    obtain ⟨r, g₁⟩ := r
    obtain ⟨r', g₂⟩ := r'
    obtain ⟨rfl, hg⟩ : r = r' ∧ g₁.Resembles g₂ := hr
    cases r with
    | ok u => exact ih hg (index + 1)
    | error e => exact .done ⟨.failure (hdrop hg), hg⟩

/-- **Bits do not steer runs.** Where every prompt of two runs gets some bit, the prompts are the
same, both runs succeed or both fail at the same statement with the same error, there are as many
units of output, and the same functions and variables are declared. -/
theorem run_alike {σ τ : Type} [Replier σ] [Replier τ] (config : Config) (p : Program) {s : σ}
    {t : τ} (hs : ((fresh config).run p).Answered s) (ht : ((fresh config).run p).Answered t) :
    let r := ((fresh config).run p).run (Recorded.mk s [])
    let r' := ((fresh config).run p).run (Recorded.mk t [])
    r.2.prompts = r'.2.prompts ∧ SameEnd r.1.1 r'.1.1 ∧ r.1.2.Resembles r'.1.2 :=
  (alike_runFrom (.refl _) _ 0 p).run hs ht []

/-- `A = INPUT("a"); SHOW(SOLVE_SOP(A xor INPUT())); PRINT(B);` -/
def askingProgram : Program :=
  [.variable "A" (.builtin .input [.str "a" .none] .none) .none,
    .builtin .display
      [.builtin .solveSop [.binary (.var "A" false .none) .xor (.builtin .input [] .none) .none] .none]
      .none,
    .builtin .print [.var "B" false .none] .none]

/-- With the replies `0, 1, 1` and `1, 0, 1`, the program asks for three bits, displays one expression
and fails at its last statement. -/
theorem run_alike_asking :
    let s := Script.mk [some false, some true, some true]
    let t := Script.mk [some true, some false, some true]
    let r := ((fresh {}).run askingProgram).run (Recorded.mk s [])
    let r' := ((fresh {}).run askingProgram).run (Recorded.mk t [])
    ((fresh {}).run askingProgram).Answered s ∧ ((fresh {}).run askingProgram).Answered t ∧
      r.2.prompts = ["a", "INPUT", "INPUT"] ∧ r'.2.prompts = ["a", "INPUT", "INPUT"] ∧
      SameEnd r.1.1 r'.1.1 ∧ r.1.2.Resembles r'.1.2 := by
  intro s t r r'
  have hs : ((fresh {}).run askingProgram).Answered s :=
    ⟨false, rfl, true, rfl, true, rfl, trivial⟩
  have ht : ((fresh {}).run askingProgram).Answered t :=
    ⟨true, rfl, false, rfl, true, rfl, trivial⟩
  obtain ⟨hprompts, hend, hengine⟩ := run_alike {} askingProgram hs ht
  have hr : r.2.prompts = ["a", "INPUT", "INPUT"] := rfl
  exact ⟨hs, ht, hr, hprompts.symm.trans hr, hend, hengine⟩

end Engine

end Switching
