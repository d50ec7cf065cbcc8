import Mathlib.Data.Option.Defs
import Switching.Proofs.Engine.Coupling
import Switching.Proofs.Places.Program

/-!
# Runs without places

No computation looks at a place: it asks for the same and has the same outcome without them.

* `EvalM.Bare`: a computation beside the one without places. `Expr.bare_eval`, `Expr.bare_truthTable`,
  `Expr.bare_display`, `Builtin.bare_output`: everything that is computed from an expression.
* `Statement.stripped_effect`, `Engine.coupled_execute`, `Engine.coupled_runFrom`: statements and runs.
* **`eraseSpans_determines`**: what differs in places only has results that do.
-/

namespace Switching

open EvalM

variable {α α' β β' : Type}

/-! ## Outcomes without places -/

/-- `e'` is `e` without its place, and `e` is nothing that a declaration fails with. -/
def RuntimeError.Fault (e e' : RuntimeError) : Prop :=
  e.eraseSpan = e' ∧ e.errorClass ≠ .declarationConflict

/-- The same prompts for the same replies, and the outcome without its places. Declarations have
nothing to do with it. -/
abbrev EvalM.Bare (f : α → α') (m : EvalM α) (m' : EvalM α') : Prop :=
  Coupled Eq RuntimeError.Fault (fun a a' => f a = a') m m'

theorem bare_ofExcept {f : α → α'} {r : Except RuntimeError α}
    (h : ∀ e, r = .error e → e.errorClass ≠ .declarationConflict) :
    Bare f (EvalM.ofExcept r) (EvalM.ofExcept (eraseOutcome f r)) := by
  cases r with
  | ok a => exact coupled_pure rfl
  | error e => exact coupled_throw ⟨rfl, h e rfl⟩

theorem Environment.errorClass_of_read {env : Environment} {scope : Scope} {n : String} {r : Bool}
    {s : Span} {e : RuntimeError} (h : env.read scope n r s = .error e) :
    e.errorClass ≠ .declarationConflict := by
  have helim : ∀ (o : Option Bool) (e' : RuntimeError), o.elim (.error e') .ok = Except.error e →
      e' = e := fun o e' h => by
    cases o <;> cases h
    rfl
  unfold read at h
  split at h
  · obtain rfl := helim _ _ h
    exact ErrorClass.noConfusion
  · obtain rfl := helim _ _ h
    exact ErrorClass.noConfusion
  · obtain rfl := helim _ _ h
    exact ErrorClass.noConfusion
  · cases h
    exact ErrorClass.noConfusion

theorem Environment.errorClass_of_callee {env : Environment} {n : String} {found : Nat}
    {s : Span} {e : RuntimeError} (h : env.callee n found s = .error e) :
    e.errorClass ≠ .declarationConflict := by
  unfold callee at h
  split at h
  · cases h
    exact ErrorClass.noConfusion
  · split at h <;> cases h
    exact ErrorClass.noConfusion

theorem bare_requestBit (prompt : String) (s : Span) :
    Bare id (requestBit prompt s) (requestBit prompt .none) := by
  refine .ask fun r _ h => ?_
  subst h
  rcases r with ⟨_ | _⟩ | b
  · exact .done (.error ⟨rfl, ErrorClass.noConfusion⟩)
  · exact .done (.error ⟨rfl, ErrorClass.noConfusion⟩)
  · exact .done (.ok rfl)

theorem inputPrompt_eraseSpans (args : List Expr) (s : Span) :
    inputPrompt (Expr.eraseSpansAll args) .none = eraseOutcome id (inputPrompt args s) := by
  rcases args with _ | ⟨a, _ | ⟨b, args⟩⟩
  · rfl
  · cases a <;> rfl
  · simp [inputPrompt, Expr.eraseSpansAll, eraseOutcome, RuntimeError.eraseSpan]

theorem errorClass_of_inputPrompt {args : List Expr} {s : Span} {e : RuntimeError}
    (h : inputPrompt args s = .error e) : e.errorClass ≠ .declarationConflict := by
  unfold inputPrompt at h
  split at h <;> cases h <;> exact ErrorClass.noConfusion

/-! ## Evaluation -/

/-- Functions without their places are entered in the same way. -/
def BareEnter (enter enter' : Enter) : Prop :=
  ∀ f bits s, Bare id (enter f bits s) (enter' f.eraseSpans bits .none)

namespace Expr

variable {env : Environment} {enter enter' : Enter} {scope : Scope}

theorem bare_evalAllWith {args : List Expr}
    (h : ∀ a ∈ args, Bare id (a.evalWith env enter scope)
      (a.eraseSpans.evalWith env.eraseSpans enter' scope)) :
    Bare id (evalAllWith env enter scope args)
      (evalAllWith env.eraseSpans enter' scope (eraseSpansAll args)) := by
  induction args with
  | nil => exact coupled_pure rfl
  | cons a args ih =>
    obtain ⟨ha, hargs⟩ := List.forall_mem_cons.1 h
    refine ha.bind fun b _ hb => (ih hargs).bind fun bs _ hbs => coupled_pure ?_
    subst hb hbs
    rfl

theorem bare_evalWith (henter : BareEnter enter enter') (e : Expr) :
    Bare id (e.evalWith env enter scope) (e.eraseSpans.evalWith env.eraseSpans enter' scope) := by
  induction e with
  | lit b s => exact coupled_pure rfl
  | str t s => exact coupled_throw ⟨rfl, ErrorClass.noConfusion⟩
  | var n r s =>
    rw [eraseSpans, evalWith, evalWith, env.read_eraseSpans scope n r s]
    exact bare_ofExcept fun e => Environment.errorClass_of_read
  | binary a op b s iha ihb =>
    refine iha.bind fun x _ hx => ihb.bind fun y _ hy => coupled_pure ?_
    subst hx hy
    rfl
  | not a s ih =>
    refine ih.bind fun x _ hx => coupled_pure ?_
    subst hx
    rfl
  | call n args s ih =>
    rw [eraseSpans, evalWith, evalWith, length_eraseSpansAll, env.callee_eraseSpans n args.length s]
    refine (bare_ofExcept fun e => Environment.errorClass_of_callee).bind fun f _ hf => ?_
    refine (bare_evalAllWith ih).bind fun bits _ hbits => ?_
    subst hf hbits
    exact henter f bits s
  | builtin f args s ih =>
    cases f with
    | toNand | toNor | solveSop | solvePos =>
      rcases args with _ | ⟨a, _ | ⟨b, args⟩⟩
      · exact coupled_throw ⟨rfl, ErrorClass.noConfusion⟩
      · exact ih a (List.mem_singleton_self a)
      · refine coupled_throw ⟨?_, ErrorClass.noConfusion⟩
        simp [RuntimeError.eraseSpan, eraseSpansAll]
    | input =>
      rw [eraseSpans, evalWith, evalWith, inputPrompt_eraseSpans args s]
      refine (bare_ofExcept fun e => errorClass_of_inputPrompt).bind fun prompt _ h => ?_
      subst h
      exact bare_requestBit prompt s
    | print | display | table | graph | exportTo | importFrom => exact coupled_throw ⟨rfl, ErrorClass.noConfusion⟩
  | error m s => exact coupled_throw ⟨rfl, ErrorClass.noConfusion⟩

theorem bare_enterBody (env : Environment) (limit d : Nat) :
    BareEnter (enterBody env limit d) (enterBody env.eraseSpans limit d) := by
  induction d with
  | zero => exact fun f bits s => coupled_throw ⟨rfl, ErrorClass.noConfusion⟩
  | succ d ih => exact fun f bits s => bare_evalWith ih f.body

theorem bare_eval (env : Environment) (limit : Nat) (scope : Scope) (e : Expr) :
    Bare id (e.eval env limit scope) (e.eraseSpans.eval env.eraseSpans limit scope) :=
  bare_evalWith (bare_enterBody env limit limit) e

/-! ## Tables and displayed expressions -/

theorem bare_truthTable (env : Environment) (config : Config) (e : Expr) :
    Bare id (e.truthTable env config) (e.eraseSpans.truthTable env.eraseSpans config) := by
  cases href : e.firstReference? with
  | some reference =>
    obtain ⟨n, s⟩ := reference
    have href' : e.eraseSpans.firstReference? = some (n, .none) := by
      rw [firstReference?_eraseSpans, href]
      rfl
    rw [truthTable_of_reference href, truthTable_of_reference href']
    exact coupled_throw ⟨rfl, ErrorClass.noConfusion⟩
  | none =>
    have href' : e.eraseSpans.firstReference? = none := by
      rw [firstReference?_eraseSpans, href]
      rfl
    by_cases hlimit : config.tableLimit < e.inputs.length
    · rw [truthTable_of_lt href hlimit, truthTable_of_lt href' (by rwa [inputs_eraseSpans]),
        inputs_eraseSpans, span_eraseSpans]
      exact coupled_throw ⟨rfl, ErrorClass.noConfusion⟩
    · rw [truthTable_of_le href rfl (Nat.not_lt.1 hlimit),
        truthTable_of_le href' e.inputs_eraseSpans (Nat.not_lt.1 hlimit)]
      refine (Coupled.sampleAll fun bits => bare_eval env _ _ e).bind fun x y hxy =>
        coupled_pure ?_
      have hbits : x.1 = y.1 := by rwa [← List.forall₂_eq_eq_eq]
      simp only [id, hbits, text_eraseSpans]

theorem bare_displayAllWith {config : Config} {inline inline' : Inline} {args : List Expr}
    (h : ∀ a ∈ args, Bare eraseSpans (a.displayWith env config inline)
      (a.eraseSpans.displayWith env.eraseSpans config inline')) :
    Bare eraseSpansAll (displayAllWith env config inline args)
      (displayAllWith env.eraseSpans config inline' (eraseSpansAll args)) := by
  induction args with
  | nil => exact coupled_pure rfl
  | cons a args ih =>
    obtain ⟨ha, hargs⟩ := List.forall_mem_cons.1 h
    refine ha.bind fun a' _ ha' => (ih hargs).bind fun as' _ has' => coupled_pure ?_
    subst ha' has'
    rfl

/-- The same calls are replaced, by the same parameters and bodies without their places. -/
def BareInline (inline inline' : Inline) : Prop :=
  ∀ n arity, Option.Rel (fun found found' => found.1 = found'.1 ∧ Bare eraseSpans found.2 found'.2)
    (inline n arity) (inline' n arity)

theorem bare_displayWith (config : Config) {inline inline' : Inline}
    (hinline : BareInline inline inline') (e : Expr) :
    Bare eraseSpans (e.displayWith env config inline)
      (e.eraseSpans.displayWith env.eraseSpans config inline') := by
  induction e with
  | lit b s => exact coupled_pure rfl
  | str t s => exact coupled_pure rfl
  | var n r s => exact coupled_pure rfl
  | error m s => exact coupled_pure rfl
  | binary a op b s iha ihb =>
    refine iha.bind fun a' _ ha => ihb.bind fun b' _ hb => coupled_pure ?_
    subst ha hb
    rfl
  | not a s ih =>
    refine ih.bind fun a' _ ha => coupled_pure ?_
    subst ha
    rfl
  | call n args s ih =>
    rw [eraseSpans, displayWith, displayWith, length_eraseSpansAll]
    refine (bare_displayAllWith ih).bind fun args' _ hargs => ?_
    subst hargs
    have hfound := hinline n args.length
    generalize inline n args.length = found, inline' n args.length = found' at hfound ⊢
    rcases hfound with ⟨hparams, hbody⟩ | -
    · refine hbody.bind fun body _ h => coupled_pure ?_
      subst h
      rw [eraseSpans_substitute, eraseSpansAll_eq, List.zip_map_right, hparams]
    · exact coupled_pure rfl
  | builtin f args s ih =>
    cases f with
    | toNand | toNor =>
      rcases args with _ | ⟨a, _ | ⟨b, args⟩⟩
      · exact coupled_throw ⟨rfl, ErrorClass.noConfusion⟩
      · refine (ih a (List.mem_singleton_self a)).bind fun a' _ ha => coupled_pure ?_
        subst ha
        exact eraseSpans_toGateForm _ a'
      · refine coupled_throw ⟨?_, ErrorClass.noConfusion⟩
        simp [RuntimeError.eraseSpan, eraseSpansAll]
    | solveSop | solvePos =>
      rcases args with _ | ⟨a, _ | ⟨b, args⟩⟩
      · exact coupled_throw ⟨rfl, ErrorClass.noConfusion⟩
      · refine (bare_truthTable env config a).bind fun t _ ht => coupled_pure ?_
        subst ht
        rw [Cover.eraseSpans_toExpr, span_eraseSpans, id]
      · refine coupled_throw ⟨?_, ErrorClass.noConfusion⟩
        simp [RuntimeError.eraseSpan, eraseSpansAll]
    | print | display | table | graph | exportTo | importFrom | input =>
      refine (bare_displayAllWith ih).bind fun args' _ hargs => coupled_pure ?_
      subst hargs
      rfl

theorem bare_inlinedBody (env : Environment) (config : Config) (rounds : Nat)
    (available : List Function) :
    BareInline (inlinedBody env config rounds available)
      (inlinedBody env.eraseSpans config rounds (available.map Function.eraseSpans)) := by
  induction rounds generalizing available with
  | zero => exact fun _ _ => .none
  | succ rounds ih =>
    intro n arity
    have hfind : (available.map Function.eraseSpans).find? (·.name = n) =
        (available.find? (·.name = n)).map Function.eraseSpans := List.find?_map ..
    have hothers : (available.map Function.eraseSpans).filter (·.name ≠ n) =
        (available.filter (·.name ≠ n)).map Function.eraseSpans := List.filter_map ..
    simp only [inlinedBody]
    rw [hfind, hothers]
    cases available.find? (·.name = n) with
    | none => exact .none
    | some f =>
      by_cases hf : f.params.length = arity
      · simp only [Option.map_some, Function.eraseSpans, hf, if_true]
        exact .some ⟨rfl, bare_displayWith config (ih _) f.body⟩
      · simp only [Option.map_some, Function.eraseSpans, hf, if_false]
        exact .none

theorem bare_display (env : Environment) (config : Config) (e : Expr) :
    Bare eraseSpans (e.display env config) (e.eraseSpans.display env.eraseSpans config) := by
  refine bare_displayWith config ?_ e
  split
  · rw [Environment.eraseSpans, List.length_map]
    exact bare_inlinedBody env config _ _
  · exact fun _ _ => .none

theorem bare_printed (env : Environment) (config : Config) (e : Expr) :
    Bare id (e.printed env config) (e.eraseSpans.printed env.eraseSpans config) := by
  cases e with
  | str t s => exact coupled_pure rfl
  | lit _ _ | var _ _ _ | binary _ _ _ _ | not _ _ | call _ _ _ | builtin _ _ _ | error _ _ =>
    refine (bare_eval env config.maxCallDepth .empty _).bind fun b _ hb => coupled_pure ?_
    subst hb
    rfl

end Expr

/-! ## Statements -/

theorem Builtin.bare_output (env : Environment) (config : Config) (f : Builtin) (args : List Expr)
    (s : Span) : Bare id (f.output env config args s)
      (f.output env.eraseSpans config (args.map Expr.eraseSpans) .none) := by
  have hargs : ∀ {g g' : Expr → EvalM String}, (∀ a, Bare id (g a) (g' a.eraseSpans)) →
      Bare id (args.mapM g) ((args.map Expr.eraseSpans).mapM g') := fun h =>
    (Coupled.mapM (List.forall₂_map_right_iff.2 (List.forall₂_same.2 fun a _ => h a))).mono
      fun as bs has => by rwa [← List.forall₂_eq_eq_eq]
  have htext : ∀ {separator : String} {m m' : EvalM (List String)}, Bare id m m' →
      Bare id (do return separator.intercalate (← m)) (do return separator.intercalate (← m')) :=
    fun h => h.bind fun as _ has => coupled_pure (has ▸ rfl)
  cases f with
  | print => exact htext (hargs fun a => a.bare_printed env config)
  | display =>
    refine htext (hargs fun a => (a.bare_display env config).bind fun a' _ ha => coupled_pure ?_)
    subst ha
    exact (Expr.text_eraseSpans a').symm
  | table =>
    refine htext (hargs fun a => (a.bare_truthTable env config).bind fun t _ ht => coupled_pure ?_)
    subst ht
    rfl
  | graph | exportTo | importFrom | toNand | toNor | solveSop | solvePos | input =>
    exact coupled_throw ⟨rfl, ErrorClass.noConfusion⟩

def Effect.eraseSpans : Effect → Effect
  | .declare env => .declare env.eraseSpans
  | .emit unit => .emit unit

/-- The same prompts for the same replies, and the outcome without its places. -/
abbrev EvalM.Stripped (f : α → α') (m : EvalM α) (m' : EvalM α') : Prop :=
  Coupled Eq (fun e e' => e.eraseSpan = e') (fun a a' => f a = a') m m'

theorem EvalM.Bare.stripped {f : α → α'} {m : EvalM α} {m' : EvalM α'} (h : Bare f m m') :
    Stripped f m m' := h.mono_error fun _ _ he => he.1

theorem stripped_ofExcept (f : α → α') (r : Except RuntimeError α) :
    Stripped f (EvalM.ofExcept r) (EvalM.ofExcept (eraseOutcome f r)) := by
  cases r with
  | ok a => exact coupled_pure rfl
  | error e => exact coupled_throw rfl

theorem Statement.stripped_effect (env : Environment) (config : Config) (s : Statement) :
    Stripped Effect.eraseSpans (s.effect env config) (s.eraseSpans.effect env.eraseSpans config) := by
  cases s with
  | «variable» n e s =>
    rw [eraseSpans, effect, effect, env.ensureUndeclared_eraseSpans n s]
    refine (stripped_ofExcept id _).bind fun _ _ _ =>
      (e.bare_eval env _ _).stripped.bind fun b _ hb => ?_
    subst hb
    rw [env.declareVariable_eraseSpans n (id b) s]
    refine (stripped_ofExcept _ _).bind fun env' _ henv => coupled_pure ?_
    subst henv
    rfl
  | function f =>
    rw [eraseSpans, effect, effect, env.declareFunction_eraseSpans f]
    refine (stripped_ofExcept _ _).bind fun env' _ henv => coupled_pure ?_
    subst henv
    rfl
  | table t =>
    rw [eraseSpans, effect, effect, t.compile_eraseSpans]
    rw [show t.eraseSpans.span = .none from rfl, show t.eraseSpans.name = t.name from rfl,
      env.ensureUndeclared_eraseSpans t.name t.span]
    refine (stripped_ofExcept id _).bind fun _ _ _ =>
      (stripped_ofExcept _ _).bind fun f _ hf => ?_
    subst hf
    rw [env.declareFunction_eraseSpans f]
    refine (stripped_ofExcept _ _).bind fun env' _ henv => coupled_pure ?_
    subst henv
    rfl
  | builtin f args s =>
    refine (f.bare_output env config args s).stripped.bind fun unit _ h => coupled_pure ?_
    subst h
    rfl
  | error m s => exact coupled_throw rfl

/-! ## Runs -/

def ExecutionError.eraseSpans (e : ExecutionError) : ExecutionError :=
  { e with span := .none, error := e.error.eraseSpan }

namespace Engine

def eraseSpans (g : Engine) : Engine := { g with environment := g.environment.eraseSpans }

/-- The result of a run without its places. -/
def eraseResult : Except ExecutionError (List String) → Except ExecutionError (List String)
  | .ok units => .ok units
  | .error e => .error e.eraseSpans

theorem eraseSpans_apply (g : Engine) (effect : Effect) :
    (g.apply effect).eraseSpans = g.eraseSpans.apply effect.eraseSpans := by
  cases effect <;> rfl

theorem coupled_execute (g : Engine) (s : Statement) :
    Dialogue.Coupled Eq (fun r r' => (eraseOutcome id r.1, r.2.eraseSpans) = r') (g.execute s)
      (g.eraseSpans.execute s.eraseSpans) := by
  refine Dialogue.Coupled.bind (s.stripped_effect g.environment g.config) fun r r' hout => ?_
  cases hout with
  | ok heffect =>
    subst heffect
    exact .done (congrArg (Prod.mk _) (g.eraseSpans_apply _))
  | error he =>
    subst he
    exact .done rfl

theorem coupled_runFrom (g : Engine) (start index : Nat) (p : Program) :
    Dialogue.Coupled Eq (fun r r' => (eraseResult r.1, r.2.eraseSpans) = r')
      (g.runFrom start index p) (g.eraseSpans.runFrom start index (p.map Statement.eraseSpans)) := by
  induction p generalizing g index with
  | nil => exact .done rfl
  | cons s p ih =>
    refine (coupled_execute g s).bind fun r r' hr => ?_
    subst hr
    rcases r with ⟨e | u, g'⟩
    · refine .done ?_
      simp only [eraseResult, ExecutionError.eraseSpans, s.text_eraseSpans, s.span_eraseSpans]
      rfl
    · exact ih g' (index + 1)

end Engine

/-! ## Programs that differ in places only -/

/-- A computation with the places taken out of its outcome. -/
def EvalM.erase (f : α → α') (m : EvalM α) : EvalM α' :=
  ExceptT.mk do return eraseOutcome f (← m.run)

theorem EvalM.Bare.erase_eq {f : α → α'} {m : EvalM α} {m' : EvalM α'} (h : Bare f m m') :
    m.erase f = m' := by
  refine Dialogue.Coupled.map_eq (Dialogue.Coupled.mono h fun r r' hout => ?_)
  cases hout with
  | ok h => exact congrArg Except.ok h
  | error h => exact congrArg Except.error h.1

/-- **Places do not matter.** Expressions, tables and environments that differ in places only have
gate forms, functions, truth tables and displayed forms that do, or the same error up to its place,
and ask for the same. So two programs that differ in places only have the same runs: the same prompts,
the same output, the same failing statement with the same error up to its place, and the same
declarations up to places. -/
theorem eraseSpans_determines :
    (∀ (g : Gate) (e e' : Expr), e.eraseSpans = e'.eraseSpans →
      (e.toGateForm g).eraseSpans = (e'.toGateForm g).eraseSpans) ∧
    (∀ t t' : FunctionTable, t.eraseSpans = t'.eraseSpans →
      eraseOutcome Function.eraseSpans t.compile = eraseOutcome Function.eraseSpans t'.compile) ∧
    (∀ (config : Config) (env env' : Environment) (e e' : Expr), env.eraseSpans = env'.eraseSpans →
      e.eraseSpans = e'.eraseSpans →
        (e.truthTable env config).erase id = (e'.truthTable env' config).erase id ∧
        (e.display env config).erase Expr.eraseSpans =
          (e'.display env' config).erase Expr.eraseSpans) ∧
    (∀ (t : TruthTable) (form : Form) (s s' : Span), ((t.minimize form).toExpr s).eraseSpans =
      ((t.minimize form).toExpr s').eraseSpans) ∧
    ∀ (config : Config) (p p' : Program),
      p.map Statement.eraseSpans = p'.map Statement.eraseSpans →
      ∀ {σ : Type} [Replier σ] (r : σ),
        let o := ((Engine.fresh config).run p).run (Recorded.mk r [])
        let o' := ((Engine.fresh config).run p').run (Recorded.mk r [])
        Engine.eraseResult o.1.1 = Engine.eraseResult o'.1.1 ∧
          o.1.2.eraseSpans = o'.1.2.eraseSpans ∧ o.2 = o'.2 := by
  refine ⟨fun g e e' he => ?_, fun t t' ht => ?_, fun config env env' e e' henv he => ⟨?_, ?_⟩,
    fun t form s s' => ?_, fun config p p' hp σ _ r => ?_⟩
  · rw [Expr.eraseSpans_toGateForm, he, ← Expr.eraseSpans_toGateForm]
  · rw [← t.compile_eraseSpans, ht, t'.compile_eraseSpans]
  · rw [(e.bare_truthTable env config).erase_eq, (e'.bare_truthTable env' config).erase_eq, henv, he]
  · rw [(e.bare_display env config).erase_eq, (e'.bare_display env' config).erase_eq, henv, he]
  · rw [Cover.eraseSpans_toExpr, Cover.eraseSpans_toExpr]
  · have h := (Engine.coupled_runFrom (.fresh config) 0 0 p).run_eq (Recorded.mk r [])
    have h' := (Engine.coupled_runFrom (.fresh config) 0 0 p').run_eq (Recorded.mk r [])
    rw [hp] at h
    have hresult := h.1.trans h'.1.symm
    exact ⟨congrArg Prod.fst hresult, congrArg Prod.snd hresult, h.2.trans h'.2.symm⟩

/-- `A = INPUT(); SHOW(TO_NAND(A)); PRINT(B);` as it stands in a text. -/
def placedProgram : Program :=
  [.variable "A" (.builtin .input [] ⟨4, 11⟩) ⟨0, 12⟩,
    .builtin .display [.builtin .toNand [.not (.var "A" false ⟨30, 31⟩) ⟨26, 31⟩] ⟨18, 32⟩] ⟨13, 34⟩,
    .builtin .print [.var "B" false ⟨41, 42⟩] ⟨35, 44⟩]

/-- With and without its places, the program asks once, displays `A nand A` and fails at its last
statement, there at the place of `B`, here at none. -/
theorem eraseSpans_determines_placedProgram :
    let p' := placedProgram.map Statement.eraseSpans
    let o := ((Engine.fresh {}).run placedProgram).run (Recorded.mk (Script.mk [some true]) [])
    let o' := ((Engine.fresh {}).run p').run (Recorded.mk (Script.mk [some true]) [])
    placedProgram.map Statement.eraseSpans = p'.map Statement.eraseSpans ∧
      o.1.1 = .error ⟨2, "PRINT(B);", ⟨35, 44⟩, .undefinedVariable "B" ⟨41, 42⟩, ["A nand A"]⟩ ∧
      o'.1.1 = .error ⟨2, "PRINT(B);", .none, .undefinedVariable "B" .none, ["A nand A"]⟩ ∧
      Engine.eraseResult o.1.1 = Engine.eraseResult o'.1.1 ∧
      o.1.2.eraseSpans = o'.1.2.eraseSpans ∧ o.2 = o'.2 := by
  intro p' o o'
  have hp : placedProgram.map Statement.eraseSpans = p'.map Statement.eraseSpans := rfl
  obtain ⟨hresult, hengine, hprompts⟩ :=
    eraseSpans_determines.2.2.2.2 {} placedProgram p' hp (Script.mk [some true])
  exact ⟨hp, by rfl, by rfl, hresult, hengine, hprompts⟩

end Switching
