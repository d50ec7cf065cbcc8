import Mathlib.Data.List.Nodup
import Mathlib.Logic.Relation
import Switching.Engine.Environment

/-!
# Declarations

A declaration adds one name that was free; nothing else happens to an environment.

* `Environment.Declares`: one declaration, with what it asks for.
* `Environment.declareVariable_eq_ok_iff`, `Environment.declareFunction_eq_ok_iff`: declaring comes
  to that.
* `Environment.Grows`: any number of declarations.
* `Environment.WellFormed`: every name is declared once, and parameters are distinct.
* **`Environment.Grows.wellFormed`**, **`Environment.Grows.bit?_eq_some`**,
  **`Environment.Grows.function?_eq_some`**: declarations keep an environment well-formed, and every
  earlier one stays as it is.
-/

namespace Switching.Environment

variable {env env' : Environment} {n : String} {s : Span}

/-! ## Free names -/

theorem declared?_eq_none_iff :
    env.declared? n = none ↔ env.bit? n = none ∧ env.function? n = none := by
  unfold declared?
  cases env.bit? n <;> cases env.function? n <;> simp

theorem ensureUndeclared_eq_ok_iff {u : Unit} :
    env.ensureUndeclared n s = .ok u ↔ env.declared? n = none := by
  unfold ensureUndeclared
  cases env.declared? n <;> simp

theorem firstRepeated?_eq_none_iff {seen ns : List String} :
    firstRepeated? seen ns = none ↔ ns.Nodup ∧ ∀ m ∈ ns, m ∉ seen := by
  induction ns generalizing seen with
  | nil => simp [firstRepeated?]
  | cons m ns ih =>
    rw [firstRepeated?, List.nodup_cons, List.forall_mem_cons]
    by_cases hm : m ∈ seen
    · simp [hm]
    · rw [if_neg hm, ih]
      simp only [List.mem_cons, not_or]
      constructor
      · rintro ⟨hnodup, hns⟩
        exact ⟨⟨fun hmem => (hns m hmem).1 rfl, hnodup⟩, hm, fun k hk => (hns k hk).2⟩
      · rintro ⟨⟨hmem, hnodup⟩, -, hns⟩
        exact ⟨hnodup, fun k hk => ⟨fun hkm => hmem (hkm ▸ hk), hns k hk⟩⟩

/-! ## One declaration -/

/-- The environment with one more name, which was free. -/
inductive Declares (env : Environment) : String → Environment → Prop where
  | global {n : String} {b : Bool} (hfree : env.declared? n = none) :
    Declares env n { env with globals := env.globals ++ [(n, b)] }
  | function {f : Function} (hfree : env.declared? f.name = none) (hparams : f.params.Nodup) :
    Declares env f.name { env with functions := env.functions ++ [f] }

theorem declareVariable_eq_ok_iff {b : Bool} :
    env.declareVariable n b s = .ok env' ↔
      env.declared? n = none ∧ env' = { env with globals := env.globals ++ [(n, b)] } := by
  rw [declareVariable, ← ensureUndeclared_eq_ok_iff (s := s) (u := ())]
  cases env.ensureUndeclared n s with
  | error e => exact ⟨(nomatch ·), fun h => nomatch h.1⟩
  | ok u => exact ⟨fun h => ⟨rfl, (Except.ok.inj h).symm⟩, fun h => congrArg Except.ok h.2.symm⟩

theorem declareFunction_eq_ok_iff {f : Function} :
    env.declareFunction f = .ok env' ↔
      env.declared? f.name = none ∧ f.params.Nodup ∧
        env' = { env with functions := env.functions ++ [f] } := by
  have hparams : firstRepeated? [] f.params = none ↔ f.params.Nodup := by
    simp [firstRepeated?_eq_none_iff]
  rw [declareFunction, ← ensureUndeclared_eq_ok_iff (s := f.span) (u := ()), ← hparams]
  cases env.ensureUndeclared f.name f.span with
  | error e => exact ⟨(nomatch ·), fun h => nomatch h.1⟩
  | ok u =>
    cases firstRepeated? [] f.params with
    | some p => exact ⟨(nomatch ·), fun h => nomatch h.2.1⟩
    | none =>
      exact ⟨fun h => ⟨rfl, rfl, (Except.ok.inj h).symm⟩,
        fun h => congrArg Except.ok h.2.2.symm⟩

theorem declares_of_declareVariable {b : Bool} (h : env.declareVariable n b s = .ok env') :
    env.Declares n env' := by
  obtain ⟨hfree, rfl⟩ := declareVariable_eq_ok_iff.1 h
  exact .global hfree

theorem declares_of_declareFunction {f : Function} (h : env.declareFunction f = .ok env') :
    env.Declares f.name env' := by
  obtain ⟨hfree, hparams, rfl⟩ := declareFunction_eq_ok_iff.1 h
  exact .function hfree hparams

/-! ## Well-formed environments -/

/-- All names that are declared, those of variables first. -/
def names (env : Environment) : List String :=
  env.globals.map (·.1) ++ env.functions.map (·.name)

/-- Every name is declared once, and the parameters of a function are distinct. -/
structure WellFormed (env : Environment) : Prop where
  nodup_names : env.names.Nodup
  nodup_params : ∀ f ∈ env.functions, f.params.Nodup

theorem bit?_eq_none_iff : env.bit? n = none ↔ n ∉ env.globals.map (·.1) := by
  rw [bit?, List.lookup_eq_none_iff, List.mem_map]
  constructor
  · rintro h ⟨p, hp, rfl⟩
    simpa using h p hp
  · intro h p hp
    exact bne_iff_ne.2 fun hn => h ⟨p, hp, hn.symm⟩

theorem function?_eq_none_iff : env.function? n = none ↔ n ∉ env.functions.map (·.name) := by
  rw [function?, List.find?_eq_none]
  simp

theorem declared?_eq_none_iff_notMem : env.declared? n = none ↔ n ∉ env.names := by
  rw [declared?_eq_none_iff, bit?_eq_none_iff, function?_eq_none_iff, names, List.mem_append,
    not_or]

theorem wellFormed_empty : empty.WellFormed := ⟨List.nodup_nil, fun _ h => nomatch h⟩

theorem WellFormed.bit?_or_function?_eq_none (h : env.WellFormed) (n : String) :
    env.bit? n = none ∨ env.function? n = none := by
  rw [bit?_eq_none_iff, function?_eq_none_iff]
  by_cases hn : n ∈ env.globals.map (·.1)
  · exact .inr fun hfunction => List.disjoint_of_nodup_append h.nodup_names hn hfunction
  · exact .inl hn

theorem Declares.wellFormed (h : env.Declares n env') (henv : env.WellFormed) :
    env'.WellFormed := by
  have hnew : ∀ {m}, env.declared? m = none → m ∉ env.names :=
    declared?_eq_none_iff_notMem.1
  cases h with
  | global hfree =>
    refine ⟨?_, henv.nodup_params⟩
    rw [names, List.map_append, List.append_assoc]
    exact List.nodup_middle.2 (List.nodup_cons.2 ⟨hnew hfree, henv.nodup_names⟩)
  | @function f hfree hparams =>
    refine ⟨?_, List.forall_mem_append.2 ⟨henv.nodup_params, by simpa using hparams⟩⟩
    rw [names, List.map_append, ← List.append_assoc]
    exact (List.perm_append_singleton f.name env.names).nodup_iff.2
      (List.nodup_cons.2 ⟨hnew hfree, henv.nodup_names⟩)

/-! ## Growth -/

theorem Declares.bit?_eq_some (h : env.Declares n env') {m : String} {b : Bool}
    (hm : env.bit? m = some b) : env'.bit? m = some b := by
  cases h with
  | global hfree => rw [bit?, List.lookup_append, ← bit?, hm, Option.some_or]
  | function hfree hparams => exact hm

theorem Declares.function?_eq_some (h : env.Declares n env') {m : String} {f : Function}
    (hm : env.function? m = some f) : env'.function? m = some f := by
  cases h with
  | global hfree => exact hm
  | function hfree hparams => rw [function?, List.find?_append, ← function?, hm, Option.some_or]

/-- Any number of declarations. -/
def Grows : Environment → Environment → Prop :=
  Relation.ReflTransGen fun env env' => ∃ n, env.Declares n env'

/-- **Declarations keep an environment well-formed.** -/
theorem Grows.wellFormed (h : env.Grows env') (henv : env.WellFormed) : env'.WellFormed := by
  induction h with
  | refl => exact henv
  | tail _ hstep ih =>
    obtain ⟨n, hn⟩ := hstep
    exact hn.wellFormed ih

theorem Grows.bit?_eq_some (h : env.Grows env') {n : String} {b : Bool}
    (hn : env.bit? n = some b) : env'.bit? n = some b := by
  induction h with
  | refl => exact hn
  | tail _ hstep ih =>
    obtain ⟨m, hm⟩ := hstep
    exact hm.bit?_eq_some ih

theorem Grows.function?_eq_some (h : env.Grows env') {n : String} {f : Function}
    (hn : env.function? n = some f) : env'.function? n = some f := by
  induction h with
  | refl => exact hn
  | tail _ hstep ih =>
    obtain ⟨m, hm⟩ := hstep
    exact hm.function?_eq_some ih

end Switching.Environment
