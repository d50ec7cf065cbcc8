import Mathlib.Data.List.Duplicate
import Switching.Engine.Basic
import Switching.Proofs.Engine.FunctionTables

/-!
# Declaring tables

The statement of a table passes three checks: the name is free, the table is valid, and the function
that it gives can be declared. The last one never fails where the others have passed.

* `TableError.Describes`: what an error says of a table is so. `FunctionTable.describes_of_validate`:
  that holds of the error with which a table is refused.
* `Engine.execute_table_of_declared`, `Engine.execute_table_of_error`, `Engine.execute_table_of_valid`:
  the three ways in which the statement goes.
* **`Engine.execute_table`**: a table is declared exactly if its name is free and it is valid.
-/

namespace Switching

/-! ## Refused tables -/

/-- What the error says of the table is so. -/
inductive TableError.Describes (t : FunctionTable) : TableError → Prop where
  | repeatedParameter {n : String} (h : t.names.Duplicate n) : Describes t (.repeatedParameter n)
  | patternLength {r : TableRow} (hr : r ∈ t.rows)
    (h : r.pattern.length < t.params.length ∨ t.names.length < r.pattern.length) :
    Describes t
      (.patternLength (Bits.text r.pattern) r.pattern.length t.params.length t.names.length)
  | repeatedPattern {bits : List Bool} (h : (t.rows.map (·.pattern)).Duplicate bits) :
    Describes t (.repeatedPattern (Bits.text bits))

/-- The name that is found stands a second time in the list, or once there and once before it. -/
theorem Environment.duplicate_of_firstRepeated? {seen ns : List String} {n : String}
    (h : firstRepeated? seen ns = some n) : n ∈ seen ∧ n ∈ ns ∨ ns.Duplicate n := by
  induction ns generalizing seen with
  | nil => cases h
  | cons m ns ih =>
    rw [firstRepeated?] at h
    split_ifs at h with hm
    · cases h
      exact .inl ⟨hm, List.mem_cons_self⟩
    · rcases ih h with ⟨hseen, hns⟩ | hdup
      · rcases List.mem_cons.1 hseen with rfl | hseen
        · exact .inr (.cons_mem hns)
        · exact .inl ⟨hseen, List.mem_cons_of_mem m hns⟩
      · exact .inr (hdup.duplicate_cons m)

namespace FunctionTable

variable {t : FunctionTable} {reason : TableError}

/-- The checked rows stand behind `before`, whose patterns have been seen. -/
theorem describes_of_checkRows {before rows : List TableRow} {seen : List (List Bool)}
    (hrows : t.rows = before ++ rows) (hseen : ∀ bits ∈ seen, bits ∈ before.map (·.pattern))
    (h : t.checkRows seen rows = .error reason) : reason.Describes t := by
  induction rows generalizing before seen with
  | nil => cases h
  | cons r rows ih =>
    have hlength : t.params.length + t.subparams.length = t.names.length := by simp [names]
    simp only [checkRows, hlength] at h
    split_ifs at h with hbounds hagain
    · cases h
      exact .patternLength (by simp [hrows]) hbounds
    · cases h
      refine .repeatedPattern ?_
      have htwice : (t.rows.map (·.pattern)) =
          before.map (·.pattern) ++ r.pattern :: rows.map (·.pattern) := by simp [hrows]
      rw [htwice, List.duplicate_iff_sublist, ← List.singleton_append]
      exact (List.singleton_sublist.2 (hseen _ hagain)).append
        (List.singleton_sublist.2 List.mem_cons_self)
    · have hrest : t.rows = before ++ [r] ++ rows := by simp [hrows]
      refine ih hrest ?_ h
      intro bits hbits
      rcases List.mem_cons.1 hbits with rfl | hbits
      · simp
      · exact List.map_append ▸ List.mem_append_left _ (hseen bits hbits)

theorem describes_of_validate (h : t.validate = .error reason) : reason.Describes t := by
  rw [validate] at h
  cases hnames : Environment.firstRepeated? [] t.names with
  | some n =>
    rw [hnames] at h
    cases h
    rcases Environment.duplicate_of_firstRepeated? hnames with ⟨hseen, -⟩ | hdup
    · cases hseen
    · exact .repeatedParameter hdup
  | none =>
    rw [hnames] at h
    exact describes_of_checkRows (List.nil_append _).symm (by simp) h

/-- The function of a valid table. -/
def function (t : FunctionTable) : Function := ⟨t.name, t.names, t.body, t.span⟩

end FunctionTable

/-! ## The statement -/

namespace Engine

variable {g : Engine} {t : FunctionTable}

theorem execute_table_of_declared {k : Declared} (hk : g.environment.declared? t.name = some k) :
    g.execute (.table t) = .done (.error (.alreadyDeclared t.name k t.span), g) := by
  have htaken : g.environment.ensureUndeclared t.name t.span =
      .error (.alreadyDeclared t.name k t.span) := by
    rw [Environment.ensureUndeclared, hk]
  rw [execute, Statement.effect, htaken]
  rfl

theorem execute_table_of_error {reason : TableError}
    (hfree : g.environment.declared? t.name = none) (hreason : t.validate = .error reason) :
    g.execute (.table t) = .done (.error (.invalidTable t.name reason t.span), g) := by
  have hundeclared : g.environment.ensureUndeclared t.name t.span = .ok () :=
    Environment.ensureUndeclared_eq_ok_iff.2 hfree
  have hcompile : t.compile = .error (.invalidTable t.name reason t.span) := by
    rw [FunctionTable.compile, hreason]
  rw [execute, Statement.effect, hundeclared, hcompile]
  rfl

/-- The parameters of a valid table are distinct, so its function is declared. -/
theorem execute_table_of_valid (hfree : g.environment.declared? t.name = none) (ht : t.Valid) :
    g.execute (.table t) = .done (.ok (), { g with environment :=
      { g.environment with functions := g.environment.functions ++ [t.function] } }) := by
  have hundeclared : g.environment.ensureUndeclared t.name t.span = .ok () :=
    Environment.ensureUndeclared_eq_ok_iff.2 hfree
  have hcompile : t.compile = .ok t.function := FunctionTable.compile_eq_ok_iff.2 ⟨ht, rfl⟩
  have hdeclare : g.environment.declareFunction t.function =
      .ok { g.environment with functions := g.environment.functions ++ [t.function] } :=
    Environment.declareFunction_eq_ok_iff.2 ⟨hfree, ht.nodup_names, rfl⟩
  rw [execute, Statement.effect, hundeclared, hcompile]
  simp only [EvalM.ofExcept, pure_bind, hdeclare]
  rfl

/-- **A table is declared exactly if its name is free and it is valid**, in every engine and whoever
replies, for nothing is asked. Its name then stands for the function of the table, whose parameters
are those of the table and then the subparameters. Otherwise the engine stays as it is; the error is
that the name is taken, if it is, and else that the table is invalid, with something that is wrong
with it. It is never that a parameter is repeated. -/
theorem execute_table (g : Engine) (t : FunctionTable) :
    ∃ result g', g.execute (.table t) = .done (result, g') ∧
      (result = .ok () ↔ g.environment.declared? t.name = none ∧ t.Valid) ∧
      (result = .ok () → ∃ f, t.compile = .ok f ∧ g'.environment.function? t.name = some f ∧
        f.params = t.params ++ t.subparams) ∧
      ∀ e, result = .error e → g' = g ∧
        (∀ k, g.environment.declared? t.name = some k → e = .alreadyDeclared t.name k t.span) ∧
        (g.environment.declared? t.name = none →
          ∃ reason, e = .invalidTable t.name reason t.span ∧ reason.Describes t) ∧
        ∀ f p s, e ≠ .duplicateParameter f p s := by
  cases hname : g.environment.declared? t.name with
  | some k =>
    refine ⟨_, _, execute_table_of_declared hname, by simp, by simp, ?_⟩
    rintro e ⟨⟩
    exact ⟨rfl, by simp, by simp, by simp⟩
  | none =>
    cases hvalid : t.validate with
    | error reason =>
      have hinvalid : ¬ t.Valid := fun ht => by
        rw [FunctionTable.validate_eq_ok_iff.2 ht] at hvalid
        cases hvalid
      refine ⟨_, _, execute_table_of_error hname hvalid, by simp [hinvalid], by simp, ?_⟩
      rintro e ⟨⟩
      exact ⟨rfl, by simp, fun _ => ⟨reason, rfl, FunctionTable.describes_of_validate hvalid⟩,
        by simp⟩
    | ok u =>
      have ht : t.Valid := FunctionTable.validate_eq_ok_iff.1 hvalid
      refine ⟨_, _, execute_table_of_valid hname ht, by simp [ht], fun _ => ?_, by simp⟩
      refine ⟨t.function, FunctionTable.compile_eq_ok_iff.2 ⟨ht, rfl⟩, ?_, rfl⟩
      have hnew : g.environment.function? t.name = none :=
        (Environment.declared?_eq_none_iff.1 hname).2
      rw [Environment.function?] at hnew
      rw [Environment.function?, List.find?_append, hnew]
      simp [FunctionTable.function]

end Engine

end Switching
