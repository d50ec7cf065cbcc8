import Switching.Proofs.Engine.Execution

/-!
# Runs one after another

* `ExecutionError.after`, `Engine.after`: how a run reads as the end of a longer one.
* `Engine.runFrom_eq`: a run that has begun is a run of the rest, after what has been done.
* **`Engine.run_append`**: a program of two parts runs as the first one and then the second one.
* `Engine.Executes`: statements succeed, each on the engine and the replier that the one before left.
* `Engine.executes_of_run`, `Engine.executes_of_run_error`: what a run did, by its result.
* **`Engine.run_composes`**: both together.
-/

namespace Switching

/-- How a run failed, seen from the beginning of a program whose first `n` statements had the output
`units`. -/
def ExecutionError.after (n : Nat) (units : List String) (e : ExecutionError) : ExecutionError :=
  { e with index := n + e.index, output := units ++ e.output }

namespace Engine

/-- The result of a run, seen from the beginning of a program whose first `n` statements had the
output `units`. -/
def after (n : Nat) (units : List String) :
    Except ExecutionError (List String) → Except ExecutionError (List String)
  | .ok later => .ok (units ++ later)
  | .error e => .error (e.after n units)

theorem after_after (n k : Nat) (units later : List String)
    (r : Except ExecutionError (List String)) :
    after n units (after k later r) = after (n + k) (units ++ later) r := by
  cases r with
  | ok _ => simp only [after, List.append_assoc]
  | error e => simp only [after, ExecutionError.after, List.append_assoc, Nat.add_assoc]

/-! ## Runs that have begun -/

theorem runFrom_cons (g : Engine) (start index : Nat) (s : Statement) (p : Program) :
    g.runFrom start index (s :: p) = do
      match ← (s.effect g.environment g.config).run with
      | .ok effect => (g.apply effect).runFrom start (index + 1) p
      | .error e => return (.error ⟨index, s.text, s.span, e, g.output.drop start⟩, g) := by
  rw [runFrom, execute, bind_assoc]
  refine bind_congr fun r => ?_
  cases r <;> rfl

theorem exists_output_apply (g : Engine) (effect : Effect) :
    ∃ units, (g.apply effect).output = g.output ++ units := by
  cases effect with
  | declare env => exact ⟨[], (List.append_nil _).symm⟩
  | emit unit => exact ⟨[unit], rfl⟩

/-- A run that has begun is a run of the rest, after the statements and the output so far. -/
theorem runFrom_eq (g : Engine) {start : Nat} (hstart : start ≤ g.output.length) (index : Nat)
    (p : Program) :
    g.runFrom start index p = do
      let (r, g') ← g.run p
      return (after index (g.output.drop start) r, g') := by
  induction p generalizing g start index with
  | nil =>
    simp only [run, runFrom, pure_bind, after, List.drop_length, List.append_nil]
  | cons s p ih =>
    rw [run, runFrom_cons, runFrom_cons, bind_assoc]
    refine bind_congr fun r => ?_
    cases r with
    | error e =>
      simp only [pure_bind, after, ExecutionError.after, List.drop_length, List.append_nil,
        Nat.add_zero]
    | ok effect =>
      obtain ⟨units, hunits⟩ := exists_output_apply g effect
      have hle : g.output.length ≤ (g.apply effect).output.length := by
        rw [hunits, List.length_append]
        exact Nat.le_add_right _ _
      -- Both sides go on with the same run: from `start` on, and from the end of the old output on.
      dsimp only
      rw [ih (g.apply effect) (Nat.le_trans hstart hle) (index + 1), ih (g.apply effect) hle 1, bind_assoc]
      refine bind_congr fun r => ?_
      simp only [pure_bind, after_after, hunits, List.drop_append_of_le_length hstart,
        List.drop_left]

theorem runFrom_append (g : Engine) {start : Nat} (hstart : start ≤ g.output.length) (index : Nat)
    (p q : Program) :
    g.runFrom start index (p ++ q) = do
      match ← g.runFrom start index p with
      | (.ok units, g') => do
        let (r, g'') ← g'.run q
        return (after (index + p.length) units r, g'')
      | (.error e, g') => return (.error e, g') := by
  induction p generalizing g index with
  | nil => exact runFrom_eq g hstart index q
  | cons s p ih =>
    rw [List.cons_append, runFrom_cons, runFrom_cons, bind_assoc]
    refine bind_congr fun r => ?_
    cases r with
    | error e => rfl
    | ok effect =>
      obtain ⟨units, hunits⟩ := exists_output_apply g effect
      have hle : start ≤ (g.apply effect).output.length := by
        rw [hunits, List.length_append]
        exact Nat.le_add_right_of_le hstart
      have h := ih (g.apply effect) hle (index + 1)
      rwa [Nat.add_assoc, Nat.add_comm 1] at h

/-- **A program of two parts** runs as the first part and, if that succeeds, the second one. -/
theorem run_append (g : Engine) (p q : Program) :
    g.run (p ++ q) = do
      match ← g.run p with
      | (.ok units, g') => do
        let (r, g'') ← g'.run q
        return (after p.length units r, g'')
      | (.error e, g') => return (.error e, g') := by
  have h := runFrom_append g (Nat.le_refl g.output.length) 0 p q
  rwa [Nat.zero_add] at h

/-! ## What a run does -/

section Executes

variable {σ : Type} [Replier σ] {g g' : Engine} {r r' : σ} {p : Program} {start index : Nat}

/-- All statements of a program succeed, each on the engine and the replier that the one before
left. -/
inductive Executes : Engine → σ → Program → Engine → σ → Prop where
  | nil {g : Engine} {r : σ} : Executes g r [] g r
  | cons {g g₁ g' : Engine} {r r₁ r' : σ} {s : Statement} {p : Program}
    (hs : (g.execute s).run r = ((.ok (), g₁), r₁)) (hp : Executes g₁ r₁ p g' r') :
    Executes g r (s :: p) g' r'

theorem Executes.exists_output (h : Executes g r p g' r') :
    ∃ units, g'.output = g.output ++ units := by
  induction h with
  | nil => exact ⟨[], (List.append_nil _).symm⟩
  | @cons g _ _ _ _ _ _ _ hs _ ih =>
    obtain ⟨units, hunits⟩ := ih
    obtain ⟨effect, -, rfl⟩ := exists_effect_of_execute hs
    obtain ⟨first, hfirst⟩ := exists_output_apply g effect
    exact ⟨first ++ units, by rw [hunits, hfirst, List.append_assoc]⟩

theorem Executes.output_eq (h : Executes g r p g' r') :
    g'.output = g.output ++ g'.output.drop g.output.length := by
  obtain ⟨units, hunits⟩ := h.exists_output
  rw [hunits, List.drop_left]

theorem Executes.run_runFrom_append (h : Executes g r p g' r') (q : Program) :
    (g.runFrom start index (p ++ q)).run r =
      (g'.runFrom start (index + p.length) q).run r' := by
  induction h generalizing index with
  | nil => rfl
  | cons hs _ ih =>
    rw [List.cons_append, runFrom, Dialogue.run_bind, hs, List.length_cons, ← Nat.add_assoc,
      Nat.add_right_comm]
    exact ih

theorem executes_of_runFrom {units : List String}
    (h : (g.runFrom start index p).run r = ((.ok units, g'), r')) :
    Executes g r p g' r' ∧ units = g'.output.drop start := by
  induction p generalizing g r index with
  | nil =>
    cases h
    exact ⟨.nil, rfl⟩
  | cons s p ih =>
    rw [runFrom, Dialogue.run_bind] at h
    rcases hs : (g.execute s).run r with ⟨⟨e | u, g₁⟩, r₁⟩ <;> rw [hs] at h
    · cases h
    · obtain ⟨hp, hunits⟩ := ih h
      exact ⟨.cons hs hp, hunits⟩

/-- A run that fails has executed the statements before the one that it reports, and that one
fails on its own, too. -/
theorem executes_of_runFrom_error {e : ExecutionError}
    (h : (g.runFrom start index p).run r = ((.error e, g'), r')) :
    ∃ before s rest r₁, p = before ++ s :: rest ∧ Executes g r before g' r₁ ∧
      (g'.execute s).run r₁ = ((.error e.error, g'), r') ∧
      e = ⟨index + before.length, s.text, s.span, e.error, g'.output.drop start⟩ := by
  induction p generalizing g r index with
  | nil => cases h
  | cons s p ih =>
    rw [runFrom, Dialogue.run_bind] at h
    rcases hs : (g.execute s).run r with ⟨⟨e | u, g₁⟩, r₁⟩ <;> rw [hs] at h
    · cases h
      obtain ⟨-, rfl⟩ := effect_of_execute_error hs
      exact ⟨[], s, p, r, rfl, .nil, hs, rfl⟩
    · obtain ⟨before, s', rest, r₂, rfl, hbefore, hs', he⟩ := ih h
      refine ⟨s :: before, s', rest, r₂, rfl, .cons hs hbefore, hs', ?_⟩
      rw [he, List.length_cons, Nat.add_right_comm, Nat.add_assoc]

/-- **Runs compose.** A program of two parts runs as the first part and, if that succeeds, the second
one. A run executes its statements one by one up to the first that fails, reports the output of those
before it and nothing else, and does not depend on what follows. -/
theorem run_composes (g : Engine) :
    (∀ p q : Program, g.run (p ++ q) = do
      match ← g.run p with
      | (.ok units, g') => do
        let (r, g'') ← g'.run q
        return (after p.length units r, g'')
      | (.error e, g') => return (.error e, g')) ∧
    ∀ {σ : Type} [Replier σ] (r : σ) (p : Program),
      match (g.run p).run r with
      | ((.ok units, g'), r') => Executes g r p g' r' ∧ g'.output = g.output ++ units
      | ((.error e, g'), r') => ∃ before s rest r₁, p = before ++ s :: rest ∧
        Executes g r before g' r₁ ∧ (g'.execute s).run r₁ = ((.error e.error, g'), r') ∧
        e.index = before.length ∧ e.statement = s.text ∧ e.span = s.span ∧
        g'.output = g.output ++ e.output ∧
        ∀ rest', (g.run (before ++ s :: rest')).run r = ((.error e, g'), r') := by
  refine ⟨run_append g, fun r p => ?_⟩
  rcases hrun : (g.run p).run r with ⟨⟨e | units, g'⟩, r'⟩
  · obtain ⟨before, s, rest, r₁, rfl, hbefore, hs, he⟩ := executes_of_runFrom_error hrun
    rw [Nat.zero_add] at he
    have houtput : e.output = g'.output.drop g.output.length := congrArg ExecutionError.output he
    refine ⟨before, s, rest, r₁, rfl, hbefore, hs, congrArg ExecutionError.index he,
      congrArg ExecutionError.statement he, congrArg ExecutionError.span he, ?_, fun rest' => ?_⟩
    · rw [houtput, ← hbefore.output_eq]
    · rw [run, hbefore.run_runFrom_append, runFrom, Dialogue.run_bind, hs, Nat.zero_add]
      rw [he]
      rfl
  · obtain ⟨hp, rfl⟩ := executes_of_runFrom hrun
    exact ⟨hp, hp.output_eq⟩

end Executes

end Engine

end Switching
