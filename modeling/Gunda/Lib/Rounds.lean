import Mathlib.Order.Basic

/-!
# Loops

A loop whose rounds end with a result, fail, or go on with another state. Its runs are
finite by definition; `run_eq` carries them to a bounded count of rounds.
-/
namespace Gunda.Lib

variable {ε ε' σ τ α β : Type}

/-- The loop comes to an end with a result. -/
inductive Rounds (round : σ → Except ε (α ⊕ σ)) : σ → Except ε α → Prop where
  | failed {state : σ} {error : ε} (step : round state = .error error) :
      Rounds round state (.error error)
  | ended {state : σ} {value : α} (step : round state = .ok (.inl value)) :
      Rounds round state (.ok value)
  | next {state later : σ} {result : Except ε α} (step : round state = .ok (.inr later))
      (rest : Rounds round later result) : Rounds round state result

namespace Rounds

variable {round : σ → Except ε (α ⊕ σ)} {state start : σ}
variable {result : Except ε α}

theorem unique {other : Except ε α} (first : Rounds round state result)
    (second : Rounds round state other) : result = other := by
  induction first with
  | failed step =>
    cases second with
    | failed step' =>
      rw [step] at step'
      cases step'
      rfl
    | ended step' =>
      rw [step] at step'
      cases step'
    | next step' _ =>
      rw [step] at step'
      cases step'
  | ended step =>
    cases second with
    | failed step' =>
      rw [step] at step'
      cases step'
    | ended step' =>
      rw [step] at step'
      cases step'
      rfl
    | next step' _ =>
      rw [step] at step'
      cases step'
  | next step _ ih =>
    cases second with
    | failed step' =>
      rw [step] at step'
      cases step'
    | ended step' =>
      rw [step] at step'
      cases step'
    | next step' rest =>
      rw [step] at step'
      cases step'
      exact ih rest

/-- At most the given number of rounds; none where they are not enough. -/
def run (round : σ → Except ε (α ⊕ σ)) : Nat → σ → Option (Except ε α)
  | 0, _ => none
  | rounds + 1, state => match round state with
      | .error error => some (.error error)
      | .ok (.inl value) => some (.ok value)
      | .ok (.inr later) => run round rounds later

theorem run_eq (measure : σ → Nat)
    (decreases : ∀ state later, round state = .ok (.inr later) → measure later < measure state)
    {rounds : Nat} (h : Rounds round state result) (enough : measure state < rounds) :
    run round rounds state = some result := by
  induction h generalizing rounds with
  | failed step =>
    cases rounds with
    | zero => cases enough
    | succ rounds => rw [run, step]
  | ended step =>
    cases rounds with
    | zero => cases enough
    | succ rounds => rw [run, step]
  | next step _ ih =>
    cases rounds with
    | zero => cases enough
    | succ rounds =>
      have shorter := decreases _ _ step
      rw [run, step]
      exact ih (by omega)

/-- The states that the loop comes to. -/
inductive Reaches (round : σ → Except ε (α ⊕ σ)) (start : σ) : σ → Prop where
  | start : Reaches round start start
  | next {state later : σ} (reached : Reaches round start state)
      (step : round state = .ok (.inr later)) : Reaches round start later

/-- What every round keeps holds of every state that the loop comes to. -/
theorem Reaches.keeps {P : σ → Prop} (first : P start)
    (keeps : ∀ state later, P state → round state = .ok (.inr later) → P later)
    (reached : Reaches round start state) : P state := by
  induction reached with
  | start => exact first
  | next _ step ih => exact keeps _ _ ih step

theorem Reaches.after {next : σ} (step : round start = .ok (.inr next))
    (reached : Reaches round next state) : Reaches round start state := by
  induction reached with
  | start => exact .next .start step
  | next _ later ih => exact .next ih later

/-- A result is that of a last round. -/
theorem last {value : α} (rounds : Rounds round start (.ok value)) :
    ∃ state, Reaches round start state ∧ round state = .ok (.inl value) := by
  generalize same : Except.ok value = result at rounds
  induction rounds with
  | failed => cases same
  | ended step =>
    cases same
    exact ⟨_, .start, step⟩
  | next step _ ih =>
    obtain ⟨state, reached, ended⟩ := ih same
    exact ⟨state, reached.after step, ended⟩

/-- What the loop ends with from the later state, it ends with from the first. -/
def Follows (round : σ → Except ε (α ⊕ σ)) (state later : σ) : Prop :=
  ∀ result, Rounds round later result → Rounds round state result

theorem Follows.trans {middle later : σ} (first : Follows round state middle)
    (second : Follows round middle later) : Follows round state later :=
  fun result rounds => first result (second result rounds)

theorem Follows.step {later : σ} (step : round state = .ok (.inr later)) :
    Follows round state later := fun _ rounds => .next step rounds

/-- Two states with the same round have the same results. -/
theorem Follows.same {later : σ} (same : round state = round later) :
    Follows round state later := by
  intro result rounds
  cases rounds with
  | failed step => exact .failed (same.trans step)
  | ended step => exact .ended (same.trans step)
  | next step rest => exact .next (same.trans step) rest

/-- One loop as another one with its errors and states translated: what a round of the first
does, a round of the second does. -/
theorem simulates {round' : τ → Except ε' (α ⊕ τ)} {translate : ε → ε'} {R : σ → τ → Prop}
    (failed : ∀ state image error, R state image → round state = .error error →
      round' image = .error (translate error))
    (ended : ∀ state image value, R state image → round state = .ok (.inl value) →
      round' image = .ok (.inl value))
    (next : ∀ state image later, R state image → round state = .ok (.inr later) →
      ∃ later', round' image = .ok (.inr later') ∧ R later later') {image : τ}
    (related : R state image) (rounds : Rounds round state result) :
    Rounds round' image (result.mapError translate) := by
  induction rounds generalizing image with
  | failed step => exact .failed (failed _ _ _ related step)
  | ended step => exact .ended (ended _ _ _ related step)
  | next step _ ih =>
    obtain ⟨later, step', related⟩ := next _ _ _ related step
    exact .next step' (ih related)

end Rounds

end Gunda.Lib
