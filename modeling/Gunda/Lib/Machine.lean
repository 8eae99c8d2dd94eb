/-!
# Machines

A partial step function over actions, its runs, and conditions on the state before each
action. What every admitted step keeps, a whole run keeps.
-/
namespace Gunda.Lib.Machine

variable {σ α : Type} (step : σ → α → Option σ)
variable {state : σ} {actions : List α} {property : σ → Prop}

/-- All actions in order; `none` where one cannot happen. -/
def run : σ → List α → Option σ
  | state, [] => some state
  | state, action :: rest => (step state action).bind fun next => run next rest

/-- A condition on the state before each action of a run. -/
def Meets (condition : σ → α → Prop) : σ → List α → Prop
  | _, [] => True
  | state, action :: rest =>
      condition state action ∧ ∀ next, step state action = some next → Meets condition next rest

/-- A property of the first state and of every state reached. -/
def Always (property : σ → Prop) : σ → List α → Prop
  | state, [] => property state
  | state, action :: rest =>
      property state ∧ ∀ next, step state action = some next → Always property next rest

instance Meets.decide (condition : σ → α → Prop) [∀ state action, Decidable (condition state action)]
    (state : σ) (actions : List α) : Decidable (Meets step condition state actions) :=
  match actions with
  | [] => isTrue trivial
  | action :: rest =>
      have later : Decidable (∀ next, step state action = some next →
          Meets step condition next rest) :=
        match stepped : step state action with
        | none => isTrue fun next same => by cases same
        | some next => match Meets.decide condition next rest with
            | isTrue holds => isTrue fun other same => by cases same; exact holds
            | isFalse fails => isFalse fun all_ => fails (all_ next rfl)
      inferInstanceAs (Decidable (_ ∧ _))

variable {step} {condition : σ → α → Prop}

theorem meets_cons {next : σ} {action : α} (stepped : step state action = some next) :
    Meets step condition state (action :: actions) ↔
      condition state action ∧ Meets step condition next actions := by
  refine and_congr_right fun _ => ⟨fun met => met next stepped, fun met other same => ?_⟩
  cases stepped.symm.trans same
  exact met

theorem invariant_of_meets {I : σ → Prop}
    (kept : ∀ state action next, I state → condition state action → step state action = some next →
      I next) {final : σ} (start : I state) (met : Meets step condition state actions)
    (ran : run step state actions = some final) :
    I final := by
  induction actions generalizing state with
  | nil =>
    cases ran
    exact start
  | cons action rest ih =>
    obtain ⟨next, stepped, ran⟩ := Option.bind_eq_some_iff.mp ran
    exact ih (kept state action next start met.1 stepped) (met.2 next stepped) ran

/-- Conditions that agree on every step from a sound state are met by the same runs. -/
theorem meets_congr {first second : σ → α → Prop} {I : σ → Prop}
    (agree : ∀ state action next, I state → step state action = some next →
      (first state action ↔ second state action) ∧ (second state action → I next))
    (start : I state) {final : σ} (ran : run step state actions = some final) :
    Meets step first state actions ↔ Meets step second state actions := by
  induction actions generalizing state with
  | nil => exact Iff.rfl
  | cons action rest ih =>
    obtain ⟨next, stepped, ran⟩ := Option.bind_eq_some_iff.mp ran
    obtain ⟨same, kept⟩ := agree state action next start stepped
    rw [meets_cons stepped, meets_cons stepped, same]
    exact and_congr_right fun met => ih (kept met) ran

theorem Always.first (always : Always step property state actions) : property state := by
  cases actions with
  | nil => exact always
  | cons action rest => exact always.1

theorem Always.run {final : σ} (always : Always step property state actions)
    (ran : run step state actions = some final) :
    property final := by
  induction actions generalizing state with
  | nil =>
    cases ran
    exact always
  | cons action rest ih =>
    obtain ⟨next, stepped, ran⟩ := Option.bind_eq_some_iff.mp ran
    exact ih (always.2 next stepped) ran

/-- Where a step keeps the invariant exactly when it leads to the property, the property holds
throughout exactly when every step meets the condition. The invariant may count the steps. -/
theorem always_iff_meets {I : σ → Nat → Prop} {bound : Nat}
    (holds : ∀ state n, I state n → property state)
    (idle : ∀ state action, step state action = none → condition state action)
    (kept : ∀ state n action next, I state n → n < bound → step state action = some next →
      condition state action → I next (n + 1))
    (needed : ∀ state n action next, I state n → n < bound → step state action = some next →
      property next → condition state action) {n : Nat} (start : I state n)
    (few : n + actions.length ≤ bound) :
    Always step property state actions ↔ Meets step condition state actions := by
  induction actions generalizing state n with
  | nil => exact ⟨fun _ => trivial, fun _ => holds state n start⟩
  | cons action rest ih =>
    rw [List.length_cons] at few
    have early : n < bound := by omega
    constructor
    · intro always
      have met : condition state action := by
        cases stepped : step state action with
        | none => exact idle state action stepped
        | some next =>
          exact needed state n action next start early stepped (always.2 next stepped).first
      refine ⟨met, fun next stepped => ?_⟩
      have later := kept state n action next start early stepped met
      exact (ih later (by omega)).mp (always.2 next stepped)
    · intro meets
      refine ⟨holds state n start, fun next stepped => ?_⟩
      have later := kept state n action next start early stepped meets.1
      exact (ih later (by omega)).mpr (meets.2 next stepped)

end Gunda.Lib.Machine
