import Gunda.Lib.Program

/-!
# Interleaved programs

Tasks share a state and take turns in any order, one operation at a time. A
`Discipline` says what each task needs before an operation and what it may rely
on while the others move; `Discipline.Safe` is proved of one task at a time and
holds of the whole pool after every schedule (`Discipline.AllSafe.run`).
-/
namespace Gunda.Lib

/-- How a task's operation is answered: `none` while it cannot proceed. -/
abbrev Environment (Op : Type) (Ans : Op → Type) (Choice σ : Type) : Type :=
  Nat → (op : Op) → Choice → σ → Option (Ans op × σ)

structure Pool (Op : Type) (Ans : Op → Type) (α σ : Type) where
  tasks : List (Program Op Ans α)
  state : σ

namespace Pool

variable {Op : Type} {Ans : Op → Type} {Choice α σ : Type}

/-- One move: the chosen task performs its next operation. -/
def step (E : Environment Op Ans Choice σ) (pool : Pool Op Ans α σ) (move : Nat × Choice) :
    Option (Pool Op Ans α σ) :=
  match pool.tasks[move.1]? with
  | some (.step op next) =>
      (E move.1 op move.2 pool.state).map fun answered =>
        ⟨pool.tasks.set move.1 (next answered.1), answered.2⟩
  | _ => none

def run (E : Environment Op Ans Choice σ) (pool : Pool Op Ans α σ) :
    List (Nat × Choice) → Option (Pool Op Ans α σ)
  | [] => some pool
  | move :: rest => (pool.step E move).bind fun next => next.run E rest

/-- The operation a task performs when it moves next. -/
def pending (pool : Pool Op Ans α σ) (task : Nat) : Option Op :=
  match pool.tasks[task]? with
  | some (.step op _) => some op
  | _ => none

/-- A condition on the state before each move of a schedule. -/
def Meets (E : Environment Op Ans Choice σ) (condition : Nat → Op → σ → Prop)
    (pool : Pool Op Ans α σ) : List (Nat × Choice) → Prop
  | [] => True
  | move :: rest =>
      (∀ op ∈ pool.pending move.1, condition move.1 op pool.state) ∧
        ∀ next ∈ pool.step E move, next.Meets E condition rest

instance Meets.decide (E : Environment Op Ans Choice σ) (condition : Nat → Op → σ → Prop)
    [∀ task op s, Decidable (condition task op s)] (pool : Pool Op Ans α σ)
    (schedule : List (Nat × Choice)) : Decidable (pool.Meets E condition schedule) :=
  match schedule with
  | [] => isTrue trivial
  | move :: rest =>
      have : ∀ next : Pool Op Ans α σ, Decidable (next.Meets E condition rest) :=
        fun next => Meets.decide E condition next rest
      inferInstanceAs (Decidable ((∀ op ∈ pool.pending move.1, condition move.1 op pool.state) ∧
        ∀ next ∈ pool.step E move, next.Meets E condition rest))

theorem step_eq_some {E : Environment Op Ans Choice σ} {pool next : Pool Op Ans α σ}
    {move : Nat × Choice} (h : pool.step E move = some next) :
    ∃ op after answer,
      pool.tasks[move.1]? = some (.step op after) ∧
      E move.1 op move.2 pool.state = some (answer, next.state) ∧
      next.tasks = pool.tasks.set move.1 (after answer) := by
  unfold step at h
  split at h
  · rename_i op after found
    obtain ⟨⟨answer, t⟩, answered, rfl⟩ := Option.map_eq_some_iff.mp h
    exact ⟨op, after, answer, found, answered, rfl⟩
  · cases h

theorem pending_of_getElem? {pool : Pool Op Ans α σ} {task : Nat} {op : Op}
    {after : Ans op → Program Op Ans α} (h : pool.tasks[task]? = some (.step op after)) :
    pool.pending task = some op := by
  simp only [pending, h]

end Pool

/-- What each task needs before an operation, and what it relies on while others
move. `admitted` restricts the moves under consideration. -/
structure Discipline {Op : Type} {Ans : Op → Type} {Choice σ : Type}
    (E : Environment Op Ans Choice σ) where
  requires : Nat → Op → σ → Prop
  admitted : Nat → Op → σ → Prop
  rely : Nat → σ → σ → Prop
  rely_refl : ∀ i s, rely i s s
  rely_trans : ∀ {i s t u}, rely i s t → rely i t u → rely i s u
  respects : ∀ {i j op choice s answer t}, i ≠ j → admitted i op s → requires i op s →
    E i op choice s = some (answer, t) → rely j s t

namespace Discipline

variable {Op : Type} {Ans : Op → Type} {Choice α β ε σ : Type}
  {E : Environment Op Ans Choice σ} (D : Discipline E)

variable {i : Nat} {s : σ} {P E' : σ → Prop} {p : Fallible Op Ans ε α}

/-- Every operation of the task meets its requirement, whatever the other tasks
do in between, and the task ends in `Q`. -/
def Safe (i : Nat) : Program Op Ans α → (α → σ → Prop) → σ → Prop
  | .done value, Q, s => ∀ t, D.rely i s t → Q value t
  | .step op next, Q, s => ∀ t, D.rely i s t → D.admitted i op t →
      D.requires i op t ∧
        ∀ choice answer u, E i op choice t = some (answer, u) → Safe i (next answer) Q u

variable {D}

variable (D)

/-- One operation of the task after any moves of the others. -/
def spec (i : Nat) : Spec Op Ans σ where
  requires op s := ∀ t, D.rely i s t → D.admitted i op t → D.requires i op t
  ensures op s answer u :=
    ∃ t choice, D.rely i s t ∧ D.admitted i op t ∧ E i op choice t = some (answer, u)

variable {D} {Q : α → σ → Prop}

/-- Safety is a precondition over these operations. -/
theorem safe_iff_wp {p : Program Op Ans α} :
    D.Safe i p Q s ↔ Program.wp (D.spec i) p (fun value t => ∀ u, D.rely i t u → Q value u) s := by
  induction p generalizing s with
  | done value => exact Iff.rfl
  | step op next ih =>
    constructor
    · intro safe
      refine ⟨fun t moved admitted => (safe t moved admitted).1, ?_⟩
      rintro answer u ⟨t, choice, moved, admitted, answered⟩
      exact (ih answer).mp ((safe t moved admitted).2 choice answer u answered)
    · intro ready t moved admitted
      exact ⟨ready.1 t moved admitted, fun choice answer u answered =>
        (ih answer).mpr (ready.2 answer u ⟨t, choice, moved, admitted, answered⟩)⟩

/-- Safety survives the moves of other tasks. -/
theorem Safe.of_rely {p : Program Op Ans α} {t : σ} (safe : D.Safe i p Q s) (moved : D.rely i s t) :
    D.Safe i p Q t := by
  cases p with
  | done value => exact fun u later => safe u (D.rely_trans moved later)
  | step op next => exact fun u later => safe u (D.rely_trans moved later)

theorem Safe.mono {p : Program Op Ans α} {R : α → σ → Prop} (safe : D.Safe i p Q s)
    (weaker : ∀ value t, Q value t → R value t) : D.Safe i p R s := by
  induction p generalizing s with
  | done value => exact fun t moved => weaker _ _ (safe t moved)
  | step op next ih =>
    intro t moved admitted
    obtain ⟨required, continued⟩ := safe t moved admitted
    exact ⟨required, fun choice answer u answered =>
      ih answer (continued choice answer u answered)⟩

theorem Safe.bind {p : Program Op Ans α} {f : α → Program Op Ans β} {Q : β → σ → Prop}
    (safe : D.Safe i p (fun value t => D.Safe i (f value) Q t) s) : D.Safe i (p >>= f) Q s := by
  change D.Safe i (p.bind f) Q s
  induction p generalizing s with
  | done value => exact safe s (D.rely_refl i s)
  | step op next ih =>
    intro t moved admitted
    obtain ⟨required, continued⟩ := safe t moved admitted
    exact ⟨required, fun choice answer u answered =>
      ih answer (continued choice answer u answered)⟩

variable (D)

/-- An assertion the other tasks cannot invalidate. -/
def Stable (i : Nat) (P : σ → Prop) : Prop := ∀ {s t}, P s → D.rely i s t → P t

/-- From `P` the task runs safely and ends in `Q`. -/
def Triple (i : Nat) (P : σ → Prop) (p : Program Op Ans α) (Q : α → σ → Prop) : Prop :=
  ∀ s, P s → D.Safe i p Q s

variable {D}

theorem Triple.done {value : α} (stable : D.Stable i (Q value)) (h : ∀ s, P s → Q value s) :
    D.Triple i P (pure value : Program Op Ans α) Q :=
  fun s holds _ moved => stable (h s holds) moved

theorem Triple.bind {p : Program Op Ans α} {f : α → Program Op Ans β} {R : β → σ → Prop}
    (first : D.Triple i P p Q) (second : ∀ value, D.Triple i (Q value) (f value) R) :
    D.Triple i P (p >>= f) R :=
  fun s holds => ((first s holds).mono fun value t => second value t).bind

variable (D)

/-- A triple of a program that may fail: `E` holds where it does. -/
def Attempt (i : Nat) (P : σ → Prop) (p : Fallible Op Ans ε α) (Q : α → σ → Prop)
    (E' : σ → Prop) : Prop :=
  D.Triple i P p.run (fun result s => match result with
    | .ok value => Q value s
    | .error _ => E' s)

variable {D}

theorem Attempt.pure {value : α} (stable : D.Stable i (Q value)) (h : ∀ s, P s → Q value s) :
    D.Attempt i P (pure value : Fallible Op Ans ε α) Q E' :=
  Triple.done stable h

theorem Attempt.throw {i : Nat} {P E' : σ → Prop} {error : ε} (stable : D.Stable i E')
    (h : ∀ s, P s → E' s) :
    D.Attempt i P (throw error : Fallible Op Ans ε α) Q E' :=
  fun s holds _ moved => stable (h s holds) moved

theorem Attempt.bind {f : α → Fallible Op Ans ε β} {R : β → σ → Prop} (stable : D.Stable i E')
    (first : D.Attempt i P p Q E') (second : ∀ value, D.Attempt i (Q value) (f value) R E') :
    D.Attempt i P (p >>= f) R E' := by
  refine Triple.bind (p := p.run) first fun result => ?_
  cases result with
  | ok value => exact second value
  | error e => exact fun s holds _ moved => stable holds moved

section Perform

variable {op : Op} {Q : Ans op → σ → Prop} (stable : D.Stable i P)
  (stableAfter : ∀ answer, D.Stable i (Q answer))
  (required : ∀ s, P s → D.admitted i op s → D.requires i op s)
  (answered : ∀ s choice answer t, P s → D.admitted i op s →
    E i op choice s = some (answer, t) → Q answer t)

include stable stableAfter required answered

theorem Triple.perform : D.Triple i P (Program.perform op : Program Op Ans _) Q := by
  intro s holds t moved admitted
  have here : P t := stable holds moved
  refine ⟨required t here admitted, fun choice answer u e v later => ?_⟩
  exact stableAfter answer (answered t choice answer u here admitted e) later

theorem Attempt.perform : D.Attempt i P (Fallible.perform op : Fallible Op Ans ε _) Q E' :=
  Triple.perform stable stableAfter required answered

end Perform

/-- Renaming the error changes nothing else. -/
theorem Attempt.adapt {ε' : Type} {f : ε → ε'} (stable : ∀ value, D.Stable i (Q value))
    (stableError : D.Stable i E') (attempt : D.Attempt i P p Q E') :
    D.Attempt i P (ExceptT.adapt f p) Q E' := by
  refine Triple.bind (p := p.run) attempt fun result => ?_
  cases result with
  | ok value => exact fun s holds _ moved => stable value holds moved
  | error e => exact fun s holds _ moved => stableError holds moved

/-- What an assertion says about values only may be used as a hypothesis. -/
theorem Attempt.of_fact {known : Prop} (learn : ∀ s, P s → known)
    (attempt : known → D.Attempt i P p Q E') : D.Attempt i P p Q E' :=
  fun s holds => attempt (learn s holds) s holds

theorem Attempt.learned {fact : Prop} (attempt : fact → D.Attempt i P p Q E') :
    D.Attempt i (fun s => fact ∧ P s) p Q E' :=
  fun s holds => attempt holds.1 s holds.2

/-- Every task of the pool is safe. -/
def AllSafe (D : Discipline E) (Q : Nat → α → σ → Prop) (pool : Pool Op Ans α σ) : Prop :=
  ∀ i p, pool.tasks[i]? = some p → D.Safe i p (Q i) pool.state

theorem AllSafe.step {Q : Nat → α → σ → Prop} {pool next : Pool Op Ans α σ}
    {move : Nat × Choice} (safe : D.AllSafe Q pool)
    (admitted : ∀ op ∈ pool.pending move.1, D.admitted move.1 op pool.state)
    (moved : pool.step E move = some next) :
    (∃ op choice answer, D.requires move.1 op pool.state ∧ D.admitted move.1 op pool.state ∧
      E move.1 op choice pool.state = some (answer, next.state)) ∧ D.AllSafe Q next := by
  obtain ⟨op, after, answer, found, answered, tasks⟩ := Pool.step_eq_some moved
  have here : D.admitted move.1 op pool.state := admitted op (Pool.pending_of_getElem? found)
  have ready := safe move.1 _ found pool.state (D.rely_refl _ _) here
  refine ⟨⟨op, move.2, answer, ready.1, here, answered⟩, ?_⟩
  intro j p member
  by_cases same : move.1 = j
  · subst same
    have inside : move.1 < pool.tasks.length := (List.getElem?_eq_some_iff.mp found).1
    rw [tasks, List.getElem?_set_self inside] at member
    cases member
    exact ready.2 move.2 answer next.state answered
  · rw [tasks, List.getElem?_set_ne same] at member
    exact (safe j p member).of_rely (D.respects same here ready.1 answered)

/-- An invariant every permitted operation preserves holds after every schedule
whose moves are admitted, and the tasks remain safe. -/
theorem AllSafe.run {Q : Nat → α → σ → Prop} {I : σ → Prop}
    (preserved : ∀ {i op choice s answer t}, D.admitted i op s → D.requires i op s →
      E i op choice s = some (answer, t) → I s → I t)
    {pool final : Pool Op Ans α σ} {schedule : List (Nat × Choice)}
    (safe : D.AllSafe Q pool) (holds : I pool.state)
    (admitted : pool.Meets E D.admitted schedule)
    (ran : pool.run E schedule = some final) : D.AllSafe Q final ∧ I final.state := by
  induction schedule generalizing pool with
  | nil =>
    cases ran
    exact ⟨safe, holds⟩
  | cons move rest ih =>
    obtain ⟨next, moved, ran⟩ := Option.bind_eq_some_iff.mp ran
    obtain ⟨⟨op, choice, answer, required, here, answered⟩, later⟩ :=
      safe.step admitted.1 moved
    exact ih later (preserved here required answered holds) (admitted.2 next moved) ran

end Discipline

end Gunda.Lib
