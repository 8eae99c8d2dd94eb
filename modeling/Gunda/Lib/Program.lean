import Mathlib.Logic.Relation

/-!
# Programs over answered operations

A program performs operations and continues with whatever its surroundings
answer. The surroundings are a `Spec`: what must hold before an operation, and
which answers and next states it admits. `wp` is the weakest precondition over a
spec, sound for every partial execution (`wp_steps`), so a condition required
before each operation holds at every point where an execution may be cut off.
-/
namespace Gunda.Lib

inductive Program (Op : Type) (Ans : Op → Type) (α : Type) : Type where
  | done (value : α)
  | step (op : Op) (next : Ans op → Program Op Ans α)

/-- The assumptions a program makes about the operations it performs. -/
structure Spec (Op : Type) (Ans : Op → Type) (σ : Type) where
  requires : Op → σ → Prop
  ensures : (op : Op) → σ → Ans op → σ → Prop

/-- The same spec beside a value no operation changes. -/
def Spec.beside {Op : Type} {Ans : Op → Type} {σ : Type} (S : Spec Op Ans σ) (κ : Type) :
    Spec Op Ans (σ × κ) where
  requires op s := S.requires op s.1
  ensures op s answer t := S.ensures op s.1 answer t.1 ∧ t.2 = s.2

/-- Surroundings that answer by choices: `none` where a choice is no answer. -/
abbrev Surroundings (Op : Type) (Ans : Op → Type) (Choice σ : Type) : Type :=
  (op : Op) → Choice → σ → Option (Ans op × σ)

/-- Every choice the surroundings admit, under what is required before an operation. -/
def Surroundings.spec {Op : Type} {Ans : Op → Type} {Choice σ : Type}
    (E : Surroundings Op Ans Choice σ) (requires : Op → σ → Prop) : Spec Op Ans σ where
  requires := requires
  ensures op s answer t := ∃ choice, E op choice s = some (answer, t)

namespace Program

variable {Op : Type} {Ans : Op → Type} {α β ε σ : Type}

def bind : Program Op Ans α → (α → Program Op Ans β) → Program Op Ans β
  | .done value, f => f value
  | .step op next, f => .step op fun answer => (next answer).bind f

instance : Monad (Program Op Ans) where
  pure := .done
  bind := bind

theorem bind_done (p : Program Op Ans α) : p.bind .done = p := by
  induction p with
  | done value => rfl
  | step op next ih => simp only [bind, ih]

theorem bind_assoc {γ : Type} (p : Program Op Ans α) (f : α → Program Op Ans β)
    (g : β → Program Op Ans γ) : (p.bind f).bind g = p.bind fun v => (f v).bind g := by
  induction p with
  | done value => rfl
  | step op next ih => simp only [bind, ih]

instance : LawfulMonad (Program Op Ans) :=
  LawfulMonad.mk' _ bind_done (fun _ _ => rfl) bind_assoc

/-- Performs one operation and returns its answer. -/
def perform (op : Op) : Program Op Ans (Ans op) := .step op .done

/-- One operation answered by the surroundings. -/
inductive Step (S : Spec Op Ans σ) :
    Program Op Ans α × σ → Program Op Ans α × σ → Prop where
  | mk {op : Op} {next : Ans op → Program Op Ans α} {s t : σ} {answer : Ans op}
      (answered : S.ensures op s answer t) : Step S (.step op next, s) (next answer, t)

/-- Any number of operations: every point an execution can be cut off at. -/
abbrev Steps (S : Spec Op Ans σ) :
    Program Op Ans α × σ → Program Op Ans α × σ → Prop :=
  Relation.ReflTransGen (Step S)

def wp (S : Spec Op Ans σ) : Program Op Ans α → (α → σ → Prop) → σ → Prop
  | .done value, Q, s => Q value s
  | .step op next, Q, s =>
      S.requires op s ∧ ∀ answer t, S.ensures op s answer t → wp S (next answer) Q t

@[simp] theorem wp_done (S : Spec Op Ans σ) (value : α) (Q : α → σ → Prop) (s : σ) :
    wp S (.done value) Q s ↔ Q value s := Iff.rfl

theorem wp_perform (S : Spec Op Ans σ) (op : Op) (Q : Ans op → σ → Prop) (s : σ) :
    wp S (perform op) Q s ↔
      S.requires op s ∧ ∀ answer t, S.ensures op s answer t → Q answer t := Iff.rfl

/-- Sequencing: the second program runs in whatever state the first one leaves. -/
theorem wp_bind (S : Spec Op Ans σ) (p : Program Op Ans α) (f : α → Program Op Ans β)
    (Q : β → σ → Prop) (s : σ) :
    wp S (p >>= f) Q s ↔ wp S p (fun value t => wp S (f value) Q t) s := by
  change wp S (p.bind f) Q s ↔ _
  induction p generalizing s with
  | done value => rfl
  | step op next ih => simp only [bind, wp, ih]

variable {p : Program Op Ans α} {Q : α → σ → Prop} {S : Spec Op Ans σ}

theorem wp_mono {R : α → σ → Prop} {s : σ} (h : wp S p Q s)
    (weaker : ∀ value t, Q value t → R value t) : wp S p R s := by
  induction p generalizing s with
  | done value => exact weaker _ _ h
  | step op next ih =>
    exact ⟨h.1, fun answer t answered => ih answer (h.2 answer t answered)⟩

variable {requires : Op → σ → Prop}

theorem wp_weaken {s : σ} (h : wp S p Q s) (less : ∀ op s, S.requires op s → requires op s) :
    wp { S with requires := requires } p Q s := by
  induction p generalizing s with
  | done value => exact h
  | step op next ih =>
    exact ⟨less op s h.1, fun answer t answered => ih answer (h.2 answer t answered)⟩

/-- Where nothing is required, nothing is promised either. -/
theorem wp_free (free : ∀ op s, S.requires op s) (p : Program Op Ans α) (s : σ) :
    wp S p (fun _ _ => True) s := by
  induction p generalizing s with
  | done value => trivial
  | step op next ih => exact ⟨free op s, fun answer t _ => ih answer t⟩

variable {before after : Program Op Ans α × σ}

theorem wp_of_step (stepped : Step S before after) (h : wp S before.1 Q before.2) :
    wp S after.1 Q after.2 := by
  cases stepped with
  | mk answered => exact h.2 _ _ answered

/-- A precondition established at the start holds again at every point reached. -/
theorem wp_steps (run : Steps S before after) (h : wp S before.1 Q before.2) :
    wp S after.1 Q after.2 := by
  induction run with
  | refl => exact h
  | tail _ stepped ih => exact wp_of_step stepped ih

/-- What is required before every operation and holds at the end holds at every
point an execution can be cut off at. -/
theorem invariant_of_wp {I : σ → Prop} (required : ∀ op s, S.requires op s → I s)
    (final : ∀ value s, Q value s → I s) (run : Steps S before after)
    (h : wp S before.1 Q before.2) : I after.2 := by
  have reached := wp_steps run h
  obtain ⟨program, s⟩ := after
  cases program with
  | done value => exact final value s reached
  | step op next => exact required op s reached.1

variable {value : α}

/-- A finished execution meets its postcondition. -/
theorem post_of_wp {s t : σ} (run : Steps S (p, s) (.done value, t)) (h : wp S p Q s) : Q value t :=
  wp_steps run h

/-- A program may assume of its end that it was reached. -/
theorem wp_of_reached {s : σ} (h : wp S p (fun _ _ => True) s)
    (reached : ∀ value t, Steps S (p, s) (.done value, t) → Q value t) : wp S p Q s := by
  induction p generalizing s with
  | done value => exact reached value s Relation.ReflTransGen.refl
  | step op next ih =>
    refine ⟨h.1, fun answer t answered => ih answer (h.2 answer t answered) ?_⟩
    exact fun value u later => reached value u (Relation.ReflTransGen.head (Step.mk answered) later)

theorem wp_beside {κ : Type} {s : σ} {k : κ} (h : wp S p Q s) :
    wp (S.beside κ) p (fun value t => Q value t.1 ∧ t.2 = k) (s, k) := by
  induction p generalizing s with
  | done value => exact ⟨h, rfl⟩
  | step op next ih =>
    refine ⟨h.1, ?_⟩
    rintro answer ⟨t, kept⟩ ⟨answered, rfl⟩
    exact ih answer (h.2 answer t answered)

/-! ## Operations carried out by programs -/

/-- Whatever it is answered, a program performs allowed operations only. -/
def Asks (allowed : Op → Prop) (p : Program Op Ans α) : Prop :=
  wp ⟨fun op (_ : Unit) => allowed op, fun _ _ _ _ => True⟩ p (fun _ _ => True) ()

section Asks

variable {allowed : Op → Prop}

theorem asks_step {op : Op} {next : Ans op → Program Op Ans α} :
    Asks allowed (.step op next) ↔ allowed op ∧ ∀ answer, Asks allowed (next answer) := by
  constructor
  · intro h
    exact ⟨h.1, fun answer => h.2 answer () trivial⟩
  · intro h
    exact ⟨h.1, fun answer _ _ => h.2 answer⟩

theorem Asks.perform {op : Op} (h : allowed op) :
    Asks allowed (Program.perform op : Program Op Ans (Ans op)) :=
  asks_step.mpr ⟨h, fun _ => trivial⟩

variable {p : Program Op Ans α}

theorem Asks.bind {f : α → Program Op Ans β} (first : Asks allowed p)
    (later : ∀ value, Asks allowed (f value)) : Asks allowed (p >>= f) := by
  unfold Asks
  rw [wp_bind]
  exact wp_mono first fun value _ _ => later value

theorem Asks.map {f : α → β} (h : Asks allowed p) :
    Asks allowed (f <$> p) := by
  rw [map_eq_pure_bind]
  exact h.bind fun _ => trivial

/-- What every allowed operation keeps holds after the program. -/
theorem Asks.keeps {I : σ → Prop} (h : Asks allowed p) (S : Spec Op Ans σ)
    (required : ∀ op s, allowed op → I s → S.requires op s)
    (kept : ∀ op s answer t, allowed op → I s → S.ensures op s answer t → I t) {s : σ}
    (holds : I s) : Program.wp S p (fun _ t => I t) s := by
  induction p generalizing s with
  | done value => exact holds
  | step op next ih =>
    obtain ⟨first, later⟩ := asks_step.mp h
    exact ⟨required op s first holds, fun answer t answered =>
      ih answer (later answer) (kept op s answer t first holds answered)⟩

/-- What is asked whatever is answered is asked under any spec. -/
theorem Asks.wp (h : Asks allowed p) (S : Spec Op Ans σ)
    (required : ∀ op s, allowed op → S.requires op s) (s : σ) :
    Program.wp S p (fun _ _ => True) s :=
  h.keeps S (fun op s first _ => required op s first) (fun _ _ _ _ _ _ _ => trivial) trivial

end Asks

section

variable {Op' : Type} {Ans' : Op' → Type} (handler : (op : Op) → Program Op' Ans' (Ans op))

/-- Every operation is carried out by a program over other operations. -/
def interpret : Program Op Ans α → Program Op' Ans' α
  | .done value => .done value
  | .step op next => (handler op).bind fun answer => interpret (next answer)

/-- A program keeps what it is proved to keep when its operations are carried out by
programs that keep what is assumed of them. -/
theorem wp_interpret {S' : Spec Op' Ans' σ}
    (handled : ∀ op s, S.requires op s → wp S' (handler op) (S.ensures op s) s)
    {p : Program Op Ans α} {s : σ} (h : wp S p Q s) :
    wp S' (interpret handler p) Q s := by
  induction p generalizing s with
  | done value => exact h
  | step op next ih =>
    change wp S' (handler op >>= fun answer => interpret handler (next answer)) Q s
    rw [wp_bind]
    apply wp_mono (handled op s h.1)
    intro answer t answered
    exact ih answer (h.2 answer t answered)

theorem asks_interpret {allowed : Op → Prop} {allowed' : Op' → Prop}
    (handled : ∀ op, allowed op → Asks allowed' (handler op)) {p : Program Op Ans α}
    (h : Asks allowed p) : Asks allowed' (interpret handler p) := by
  refine wp_interpret handler (fun op _ allows => ?_) h
  exact wp_mono (handled op allows) fun _ _ _ => trivial

end

/-! ## Chosen answers -/

/-- Runs a program to its end, one choice an operation. -/
def finish {Choice : Type} (E : Surroundings Op Ans Choice σ) :
    Program Op Ans α → List Choice → σ → Option (α × σ)
  | .done value, [], s => some (value, s)
  | .step op next, choice :: rest, s =>
      (E op choice s).bind fun answered => finish E (next answered.1) rest answered.2
  | _, _, _ => none

/-- A condition on the state before each operation of a run, perhaps cut off. -/
def Meets {Choice : Type} (E : Surroundings Op Ans Choice σ) (condition : Op → σ → Prop) :
    Program Op Ans α → List Choice → σ → Prop
  | .done _, _, _ => True
  | .step op _, [], s => condition op s
  | .step op next, choice :: rest, s =>
      condition op s ∧ ∀ answered ∈ E op choice s, Meets E condition (next answered.1) rest answered.2

variable {Choice : Type} {choices : List Choice}

theorem finish_of_wp {E : Surroundings Op Ans Choice σ} {s t : σ} (h : wp (E.spec requires) p Q s)
    (finished : finish E p choices s = some (value, t)) :
    Q value t := by
  induction p generalizing choices s with
  | done other =>
    cases choices with
    | nil =>
      cases finished
      exact h
    | cons choice rest => cases finished
  | step op next ih =>
    cases choices with
    | nil => cases finished
    | cons choice rest =>
      obtain ⟨⟨answer, u⟩, answered, continued⟩ := Option.bind_eq_some_iff.mp finished
      exact ih answer (h.2 answer u ⟨choice, answered⟩) continued

theorem meets_of_wp {E : Surroundings Op Ans Choice σ} {s : σ} (h : wp (E.spec requires) p Q s)
    (choices : List Choice) : Meets E requires p choices s := by
  induction p generalizing choices s with
  | done value =>
    unfold Meets
    trivial
  | step op next ih =>
    cases choices with
    | nil => exact h.1
    | cons choice rest =>
      refine ⟨h.1, fun answered member => ?_⟩
      exact ih _ (h.2 _ _ ⟨choice, member⟩) rest

/-- Steps do not depend on what is required before them. -/
theorem steps_requires (requires : Op → σ → Prop) (run : Steps S before after) :
    Steps { S with requires := requires } before after := by
  refine Relation.ReflTransGen.mono (fun point next stepped => ?_) _ _ run
  cases stepped with
  | mk answered => exact Step.mk answered

theorem steps_of_spec {E : Surroundings Op Ans Choice σ} {other : Op → σ → Prop}
    (run : Steps (E.spec requires) before after) : Steps (E.spec other) before after :=
  steps_requires other run

/-- A finished run is one of any spec that its answers meet. -/
theorem steps_of_choices {E : Surroundings Op Ans Choice σ} {p : Program Op Ans α} {s t : σ}
    {value : α} (ensured : ∀ choice ∈ choices, ∀ op s answer t, E op choice s = some (answer, t) →
      S.ensures op s answer t) (finished : finish E p choices s = some (value, t)) :
    Steps S (p, s) (.done value, t) := by
  induction p generalizing choices s with
  | done other =>
    cases choices with
    | nil =>
      cases finished
      exact Relation.ReflTransGen.refl
    | cons choice rest => cases finished
  | step op next ih =>
    cases choices with
    | nil => cases finished
    | cons choice rest =>
      obtain ⟨⟨answer, u⟩, answered, continued⟩ := Option.bind_eq_some_iff.mp finished
      have first := ensured choice List.mem_cons_self op s answer u answered
      have later := ih answer (fun other member => ensured other (List.mem_cons_of_mem _ member))
        continued
      exact Relation.ReflTransGen.head (Step.mk first) later

theorem steps_of_finish {E : Surroundings Op Ans Choice σ} {s t : σ}
    (finished : finish E p choices s = some (value, t)) :
    Steps (E.spec requires) (p, s) (.done value, t) :=
  steps_of_choices (fun choice _ _ _ _ _ answered => ⟨choice, answered⟩) finished

/-- The run these choices make is finished and meets the postcondition. -/
def Ends {Choice : Type} (E : Surroundings Op Ans Choice σ) (p : Program Op Ans α)
    (choices : List Choice) (Q : α → σ → Prop) (s : σ) : Prop :=
  ∃ value t, finish E p choices s = some (value, t) ∧ Q value t

section Ends

variable {Choice : Type} {E : Surroundings Op Ans Choice σ} {Q : α → σ → Prop} {s t : σ}

theorem Ends.done {value : α} (h : Q value s) : Ends E (.done value) [] Q s :=
  ⟨value, s, rfl, h⟩

theorem Ends.step {op : Op} {next : Ans op → Program Op Ans α} {answer : Ans op} {choice : Choice}
    {rest : List Choice} (answered : E op choice s = some (answer, t))
    (continued : Ends E (next answer) rest Q t) : Ends E (.step op next) (choice :: rest) Q s := by
  obtain ⟨value, u, finished, h⟩ := continued
  refine ⟨value, u, ?_, h⟩
  rw [finish, answered]
  exact finished

theorem Ends.bind {p : Program Op Ans α} {f : α → Program Op Ans β} {R : β → σ → Prop}
    {first second : List Choice}
    (h : Ends E p first (fun value t => Ends E (f value) second R t) s) :
    Ends E (p >>= f) (first ++ second) R s := by
  change Ends E (p.bind f) (first ++ second) R s
  obtain ⟨value, t, finished, continued⟩ := h
  induction p generalizing first s with
  | done other =>
    cases first with
    | nil =>
      cases finished
      exact continued
    | cons choice rest => cases finished
  | step op next ih =>
    cases first with
    | nil => cases finished
    | cons choice rest =>
      obtain ⟨⟨answer, u⟩, answered, remaining⟩ := Option.bind_eq_some_iff.mp finished
      exact Ends.step answered (ih answer remaining)

end Ends

/-! ## One answer to everything -/

/-- Runs a program in surroundings that answer every operation in one way. -/
def eval (answers : (op : Op) → σ → Ans op × σ) : Program Op Ans α → σ → α × σ
  | .done value, s => (value, s)
  | .step op next, s => eval answers (next (answers op s).1) (answers op s).2

@[simp] theorem eval_pure (answers : (op : Op) → σ → Ans op × σ) (value : α) (s : σ) :
    eval answers (pure value : Program Op Ans α) s = (value, s) := rfl

theorem eval_bind (answers : (op : Op) → σ → Ans op × σ) (p : Program Op Ans α)
    (f : α → Program Op Ans β) (s : σ) :
    eval answers (p >>= f) s = eval answers (f (eval answers p s).1) (eval answers p s).2 := by
  change eval answers (p.bind f) s = _
  induction p generalizing s with
  | done value => rfl
  | step op next ih => exact ih _ _

end Program

/-- Programs that may end in an error, as the source's `?` operator does. -/
abbrev Fallible (Op : Type) (Ans : Op → Type) (ε α : Type) : Type :=
  ExceptT ε (Program Op Ans) α

namespace Fallible

open Program

variable {Op : Type} {Ans : Op → Type} {α β ε σ : Type}

/-- Performs an operation whose answer is not itself a failure. -/
def perform (op : Op) : Fallible Op Ans ε (Ans op) := ExceptT.lift (Program.perform op)

def wp (S : Spec Op Ans σ) (p : Fallible Op Ans ε α) (Q : Except ε α → σ → Prop) (s : σ) : Prop :=
  Program.wp S p.run Q s

/-- The precondition of what follows a fallible program: an error skips it. -/
def andThen (Q : Except ε β → σ → Prop) (f : α → σ → Prop) : Except ε α → σ → Prop
  | .ok value, t => f value t
  | .error e, t => Q (.error e) t

@[simp] theorem andThen_ok (Q : Except ε β → σ → Prop) (f : α → σ → Prop) (value : α) (t : σ) :
    andThen Q f (.ok value) t ↔ f value t := Iff.rfl

@[simp] theorem andThen_error (Q : Except ε β → σ → Prop) (f : α → σ → Prop) (e : ε) (t : σ) :
    andThen Q f (.error e) t ↔ Q (.error e) t := Iff.rfl

section

variable (S : Spec Op Ans σ)
include S

theorem wp_bind (p : Fallible Op Ans ε α) (f : α → Fallible Op Ans ε β)
    (Q : Except ε β → σ → Prop) (s : σ) :
    wp S (p >>= f) Q s ↔ wp S p (andThen Q fun value t => wp S (f value) Q t) s := by
  change Program.wp S (p.run >>= ExceptT.bindCont f) Q s ↔ _
  rw [Program.wp_bind]
  have continued : (fun value t => Program.wp S (ExceptT.bindCont f value) Q t) =
      andThen Q fun value t => wp S (f value) Q t := by
    funext value t
    cases value <;> rfl
  rw [continued]
  rfl

@[simp] theorem wp_pure (value : α) (Q : Except ε α → σ → Prop) (s : σ) :
    wp S (pure value : Fallible Op Ans ε α) Q s ↔ Q (.ok value) s := Iff.rfl

@[simp] theorem wp_throw (e : ε) (Q : Except ε α → σ → Prop) (s : σ) :
    wp S (throw e : Fallible Op Ans ε α) Q s ↔ Q (.error e) s := Iff.rfl

@[simp] theorem wp_result (result : Except ε α) (Q : Except ε α → σ → Prop)
    (s : σ) : wp S (ExceptT.mk (pure result)) Q s ↔ Q result s := Iff.rfl

/-- Renaming the errors of a program renames them in its postcondition. -/
theorem wp_adapt {ε' : Type} (rename : ε → ε') (p : Fallible Op Ans ε α)
    (Q : Except ε' α → σ → Prop) (s : σ) :
    wp S (ExceptT.adapt rename p) Q s ↔ wp S p (fun result t => Q (result.mapError rename) t) s := by
  change Program.wp S (Except.mapError rename <$> p.run) Q s ↔ _
  rw [map_eq_pure_bind, Program.wp_bind]
  rfl

theorem wp_map (f : α → β) (p : Fallible Op Ans ε α) (Q : Except ε β → σ → Prop) (s : σ) :
    wp S (f <$> p) Q s ↔ wp S p (fun result t => Q (result.map f) t) s := by
  have mapped : andThen Q (fun value t => wp S (pure (f value)) Q t) =
      fun result t => Q (result.map f) t := by
    funext result t
    cases result <;> rfl
  rw [map_eq_pure_bind, wp_bind, mapped]

end

theorem wp_mono {S : Spec Op Ans σ} {p : Fallible Op Ans ε α} {Q R : Except ε α → σ → Prop} {s : σ}
    (h : wp S p Q s) (weaker : ∀ value t, Q value t → R value t) : wp S p R s :=
  Program.wp_mono h weaker

/-! ## A value, or a state that is still sound -/

/-- Ends in `P`, or fails where `I` holds. -/
def Yields (S : Spec Op Ans σ) (I : σ → Prop) (p : Fallible Op Ans ε α) (P : α → σ → Prop)
    (s : σ) : Prop :=
  wp S p (fun result t => match result with
    | .ok value => P value t
    | .error _ => I t) s

section Yields

variable {S : Spec Op Ans σ} {I : σ → Prop} {P : α → σ → Prop} {s : σ}
variable {p : Fallible Op Ans ε α}

theorem Yields.pure {value : α} (h : P value s) :
    Yields S I (pure value : Fallible Op Ans ε α) P s := h

theorem Yields.fail (e : ε) (sound : I s) :
    Yields S I (throw e : Fallible Op Ans ε α) P s := sound

theorem Yields.mono {R : α → σ → Prop} (h : Yields S I p P s)
    (weaker : ∀ value t, P value t → R value t) : Yields S I p R s := by
  refine wp_mono h fun result t reached => ?_
  cases result with
  | ok value => exact weaker value t reached
  | error e => exact reached

theorem Yields.bind {next : α → Fallible Op Ans ε β} {R : β → σ → Prop} (h : Yields S I p P s)
    (continued : ∀ value t, P value t → Yields S I (next value) R t) :
    Yields S I (p >>= next) R s := by
  unfold Yields
  rw [wp_bind]
  refine wp_mono h fun result t reached => ?_
  cases result with
  | ok value => exact continued value t reached
  | error e => exact reached

theorem Yields.perform {op : Op} {P : Ans op → σ → Prop} (required : S.requires op s)
    (answered : ∀ answer t, S.ensures op s answer t → P answer t) :
    Yields S I (perform op : Fallible Op Ans ε (Ans op)) P s :=
  ⟨required, answered⟩

/-- Which error a failure ends in does not matter. -/
theorem Yields.adapt {ε' : Type} {rename : ε → ε'} (h : Yields S I p P s) :
    Yields S I (ExceptT.adapt rename p) P s := by
  unfold Yields
  rw [wp_adapt]
  refine wp_mono h fun result t reached => ?_
  cases result with
  | ok value => exact reached
  | error e => exact reached

theorem Yields.result {result : Except ε α} (sound : I s)
    (held : ∀ value, result = .ok value → P value s) :
    Yields S I (ExceptT.mk (Pure.pure result) : Fallible Op Ans ε α) P s := by
  unfold Yields
  rw [wp_result]
  cases result with
  | ok value => exact held value rfl
  | error e => exact sound

/-- Whatever its operations are answered, a value is what the program makes of some answers. -/
theorem Yields.free (free : ∀ op s, S.requires op s) (p : Fallible Op Ans ε α) :
    Yields S (fun _ => True) p (fun _ _ => True) s := by
  refine wp_mono (wp_free free p.run s) fun result t _ => ?_
  cases result <;> trivial

theorem Yields.value {t : σ} {value : α} (h : Yields S I p P s)
    (run : Steps S (p.run, s) (.done (.ok value), t)) : P value t := by
  have reached := post_of_wp run h
  exact reached

/-- A handler takes over where the program fails. -/
theorem Yields.handle {handler : ε → Fallible Op Ans ε α} {J : σ → Prop} (h : Yields S J p P s)
    (handled : ∀ e t, J t → Yields S I (handler e) P t) :
    Yields S I (tryCatch p handler) P s := by
  change Program.wp S (p.run >>= _) _ s
  rw [Program.wp_bind]
  refine Program.wp_mono h fun result t reached => ?_
  cases result with
  | ok value => exact reached
  | error e => exact handled e t reached

/-- Less may be required of the operations, and kept where the program fails. -/
theorem Yields.weaken {requires : Op → σ → Prop} {J : σ → Prop} (h : Yields S I p P s)
    (less : ∀ op s, S.requires op s → requires op s) (kept : ∀ t, I t → J t) :
    Yields { S with requires := requires } J p P s := by
  refine Program.wp_weaken ?_ less
  refine wp_mono h fun result t reached => ?_
  cases result with
  | ok value => exact reached
  | error e => exact kept t reached

end Yields

/-! ## What is asked -/

/-- Whatever it is answered, the program performs allowed operations only. -/
def Asks (allowed : Op → Prop) (p : Fallible Op Ans ε α) : Prop := Program.Asks allowed p.run

section Asks

variable {allowed : Op → Prop}
variable {p : Fallible Op Ans ε α}

theorem Asks.result (result : Except ε α) :
    Asks allowed (ExceptT.mk (Pure.pure result) : Fallible Op Ans ε α) := trivial

theorem Asks.perform {op : Op} (h : allowed op) :
    Asks allowed (perform op : Fallible Op Ans ε (Ans op)) :=
  Program.asks_step.mpr ⟨h, fun _ => trivial⟩

theorem Asks.bind {next : α → Fallible Op Ans ε β}
    (first : Asks allowed p) (later : ∀ value, Asks allowed (next value)) :
    Asks allowed (p >>= next) := by
  refine Program.Asks.bind first fun value => ?_
  cases value with
  | ok value => exact later value
  | error e => trivial

theorem Asks.map {f : α → β} (h : Asks allowed p) :
    Asks allowed (f <$> p) := by
  rw [map_eq_pure_bind]
  exact h.bind fun _ => trivial

theorem Asks.adapt {ε' : Type} {rename : ε → ε'} (h : Asks allowed p) :
    Asks allowed (ExceptT.adapt rename p) := by
  change Program.Asks allowed (Except.mapError rename <$> p.run)
  rw [map_eq_pure_bind]
  exact .bind h fun _ => trivial

theorem Asks.handle {handler : ε → Fallible Op Ans ε α} (h : Asks allowed p)
    (handled : ∀ e, Asks allowed (handler e)) :
    Asks allowed (tryCatch p handler) := by
  refine Program.Asks.bind h fun value => ?_
  cases value with
  | ok value => trivial
  | error e => exact handled e

theorem Asks.forM {f : β → Fallible Op Ans ε PUnit} {list : List β}
    (h : ∀ value, Asks allowed (f value)) : Asks allowed (list.forM f) := by
  induction list with
  | nil => trivial
  | cons value rest ih => exact (h value).bind fun _ => ih

end Asks

/-! ## One answer to everything -/

def eval (answers : (op : Op) → σ → Ans op × σ) (p : Fallible Op Ans ε α) (s : σ) :
    Except ε α × σ := Program.eval answers p.run s

section Eval

variable {answers : (op : Op) → σ → Ans op × σ}
variable {p : Fallible Op Ans ε α}

theorem eval_bind_ok {f : α → Fallible Op Ans ε β} {s t : σ} {value : α}
    (first : eval answers p s = (.ok value, t)) :
    eval answers (p >>= f) s = eval answers (f value) t := by
  change Program.eval answers (p.run >>= ExceptT.bindCont f) s = _
  rw [Program.eval_bind]
  change (Program.eval answers p.run s) = _ at first
  rw [first]
  rfl

theorem eval_bind_error {f : α → Fallible Op Ans ε β} {s t : σ} {e : ε}
    (first : eval answers p s = (.error e, t)) : eval answers (p >>= f) s = (.error e, t) := by
  change Program.eval answers (p.run >>= ExceptT.bindCont f) s = _
  rw [Program.eval_bind]
  change (Program.eval answers p.run s) = _ at first
  rw [first]
  rfl

variable {handler : ε → Fallible Op Ans ε α}

theorem eval_handle_ok {s t : σ} {value : α} (first : eval answers p s = (.ok value, t)) :
    eval answers (tryCatch p handler) s = (.ok value, t) := by
  change Program.eval answers (p.run >>= _) s = _
  rw [Program.eval_bind]
  change (Program.eval answers p.run s) = _ at first
  rw [first]
  rfl

theorem eval_handle_error {s t : σ} {e : ε} (first : eval answers p s = (.error e, t)) :
    eval answers (tryCatch p handler) s = eval answers (handler e) t := by
  change Program.eval answers (p.run >>= _) s = _
  rw [Program.eval_bind]
  change (Program.eval answers p.run s) = _ at first
  rw [first]
  rfl

end Eval

end Fallible

end Gunda.Lib
