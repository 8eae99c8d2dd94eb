import Gunda.Core.Service

/-!
# Tasks that call the manager

An asynchronous task performs operations of its own and calls the manager. A call runs
the manager's program, whose operations take turns with those of other tasks. A `Terms`
says what a task assumes of its part of the shared state; `Task.Safe` holds of a task on
these terms, and each of its moves keeps it.
-/
namespace Gunda.Core

open Gunda.Lib

/-- What a call returns; a start and a create of a row return no event. -/
abbrev CallResult : Type := Except OperationError (Option DownloadEvent)

inductive Calling (Op : Type) where
  | call (operation : Operation)
  | own (op : Op)

abbrev Calling.Answer {Op : Type} (Ans : Op → Type) : Calling Op → Type
  | .call _ => CallResult
  | .own op => Ans op

/-- A program between calls. -/
abbrev Calls (Op : Type) (Ans : Op → Type) (α : Type) : Type :=
  Program (Calling Op) (Calling.Answer Ans) α

/-- A call on the manager, to its return. -/
def Calls.call {Op : Type} {Ans : Op → Type} (operation : Operation) : Calls Op Ans CallResult :=
  .step (.call operation) .done

def Calls.own {Op : Type} {Ans : Op → Type} (op : Op) : Calls Op Ans (Ans op) :=
  .step (.own op) .done

inductive Task (Op : Type) (Ans : Op → Type) (α : Type) where
  | running (program : Calls Op Ans α)
  /-- What is left of a call, and what follows it. -/
  | calling (operation : Operation)
      (program : Program ServiceOp ServiceOp.Answer CallResult)
      (next : CallResult → Calls Op Ans α)

inductive Move (Choice : Type) where
  /-- A call begins or returns. -/
  | proceeds
  | served (choice : ServiceChoice)
  | performed (choice : Choice)

/-- What the tasks share: how it answers them and how it notes a call. -/
structure Host (Op : Type) (Ans : Op → Type) (Choice σ : Type) where
  serve : Surroundings ServiceOp ServiceOp.Answer ServiceChoice σ
  perform : Surroundings Op Ans Choice σ
  noted : Operation → σ → σ

variable {Op : Type} {Ans : Op → Type} {Choice α σ τ : Type}

/-- One move of a task; a finished program makes none. -/
def Task.step (host : Host Op Ans Choice σ) :
    Task Op Ans α → Move Choice → σ → Option (Task Op Ans α × σ)
  | .running (.step (.call operation) next), .proceeds, s =>
      some (.calling operation operation.program.run next, host.noted operation s)
  | .running (.step (.own op) next), .performed choice, s =>
      (host.perform op choice s).map fun answered => (.running (next answered.1), answered.2)
  | .calling operation (.step op rest) next, .served choice, s =>
      (host.serve op choice s).map fun answered =>
        (.calling operation (rest answered.1) next, answered.2)
  | .calling _ (.done result) next, .proceeds, s => some (.running (next result), s)
  | _, _, _ => none

/-- The call a task is in. -/
def Task.call : Task Op Ans α → Option Operation
  | .running _ => none
  | .calling operation _ _ => some operation

/-- The same surroundings for a task with another number. -/
def serveAs (task : Nat) : Surroundings ServiceOp ServiceOp.Answer ServiceChoice ServedWorld
  | .managed op, .managed choice, served =>
      (respond task op choice served.world).map fun answered =>
        (answered.1, { served with world := answered.2 })
  | op, choice, served => serve op choice served

/-! ## Terms -/

/-- What a task assumes of its part of the shared state, and what a call needs. -/
structure Terms (Op : Type) (Ans : Op → Type) (τ : Type) where
  service : Spec ServiceOp ServiceOp.Answer τ
  own : Spec Op Ans τ
  begins : Operation → τ → Prop
  begun : Operation → τ → τ

/-- A call as one operation: what it may return is what its program may return. -/
def Terms.spec (terms : Terms Op Ans τ) : Spec (Calling Op) (Calling.Answer Ans) τ where
  requires
    | .own op, s => terms.own.requires op s
    | .call operation, s => terms.begins operation s ∧
        Program.wp terms.service operation.program.run (fun _ _ => True)
          (terms.begun operation s)
  ensures
    | .own op, s, answer, t => terms.own.ensures op s answer t
    | .call operation, s, result, t =>
        Program.Steps terms.service (operation.program.run, terms.begun operation s)
          (.done result, t)

def Task.Safe (terms : Terms Op Ans τ) (Q : α → τ → Prop) : Task Op Ans α → τ → Prop
  | .running program, s => Program.wp terms.spec program Q s
  | .calling _ program next, s =>
      Program.wp terms.service program (fun result t => Program.wp terms.spec (next result) Q t) s

variable {terms : Terms Op Ans τ} {host : Host Op Ans Choice σ} {view : σ → τ}
    {task : Task Op Ans α} {move : Move Choice} {s : σ}

/-- A call is admitted where it may begin and what it does is proved of its program. -/
theorem wp_call {operation : Operation} {Q : CallResult → τ → Prop} {s : τ}
    (begins : terms.begins operation s)
    (h : Program.wp terms.service operation.program.run Q (terms.begun operation s)) :
    Program.wp terms.spec (Calls.call operation) Q s := by
  change terms.spec.requires (.call operation) s ∧ _
  refine ⟨⟨begins, Program.wp_mono h fun _ _ _ => trivial⟩, ?_⟩
  intro result t (reached : Program.Steps terms.service
    (operation.program.run, terms.begun operation s) (.done result, t))
  change Q result t
  exact Program.post_of_wp reached h

/-- The terms hold of what the host really does, where its choices are admitted. -/
structure Terms.Holds (terms : Terms Op Ans τ) (host : Host Op Ans Choice σ) (view : σ → τ)
    (I : σ → Prop) (admits : ServiceOp → ServiceChoice → σ → Prop) : Prop where
  served : ∀ {op choice s answer t}, I s → admits op choice s →
    terms.service.requires op (view s) → host.serve op choice s = some (answer, t) →
    terms.service.ensures op (view s) answer (view t)
  performed : ∀ {op choice s answer t}, I s → terms.own.requires op (view s) →
    host.perform op choice s = some (answer, t) → terms.own.ensures op (view s) answer (view t)
  noted : ∀ {operation s}, I s → terms.begins operation (view s) →
    view (host.noted operation s) = terms.begun operation (view s)

/-- The choice that answers a task's next operation on the manager is admitted. -/
def Task.Admits (admits : ServiceOp → ServiceChoice → σ → Prop) :
    Task Op Ans α → Move Choice → σ → Prop
  | .calling _ (.step op _) _, .served choice, s => admits op choice s
  | _, _, _ => True

/-- This move alone is answered on the terms. -/
def Task.Answered (terms : Terms Op Ans τ) (host : Host Op Ans Choice σ) (view : σ → τ) :
    Task Op Ans α → Move Choice → σ → Prop
  | .running (.step (.call operation) _), .proceeds, s =>
      view (host.noted operation s) = terms.begun operation (view s)
  | .running (.step (.own op) _), .performed choice, s => ∀ answer t,
      host.perform op choice s = some (answer, t) → terms.own.ensures op (view s) answer (view t)
  | .calling _ (.step op _) _, .served choice, s => ∀ answer t,
      host.serve op choice s = some (answer, t) → terms.service.ensures op (view s) answer (view t)
  | _, _, _ => True

variable {Q : α → τ → Prop} {next : Task Op Ans α}

theorem Task.Safe.answered {t : σ} (safe : task.Safe terms Q (view s))
    (answered : task.Answered terms host view move s)
    (moved : task.step host move s = some (next, t)) : next.Safe terms Q (view t) := by
  unfold Task.step at moved
  split at moved
  · rename_i operation after
    cases moved
    change Program.wp _ _ _ (view (host.noted operation s))
    rw [show view (host.noted operation s) = _ from answered]
    apply Program.wp_of_reached safe.1.2
    exact fun result t reached => safe.2 result t reached
  · obtain ⟨⟨answer, later⟩, performed, same⟩ := Option.map_eq_some_iff.mp moved
    cases same
    exact safe.2 answer _ (answered answer later performed)
  · obtain ⟨⟨answer, later⟩, served, same⟩ := Option.map_eq_some_iff.mp moved
    cases same
    exact safe.2 answer _ (answered answer later served)
  · cases moved
    exact safe
  · cases moved

variable {admits : ServiceOp → ServiceChoice → σ → Prop}

theorem Terms.Holds.answered {I : σ → Prop} (holds : terms.Holds host view I admits) (kept : I s)
    (admitted : task.Admits admits move s) (safe : task.Safe terms Q (view s)) :
    task.Answered terms host view move s := by
  unfold Task.Answered
  split
  · exact holds.noted kept safe.1.1
  · exact fun answer t performed => holds.performed kept safe.1 performed
  · exact fun answer t served => holds.served kept admitted safe.1 served
  · trivial

/-- Every move of a safe task on its terms keeps it safe. -/
theorem Task.Safe.step {terms : Terms Op Ans τ} {host : Host Op Ans Choice σ} {view : σ → τ}
    {I : σ → Prop} (holds : terms.Holds host view I admits) {task : Task Op Ans α}
    {move : Move Choice} {s t : σ} (kept : I s) (admitted : task.Admits admits move s)
    (safe : task.Safe terms Q (view s)) (moved : task.step host move s = some (next, t)) :
    next.Safe terms Q (view t) :=
  safe.answered (holds.answered kept admitted safe) moved

/-- What a move of a safe task does: it notes a call, performs an operation of its own or
one of the manager's program, or returns from a call. -/
inductive Task.Moved (terms : Terms Op Ans τ) (host : Host Op Ans Choice σ) (view : σ → τ)
    (task next : Task Op Ans α) (s t : σ) : Prop where
  | noted (operation : Operation) (begins : terms.begins operation (view s))
      (after : t = host.noted operation s) (call : next.call = some operation)
  | performed (op : Op) (choice : Choice) (answer : Ans op)
      (required : terms.own.requires op (view s))
      (answered : host.perform op choice s = some (answer, t)) (call : next.call = none)
  | served (op : ServiceOp) (choice : ServiceChoice) (answer : op.Answer)
      (required : terms.service.requires op (view s))
      (answered : host.serve op choice s = some (answer, t)) (call : next.call = task.call)
  | returned (same : t = s) (call : next.call = none)

theorem Task.Safe.moved {t : σ} (safe : task.Safe terms Q (view s))
    (stepped : task.step host move s = some (next, t)) :
    task.Moved terms host view next s t := by
  unfold Task.step at stepped
  split at stepped
  · rename_i operation after
    cases stepped
    exact .noted operation safe.1.1 rfl rfl
  · obtain ⟨⟨answer, later⟩, performed, same⟩ := Option.map_eq_some_iff.mp stepped
    cases same
    exact .performed _ _ answer safe.1 performed rfl
  · obtain ⟨⟨answer, later⟩, served, same⟩ := Option.map_eq_some_iff.mp stepped
    cases same
    exact .served _ _ answer safe.1 served rfl
  · cases stepped
    exact .returned rfl rfl
  · cases stepped

end Gunda.Core
