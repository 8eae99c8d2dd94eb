import Gunda.Lib.Program

/-!
# Statements and transactions

A connection to tables: statements act on an open transaction, or on the tables
themselves where none is open. Any statement may fail, and then changes nothing. A
transaction that is not committed is dropped.
-/
namespace Gunda.Lib

open Fallible (Yields eval eval_bind_error eval_bind_ok)

structure Connection (Tables : Type) where
  stored : Tables
  pending : Option Tables

inductive SqlOp (Statement : Type) where
  | begin
  | execute (statement : Statement)
  | commit
  | rollback
  deriving DecidableEq

/-- Whether the operation succeeded, and what a statement returns. -/
abbrev SqlOp.Answer {Statement : Type} (Result : Statement → Type) : SqlOp Statement → Type
  | .execute statement => Option (Result statement)
  | .begin | .commit | .rollback => Bool

namespace Connection

variable {Tables Statement : Type} {Result : Statement → Type}

/-- Tables with no transaction open. -/
def idle (tables : Tables) : Connection Tables := ⟨tables, none⟩

/-- What a statement sees and changes. -/
def view (connection : Connection Tables) : Tables := connection.pending.getD connection.stored

def write (connection : Connection Tables) (tables : Tables) : Connection Tables :=
  match connection.pending with
  | some _ => ⟨connection.stored, some tables⟩
  | none => ⟨tables, none⟩

/-- Every operation succeeds or fails; a statement also where the tables refuse it. -/
def surroundings (run : (statement : Statement) → Tables → Option (Result statement × Tables)) :
    Surroundings (SqlOp Statement) (SqlOp.Answer Result) Bool (Connection Tables)
  | .begin, true, c => some (true, ⟨c.stored, some c.stored⟩)
  | .begin, false, c => some (false, c)
  | .execute statement, true, c => match run statement c.view with
      | some (result, tables) => some (some result, c.write tables)
      | none => some (none, c)
  | .execute _, false, c => some (none, c)
  | .commit, true, c => some (true, ⟨c.view, none⟩)
  | .commit, false, c => some (false, c)
  | .rollback, succeeds, c => some (succeeds, ⟨c.stored, none⟩)

/-- The answers where nothing fails but what the tables refuse. -/
def healthy (run : (statement : Statement) → Tables → Option (Result statement × Tables)) :
    (op : SqlOp Statement) → Connection Tables → SqlOp.Answer Result op × Connection Tables
  | .begin, c => (true, ⟨c.stored, some c.stored⟩)
  | .execute statement, c => match run statement c.view with
      | some (result, tables) => (some result, c.write tables)
      | none => (none, c)
  | .commit, c => (true, ⟨c.view, none⟩)
  | .rollback, c => (true, ⟨c.stored, none⟩)

end Connection

/-! ## Programs -/

namespace Sql

variable {Tables Statement : Type} {Result : Statement → Type} {ε α : Type}

abbrev Session (Result : Statement → Type) (ε α : Type) : Type :=
  Fallible (SqlOp Statement) (SqlOp.Answer Result) ε α

def ask (op : SqlOp Statement) : Session Result ε (SqlOp.Answer Result op) := Fallible.perform op

def execute (statement : Statement) (failure : ε) : Session Result ε (Result statement) := do
  match ← ask (SqlOp.execute statement) with
  | some result => pure result
  | none => throw failure

def begin (failure : ε) : Session Result ε Unit := do
  if !(← ask SqlOp.begin) then
    throw failure

def commit (failure : ε) : Session Result ε Unit := do
  if !(← ask SqlOp.commit) then
    throw failure

/-- A transaction that is dropped, and so rolled back, where its body or its commit fails. -/
def transaction (notBegun notCommitted : ε) (body : Session Result ε α) : Session Result ε α := do
  begin notBegun
  tryCatch
    (do
      let value ← body
      commit notCommitted
      pure value)
    fun error => do
      let _ ← ask SqlOp.rollback
      throw error

section

variable {run : (statement : Statement) → Tables → Option (Result statement × Tables)}
variable {value : α} {β : Type} {error failure notBegun notCommitted : ε}
    {program body : Session Result ε α}

abbrev spec (run : (statement : Statement) → Tables → Option (Result statement × Tables)) :
    Spec (SqlOp Statement) (SqlOp.Answer Result) (Connection Tables) :=
  (Connection.surroundings run).spec fun _ _ => True

/-- Ends with the transaction at tables in `P`, or fails with the stored tables as they
were. -/
def Within (run : (statement : Statement) → Tables → Option (Result statement × Tables))
    (stored : Tables) (program : Session Result ε α) (P : α → Tables → Prop) (pending : Tables) :
    Prop :=
  Fallible.Yields (spec run) (fun c => c.stored = stored) program
    (fun value c => ∃ tables, c = ⟨stored, some tables⟩ ∧ P value tables) ⟨stored, some pending⟩

variable {stored pending : Tables} {P : α → Tables → Prop}

theorem Within.pure (h : P value pending) :
    Within run stored (pure value : Session Result ε α) P pending := ⟨pending, rfl, h⟩

theorem Within.fail (error : ε) :
    Within run stored (throw error : Session Result ε α) P pending := rfl

variable {next : α → Session Result ε β}

theorem Within.throw_bind {R : β → Tables → Prop} :
    Within run stored (MonadExcept.throw error >>= next) R pending := rfl

theorem Within.mono {R : α → Tables → Prop} (h : Within run stored program P pending)
    (weaker : ∀ value tables, P value tables → R value tables) :
    Within run stored program R pending := by
  apply Yields.mono h
  intro value c reached
  obtain ⟨tables, rfl, holds⟩ := reached
  exact ⟨tables, rfl, weaker value tables holds⟩

theorem Within.bind {R : β → Tables → Prop} (h : Within run stored program P pending)
    (continued : ∀ value tables, P value tables → Within run stored (next value) R tables) :
    Within run stored (program >>= next) R pending := by
  apply Yields.bind h
  intro value c reached
  obtain ⟨tables, rfl, holds⟩ := reached
  exact continued value tables holds

variable {statement : Statement}

/-- A statement fails and changes nothing, or acts on what it sees. -/
theorem execute_acts {c : Connection Tables} {J : Connection Tables → Prop}
    {Q : Result statement → Connection Tables → Prop} (failed : J c)
    (acts : ∀ result tables, run statement c.view = some (result, tables) →
      Q result (c.write tables)) :
    Yields (spec run) J
      (execute statement failure : Session Result ε (Result statement)) Q c := by
  let reached (answer : Option (Result statement)) (t : Connection Tables) : Prop :=
    match answer with
    | some result => Q result t
    | none => J t
  refine .bind (P := reached) (.perform trivial ?_) ?_
  · intro answer t found
    obtain ⟨choice, found⟩ := found
    cases choice with
    | false =>
      cases found
      exact failed
    | true =>
      change (match run statement c.view with
        | some (result, tables) => some (some result, c.write tables)
        | none => some (none, c)) = some (answer, t) at found
      cases ran : run statement c.view with
      | none =>
        rw [ran] at found
        cases found
        exact failed
      | some ended =>
        obtain ⟨result, tables⟩ := ended
        rw [ran] at found
        cases found
        exact acts result tables ran
  · intro answer t reached
    cases answer with
    | none => exact reached
    | some result => exact reached

theorem Within.execute {P : Result statement → Tables → Prop}
    (h : ∀ result tables, run statement pending = some (result, tables) → P result tables) :
    Within run stored (execute statement failure) P pending :=
  execute_acts rfl fun result tables ran => ⟨tables, rfl, h result tables ran⟩

/-- A statement outside of a transaction. -/
theorem execute_yields :
    Yields (spec run) (fun c => c = .idle stored)
      (execute statement failure : Session Result ε (Result statement))
      (fun result c => ∃ tables, c = .idle tables ∧ run statement stored = some (result, tables))
      (.idle stored) :=
  execute_acts rfl fun _ tables ran => ⟨tables, rfl, ran⟩

theorem begin_yields :
    Yields (spec run) (fun c => c = .idle stored) (begin failure : Session Result ε Unit)
      (fun _ c => c = ⟨stored, some stored⟩) (.idle stored) := by
  refine .bind (P := fun answer c => c = if answer then ⟨stored, some stored⟩
    else .idle stored) (.perform trivial ?_) ?_
  · intro answer c found
    obtain ⟨choice, found⟩ := found
    cases choice <;> cases found <;> rfl
  · intro answer c reached
    cases answer with
    | true => exact reached
    | false => exact reached

theorem commit_yields :
    Yields (spec run) (fun c => c.stored = stored) (commit failure : Session Result ε Unit)
      (fun _ c => c = .idle pending) ⟨stored, some pending⟩ := by
  refine .bind (P := fun answer c => c = if answer then .idle pending
    else ⟨stored, some pending⟩) (.perform trivial ?_) ?_
  · intro answer c found
    obtain ⟨choice, found⟩ := found
    cases choice <;> cases found <;> rfl
  · intro answer c reached
    cases answer with
    | true => exact reached
    | false => exact congrArg Connection.stored reached

/-- All of a transaction is stored, or nothing of it. -/
theorem transaction_yields (h : Within run stored body P stored) :
    Yields (spec run) (fun c => c = .idle stored)
      (transaction notBegun notCommitted body)
      (fun value c => ∃ tables, c = .idle tables ∧ P value tables) (.idle stored) := by
  apply Yields.bind begin_yields
  intro _ c begun
  subst begun
  refine Yields.handle (J := fun c => c.stored = stored) ?_ ?_
  · apply Yields.bind h
    intro value c reached
    obtain ⟨tables, rfl, holds⟩ := reached
    apply Yields.bind commit_yields
    intro _ c committed
    exact ⟨tables, committed, holds⟩
  · intro error c unchanged
    refine Yields.bind (P := fun _ c => c = .idle stored)
      (Yields.perform trivial ?_) fun _ c dropped =>
        Yields.fail _ dropped
    intro answer t found
    obtain ⟨choice, found⟩ := found
    cases found
    rw [unchanged]
    rfl

/-! ## Runs with one outcome -/

/-- In a transaction the program takes the tables from one state to another, or fails where a
statement fails, with the stored tables as they were. -/
structure Runs (run : (statement : Statement) → Tables → Option (Result statement × Tables))
    (stored : Tables) (program : Session Result ε α) (before : Tables) (result : Except ε α)
    (after : Tables) : Prop where
  healthy : Fallible.eval (Connection.healthy run) program ⟨stored, some before⟩ =
    (result, ⟨stored, some after⟩)
  always : Within run stored program (fun value tables => result = .ok value ∧ tables = after) before

variable {before middle after : Tables}

theorem Runs.pure (value : α) :
    Runs run stored (pure value : Session Result ε α) before (.ok value) before :=
  ⟨rfl, Within.pure ⟨rfl, rfl⟩⟩

theorem Runs.throw (error : ε) :
    Runs run stored (throw error : Session Result ε α) before (.error error) before :=
  ⟨rfl, Within.fail error⟩

theorem Runs.lift (result : Except ε α) :
    Runs run stored (ExceptT.mk (Pure.pure result) : Session Result ε α) before result before := by
  cases result with
  | ok value => exact Runs.pure value
  | error error => exact Runs.throw error

theorem Runs.bind {result : Except ε β}
    (first : Runs run stored program before (.ok value) middle)
    (later : Runs run stored (next value) middle result after) :
    Runs run stored (program >>= next) before result after where
  healthy := (eval_bind_ok first.healthy).trans later.healthy
  always := first.always.bind fun other tables reached => by
    cases reached.1
    rw [reached.2]
    exact later.always

theorem Runs.bind_error (first : Runs run stored program before (.error error) after) :
    Runs run stored (program >>= next) before (.error error) after where
  healthy := eval_bind_error first.healthy
  always := first.always.bind fun _ _ reached => nomatch reached.1

theorem execute_healthy {answer : Option (Result statement)} {t : Connection Tables}
    (h : Connection.healthy run (.execute statement) ⟨stored, some before⟩ = (answer, t)) :
    eval (Connection.healthy run)
      (Sql.execute statement failure : Session Result ε (Result statement)) ⟨stored, some before⟩ =
        (answer.elim (.error failure) .ok, t) := by
  have asked : eval (Connection.healthy run)
      (ask (SqlOp.execute statement) : Session Result ε _) ⟨stored, some before⟩ =
      (.ok answer, t) :=
    congrArg (fun reached => (Except.ok reached.1, reached.2)) h
  refine (eval_bind_ok asked).trans ?_
  cases answer <;> rfl

theorem Runs.execute {result : Result statement} (h : run statement before = some (result, after)) :
    Runs run stored (Sql.execute statement failure) before (.ok result) after where
  healthy := by
    refine execute_healthy (?_ : _ = (some result, ⟨stored, some after⟩))
    change (match run statement before with | some (_, _) => _ | none => _) = _
    rw [h]
    rfl
  always := Within.execute fun found tables ran => by
    rw [h] at ran
    cases ran
    exact ⟨rfl, rfl⟩

theorem Runs.refused (h : run statement before = none) :
    Runs run stored (Sql.execute statement failure) before (.error failure) before where
  healthy := by
    refine execute_healthy (?_ : _ = (none, _))
    change (match run statement before with | some (_, _) => _ | none => _) = _
    rw [h]
  always := Within.execute fun found tables ran => by
    rw [h] at ran
    cases ran

/-- With no transaction open, the program takes the tables from one state to another; where a
statement fails, it fails and leaves the tables as they are. -/
structure Completes
    (run : (statement : Statement) → Tables → Option (Result statement × Tables))
    (program : Session Result ε α) (before : Tables) (result : Except ε α) (after : Tables) :
    Prop where
  healthy : Fallible.eval (Connection.healthy run) program (.idle before) = (result, .idle after)
  always : Fallible.Yields (spec run) (fun c => c = .idle before) program
    (fun value c => result = .ok value ∧ c = .idle after) (.idle before)

theorem Completes.lift_bind {result : Except ε β}
    (later : Completes run (next value) before result after) :
    Completes run (ExceptT.mk (Pure.pure (.ok value)) >>= next) before result after :=
  ⟨later.healthy, later.always⟩

theorem begin_healthy : eval (Connection.healthy run)
    (begin notBegun : Session Result ε Unit) (.idle before) = (.ok (), ⟨before, some before⟩) := rfl

theorem Completes.transaction (h : Runs run before body before (.ok value) after) :
    Completes run (Sql.transaction notBegun notCommitted body) before (.ok value) after where
  healthy := by
    refine (eval_bind_ok begin_healthy).trans ?_
    refine Fallible.eval_handle_ok ?_
    refine (eval_bind_ok h.healthy).trans ?_
    rfl
  always := (transaction_yields h.always).mono fun other c reached => by
    obtain ⟨tables, idle, same, rfl⟩ := reached
    exact ⟨same, idle⟩

theorem Completes.rolledBack (h : Runs run before body before (.error error) after) :
    Completes run (Sql.transaction notBegun notCommitted body) before (.error error) before where
  healthy := by
    refine (eval_bind_ok begin_healthy).trans ?_
    refine (Fallible.eval_handle_error (eval_bind_error h.healthy)).trans ?_
    rfl
  always := (transaction_yields h.always).mono fun other c reached => by
    obtain ⟨tables, idle, same, -⟩ := reached
    cases same

/-- A run in which some statements fail ends as the others do, or changes nothing. -/
theorem Completes.finished {result outcome : Except ε α} {choices : List Bool}
    {c : Connection Tables} (h : Completes run program before result after)
    (ran : Program.finish (Connection.surroundings run) program.run choices (.idle before) =
      some (outcome, c)) :
    outcome = result ∧ c = .idle after ∨ (∃ error, outcome = .error error) ∧ c = .idle before := by
  have reached := Program.finish_of_wp h.always ran
  cases outcome with
  | ok value => exact .inl ⟨reached.1.symm, reached.2⟩
  | error error => exact .inr ⟨⟨error, rfl⟩, reached⟩

/-- The program fails and leaves the tables as they are. -/
def Refuses (run : (statement : Statement) → Tables → Option (Result statement × Tables))
    (program : Session Result ε α) (tables : Tables) : Prop :=
  ∃ error, Completes run program tables (.error error) tables

/-- A step that is lifted fails, or all that follows it is refused. -/
theorem Refuses.lift_bind {result : Except ε α}
    (later : ∀ value, result = .ok value → Refuses run (next value) before) :
    Refuses run (ExceptT.mk (Pure.pure result) >>= next) before := by
  cases result with
  | error error => exact ⟨error, rfl, rfl⟩
  | ok value =>
    obtain ⟨error, completes⟩ := later value rfl
    exact ⟨error, completes.lift_bind⟩

theorem Refuses.transaction (h : Runs run before body before (.error error) after) :
    Refuses run (Sql.transaction notBegun notCommitted body) before :=
  ⟨error, Completes.rolledBack h⟩

end

end Sql

end Gunda.Lib
