import Gunda.Lib.Program

/-!
# Traces of programs

Runs of a program whose operations may be answered by anything, with what was
performed kept newest first. An oracle answers; a run is cut off anywhere. `keeps_of_wp` turns a condition proved before every
operation into one about every point of a trace.
-/
namespace Gunda.Lib

structure Performed (Op : Type) (Ans : Op → Type) where
  op : Op
  answer : Ans op

abbrev Trace (Op : Type) (Ans : Op → Type) : Type := List (Performed Op Ans)

namespace Trace

variable {Op : Type} {Ans : Op → Type} {α β ε : Type}

/-- Any answer to an operation that is allowed after what was performed. -/
def spec (allowed : Op → Trace Op Ans → Prop) : Spec Op Ans (Trace Op Ans) where
  requires := allowed
  ensures op trace answer next := next = ⟨op, answer⟩ :: trace

/-- Answers every operation, whatever was performed before it. -/
abbrev Oracle (Op : Type) (Ans : Op → Type) : Type := (op : Op) → Trace Op Ans → Ans op

/-- One operation answered by the oracle; a finished program stays as it is. -/
def answerNext (oracle : Oracle Op Ans) :
    Program Op Ans α × Trace Op Ans → Program Op Ans α × Trace Op Ans
  | (.done value, trace) => (.done value, trace)
  | (.step op next, trace) => (next (oracle op trace), ⟨op, oracle op trace⟩ :: trace)

/-- The program cut off after at most `n` operations. -/
def play (oracle : Oracle Op Ans) (p : Program Op Ans α) : Nat → Program Op Ans α × Trace Op Ans
  | 0 => (p, [])
  | n + 1 => answerNext oracle (play oracle p n)

/-- Every operation of the trace was allowed after those before it. -/
def Keeps (allowed : Op → Trace Op Ans → Prop) (trace : Trace Op Ans) : Prop :=
  ∀ newer event older, trace = newer ++ event :: older → allowed event.op older

theorem keeps_nil (allowed : Op → Trace Op Ans → Prop) : Keeps allowed [] := by
  intro newer event older split
  cases newer <;> cases split

variable {allowed : Op → Trace Op Ans → Prop}

theorem keeps_cons {event : Performed Op Ans} {trace : Trace Op Ans}
    (first : allowed event.op trace) (rest : Keeps allowed trace) :
    Keeps allowed (event :: trace) := by
  intro newer other older split
  cases newer with
  | nil =>
    cases split
    exact first
  | cons head tail =>
    cases split
    exact rest tail other older rfl

theorem keeps_answerNext {Q : α → Trace Op Ans → Prop} (oracle : Oracle Op Ans)
    {point : Program Op Ans α × Trace Op Ans} (kept : Keeps allowed point.2)
    (ready : Program.wp (spec allowed) point.1 Q point.2) :
    Keeps allowed (answerNext oracle point).2 ∧
      Program.wp (spec allowed) (answerNext oracle point).1 Q (answerNext oracle point).2 := by
  obtain ⟨program, trace⟩ := point
  cases program with
  | done value => exact ⟨kept, ready⟩
  | step op next => exact ⟨keeps_cons ready.1 kept, ready.2 _ _ rfl⟩

/-- What is allowed before every operation holds along every run, and the rest of the
program is still safe wherever the run is cut off. -/
theorem keeps_of_wp {Q : α → Trace Op Ans → Prop} {p : Program Op Ans α}
    (h : Program.wp (spec allowed) p Q []) (oracle : Oracle Op Ans) (n : Nat) :
    Keeps allowed (play oracle p n).2 ∧
      Program.wp (spec allowed) (play oracle p n).1 Q (play oracle p n).2 := by
  induction n with
  | zero => exact ⟨keeps_nil allowed, h⟩
  | succ n ih => exact keeps_answerNext oracle ih.1 ih.2

theorem keeps_of_asks {allowed : Op → Prop} {p : Program Op Ans α} (h : Program.Asks allowed p)
    (oracle : Oracle Op Ans) (n : Nat) : Keeps (fun op _ => allowed op) (play oracle p n).2 :=
  (keeps_of_wp (h.wp (spec fun op _ => allowed op) (fun _ _ allows => allows) []) oracle n).1

end Trace

end Gunda.Lib
