import Gunda.Lib.Machine
import Mathlib.Data.List.Sort

/-!
# Unsent reports

`loadPending`, `savePending`, `enqueue` and `flush` of `background.ts`: reports that wait
for a connection, in the worker and in the session storage. A report is the number it was
queued with. The worker may be restarted between two of its tasks.
-/
namespace Gunda.Extension

open Gunda.Lib

variable {epoch : Nat}

def MAX_PENDING : Nat := 32

/-- A continuation of a promise. -/
inductive Task where
  /-- `enqueue` once the stored reports are loaded. -/
  | enqueue (report : Nat)
  /-- `flush` once the stored reports are loaded. -/
  | flush
  /-- The end of a flush. -/
  | flushed
  /-- The start of the worker connects. -/
  | started
  deriving DecidableEq, Repr

inductive PendingLoad where
  | none | loading | resolved
  deriving DecidableEq, Repr

structure Reports where
  /-- The queue that the session storage holds. -/
  storage : List Nat
  /-- Reports queued so far, and how many of them before the last `forget`. -/
  queued : Nat
  forgotten : Nat
  pendingEpoch : Nat
  pendingLoad : PendingLoad
  /-- The epoch the storage is being read in. -/
  load : Option Nat
  /-- What waits for the storage to be read. -/
  waiting : List Task
  /-- Continuations that run before the next event. -/
  tasks : List Task
  pending : List Nat
  /-- Snapshots that are still to be stored. -/
  writes : List (List Nat)
  flushing : Bool
  timers : Nat
  /-- Greeted, on an open connection. -/
  live : Bool
  /-- Reports sent since the worker started. -/
  sent : List Nat
  deriving DecidableEq, Repr

inductive ReportEvent where
  | enqueue
  /-- The session storage was read, or could not be. -/
  | loaded (read : Bool)
  | ready
  | close
  | forget
  /-- The next snapshot is stored, or cannot be. -/
  | written (stored : Bool)
  | timer
  | restart
  /-- The next continuation runs. -/
  | run
  deriving DecidableEq, Repr

namespace Reports

/-- A continuation of `loadPending`. -/
def afterLoad (task : Task) (state : Reports) : Reports :=
  match state.pendingLoad with
  | .none => { state with
      pendingLoad := .loading
      load := some state.pendingEpoch
      waiting := state.waiting ++ [task] }
  | .loading => { state with waiting := state.waiting ++ [task] }
  | .resolved => { state with tasks := state.tasks ++ [task] }

def savePending (state : Reports) : Reports :=
  { state with writes := state.writes ++ [state.pending] }

def flush (state : Reports) : Reports :=
  if state.flushing then state else afterLoad .flush { state with flushing := true }

/-- A worker that starts with this storage. -/
def restarted (storage : List Nat) (queued forgotten : Nat) : Reports :=
  afterLoad .started ⟨storage, queued, forgotten, 0, .none, none, [], [], [], [], false, 0, false, []⟩

def start : Reports := restarted [] 0 0

/-- What was read joins the queue, unless it was forgotten meanwhile. -/
def restore (read : Bool) (epoch : Nat) (state : Reports) : Reports :=
  if read = true ∧ epoch = state.pendingEpoch then
    { state with
      pending := state.pending ++ state.storage.take (MAX_PENDING - state.pending.length) }
  else state

/-- The oldest report leaves a full queue. -/
def push (report : Nat) (pending : List Nat) : List Nat :=
  (if MAX_PENDING ≤ pending.length then pending.tail else pending) ++ [report]

def runTask (state : Reports) : Task → Reports
  | .enqueue report =>
      let saved := savePending { state with pending := push report state.pending }
      { saved.flush with timers := saved.timers + 1 }
  | .flush =>
      { state with
        sent := if state.live then state.sent ++ state.pending else state.sent
        pending := if state.live then [] else state.pending
        tasks := state.tasks ++ [.flushed] }
  | .flushed => { state.savePending with flushing := false }
  | .started => state

def happen (state : Reports) : ReportEvent → Option Reports
  | .enqueue => some (afterLoad (.enqueue state.queued) { state with queued := state.queued + 1 })
  | .loaded read => state.load.map fun epoch =>
      { restore read epoch state with
        load := none
        pendingLoad := .resolved
        tasks := state.waiting
        waiting := [] }
  | .ready => some { state with live := true }.flush
  | .close => some { state with live := false }
  | .forget => some
      { savePending { state with pending := [], pendingEpoch := state.pendingEpoch + 1 } with
        pendingLoad := .resolved
        live := false
        forgotten := state.queued }
  | .written stored => match state.writes with
      | [] => none
      | snapshot :: writes => some { state with
          storage := if stored then snapshot else state.storage
          writes := writes }
  | .timer =>
      if state.timers = 0 then none else some { state with timers := state.timers - 1 }.flush
  | .restart => some (restarted state.storage state.queued state.forgotten)
  | .run => match state.tasks with
      | [] => none
      | task :: tasks => some (runTask { state with tasks := tasks } task)

/-- Every other event waits until every continuation has run. -/
def step (state : Reports) (event : ReportEvent) : Option Reports :=
  if event = .run ∨ state.tasks = [] then state.happen event else none

end Reports

/-! ## What is to be kept -/

/-- What one step keeps: what was sent since the start of the worker is in the order of
queueing, without repetition; the queue is bounded; a report leaves it by being sent in its
turn, or as the oldest of a full queue; what is restored is the whole stored queue; and
nothing queued before the last `forget` is sent, kept or stored. -/
structure ReportsKept (state : Reports) (event : ReportEvent) (next : Reports) : Prop where
  inOrder : next.sent.Pairwise (· < ·)
  bounded : next.pending.length ≤ MAX_PENDING
  leaves : event = .forget ∨ event = .restart ∨ ∃ count entered,
    next.pending = state.pending.drop count ++ entered ∧
      (next.sent = state.sent ++ state.pending.take count ∨
        count = 1 ∧ state.pending.length = MAX_PENDING ∧ next.sent = state.sent)
  restored : event = .loaded true → state.load = some state.pendingEpoch →
    next.pending = state.storage
  forgotten : ∀ report ∈ next.pending ++ next.sent.drop state.sent.length,
    next.forgotten ≤ report
  saved : ∀ snapshot ∈ next.writes, snapshot ∈ state.writes ∨
    ∀ report ∈ snapshot, next.forgotten ≤ report

/-- The reports that continuations are to queue. -/
def reportsOf (tasks : List Task) : List Nat :=
  tasks.filterMap fun task => match task with
    | .enqueue report => some report
    | _ => none

/-- No report that was queued before the last `forget` comes out of the storage, or out of
`enqueue` once the storage was read. -/
def Remembered (state : Reports) : ReportEvent → Prop
  | .loaded true => state.load = some state.pendingEpoch →
      ∀ report ∈ state.storage, state.forgotten ≤ report
  | .run => ∀ report ∈ reportsOf (state.tasks.take 1), state.forgotten ≤ report
  | _ => True

instance (state : Reports) (event : ReportEvent) : Decidable (Remembered state event) := by
  unfold Remembered
  split <;> infer_instance

structure Reports.Sound (state : Reports) : Prop where
  inOrder : (state.sent ++ state.pending ++
    (reportsOf state.tasks).filter (state.forgotten ≤ ·)).Pairwise (· < ·)
  bounded : state.pending.length ≤ MAX_PENDING
  fresh : ∀ report ∈ state.pending, state.forgotten ≤ report
  queued : ∀ report ∈ state.sent ++ state.pending ++ reportsOf state.tasks ++
    reportsOf state.waiting ++ state.storage ++ state.writes.flatten, report < state.queued
  counted : state.forgotten ≤ state.queued
  stored : ∀ snapshot ∈ state.storage :: state.writes, snapshot.Pairwise (· < ·) ∧
    snapshot.length ≤ MAX_PENDING
  loading : state.pendingLoad = .loading → state.load = some state.pendingEpoch ∧
    state.sent = [] ∧ state.pending = [] ∧ state.tasks = [] ∧ state.writes = [] ∧
    (state.storage ++ reportsOf state.waiting).Pairwise (· < ·)
  resolved : state.pendingLoad = .resolved → state.load ≠ some state.pendingEpoch ∧
    ∀ report ∈ reportsOf state.waiting, report < state.forgotten
  started : state.pendingLoad ≠ .none
  epochs : ∀ epoch ∈ state.load, epoch ≤ state.pendingEpoch

/-! ## Continuations -/

@[simp] theorem reportsOf_nil : reportsOf [] = [] := rfl

theorem reportsOf_append (first second : List Task) :
    reportsOf (first ++ second) = reportsOf first ++ reportsOf second :=
  List.filterMap_append

/-- A continuation that queues nothing. -/
def Task.Idle (task : Task) : Prop := reportsOf [task] = []

variable {task : Task} {state next : Reports} {event : ReportEvent} {tasks : List Task}

theorem reportsOf_snoc (idle : task.Idle) (tasks : List Task) :
    reportsOf (tasks ++ [task]) = reportsOf tasks := by
  rw [reportsOf_append, idle, List.append_nil]

section

variable (sound : state.Sound)
include sound

/-- The queue and what is stored of it do not depend on who is told of it. -/
theorem Reports.Sound.flags (flushing live : Bool) (timers : Nat) :
    Reports.Sound { state with flushing := flushing, live := live, timers := timers } :=
  ⟨sound.inOrder, sound.bounded, sound.fresh, sound.queued, sound.counted, sound.stored,
    sound.loading, sound.resolved, sound.started, sound.epochs⟩

omit sound in
/-- Waiting for the storage is waiting behind what waits already, or behind what runs next. -/
theorem afterLoad_cases (started : state.pendingLoad ≠ .none) (task : Task) :
    (state.pendingLoad = .loading ∧
      state.afterLoad task = { state with waiting := state.waiting ++ [task] }) ∨
    (state.pendingLoad = .resolved ∧
      state.afterLoad task = { state with tasks := state.tasks ++ [task] }) := by
  unfold Reports.afterLoad
  cases phase : state.pendingLoad with
  | none => exact absurd phase started
  | loading => exact .inl ⟨rfl, rfl⟩
  | resolved => exact .inr ⟨rfl, rfl⟩

theorem Reports.Sound.afterLoad (idle : task.Idle) : (state.afterLoad task).Sound := by
  rcases afterLoad_cases sound.started task with ⟨_, same⟩ | ⟨phase, same⟩
  · have reports := reportsOf_snoc idle state.waiting
    rw [same]
    refine ⟨sound.inOrder, sound.bounded, sound.fresh, ?_, sound.counted, sound.stored, ?_, ?_,
      sound.started, sound.epochs⟩
    · simp only [reports]
      exact sound.queued
    · simp only [reports]
      exact sound.loading
    · simp only [reports]
      exact sound.resolved
  · have reports := reportsOf_snoc idle state.tasks
    rw [same]
    refine ⟨?_, sound.bounded, sound.fresh, ?_, sound.counted, sound.stored, ?_, sound.resolved,
      sound.started, sound.epochs⟩
    · simp only [reports]
      exact sound.inOrder
    · simp only [reports]
      exact sound.queued
    · intro loading
      exact absurd (phase.symm.trans loading) (by decide)

theorem Reports.Sound.flush : state.flush.Sound := by
  unfold Reports.flush
  split
  · exact sound
  · exact (sound.flags true state.live state.timers).afterLoad rfl

omit sound in
/-- A flush that is asked for changes nothing of the queue yet. -/
theorem flush_keeps (started : state.pendingLoad ≠ .none) :
    state.flush.pending = state.pending ∧ state.flush.sent = state.sent ∧
      state.flush.writes = state.writes ∧ state.flush.forgotten = state.forgotten := by
  unfold Reports.flush
  split
  · exact ⟨rfl, rfl, rfl, rfl⟩
  · have kept : (Reports.mk state.storage state.queued state.forgotten state.pendingEpoch
        state.pendingLoad state.load state.waiting state.tasks state.pending state.writes true
        state.timers state.live state.sent).pendingLoad ≠ .none := started
    rcases afterLoad_cases kept .flush with ⟨_, same⟩ | ⟨_, same⟩
    · rw [same]
      exact ⟨rfl, rfl, rfl, rfl⟩
    · rw [same]
      exact ⟨rfl, rfl, rfl, rfl⟩

theorem Reports.Sound.sent :
    state.sent.Pairwise (· < ·) :=
  ((List.pairwise_append.mp (List.pairwise_append.mp sound.inOrder).1).1)

/-- A step that leaves the queue and what was sent as they are. -/
theorem Reports.Sound.quiet (pending : next.pending = state.pending)
    (sent : next.sent = state.sent) (writes : next.writes ⊆ state.writes)
    (forgotten : next.forgotten = state.forgotten) (other : event ≠ .loaded true) :
    ReportsKept state event next where
  inOrder := by
    rw [sent]
    exact sound.sent
  bounded := by
    rw [pending]
    exact sound.bounded
  leaves := by
    refine .inr (.inr ⟨0, [], ?_, Or.inl ?_⟩)
    · simpa using pending
    · simpa using sent
  restored same := absurd same other
  forgotten := by
    rw [pending, sent, forgotten, List.drop_length, List.append_nil]
    exact sound.fresh
  saved snapshot member := Or.inl (writes member)

/-- No report is ahead of the numbers given out. -/
theorem Reports.Sound.below : (∀ report ∈ state.sent, report < state.queued) ∧
      (∀ report ∈ state.pending, report < state.queued) ∧
      (∀ report ∈ reportsOf state.tasks, report < state.queued) ∧
      (∀ report ∈ reportsOf state.waiting, report < state.queued) ∧
      (∀ report ∈ state.storage, report < state.queued) ∧
      ∀ report ∈ state.writes.flatten, report < state.queued := by
  have all := sound.queued
  simp only [List.forall_mem_append] at all
  obtain ⟨⟨⟨⟨⟨sent, pending⟩, tasks⟩, waiting⟩, storage⟩, writes⟩ := all
  exact ⟨sent, pending, tasks, waiting, storage, writes⟩

variable {pending : List Nat}

omit sound in
theorem all_below {sent tasks waiting storage writes : List Nat} {queued : Nat}
    (h : (∀ report ∈ sent, report < queued) ∧ (∀ report ∈ pending, report < queued) ∧
      (∀ report ∈ tasks, report < queued) ∧ (∀ report ∈ waiting, report < queued) ∧
      (∀ report ∈ storage, report < queued) ∧ ∀ report ∈ writes, report < queued) :
    ∀ report ∈ sent ++ pending ++ tasks ++ waiting ++ storage ++ writes, report < queued := by
  obtain ⟨sent, pending, tasks, waiting, storage, writes⟩ := h
  simp only [List.forall_mem_append]
  exact ⟨⟨⟨⟨⟨sent, pending⟩, tasks⟩, waiting⟩, storage⟩, writes⟩

omit sound in
/-- One list more, of reports that are not ahead. -/
theorem below_snoc {writes : List (List Nat)} {queued : Nat}
    (old : ∀ report ∈ writes.flatten, report < queued) (new : ∀ report ∈ pending, report < queued) :
    ∀ report ∈ (writes ++ [pending]).flatten, report < queued := by
  rw [List.flatten_append, List.flatten_singleton, List.forall_mem_append]
  exact ⟨old, new⟩

theorem Reports.Sound.stored_snoc (ordered : pending.Pairwise (· < ·))
    (bounded : pending.length ≤ MAX_PENDING) :
    ∀ snapshot ∈ state.storage :: (state.writes ++ [pending]),
      snapshot.Pairwise (· < ·) ∧ snapshot.length ≤ MAX_PENDING := by
  rw [← List.cons_append, List.forall_mem_append, List.forall_mem_singleton]
  exact ⟨sound.stored, ordered, bounded⟩

/-- Nothing runs while the storage is read. -/
theorem Reports.Sound.not_loading (next : state.tasks = task :: tasks) :
    state.pendingLoad ≠ .loading := by
  intro loading
  obtain ⟨_, _, _, empty, _⟩ := sound.loading loading
  rw [next] at empty
  cases empty

/-- The storage is read in the current epoch only while it is waited for. -/
theorem Reports.Sound.loading_of_load
    (current : state.load = some state.pendingEpoch) : state.pendingLoad = .loading := by
  cases phase : state.pendingLoad with
  | none => exact absurd phase sound.started
  | loading => rfl
  | resolved => exact absurd current (sound.resolved phase).1

/-! ## Single steps -/

theorem Reports.Sound.enqueue (drained : state.tasks = []) :
    Reports.Sound (Reports.afterLoad (.enqueue state.queued)
      { state with queued := state.queued + 1 }) := by
  have older : ∀ {reports : List Nat}, (∀ report ∈ reports, report < state.queued) →
      ∀ report ∈ reports, report < state.queued + 1 :=
    fun below report member => Nat.lt_succ_of_lt (below report member)
  have newest : ∀ report ∈ [state.queued], report < state.queued + 1 :=
    List.forall_mem_singleton.mpr (Nat.lt_succ_self _)
  obtain ⟨sent, pending, tasks, waiting, storage, writes⟩ := sound.below
  have begun : Reports.pendingLoad { state with queued := state.queued + 1 } ≠ .none :=
    sound.started
  have counted : state.forgotten ≤ state.queued + 1 := Nat.le_succ_of_le sound.counted
  rcases afterLoad_cases begun (.enqueue state.queued) with ⟨phase, same⟩ | ⟨phase, same⟩
  · rw [same]
    have one : reportsOf (state.waiting ++ [.enqueue state.queued]) =
        reportsOf state.waiting ++ [state.queued] := reportsOf_append _ _
    refine ⟨sound.inOrder, sound.bounded, sound.fresh, ?_, counted, sound.stored, ?_, ?_,
      sound.started, sound.epochs⟩
    · simp only [one]
      exact all_below ⟨older sent, older pending, older tasks,
        List.forall_mem_append.mpr ⟨older waiting, newest⟩, older storage, older writes⟩
    · intro loading
      obtain ⟨load, unsent, unqueued, idle, unwritten, ordered⟩ := sound.loading loading
      refine ⟨load, unsent, unqueued, idle, unwritten, ?_⟩
      simp only [one, ← List.append_assoc]
      rw [List.pairwise_append]
      refine ⟨ordered, List.pairwise_singleton _ _, fun report member => ?_⟩
      exact List.forall_mem_singleton.mpr
        (List.forall_mem_append.mpr ⟨storage, waiting⟩ report member)
    · intro resolved
      exact absurd (phase.symm.trans resolved) (by decide)
  · rw [same]
    have one : reportsOf (state.tasks ++ [.enqueue state.queued]) = [state.queued] := by
      rw [drained]
      rfl
    refine ⟨?_, sound.bounded, sound.fresh, ?_, counted, sound.stored, ?_, sound.resolved,
      sound.started, sound.epochs⟩
    · simp only [one]
      have ordered := sound.inOrder
      rw [drained, reportsOf_nil, List.filter_nil, List.append_nil] at ordered
      have kept : [state.queued].filter (state.forgotten ≤ ·) = [state.queued] := by
        simp [sound.counted]
      rw [kept, List.pairwise_append]
      refine ⟨ordered, List.pairwise_singleton _ _, fun report member => ?_⟩
      exact List.forall_mem_singleton.mpr
        (List.forall_mem_append.mpr ⟨sent, pending⟩ report member)
    · simp only [one]
      exact all_below ⟨older sent, older pending, newest, older waiting, older storage,
        older writes⟩
    · intro loading
      exact absurd (phase.symm.trans loading) (by decide)

theorem Reports.Sound.forget (drained : state.tasks = []) :
    Reports.Sound { Reports.savePending
        { state with pending := [], pendingEpoch := state.pendingEpoch + 1 } with
      pendingLoad := .resolved
      live := false
      forgotten := state.queued } := by
  obtain ⟨sent, _, tasks, waiting, storage, writes⟩ := sound.below
  have none_ : ∀ report ∈ ([] : List Nat), report < state.queued := List.forall_mem_nil _
  refine ⟨?_, Nat.zero_le _, List.forall_mem_nil _, ?_, Nat.le_refl _,
    sound.stored_snoc List.Pairwise.nil (Nat.zero_le _), ?_, ?_, ?_, ?_⟩
  · simp only [Reports.savePending, drained, reportsOf_nil, List.filter_nil, List.append_nil]
    exact sound.sent
  · exact all_below ⟨sent, none_, tasks, waiting, storage, below_snoc writes none_⟩
  · intro loading
    cases loading
  · intro _
    refine ⟨?_, ?_⟩
    · intro current
      have old := sound.epochs _ current
      simp only [Reports.savePending] at old
      omega
    · exact waiting
  · intro unstarted
    cases unstarted
  · intro epoch member
    exact Nat.le_succ_of_le (sound.epochs epoch member)

theorem Reports.Sound.written {snapshot : List Nat}
    {writes : List (List Nat)} (next : state.writes = snapshot :: writes) (stored : Bool) :
    Reports.Sound { state with
      storage := if stored then snapshot else state.storage
      writes := writes } := by
  obtain ⟨sent, pending, tasks, waiting, storage, flat⟩ := sound.below
  rw [next, List.flatten_cons, List.forall_mem_append] at flat
  have snapshots := sound.stored
  rw [next, List.forall_mem_cons, List.forall_mem_cons] at snapshots
  refine ⟨sound.inOrder, sound.bounded, sound.fresh, ?_, sound.counted, ?_, ?_, sound.resolved,
    sound.started, sound.epochs⟩
  · cases stored with
    | false => exact all_below ⟨sent, pending, tasks, waiting, storage, flat.2⟩
    | true => exact all_below ⟨sent, pending, tasks, waiting, flat.1, flat.2⟩
  · cases stored with
    | false => exact List.forall_mem_cons.mpr ⟨snapshots.1, snapshots.2.2⟩
    | true => exact List.forall_mem_cons.mpr snapshots.2
  · intro loading
    obtain ⟨_, _, _, _, empty, _⟩ := sound.loading loading
    rw [next] at empty
    cases empty

/-- Reading the storage restores the whole stored queue, where nothing was forgotten since. -/
theorem restore_pending (loads : state.load = some epoch) (read : Bool) :
    (Reports.restore read epoch state).pending =
      if read = true ∧ state.load = some state.pendingEpoch then state.storage
      else state.pending := by
  unfold Reports.restore
  by_cases current : read = true ∧ epoch = state.pendingEpoch
  · have loading := sound.loading_of_load (by rw [loads, current.2])
    obtain ⟨_, _, pending, _, _, _⟩ := sound.loading loading
    have size := (sound.stored state.storage List.mem_cons_self).2
    rw [if_pos current, loads, current.2, if_pos ⟨current.1, rfl⟩, pending, List.nil_append]
    exact List.take_of_length_le size
  · have other : ¬ (read = true ∧ state.load = some state.pendingEpoch) := by
      rw [loads]
      rintro ⟨yes, same⟩
      exact current ⟨yes, Option.some.inj same⟩
    rw [if_neg current, if_neg other]

omit sound in
theorem restore_eq (read : Bool) (epoch : Nat) (state : Reports) :
    Reports.restore read epoch state =
      { state with pending := (Reports.restore read epoch state).pending } := by
  unfold Reports.restore
  split <;> rfl

/-- What was read is older than everything that waited for it. -/
theorem Reports.Sound.loaded (loads : state.load = some epoch) (read : Bool)
    (remembered : read = true → state.load = some state.pendingEpoch →
      ∀ report ∈ state.storage, state.forgotten ≤ report) :
    Reports.Sound { Reports.restore read epoch state with
      load := none
      pendingLoad := .resolved
      tasks := state.waiting
      waiting := [] } := by
  rw [restore_eq, restore_pending sound loads read]
  obtain ⟨sent, pending, _, waiting, storage, writes⟩ := sound.below
  by_cases current : read = true ∧ state.load = some state.pendingEpoch
  · rw [if_pos current]
    obtain ⟨_, unsent, _, _, _, ordered⟩ := sound.loading (sound.loading_of_load current.2)
    refine ⟨?_, (sound.stored _ List.mem_cons_self).2, remembered current.1 current.2, ?_,
      sound.counted, sound.stored, ?_, ?_, ?_, ?_⟩
    · rw [unsent, List.nil_append]
      exact ordered.sublist (List.Sublist.append (List.Sublist.refl _) List.filter_sublist)
    · exact all_below ⟨sent, storage, waiting, List.forall_mem_nil _, storage, writes⟩
    · intro impossible
      cases impossible
    · intro _
      refine ⟨by simp, ?_⟩
      intro report member
      cases member
    · intro impossible
      cases impossible
    · intro epoch member
      cases member
  · rw [if_neg current]
    refine ⟨?_, sound.bounded, sound.fresh, ?_, sound.counted, sound.stored, ?_, ?_, ?_, ?_⟩
    · cases phase : state.pendingLoad with
      | none => exact absurd phase sound.started
      | loading =>
        obtain ⟨_, unsent, empty, _, _, ordered⟩ := sound.loading phase
        rw [unsent, empty, List.nil_append, List.nil_append]
        exact (List.pairwise_append.mp ordered).2.1.sublist List.filter_sublist
      | resolved =>
        have none_left : (reportsOf state.waiting).filter (state.forgotten ≤ ·) = [] := by
          rw [List.filter_eq_nil_iff]
          intro report member
          have old := (sound.resolved phase).2 report member
          simp only [decide_eq_true_eq]
          omega
        rw [none_left, List.append_nil]
        exact (List.pairwise_append.mp sound.inOrder).1
    · exact all_below ⟨sent, pending, waiting, List.forall_mem_nil _, storage, writes⟩
    · intro impossible
      cases impossible
    · intro _
      refine ⟨by simp, ?_⟩
      intro report member
      cases member
    · intro impossible
      cases impossible
    · intro epoch member
      cases member

omit sound in
theorem remembered_loaded {read : Bool} (remembered : Remembered state (.loaded read)) :
    read = true → state.load = some state.pendingEpoch →
      ∀ report ∈ state.storage, state.forgotten ≤ report := by
  intro yes
  rw [yes] at remembered
  exact remembered

theorem Reports.Sound.loaded_kept (loads : state.load = some epoch) (read : Bool) :
    ReportsKept state (.loaded read) { Reports.restore read epoch state with
      load := none
      pendingLoad := .resolved
      tasks := state.waiting
      waiting := [] } ↔ Remembered state (.loaded read) := by
  have pending := restore_pending sound loads read
  constructor
  · intro kept
    cases read with
    | false => trivial
    | true =>
      intro current report member
      have whole := kept.restored rfl current
      have fresh := kept.forgotten report
      rw [whole] at fresh
      have same := restore_eq true epoch state
      rw [same] at fresh
      exact fresh (List.mem_append_left _ member)
  · intro remembered
    have held := sound.loaded loads read (remembered_loaded remembered)
    rw [restore_eq, pending] at held ⊢
    refine ⟨held.sent, held.bounded, ?_, ?_, ?_, fun snapshot member => .inl member⟩
    · right
      right
      by_cases current : read = true ∧ state.load = some state.pendingEpoch
      · have empty := (sound.loading (sound.loading_of_load current.2)).2.2.1
        refine ⟨0, state.storage, ?_, Or.inl ?_⟩
        · rw [if_pos current, empty]
          rfl
        · rw [List.take_zero, List.append_nil]
      · refine ⟨0, [], ?_, Or.inl ?_⟩
        · rw [if_neg current, List.drop_zero, List.append_nil]
        · rw [List.take_zero, List.append_nil]
    · intro same current
      cases same
      exact if_pos ⟨rfl, current⟩
    · intro report member
      simp only [List.drop_length, List.append_nil] at member
      exact held.fresh report member

omit sound in
theorem push_cases (report : Nat) (pending : List Nat) :
    ∃ count, Reports.push report pending = pending.drop count ++ [report] ∧
      (count = 0 ∧ pending.length < MAX_PENDING ∨ count = 1 ∧ MAX_PENDING ≤ pending.length) := by
  unfold Reports.push
  split
  · rename_i full
    refine ⟨1, ?_, Or.inr ⟨rfl, full⟩⟩
    rw [List.drop_one]
  · rename_i room
    exact ⟨0, rfl, Or.inl ⟨rfl, Nat.lt_of_not_le room⟩⟩

/-- A report that is pushed is the youngest of the queue. -/
theorem Reports.Sound.pushed {report : Nat}
    (next : state.tasks = .enqueue report :: tasks) (remembered : state.forgotten ≤ report) :
    Reports.Sound (Reports.savePending { state with
      tasks := tasks, pending := Reports.push report state.pending }) := by
  obtain ⟨count, pushed, room⟩ := push_cases report state.pending
  have reports : reportsOf state.tasks = report :: reportsOf tasks := by
    rw [next]
    rfl
  have ordered := sound.inOrder
  rw [reports, List.filter_cons_of_pos (by simpa using remembered)] at ordered
  have fewer : (state.pending.drop count).Sublist state.pending := List.drop_sublist _ _
  have kept : (state.sent ++ Reports.push report state.pending ++
      (reportsOf tasks).filter (state.forgotten ≤ ·)).Pairwise (· < ·) := by
    refine List.Pairwise.sublist ?_ ordered
    rw [pushed]
    simp only [List.append_assoc, List.singleton_append]
    exact (List.Sublist.refl _).append (fewer.append (List.Sublist.refl _))
  obtain ⟨sent, pending, tasks, waiting, storage, writes⟩ := sound.below
  rw [reports, List.forall_mem_cons] at tasks
  have below : ∀ other ∈ Reports.push report state.pending, other < state.queued := by
    rw [pushed, List.forall_mem_append, List.forall_mem_singleton]
    exact ⟨fun other old => pending other (fewer.subset old), tasks.1⟩
  have bounded : (Reports.push report state.pending).length ≤ MAX_PENDING := by
    have size := sound.bounded
    rw [pushed, List.length_append, List.length_drop, List.length_singleton]
    rcases room with ⟨rfl, room⟩ | ⟨rfl, full⟩
    · omega
    · simp only [MAX_PENDING] at size full ⊢
      omega
  refine ⟨kept, bounded, ?_, ?_, sound.counted, ?_, fun loading => absurd loading
    (sound.not_loading next), sound.resolved, sound.started, sound.epochs⟩
  · simp only [Reports.savePending]
    rw [pushed, List.forall_mem_append, List.forall_mem_singleton]
    exact ⟨fun other old => sound.fresh other (fewer.subset old), remembered⟩
  · exact all_below ⟨sent, below, tasks.2, waiting, storage, below_snoc writes below⟩
  · exact sound.stored_snoc (List.pairwise_append.mp (List.pairwise_append.mp kept).1).2.1 bounded

/-- A flush sends the whole queue or nothing. -/
theorem Reports.Sound.flushes (next : state.tasks = .flush :: tasks) :
    Reports.Sound (Reports.runTask { state with tasks := tasks } .flush) := by
  have reports : reportsOf (tasks ++ [.flushed]) = reportsOf state.tasks := by
    rw [reportsOf_append, next]
    simp [reportsOf]
  have notLoading := sound.not_loading next
  have whole : (if state.live = true then state.sent ++ state.pending else state.sent) ++
      (if state.live = true then [] else state.pending) = state.sent ++ state.pending := by
    split
    · rw [List.append_nil]
    · rfl
  refine ⟨?_, ?_, ?_, ?_, sound.counted, sound.stored, fun loading => absurd loading notLoading,
    sound.resolved, sound.started, sound.epochs⟩
  · simp only [Reports.runTask, reports, whole]
    exact sound.inOrder
  · simp only [Reports.runTask]
    split
    · exact Nat.zero_le _
    · exact sound.bounded
  · intro report member
    simp only [Reports.runTask] at member
    split at member
    · cases member
    · exact sound.fresh report member
  · simp only [Reports.runTask, reports, whole]
    exact sound.queued

theorem Reports.Sound.flushed (next : state.tasks = .flushed :: tasks) :
    Reports.Sound (Reports.runTask { state with tasks := tasks } .flushed) := by
  have reports : reportsOf state.tasks = reportsOf tasks := by
    rw [next]
    rfl
  have notLoading := sound.not_loading next
  have ordered := sound.inOrder
  obtain ⟨sent, pending, waits, waiting, storage, writes⟩ := sound.below
  rw [reports] at ordered waits
  refine ⟨ordered, sound.bounded, sound.fresh,
    all_below ⟨sent, pending, waits, waiting, storage, below_snoc writes pending⟩, sound.counted,
    sound.stored_snoc (List.pairwise_append.mp (List.pairwise_append.mp sound.inOrder).1).2.1
      sound.bounded,
    fun loading => absurd loading notLoading, sound.resolved, sound.started, sound.epochs⟩

theorem Reports.Sound.started_ (next : state.tasks = .started :: tasks) :
    Reports.Sound { state with tasks := tasks } := by
  have reports : reportsOf state.tasks = reportsOf tasks := by
    rw [next]
    rfl
  have notLoading := sound.not_loading next
  have ordered := sound.inOrder
  have counts := sound.queued
  rw [reports] at ordered counts
  exact ⟨ordered, sound.bounded, sound.fresh, counts, sound.counted, sound.stored,
    fun loading => absurd loading notLoading, sound.resolved, sound.started, sound.epochs⟩

omit sound in
theorem sound_restarted {storage : List Nat} {queued forgotten : Nat}
    (counted : forgotten ≤ queued) (below : ∀ report ∈ storage, report < queued)
    (stored : storage.Pairwise (· < ·) ∧ storage.length ≤ MAX_PENDING) :
    (Reports.restarted storage queued forgotten).Sound := by
  refine ⟨List.Pairwise.nil, Nat.zero_le _, ?_, ?_, counted, ?_, ?_, ?_, ?_, ?_⟩
  · intro report member
    cases member
  · intro report member
    apply below report
    simpa [Reports.restarted, Reports.afterLoad, reportsOf] using member
  · intro snapshot member
    rw [List.mem_singleton.mp member]
    exact stored
  · intro _
    refine ⟨rfl, rfl, rfl, rfl, rfl, ?_⟩
    simpa [Reports.restarted, Reports.afterLoad, reportsOf] using stored.1
  · intro resolved
    cases resolved
  · intro unstarted
    cases unstarted
  · intro epoch member
    cases member
    exact Nat.zero_le _

/-! ## Steps and runs -/

/-- A continuation that runs keeps the queue where it queues nothing that was forgotten. -/
theorem Reports.Sound.runs (next : state.tasks = task :: tasks) :
    (ReportsKept state .run (Reports.runTask { state with tasks := tasks } task) ↔
      Remembered state .run) ∧
    (Remembered state .run → (Reports.runTask { state with tasks := tasks } task).Sound) := by
  have other : ReportEvent.run ≠ .loaded true := by decide
  cases task with
  | enqueue report =>
    have remembers : Remembered state .run ↔ state.forgotten ≤ report := by
      simp [Remembered, next, reportsOf]
    obtain ⟨count, pushed, room⟩ := push_cases report state.pending
    have started : (Reports.savePending { state with
        tasks := tasks, pending := Reports.push report state.pending }).pendingLoad ≠ .none :=
      sound.started
    obtain ⟨pending, sent, writes, forgotten⟩ := flush_keeps started
    rw [remembers]
    refine ⟨⟨?_, ?_⟩, ?_⟩
    · intro kept
      have fresh := kept.forgotten report
      simp only [Reports.runTask, pending, sent, writes, forgotten] at fresh
      apply fresh
      simp [Reports.savePending, pushed]
    · intro fresh
      have held := sound.pushed next fresh
      refine ⟨?_, ?_, ?_, fun same => absurd same other, ?_, ?_⟩
      · simp only [Reports.runTask, sent]
        exact held.sent
      · simp only [Reports.runTask, pending]
        exact held.bounded
      · refine .inr (.inr ⟨count, [report], ?_, ?_⟩)
        · simp only [Reports.runTask, pending]
          exact pushed
        · simp only [Reports.runTask, sent]
          rcases room with ⟨rfl, _⟩ | ⟨rfl, full⟩
          · left
            rw [List.take_zero, List.append_nil]
            rfl
          · exact .inr ⟨rfl, Nat.le_antisymm sound.bounded full, rfl⟩
      · simp only [Reports.runTask, pending, sent, forgotten]
        intro young member
        rcases List.mem_append.mp member with kept | none_
        · exact held.fresh young kept
        · simp only [Reports.savePending, List.drop_length] at none_
          cases none_
      · simp only [Reports.runTask, writes, forgotten]
        intro snapshot member
        rcases List.mem_append.mp member with old | new
        · exact .inl old
        · rw [List.mem_singleton.mp new]
          exact .inr held.fresh
    · intro fresh
      exact (sound.pushed next fresh).flush.flags _ _ _
  | flush =>
    have remembers : Remembered state .run := by
      simp [Remembered, next, reportsOf]
    have held := sound.flushes next
    refine ⟨⟨fun _ => remembers, fun _ => ?_⟩, fun _ => held⟩
    refine ⟨held.sent, held.bounded, ?_, fun same => absurd same other, ?_, ?_⟩
    · simp only [Reports.runTask]
      by_cases live : state.live = true
      · refine .inr (.inr ⟨state.pending.length, [], ?_, Or.inl ?_⟩)
        · rw [if_pos live, List.drop_length, List.append_nil]
        · rw [if_pos live, List.take_length]
      · refine .inr (.inr ⟨0, [], ?_, Or.inl ?_⟩)
        · rw [if_neg live, List.drop_zero, List.append_nil]
        · rw [if_neg live, List.take_zero, List.append_nil]
    · intro report member
      simp only [Reports.runTask] at member ⊢
      by_cases live : state.live = true
      · rw [if_pos live, if_pos live, List.drop_left, List.nil_append] at member
        exact sound.fresh report member
      · rw [if_neg live, if_neg live, List.drop_length, List.append_nil] at member
        exact sound.fresh report member
    · exact fun snapshot member => .inl member
  | flushed =>
    have remembers : Remembered state .run := by
      simp [Remembered, next, reportsOf]
    have held := sound.flushed next
    refine ⟨⟨fun _ => remembers, fun _ => ?_⟩, fun _ => held⟩
    refine ⟨held.sent, held.bounded, ?_, fun same => absurd same other, ?_, ?_⟩
    · refine .inr (.inr ⟨0, [], ?_, Or.inl ?_⟩)
      · simp [Reports.runTask, Reports.savePending]
      · simp [Reports.runTask, Reports.savePending]
    · intro report member
      simp only [Reports.runTask, Reports.savePending, List.drop_length, List.append_nil]
        at member ⊢
      exact sound.fresh report member
    · intro snapshot member
      rcases List.mem_append.mp member with old | new
      · exact .inl old
      · rw [List.mem_singleton.mp new]
        exact .inr sound.fresh
  | started =>
    have remembers : Remembered state .run := by
      simp [Remembered, next, reportsOf]
    refine ⟨⟨fun _ => remembers, fun _ => ?_⟩, fun _ => sound.started_ next⟩
    exact sound.quiet rfl rfl (List.Subset.refl _) rfl other

/-- An event keeps the queue exactly where it brings back nothing that was forgotten. -/
theorem Reports.Sound.happens (drained : event = .run ∨ state.tasks = [])
    (happened : state.happen event = some next) :
    (ReportsKept state event next ↔ Remembered state event) ∧
      (Remembered state event → next.Sound) := by
  have flushes : ∀ live timers,
      (Reports.flush { state with live := live, timers := timers }).Sound ∧
        (Reports.flush { state with live := live, timers := timers }).pending = state.pending ∧
        (Reports.flush { state with live := live, timers := timers }).sent = state.sent ∧
        (Reports.flush { state with live := live, timers := timers }).writes = state.writes ∧
        (Reports.flush { state with live := live, timers := timers }).forgotten =
          state.forgotten := by
    intro live timers
    have held := sound.flags state.flushing live timers
    exact ⟨held.flush, flush_keeps held.started⟩
  cases event with
  | run =>
    simp only [Reports.happen] at happened
    split at happened
    · cases happened
    · rename_i task tasks waiting
      cases happened
      exact sound.runs waiting
  | enqueue =>
    cases happened
    have empty := drained.resolve_left (by decide)
    refine ⟨⟨fun _ => trivial, fun _ => ?_⟩, fun _ => sound.enqueue empty⟩
    have begun : Reports.pendingLoad { state with queued := state.queued + 1 } ≠ .none :=
      sound.started
    rcases afterLoad_cases begun (.enqueue state.queued) with ⟨_, same⟩ | ⟨_, same⟩
    · rw [same]
      exact sound.quiet rfl rfl (List.Subset.refl _) rfl (by decide)
    · rw [same]
      exact sound.quiet rfl rfl (List.Subset.refl _) rfl (by decide)
  | loaded read =>
    obtain ⟨epoch, loads, same⟩ := Option.map_eq_some_iff.mp happened
    rw [← same]
    exact ⟨sound.loaded_kept loads read, fun remembered => sound.loaded loads read
      (remembered_loaded remembered)⟩
  | ready =>
    cases happened
    obtain ⟨held, pending, sent, writes, forgotten⟩ := flushes true state.timers
    refine ⟨⟨fun _ => trivial, fun _ => ?_⟩, fun _ => held⟩
    exact sound.quiet pending sent (fun snapshot member => writes ▸ member) forgotten (by decide)
  | close =>
    cases happened
    exact ⟨⟨fun _ => trivial, fun _ => sound.quiet rfl rfl (List.Subset.refl _) rfl (by decide)⟩,
      fun _ => sound.flags _ _ _⟩
  | forget =>
    cases happened
    have empty := drained.resolve_left (by decide)
    refine ⟨⟨fun _ => trivial, fun _ => ?_⟩, fun _ => sound.forget empty⟩
    refine ⟨sound.sent, Nat.zero_le _, Or.inl rfl, (fun same => by cases same), ?_, ?_⟩
    · intro report member
      simp [Reports.savePending] at member
    · intro snapshot member
      rcases List.mem_append.mp member with old | new
      · exact .inl old
      · rw [List.mem_singleton.mp new]
        exact .inr fun report impossible => by cases impossible
  | written stored =>
    simp only [Reports.happen] at happened
    split at happened
    · cases happened
    · rename_i snapshot writes waiting
      cases happened
      refine ⟨⟨fun _ => trivial, fun _ => ?_⟩, fun _ => sound.written waiting stored⟩
      refine sound.quiet rfl rfl ?_ rfl (fun same => by cases same)
      rw [waiting]
      exact List.subset_cons_self _ _
  | timer =>
    simp only [Reports.happen] at happened
    split at happened
    · cases happened
    · cases happened
      obtain ⟨held, pending, sent, writes, forgotten⟩ := flushes state.live (state.timers - 1)
      refine ⟨⟨fun _ => trivial, fun _ => ?_⟩, fun _ => held⟩
      exact sound.quiet pending sent (fun snapshot member => writes ▸ member) forgotten (by decide)
  | restart =>
    cases happened
    refine ⟨⟨fun _ => trivial, fun _ => ?_⟩, fun _ => ?_⟩
    · refine ⟨List.Pairwise.nil, Nat.zero_le _, Or.inr (.inl rfl), (fun same => by cases same),
        ?_, ?_⟩
      · intro report member
        simp [Reports.restarted, Reports.afterLoad] at member
      · intro snapshot member
        cases member
    · apply sound_restarted sound.counted _ (sound.stored _ List.mem_cons_self)
      intro report member
      exact sound.queued report (by simp [member])

end

theorem Reports.step_eq_some (h : state.step event = some next) :
    (event = .run ∨ state.tasks = []) ∧ state.happen event = some next := by
  unfold Reports.step at h
  split at h
  · rename_i drained
    exact ⟨drained, h⟩
  · cases h

/-- Every step keeps the queue, whatever it leads to. -/
def StepKeeps (state : Reports) (event : ReportEvent) : Prop :=
  ∀ next, state.step event = some next → ReportsKept state event next

theorem sound_start_reports : Reports.start.Sound := by
  apply sound_restarted (Nat.le_refl _)
  · intro report member
    cases member
  · exact ⟨List.Pairwise.nil, Nat.zero_le _⟩

/-- One report, sent once the storage was read and the connection is ready. -/
def oneReport : List ReportEvent :=
  [.enqueue, .loaded true, .run, .run, .run, .run, .ready, .run, .run]

/-- The report is forgotten before the storage was read. -/
def forgottenFirst : List ReportEvent := [.enqueue, .forget]

end Gunda.Extension
