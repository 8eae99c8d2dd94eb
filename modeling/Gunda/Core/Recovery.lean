import Gunda.Core.Mirror

/-!
# Recovery at a start

Every start reconciles the jobs that a process left in execution, one row after the other and
without a transaction. Whatever fails and however often it is tried again, a row is left alone
or interrupted, and a start that succeeds leaves none in execution.
-/
namespace Gunda.Core

open Gunda.Lib
open Fallible (andThen andThen_ok wp wp_bind wp_mono)

/-! ## Storage that rounds timestamps -/

/-- How a repository normalizes the timestamps it stores. -/
structure Normalization where
  normalize : OffsetDateTime → OffsetDateTime
  monotone : ∀ {a b : OffsetDateTime}, a ≤ b → normalize a ≤ normalize b
  idempotent : ∀ a, normalize (normalize a) = normalize a

/-- Timestamps in whole milliseconds, rounded down. -/
def milliseconds : Normalization where
  normalize timestamp := timestamp / 1000000 * 1000000
  monotone := by
    intro a b le
    have quotients : a / 1000000 ≤ b / 1000000 := Int.ediv_le_ediv (by decide) le
    exact Int.mul_le_mul_of_nonneg_right quotients (by decide)
  idempotent timestamp := by
    rw [Int.mul_ediv_cancel _ (by decide)]

namespace Normalization

variable (storage : Normalization)

def respond : Surroundings ManagerOp ManagerOp.Answer Choice World
  | .save candidate, .stored (.ok updatedAt), world =>
      if updatedAt = storage.normalize candidate.updatedAt then
        Core.respond 0 (.save candidate) (.stored (.ok updatedAt)) world
      else none
  | op, choice, world => Core.respond 0 op choice world

def serve : Surroundings ServiceOp ServiceOp.Answer ServiceChoice ServedWorld
  | .managed op, .managed choice, served =>
      (storage.respond op choice served.world).map fun answered =>
        (answered.1, { served with world := answered.2 })
  | op, choice, served => Core.serve op choice served

/-- A start on a repository, with what it leaves. -/
def start (choices : List ServiceChoice) (service : Service) : Option (Outcome × Service) :=
  (Program.finish storage.serve Operation.start.program.run choices service.begin).map fun ended =>
    (⟨ended.1, ended.2.world.saves⟩, Operation.start.leaves ended.1 ended.2)

/-- One start after the other, whatever becomes of each. -/
def starts : List (List ServiceChoice) → Service → Option Service
  | [], service => some service
  | choices :: later, service =>
      (storage.start choices service).bind fun ended => starts later ended.2

end Normalization

/-! ## Interrupted rows -/

/-- The row that a recovery saves. -/
def recovered (storage : Normalization) (now : OffsetDateTime) (job : DownloadJob) : DownloadJob :=
  { job with state := .interrupted, updatedAt := storage.normalize (max now job.updatedAt) }

/-- The row before was in execution; now it is interrupted, since no earlier time than before. -/
structure Interrupts (storage : Normalization) (times : OffsetDateTime → Prop)
    (before after : DownloadJob) : Prop where
  active : before.state.requiresRecoveryAfterRestart = true
  row : ∃ now, times now ∧ after = recovered storage now before
  later : before.updatedAt ≤ after.updatedAt

/-- Rows are left alone or interrupted. -/
def Reconciles (storage : Normalization) (times : OffsetDateTime → Prop)
    (before after : DownloadId → Option DownloadJob) : Prop :=
  ∀ id, after id = before id ∨
    ∃ job row, before id = some job ∧ after id = some row ∧ Interrupts storage times job row

def NoneActive (rows : DownloadId → Option DownloadJob) : Prop :=
  ∀ id job, rows id = some job → job.state.requiresRecoveryAfterRestart = false

/-- Every row holds its timestamp as the repository stores it. -/
def Normalized (storage : Normalization) (rows : DownloadId → Option DownloadJob) : Prop :=
  ∀ id job, rows id = some job → storage.normalize job.updatedAt = job.updatedAt

def Keyed (rows : DownloadId → Option DownloadJob) : Prop :=
  ∀ id job, rows id = some job → job.id = id

section

variable {storage : Normalization} {times later : OffsetDateTime → Prop}
  {before middle after : DownloadId → Option DownloadJob}

variable {job : DownloadJob}

theorem Interrupts.inactive {row : DownloadJob} (h : Interrupts storage times job row) :
    row.state.requiresRecoveryAfterRestart = false := by
  obtain ⟨now, -, same⟩ := h.row
  rw [same]
  rfl

theorem interrupts_recovered {now : OffsetDateTime} (read : times now)
    (active : job.state.requiresRecoveryAfterRestart = true)
    (normal : storage.normalize job.updatedAt = job.updatedAt) :
    Interrupts storage times job (recovered storage now job) where
  active := active
  row := ⟨now, read, rfl⟩
  later := by
    have le : storage.normalize job.updatedAt ≤ storage.normalize (max now job.updatedAt) :=
      storage.monotone (Int.le_max_right now job.updatedAt)
    rw [normal] at le
    exact le

theorem Reconciles.refl (rows : DownloadId → Option DownloadJob) : Reconciles storage times rows rows :=
  fun _ => .inl rfl

/-- A row that is already interrupted is not recovered again. -/
theorem Reconciles.trans (first : Reconciles storage times before middle)
    (second : Reconciles storage later middle after) :
    Reconciles storage (fun now => times now ∨ later now) before after := by
  intro id
  cases second id with
  | inl same =>
    rw [same]
    cases first id with
    | inl same => exact .inl same
    | inr interrupted =>
      obtain ⟨job, row, found, shown, held⟩ := interrupted
      obtain ⟨now, read, same⟩ := held.row
      exact .inr ⟨job, row, found, shown, held.active, ⟨now, .inl read, same⟩, held.later⟩
  | inr interrupted =>
    obtain ⟨job, row, found, shown, held⟩ := interrupted
    cases first id with
    | inl same =>
      obtain ⟨now, read, row_⟩ := held.row
      exact .inr ⟨job, row, same ▸ found, shown, held.active, ⟨now, .inr read, row_⟩, held.later⟩
    | inr earlier =>
      obtain ⟨_, row', -, shown', held'⟩ := earlier
      have same : job = row' := Option.some.inj (found.symm.trans shown')
      have inactive := held'.inactive
      rw [← same, held.active] at inactive
      cases inactive

section

variable (recovers : Reconciles storage times before after)
include recovers

theorem Reconciles.keyed (keyed : Keyed before) :
    Keyed after := by
  intro id row shown
  cases recovers id with
  | inl same => exact keyed id row (same ▸ shown)
  | inr interrupted =>
    obtain ⟨job, row', found, shown', held⟩ := interrupted
    obtain ⟨now, -, same⟩ := held.row
    cases shown.symm.trans shown'
    rw [same]
    exact keyed id job found

theorem Reconciles.normalized (normal : Normalized storage before) : Normalized storage after := by
  intro id row shown
  cases recovers id with
  | inl same => exact normal id row (same ▸ shown)
  | inr interrupted =>
    obtain ⟨job, row', -, shown', held⟩ := interrupted
    obtain ⟨now, -, same⟩ := held.row
    cases shown.symm.trans shown'
    rw [same]
    exact storage.idempotent _

theorem Reconciles.none_iff (id : DownloadId) :
    after id = none ↔ before id = none := by
  cases recovers id with
  | inl same => rw [same]
  | inr interrupted =>
    obtain ⟨job, row, found, shown, -⟩ := interrupted
    rw [found, shown]
    exact iff_of_false (Option.some_ne_none row) (Option.some_ne_none job)

/-- Where none is active, nothing is recovered. -/
theorem Reconciles.eq (none_ : NoneActive before) :
    after = before := by
  funext id
  cases recovers id with
  | inl same => exact same
  | inr interrupted =>
    obtain ⟨job, _, found, -, held⟩ := interrupted
    have active := held.active
    rw [none_ id job found] at active
    cases active

/-- A recovery that left none active interrupted exactly the active rows. -/
theorem Reconciles.exactly
    (none_ : NoneActive after) {id : DownloadId} (found : before id = some job) :
    (job.state.requiresRecoveryAfterRestart = false → after id = some job) ∧
      (job.state.requiresRecoveryAfterRestart = true →
        ∃ row, after id = some row ∧ Interrupts storage times job row) := by
  cases recovers id with
  | inl same =>
    rw [found] at same
    refine ⟨fun _ => same, fun active => ?_⟩
    rw [none_ id job same] at active
    cases active
  | inr interrupted =>
    obtain ⟨job', row, found', shown, held⟩ := interrupted
    cases found.symm.trans found'
    refine ⟨fun inactive => ?_, fun _ => ⟨row, shown, held⟩⟩
    rw [held.active] at inactive
    cases inactive

end

/-- Two recoveries of the same rows differ in the times of the interrupted ones at most. -/
theorem Reconciles.unique (first : Reconciles storage times before middle) (done : NoneActive middle)
    (second : Reconciles storage later before after) (done' : NoneActive after) (id : DownloadId) :
    (middle id).map (fun job => { job with updatedAt := 0 }) =
        (after id).map (fun job => { job with updatedAt := 0 }) ∧
      ∀ now, (∀ read, times read → read = now) → (∀ read, later read → read = now) →
        middle id = after id := by
  cases found : before id with
  | none =>
    rw [(first.none_iff id).mpr found, (second.none_iff id).mpr found]
    exact ⟨rfl, fun _ _ _ => rfl⟩
  | some job =>
    obtain ⟨kept, interrupted⟩ := first.exactly done found
    obtain ⟨kept', interrupted'⟩ := second.exactly done' found
    cases active : job.state.requiresRecoveryAfterRestart with
    | false =>
      rw [kept active, kept' active]
      exact ⟨rfl, fun _ _ _ => rfl⟩
    | true =>
      obtain ⟨row, shown, held⟩ := interrupted active
      obtain ⟨row', shown', held'⟩ := interrupted' active
      obtain ⟨read, first, same⟩ := held.row
      obtain ⟨read', second, same'⟩ := held'.row
      rw [shown, shown', same, same']
      refine ⟨rfl, fun now only only' => ?_⟩
      rw [only read first, only' read' second]

end

/-! ## One start -/

namespace Normalization

variable (storage : Normalization)

/-- What the chosen answers can do to a running manager. -/
def managing (chosen : Choice → Prop) : Spec ManagerOp ManagerOp.Answer World where
  requires _ _ := True
  ensures op s answer t := ∃ choice, chosen choice ∧ storage.respond op choice s = some (answer, t)

def serving (chosen : ServiceChoice → Prop) :
    Spec ServiceOp ServiceOp.Answer ServedWorld where
  requires _ _ := True
  ensures op s answer t := ∃ choice, chosen choice ∧ storage.serve op choice s = some (answer, t)

end Normalization

section

variable {storage : Normalization} {chosen : Choice → Prop}
variable {world : World}

theorem withWriteLock_managing {ε α : Type} {p : Managed ε α} {Q : Except ε α → World → Prop}
    (free : world.holder = none)
    (inside : wp (storage.managing chosen) p (fun result later =>
      later.holder = some 0 ∧ Q result { later with holder := none })
      { world with holder := some 0 }) :
    wp (storage.managing chosen) (withWriteLock p) Q world := by
  rw [wp_withWriteLock]
  refine ⟨trivial, fun locked acquired => ?_⟩
  obtain ⟨choice, -, answered⟩ := acquired
  cases choice with
  | settled =>
    unfold Normalization.respond at answered
    simp only [respond, if_pos free, Option.some.injEq, Prod.mk.injEq, true_and] at answered
    rw [← answered]
    refine wp_mono inside fun result later h => ⟨trivial, fun dropped released => ?_⟩
    obtain ⟨choice, -, answered⟩ := released
    cases choice with
    | settled =>
      unfold Normalization.respond at answered
      simp only [respond, if_pos h.1, Option.some.injEq, Prod.mk.injEq, true_and] at answered
      rw [← answered]
      exact h.2
    | _ => cases answered
  | _ => cases answered

/-- A job is committed with its timestamp as it is stored, or a save failed. -/
theorem commitJob_managing {candidate : DownloadJob}
    {Q : Except RepositoryError DownloadJob → World → Prop} (free : world.holder = none)
    (refused : ∀ error, chosen (.stored (.error error)) → Q (.error error) world)
    (saved : ∀ previous, world.rows candidate.id = some previous →
      Q (.ok { candidate with updatedAt := storage.normalize candidate.updatedAt })
        (world.put previous
          { candidate with updatedAt := storage.normalize candidate.updatedAt })) :
    wp (storage.managing chosen) (commitJob candidate) Q world := by
  have unlocked : { { world with holder := some 0 } with holder := none } = world := by
    rw [← free]
  apply withWriteLock_managing free
  rw [wp_saveJobLocked]
  refine ⟨trivial, fun answer t answered => ?_⟩
  obtain ⟨choice, among, answered⟩ := answered
  cases choice with
  | stored result =>
    cases result with
    | error error =>
      cases answered
      refine ⟨fun other same => ?_, fun _ other => (nomatch other)⟩
      cases same
      refine ⟨rfl, ?_⟩
      rw [unlocked]
      exact refused error among
    | ok updatedAt =>
      unfold Normalization.respond at answered
      dsimp only at answered
      split at answered
      · rename_i stamp
        obtain ⟨⟨persisted, later⟩, written, same⟩ := Option.map_eq_some_iff.mp answered
        unfold World.save at written
        split at written
        · cases written
        · rename_i previous found
          cases written
          cases same
          rw [stamp]
          refine ⟨fun _ other => (nomatch other), fun persisted same => ?_⟩
          cases same
          refine ⟨fun unlike => absurd rfl unlike, fun _ => ⟨trivial, fun u inserted => ?_⟩⟩
          obtain ⟨choice, -, inserted⟩ := inserted
          cases choice with
          | settled =>
            cases inserted
            refine ⟨rfl, ?_⟩
            have put := saved previous found
            rw [← unlocked] at put
            exact put
          | _ => cases inserted
      · cases answered
  | _ => cases answered

/-- A start between two of its saves: rows are left alone or interrupted, and those that are
still active wait. -/
structure Recovering (storage : Normalization) (times : OffsetDateTime → Prop)
    (rows : DownloadId → Option DownloadJob) (pending : List DownloadJob) (world : World) :
    Prop where
  free : world.holder = none
  shown : world.jobs = world.rows
  kept : Reconciles storage times rows world.rows
  saved : ∀ save ∈ world.saves, save.previous.state.requiresRecoveryAfterRestart = true ∧
    rows save.saved.id = some save.previous
  waits : ∀ job ∈ pending, world.rows job.id = some job ∧
    job.state.requiresRecoveryAfterRestart = true
  distinct : (pending.map (·.id)).Nodup
  others : ∀ id job, world.rows id = some job →
    job.state.requiresRecoveryAfterRestart = true → job ∈ pending

variable {times : OffsetDateTime → Prop} {rows : DownloadId → Option DownloadJob}
variable {pending : List DownloadJob} {job : DownloadJob}

/-- An active row was not touched yet. -/
theorem Recovering.untouched (recovering : Recovering storage times rows pending world)
    {id : DownloadId} (shown : world.rows id = some job)
    (active : job.state.requiresRecoveryAfterRestart = true) : rows id = some job := by
  cases recovering.kept id with
  | inl same => rw [← same, shown]
  | inr interrupted =>
    obtain ⟨_, row, -, shown', held⟩ := interrupted
    cases shown.symm.trans shown'
    have inactive := held.inactive
    rw [active] at inactive
    cases inactive

theorem Recovering.step {world : World}
    (recovering : Recovering storage times rows (job :: pending) world) (keyed : Keyed rows)
    (normal : Normalized storage rows) {now : OffsetDateTime} (read : times now) :
    Recovering storage times rows pending (world.put job (recovered storage now job)) := by
  obtain ⟨shown, active⟩ := recovering.waits job (.head _)
  have untouched := recovering.untouched shown active
  obtain ⟨alone, distinct⟩ := List.nodup_cons.mp recovering.distinct
  have put {id : DownloadId} (other : id ≠ job.id) :
      (world.put job (recovered storage now job)).rows id = world.rows id :=
    upsert_of_ne _ _ other
  have put_self : (world.put job (recovered storage now job)).rows job.id =
      some (recovered storage now job) := upsert_self _ _ _
  refine ⟨recovering.free, ?_, fun id => ?_, ?_, fun other member => ?_, distinct, ?_⟩
  · rw [World.put, recovering.shown]
  · by_cases same : id = job.id
    · rw [same, put_self]
      exact .inr ⟨job, _, untouched, rfl, interrupts_recovered read active (normal _ _ untouched)⟩
    · rw [put same]
      exact recovering.kept id
  · exact List.forall_mem_cons.mpr ⟨⟨active, untouched⟩, recovering.saved⟩
  · have different : other.id ≠ job.id := fun same =>
      alone (List.mem_map.mpr ⟨other, member, same⟩)
    rw [put different]
    exact recovering.waits other (.tail _ member)
  · intro id found shown' active'
    by_cases same : id = job.id
    · rw [same, put_self] at shown'
      cases shown'
      cases active'
    · rw [put same] at shown'
      have member := recovering.others id found shown' active'
      cases List.mem_cons.mp member with
      | inl first =>
        have key := keyed id found (recovering.untouched shown' active')
        exact absurd (first ▸ key).symm same
      | inr later => exact later

theorem transitionTo_interrupted {at_ : OffsetDateTime}
    (active : job.state.requiresRecoveryAfterRestart = true) :
    job.transitionTo .interrupted at_ = .ok { job with state := .interrupted, updatedAt := at_ } := by
  unfold DownloadJob.transitionTo
  refine if_pos ?_
  cases state : job.state <;> rw [state] at active <;> first | rfl | cases active

/-- How far a start came, and that a save failed where it did not come to its end. -/
theorem recoverJobs_recovers (keyed : Keyed rows) (normal : Normalized storage rows)
    {now : OffsetDateTime} (read : times now)
    (recovering : Recovering storage times rows pending world) :
    wp (storage.managing chosen) (recoverJobs now pending) (fun result after =>
      ∃ left, Recovering storage times rows left after ∧ (result.isOk = true → left = []) ∧
        (result.isOk = false → ∃ error, chosen (.stored (.error error)))) world := by
  induction pending generalizing world with
  | nil => exact ⟨[], recovering, fun _ => rfl, fun failed => (by cases failed)⟩
  | cons job rest ih =>
    obtain ⟨shown, active⟩ := recovering.waits job (.head _)
    unfold recoverJobs recoverJob
    rw [wp_bind]
    rw [wp_bind, wp_orElse, transitionTo_interrupted active]
    refine ⟨fun _ other => (by cases other), fun interrupted same => ?_⟩
    cases same
    rw [andThen_ok, wp_bind]
    apply commitJob_managing recovering.free
    · intro error failed
      exact ⟨_, recovering, fun ok => (by cases ok), fun _ => ⟨error, failed⟩⟩
    · intro previous found
      cases found.symm.trans shown
      exact ih (recovering.step keyed normal read)

end

section

variable {storage : Normalization} {chosen : ServiceChoice → Prop}

theorem wp_managed_storage {α : Type} (p : Program ManagerOp ManagerOp.Answer α)
    (Q : α → ServedWorld → Prop) (served : ServedWorld)
    (h : Program.wp (storage.managing fun choice => chosen (.managed choice)) p
      (fun value world => Q value { served with world := world }) served.world) :
    Program.wp (storage.serving chosen) (managed p) Q served := by
  induction p generalizing served with
  | done value => exact h
  | step op next ih =>
    refine ⟨trivial, fun answer later answered => ?_⟩
    obtain ⟨choice, among, answered⟩ := answered
    cases choice with
    | managed choice =>
      obtain ⟨⟨given, world⟩, responded, same⟩ := Option.map_eq_some_iff.mp answered
      cases same
      exact ih given { served with world := world } (h.2 given world ⟨choice, among, responded⟩)
    | _ => cases answered

theorem wp_manage_storage {ε α : Type} {p : Managed ε α} {Q : Except ε α → ServedWorld → Prop}
    {served : ServedWorld}
    (h : wp (storage.managing fun choice => chosen (.managed choice)) p
      (fun result world => Q result { served with world := world }) served.world) :
    wp (storage.serving chosen) (manage p) Q served :=
  wp_managed_storage p.run Q served h

/-- What a start leaves of a repository, whatever became of it. -/
structure Started (storage : Normalization) (chosen : ServiceChoice → Prop) (before : Service)
    (result : Except OperationError (Option DownloadEvent)) (served : ServedWorld) : Prop where
  ids : served.ids = before.ids
  kept : Reconciles storage (fun now => chosen (.managed (.clock now))) before.rows served.world.rows
  saved : ∀ save ∈ served.world.saves, save.previous.state.requiresRecoveryAfterRestart = true ∧
    before.rows save.saved.id = some save.previous
  done : result.isOk = true → served.world.jobs = served.world.rows ∧ NoneActive served.world.rows
  failed : result.isOk = false → ¬ before.ids.Nodup ∨ (∃ error, chosen (.listed (some error))) ∨
    ∃ error, chosen (.managed (.stored (.error error)))

variable {before : Service}

theorem started_failed {error : OperationError}
    (failed : ¬ before.ids.Nodup ∨ (∃ error, chosen (.listed (some error))) ∨
      ∃ error, chosen (.managed (.stored (.error error)))) :
    Started storage chosen before (.error error) before.begin where
  ids := rfl
  kept := Reconciles.refl _
  saved _ member := absurd member List.not_mem_nil
  done ok := nomatch ok
  failed _ := failed

theorem keys_of_listed {rows : DownloadId → Option DownloadJob} (keyed : Keyed rows)
    {ids : List DownloadId} (listed : ∀ id ∈ ids, rows id ≠ none) :
    (ids.filterMap rows).map (·.id) = ids := by
  induction ids with
  | nil => rfl
  | cons id ids ih =>
    obtain ⟨job, found⟩ := Option.ne_none_iff_exists'.mp (listed id (.head _))
    rw [List.filterMap_cons_some found, List.map_cons, keyed id job found,
      ih fun other member => listed other (.tail _ member)]

/-- What was loaded waits to be recovered. -/
theorem recovering_listed {times : OffsetDateTime → Prop} (sound : before.Sound)
    (distinct : ((before.ids.filterMap before.rows).map (·.id)).Nodup) :
    Recovering storage times before.rows (interruptedJobs (before.ids.filterMap before.rows))
      { before.begin.world with
        jobs := fun id => (before.ids.filterMap before.rows).find? (·.id = id) } := by
  have member_iff {job : DownloadJob} :
      job ∈ interruptedJobs (before.ids.filterMap before.rows) ↔
        job ∈ before.ids.filterMap before.rows ∧
          job.state.requiresRecoveryAfterRestart = true := by
    unfold interruptedJobs
    rw [List.mem_insertionSort, List.mem_filter]
  refine ⟨rfl, funext (find?_listed sound.keyed sound.listed), Reconciles.refl _,
    fun _ member => absurd member List.not_mem_nil, fun job member => ?_, ?_, ?_⟩
  · obtain ⟨loaded, active⟩ := member_iff.mp member
    obtain ⟨id, -, found⟩ := List.mem_filterMap.mp loaded
    rw [sound.keyed id job found]
    exact ⟨found, active⟩
  · unfold interruptedJobs
    have sorted := (List.perm_insertionSort (fun a b : DownloadJob => a.id.value ≤ b.id.value)
      ((before.ids.filterMap before.rows).filter
        fun job => job.state.requiresRecoveryAfterRestart)).map (·.id)
    rw [sorted.nodup_iff]
    exact distinct.sublist (List.filter_sublist.map _)
  · intro id job found active
    refine member_iff.mpr ⟨List.mem_filterMap.mpr ⟨id, ?_, found⟩, active⟩
    by_contra absent
    change before.rows id = some job at found
    rw [(sound.listed id).mpr absent] at found
    cases found

theorem start_started (sound : before.Sound) (normal : Normalized storage before.rows) :
    Program.wp (storage.serving chosen) Operation.start.program.run
      (Started storage chosen before) before.begin := by
  change wp (storage.serving chosen) (Operation.program .start) _ _
  unfold Operation.program Core.start
  rw [Fallible.wp_adapt, wp_bind, wp_bind]
  refine ⟨trivial, fun answer later answered => ?_⟩
  obtain ⟨choice, among, answered⟩ := answered
  cases choice with
  | listed failure =>
    cases failure with
    | some error =>
      cases answered
      exact started_failed (.inr (.inl ⟨error, among⟩))
    | none =>
      cases answered
      change andThen _ _ (.ok _) _
      rw [andThen_ok]
      split
      · rename_i repeated
        have keys := keys_of_listed sound.keyed fun id member none_ =>
          (sound.listed id).mp none_ member
        exact started_failed (.inl fun distinct => repeated ((congrArg List.Nodup keys).mpr distinct))
      rename_i distinct
      rw [wp_bind]
      refine ⟨trivial, fun _ exposed_ exposed => ?_⟩
      obtain ⟨choice, -, exposed⟩ := exposed
      cases choice <;> cases exposed
      apply wp_manage_storage
      rw [wp_bind, wp_perform]
      refine ⟨trivial, fun now after read => ?_⟩
      rw [andThen_ok]
      obtain ⟨choice, among, read⟩ := read
      cases choice with
      | clock time =>
        cases read
        have recovering := @recovering_listed storage before
          (fun now => chosen (.managed (.clock now))) sound (not_not.mp distinct)
        refine wp_mono (recoverJobs_recovers sound.keyed normal among recovering)
          fun result world reached => ?_
        obtain ⟨left, held, done, failed⟩ := reached
        cases result with
        | error error =>
          exact ⟨rfl, held.kept, held.saved, fun ok => (nomatch ok),
            fun _ => .inr (.inr (failed rfl))⟩
        | ok _ =>
          refine ⟨rfl, held.kept, held.saved, fun _ => ⟨held.shown, fun id job found => ?_⟩,
            fun failed => (nomatch failed)⟩
          refine Bool.eq_false_iff.mpr fun active => ?_
          have waits := held.others id job found active
          rw [done rfl] at waits
          cases waits
      | _ => cases read
  | _ => cases answered

end

/-! ## Any number of starts -/

section

variable {storage : Normalization} {service after : Service} {choices : List ServiceChoice}
  {outcome : Outcome}

/-- A time the clock answered in one of the starts. -/
def Reads (history : List (List ServiceChoice)) (now : OffsetDateTime) : Prop :=
  ∃ choices ∈ history, .managed (.clock now) ∈ choices

/-- One of the answers is a failure of the repository. -/
def Fails (choices : List ServiceChoice) : Prop :=
  (∃ error, .listed (some error) ∈ choices) ∨ ∃ error, .managed (.stored (.error error)) ∈ choices

/-- What one start leaves. -/
structure Service.Recovered (storage : Normalization) (choices : List ServiceChoice)
    (service : Service) (outcome : Outcome) (after : Service) : Prop where
  ids : after.ids = service.ids
  running : after.running = outcome.result.isOk
  kept : Reconciles storage (Reads [choices]) service.rows after.rows
  saved : ∀ save ∈ outcome.saves, save.previous.state.requiresRecoveryAfterRestart = true ∧
    service.rows save.saved.id = some save.previous
  done : outcome.result.isOk = true → after.jobs = after.rows ∧ NoneActive after.rows
  failed : outcome.result.isOk = false → ¬ service.ids.Nodup ∨ Fails choices

theorem Reconciles.mono {times later : OffsetDateTime → Prop}
    {before after : DownloadId → Option DownloadJob} (h : Reconciles storage times before after)
    (more : ∀ now, times now → later now) : Reconciles storage later before after := by
  intro id
  cases h id with
  | inl same => exact .inl same
  | inr interrupted =>
    obtain ⟨job, row, found, shown, held⟩ := interrupted
    obtain ⟨now, read, same⟩ := held.row
    exact .inr ⟨job, row, found, shown, held.active, ⟨now, more now read, same⟩, held.later⟩

theorem start_recovered (sound : service.Sound) (normal : Normalized storage service.rows)
    (started : storage.start choices service = some (outcome, after)) :
    service.Recovered storage choices outcome after := by
  obtain ⟨⟨result, served⟩, finished, same⟩ := Option.map_eq_some_iff.mp started
  cases same
  have run := Program.steps_of_choices (S := storage.serving fun choice => choice ∈ choices)
    (E := storage.serve) (fun choice member op s answer t answered => ⟨choice, member, answered⟩)
    finished
  have held : Started storage (fun choice => choice ∈ choices) service result served :=
    Program.post_of_wp run (start_started sound normal)
  exact ⟨held.ids, rfl, held.kept.mono fun now read => ⟨choices, .head _, read⟩, held.saved,
    held.done, held.failed⟩

theorem Service.Recovered.sound (recovered : service.Recovered storage choices outcome after)
    (sound : service.Sound) : after.Sound where
  keyed := recovered.kept.keyed sound.keyed
  listed id := by
    rw [recovered.kept.none_iff id, recovered.ids]
    exact sound.listed id
  mirrored running := (recovered.done (recovered.running ▸ running)).1

/-- Starts, whatever becomes of them, recover the rows bit by bit. -/
theorem starts_recover {history : List (List ServiceChoice)} (sound : service.Sound)
    (normal : Normalized storage service.rows)
    (started : storage.starts history service = some after) :
    after.Sound ∧ Normalized storage after.rows ∧
      Reconciles storage (Reads history) service.rows after.rows := by
  induction history generalizing service with
  | nil =>
    cases started
    exact ⟨sound, normal, Reconciles.refl _⟩
  | cons choices later ih =>
    obtain ⟨⟨outcome, next⟩, first, continued⟩ := Option.bind_eq_some_iff.mp started
    have recovered := start_recovered sound normal first
    obtain ⟨sound', normal', kept⟩ := ih (recovered.sound sound)
      (recovered.kept.normalized normal) continued
    refine ⟨sound', normal', (recovered.kept.trans kept).mono fun now read => ?_⟩
    cases read with
    | inl read =>
      obtain ⟨other, member, read⟩ := read
      exact ⟨choices, .head _, List.mem_singleton.mp member ▸ read⟩
    | inr read =>
      obtain ⟨other, member, read⟩ := read
      exact ⟨other, .tail _ member, read⟩

end

/-- However many starts came before it and whatever became of them, a start interrupts active rows
only and saves no other. One that fails leaves no manager, and something failed in it. One that
succeeds leaves a manager in which exactly the rows that were active at first are interrupted;
starting again then saves nothing, and a start that succeeds at once comes to the same rows but for
the times, and to the very same at the same time. -/
theorem start_recovers (storage : Normalization) {service middle after : Service}
    {outcome : Outcome} (sound : service.Sound) (normal : Normalized storage service.rows)
    (earlier : List (List ServiceChoice)) (tried : storage.starts earlier service = some middle)
    (choices : List ServiceChoice)
    (started : storage.start choices middle = some (outcome, after)) :
    Reconciles storage (Reads (earlier ++ [choices])) service.rows after.rows ∧
    (∀ save ∈ outcome.saves, save.previous.state.requiresRecoveryAfterRestart = true ∧
      middle.rows save.saved.id = some save.previous) ∧
    (outcome.result.isOk = false →
      after.running = false ∧ (¬ middle.ids.Nodup ∨ Fails choices)) ∧
    (outcome.result.isOk = true →
      after.running = true ∧ after.jobs = after.rows ∧
      (∀ id, service.rows id = none → after.rows id = none) ∧
      (∀ id job, service.rows id = some job →
        (job.state.requiresRecoveryAfterRestart = false → after.rows id = some job) ∧
        (job.state.requiresRecoveryAfterRestart = true → ∃ row, after.rows id = some row ∧
          Interrupts storage (Reads (earlier ++ [choices])) job row)) ∧
      (∀ (again : List ServiceChoice) (outcome' : Outcome) (after' : Service),
        storage.start again after = some (outcome', after') →
        outcome'.saves = [] ∧ after'.rows = after.rows) ∧
      ∀ (once : List ServiceChoice) (outcome' : Outcome) (after' : Service),
        storage.start once service = some (outcome', after') → outcome'.result.isOk = true →
        ∀ id, (after.rows id).map (fun job => { job with updatedAt := 0 }) =
            (after'.rows id).map (fun job => { job with updatedAt := 0 }) ∧
          ∀ now, (∀ read, Reads (earlier ++ [choices]) read → read = now) →
            (∀ read, Reads [once] read → read = now) → after.rows id = after'.rows id) := by
  obtain ⟨sound', normal', kept⟩ := starts_recover sound normal tried
  have last := start_recovered sound' normal' started
  have all : Reconciles storage (Reads (earlier ++ [choices])) service.rows after.rows := by
    refine (kept.trans last.kept).mono fun now read => ?_
    cases read with
    | inl read =>
      obtain ⟨other, member, read⟩ := read
      exact ⟨other, List.mem_append_left _ member, read⟩
    | inr read =>
      obtain ⟨other, member, read⟩ := read
      exact ⟨other, List.mem_append_right _ member, read⟩
  refine ⟨all, last.saved, fun failed => ⟨last.running.trans failed, last.failed failed⟩,
    fun ok => ?_⟩
  obtain ⟨shown, none_⟩ := last.done ok
  refine ⟨last.running.trans ok, shown, fun id => (all.none_iff id).mpr,
    fun id job found => all.exactly none_ found, ?_, ?_⟩
  · intro again outcome' after' restarted
    have recovered := start_recovered (last.sound sound') (last.kept.normalized normal') restarted
    refine ⟨List.eq_nil_iff_forall_not_mem.mpr fun save member => ?_, recovered.kept.eq none_⟩
    obtain ⟨active, found⟩ := recovered.saved save member
    rw [none_ _ _ found] at active
    cases active
  · intro once outcome' after' direct ok'
    have recovered := start_recovered sound normal direct
    exact fun id => all.unique none_ recovered.kept (recovered.done ok').2 id

/-! ## A start that fails at first -/

def stranded (number : Nat) (state : DownloadState) : DownloadJob :=
  { strandedJob with id := ⟨number + 1, by omega⟩, state := state, updatedAt := 7000000 }

def busy : RepositoryError := ⟨.unavailable, "database is locked"⟩

/-- The second save of the first start fails. -/
def brokenStart : List ServiceChoice :=
  [.listed none, .settled, .managed (.clock 5), .managed .settled,
    .managed (.stored (.ok 7000000)), .managed .settled, .managed .settled, .managed .settled,
    .managed (.stored (.error busy)), .managed .settled]

def secondStart : List ServiceChoice :=
  [.listed none, .settled, .managed (.clock 9000001), .managed .settled,
    .managed (.stored (.ok 9000000)), .managed .settled, .managed .settled]

theorem start_recovers_broken : ∃ middle outcome after,
    milliseconds.starts [brokenStart]
      (Service.stored [stranded 0 .downloading, stranded 1 .paused, stranded 2 .finalizing]) =
        some middle ∧
    milliseconds.start secondStart middle = some (outcome, after) ∧
    middle.running = false ∧ after.running = true ∧ after.jobs = after.rows := by
  have normal : Normalized milliseconds
      (Service.stored [stranded 0 .downloading, stranded 1 .paused, stranded 2 .finalizing]).rows := by
    intro id job found
    have member := List.mem_of_find?_eq_some found
    simp only [List.mem_cons, List.not_mem_nil, or_false] at member
    obtain rfl | rfl | rfl := member <;> decide
  have recovered := @start_recovers milliseconds _ _ _ _ (stored_sound _) normal [brokenStart] rfl
    secondStart rfl
  obtain ⟨running, shown, -⟩ := recovered.2.2.2 rfl
  exact ⟨_, _, _, rfl, rfl, rfl, running, shown⟩

end Gunda.Core
