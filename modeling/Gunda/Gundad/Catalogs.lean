import Gunda.Gundad.Duplicates

/-!
# Runs of the catalog

What every sequence of reports, removals and clears keeps of the catalog, and what a report
does in each state. The identifier of the next candidate saturates, so identifiers are
unique up to the candidate that takes the largest one.
-/
namespace Gunda.Gundad

open Gunda.Lib Gunda.Lib.Text

variable {urls : UrlCrate}

inductive CatalogOp (urls : UrlCrate) where
  | record (report : Report urls)
  | remove (id : CandidateId)
  | clear

/-- A catalog and the identifiers it has given out, newest first. -/
structure CatalogLog (urls : UrlCrate) where
  catalog : Catalog urls
  issued : List CandidateId

namespace CatalogLog

def step (log : CatalogLog urls) : CatalogOp urls → CatalogLog urls
  | .record report =>
      let (catalog, recorded) := log.catalog.record report
      ⟨catalog, if recorded.duplicate then log.issued else recorded.id :: log.issued⟩
  | .remove id => { log with catalog := log.catalog.remove id }
  | .clear => { log with catalog := log.catalog.clear }

def run (urls : UrlCrate) (capacity : Nat) (ops : List (CatalogOp urls)) : CatalogLog urls :=
  ops.foldl step ⟨Catalog.new urls capacity, []⟩

end CatalogLog

/-- Newest first, without a URL twice, and never more than the capacity. -/
structure Catalog.Ordered (catalog : Catalog urls) : Prop where
  distinct : (catalog.candidates.map (·.url)).Nodup
  descending : (catalog.candidates.map (·.id)).Pairwise (· > ·)
  bounded : catalog.candidates.length ≤ catalog.capacity

/-- No identifier was given out twice, and the candidates have theirs from the catalog. -/
structure CatalogLog.Kept (log : CatalogLog urls) : Prop where
  ordered : log.catalog.Ordered
  fresh : log.issued.Pairwise (· > ·)
  known : ∀ candidate ∈ log.catalog.candidates, candidate.id ∈ log.issued

/-- A report of a known URL changes that candidate where it is, and nothing else. -/
def Catalog.Repeats (catalog : Catalog urls) (report : Report urls) : Prop :=
  ∃ before existing behind, catalog.candidates = before ++ existing :: behind ∧
    existing.url = report.url ∧ (catalog.record report).2 = ⟨existing.id, true⟩ ∧
    (catalog.record report).1.candidates = before ++ existing.reported report :: behind

/-- A report of a new URL comes first; of a full catalog the smallest identifier goes. -/
def Catalog.Adds (catalog : Catalog urls) (report : Report urls) : Prop :=
  (∀ candidate ∈ catalog.candidates, candidate.url ≠ report.url) ∧
    (catalog.record report).2 = ⟨catalog.nextId, false⟩ ∧
    if catalog.candidates.length < catalog.capacity then
      (catalog.record report).1.candidates =
        report.candidate catalog.nextId :: catalog.candidates
    else ∃ kept oldest, catalog.candidates = kept ++ [oldest] ∧
      (catalog.record report).1.candidates = report.candidate catalog.nextId :: kept ∧
      ∀ candidate ∈ kept, oldest.id < candidate.id

/-- What a report does: its identifier names a candidate of its URL. -/
structure Catalog.Records (catalog : Catalog urls) (report : Report urls) : Prop where
  present : ∃ candidate, (catalog.record report).1.get (catalog.record report).2.id =
    some candidate ∧ candidate.url = report.url
  outcome : catalog.Repeats report ∨ catalog.Adds report

/-! ## One report -/

section

variable {report : Report urls} {candidates updated : List (Candidate urls)} {id : CandidateId}
  {catalog : Catalog urls}

theorem updateFirst_some (h : Catalog.updateFirst report candidates = some (id, updated)) :
    ∃ before existing behind, candidates = before ++ existing :: behind ∧
      existing.url = report.url ∧ existing.id = id ∧
      updated = before ++ existing.reported report :: behind := by
  induction candidates generalizing updated with
  | nil => cases h
  | cons candidate rest ih =>
    unfold Catalog.updateFirst at h
    split at h
    · rename_i same
      cases h
      exact ⟨[], candidate, rest, rfl, same, rfl, rfl⟩
    · obtain ⟨⟨other, later⟩, found, same⟩ := Option.map_eq_some_iff.mp h
      cases same
      obtain ⟨before, existing, behind, split, url, named, after⟩ := ih found
      refine ⟨candidate :: before, existing, behind, ?_, url, named, ?_⟩
      · rw [split]
        rfl
      · rw [after]
        rfl

theorem updateFirst_none (h : Catalog.updateFirst report candidates = none) :
    ∀ candidate ∈ candidates, candidate.url ≠ report.url := by
  induction candidates with
  | nil => exact fun _ member => nomatch member
  | cons candidate rest ih =>
    unfold Catalog.updateFirst at h
    split at h
    · cases h
    · rename_i other
      exact List.forall_mem_cons.mpr ⟨other, ih (Option.map_eq_none_iff.mp h)⟩

@[simp] theorem Candidate.reported_id (candidate : Candidate urls) (report : Report urls) :
    (candidate.reported report).id = candidate.id := rfl

theorem get_of_ordered (ordered : catalog.Ordered) {candidate : Candidate urls}
    (member : candidate ∈ catalog.candidates) : catalog.get candidate.id = some candidate := by
  unfold Catalog.get
  have descending := ordered.descending
  generalize catalog.candidates = candidates at member descending
  induction candidates with
  | nil => cases member
  | cons first rest ih =>
    rw [List.map_cons, List.pairwise_cons] at descending
    rcases List.mem_cons.mp member with same | later
    · rw [same, List.find?_cons_of_pos (by simp)]
    · have smaller := descending.1 candidate.id (List.mem_map_of_mem later)
      rw [List.find?_cons_of_neg (by simpa using Nat.ne_of_gt smaller)]
      exact ih later descending.2

theorem record_fields (catalog : Catalog urls) (report : Report urls) :
    (catalog.record report).1.capacity = catalog.capacity ∧
      (catalog.record report).1.nextId = if (catalog.record report).2.duplicate then catalog.nextId
        else Stream.saturatingAdd catalog.nextId 1 := by
  unfold Catalog.record
  split <;> exact ⟨rfl, rfl⟩

/-- The two outcomes of a report. -/
theorem record_outcome (ordered : catalog.Ordered) (room : 0 < catalog.capacity)
    (report : Report urls) : catalog.Repeats report ∨ catalog.Adds report := by
  unfold Catalog.Repeats Catalog.Adds Catalog.record
  cases found : Catalog.updateFirst report catalog.candidates with
  | some result =>
    obtain ⟨before, existing, behind, split, url, named, after⟩ := updateFirst_some found
    refine Or.inl ⟨before, existing, behind, split, url, ?_, after⟩
    rw [named]
  | none =>
    refine Or.inr ⟨updateFirst_none found, rfl, ?_⟩
    split
    · rename_i space
      exact List.take_of_length_le space
    · rename_i full
      have sized : catalog.candidates.length = catalog.capacity :=
        Nat.le_antisymm ordered.bounded (Nat.le_of_not_lt full)
      rcases List.eq_nil_or_concat catalog.candidates with none_ | ⟨kept, oldest, split⟩
      · rw [none_, List.length_nil] at sized
        omega
      · rw [List.concat_eq_append] at split
        refine ⟨kept, oldest, split, ?_, ?_⟩
        · dsimp only
          rw [← sized, split, List.length_append, List.length_singleton, List.take_succ_cons,
            List.take_left]
        · have descending := ordered.descending
          rw [split, List.map_append, List.pairwise_append] at descending
          intro candidate member
          exact descending.2.2 candidate.id (List.mem_map_of_mem member) _ List.mem_cons_self

theorem record_records (ordered : catalog.Ordered) (room : 0 < catalog.capacity)
    (later : (catalog.record report).1.Ordered) : catalog.Records report := by
  have outcome := record_outcome ordered room report
  refine ⟨?_, outcome⟩
  rcases outcome with ⟨before, existing, behind, _, url, recorded, after⟩ | ⟨_, recorded, after⟩
  · refine ⟨existing.reported report, ?_, url⟩
    rw [recorded, ← existing.reported_id report]
    apply get_of_ordered later
    rw [after]
    exact List.mem_append_right _ List.mem_cons_self
  · refine ⟨report.candidate catalog.nextId, ?_, rfl⟩
    rw [recorded]
    change (catalog.record report).1.get (report.candidate catalog.nextId).id = _
    apply get_of_ordered later
    split at after
    · rw [after]
      exact List.mem_cons_self
    · obtain ⟨kept, oldest, _, after, _⟩ := after
      rw [after]
      exact List.mem_cons_self

end

/-! ## Every sequence -/

namespace CatalogLog

/-- The identifiers given out are the numbers below how many there are. -/
structure Counted (log : CatalogLog urls) : Prop where
  ordered : log.catalog.Ordered
  room : 0 < log.catalog.capacity
  issued : log.issued = (List.range log.issued.length).reverse
  next : log.catalog.nextId = min log.issued.length Stream.maxU64
  below : ∀ candidate ∈ log.catalog.candidates, candidate.id < log.issued.length

variable {log : CatalogLog urls} {report : Report urls} {ops : List (CatalogOp urls)}

theorem issued_le_step (log : CatalogLog urls) (op : CatalogOp urls) :
    log.issued.length ≤ (log.step op).issued.length := by
  cases op with
  | record report =>
    unfold step
    dsimp only
    split
    · exact Nat.le_refl _
    · exact Nat.le_succ _
  | _ => exact Nat.le_refl _

theorem issued_le_foldl (log : CatalogLog urls) (ops : List (CatalogOp urls)) :
    log.issued.length ≤ (ops.foldl step log).issued.length := by
  induction ops generalizing log with
  | nil => exact Nat.le_refl _
  | cons op ops ih => exact Nat.le_trans (issued_le_step log op) (ih (log.step op))

/-- Fewer candidates in their order. -/
theorem Counted.fewer {candidates : List (Candidate urls)} (counted : log.Counted)
    (sub : candidates.Sublist log.catalog.candidates) :
    Counted { log with catalog := { log.catalog with candidates := candidates } } where
  ordered :=
    { distinct := counted.ordered.distinct.sublist (sub.map _)
      descending := counted.ordered.descending.sublist (sub.map _)
      bounded := Nat.le_trans sub.length_le counted.ordered.bounded }
  room := counted.room
  issued := counted.issued
  next := counted.next
  below candidate member := counted.below candidate (sub.mem member)

theorem step_duplicate (recorded : (log.catalog.record report).2.duplicate = true) :
    log.step (.record report) = ⟨(log.catalog.record report).1, log.issued⟩ := by
  unfold step
  dsimp only
  rw [if_pos recorded]

theorem step_fresh (recorded : (log.catalog.record report).2.duplicate = false) :
    log.step (.record report) =
      ⟨(log.catalog.record report).1, (log.catalog.record report).2.id :: log.issued⟩ := by
  unfold step
  dsimp only
  rw [if_neg (by rw [recorded]; exact Bool.false_ne_true)]

/-- The candidates of a repeated report have the URLs and identifiers they had. -/
theorem repeated_keys {before behind : List (Candidate urls)} {existing : Candidate urls}
    {α : Type} (key : Candidate urls → α) (same : key (existing.reported report) = key existing) :
    (before ++ existing.reported report :: behind).map key =
      (before ++ existing :: behind).map key := by
  simp [same]

section

variable (counted : log.Counted)
include counted

theorem Counted.repeated (repeats : log.catalog.Repeats report) :
    (log.step (.record report)).Counted := by
  obtain ⟨before, existing, behind, split, _, recorded, after⟩ := repeats
  have duplicate : (log.catalog.record report).2.duplicate = true := by rw [recorded]
  obtain ⟨capacity, next⟩ := record_fields log.catalog report
  rw [if_pos duplicate] at next
  have urls_ : (log.catalog.record report).1.candidates.map (·.url) =
      log.catalog.candidates.map (·.url) := by
    rw [after, split]
    exact repeated_keys _ rfl
  have ids : (log.catalog.record report).1.candidates.map (·.id) =
      log.catalog.candidates.map (·.id) := by
    rw [after, split]
    exact repeated_keys _ rfl
  rw [step_duplicate duplicate]
  refine ⟨⟨?_, ?_, ?_⟩, ?_, counted.issued, next.trans counted.next, ?_⟩
  · rw [urls_]
    exact counted.ordered.distinct
  · rw [ids]
    exact counted.ordered.descending
  · have lengths := congrArg List.length ids
    rw [List.length_map, List.length_map] at lengths
    rw [lengths, capacity]
    exact counted.ordered.bounded
  · rw [capacity]
    exact counted.room
  · intro candidate member
    have known : candidate.id ∈ log.catalog.candidates.map (·.id) := by
      rw [← ids]
      exact List.mem_map_of_mem member
    obtain ⟨old, inside, same⟩ := List.mem_map.mp known
    rw [← same]
    exact counted.below old inside

theorem Counted.added (adds : log.catalog.Adds report)
    (few : log.issued.length < 2 ^ 64) : (log.step (.record report)).Counted := by
  obtain ⟨other, recorded, after⟩ := adds
  have fresh : (log.catalog.record report).2.duplicate = false := by rw [recorded]
  obtain ⟨capacity, next⟩ := record_fields log.catalog report
  rw [if_neg (by rw [fresh]; exact Bool.false_ne_true)] at next
  have number : log.catalog.nextId = log.issued.length := by
    rw [counted.next]
    apply Nat.min_eq_left
    unfold Stream.maxU64
    omega
  obtain ⟨kept, sub, shape, sized⟩ : ∃ kept, kept.Sublist log.catalog.candidates ∧
      (log.catalog.record report).1.candidates = report.candidate log.catalog.nextId :: kept ∧
      kept.length < log.catalog.capacity := by
    split at after
    · rename_i space
      exact ⟨_, List.Sublist.refl _, after, space⟩
    · obtain ⟨kept, oldest, split, after, _⟩ := after
      have bounded := counted.ordered.bounded
      rw [split, List.length_append, List.length_singleton] at bounded
      refine ⟨kept, ?_, after, bounded⟩
      rw [split]
      exact List.sublist_append_left _ _
  have below : ∀ candidate ∈ kept, candidate.id < log.issued.length := fun candidate member =>
    counted.below candidate (sub.mem member)
  rw [step_fresh fresh, recorded]
  refine ⟨⟨?_, ?_, ?_⟩, ?_, ?_, ?_, ?_⟩
  · rw [shape, List.map_cons, List.nodup_cons]
    refine ⟨?_, counted.ordered.distinct.sublist (sub.map _)⟩
    intro member
    obtain ⟨old, inside, same⟩ := List.mem_map.mp member
    exact other old (sub.mem inside) same
  · rw [shape, List.map_cons, List.pairwise_cons]
    refine ⟨?_, counted.ordered.descending.sublist (sub.map _)⟩
    intro id member
    obtain ⟨old, inside, same⟩ := List.mem_map.mp member
    have smaller := below old inside
    change id < log.catalog.nextId
    rw [number, ← same]
    exact smaller
  · rw [shape, capacity]
    exact sized
  · rw [capacity]
    exact counted.room
  · dsimp only
    rw [number, List.length_cons, List.range_succ, List.reverse_append, ← counted.issued]
    rfl
  · dsimp only
    rw [next, number, List.length_cons]
    unfold Stream.saturatingAdd
    rfl
  · intro candidate member
    rw [shape] at member
    rw [List.length_cons]
    rcases List.mem_cons.mp member with same | later
    · rw [same]
      change log.catalog.nextId < _
      rw [number]
      exact Nat.lt_succ_self _
    · exact Nat.lt_succ_of_lt (below candidate later)

theorem Counted.step (op : CatalogOp urls)
    (few : (log.step op).issued.length ≤ 2 ^ 64) : (log.step op).Counted := by
  cases op with
  | record report =>
    rcases record_outcome counted.ordered counted.room report with repeats | adds
    · exact counted.repeated repeats
    · apply counted.added adds
      have fresh : (log.catalog.record report).2.duplicate = false := by rw [adds.2.1]
      rw [step_fresh fresh, List.length_cons] at few
      exact few
  | remove id => exact counted.fewer List.filter_sublist
  | clear => exact counted.fewer (List.nil_sublist _)

omit counted in
theorem counted_start (capacity : Nat) :
    Counted ⟨Catalog.new urls capacity, []⟩ where
  ordered := ⟨List.nodup_nil, List.Pairwise.nil, Nat.zero_le _⟩
  room := Nat.le_max_right capacity 1
  issued := rfl
  next := rfl
  below _ member := nomatch member

theorem counted_foldl
    (few : (ops.foldl step log).issued.length ≤ 2 ^ 64) : (ops.foldl step log).Counted := by
  induction ops generalizing log with
  | nil => exact counted
  | cons op ops ih =>
    have fewer := Nat.le_trans (issued_le_foldl (log.step op) ops) few
    exact ih (counted.step op fewer) few

theorem Counted.kept : log.Kept where
  ordered := counted.ordered
  fresh := by
    rw [counted.issued, List.pairwise_reverse]
    exact List.pairwise_lt_range
  known candidate member := by
    rw [counted.issued, List.mem_reverse, List.mem_range]
    exact counted.below candidate member

end

end CatalogLog

theorem capacity_foldl (log : CatalogLog urls) (ops : List (CatalogOp urls)) :
    (ops.foldl CatalogLog.step log).catalog.capacity = log.catalog.capacity := by
  induction ops generalizing log with
  | nil => rfl
  | cons op ops ih =>
    rw [List.foldl_cons, ih]
    cases op with
    | record report => exact (record_fields log.catalog report).1
    | _ => rfl

/-- As long as the identifiers last, every sequence keeps the catalog, and each of its reports
is recorded as it should be. -/
theorem catalog_kept {capacity : Nat} {ops : List (CatalogOp urls)}
    (few : (CatalogLog.run urls capacity ops).issued.length ≤ 2 ^ 64) :
    (CatalogLog.run urls capacity ops).Kept ∧
      (CatalogLog.run urls capacity ops).catalog.capacity = max capacity 1 ∧
      ∀ before report after, ops = before ++ .record report :: after →
        (CatalogLog.run urls capacity before).catalog.Records report := by
  have start : CatalogLog.Counted (⟨Catalog.new urls capacity, []⟩ : CatalogLog urls) :=
    CatalogLog.counted_start capacity
  refine ⟨(CatalogLog.counted_foldl start few).kept, capacity_foldl _ ops, ?_⟩
  intro before report after split
  have whole : CatalogLog.run urls capacity ops =
      after.foldl CatalogLog.step ((CatalogLog.run urls capacity before).step (.record report)) := by
    rw [split]
    unfold CatalogLog.run
    rw [List.foldl_append, List.foldl_cons]
  rw [whole] at few
  have fewer := Nat.le_trans (CatalogLog.issued_le_foldl _ after) few
  have least := Nat.le_trans (CatalogLog.issued_le_step _ _) fewer
  have here : (CatalogLog.run urls capacity before).Counted :=
    CatalogLog.counted_foldl start least
  have later := (here.step (.record report) fewer).ordered
  have same : ((CatalogLog.run urls capacity before).step (.record report)).catalog =
      ((CatalogLog.run urls capacity before).catalog.record report).1 := rfl
  rw [same] at later
  exact record_records here.ordered here.room later

/-- Another URL of the same page. -/
def lowReport : Report cdnCrate :=
  { masterReport with url := ⟨⟨"https://cdn.example/low.m3u8".toList⟩, by decide⟩ }

theorem two_reports_kept :
    (CatalogLog.run cdnCrate 1 [.record masterReport, .record lowReport]).Kept ∧
      (CatalogLog.run cdnCrate 1 [.record masterReport]).catalog.Records lowReport := by
  obtain ⟨kept, _, records⟩ := @catalog_kept cdnCrate 1 [.record masterReport, .record lowReport]
    (by decide +kernel)
  exact ⟨kept, records [.record masterReport] lowReport [] rfl⟩

/-- Reports of one URL, each followed by a clear. -/
def rounds : Nat → List (CatalogOp cdnCrate)
  | 0 => []
  | count + 1 => rounds count ++ [.record masterReport, .clear]

theorem rounds_catalog (capacity count : Nat) :
    (CatalogLog.run cdnCrate capacity (rounds count)).catalog =
      ⟨[], min count Stream.maxU64, max capacity 1⟩ := by
  induction count with
  | zero => rfl
  | succ count ih =>
    have round : ∀ log : CatalogLog cdnCrate, log.catalog.candidates = [] →
        ((log.step (.record masterReport)).step .clear).catalog =
          ⟨[], Stream.saturatingAdd log.catalog.nextId 1, log.catalog.capacity⟩ := by
      intro log none_
      unfold CatalogLog.step Catalog.record
      rw [none_]
      rfl
    unfold CatalogLog.run at ih ⊢
    rw [rounds, List.foldl_append, List.foldl_cons, List.foldl_cons, List.foldl_nil,
      round _ (by rw [ih]), ih]
    have saturated : min (min count Stream.maxU64 + 1) Stream.maxU64 =
        min (count + 1) Stream.maxU64 := by omega
    exact congrArg (Catalog.mk [] · (max capacity 1)) saturated

/-- The last two of `2 ^ 64 + 1` candidates have the same identifier. -/
theorem saturated_identifiers_repeat :
    (CatalogLog.run cdnCrate 2 (rounds (2 ^ 64 - 1) ++
        [.record masterReport, .record lowReport])).catalog.candidates.map (·.id) =
      [2 ^ 64 - 1, 2 ^ 64 - 1] ∧
    ¬ (CatalogLog.run cdnCrate 2 (rounds (2 ^ 64 - 1) ++
        [.record masterReport, .record lowReport])).Kept := by
  have ids : (CatalogLog.run cdnCrate 2 (rounds (2 ^ 64 - 1) ++
      [.record masterReport, .record lowReport])).catalog.candidates.map (·.id) =
        [2 ^ 64 - 1, 2 ^ 64 - 1] := by
    have before := rounds_catalog 2 (2 ^ 64 - 1)
    unfold CatalogLog.run at before ⊢
    rw [List.foldl_append]
    generalize (rounds (2 ^ 64 - 1)).foldl CatalogLog.step ⟨Catalog.new cdnCrate 2, []⟩ = log at *
    obtain ⟨catalog, issued⟩ := log
    dsimp only at before
    rw [before]
    have last : (((Catalog.mk [] (2 ^ 64 - 1) 2).record masterReport).1.record
        lowReport).1.candidates.map (·.id) = [2 ^ 64 - 1, 2 ^ 64 - 1] := by
      decide +kernel
    exact last
  refine ⟨ids, fun kept => ?_⟩
  have descending := kept.ordered.descending
  rw [ids] at descending
  exact absurd descending (by decide)

end Gunda.Gundad
