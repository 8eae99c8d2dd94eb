import Gunda.Storage.StoredJobs

/-!
# What the repository keeps

The tables represent a list of jobs, which the operations of the repository read and change.
-/
namespace Gunda.Storage

open Gunda.Lib
open Gunda.Core (DownloadId DownloadJob NewDownload RequestHeader Url)

variable {codec : PathCodec String} {parse : Text → Option Url}
variable {headers : List RequestHeader} {job : DownloadJob} {id : DownloadId} {map : HeaderMap}
    {download : NewDownload}

/-! ## Rows of headers -/

theorem headerRows_mem {id : Int} {position : Nat} {row : HeaderRow}
    (member : row ∈ headerRows id position headers) :
    row.downloadId = id ∧ (position : Int) ≤ row.position ∧
      row.position < position + headers.length := by
  induction headers generalizing position with
  | nil => cases member
  | cons header headers ih =>
    rw [List.length_cons]
    cases member with
    | head => exact ⟨rfl, Int.le_refl _, by dsimp only; omega⟩
    | tail _ later =>
      obtain ⟨own, low, high⟩ := ih later
      exact ⟨own, by omega, by omega⟩

theorem headerRows_ascending (id : Int) (position : Nat) (headers : List RequestHeader) :
    (headerRows id position headers).Pairwise (·.position ≤ ·.position) := by
  induction headers generalizing position with
  | nil => exact .nil
  | cons header headers ih =>
    refine .cons (fun row member => ?_) (ih (position + 1))
    have low := (headerRows_mem member).2.1
    dsimp only
    omega

theorem headerRows_append (id : Int) (position : Nat) (front back : List RequestHeader) :
    headerRows id position (front ++ back) =
      headerRows id position front ++ headerRows id (position + front.length) back := by
  induction front generalizing position with
  | nil => rfl
  | cons header front ih =>
    rw [List.cons_append, headerRows, ih, List.length_cons, Nat.add_right_comm, Nat.add_assoc]
    rfl

theorem decode_headerRows (open_ : Public headers) (id : Int) (position : Nat) :
    (headerRows id position headers).mapM decodeHeader = .ok headers := by
  induction headers generalizing position with
  | nil => rfl
  | cons header headers ih =>
    obtain ⟨first, rest⟩ := Bool.or_eq_false_iff.mp open_
    have own : decodeHeader ⟨id, position, header.name, header.value, "public"⟩ = .ok header := by
      obtain ⟨name, value, sensitivity⟩ := header
      cases sensitivity with
      | «public» => rfl
      | sensitive => cases first
    rw [headerRows, List.mapM_cons, own, ih rest]
    rfl

/-! ## Tables and jobs -/

variable (codec parse) in
/-- The tables hold the jobs, in the order of their identifiers. -/
structure Represents (tables : RepositoryTables) (jobs : List DownloadJob) : Prop where
  rows : tables.downloads = jobs.map (rowOf codec)
  headers : tables.downloadHeaders = jobs.flatMap headersOf
  ascending : jobs.Pairwise (·.id.value < ·.id.value)
  storable : ∀ job ∈ jobs, Storable parse job
  below : ∀ job ∈ jobs, job.id.value ≤ tables.sequence
  started : 0 ≤ tables.sequence

theorem represents_empty : Represents codec parse .empty [] :=
  ⟨rfl, rfl, .nil, fun _ none => (nomatch none), fun _ none => (nomatch none), Int.le_refl _⟩

variable {tables : RepositoryTables} {jobs : List DownloadJob}

section

variable (represents : Represents codec parse tables jobs)
include represents

theorem Represents.distinct : (jobs.map (·.id)).Nodup :=
  List.pairwise_map.mpr (represents.ascending.imp fun less same => by
    rw [same] at less
    exact Int.lt_irrefl _ less)

theorem Represents.unique {first second : DownloadJob}
    (one : first ∈ jobs) (two : second ∈ jobs) (same : first.id = second.id) : first = second :=
  List.inj_on_of_nodup_map represents.distinct one two same

omit represents in
theorem id_eq_iff {first second : DownloadId} : first.value = second.value ↔ first = second := by
  cases first
  cases second
  simp only [DownloadId.mk.injEq]

theorem Represents.found (id : DownloadId) :
    tables.downloads.find? (·.id = id.value) = (jobs.find? (·.id = id)).map (rowOf codec) := by
  rw [represents.rows, List.find?_map]
  congr 2
  funext job
  exact decide_eq_decide.mpr id_eq_iff

omit represents in
theorem filter_headersOf (ascending : jobs.Pairwise (·.id.value < ·.id.value))
    (member : job ∈ jobs) :
    (jobs.flatMap headersOf).filter (·.downloadId = job.id.value) = headersOf job := by
  induction jobs with
  | nil => cases member
  | cons first rest ih =>
    obtain ⟨smaller, ascending⟩ := List.pairwise_cons.mp ascending
    rw [List.flatMap_cons, List.filter_append]
    cases member with
    | head =>
      have own : (headersOf job).filter (·.downloadId = job.id.value) = headersOf job :=
        List.filter_eq_self.mpr fun row inside => decide_eq_true (headerRows_mem inside).1
      have none : (rest.flatMap headersOf).filter (·.downloadId = job.id.value) = [] := by
        refine List.filter_eq_nil_iff.mpr fun row inside => ?_
        obtain ⟨other, later, inside⟩ := List.mem_flatMap.mp inside
        have less := smaller other later
        have same := (headerRows_mem inside).1
        simp only [decide_eq_true_eq]
        omega
      rw [own, none, List.append_nil]
    | tail _ later =>
      have less := smaller job later
      have none : (headersOf first).filter (·.downloadId = job.id.value) = [] := by
        refine List.filter_eq_nil_iff.mpr fun row inside => ?_
        have same := (headerRows_mem inside).1
        simp only [decide_eq_true_eq]
        omega
      rw [none, List.nil_append]
      exact ih ascending later

/-! ## Lookup -/

theorem runs_loadHeaders (member : job ∈ jobs) (stored : RepositoryTables) :
    Sql.Runs RepositoryTables.run stored (loadHeaders job.id) tables (.ok job.request.headers)
      tables := by
  have found : RepositoryTables.run (.selectHeaders job.id.value) tables =
      some (headersOf job, tables) := by
    rw [RepositoryTables.run_selectHeaders, represents.headers,
      filter_headersOf represents.ascending member]
    have sorted := headerRows_ascending job.id.value 0 job.request.headers
    exact congrArg (fun rows => some (rows, tables)) sorted.insertionSort_eq
  have decoded : (headersOf job).mapM decodeHeader = .ok job.request.headers :=
    decode_headerRows (represents.storable job member).headers _ _
  refine .bind (.execute found) ?_
  rw [decoded]
  exact .lift _

omit represents in
theorem downloadId_rowOf (job : DownloadJob) : (rowOf codec job).downloadId = .ok job.id :=
  dif_pos job.id.positive

omit represents in
theorem runs_downloadId (job : DownloadJob) (stored tables : RepositoryTables) :
    Sql.Runs RepositoryTables.run stored (lift (rowOf codec job).downloadId) tables (.ok job.id)
      tables := by
  rw [downloadId_rowOf]
  exact .lift _

theorem runs_selectDownload (id : DownloadId) :
    RepositoryTables.run (.selectDownload id.value) tables =
      some ((jobs.find? (·.id = id)).map (rowOf codec), tables) := by
  rw [RepositoryTables.run_selectDownload, represents.found]

theorem completes_findById (id : DownloadId) :
    Sql.Completes RepositoryTables.run (findById codec parse id) tables
      (.ok (jobs.find? (·.id = id))) tables := by
  refine .transaction ?_
  refine .bind (.execute (runs_selectDownload represents id)) ?_
  cases found : jobs.find? (·.id = id) with
  | none => exact .pure _
  | some job =>
    have member := List.mem_of_find?_eq_some found
    refine .bind (runs_downloadId job tables tables) ?_
    refine .bind (runs_loadHeaders represents member tables) ?_
    rw [toJob_rowOf (represents.storable job member)]
    exact .lift (.ok (some job))

end

/-! ## Listing -/

/-- The headers of the jobs that have some. -/
def headerMap (jobs : List DownloadJob) : HeaderMap :=
  (jobs.filter fun job => job.request.headers ≠ []).map fun job => (job.id, job.request.headers)

theorem push_new {headers : HeaderMap} (new : ∀ entry ∈ headers, entry.1 ≠ id)
    (header : RequestHeader) : headers.push id header = headers ++ [(id, [header])] := by
  induction headers with
  | nil => rfl
  | cons entry rest ih =>
    rw [HeaderMap.push, if_neg (new entry (.head _)), ih fun other member => new other (.tail _ member)]
    rfl

theorem push_last {headers : HeaderMap} (new : ∀ entry ∈ headers, entry.1 ≠ id)
    (found : List RequestHeader) (header : RequestHeader) :
    HeaderMap.push (headers ++ [(id, found)]) id header = headers ++ [(id, found ++ [header])] := by
  induction headers with
  | nil => exact if_pos rfl
  | cons entry rest ih =>
    rw [List.cons_append, HeaderMap.push, if_neg (new entry (.head _)),
      ih fun other member => new other (.tail _ member)]
    rfl

theorem gatherHeader_ok (id : DownloadId) (position : Int) (header : RequestHeader)
    (open_ : isSensitive header = false) (headers : HeaderMap) :
    gatherHeader headers ⟨id.value, position, header.name, header.value, "public"⟩ =
      .ok (headers.push id header) := by
  obtain ⟨name, value, sensitivity⟩ := header
  cases sensitivity with
  | «public» => exact dif_pos id.positive
  | sensitive => cases open_

theorem gather_more (open_ : Public headers) (new : ∀ entry ∈ map, entry.1 ≠ id)
    (found : List RequestHeader) (position : Nat) :
    (headerRows id.value position headers).foldlM gatherHeader
      (map ++ [(id, found)]) = .ok (map ++ [(id, found ++ headers)]) := by
  induction headers generalizing found position with
  | nil =>
    rw [List.append_nil]
    rfl
  | cons header headers ih =>
    obtain ⟨first, rest⟩ := Bool.or_eq_false_iff.mp open_
    have later := ih rest (found ++ [header]) (position + 1)
    rw [List.append_assoc] at later
    rw [headerRows, List.foldlM_cons, gatherHeader_ok id position header first, push_last new]
    exact later

theorem gather_headersOf (open_ : Public job.request.headers)
    (new : ∀ entry ∈ map, entry.1 ≠ job.id) :
    (headersOf job).foldlM gatherHeader map = .ok (map ++ headerMap [job]) := by
  unfold headersOf headerMap
  cases headers : job.request.headers with
  | nil =>
    rw [List.filter_cons_of_neg (by simp [headers])]
    exact congrArg Except.ok (List.append_nil map).symm
  | cons header rest =>
    rw [headers] at open_
    obtain ⟨first, later⟩ := Bool.or_eq_false_iff.mp open_
    rw [List.filter_cons_of_pos (by simp [headers]), headerRows, List.foldlM_cons,
      gatherHeader_ok job.id _ header first, push_new new]
    have more := gather_more later new [header] 1
    rw [List.map_cons, headers]
    exact more

theorem headerMap_cons (job : DownloadJob) (rest : List DownloadJob) :
    headerMap (job :: rest) = headerMap [job] ++ headerMap rest := by
  unfold headerMap
  rw [← List.map_append, ← List.filter_append]
  rfl

theorem headerMap_mem {entry : DownloadId × List RequestHeader} (member : entry ∈ headerMap jobs) :
    ∃ job ∈ jobs, entry = (job.id, job.request.headers) := by
  obtain ⟨job, inside, same⟩ := List.mem_map.mp member
  exact ⟨job, (List.mem_filter.mp inside).1, same.symm⟩

theorem gather_jobs (open_ : ∀ job ∈ jobs, Public job.request.headers)
    (ascending : jobs.Pairwise (·.id.value < ·.id.value))
    (new : ∀ entry ∈ map, ∀ job ∈ jobs, entry.1 ≠ job.id) :
    (jobs.flatMap headersOf).foldlM gatherHeader map = .ok (map ++ headerMap jobs) := by
  induction jobs generalizing map with
  | nil => exact congrArg Except.ok (List.append_nil map).symm
  | cons job rest ih =>
    obtain ⟨smaller, ascending⟩ := List.pairwise_cons.mp ascending
    have first := gather_headersOf (open_ job (.head _)) fun entry member =>
      new entry member job (.head _)
    have others : ∀ entry ∈ map ++ headerMap [job], ∀ other ∈ rest, entry.1 ≠ other.id := by
      intro entry member other later
      cases List.mem_append.mp member with
      | inl old => exact new entry old other (.tail _ later)
      | inr own =>
        obtain ⟨same, inside, made⟩ := headerMap_mem own
        cases List.mem_singleton.mp inside
        rw [made]
        intro equal
        have less := smaller other later
        have equal : job.id = other.id := equal
        rw [equal] at less
        exact Int.lt_irrefl _ less
    have later := ih (fun other member => open_ other (.tail _ member)) ascending others
    rw [List.flatMap_cons, List.foldlM_append, first, headerMap_cons job rest, ← List.append_assoc]
    exact later

theorem remove_first {rest : List DownloadJob} (others : ∀ other ∈ rest, other.id ≠ job.id) :
    (headerMap (job :: rest)).remove job.id = (job.request.headers, headerMap rest) := by
  have apart : ∀ entry ∈ headerMap rest, entry.1 ≠ job.id := by
    intro entry member
    obtain ⟨other, later, made⟩ := headerMap_mem member
    rw [made]
    exact others other later
  have kept : (headerMap rest).filter (·.1 ≠ job.id) = headerMap rest :=
    List.filter_eq_self.mpr fun entry member => decide_eq_true (apart entry member)
  have missing : (headerMap rest).find? (·.1 = job.id) = none :=
    List.find?_eq_none.mpr fun entry member => by simpa using apart entry member
  rw [headerMap_cons]
  unfold HeaderMap.remove
  rw [List.filter_append, List.find?_append, kept, missing]
  unfold headerMap
  cases headers : job.request.headers with
  | nil =>
    rw [List.filter_cons_of_neg (by simp [headers])]
    rfl
  | cons header more =>
    rw [List.filter_cons_of_pos (by simp [headers])]
    simp [headers]

theorem listedJobs_ok (storable : ∀ job ∈ jobs, Storable parse job)
    (ascending : jobs.Pairwise (·.id.value < ·.id.value)) :
    listedJobs codec parse (headerMap jobs) (jobs.map (rowOf codec)) = .ok (jobs, []) := by
  induction jobs with
  | nil => rfl
  | cons job rest ih =>
    obtain ⟨smaller, ascending⟩ := List.pairwise_cons.mp ascending
    have others : ∀ other ∈ rest, other.id ≠ job.id := by
      intro other member same
      have less := smaller other member
      rw [same] at less
      exact Int.lt_irrefl _ less
    have later := ih (fun other member => storable other (.tail _ member)) ascending
    rw [List.map_cons, listedJobs, downloadId_rowOf]
    simp only [bind, Except.bind, remove_first others, toJob_rowOf (storable job (.head _)), later]
    rfl

theorem completes_list (represents : Represents codec parse tables jobs) :
    Sql.Completes RepositoryTables.run (list codec parse) tables (.ok jobs) tables := by
  have rows : RepositoryTables.run .selectDownloads tables =
      some (jobs.map (rowOf codec), tables) := by
    have sorted : (jobs.map (rowOf codec)).Pairwise (·.id ≤ ·.id) :=
      List.pairwise_map.mpr (represents.ascending.imp fun less => Int.le_of_lt less)
    rw [RepositoryTables.run_selectDownloads, represents.rows]
    exact congrArg (fun rows => some (rows, tables)) sorted.insertionSort_eq
  have headers : RepositoryTables.run .selectAllHeaders tables =
      some (jobs.flatMap headersOf, tables) := by
    have sorted : (jobs.flatMap headersOf).Pairwise HeaderRow.before := by
      refine List.pairwise_flatMap.mpr ⟨fun job _ => ?_, ?_⟩
      · refine (headerRows_ascending _ _ _).imp_of_mem fun first second less => ?_
        exact .inr ⟨(headerRows_mem first).1.trans (headerRows_mem second).1.symm, less⟩
      · refine represents.ascending.imp fun less first one second two => .inl ?_
        rw [(headerRows_mem one).1, (headerRows_mem two).1]
        exact less
    rw [RepositoryTables.run_selectAllHeaders, represents.headers]
    exact congrArg (fun rows => some (rows, tables)) sorted.insertionSort_eq
  have gathered : (jobs.flatMap headersOf).foldlM gatherHeader [] = .ok ([] ++ headerMap jobs) :=
    gather_jobs (fun job member => (represents.storable job member).headers) represents.ascending
      fun entry none => (nomatch none)
  have loaded : Sql.Runs RepositoryTables.run tables loadAllHeaders tables (.ok (headerMap jobs))
      tables := by
    refine .bind (.execute headers) ?_
    rw [gathered]
    exact .lift _
  have listed : Sql.Runs RepositoryTables.run tables
      (lift (listedJobs codec parse (headerMap jobs) (jobs.map (rowOf codec)))) tables
      (.ok (jobs, [])) tables := by
    rw [listedJobs_ok represents.storable represents.ascending]
    exact .lift _
  refine .transaction ?_
  refine .bind (.execute rows) ?_
  refine .bind loaded ?_
  refine .bind listed ?_
  exact .pure _

/-! ## Creation -/

/-- The tables with one more row. -/
def RepositoryTables.withRow (tables : RepositoryTables) (row : DownloadRow) : RepositoryTables :=
  { tables with downloads := tables.downloads ++ [row], sequence := row.id }

theorem updateRow_last {row : DownloadRow} {change : DownloadRow → DownloadRow}
    (new : ∀ old ∈ tables.downloads, old.id ≠ row.id)
    (checked : ∀ old ∈ tables.downloads, old.meetsChecks = true)
    (changed : (change row).meetsChecks = true) (same : (change row).id = row.id) :
    (tables.withRow row).updateRow row.id change = some (tables.withRow (change row)) := by
  have rows : (tables.downloads ++ [row]).map (fun old => if old.id = row.id then change old else old) =
      tables.downloads ++ [change row] := by
    rw [List.map_append, List.map_congr_left fun old member => if_neg (new old member),
      List.map_id', List.map_singleton, if_pos rfl]
  have all : (tables.downloads ++ [change row]).all DownloadRow.meetsChecks = true := by
    rw [List.all_append, List.all_eq_true.mpr checked, List.all_cons, changed]
    rfl
  unfold RepositoryTables.updateRow RepositoryTables.withRow
  rw [rows, if_pos all, same]

theorem Represents.checked (represents : Represents codec parse tables jobs) {row : DownloadRow}
    (member : row ∈ tables.downloads) : row.meetsChecks = true ∧ row.id ≤ tables.sequence := by
  rw [represents.rows] at member
  obtain ⟨job, inside, same⟩ := List.mem_map.mp member
  rw [← same]
  exact ⟨rowOf_meetsChecks (represents.storable job inside).constructed,
    represents.below job inside⟩

theorem runs_insertDownload {download : NewDownload} {createdAt : Int}
    (represents : Represents codec parse tables jobs) (constructed : Constructed parse download)
    {id : DownloadId} (next : id.value = tables.sequence + 1) (left : id.value < 2 ^ 63)
    (stored : RepositoryTables) :
    Sql.Runs RepositoryTables.run stored (insertDownload codec download (createdAt / 1000000)) tables
      (.ok id) (tables.withRow (rowOf codec (.new id download createdAt))) := by
  let bare : NewDownload := ⟨{ download.request with selection := none }, download.destination, download.origin⟩
  have plain : Constructed parse bare :=
    ⟨constructed.url, constructed.page, fun _ none => (nomatch none), constructed.headers⟩
  have inserted : RepositoryTables.run (.insertDownload ⟨download.request.url.serialization,
      (encodeOrigin download.origin).1, (encodeOrigin download.origin).2.1,
      (encodeOrigin download.origin).2.2, codec.written download.destination.directory,
      download.destination.preferredFilename,
      encodeConflictPolicy download.destination.conflictPolicy, createdAt / 1000000⟩) tables =
      some (id.value, tables.withRow (rowOf codec (.new id bare createdAt))) := by
    have row : InsertedDownload.row ⟨download.request.url.serialization,
        (encodeOrigin download.origin).1, (encodeOrigin download.origin).2.1,
        (encodeOrigin download.origin).2.2, codec.written download.destination.directory,
        download.destination.preferredFilename,
        encodeConflictPolicy download.destination.conflictPolicy, createdAt / 1000000⟩
        (tables.sequence + 1) = rowOf codec (.new id bare createdAt) := by
      rw [← next]
      rfl
    have accepted : tables.sequence + 1 < 2 ^ 63 ∧
        (rowOf codec (.new id bare createdAt)).meetsChecks = true :=
      ⟨next ▸ left, @rowOf_meetsChecks codec parse (.new id bare createdAt) plain⟩
    unfold RepositoryTables.run
    dsimp only
    rw [row, if_pos accepted]
    rfl
  have identified : Sql.Runs RepositoryTables.run stored
      (lift (if h : 0 < id.value then .ok ⟨id.value, h⟩
        else .error (invalidData "database returned an invalid download ID")))
      (tables.withRow (rowOf codec (.new id bare createdAt))) (.ok id)
      (tables.withRow (rowOf codec (.new id bare createdAt))) := by
    rw [dif_pos id.positive]
    exact .lift _
  unfold insertDownload
  rw [codec.encode_eq]
  refine .bind (.lift _) ?_
  refine .bind (.execute inserted) ?_
  refine .bind identified ?_
  cases chosen : download.request.selection with
  | none =>
    have same : rowOf codec (.new id bare createdAt) = rowOf codec (.new id download createdAt) := by
      simp only [rowOf, DownloadJob.new, chosen, bare, Option.map_none]
    rw [same]
    exact .pure _
  | some selection =>
    have updated : RepositoryTables.run (.updateSelection selection.value id.value)
        (tables.withRow (rowOf codec (.new id bare createdAt))) =
        some ((), tables.withRow (rowOf codec (.new id download createdAt))) := by
      have changed : { rowOf codec (.new id bare createdAt) with
          executionSelection := some selection.value } = rowOf codec (.new id download createdAt) := by
        simp only [rowOf, DownloadJob.new, chosen, bare, Option.map_some]
      have new : ∀ old ∈ tables.downloads, old.id ≠ (rowOf codec (.new id bare createdAt)).id := by
        intro old member same
        have low := (represents.checked member).2
        change old.id = id.value at same
        omega
      have checked : (rowOf codec (.new id download createdAt)).meetsChecks = true :=
        @rowOf_meetsChecks codec parse (.new id download createdAt) constructed
      rw [← changed] at checked
      have written : (tables.withRow (rowOf codec (.new id bare createdAt))).updateRow id.value
          (fun row => { row with executionSelection := some selection.value }) = _ :=
        updateRow_last new (fun old member => (represents.checked member).1) checked rfl
      rw [changed] at written
      exact congrArg (Option.map fun tables => ((), tables)) written
    refine .bind (.execute updated) ?_
    exact .pure _

theorem runs_insertHeaders {id : DownloadId} {front back : List RequestHeader}
    {others : List HeaderRow} (open_ : Public back)
    (few : front.length + back.length ≤ 2 ^ 63) (stored : RepositoryTables)
    (known : tables.downloads.any (·.id = id.value) = true)
    (apart : ∀ row ∈ others, row.downloadId ≠ id.value)
    (held : tables.downloadHeaders = others ++ headerRows id.value 0 front) :
    Sql.Runs RepositoryTables.run stored (insertHeaders id front.length back) tables (.ok ())
      { tables with downloadHeaders := others ++ headerRows id.value 0 (front ++ back) } := by
  induction back generalizing front tables with
  | nil =>
    rw [List.append_nil, ← held]
    exact .pure _
  | cons header back ih =>
    obtain ⟨first, rest⟩ := Bool.or_eq_false_iff.mp open_
    rw [List.length_cons] at few
    have sensitive : ¬ isSensitive header = true := by
      rw [first]
      exact Bool.false_ne_true
    have fits : ¬ 2 ^ 63 ≤ front.length := by omega
    have free : tables.downloadHeaders.any (fun row =>
        row.downloadId = id.value && row.position = (front.length : Int)) = false := by
      refine Bool.eq_false_iff.mpr fun taken => ?_
      obtain ⟨row, member, same⟩ := List.any_eq_true.mp taken
      simp only [Bool.and_eq_true, decide_eq_true_eq] at same
      rw [held] at member
      cases List.mem_append.mp member with
      | inl other => exact apart row other same.1
      | inr own =>
        have high := (headerRows_mem own).2.2
        omega
    have inserted : RepositoryTables.run
        (.insertHeader id.value front.length header.name header.value) tables =
        some ((), { tables with
          downloadHeaders := others ++ headerRows id.value 0 (front ++ [header]) }) := by
      have position : 0 ≤ (front.length : Int) := Int.natCast_nonneg _
      unfold RepositoryTables.run
      dsimp only
      rw [free, known, Bool.not_false, if_pos ⟨position, rfl, rfl⟩, held, headerRows_append,
        Nat.zero_add, List.append_assoc]
      rfl
    have fewer : (front ++ [header]).length + back.length ≤ 2 ^ 63 := by
      rw [List.length_append, List.length_singleton]
      omega
    have later := @ih { tables with
      downloadHeaders := others ++ headerRows id.value 0 (front ++ [header]) } (front ++ [header])
      rest fewer known rfl
    rw [List.append_assoc, List.length_append] at later
    rw [insertHeaders, if_neg sensitive, if_neg fits]
    exact .bind (.execute inserted) later

/-- The tables with one more job. -/
def RepositoryTables.withJob (codec : PathCodec String) (tables : RepositoryTables)
    (job : DownloadJob) : RepositoryTables :=
  { tables.withRow (rowOf codec job) with
    downloadHeaders := tables.downloadHeaders ++ headersOf job }

theorem Represents.withJob (represents : Represents codec parse tables jobs)
    (storable : Storable parse job) (next : job.id.value = tables.sequence + 1) :
    Represents codec parse (tables.withJob codec job) (jobs ++ [job]) where
  rows := by
    change tables.downloads ++ [rowOf codec job] = _
    rw [represents.rows, List.map_append, List.map_singleton]
  headers := by
    change tables.downloadHeaders ++ headersOf job = _
    rw [represents.headers, List.flatMap_append, List.flatMap_singleton]
  ascending := by
    refine List.pairwise_append.mpr ⟨represents.ascending, List.pairwise_singleton _ _, ?_⟩
    intro old member new last
    cases List.mem_singleton.mp last
    have low := represents.below old member
    omega
  storable := by
    intro other member
    cases List.mem_append.mp member with
    | inl old => exact represents.storable other old
    | inr new => exact List.mem_singleton.mp new ▸ storable
  below := by
    intro other member
    change other.id.value ≤ job.id.value
    cases List.mem_append.mp member with
    | inl old =>
      have low := represents.below other old
      omega
    | inr new => rw [List.mem_singleton.mp new]
  started := Int.le_of_lt job.id.positive

theorem storable_new {createdAt : Int} (id : DownloadId)
    (constructed : Constructed parse download) (open_ : Public download.request.headers)
    (inYears : InYears createdAt) : Storable parse (.new id download (floored createdAt)) :=
  ⟨constructed, open_, ⟨inYears.floored, floored_floored createdAt⟩,
    ⟨inYears.floored, floored_floored createdAt⟩⟩

theorem completes_create {createdAt : Int} (represents : Represents codec parse tables jobs)
    (constructed : Constructed parse download) (open_ : Public download.request.headers)
    (inYears : InYears createdAt) (next : id.value = tables.sequence + 1)
    (left : id.value < 2 ^ 63) :
    Sql.Completes RepositoryTables.run (create codec download createdAt) tables
      (.ok (.new id download (floored createdAt)))
      (tables.withJob codec (.new id download (floored createdAt))) := by
  have inserted := @runs_insertDownload codec parse tables jobs download (floored createdAt) represents
    constructed id next left tables
  rw [floored_div] at inserted
  have headers : Sql.Runs RepositoryTables.run tables (insertHeaders id 0 download.request.headers)
      (tables.withRow (rowOf codec (.new id download (floored createdAt)))) (.ok ())
      (tables.withJob codec (.new id download (floored createdAt))) := by
    have few : ([] : List RequestHeader).length + download.request.headers.length ≤ 2 ^ 63 := by
      rw [List.length_nil, Nat.zero_add]
      exact constructed.headers
    refine @runs_insertHeaders _ id [] _ tables.downloadHeaders open_ few tables ?_ ?_
      (List.append_nil _).symm
    · refine List.any_eq_true.mpr ⟨_, List.mem_append_right _ (List.mem_singleton_self _), ?_⟩
      exact decide_eq_true rfl
    · intro row member same
      rw [represents.headers] at member
      obtain ⟨job, inside, own⟩ := List.mem_flatMap.mp member
      have low := represents.below job inside
      have owner := (headerRows_mem own).1
      omega
  unfold create
  rw [ensurePersistable_ok open_, encodeTimestamp_ok inYears]
  refine .lift_bind (.lift_bind ?_)
  rw [decodeTimestamp_ok inYears]
  refine .lift_bind (.transaction ?_)
  refine .bind inserted (.bind headers (.pure _))

/-! ## What is refused -/

theorem public_of_ok (h : ensurePersistable download = .ok ()) :
    Public download.request.headers := by
  unfold ensurePersistable at h
  split at h
  · cases h
  · rename_i none
    exact Bool.eq_false_iff.mpr none

theorem encodeTimestamp_eq {timestamp milliseconds : Int}
    (h : encodeTimestamp timestamp = .ok milliseconds) : milliseconds = timestamp / 1000000 := by
  unfold encodeTimestamp at h
  dsimp only at h
  split at h
  · exact (Except.ok.inj h).symm
  · cases h

theorem inYears_of_decoded {timestamp decoded : Int}
    (h : decodeTimestamp (timestamp / 1000000) = .ok decoded) :
    InYears timestamp ∧ decoded = floored timestamp := by
  by_cases inYears : InYears timestamp
  · rw [decodeTimestamp_ok inYears] at h
    exact ⟨inYears, (Except.ok.inj h).symm⟩
  · have read : fromUnixTimestampNanos (timestamp / 1000000 * 1000000) = none :=
      if_neg fun floored => inYears (inYears_of_floored floored)
    unfold decodeTimestamp at h
    rw [read] at h
    cases h

theorem encodeByteCount_eq {value : Nat} {encoded : Int} (h : encodeByteCount value = .ok encoded) :
    value < 2 ^ 63 ∧ encoded = value := by
  unfold encodeByteCount at h
  split at h
  · rename_i small
    exact ⟨small, (Except.ok.inj h).symm⟩
  · cases h

/-- A creation is refused where a header is sensitive, where the time lies outside of the years
that are supported, and where no identifier is left. -/
theorem create_refused {download : NewDownload} {createdAt : Int}
    (refused : ¬ (Public download.request.headers ∧ InYears createdAt ∧
      tables.sequence + 1 < 2 ^ 63)) :
    Sql.Refuses RepositoryTables.run (create codec download createdAt) tables := by
  refine .lift_bind fun _ persistable => ?_
  refine .lift_bind fun milliseconds encoded => ?_
  refine .lift_bind fun timestamp decoded => ?_
  rw [encodeTimestamp_eq encoded] at decoded
  have full : ¬ (tables.sequence + 1 < 2 ^ 63) := fun left =>
    refused ⟨public_of_ok persistable, (inYears_of_decoded decoded).1, left⟩
  have inserted : Sql.Runs RepositoryTables.run tables
      (insertDownload codec download milliseconds) tables
      (.error (internalError "could not insert download record")) tables := by
    unfold insertDownload
    rw [codec.encode_eq]
    refine .bind (.lift _) (.bind_error (.refused ?_))
    exact if_neg fun accepted => full accepted.1
  exact .transaction (.bind_error inserted)

end Gunda.Storage
