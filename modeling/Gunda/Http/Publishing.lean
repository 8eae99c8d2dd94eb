import Gunda.Http.Finalize
import Gunda.Lib.Directory
import Gunda.Lib.Fields
import Gunda.Lib.Result

/-!
# Publishing among other processes

`finalize_download` over the files of a directory, where others create files before
any of its operations and where any of them may fail.
-/
namespace Gunda.Http

open Gunda.Lib Gunda.Lib.Text
open Gunda.Core (DownloadId DownloadDestination FileConflictPolicy)

/-- A file as `same_file::Handle` tells it from others. -/
structure StoredFile where
  identity : Nat
  isFile : Bool
  content : Bytes
  deriving DecidableEq, Repr

abbrev Files : Type := Directory String StoredFile

/-- A fully received body, with the directory it is staged in and the file it was
written to. -/
structure StagedDownload extends PartialDownload where
  id : DownloadId
  directory : String
  identity : Nat

def StagedDownload.path (staged : StagedDownload) : String :=
  joinPath staged.directory
    (String.ofList (".gunda-".toList ++ ofNat staged.id.value.toNat ++ ".part".toList))

/-- The components `Path` compares. -/
def pathComponents (path : String) : List Text :=
  match splitAll '/' path.toList with
  | [] => []
  | first :: rest =>
      (if path = "" then [] else if first = [] then [['/']] else [first]) ++
        rest.filter fun part => part ≠ [] ∧ part ≠ ['.']

def finalizeDownload (staged : StagedDownload) (destination : DownloadDestination) :
    Publishing FinalizedDownload := do
  if pathComponents staged.directory ≠ pathComponents destination.directory then
    throw .differentDirectory
  publish staged.id destination staged.writtenBytes

/-! ## The directory -/

/-- What others create before an operation, and whether it fails. -/
structure PublishChoice where
  created : List (String × StoredFile)
  failure : Option IoErrorKind

def publishAnswer {α : Type} (choice : PublishChoice) (files : Files)
    (act : Files → Except IoErrorKind (α × Files)) : Option (Except IoErrorKind α × Files) :=
  let now := files.createAll choice.created
  match choice.failure with
  | some kind => some (.error kind, now)
  | none => match act now with
    | .ok (value, after) => some (.ok value, after)
    | .error kind => some (.error kind, now)

/-- Reads the file under a name. -/
def readFile {α : Type} (path : String) (read : StoredFile → α) (files : Files) :
    Except IoErrorKind (α × Files) :=
  match files path with
  | some file => .ok (read file, files)
  | none => .error .notFound

/-- A change of names that is possible only sometimes. -/
def changeFiles (kind : IoErrorKind) : Option Files → Except IoErrorKind (Unit × Files)
  | some after => .ok ((), after)
  | none => .error kind

def directorySurroundings (staged : StagedDownload) :
    Surroundings PublishOp PublishOp.Answer PublishChoice Files
  | .metadata, choice, files => publishAnswer choice files
      (readFile staged.path fun file => ⟨file.isFile, file.content.length⟩)
  | .matchesPath, choice, files => publishAnswer choice files
      (readFile staged.path fun file => decide (file.identity = staged.identity))
  | .rename finalPath, choice, files => publishAnswer choice files fun now =>
      changeFiles .notFound (now.rename staged.path finalPath)
  | .hardLink finalPath, choice, files => publishAnswer choice files fun now =>
      changeFiles (if (now finalPath).isSome then .alreadyExists else .notFound)
        (now.link staged.path finalPath)
  | .removePartial, choice, files => publishAnswer choice files fun now =>
      changeFiles .notFound (now.remove staged.path)

/-! ## Names -/

variable {filename : String}

theorem not_mem_of_validateFilename (valid : validateFilename filename = .ok ()) :
    '/' ∉ filename.toList ∧ filename ≠ "" ∧ filename ≠ "." ∧ filename ≠ ".." := by
  unfold validateFilename at valid
  dsimp only at valid
  split at valid
  · cases valid
  · rename_i passed
    push Not at passed
    obtain ⟨filled, -, dot, dots, -, -, plain⟩ := passed
    refine ⟨fun separated => ?_, fun empty => ?_, dot, dots⟩
    · have forbidden : (isControl '/' || isForbidden '/') = true := by decide
      exact plain (List.any_eq_true.mpr ⟨'/', separated, forbidden⟩)
    · apply filled
      rw [empty]
      rfl

/-- The parts of a text split in two have no character that the text has not. -/
theorem not_mem_rsplitOnce {separator c : Char} {text : Text} {parts : Text × Text}
    (h : rsplitOnce separator text = some parts) (absent : c ∉ text) :
    c ∉ parts.1 ∧ c ∉ parts.2 := by
  obtain ⟨found, split, rfl⟩ := Option.map_eq_some_iff.mp h
  have whole := (splitOnce_eq_some split).1
  rw [← List.mem_reverse, whole] at absent
  simp only [List.mem_append, List.mem_cons, not_or] at absent
  simp only [List.mem_reverse]
  exact ⟨absent.2.2, absent.1⟩

theorem numbered_plain (attempt : Nat) : '/' ∉ numbered attempt := by
  unfold numbered
  simp only [List.mem_append, not_or]
  exact ⟨⟨by decide, not_mem_ofNat attempt (by decide)⟩, by decide⟩

/-- A single component of a path, and no name of a directory. -/
structure PlainName (name : String) : Prop where
  plain : '/' ∉ name.toList
  named : name ≠ "" ∧ name ≠ "." ∧ name ≠ ".."

theorem plainName_of_length {name : Text} (plain : '/' ∉ name) (long : 2 < name.length) :
    PlainName (String.ofList name) := by
  constructor
  · rw [String.toList_ofList]
    exact plain
  · have lengths : ∀ other : String, other.toList.length ≤ 2 → String.ofList name ≠ other := by
      intro other short same
      rw [← same, String.toList_ofList] at short
      omega
    exact ⟨lengths "" (by decide), lengths "." (by decide), lengths ".." (by decide)⟩

theorem numbered_length (attempt : Nat) : 2 < (numbered attempt).length := by
  unfold numbered
  simp only [List.length_append]
  have some_digit := List.length_pos_of_ne_nil (ofNat_ne_nil attempt)
  change 2 < 2 + _ + 1
  omega

/-- Every name tried is a single component. -/
theorem plainName_candidate (valid : validateFilename filename = .ok ()) (attempt : Nat) :
    PlainName (candidateName filename attempt) := by
  obtain ⟨plain, named⟩ := not_mem_of_validateFilename valid
  have long := numbered_length attempt
  have appended : PlainName (String.ofList (filename.toList ++ numbered attempt)) := by
    apply plainName_of_length
    · rw [List.mem_append, not_or]
      exact ⟨plain, numbered_plain attempt⟩
    · rw [List.length_append]
      omega
  unfold candidateName
  split
  · exact ⟨plain, named⟩
  · split
    · rename_i stem extension split_name
      obtain ⟨stemPlain, extensionPlain⟩ := not_mem_rsplitOnce split_name plain
      split
      · exact appended
      · apply plainName_of_length
        · simp only [List.mem_append, not_or]
          exact ⟨⟨⟨stemPlain, numbered_plain attempt⟩, by decide⟩, extensionPlain⟩
        · simp only [List.length_append]
          omega
    · exact appended

/-! ## Every run -/

/-- What a published download leaves of the files there were. -/
structure Published (staged : StagedDownload) (destination : DownloadDestination) (files : Files)
    (finalized : FinalizedDownload) (after : Files) : Prop where
  /-- The published file is the partial file. -/
  file : ∃ file, after finalized.destination.finalPath = some file ∧ file.isFile = true ∧
    file.identity = staged.identity ∧ file.content.length = staged.writtenBytes ∧
    ∀ other, files staged.path = some other → other = file
  placed : ∃ name, PlainName name ∧
    finalized.destination.finalPath = joinPath destination.directory name
  /-- Nothing was there before unless it was to be replaced. -/
  fresh : destination.conflictPolicy ≠ .overwrite → files finalized.destination.finalPath = none
  requested : destination.conflictPolicy = .overwrite → finalized.destination.finalPath =
    joinPath destination.directory (destination.preferredFilename.getD (defaultFilename staged.id))
  others : ∀ path file, files path = some file → path ≠ staged.path →
    path ≠ finalized.destination.finalPath → after path = some file

/-- The partial file is what was written, and what was there still is. -/
structure Checked (staged : StagedDownload) (files : Files) (file : StoredFile) (now : Files) :
    Prop where
  kept : Directory.Extends files now
  found : now staged.path = some file
  isFile : file.isFile = true
  identity : file.identity = staged.identity
  length : file.content.length = staged.writtenBytes

section

variable {staged : StagedDownload} {destination : DownloadDestination} {files now : Files}
  {file : StoredFile}

variable {α : Type} {choice : PublishChoice} {t : Files} {finalPath : String}
    {answer : Except IoErrorKind Unit}

theorem Checked.extends {later : Files} (checked : Checked staged files file now)
    (onward : Directory.Extends now later) : Checked staged files file later :=
  { checked with
    kept := checked.kept.trans onward
    found := onward _ _ checked.found }

theorem Checked.only (checked : Checked staged files file now) :
    ∀ other, files staged.path = some other → other = file := by
  intro other present
  have still := checked.kept _ _ present
  rw [checked.found] at still
  exact (Option.some.inj still).symm

theorem readFile_ok {path : String} {read : StoredFile → α} {value : α} {after : Files}
    (h : readFile path read now = .ok (value, after)) :
    after = now ∧ ∃ file, now path = some file ∧ value = read file := by
  unfold readFile at h
  split at h
  · rename_i file found
    cases h
    exact ⟨rfl, file, found, rfl⟩
  · cases h

theorem changeFiles_ok {kind : IoErrorKind} {changed : Option Files} {value : Unit} {after : Files}
    (h : changeFiles kind changed = .ok (value, after)) : changed = some after := by
  unfold changeFiles at h
  split at h
  · cases h
    rfl
  · cases h

abbrev directorySpec (staged : StagedDownload) : Spec PublishOp PublishOp.Answer Files :=
  (directorySurroundings staged).spec fun _ _ => True

/-- Ends in `P`, or fails with every file still there. -/
abbrev Publishes (staged : StagedDownload) (files : Files) {α : Type} (program : Publishing α)
    (P : α → Files → Prop) (now : Files) : Prop :=
  Fallible.Yields (directorySpec staged) (Directory.Extends files) program P now

/-- An answer of `P`, or a failure where `I` holds. -/
def Answers {α : Type} (I : Files → Prop) (P : α → Files → Prop) :
    Except IoErrorKind α → Files → Prop
  | .ok value, t => P value t
  | .error _, t => I t

variable {P : α → Files → Prop}

/-- An operation fails among what others created, or acts on it. -/
theorem answers_of_act {I : Files → Prop} {act : Files → Except IoErrorKind (α × Files)}
    {answer : Except IoErrorKind α} (h : publishAnswer choice now act = some (answer, t))
    (failed : ∀ shared, Directory.Extends now shared → I shared)
    (acted : ∀ shared value after, Directory.Extends now shared →
      act shared = .ok (value, after) → P value after) : Answers I P answer t := by
  have onward : Directory.Extends now (now.createAll choice.created) :=
    Directory.extends_createAll _
  unfold publishAnswer at h
  dsimp only at h
  split at h
  · cases h
    exact failed _ onward
  · split at h
    · rename_i value later done
      cases h
      exact acted _ value _ onward done
    · cases h
      exact failed _ onward

section

variable {answer : Except IoErrorKind α}
  (answered : Answers (Directory.Extends files) P answer now)
include answered

theorem attempt_publishes :
    Publishes staged files (PublishOp.attempt answer) P now := by
  cases answer with
  | ok value => exact answered
  | error kind => exact answered

/-- An answer, and what goes on if the operation succeeded. -/
theorem answered_publishes {β : Type} {R : β → Files → Prop} {next : α → Publishing β}
    (continued : ∀ value t, P value t → Publishes staged files (next value) R t) :
    Publishes staged files (do next (← PublishOp.attempt answer)) R now :=
  (attempt_publishes answered).bind continued

end

theorem metadata_answers (kept : Directory.Extends files now)
    {answer : Except IoErrorKind FileMetadata}
    (found : directorySurroundings staged .metadata choice now = some (answer, t)) :
    Answers (Directory.Extends files) (fun metadata t => Directory.Extends files t ∧
      ∃ file, t staged.path = some file ∧ metadata = ⟨file.isFile, file.content.length⟩)
      answer t := by
  apply answers_of_act found (fun _ => kept.trans)
  intro shared value after onward read
  obtain ⟨same, file, present, value⟩ := readFile_ok read
  rw [same]
  exact ⟨kept.trans onward, file, present, value⟩

theorem matchesPath_answers (kept : Directory.Extends files now)
    (present : now staged.path = some file) {answer : Except IoErrorKind Bool}
    (found : directorySurroundings staged .matchesPath choice now = some (answer, t)) :
    Answers (Directory.Extends files) (fun matched t => Directory.Extends files t ∧
      t staged.path = some file ∧ matched = decide (file.identity = staged.identity))
      answer t := by
  apply answers_of_act found (fun _ => kept.trans)
  intro shared value after onward read
  obtain ⟨same, other, there, value⟩ := readFile_ok read
  have still := onward _ _ present
  rw [there] at still
  cases still
  rw [same]
  exact ⟨kept.trans onward, there, value⟩

/-- The partial file is under a name, and nothing else has changed. -/
structure Placed (staged : StagedDownload) (files : Files) (file : StoredFile) (finalPath : String)
    (now : Files) : Prop where
  target : now finalPath = some file
  others : ∀ path other, files path = some other → path ≠ staged.path → path ≠ finalPath →
    now path = some other

/-- The partial file takes the requested name, whatever was there. -/
theorem rename_answers (checked : Checked staged files file now)
    (found : directorySurroundings staged (.rename finalPath) choice now = some (answer, t)) :
    Answers (Directory.Extends files) (fun _ => Placed staged files file finalPath) answer t := by
  change publishAnswer choice now
    (fun now => changeFiles .notFound (now.rename staged.path finalPath)) = _ at found
  apply answers_of_act found (fun _ => checked.kept.trans)
  intro shared value after onward changed
  have moved := changeFiles_ok changed
  have later := checked.extends onward
  constructor
  · rw [Directory.rename_target moved]
    exact later.found
  · intro path other present notStaged notFinal
    rw [Directory.rename_other moved notStaged notFinal]
    exact later.kept _ _ present

/-- The partial file has a second name, which was free. -/
structure Linked (staged : StagedDownload) (files : Files) (file : StoredFile) (finalPath : String)
    (now : Files) : Prop where
  checked : Checked staged files file now
  target : now finalPath = some file
  fresh : files finalPath = none
  apart : finalPath ≠ staged.path

theorem Linked.placed {later : Files} (linked : Linked staged files file finalPath now)
    (onward : Directory.Extends now later) :
    Placed staged files file finalPath later where
  target := onward _ _ linked.target
  others _ _ present _ _ := onward _ _ (linked.checked.kept _ _ present)

theorem hardLink_answers (checked : Checked staged files file now)
    (found : directorySurroundings staged (.hardLink finalPath) choice now = some (answer, t)) :
    Answers (Checked staged files file) (fun _ => Linked staged files file finalPath) answer t := by
  change publishAnswer choice now (fun now => changeFiles
    (if (now finalPath).isSome then .alreadyExists else .notFound)
    (now.link staged.path finalPath)) = _ at found
  apply answers_of_act found (fun _ => checked.extends)
  intro shared value after onward changed
  have linked := changeFiles_ok changed
  have later := checked.extends onward
  obtain ⟨-, -, free, -⟩ := Directory.link_some linked
  constructor
  · exact later.extends (Directory.extends_link linked)
  · rw [Directory.link_target linked]
    exact later.found
  · exact later.kept.absent free
  · intro same
    rw [same, later.found] at free
    cases free

/-- Without its own name the file is still there under the other. -/
theorem removePartial_answers (linked : Linked staged files file finalPath now)
    (found : directorySurroundings staged .removePartial choice now = some (answer, t)) :
    Placed staged files file finalPath t := by
  change publishAnswer choice now
    (fun now => changeFiles .notFound (now.remove staged.path)) = _ at found
  have answered : Answers (Placed staged files file finalPath)
      (fun _ => Placed staged files file finalPath) answer t := by
    apply answers_of_act found (fun _ => linked.placed)
    intro shared value after onward changed
    have removed := changeFiles_ok changed
    have placed := linked.placed onward
    constructor
    · rw [Directory.remove_other removed linked.apart]
      exact placed.target
    · intro path other present notStaged notFinal
      rw [Directory.remove_other removed notStaged]
      exact placed.others path other present notStaged notFinal
  cases answer with
  | ok value => exact answered
  | error kind => exact answered

theorem linkCandidates_publishes {policy : FileConflictPolicy}
    (valid : validateFilename filename = .ok ()) (chosen : destination.conflictPolicy = policy)
    (kind : policy ≠ .overwrite) (checked : Checked staged files file now) (attempts : List Nat) :
    Publishes staged files
      (linkCandidates destination.directory filename policy staged.writtenBytes attempts)
      (Published staged destination files) now := by
  induction attempts generalizing now with
  | nil => exact .fail _ checked.kept
  | cons attempt later ih =>
    refine .bind (P := Answers (Checked staged files file) fun _ =>
      Linked staged files file
        (joinPath destination.directory (candidateName filename attempt)))
      (.perform trivial fun answer t found => ?_) fun answer t answered => ?_
    · obtain ⟨choice, found⟩ := found
      exact hardLink_answers checked found
    · cases answer with
      | ok value =>
        refine .bind (P := fun _ => Placed staged files file
          (joinPath destination.directory (candidateName filename attempt)))
          (.perform trivial fun removed u found => ?_) fun removed u placed => ?_
        · obtain ⟨choice, found⟩ := found
          exact removePartial_answers answered found
        · have same := answered.checked
          constructor
          · exact ⟨file, placed.target, same.isFile, same.identity, same.length, same.only⟩
          · exact ⟨_, plainName_candidate valid attempt, rfl⟩
          · exact fun _ => answered.fresh
          · intro overwrites
            exact absurd (chosen.symm.trans overwrites) kind
          · exact placed.others
      | error kind =>
        dsimp only
        split
        · exact ih answered
        · exact .fail _ answered.kept

theorem publish_publishes (start : Directory.Extends files now) :
    Publishes staged files (publish staged.id destination staged.writtenBytes)
      (Published staged destination files) now := by
  unfold publish
  dsimp only
  generalize requested : destination.preferredFilename.getD (defaultFilename staged.id) = filename
  cases valid : validateFilename filename with
  | error error => exact start
  | ok _ =>
    refine .bind (P := fun _ t => t = now) (.pure rfl)
      fun _ t same => ?_
    subst same
    refine .bind (.perform trivial fun answer u found =>
      metadata_answers start found.choose_spec) fun answer u answered => ?_
    apply answered_publishes answered
    intro metadata u found
    obtain ⟨kept, file, present, measured⟩ := found
    refine .bind (.perform trivial fun answer v found =>
      matchesPath_answers kept present found.choose_spec) fun answer v answered => ?_
    apply answered_publishes answered
    intro matched v found
    obtain ⟨kept, present, same⟩ := found
    split
    · exact .fail _ kept
    · rename_i accepted
      have checked : Checked staged files file v := by
        rw [measured, same] at accepted
        simp only [Bool.not_eq_true', not_or, not_not, Bool.not_eq_false,
          decide_eq_false_iff_not] at accepted
        exact ⟨kept, present, accepted.1, accepted.2.2, accepted.2.1⟩
      split
      · rename_i overwrites
        refine .bind (.perform trivial fun answer w found =>
          rename_answers checked found.choose_spec) fun answer w answered => ?_
        apply answered_publishes answered
        intro _ w placed
        constructor
        · exact ⟨file, placed.target, checked.isFile, checked.identity, checked.length, checked.only⟩
        · exact ⟨filename, plainName_candidate valid 0, rfl⟩
        · exact fun keeps => absurd overwrites keeps
        · intro _
          rw [requested]
        · exact placed.others
      · rename_i keeps
        exact linkCandidates_publishes valid rfl keeps checked _

end

def sampleStaged : StagedDownload where
  writtenBytes := 2
  metadata := ⟨none, none, none⟩
  id := ⟨7, by decide⟩
  directory := "/downloads"
  identity := 40

def sampleFiles : Files := fun path =>
  if path = "/downloads/.gunda-7.part" then some ⟨40, true, [1, 2]⟩
  else if path = "/downloads/film.mp4" then some ⟨30, true, [9]⟩
  else none

/-- The first name is taken, another process takes the second, and the partial file
cannot be removed in the end. -/
def contested : List PublishChoice :=
  [⟨[], none⟩, ⟨[], none⟩, ⟨[], none⟩, ⟨[("/downloads/film (1).mp4", ⟨31, true, [8]⟩)], none⟩,
    ⟨[], none⟩, ⟨[], some .permissionDenied⟩]

def sampleDestination : DownloadDestination := ⟨"/downloads", some "film.mp4", .rename⟩

def contestedRun : Option (Except FinalizeError FinalizedDownload × Files) :=
  Program.finish (directorySurroundings sampleStaged)
    (finalizeDownload sampleStaged sampleDestination).run contested sampleFiles

end Gunda.Http
