import Gunda.Http.Titles
import Gunda.Stream.Container

/-!
# Names of outputs

`output_filename` of `gunda-stream/src/executor.rs`, and the extensions a name can take.
-/
namespace Gunda.Stream

open Gunda.Lib Gunda.Lib.Text
open Gunda.Core (Url)
open Gunda.Http

/-! ## Paths -/

/-- The last component of a path, unless it is the root or leads elsewhere. -/
def fileName (path : Text) : Option Text :=
  (components path).getLast?.filter fun part =>
    part ≠ ['/'] && part ≠ ['.'] && part ≠ ['.', '.']

def pathExtension (path : Text) : Option Text := (fileName path).bind extension?

/-- A file's name without its extension. -/
def fileStem (file : Text) : Text :=
  match rsplitOnce '.' file with
  | some (stem, _) => if stem = [] then file else stem
  | none => file

/-- The name is one component, as it was validated. -/
def replaceExtension (name : Text) (container : Option Container) : Text :=
  match fileName name with
  | some file => fileStem file ++ '.' :: container.elim "bin".toList Container.extension
  | none => name

def outputFilename (urls : Http.UrlLibrary) (manifestUrl : Url) (container : Option Container) :
    Option String := do
  let name ← urlFilename urls manifestUrl
  pure (String.ofList (replaceExtension name.toList container))

theorem fileName_clean {name : Text} (clean : Clean name) : fileName name = some name := by
  have root : name ≠ ['/'] := fun same => clean.separators (same ▸ .head _)
  unfold fileName
  rw [clean.component]
  simp only [List.getLast?_singleton, Option.filter_some, ne_eq, root, clean.dot, clean.dots,
    not_false_eq_true, decide_true, Bool.and_self, if_true]

/-! ## Extensions -/

theorem clean_extended {stem rest extension : Text} (filled : stem ≠ [])
    (plain : ∀ c ∈ stem, isControl c = false ∧ isForbidden c = false)
    (unstaged : ¬ ".GUNDA-".toList <+: toAsciiUppercase (stem ++ rest))
    (device : deviceBase stem ∉ devices) (suffix : Suffix extension) :
    Clean (stem ++ '.' :: extension) := by
  have ended : (stem ++ '.' :: extension).getLast? = extension.getLast? := by
    obtain ⟨c, last, -⟩ := suffix.last
    rw [List.getLast?_append, List.getLast?_cons, last]
    rfl
  obtain ⟨c, last, outer⟩ := suffix.last
  obtain ⟨space, dot⟩ := not_outer_ne outer
  have length : 2 < (stem ++ '.' :: extension).length := by
    have some_stem := List.length_pos_of_ne_nil filled
    have some_extension : extension ≠ [] := by
      intro none
      rw [none] at last
      cases last
    have := List.length_pos_of_ne_nil some_extension
    rw [List.length_append, List.length_cons]
    omega
  exact {
    filled := List.append_ne_nil_of_left_ne_nil filled _
    dot := fun same => by
      rw [same] at length
      exact absurd length (by decide)
    dots := fun same => by
      rw [same] at length
      exact absurd length (by decide)
    ended := by
      rw [ended, last]
      exact ⟨fun same => space (Option.some.inj same), fun same => dot (Option.some.inj same)⟩
    plain := fun d member => (List.mem_append.mp member).elim (plain d) fun member =>
      (List.mem_cons.mp member).elim (fun same => same ▸ by decide) (suffix.plain d)
    unstaged := unstaged_insert filled (by decide) unstaged
    device := by
      rw [deviceBase_dot]
      exact device }

/-- An extension can be added to a name exactly if it may stand at its end. -/
theorem clean_extended_iff {stem extension : Text} (clean : Clean stem) :
    Clean (stem ++ '.' :: extension) ↔ Suffix extension := by
  constructor
  · intro extended
    refine ⟨fun c member => extended.plain c (List.mem_append_right _ (.tail _ member)), ?_⟩
    have ended := extended.ended
    rw [List.getLast?_append, List.getLast?_cons] at ended
    cases last : extension.getLast? with
    | none =>
      rw [last] at ended
      exact absurd rfl ended.2
    | some c =>
      rw [last] at ended
      refine ⟨c, rfl, Bool.eq_false_iff.mpr fun outer => ?_⟩
      have either : c = ' ' ∨ c = '.' := by simpa [isOuter] using outer
      cases either with
      | inl same => exact ended.1 (same ▸ rfl)
      | inr same => exact ended.2 (same ▸ rfl)
  · intro suffix
    refine @clean_extended stem [] extension clean.filled clean.plain ?_ clean.device suffix
    rw [List.append_nil]
    exact clean.unstaged

theorem clean_fileStem {name extension : Text} (clean : Clean name) (suffix : Suffix extension) :
    Clean (fileStem name ++ '.' :: extension) := by
  unfold fileStem
  cases split : rsplitOnce '.' name with
  | none => exact (clean_extended_iff clean).mpr suffix
  | some parts =>
    obtain ⟨stem, old⟩ := parts
    dsimp only
    by_cases empty : stem = []
    · rw [if_pos empty]
      exact (clean_extended_iff clean).mpr suffix
    · rw [if_neg empty]
      have whole := (rsplitOnce_eq_some split).1
      have device := clean.device
      rw [whole, deviceBase_dot] at device
      refine clean_extended empty (fun c member => ?_) (whole ▸ clean.unstaged) device suffix
      exact clean.plain c (whole ▸ List.mem_append_left _ member)

theorem byteLength_extended (stem extension : Text) :
    byteLength (stem ++ '.' :: extension) = byteLength stem + 1 + byteLength extension := by
  have dot : '.'.utf8Size = 1 := rfl
  rw [byteLength_append, byteLength_cons, dot, Nat.add_assoc]

theorem suffix_container (container : Option Container) :
    Suffix (container.elim "bin".toList Container.extension) := by
  have usable : isUsable (container.elim "bin".toList Container.extension) = true := by
    cases container with
    | none => decide
    | some container => cases container <;> decide
  exact (suffix_of_isUsable usable).1

/-- What a stream is published under is valid unless the extension makes it too long. -/
theorem outputFilename_valid_iff (urls : Http.UrlLibrary) (manifestUrl : Url)
    (container : Option Container) :
    (∀ name ∈ outputFilename urls manifestUrl container, validateFilename name = .ok ()) ↔
      ∀ name ∈ urlFilename urls manifestUrl, byteLength (fileStem name.toList) + 1 +
        byteLength (container.elim "bin".toList Container.extension) ≤ 200 := by
  unfold outputFilename
  cases named : urlFilename urls manifestUrl with
  | none => exact iff_of_true (fun _ none => (nomatch none)) (fun _ none => (nomatch none))
  | some name =>
    have clean := (urlFilename_clean named).1
    have suffix := suffix_container container
    simp only [Option.bind_eq_bind, Option.bind_some, Option.pure_def, Option.mem_some_iff,
      forall_eq']
    rw [validateFilename_ok_iff, String.toList_ofList, replaceExtension, fileName_clean clean,
      byteLength_extended]
    exact and_iff_right (clean_fileStem clean suffix)

end Gunda.Stream
