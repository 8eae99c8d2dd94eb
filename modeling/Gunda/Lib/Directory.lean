import Mathlib.Data.Option.Basic

/-!
# Names and the files under them

A directory maps names to files. New names are created or linked only where nothing
is, a rename takes the place of what is there. `Extends` is what a directory shared
with others keeps while they only create.
-/
namespace Gunda.Lib

abbrev Directory (Name File : Type) : Type := Name → Option File

namespace Directory

variable {Name File : Type}

/-- Everything that was there still is, unchanged. -/
def Extends (before after : Directory Name File) : Prop :=
  ∀ name file, before name = some file → after name = some file

theorem Extends.refl (directory : Directory Name File) : Extends directory directory :=
  fun _ _ found => found

theorem Extends.trans {first second third : Directory Name File} (h : Extends first second)
    (h' : Extends second third) : Extends first third :=
  fun name file found => h' name file (h name file found)

/-- A name that is free now was free before. -/
theorem Extends.absent {before after : Directory Name File} (h : Extends before after) {name : Name}
    (free : after name = none) : before name = none := by
  cases found : before name with
  | none => rfl
  | some file =>
    rw [h name file found] at free
    cases free

variable [DecidableEq Name]

def put (directory : Directory Name File) (name : Name) (file : File) : Directory Name File :=
  fun other => if other = name then some file else directory other

/-- Creates a file unless something is there. -/
def createNew (directory : Directory Name File) (created : Name × File) : Directory Name File :=
  if (directory created.1).isNone then directory.put created.1 created.2 else directory

def createAll (directory : Directory Name File) (created : List (Name × File)) :
    Directory Name File := created.foldl createNew directory

/-- A second name for a file, where nothing is. -/
def link (directory : Directory Name File) (source target : Name) : Option (Directory Name File) :=
  match directory target, directory source with
  | none, some file => some (directory.put target file)
  | _, _ => none

/-- The file takes the other name, from whatever was there. -/
def rename (directory : Directory Name File) (source target : Name) :
    Option (Directory Name File) :=
  (directory source).map fun file other =>
    if other = target then some file else if other = source then none else directory other

def remove (directory : Directory Name File) (name : Name) : Option (Directory Name File) :=
  (directory name).map fun _ other => if other = name then none else directory other

variable {directory after : Directory Name File} {source target name : Name} {file : File}

theorem extends_put (free : directory name = none) : Extends directory (directory.put name file) := by
  intro other kept found
  unfold put
  split
  · rename_i same
    rw [same, free] at found
    cases found
  · exact found

theorem extends_createNew (created : Name × File) :
    Extends directory (directory.createNew created) := by
  unfold createNew
  split
  · rename_i free
    exact extends_put (Option.isNone_iff_eq_none.mp free)
  · exact Extends.refl directory

theorem extends_createAll (created : List (Name × File)) :
    Extends directory (directory.createAll created) := by
  induction created generalizing directory with
  | nil => exact Extends.refl directory
  | cons first rest ih => exact (extends_createNew first).trans ih

section

variable (h : directory.link source target = some after)
include h

theorem link_some :
    ∃ file, directory source = some file ∧ directory target = none ∧
      after = directory.put target file := by
  unfold link at h
  split at h
  · rename_i file free found
    cases h
    exact ⟨file, found, free, rfl⟩
  · cases h

theorem extends_link : Extends directory after := by
  obtain ⟨file, -, free, rfl⟩ := link_some h
  exact extends_put free

theorem link_target :
    after target = directory source := by
  obtain ⟨file, found, -, rfl⟩ := link_some h
  rw [found]
  exact if_pos rfl

end

theorem rename_target (h : directory.rename source target = some after) :
    after target = directory source := by
  obtain ⟨file, found, rfl⟩ := Option.map_eq_some_iff.mp h
  rw [found]
  exact if_pos rfl

theorem rename_other (h : directory.rename source target = some after) (notSource : name ≠ source)
    (notTarget : name ≠ target) : after name = directory name := by
  obtain ⟨file, -, rfl⟩ := Option.map_eq_some_iff.mp h
  dsimp only
  rw [if_neg notTarget, if_neg notSource]

theorem remove_other (h : directory.remove source = some after) (notSource : name ≠ source) :
    after name = directory name := by
  obtain ⟨file, -, rfl⟩ := Option.map_eq_some_iff.mp h
  exact if_neg notSource

end Directory

end Gunda.Lib
