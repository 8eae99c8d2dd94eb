import Mathlib.Data.List.Basic

/-!
# Files that survive a crash in part

A file is what was written and how much of its front has been synchronized. A
crash keeps that front and leaves anything after it, or no file at all where
nothing was synchronized. `Retains` is what a reader may rely on later: a prefix
that no crash takes away.
-/
namespace Gunda.Lib

/-- Kinds of file-system errors a program tells apart. -/
inductive IoErrorKind where
  | notFound | permissionDenied | alreadyExists | invalidInput | storageFull | other
  deriving DecidableEq, Repr

structure DurableFile (α : Type) where
  content : List α
  stable : Nat
  within : stable ≤ content.length

namespace DurableFile

variable {α : Type}

def empty : DurableFile α := ⟨[], 0, Nat.le_refl 0⟩

def append (file : DurableFile α) (block : List α) : DurableFile α where
  content := file.content ++ block
  stable := file.stable
  within := by
    have within := file.within
    rw [List.length_append]
    omega

/-- Puts the block at the position, over what is there. -/
def writeAt (file : DurableFile α) (fill : α) (position : Nat) (block : List α) :
    DurableFile α where
  content := file.content.take position ++
    List.replicate (position - file.content.length) fill ++ block ++
    file.content.drop (position + block.length)
  stable := min file.stable position
  within := by
    have within := file.within
    simp only [List.length_append, List.length_take, List.length_replicate, List.length_drop]
    omega

/-- Cuts the file, or fills it up to the length. -/
def setLen (file : DurableFile α) (fill : α) (length : Nat) : DurableFile α where
  content := file.content.take length ++ List.replicate (length - file.content.length) fill
  stable := min file.stable length
  within := by
    have within := file.within
    rw [List.length_append, List.length_take, List.length_replicate]
    omega

def sync (file : DurableFile α) : DurableFile α :=
  ⟨file.content, file.content.length, Nat.le_refl _⟩

/-- Nothing but the synchronized front is left of the file's content. -/
def damage (file : DurableFile α) (rest : List α) : DurableFile α where
  content := file.content.take file.stable ++ rest
  stable := file.stable
  within := by
    have within := file.within
    rw [List.length_append, List.length_take]
    omega

/-- What a crash may leave of the file. -/
inductive Crash : Option (DurableFile α) → Option (DurableFile α) → Prop where
  | missing : Crash none none
  | lost {file : DurableFile α} (unsynced : file.stable = 0) : Crash (some file) none
  | damaged (file : DurableFile α) (rest : List α) : Crash (some file) (some (file.damage rest))

@[simp] theorem append_content (file : DurableFile α) (block : List α) :
    (file.append block).content = file.content ++ block := rfl

theorem setLen_content {file : DurableFile α} {fill : α} {length : Nat}
    (fits : length ≤ file.content.length) :
    (file.setLen fill length).content = file.content.take length := by
  simp [setLen, Nat.sub_eq_zero_of_le fits]

theorem writeAt_end (file : DurableFile α) (fill : α) (block : List α) :
    file.writeAt fill file.content.length block = file.append block := by
  simp [writeAt, append, file.within]

/-- The prefix is synchronized; a file that is missing keeps the empty one. -/
def Retains (file : Option (DurableFile α)) (front : List α) : Prop :=
  front = [] ∨ ∃ present ∈ file, front.length ≤ present.stable ∧ front <+: present.content

theorem retains_nil (file : Option (DurableFile α)) : Retains file [] := Or.inl rfl

section Retains

variable {file : DurableFile α} {front : List α}

theorem Retains.some (within : front.length ≤ file.stable) (leads : front <+: file.content) :
    Retains (some file) front :=
  Or.inr ⟨file, rfl, within, leads⟩

section

variable (kept : Retains (Option.some file) front)
include kept

theorem Retains.cases :
    front = [] ∨ front.length ≤ file.stable ∧ front <+: file.content := by
  cases kept with
  | inl nothing => exact .inl nothing
  | inr found =>
    obtain ⟨present, same, within, leads⟩ := found
    cases same
    exact .inr ⟨within, leads⟩

theorem Retains.leads : front <+: file.content := by
  cases kept.cases with
  | inl nothing =>
    rw [nothing]
    exact List.nil_prefix
  | inr found => exact found.2

theorem Retains.append (block : List α) :
    Retains (Option.some (file.append block)) front := by
  cases kept.cases with
  | inl nothing => exact .inl nothing
  | inr found => exact Retains.some found.1 (found.2.trans (List.prefix_append _ _))

theorem Retains.setLen (fill : α) {length : Nat}
    (beyond : front.length ≤ length) : Retains (Option.some (file.setLen fill length)) front := by
  cases kept.cases with
  | inl nothing => exact .inl nothing
  | inr found =>
    have cut : front <+: file.content.take length :=
      List.prefix_take_iff.mpr ⟨found.2, beyond⟩
    exact Retains.some (Nat.le_min.mpr ⟨found.1, beyond⟩) (cut.trans (List.prefix_append _ _))

theorem Retains.sync :
    Retains (Option.some file.sync) front :=
  Retains.some kept.leads.length_le kept.leads

omit kept in
/-- Whatever leads the content is kept once the file is synchronized. -/
theorem retains_sync (leads : front <+: file.content) : Retains (Option.some file.sync) front :=
  Retains.some leads.length_le leads

theorem Retains.damage (rest : List α) :
    Retains (Option.some (file.damage rest)) front := by
  cases kept.cases with
  | inl nothing => exact .inl nothing
  | inr found =>
    have front_stable : front <+: file.content.take file.stable :=
      List.prefix_take_iff.mpr ⟨found.2, found.1⟩
    exact Retains.some found.1 (front_stable.trans (List.prefix_append _ _))

end

/-- No crash takes a kept prefix away. -/
theorem Retains.crash {before after : Option (DurableFile α)} (kept : Retains before front)
    (crashed : Crash before after) : Retains after front := by
  cases crashed with
  | missing => exact kept
  | lost unsynced =>
    cases kept.cases with
    | inl nothing => exact .inl nothing
    | inr found =>
      have none_kept : front.length = 0 := by omega
      exact .inl (List.length_eq_zero_iff.mp none_kept)
  | damaged present rest => exact kept.damage rest

end Retains

end DurableFile

end Gunda.Lib
