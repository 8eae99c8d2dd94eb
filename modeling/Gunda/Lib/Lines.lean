import Mathlib.Data.List.Infix

/-!
# Texts in lines

Texts written one after another, a delimiter after each, and the cut a reader makes at
the first delimiter it meets.
-/
namespace Gunda.Lib.Lines

variable {α : Type}

/-- Every text with a delimiter behind it. -/
def frame (delimiter : α) (texts : List (List α)) : List α :=
  texts.flatMap fun text => text ++ [delimiter]

/-- The symbols up to the first delimiter, that one included, and what follows. -/
def cut [DecidableEq α] (delimiter : α) : List α → Option (List α × List α)
  | [] => none
  | symbol :: rest =>
      if symbol = delimiter then some ([symbol], rest)
      else (cut delimiter rest).map fun pieces => (symbol :: pieces.1, pieces.2)

variable {delimiter : α}

@[simp] theorem frame_nil : frame delimiter [] = [] := rfl

theorem frame_cons (text : List α) (texts : List (List α)) :
    frame delimiter (text :: texts) = text ++ delimiter :: frame delimiter texts := by
  simp [frame]

theorem eq_nil_of_frame {texts : List (List α)} (absent : delimiter ∉ frame delimiter texts) :
    texts = [] := by
  cases texts with
  | nil => rfl
  | cons text texts =>
    rw [frame_cons] at absent
    exact absurd (List.mem_append_right text List.mem_cons_self) absent

variable [DecidableEq α]

theorem cut_eq_some {symbols line rest : List α} (h : cut delimiter symbols = some (line, rest)) :
    ∃ text, line = text ++ [delimiter] ∧ delimiter ∉ text ∧ symbols = line ++ rest := by
  induction symbols generalizing line rest with
  | nil => cases h
  | cons symbol symbols ih =>
    simp only [cut] at h
    split at h
    · rename_i same
      cases h
      rw [same]
      exact ⟨[], rfl, List.not_mem_nil, rfl⟩
    · rename_i other
      obtain ⟨⟨line', rest'⟩, found, same⟩ := Option.map_eq_some_iff.mp h
      obtain ⟨text, ends, absent, whole⟩ := ih found
      cases same
      refine ⟨symbol :: text, by rw [ends]; rfl, ?_, by rw [whole]; rfl⟩
      intro member
      rcases List.mem_cons.mp member with here | later
      · exact other here.symm
      · exact absent later

theorem cut_eq_none {symbols : List α} (h : cut delimiter symbols = none) :
    delimiter ∉ symbols := by
  induction symbols with
  | nil => exact List.not_mem_nil
  | cons symbol symbols ih =>
    simp only [cut] at h
    split at h
    · cases h
    · rename_i other
      intro member
      rcases List.mem_cons.mp member with here | later
      · exact other here.symm
      · exact ih (Option.map_eq_none_iff.mp h) later

theorem cut_append {text rest : List α} (absent : delimiter ∉ text) :
    cut delimiter (text ++ delimiter :: rest) = some (text ++ [delimiter], rest) := by
  induction text with
  | nil => simp [cut]
  | cons symbol text ih =>
    have other : symbol ≠ delimiter := by
      intro same
      exact absent (by simp [same])
    have later := ih fun member => absent (List.mem_cons_of_mem _ member)
    simp [cut, other, later]

end Gunda.Lib.Lines
