import Mathlib.Order.Lattice
import Mathlib.Data.List.Basic

/-!
# Selecting by a key

The last element of a list with the greatest key, the first with the least, and the
index of the last greatest.
-/
namespace Gunda.Lib

variable {α κ : Type} [LinearOrder κ]

def maxByKey (key : α → κ) : List α → Option α
  | [] => none
  | first :: rest =>
      match maxByKey key rest with
      | none => some first
      | some best => if key first ≤ key best then some best else some first

def minByKey (key : α → κ) : List α → Option α
  | [] => none
  | first :: rest =>
      match minByKey key rest with
      | none => some first
      | some best => if key first ≤ key best then some first else some best

/-- The index of the last qualifying element with the greatest key. -/
def lastMaxIndex (qualifies : α → Bool) (key : α → κ) (list : List α) : Option Nat :=
  (maxByKey (fun entry => key entry.1) (list.zipIdx.filter fun entry => qualifies entry.1)).map
    (·.2)

/-- The element at the index qualifies, no qualifying element has a greater key,
and every later one has a smaller key. -/
def IsLastMax (qualifies : α → Bool) (key : α → κ) (list : List α) (index : Nat) : Prop :=
  ∃ best, list[index]? = some best ∧ qualifies best = true ∧
    ∀ other element, list[other]? = some element → qualifies element = true →
      key element ≤ key best ∧ (index < other → key element < key best)

variable {key : α → κ} {list : List α}

theorem maxByKey_mem {best : α} (h : maxByKey key list = some best) : best ∈ list := by
  induction list with
  | nil => cases h
  | cons first rest ih =>
    unfold maxByKey at h
    split at h
    · cases h
      exact List.mem_cons_self
    · rename_i later found
      split at h
      · cases h
        exact List.mem_cons_of_mem _ (ih found)
      · cases h
        exact List.mem_cons_self

theorem maxByKey_eq_none :
    maxByKey key list = none ↔ list = [] := by
  constructor
  · intro h
    cases list with
    | nil => rfl
    | cons first rest =>
      unfold maxByKey at h
      split at h
      · cases h
      · split at h <;> cases h
  · rintro rfl
    rfl

variable {qualifies : α → Bool}

/-- The indexed search finds the last greatest element from the offset on. -/
theorem maxByKey_zipIdx {offset : Nat} {found : α × Nat} (h : maxByKey (fun entry => key entry.1)
      ((list.zipIdx offset).filter fun entry => qualifies entry.1) = some found) :
    ∃ index, found.2 = offset + index ∧ list[index]? = some found.1 ∧
      qualifies found.1 = true ∧
      ∀ other element, list[other]? = some element → qualifies element = true →
        key element ≤ key found.1 ∧ (index < other → key element < key found.1) := by
  induction list generalizing offset found with
  | nil => cases h
  | cons first rest ih =>
    rw [List.zipIdx_cons, List.filter_cons] at h
    by_cases qualified : qualifies first = true
    · simp only [qualified, if_true] at h
      unfold maxByKey at h
      split at h
      · rename_i alone
        cases h
        rw [maxByKey_eq_none] at alone
        refine ⟨0, rfl, rfl, qualified, ?_⟩
        rintro (_ | other) element at_ candidate
        · cases at_
          exact ⟨le_refl _, fun later => absurd later (Nat.lt_irrefl 0)⟩
        · rw [List.filter_eq_nil_iff] at alone
          have present : (element, offset + 1 + other) ∈ rest.zipIdx (offset + 1) := by
            rw [List.mem_zipIdx_iff_le_and_getElem?_sub]
            exact ⟨by omega, by rw [show offset + 1 + other - (offset + 1) = other by omega]; exact at_⟩
          exact absurd candidate (alone _ present)
      · rename_i later searched
        obtain ⟨index, position, at_, good, greatest⟩ := ih searched
        split at h
        · rename_i below
          cases h
          refine ⟨index + 1, by omega, at_, good, ?_⟩
          rintro (_ | other) element member candidate
          · cases member
            exact ⟨below, fun less => absurd less (Nat.not_lt_zero _)⟩
          · obtain ⟨bound, strict⟩ := greatest other element member candidate
            exact ⟨bound, fun less => strict (Nat.lt_of_succ_lt_succ less)⟩
        · rename_i above
          cases h
          refine ⟨0, rfl, rfl, qualified, ?_⟩
          rintro (_ | other) element member candidate
          · cases member
            exact ⟨le_refl _, fun less => absurd less (Nat.lt_irrefl 0)⟩
          · have bound := (greatest other element member candidate).1
            have strict := lt_of_le_of_lt bound (lt_of_not_ge above)
            exact ⟨le_of_lt strict, fun _ => strict⟩
    · simp only [qualified, Bool.false_eq_true, if_false] at h
      obtain ⟨index, position, at_, good, greatest⟩ := ih h
      refine ⟨index + 1, by omega, at_, good, ?_⟩
      rintro (_ | other) element member candidate
      · cases member
        exact absurd candidate qualified
      · obtain ⟨bound, strict⟩ := greatest other element member candidate
        exact ⟨bound, fun less => strict (Nat.lt_of_succ_lt_succ less)⟩

theorem lastMaxIndex_isLastMax {index : Nat} (h : lastMaxIndex qualifies key list = some index) :
    IsLastMax qualifies key list index := by
  obtain ⟨found, searched, rfl⟩ := Option.map_eq_some_iff.mp h
  obtain ⟨index, position, at_, good, greatest⟩ := maxByKey_zipIdx searched
  rw [position, Nat.zero_add]
  exact ⟨found.1, at_, good, greatest⟩

/-- There is only one such index. -/
theorem IsLastMax.unique {i j : Nat} (first : IsLastMax qualifies key list i)
    (second : IsLastMax qualifies key list j) : i = j := by
  obtain ⟨a, atI, goodI, greatestI⟩ := first
  obtain ⟨b, atJ, goodJ, greatestJ⟩ := second
  rcases Nat.lt_trichotomy i j with less | same | more
  · have below := (greatestI j b atJ goodJ).2 less
    exact absurd (lt_of_lt_of_le below (greatestJ i a atI goodI).1) (lt_irrefl _)
  · exact same
  · have below := (greatestJ i a atI goodI).2 more
    exact absurd (lt_of_lt_of_le below (greatestI j b atJ goodJ).1) (lt_irrefl _)

/-- The search finds an index exactly where there is one to find. -/
theorem lastMaxIndex_eq_some_iff {index : Nat} :
    lastMaxIndex qualifies key list = some index ↔ IsLastMax qualifies key list index := by
  refine ⟨lastMaxIndex_isLastMax, fun greatest => ?_⟩
  cases searched : lastMaxIndex qualifies key list with
  | some other => rw [(lastMaxIndex_isLastMax searched).unique greatest]
  | none =>
    obtain ⟨best, at_, good, _⟩ := greatest
    have nothing := maxByKey_eq_none.mp (Option.map_eq_none_iff.mp searched)
    rw [List.filter_eq_nil_iff] at nothing
    have present : (best, index) ∈ list.zipIdx := List.mem_zipIdx_iff_getElem?.mpr at_
    exact absurd good (nothing _ present)

theorem lastMaxIndex_eq_none_iff :
    lastMaxIndex qualifies key list = none ↔ ∀ element ∈ list, qualifies element = false := by
  unfold lastMaxIndex
  rw [Option.map_eq_none_iff, maxByKey_eq_none, List.filter_eq_nil_iff]
  constructor
  · intro nothing element member
    obtain ⟨index, at_⟩ := List.mem_iff_getElem?.mp member
    exact Bool.eq_false_iff.mpr (nothing (element, index) (List.mem_zipIdx_iff_getElem?.mpr at_))
  · rintro nothing ⟨element, index⟩ member
    have present := List.mem_of_getElem? (List.mem_zipIdx_iff_getElem?.mp member)
    rw [nothing element present]
    exact Bool.false_ne_true

/-! ## Parts of mapped lists -/

section

variable {α β : Type} {f : α → Option β}

theorem toList_append_sublist (first : α) (rest : List α)
    {added : List β} (sub : added.Sublist (rest.filterMap f)) :
    ((f first).toList ++ added).Sublist ((first :: rest).filterMap f) := by
  cases image : f first with
  | none =>
    rw [List.filterMap_cons_none image]
    exact sub
  | some value =>
    rw [List.filterMap_cons_some image]
    exact sub.cons_cons value

/-- Dropping some of the images leaves a sublist of them all. -/
theorem filterMap_sublist_map {g : α → β} {list : List α}
    (images : ∀ a ∈ list, f a = none ∨ f a = some (g a)) :
    (list.filterMap f).Sublist (list.map g) := by
  induction list with
  | nil => exact List.Sublist.refl _
  | cons first list ih =>
    have rest := ih fun other member => images other (List.mem_cons_of_mem _ member)
    rcases images first List.mem_cons_self with dropped | kept
    · rw [List.filterMap_cons_none dropped]
      exact rest.cons _
    · rw [List.filterMap_cons_some kept]
      exact rest.cons_cons _

end

end Gunda.Lib
