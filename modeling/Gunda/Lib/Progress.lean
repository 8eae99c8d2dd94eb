import Mathlib.Data.List.Basic

/-!
# Reported progress

The counts a transfer has reported, newest first: none is below where it began, and
they never decrease.
-/
namespace Gunda.Lib

structure Rising (least : Nat) (reports : List Nat) : Prop where
  bounded : ∀ count ∈ reports, least ≤ count
  sorted : reports.Pairwise (· ≥ ·)

/-- The last count, or the first one there could be. -/
def latest (least : Nat) (reports : List Nat) : Nat := reports.headD least

variable {least count : Nat} {reports : List Nat}

theorem Rising.nil (least : Nat) : Rising least [] :=
  ⟨fun _ member => absurd member List.not_mem_nil, List.Pairwise.nil⟩

theorem Rising.report (rising : Rising least reports) (above : latest least reports ≤ count) :
    Rising least (count :: reports) := by
  cases reports with
  | nil =>
    refine ⟨fun other member => ?_, List.pairwise_singleton _ _⟩
    rw [List.mem_singleton.mp member]
    exact above
  | cons newest older =>
    have newest_above : newest ≤ count := above
    have newest_bounded := rising.bounded newest List.mem_cons_self
    have older_below := (List.pairwise_cons.mp rising.sorted).1
    constructor
    · intro other member
      cases List.mem_cons.mp member with
      | inl same => omega
      | inr earlier => exact rising.bounded other earlier
    · refine List.pairwise_cons.mpr ⟨fun other member => ?_, rising.sorted⟩
      cases List.mem_cons.mp member with
      | inl same => omega
      | inr earlier =>
        have below := older_below other earlier
        omega

end Gunda.Lib
