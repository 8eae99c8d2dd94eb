import Gunda.Stream.Ts.AccessUnits

/-!
# Where access units begin

The rule of `VideoTrack::nal` read off the NAL units ahead, and grouping as cutting
at those that open a unit.
-/
namespace Gunda.Stream.Ts

open Gunda.Lib

variable {nals : List TimedNal}

/-- Whether a slice came since the last delimiter. -/
def sliceSinceDelimiter (before : List Bytes) : Bool :=
  (before.reverse.takeWhile (!isDelimiter ·)).any isSliceNal

/-- Whether a NAL unit is the first of its access unit, from those before it. -/
def opensUnit (before : List Bytes) (nal : Bytes) : Bool :=
  before.isEmpty || isDelimiter nal || isSliceNal nal && sliceSinceDelimiter before

theorem sliceSinceDelimiter_snoc (before : List Bytes) (nal : Bytes) :
    sliceSinceDelimiter (before ++ [nal]) =
      (!isDelimiter nal && (isSliceNal nal || sliceSinceDelimiter before)) := by
  unfold sliceSinceDelimiter
  rw [List.reverse_append, List.reverse_singleton, List.singleton_append, List.takeWhile_cons]
  cases isDelimiter nal <;> simp

theorem isSliceNal_of_delimiter {nal : Bytes} (delimiter : isDelimiter nal = true) :
    isSliceNal nal = false := by
  unfold isDelimiter at delimiter
  unfold isSliceNal
  rw [of_decide_eq_true delimiter]
  decide

/-- The unit left open ends the sequence, and holds what came since it was opened. -/
structure Pending (nals : List TimedNal) (current : AccessUnit) : Prop where
  empty : current = [] ↔ nals = []
  hasSlice : current.hasSlice = sliceSinceDelimiter (nals.map (·.nal))

theorem AccessUnit.hasSlice_snoc (unit : AccessUnit) (nal : TimedNal) :
    AccessUnit.hasSlice (unit ++ [nal]) = (unit.hasSlice || isSliceNal nal.nal) := by
  simp [AccessUnit.hasSlice, AccessUnit.nals]

theorem Pending.closes {current : AccessUnit} (pending : Pending nals current) (some_ : nals ≠ [])
    (nal : TimedNal) :
    (current ≠ [] ∧ current.closedBy nal.nal = true) ↔
      opensUnit (nals.map (·.nal)) nal.nal = true := by
  have some' : current ≠ [] := fun none => some_ (pending.empty.mp none)
  have notEmpty : (nals.map (·.nal)).isEmpty = false := by
    simpa using some_
  unfold AccessUnit.closedBy opensUnit
  rw [pending.hasSlice, notEmpty, Bool.false_or]
  exact and_iff_right some'

theorem assembleFrom_snoc (nals : List TimedNal) (nal : TimedNal) :
    assembleFrom [] (nals ++ [nal]) =
      ((assembleFrom [] nals).1 ++ (assembleFrom (assembleFrom [] nals).2 [nal]).1,
        (assembleFrom (assembleFrom [] nals).2 [nal]).2) :=
  assembleFrom_append [] nals [nal]

theorem assembleFrom_pending (nals : List TimedNal) : Pending nals (assembleFrom [] nals).2 := by
  induction nals using List.reverseRecOn with
  | nil => exact ⟨Iff.rfl, rfl⟩
  | append_singleton nals nal ih =>
    rw [assembleFrom_snoc]
    by_cases closes : (assembleFrom [] nals).2 ≠ [] ∧
        AccessUnit.closedBy (assembleFrom [] nals).2 nal.nal = true
    · rw [assembleFrom_close _ closes]
      refine ⟨by simp [assembleFrom], ?_⟩
      have slice : AccessUnit.hasSlice [nal] = isSliceNal nal.nal :=
        AccessUnit.hasSlice_snoc [] nal
      rw [assembleFrom, slice, List.map_append, List.map_singleton, sliceSinceDelimiter_snoc,
        ← ih.hasSlice]
      have closed := closes.2
      unfold AccessUnit.closedBy at closed
      cases delimiter : isDelimiter nal.nal with
      | true => exact isSliceNal_of_delimiter delimiter
      | false =>
        rw [delimiter, Bool.false_or, Bool.and_eq_true] at closed
        rw [closed.1, closed.2]
        rfl
    · rw [assembleFrom_keep _ closes]
      refine ⟨by simp [assembleFrom], ?_⟩
      rw [assembleFrom, AccessUnit.hasSlice_snoc, List.map_append, List.map_singleton,
        sliceSinceDelimiter_snoc, ← ih.hasSlice]
      cases delimiter : isDelimiter nal.nal with
      | true =>
        have none : (assembleFrom [] nals).2 = [] := by
          by_contra some_
          exact closes ⟨some_, by rw [AccessUnit.closedBy, delimiter, Bool.true_or]⟩
        rw [none, isSliceNal_of_delimiter delimiter]
        rfl
      | false => rw [Bool.or_comm]; rfl

/-! ## One NAL unit more -/

theorem assemble_opened {nal : TimedNal} (opens : opensUnit (nals.map (·.nal)) nal.nal = true) :
    assemble (nals ++ [nal]) = assemble nals ++ [[nal]] := by
  have pending := assembleFrom_pending nals
  unfold assemble
  rw [assembleFrom_snoc]
  by_cases none : nals = []
  · subst none
    rfl
  · have closes := (pending.closes none nal).mpr opens
    rw [assembleFrom_close _ closes]
    unfold openUnit
    rw [if_neg closes.1]
    simp [assembleFrom]

theorem assemble_kept {nal : TimedNal} (keeps : opensUnit (nals.map (·.nal)) nal.nal = false) :
    ∃ closed last, assemble nals = closed ++ [last] ∧
      assemble (nals ++ [nal]) = closed ++ [last ++ [nal]] := by
  have pending := assembleFrom_pending nals
  have some_ : nals ≠ [] := by
    rintro rfl
    cases keeps
  have notClosed : ¬ ((assembleFrom [] nals).2 ≠ [] ∧
      AccessUnit.closedBy (assembleFrom [] nals).2 nal.nal = true) := by
    rw [pending.closes some_ nal, keeps]
    exact Bool.false_ne_true
  have current : (assembleFrom [] nals).2 ≠ [] := fun none => some_ (pending.empty.mp none)
  refine ⟨(assembleFrom [] nals).1, (assembleFrom [] nals).2, ?_, ?_⟩
  · unfold assemble openUnit
    rw [if_neg current]
  · unfold assemble
    rw [assembleFrom_snoc, assembleFrom_keep _ notClosed]
    unfold openUnit
    simp [assembleFrom]

/-- How many NAL units the first access units hold. -/
def unitStart (units : List AccessUnit) (index : Nat) : Nat := (units.take index).flatten.length

theorem unitStart_append {units : List AccessUnit} {index : Nat} (inside : index ≤ units.length)
    (more : List AccessUnit) : unitStart (units ++ more) index = unitStart units index := by
  unfold unitStart
  rw [List.take_append_of_le_length inside]

theorem exists_unitStart_snoc (units : List AccessUnit) (unit : AccessUnit) (i : Nat) :
    (∃ index < (units ++ [unit]).length, unitStart (units ++ [unit]) index = i) ↔
      (∃ index < units.length, unitStart units index = i) ∨ units.flatten.length = i := by
  rw [List.length_append, List.length_singleton]
  have whole : unitStart units units.length = units.flatten.length := by
    rw [unitStart, List.take_length]
  constructor
  · intro ⟨index, inside, start⟩
    rw [unitStart_append (by omega)] at start
    by_cases last : index = units.length
    · rw [last, whole] at start
      exact .inr start
    · exact .inl ⟨index, by omega, start⟩
  · rintro (⟨index, inside, start⟩ | last)
    · exact ⟨index, by omega, (unitStart_append (by omega) _).trans start⟩
    · exact ⟨units.length, by omega, (unitStart_append (Nat.le_refl _) _).trans (whole.trans last)⟩

/-- Whether the NAL unit at a position opens an access unit. -/
def OpensAt (nals : List TimedNal) (i : Nat) : Prop :=
  ∃ nal, nals[i]? = some nal ∧ opensUnit ((nals.take i).map (·.nal)) nal.nal = true

theorem opensAt_snoc (nals : List TimedNal) (nal : TimedNal) (i : Nat) :
    OpensAt (nals ++ [nal]) i ↔
      OpensAt nals i ∨ nals.length = i ∧ opensUnit (nals.map (·.nal)) nal.nal = true := by
  unfold OpensAt
  rcases Nat.lt_trichotomy i nals.length with inside | last | beyond
  · rw [List.getElem?_append_left inside, List.take_append_of_le_length (by omega)]
    exact (or_iff_left fun other => by omega).symm
  · subst last
    rw [List.getElem?_concat_length, List.take_left]
    simp
  · simp only [List.getElem?_eq_none (show (nals ++ [nal]).length ≤ i by simp; omega),
      List.getElem?_eq_none (show nals.length ≤ i by omega), reduceCtorEq, false_and,
      exists_false, false_or, false_iff]
    omega

/-- The access units begin exactly where a NAL unit opens one. -/
theorem unitStart_iff (nals : List TimedNal) (i : Nat) :
    (∃ index < (assemble nals).length, unitStart (assemble nals) index = i) ↔ OpensAt nals i := by
  induction nals using List.reverseRecOn with
  | nil => simp [assemble, assembleFrom, openUnit, OpensAt]
  | append_singleton nals nal ih =>
    rw [opensAt_snoc, ← ih]
    cases opens : opensUnit (nals.map (·.nal)) nal.nal with
    | true =>
      rw [assemble_opened opens, exists_unitStart_snoc, assemble_flatten, and_iff_left rfl]
    | false =>
      obtain ⟨closed, last, before, after⟩ := assemble_kept opens
      rw [before, after, exists_unitStart_snoc, exists_unitStart_snoc]
      simp

end Gunda.Stream.Ts
