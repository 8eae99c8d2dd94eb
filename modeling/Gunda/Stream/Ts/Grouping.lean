import Gunda.Stream.Ts.Multiplex
import Gunda.Stream.Ts.Openings

/-!
# Whether a sample is a picture

The access units `VideoTrack::nal` makes of NAL units, against the coded pictures these
hold.
-/
namespace Gunda.Stream.Ts

open Gunda.Lib

variable {nals sample before : List Bytes}

/-- A slice whose first macroblock is the first of its picture. -/
def startsPicture (nal : Bytes) : Bool :=
  (kindOf nal = 1 || kindOf nal = 2 || kindOf nal = 5) && byteAt nal 1 &&& 0x80 ≠ 0

/-- A delimiter, SEI or parameter set. -/
def isHeader (nal : Bytes) : Bool := [6, 7, 8, 9, 13, 15].contains (kindOf nal)

/-- The NAL units behind the last slice. -/
def behindSlices (nals : List Bytes) : List Bytes := nals.reverse.takeWhile (!isSliceNal ·)

/-- Every sample holds one picture, and what leads a picture in is with it. -/
structure PicturesGrouped (samples : List (List Bytes)) : Prop where
  covered : ∀ sample ∈ samples, sample.any isSliceNal = true
  single : ∀ sample ∈ samples, ∀ before slice after, sample = before ++ slice :: after →
    isSliceNal slice = true → before.any isSliceNal = true → startsPicture slice = false
  whole : ∀ earlier sample later before slice after, samples = earlier ++ sample :: later →
    sample = before ++ slice :: after → isSliceNal slice = true →
    before.any isSliceNal = false → earlier.flatten.any isSliceNal = true →
    startsPicture slice = true
  headers : ∀ sample ∈ samples.dropLast, (behindSlices sample).any isHeader = false

/-- The sequences whose slices are pictures of their own, with a slice between any two
delimiters and the headers in front of a picture behind its delimiter. -/
structure Groupable (nals : List Bytes) : Prop where
  starts : ∀ before slice after, nals = before ++ slice :: after → isSliceNal slice = true →
    before.any isSliceNal = true → startsPicture slice = true
  covered : nals ≠ [] → sliceSinceDelimiter nals = true
  opened : ∀ before nal after, nals = before ++ nal :: after → before ≠ [] →
    opensUnit before nal = true →
    sliceSinceDelimiter before = true ∧ (behindSlices before).any isHeader = false

/-! ## What the track emits -/

/-- The access units a new track completes, flushed at the end. -/
def emit (nals : List Bytes) : List CompletedUnit :=
  let run := nals.foldl (fun (state : VideoTrack × List CompletedUnit) nal =>
    state.1.nal nal state.2) (.default, [])
  (run.1.flush run.2).2

/-- NAL units without times. -/
def plain (nals : List Bytes) : List TimedNal := nals.map (⟨·, none, none⟩)

theorem foldl_assembles (some_ : ∀ nal ∈ nals, nal ≠ [])
    (small : ∀ nal ∈ nals, nal.length < 2 ^ 32) {track : VideoTrack} {current : AccessUnit}
    (assembles : Assembles track current) (pts : track.pts = none) (dts : track.dts = none)
    (complete : List CompletedUnit) :
    ∃ next, nals.foldl (fun (state : VideoTrack × List CompletedUnit) nal =>
        state.1.nal nal state.2) (track, complete) =
          (next, complete ++ (assembleFrom current (plain nals)).1.map AccessUnit.completed) ∧
      Assembles next (assembleFrom current (plain nals)).2 := by
  induction nals generalizing track current complete with
  | nil => exact ⟨track, by simp [plain, assembleFrom], assembles⟩
  | cons nal nals ih =>
    obtain ⟨middle, added, assembled, same⟩ := nal_assembles assembles
      (some_ nal List.mem_cons_self) (small nal List.mem_cons_self) complete
    rw [pts, dts] at added assembled
    obtain ⟨next, run, final⟩ := ih (fun other member => some_ other (List.mem_cons_of_mem _ member))
      (fun other member => small other (List.mem_cons_of_mem _ member)) assembled
      (same.pts.trans pts) (same.dts.trans dts)
      (complete ++ (assembleFrom current [⟨nal, none, none⟩]).1.map AccessUnit.completed)
    have split : plain (nal :: nals) = [⟨nal, none, none⟩] ++ plain nals := rfl
    refine ⟨next, ?_, ?_⟩
    · rw [split, assembleFrom_append, List.map_append, ← List.append_assoc, List.foldl_cons, added]
      exact run
    · rw [split, assembleFrom_append]
      exact final

/-- The samples, as the NAL units in them. -/
def samplesOf (nals : List Bytes) : List (List Bytes) :=
  (assemble (plain nals)).map AccessUnit.nals

theorem emit_read (some_ : ∀ nal ∈ nals, nal ≠ []) (small : ∀ nal ∈ nals, nal.length < 2 ^ 32) :
    (emit nals).map (fun unit => Bytes.readPrefixed unit.data) = (samplesOf nals).map some := by
  obtain ⟨track, run, assembles⟩ := foldl_assembles some_ small .start rfl rfl []
  obtain ⟨flushed, flush, _⟩ := flush_assembles assembles
    ([] ++ (assembleFrom [] (plain nals)).1.map AccessUnit.completed)
  unfold emit
  dsimp only
  rw [run, flush, List.nil_append, ← List.map_append, samplesOf, List.map_map, List.map_map]
  refine List.map_congr_left fun unit member => ?_
  refine Bytes.readPrefixed_flatMap fun nal inside => ?_
  obtain ⟨timed, present, rfl⟩ := List.mem_map.mp inside
  have carried : timed ∈ plain nals := by
    rw [← assemble_flatten (plain nals)]
    exact List.mem_flatten.mpr ⟨unit, member, present⟩
  obtain ⟨own, ownMember, rfl⟩ := List.mem_map.mp carried
  exact small own ownMember

/-! ## The samples, one NAL unit more at a time -/

theorem plain_nals (nals : List Bytes) : (plain nals).map (·.nal) = nals := by
  unfold plain
  rw [List.map_map]
  exact List.map_id nals

theorem plain_snoc (nals : List Bytes) (nal : Bytes) :
    plain (nals ++ [nal]) = plain nals ++ [⟨nal, none, none⟩] := by
  simp [plain]

theorem samplesOf_flatten (nals : List Bytes) : (samplesOf nals).flatten = nals := by
  have flat : (samplesOf nals).flatten = (assemble (plain nals)).flatten.map (·.nal) := by
    rw [List.map_flatten]
    rfl
  rw [flat, assemble_flatten, plain_nals]

theorem samplesOf_opened {nal : Bytes} (opens : opensUnit nals nal = true) :
    samplesOf (nals ++ [nal]) = samplesOf nals ++ [[nal]] := by
  unfold samplesOf
  rw [plain_snoc, assemble_opened (by rw [plain_nals]; exact opens), List.map_append]
  rfl

theorem samplesOf_kept {nal : Bytes} (keeps : opensUnit nals nal = false) :
    ∃ closed last, samplesOf nals = closed ++ [last] ∧
      samplesOf (nals ++ [nal]) = closed ++ [last ++ [nal]] := by
  have bare : opensUnit ((plain nals).map (·.nal)) (TimedNal.mk nal none none).nal = false := by
    rw [plain_nals]
    exact keeps
  obtain ⟨closed, last, before, after⟩ := assemble_kept bare
  refine ⟨closed.map AccessUnit.nals, AccessUnit.nals last, ?_, ?_⟩
  · rw [samplesOf, before, List.map_append]
    rfl
  · rw [samplesOf, plain_snoc, after, List.map_append]
    simp [AccessUnit.nals]

/-- The last sample has a slice exactly if one came since the last delimiter. -/
theorem samplesOf_last (some_ : nals ≠ []) :
    ∃ closed last, samplesOf nals = closed ++ [last] ∧
      last.any isSliceNal = sliceSinceDelimiter nals := by
  have pending := assembleFrom_pending (plain nals)
  have current : (assembleFrom [] (plain nals)).2 ≠ [] := by
    intro none
    have empty := pending.empty.mp none
    exact some_ (List.map_eq_nil_iff.mp empty)
  refine ⟨(assembleFrom [] (plain nals)).1.map AccessUnit.nals,
    (assembleFrom [] (plain nals)).2.nals, ?_, ?_⟩
  · unfold samplesOf assemble openUnit
    rw [if_neg current, List.map_append]
    rfl
  · have hasSlice := pending.hasSlice
    rw [plain_nals] at hasSlice
    exact hasSlice

/-- No sample has two slices. -/
theorem samplesOf_slices (nals : List Bytes) :
    ∀ sample ∈ samplesOf nals, sample.countP isSliceNal ≤ 1 := by
  induction nals using List.reverseRecOn with
  | nil => exact fun sample member => absurd member List.not_mem_nil
  | append_singleton nals nal ih =>
    intro sample member
    cases opens : opensUnit nals nal with
    | true =>
      rw [samplesOf_opened opens] at member
      rcases List.mem_append.mp member with earlier | last
      · exact ih sample earlier
      · rw [List.mem_singleton.mp last]
        exact List.countP_le_length
    | false =>
      obtain ⟨closed, last, before, after⟩ := samplesOf_kept opens
      rw [after] at member
      rw [before] at ih
      rcases List.mem_append.mp member with earlier | grown
      · exact ih sample (List.mem_append_left _ earlier)
      · rw [List.mem_singleton.mp grown, List.countP_append]
        have one := ih last (by simp)
        cases slice : isSliceNal nal with
        | false => simpa [slice] using one
        | true =>
          have some_ : nals ≠ [] := by
            rintro rfl
            cases opens
          obtain ⟨closed', last', shape, hasSlice⟩ := samplesOf_last some_
          rw [before] at shape
          obtain ⟨_, same⟩ := List.append_inj' shape rfl
          cases same
          have noSlice : last.any isSliceNal = false := by
            rw [hasSlice]
            unfold opensUnit at opens
            simp only [slice, Bool.true_and, Bool.or_eq_false_iff] at opens
            exact opens.2
          have none : last.countP isSliceNal = 0 := by
            rw [List.countP_eq_zero]
            intro other inside
            simpa using List.any_eq_false.mp noSlice other inside
          rw [none, Nat.zero_add]
          exact List.countP_le_length

/-- A sample is closed where the next NAL unit opens one. -/
theorem samplesOf_closed :
    sample ∈ (samplesOf nals).dropLast ↔ ∃ before nal after, nals = before ++ nal :: after ∧
      before ≠ [] ∧ opensUnit before nal = true ∧ (samplesOf before).getLast? = some sample := by
  induction nals using List.reverseRecOn with
  | nil => simp [samplesOf, assemble, assembleFrom, openUnit, plain]
  | append_singleton nals nal ih =>
    have splits : (∃ before other after, nals ++ [nal] = before ++ other :: after ∧ before ≠ [] ∧
        opensUnit before other = true ∧ (samplesOf before).getLast? = some sample) ↔
        (∃ before other after, nals = before ++ other :: after ∧ before ≠ [] ∧
          opensUnit before other = true ∧ (samplesOf before).getLast? = some sample) ∨
        nals ≠ [] ∧ opensUnit nals nal = true ∧ (samplesOf nals).getLast? = some sample := by
      constructor
      · rintro ⟨before, other, after, shape, some_, opens, last⟩
        cases after using List.reverseRecOn with
        | nil =>
          obtain ⟨rfl, same⟩ := List.append_inj' shape rfl
          cases same
          exact .inr ⟨some_, opens, last⟩
        | append_singleton after final =>
          rw [← List.cons_append, ← List.append_assoc] at shape
          exact .inl ⟨before, other, after, (List.append_inj' shape rfl).1, some_, opens, last⟩
      · rintro (⟨before, other, after, rfl, some_, opens, last⟩ | ⟨some_, opens, last⟩)
        · exact ⟨before, other, after ++ [nal], by simp, some_, opens, last⟩
        · exact ⟨nals, nal, [], rfl, some_, opens, last⟩
    rw [splits, ← ih]
    cases opens : opensUnit nals nal with
    | true =>
      rw [samplesOf_opened opens, List.dropLast_concat]
      by_cases none : nals = []
      · subst none
        simp [samplesOf, assemble, assembleFrom, openUnit, plain]
      · obtain ⟨closed, last, shape, _⟩ := samplesOf_last none
        rw [shape, List.dropLast_concat, List.getLast?_append, List.getLast?_singleton,
          Option.some_or, List.mem_append, List.mem_singleton, Option.some.injEq]
        simp [none, eq_comm]
    | false =>
      obtain ⟨closed, last, before, after⟩ := samplesOf_kept opens
      rw [before, after, List.dropLast_concat, List.dropLast_concat]
      simp

/-! ## Pictures and samples -/

theorem behindSlices_append (slice : sample.any isSliceNal = true) :
    behindSlices (before ++ sample) = behindSlices sample := by
  unfold behindSlices
  obtain ⟨nal, inside, isSlice⟩ := List.any_eq_true.mp slice
  rw [List.reverse_append, List.takeWhile_append, if_neg]
  intro whole
  have all := List.takeWhile_eq_self_iff.mp
    ((List.takeWhile_prefix (p := (!isSliceNal ·)) (l := sample.reverse)).eq_of_length whole)
  have none := all nal (List.mem_reverse.mpr inside)
  rw [isSlice] at none
  cases none

theorem not_any_of_countP {after : List Bytes} {slice : Bytes}
    (one : (before ++ slice :: after).countP isSliceNal ≤ 1) (isSlice : isSliceNal slice = true) :
    before.any isSliceNal = false := by
  rw [List.countP_append, List.countP_cons_of_pos isSlice] at one
  have none : before.countP isSliceNal = 0 := by omega
  rw [List.any_eq_false]
  intro other inside
  simpa using List.countP_eq_zero.mp none other inside

/-- Where an item of the whole lies. -/
theorem flatten_split {α : Type} {lists : List (List α)} {before after : List α} {item : α}
    (h : lists.flatten = before ++ item :: after) :
    ∃ earlier list later x y, lists = earlier ++ list :: later ∧ list = x ++ item :: y ∧
      before = earlier.flatten ++ x := by
  rcases List.flatten_eq_append_iff.mp h with ⟨first, second, rfl, rfl, rest⟩ |
    ⟨first, x, found, y, second, rfl, rfl, rest⟩
  · obtain ⟨empties, y, later, rfl, empty, _⟩ := List.flatten_eq_cons_iff.mp rest.symm
    refine ⟨first ++ empties, item :: y, later, [], y, by simp, rfl, ?_⟩
    rw [List.flatten_append, List.flatten_eq_nil_iff.mpr empty, List.append_nil, List.append_nil]
  · rw [List.cons_append, List.cons.injEq] at rest
    rw [rest.1]
    exact ⟨first, _, second, x, y, rfl, rfl, rfl⟩

/-- Where a sample ends, it is the last of the sequence read so far. -/
theorem lastSample (last : (samplesOf before).getLast? = some sample) :
    sample.any isSliceNal = sliceSinceDelimiter before ∧
      ∃ earlier, before = earlier ++ sample := by
  have some_ : before ≠ [] := by
    rintro rfl
    cases last
  obtain ⟨closed, final, shape, hasSlice⟩ := samplesOf_last some_
  rw [shape, List.getLast?_append, List.getLast?_singleton, Option.some_or] at last
  cases last
  refine ⟨hasSlice, closed.flatten, ?_⟩
  have flat := samplesOf_flatten before
  rw [shape, List.flatten_append, List.flatten_singleton] at flat
  exact flat.symm

/-- The pictures are the samples exactly in the sequences that the rule is made for. -/
theorem picturesGrouped_iff :
    PicturesGrouped (samplesOf nals) ↔ Groupable nals := by
  have flat := samplesOf_flatten nals
  have slices := samplesOf_slices nals
  constructor
  · intro grouped
    refine ⟨?_, ?_, ?_⟩
    · intro before slice after shape isSlice earlierSlice
      rw [← flat] at shape
      obtain ⟨earlier, sample, later, x, y, split, own, rfl⟩ := flatten_split shape
      have one := slices sample (by rw [split]; simp)
      rw [own] at one
      have first := not_any_of_countP one isSlice
      rw [List.any_append, first, Bool.or_false] at earlierSlice
      exact grouped.whole earlier sample later x slice y split own isSlice first earlierSlice
    · intro some_
      obtain ⟨closed, last, shape, hasSlice⟩ := samplesOf_last some_
      rw [← hasSlice]
      exact grouped.covered last (by rw [shape]; simp)
    · intro before nal after shape some_ opens
      obtain ⟨closed, last, ends, hasSlice⟩ := samplesOf_last some_
      have final : (samplesOf before).getLast? = some last := by
        rw [ends, List.getLast?_append, List.getLast?_singleton, Option.some_or]
      have isClosed := samplesOf_closed.mpr ⟨before, nal, after, shape, some_, opens, final⟩
      have covered := grouped.covered last (List.dropLast_subset _ isClosed)
      obtain ⟨_, earlier, split⟩ := lastSample final
      constructor
      · rw [← hasSlice]
        exact covered
      · rw [split, behindSlices_append covered]
        exact grouped.headers last isClosed
  · intro groupable
    have covered : ∀ sample ∈ samplesOf nals, sample.any isSliceNal = true := by
      intro sample member
      have some_ : nals ≠ [] := by
        rintro rfl
        cases member
      obtain ⟨closed, last, shape, hasSlice⟩ := samplesOf_last some_
      rw [shape] at member
      rcases List.mem_append.mp member with early | final
      · have isClosed : sample ∈ (samplesOf nals).dropLast := by
          rw [shape, List.dropLast_concat]
          exact early
        obtain ⟨before, nal, after, split, nonempty, opens, ends⟩ := samplesOf_closed.mp isClosed
        rw [(lastSample ends).1]
        exact (groupable.opened before nal after split nonempty opens).1
      · rw [List.mem_singleton.mp final, hasSlice]
        exact groupable.covered some_
    refine ⟨covered, ?_, ?_, ?_⟩
    · intro sample member before slice after shape isSlice again
      have one := slices sample member
      rw [shape] at one
      rw [not_any_of_countP one isSlice] at again
      cases again
    · intro earlier sample later before slice after shape split isSlice _ earlierSlice
      refine groupable.starts (earlier.flatten ++ before) slice (after ++ later.flatten) ?_ isSlice ?_
      · rw [← flat, shape, split]
        simp
      · rw [List.any_append, earlierSlice, Bool.true_or]
    · intro sample isClosed
      obtain ⟨before, nal, after, split, nonempty, opens, ends⟩ := samplesOf_closed.mp isClosed
      obtain ⟨_, earlier, rfl⟩ := lastSample ends
      have whole := (groupable.opened _ nal after split nonempty opens).2
      rw [behindSlices_append (covered sample (List.dropLast_subset _ isClosed))] at whole
      exact whole

/-- The track emits one sample a picture exactly for the sequences the rule is made for. -/
theorem emits_pictures_iff (nals : List Bytes) (some_ : ∀ nal ∈ nals, nal ≠ [])
    (small : ∀ nal ∈ nals, nal.length ≤ maxPending) :
    ∃ samples, (emit nals).map (fun unit => Bytes.readPrefixed unit.data) = samples.map some ∧
      samples.flatten = nals ∧ (PicturesGrouped samples ↔ Groupable nals) := by
  refine ⟨samplesOf nals, emit_read some_ fun nal member => ?_, samplesOf_flatten nals,
    picturesGrouped_iff⟩
  have bound := small nal member
  unfold maxPending at bound
  omega

theorem emits_pictures_iff_delimited :
    ∃ samples, (emit [[0x09, 0xF0], sps, pps, [0x65, 0x88], [0x09, 0xF0], [0x41, 0x9A]]).map
        (fun unit => Bytes.readPrefixed unit.data) = samples.map some ∧
      samples.flatten = [[0x09, 0xF0], sps, pps, [0x65, 0x88], [0x09, 0xF0], [0x41, 0x9A]] ∧
      (PicturesGrouped samples ↔
        Groupable [[0x09, 0xF0], sps, pps, [0x65, 0x88], [0x09, 0xF0], [0x41, 0x9A]]) :=
  emits_pictures_iff _ (by decide) (by decide +kernel)

/-- Two slices of one picture are two samples. -/
theorem second_slice_is_split :
    (emit [[0x65, 0x88], [0x65, 0x48]]).map (fun unit => Bytes.readPrefixed unit.data) =
        [some [[0x65, 0x88]], some [[0x65, 0x48]]] ∧
      startsPicture [0x65, 0x48] = false ∧ ¬ PicturesGrouped [[[0x65, 0x88]], [[0x65, 0x48]]] := by
  refine ⟨by decide +kernel, by decide, fun grouped => ?_⟩
  have starts := grouped.whole [[[0x65, 0x88]]] [[0x65, 0x48]] [] [] [0x65, 0x48] [] rfl rfl
    (by decide) (by decide) (by decide)
  revert starts
  decide

end Gunda.Stream.Ts
