import Gunda.Stream.Ts.Demux
import Mathlib.Tactic.Common

/-!
# How a video track groups NAL units

The rule of `VideoTrack::nal` on the units alone, and the track as its refinement.
-/
namespace Gunda.Stream.Ts

open Gunda.Lib
open AnnexB (Cuts Scan splitStart startCode)
open VideoTrack (append flush isSlice learn nalKind pushRounds stamp)

variable {track : VideoTrack} {rest : Bytes} {units : List Bytes}

/-! ## Kinds -/

def kindOf (nal : Bytes) : UInt8 := VideoTrack.nalKind (nal.headD 0)

def isDelimiter (nal : Bytes) : Bool := kindOf nal = 9

def isSliceNal (nal : Bytes) : Bool := VideoTrack.isSlice (kindOf nal)

def isIdr (nal : Bytes) : Bool := kindOf nal = 5

/-- A NAL unit and the times of the PES packet read when it was recognised. -/
structure TimedNal where
  nal : Bytes
  pts : Option Nat
  dts : Option Nat
  deriving DecidableEq, Repr

abbrev AccessUnit := List TimedNal

namespace AccessUnit

def nals (unit : AccessUnit) : List Bytes := unit.map (·.nal)

def data (unit : AccessUnit) : Bytes := unit.nals.flatMap Bytes.prefixed

def hasSlice (unit : AccessUnit) : Bool := unit.nals.any isSliceNal

def sync (unit : AccessUnit) : Bool := unit.nals.any isIdr

def pts (unit : AccessUnit) : Option Nat := unit.head?.bind (·.pts)

def dts (unit : AccessUnit) : Option Nat := unit.head?.bind (·.dts)

/-- Whether a NAL unit closes the access unit before it. -/
def closedBy (unit : AccessUnit) (nal : Bytes) : Bool :=
  isDelimiter nal || isSliceNal nal && unit.hasSlice

def completed (unit : AccessUnit) : CompletedUnit := ⟨unit.data, unit.pts, unit.dts, unit.sync⟩

end AccessUnit

/-- The access units closed by the NAL units, and the one still open. -/
def assembleFrom : AccessUnit → List TimedNal → List AccessUnit × AccessUnit
  | current, [] => ([], current)
  | current, nal :: nals =>
      if current ≠ [] ∧ current.closedBy nal.nal = true then
        let later := assembleFrom [nal] nals
        (current :: later.1, later.2)
      else assembleFrom (current ++ [nal]) nals

/-- The access unit left open, if there is one. -/
def openUnit (current : AccessUnit) : List AccessUnit := if current = [] then [] else [current]

/-- The access units of a whole sequence. -/
def assemble (nals : List TimedNal) : List AccessUnit :=
  (assembleFrom [] nals).1 ++ openUnit (assembleFrom [] nals).2

variable {current : AccessUnit}

theorem assembleFrom_close {nal : TimedNal} (nals : List TimedNal)
    (closes : current ≠ [] ∧ current.closedBy nal.nal = true) :
    assembleFrom current (nal :: nals) =
      (current :: (assembleFrom [nal] nals).1, (assembleFrom [nal] nals).2) := by
  rw [assembleFrom, if_pos closes]

theorem assembleFrom_keep {nal : TimedNal} (nals : List TimedNal)
    (keeps : ¬ (current ≠ [] ∧ current.closedBy nal.nal = true)) :
    assembleFrom current (nal :: nals) = assembleFrom (current ++ [nal]) nals := by
  rw [assembleFrom, if_neg keeps]

theorem assembleFrom_append (current : AccessUnit) (first second : List TimedNal) :
    assembleFrom current (first ++ second) =
      ((assembleFrom current first).1 ++ (assembleFrom (assembleFrom current first).2 second).1,
        (assembleFrom (assembleFrom current first).2 second).2) := by
  induction first generalizing current with
  | nil => rfl
  | cons nal first ih =>
    rw [List.cons_append]
    by_cases closes : current ≠ [] ∧ current.closedBy nal.nal = true
    · rw [assembleFrom_close _ closes, assembleFrom_close _ closes, ih, List.cons_append]
    · rw [assembleFrom_keep _ closes, assembleFrom_keep _ closes, ih]

/-- Grouping loses and repeats nothing. -/
theorem assembleFrom_flatten (current : AccessUnit) (nals : List TimedNal) :
    (assembleFrom current nals).1.flatten ++ (assembleFrom current nals).2 = current ++ nals := by
  induction nals generalizing current with
  | nil => simp [assembleFrom]
  | cons nal nals ih =>
    by_cases closes : current ≠ [] ∧ current.closedBy nal.nal = true
    · rw [assembleFrom_close _ closes, List.flatten_cons, List.append_assoc, ih,
        List.singleton_append]
    · rw [assembleFrom_keep _ closes, ih, List.append_assoc, List.singleton_append]

theorem assembleFrom_ne_nil {nals : List TimedNal} :
    (∀ unit ∈ (assembleFrom current nals).1, unit ≠ []) ∧
      (current ≠ [] → (assembleFrom current nals).2 ≠ []) := by
  induction nals generalizing current with
  | nil => exact ⟨fun unit member => absurd member List.not_mem_nil, id⟩
  | cons nal nals ih =>
    by_cases closes : current ≠ [] ∧ current.closedBy nal.nal = true
    · rw [assembleFrom_close _ closes]
      have ⟨done, left⟩ := @ih [nal]
      refine ⟨fun unit member => ?_, fun _ => left (List.cons_ne_nil _ _)⟩
      rcases List.mem_cons.mp member with rfl | member
      · exact closes.1
      · exact done unit member
    · rw [assembleFrom_keep _ closes]
      have ⟨done, left⟩ := @ih (current ++ [nal])
      exact ⟨done, fun _ => left (by simp)⟩

theorem openUnit_flatten (current : AccessUnit) : (openUnit current).flatten = current := by
  unfold openUnit
  split
  · rename_i none
    rw [none]
    rfl
  · exact List.append_nil current

theorem assemble_flatten (nals : List TimedNal) : (assemble nals).flatten = nals := by
  unfold assemble
  rw [List.flatten_append, openUnit_flatten]
  exact assembleFrom_flatten [] nals

theorem assemble_ne_nil {nals : List TimedNal} : ∀ unit ∈ assemble nals, unit ≠ [] := by
  intro unit member
  rcases List.mem_append.mp member with done | left
  · exact assembleFrom_ne_nil.1 unit done
  · unfold openUnit at left
    split at left
    · cases left
    · cases List.mem_singleton.mp left
      assumption

/-! ## The track assembles the units -/

/-- The track's fields about the access unit being assembled. -/
structure Assembles (track : VideoTrack) (current : AccessUnit) : Prop where
  unit : track.unit = current.data
  hasSlice : track.hasSlice = current.hasSlice
  sync : track.sync = current.sync
  pts : current ≠ [] → track.unitPts = current.pts
  dts : current ≠ [] → track.unitDts = current.dts

/-- What assembling leaves alone. -/
structure SameStream (before after : VideoTrack) : Prop where
  pending : after.pending = before.pending
  pts : after.pts = before.pts
  dts : after.dts = before.dts
  samples : after.samples = before.samples
  decodeTimes : after.decodeTimes = before.decodeTimes

theorem SameStream.refl (track : VideoTrack) : SameStream track track := ⟨rfl, rfl, rfl, rfl, rfl⟩

theorem SameStream.trans {a b c : VideoTrack} (first : SameStream a b) (second : SameStream b c) :
    SameStream a c :=
  ⟨second.pending.trans first.pending, second.pts.trans first.pts, second.dts.trans first.dts,
    second.samples.trans first.samples, second.decodeTimes.trans first.decodeTimes⟩

theorem AccessUnit.data_eq_nil {unit : AccessUnit} : unit.data = [] ↔ unit = [] := by
  constructor
  · intro empty
    cases unit with
    | nil => rfl
    | cons nal unit =>
      simp [AccessUnit.data, AccessUnit.nals, Bytes.prefixed, Bytes.be] at empty
  · rintro rfl
    rfl

theorem Assembles.start : Assembles .default [] := ⟨rfl, rfl, rfl, nofun, nofun⟩

section

variable (assembles : Assembles track current)
include assembles

/-- Flushing emits the access unit being assembled and leaves none. -/
theorem flush_assembles (complete : List CompletedUnit) :
    ∃ next, track.flush complete =
        (next, complete ++ (openUnit current).map AccessUnit.completed) ∧
      Assembles next [] ∧ SameStream track next := by
  unfold flush openUnit
  by_cases empty : current = []
  · subst empty
    have noBytes : track.unit = [] := assembles.unit
    refine ⟨track, ?_, assembles, .refl track⟩
    rw [if_pos noBytes, if_pos rfl, List.map_nil, List.append_nil]
  · have bytes : track.unit ≠ [] := by
      rw [assembles.unit, ne_eq, AccessUnit.data_eq_nil]
      exact empty
    refine ⟨{ track with
      unit := []
      unitPts := none
      unitDts := none
      hasSlice := false
      sync := false }, ?_, ⟨rfl, rfl, rfl, nofun, nofun⟩, ⟨rfl, rfl, rfl, rfl, rfl⟩⟩
    rw [if_neg bytes, if_neg empty]
    simp only [List.map_cons, List.map_nil, AccessUnit.completed, assembles.unit,
      assembles.pts empty, assembles.dts empty, assembles.sync]

/-- A NAL unit added to the access unit being assembled. -/
theorem append_assembles {first : UInt8} (small : (first :: rest).length < 2 ^ 32) :
    Assembles ((track.stamp.learn (nalKind first) (first :: rest)).append (first :: rest))
        (current ++ [⟨first :: rest, track.pts, track.dts⟩]) ∧
      SameStream track
        ((track.stamp.learn (nalKind first) (first :: rest)).append (first :: rest)) := by
  have stamped : Assembles track current → (current = [] → track.stamp.unitPts = track.pts ∧
      track.stamp.unitDts = track.dts) ∧ (current ≠ [] → track.stamp = track) := by
    intro assembles
    unfold stamp
    constructor
    · intro empty
      have noBytes : track.unit = [] := by
        rw [assembles.unit, empty]
        rfl
      rw [if_pos noBytes]
      exact ⟨rfl, rfl⟩
    · intro some
      have bytes : track.unit ≠ [] := by
        rw [assembles.unit, ne_eq, AccessUnit.data_eq_nil]
        exact some
      rw [if_neg bytes]
  obtain ⟨opened, kept⟩ := stamped assembles
  have same : track.stamp.unit = track.unit ∧ track.stamp.hasSlice = track.hasSlice ∧
      track.stamp.sync = track.sync ∧ SameStream track track.stamp := by
    unfold stamp
    split <;> exact ⟨rfl, rfl, rfl, rfl, rfl, rfl, rfl, rfl⟩
  have notLong : ¬ 2 ^ 32 ≤ (first :: rest).length := by omega
  have slice : isSliceNal (first :: rest) = isSlice (nalKind first) := rfl
  have idr : isIdr (first :: rest) = decide (nalKind first = 5) := rfl
  have idrSlice : isSlice (nalKind first) = false →
      decide (nalKind first = 5) = false := by
    intro other
    by_contra five
    rw [Bool.not_eq_false, decide_eq_true_eq] at five
    rw [five] at other
    cases other
  generalize nalKind first = kind at slice idr idrSlice
  generalize track.stamp = stamped at same opened kept
  obtain ⟨unit, hasSlice, sync, stream⟩ := same
  have learned : (stamped.learn kind (first :: rest)).unit = stamped.unit ∧
      (stamped.learn kind (first :: rest)).unitPts = stamped.unitPts ∧
      (stamped.learn kind (first :: rest)).unitDts = stamped.unitDts ∧
      (stamped.learn kind (first :: rest)).hasSlice =
        (stamped.hasSlice || isSlice kind) ∧
      (stamped.learn kind (first :: rest)).sync = (stamped.sync || decide (kind = 5)) ∧
      SameStream stamped (stamped.learn kind (first :: rest)) := by
    unfold learn
    cases sliced : isSlice kind with
    | true =>
      rw [if_pos rfl, Bool.or_true]
      exact ⟨rfl, rfl, rfl, rfl, rfl, rfl, rfl, rfl, rfl, rfl⟩
    | false =>
      rw [if_neg Bool.false_ne_true, idrSlice sliced, Bool.or_false, Bool.or_false]
      split
      · exact ⟨rfl, rfl, rfl, rfl, rfl, rfl, rfl, rfl, rfl, rfl⟩
      · split <;> exact ⟨rfl, rfl, rfl, rfl, rfl, rfl, rfl, rfl, rfl, rfl⟩
  generalize stamped.learn kind (first :: rest) = learnt at learned
  obtain ⟨lunit, lpts, ldts, lslice, lsync, lstream⟩ := learned
  unfold append
  rw [if_neg notLong]
  refine ⟨⟨?_, ?_, ?_, ?_, ?_⟩, stream.trans (lstream.trans ⟨rfl, rfl, rfl, rfl, rfl⟩)⟩
  · simp only [lunit, unit, assembles.unit, AccessUnit.data, AccessUnit.nals, List.map_append,
      List.map_cons, List.map_nil, List.flatMap_append, List.flatMap_cons, List.flatMap_nil,
      List.append_nil, Bytes.prefixed, List.append_assoc]
  · simp only [lslice, hasSlice, assembles.hasSlice, AccessUnit.hasSlice, AccessUnit.nals,
      List.map_append, List.map_cons, List.map_nil, List.any_append, List.any_cons, List.any_nil,
      Bool.or_false, slice]
  · simp only [lsync, sync, assembles.sync, AccessUnit.sync, AccessUnit.nals,
      List.map_append, List.map_cons, List.map_nil, List.any_append, List.any_cons, List.any_nil,
      Bool.or_false, idr]
  · intro _
    cases current with
    | nil => exact lpts.trans (opened rfl).1
    | cons nal current =>
      rw [lpts, kept (List.cons_ne_nil _ _), assembles.pts (List.cons_ne_nil _ _)]
      rfl
  · intro _
    cases current with
    | nil => exact ldts.trans (opened rfl).2
    | cons nal current =>
      rw [ldts, kept (List.cons_ne_nil _ _), assembles.dts (List.cons_ne_nil _ _)]
      rfl

/-- `VideoTrack::nal` follows the grouping rule. -/
theorem nal_assembles {nal : Bytes} (some : nal ≠ [])
    (small : nal.length < 2 ^ 32) (complete : List CompletedUnit) :
    ∃ next, track.nal nal complete = (next, complete ++
        (assembleFrom current [⟨nal, track.pts, track.dts⟩]).1.map AccessUnit.completed) ∧
      Assembles next (assembleFrom current [⟨nal, track.pts, track.dts⟩]).2 ∧
      SameStream track next := by
  cases nal with
  | nil => exact absurd rfl some
  | cons first rest =>
    have boundary : (nalKind first = 9 ∨
        (isSlice (nalKind first) && track.hasSlice) = true) ↔
        current.closedBy (first :: rest) = true := by
      rw [assembles.hasSlice]
      unfold AccessUnit.closedBy
      rw [Bool.or_eq_true]
      exact or_congr decide_eq_true_iff.symm Iff.rfl
    unfold VideoTrack.nal
    dsimp only
    by_cases closes : current.closedBy (first :: rest) = true
    · obtain ⟨flushed, flush_eq, fresh, same⟩ := flush_assembles assembles complete
      obtain ⟨added, stream⟩ := append_assembles fresh small
      rw [if_pos (boundary.mpr closes), flush_eq]
      rw [same.pts, same.dts] at added
      by_cases empty : current = []
      · rw [assembleFrom_keep _ fun both => both.1 empty]
        subst empty
        exact ⟨_, rfl, added, same.trans stream⟩
      · rw [assembleFrom_close _ ⟨empty, closes⟩]
        unfold openUnit
        rw [if_neg empty]
        exact ⟨_, rfl, added, same.trans stream⟩
    · obtain ⟨added, stream⟩ := append_assembles assembles small
      rw [if_neg fun holds => closes (boundary.mp holds), assembleFrom_keep _ fun both =>
        closes both.2]
      exact ⟨_, by rw [assembleFrom, List.map_nil, List.append_nil], added, stream⟩

end

/-- The NAL units that count, all with the times of the packet being read. -/
def timedBy (track : VideoTrack) (units : List Bytes) : List TimedNal :=
  (units.filter (· ≠ [])).map (⟨·, track.pts, track.dts⟩)

theorem timedBy_cons_nil (track : VideoTrack) (units : List Bytes) :
    timedBy track ([] :: units) = timedBy track units := by
  simp [timedBy]

theorem timedBy_cons {next : VideoTrack} {unit : Bytes} (some : unit ≠ []) (units : List Bytes)
    (pts : next.pts = track.pts) (dts : next.dts = track.dts) :
    timedBy track (unit :: units) = [⟨unit, track.pts, track.dts⟩] ++ timedBy next units := by
  simp [timedBy, some, pts, dts]

/-! ## The loop of `push` -/

theorem startCodeFrom_eq (bytes : Bytes) (index : Nat) :
    startCodeFrom bytes index =
      (splitStart bytes).map fun found => index + found.1.length + 2 := by
  induction bytes, index using startCodeFrom.induct with
  | case1 index a b c rest here =>
    rw [startCodeFrom, if_pos here, splitStart, if_pos here]
    rfl
  | case2 index a b c rest notHere ih =>
    rw [startCodeFrom, if_neg notHere, splitStart, if_neg notHere, ih, Option.map_map]
    congr 1
    funext found
    simp only [Function.comp_apply, List.length_cons]
    omega
  | case3 bytes index short =>
    rw [startCodeFrom.eq_2 bytes index short, splitStart.eq_2 bytes short]
    rfl

theorem findStartCode_begun (bytes : Bytes) : findStartCode (startCode ++ bytes) 0 = some 2 := by
  unfold findStartCode
  rw [List.drop_zero, startCodeFrom_eq, AnnexB.splitStart_startCode]
  rfl

theorem findStartCode_next (bytes : Bytes) :
    findStartCode (startCode ++ bytes) 3 =
      (splitStart bytes).map fun found => found.1.length + 5 := by
  have dropped : (startCode ++ bytes).drop 3 = bytes := rfl
  unfold findStartCode
  rw [dropped, startCodeFrom_eq]
  congr 1
  funext found
  omega

theorem pushRounds_cuts {bytes : Bytes} (cuts : Cuts bytes units rest) {rounds : Nat}
    (enough : bytes.length < rounds) (begun : track.pending = startCode ++ bytes)
    (assembles : Assembles track current) (small : ∀ unit ∈ units, unit.length < 2 ^ 32)
    (complete : List CompletedUnit) :
    ∃ next, track.pushRounds rounds complete = (next, complete ++
        (assembleFrom current (timedBy track units)).1.map AccessUnit.completed) ∧
      Assembles next (assembleFrom current (timedBy track units)).2 ∧
      SameStream { track with pending := startCode ++ rest } next := by
  induction cuts generalizing rounds track current complete with
  | @still bytes none =>
    cases rounds with
    | zero => cases enough
    | succ rounds =>
      refine ⟨track, ?_, assembles, begun, rfl, rfl, rfl, rfl⟩
      unfold pushRounds
      simp only [begun, findStartCode_begun, findStartCode_next, none, Option.map_none,
        Nat.lt_irrefl, if_false]
      simp [timedBy, assembleFrom]
  | @close bytes body after rest units found _ ih =>
    cases rounds with
    | zero => cases enough
    | succ rounds =>
      have shape := AnnexB.splitStart_eq_some found
      have shorter : after.length < rounds := by
        have measured := congrArg List.length shape
        simp only [List.length_append, startCode, List.length_cons,
          List.length_nil] at measured
        omega
      have sliced : Bytes.slice (startCode ++ bytes) 3 (body.length + 5 - 2 - 3) = body := by
        have dropped : (startCode ++ bytes).drop 3 = bytes := rfl
        have size : body.length + 5 - 2 - 3 = body.length := by omega
        rw [Bytes.slice, dropped, size, shape, List.append_assoc, List.take_left]
      have drained : (startCode ++ bytes).drop (body.length + 5 - 2) =
          startCode ++ after := by
        have size : body.length + 5 - 2 = 3 + body.length := by omega
        have dropped : (startCode ++ bytes).drop 3 = bytes := rfl
        rw [size, ← List.drop_drop, dropped, shape, List.append_assoc, List.drop_left]
      have others := fun unit member => small unit (List.mem_cons_of_mem _ member)
      have round : track.pushRounds (rounds + 1) complete =
          pushRounds rounds
            (VideoTrack.nal { track with pending := startCode ++ after }
              (AnnexB.trimTrailingZeros body) complete).1
            (VideoTrack.nal { track with pending := startCode ++ after }
              (AnnexB.trimTrailingZeros body) complete).2 := by
        conv_lhs => unfold pushRounds
        simp only [begun, findStartCode_begun, findStartCode_next, found, Option.map_some,
          Nat.lt_irrefl, if_false, sliced, drained, trimTrailingZeros]
      rw [round]
      have moved : Assembles { track with pending := startCode ++ after } current :=
        ⟨assembles.unit, assembles.hasSlice, assembles.sync, assembles.pts, assembles.dts⟩
      by_cases empty : AnnexB.trimTrailingZeros body = []
      · rw [empty, timedBy_cons_nil]
        exact ih shorter rfl moved others complete
      · obtain ⟨next, added, assembled, same⟩ :=
          nal_assembles moved empty (small _ List.mem_cons_self) complete
        obtain ⟨final, rest, finally_, stream⟩ := ih shorter same.pending assembled others
          (complete ++ (assembleFrom current [⟨AnnexB.trimTrailingZeros body, track.pts,
            track.dts⟩]).1.map AccessUnit.completed)
        have split : timedBy track (AnnexB.trimTrailingZeros body :: units) =
            [⟨AnnexB.trimTrailingZeros body, track.pts, track.dts⟩] ++ timedBy next units :=
          timedBy_cons empty units same.pts same.dts
        refine ⟨final, ?_, ?_, ⟨stream.pending, stream.pts.trans same.pts,
          stream.dts.trans same.dts, stream.samples.trans same.samples,
          stream.decodeTimes.trans same.decodeTimes⟩⟩
        · rw [split, assembleFrom_append, List.map_append, ← List.append_assoc, added]
          exact rest
        · rw [split, assembleFrom_append]
          exact finally_

/-- The loop recognises the units that the pending bytes close. -/
theorem pushRounds_scan (scan : Scan track.pending units rest)
    (assembles : Assembles track current) (small : ∀ unit ∈ units, unit.length < 2 ^ 32)
    (complete : List CompletedUnit) :
    ∃ next, track.pushRounds track.pending.length complete = (next, complete ++
        (assembleFrom current (timedBy track units)).1.map AccessUnit.completed) ∧
      Assembles next (assembleFrom current (timedBy track units)).2 ∧
      SameStream { track with pending := rest } next := by
  generalize bytes_eq : track.pending = bytes at scan
  cases scan with
  | idle none =>
    refine ⟨track, ?_, assembles, bytes_eq, rfl, rfl, rfl, rfl⟩
    have still : track.pushRounds track.pending.length complete = (track, complete) := by
      cases track.pending.length with
      | zero => rfl
      | succ rounds =>
        unfold pushRounds findStartCode
        simp only [List.drop_zero, startCodeFrom_eq, bytes_eq, none, Option.map_none]
    rw [← bytes_eq, still]
    simp [timedBy, assembleFrom]
  | begun found cuts =>
    rename_i before after rest
    have shape := AnnexB.splitStart_eq_some found
    have measured := congrArg List.length shape
    simp only [List.length_append, startCode, List.length_cons,
      List.length_nil] at measured
    obtain ⟨rounds, rounds_eq⟩ : ∃ rounds, bytes.length = rounds + 1 :=
      ⟨bytes.length - 1, by omega⟩
    have first : findStartCode bytes 0 = some (before.length + 2) := by
      unfold findStartCode
      rw [List.drop_zero, startCodeFrom_eq, found, Option.map_some, Nat.zero_add]
    have drained : bytes.drop before.length = startCode ++ after := by
      rw [shape, List.append_assoc, List.drop_left]
    have aligned : (if 2 < before.length + 2 then
        { track with pending := track.pending.drop (before.length + 2 - 2) } else track) =
        { track with pending := startCode ++ after } := by
      by_cases none : before.length = 0
      · rw [if_neg (by omega)]
        rw [none, List.drop_zero, ← bytes_eq] at drained
        rw [← drained]
      · rw [if_pos (by omega), Nat.add_sub_cancel, bytes_eq, drained]
    have start : track.pushRounds (rounds + 1) complete =
        pushRounds (rounds + 1) { track with pending := startCode ++ after }
          complete := by
      unfold pushRounds
      simp only [bytes_eq, first, findStartCode_begun, Nat.lt_irrefl, if_false]
      rw [bytes_eq] at aligned
      rw [aligned]
    have moved : Assembles { track with pending := startCode ++ after } current :=
      ⟨assembles.unit, assembles.hasSlice, assembles.sync, assembles.pts, assembles.dts⟩
    obtain ⟨next, pushed, assembled, same⟩ := pushRounds_cuts cuts
      (show after.length < rounds + 1 by omega) rfl moved small complete
    refine ⟨next, ?_, assembled, same.pending, same.pts, same.dts, same.samples,
      same.decodeTimes⟩
    rw [rounds_eq, start]
    exact pushed

/-- `VideoTrack::push` adds the units that the payload closes. -/
theorem push_assembles {next : VideoTrack} {payload : Bytes}
    {complete completed : List CompletedUnit}
    (scan : Scan (track.pending ++ payload) units rest)
    (assembles : Assembles track current) (small : ∀ unit ∈ units, unit.length < 2 ^ 32)
    (h : track.push payload complete = .ok (next, completed)) :
    completed = complete ++
        (assembleFrom current (timedBy track units)).1.map AccessUnit.completed ∧
      Assembles next (assembleFrom current (timedBy track units)).2 ∧
      SameStream { track with pending := rest } next ∧ next.pending.length ≤ maxPending := by
  have moved : Assembles { track with pending := track.pending ++ payload } current :=
    ⟨assembles.unit, assembles.hasSlice, assembles.sync, assembles.pts, assembles.dts⟩
  obtain ⟨after, pushed, assembled, same⟩ := pushRounds_scan scan moved small complete
  unfold VideoTrack.push at h
  dsimp only at h pushed
  rw [pushed] at h
  obtain ⟨bounded, h⟩ := throw_unless_ok h
  cases h
  exact ⟨rfl, assembled, ⟨same.pending, same.pts, same.dts, same.samples, same.decodeTimes⟩,
    by omega⟩

end Gunda.Stream.Ts
