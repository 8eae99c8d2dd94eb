import Gunda.Stream.Ts.Demux
import Mathlib.Tactic.Common

/-!
# Program table sections across packets

How sections are put into the payloads of packets, and which of them `Section::push`
gives back.
-/
namespace Gunda.Stream.Ts

open Gunda.Lib

variable {bytes rest tail : Bytes} {whole complete sections : List Bytes} {table next : Section}

/-! ## Sections and packets -/

/-- The length a section declares in its first three bytes, these included. -/
def declaredLength (bytes : Bytes) : Nat :=
  ((byteAt bytes 1 &&& 0x0F).toNat <<< 8 ||| (byteAt bytes 2).toNat) + 3

structure IsSection (bytes : Bytes) : Prop where
  table : byteAt bytes 0 ≠ 0xFF
  sized : bytes.length = declaredLength bytes
  small : bytes.length ≤ maxSection

/-- A packet's share of the sections: a piece of the one under way, or behind a pointer the
tail of that one, the sections that are whole in it and the beginning of one more. -/
inductive SectionPacket where
  | more (piece : Bytes) (stuffing : Nat)
  | start (tail : Bytes) (whole : List Bytes) (beginning : Bytes) (stuffing : Nat)

namespace SectionPacket

def isStart : SectionPacket → Bool
  | more .. => false
  | start .. => true

def payload : SectionPacket → Bytes
  | more piece stuffing => piece ++ List.replicate stuffing 0xFF
  | start tail whole beginning stuffing =>
      UInt8.ofNat tail.length ::
        (tail ++ (whole.flatten ++ (beginning ++ List.replicate stuffing 0xFF)))

end SectionPacket

/-- Packets carry what is left of the section under way, then the sections. Stuffing only
stands where no section is under way. -/
inductive Packetizes : Bytes → List Bytes → List SectionPacket → Prop
  | done : Packetizes [] [] []
  | more {piece rest : Bytes} {sections : List Bytes} {packets : List SectionPacket}
      {stuffing : Nat} (last : stuffing = 0 ∨ rest = []) (onward : Packetizes rest sections packets) :
      Packetizes (piece ++ rest) sections (.more piece stuffing :: packets)
  | between {tail : Bytes} {whole sections : List Bytes} {packets : List SectionPacket}
      {stuffing : Nat} (pointer : tail.length < 256) (some_ : whole ≠ [])
      (onward : Packetizes [] sections packets) :
      Packetizes tail (whole ++ sections) (.start tail whole [] stuffing :: packets)
  | begins {tail beginning rest : Bytes} {whole sections : List Bytes}
      {packets : List SectionPacket} (pointer : tail.length < 256) (begun : beginning ≠ [])
      (unfinished : rest ≠ []) (onward : Packetizes rest sections packets) :
      Packetizes tail (whole ++ (beginning ++ rest) :: sections)
        (.start tail whole beginning 0 :: packets)

/-- The sections that come out of the payloads of packets. -/
def pushAll (table : Section) : List SectionPacket → Except MuxError (List Bytes)
  | [] => pure []
  | packet :: packets => do
      let (table, complete) ← table.push packet.payload packet.isStart
      let others ← pushAll table packets
      pure (complete ++ others)

/-! ## Rounds -/

theorem IsSection.header (isSection : IsSection bytes) : 3 ≤ bytes.length := by
  rw [isSection.sized, declaredLength]
  exact Nat.le_add_left 3 _

theorem byteAt_append {i : Nat} (inside : i < bytes.length) (more : Bytes) :
    byteAt (bytes ++ more) i = byteAt bytes i := by
  rw [byteAt, byteAt, List.getD_eq_getElem?_getD, List.getD_eq_getElem?_getD,
    List.getElem?_append_left inside]

/-- The first three bytes of a section tell its length, whatever stands behind them. -/
theorem expect_section {header more : Bytes} (isSection : IsSection (header ++ rest))
    (known : 3 ≤ header.length) : Section.expect ⟨header ++ more, none⟩ =
      .ok (.known ⟨header ++ more, some (header ++ rest).length⟩ (header ++ rest).length) := by
  have same (i : Nat) (inside : i < 3) : byteAt (header ++ more) i = byteAt (header ++ rest) i := by
    rw [byteAt_append (by omega), byteAt_append (by omega)]
  have long : ¬ (header ++ more).length < 3 := by
    rw [List.length_append]
    omega
  unfold Section.expect
  rw [if_neg long, same 0 (by decide), if_neg isSection.table, same 1 (by decide),
    same 2 (by decide)]
  change (if maxSection < declaredLength (header ++ rest) then _ else _) = _
  rw [← isSection.sized, if_neg (Nat.not_lt.mpr isSection.small), isSection.sized]
  rfl

theorem sectionRounds_known (rounds : Nat) (bytes more : Bytes) (complete : List Bytes) :
    Section.sectionRounds (rounds + 1) ⟨bytes ++ more, some bytes.length⟩ complete =
      Section.sectionRounds rounds ⟨more, none⟩ (complete ++ [bytes]) := by
  have long : ¬ (bytes ++ more).length < bytes.length := by
    rw [List.length_append]
    omega
  rw [Section.sectionRounds]
  change (if _ then _ else _) = _
  rw [if_neg long, List.take_left, List.drop_left]

theorem sectionRounds_short (rounds : Nat) {total : Nat} (short : bytes.length < total)
    (complete : List Bytes) :
    Section.sectionRounds (rounds + 1) ⟨bytes, some total⟩ complete =
      .ok (⟨bytes, some total⟩, complete) := by
  rw [Section.sectionRounds]
  change (if _ then _ else _) = _
  rw [if_pos short]
  rfl

/-- A length that is found first counts as one already known. -/
theorem sectionRounds_expect (rounds : Nat) {header : Bytes} (more : Bytes)
    (isSection : IsSection (header ++ rest)) (known : 3 ≤ header.length) (complete : List Bytes) :
    Section.sectionRounds (rounds + 1) ⟨header ++ more, none⟩ complete =
      Section.sectionRounds (rounds + 1) ⟨header ++ more, some (header ++ rest).length⟩
        complete := by
  rw [Section.sectionRounds, Section.sectionRounds, expect_section isSection known]
  rfl

theorem sectionRounds_whole (rounds : Nat) (more : Bytes)
    (each : ∀ bytes ∈ whole, IsSection bytes) (complete : List Bytes) :
    Section.sectionRounds (whole.length + rounds) ⟨whole.flatten ++ more, none⟩ complete =
      Section.sectionRounds rounds ⟨more, none⟩ (complete ++ whole) := by
  induction whole generalizing complete with
  | nil => simp
  | cons bytes whole ih =>
    obtain ⟨isSection, others⟩ := List.forall_mem_cons.mp each
    have isWhole : IsSection (bytes ++ []) := by rwa [List.append_nil]
    rw [List.length_cons, Nat.add_right_comm, List.flatten_cons, List.append_assoc,
      sectionRounds_expect _ _ isWhole isSection.header, List.append_nil, sectionRounds_known,
      ih others, List.append_assoc]
    rfl

theorem sectionRounds_stuffing (rounds stuffing : Nat) (complete : List Bytes) :
    ∃ table : Section, table.expected = none ∧
      Section.sectionRounds (rounds + 1) ⟨List.replicate stuffing 0xFF, none⟩ complete =
        .ok (table, complete) := by
  by_cases few : stuffing < 3
  · refine ⟨⟨List.replicate stuffing 0xFF, none⟩, rfl, ?_⟩
    rw [Section.sectionRounds, Section.expect]
    rw [if_pos (by simp [few])]
    rfl
  · obtain ⟨stuffing, rfl⟩ := Nat.exists_eq_add_of_le (Nat.le_of_not_lt few)
    refine ⟨⟨[], none⟩, rfl, ?_⟩
    rw [Section.sectionRounds, Section.expect]
    rw [if_neg (by simp), if_pos (by rw [Nat.add_comm, List.replicate_succ]; rfl)]
    rfl

/-- The beginning of a section is kept with its length, or without one where it is short. -/
theorem sectionRounds_beginning (rounds : Nat) {beginning : Bytes}
    (isSection : IsSection (beginning ++ rest)) (unfinished : rest ≠ []) (complete : List Bytes) :
    Section.sectionRounds (rounds + 1) ⟨beginning, none⟩ complete =
      .ok (⟨beginning, if 3 ≤ beginning.length then some (beginning ++ rest).length else none⟩,
        complete) := by
  have left := List.length_pos_iff.mpr unfinished
  split
  · rename_i known
    have expected := sectionRounds_expect rounds [] isSection known complete
    rw [List.append_nil] at expected
    rw [expected]
    exact sectionRounds_short rounds (by rw [List.length_append]; omega) complete
  · rename_i short
    rw [Section.sectionRounds, Section.expect]
    dsimp only
    rw [if_pos (by omega)]
    rfl

/-! ## Packets -/

theorem flatten_length_ge (each : ∀ bytes ∈ whole, IsSection bytes) :
    whole.length ≤ whole.flatten.length := by
  induction whole with
  | nil => exact Nat.le_refl 0
  | cons bytes whole ih =>
    obtain ⟨isSection, others⟩ := List.forall_mem_cons.mp each
    have header := isSection.header
    have rest := ih others
    rw [List.length_cons, List.flatten_cons, List.length_append]
    omega

/-- What a packet that begins sections leaves to the rounds. -/
theorem push_start (table : Section) (beginning : Bytes) (stuffing : Nat)
    (pointer : tail.length < 256) (each : ∀ bytes ∈ whole, IsSection bytes) :
    ∃ rounds, table.push (SectionPacket.start tail whole beginning stuffing).payload true =
      Section.sectionRounds (rounds + 1) ⟨beginning ++ List.replicate stuffing 0xFF, none⟩
        whole := by
  have target : (UInt8.ofNat tail.length).toNat = tail.length := by
    rw [UInt8.toNat_ofNat', Nat.mod_eq_of_lt pointer]
  have inside : ¬ (tail ++ (whole.flatten ++ (beginning ++
      List.replicate stuffing 0xFF))).length < tail.length := by
    rw [List.length_append]
    omega
  have enough := flatten_length_ge each
  refine ⟨whole.flatten.length + (beginning ++ List.replicate stuffing 0xFF).length -
    whole.length, ?_⟩
  unfold Section.push SectionPacket.payload
  dsimp only
  rw [if_pos rfl, target, if_neg inside, List.drop_left]
  have rounds := sectionRounds_whole (whole.flatten.length +
    (beginning ++ List.replicate stuffing 0xFF).length - whole.length + 1)
    (beginning ++ List.replicate stuffing 0xFF) each []
  rw [List.nil_append] at rounds
  rw [← rounds, List.length_append]
  congr 1
  omega

theorem push_unknown (unknown : table.expected = none) (payload : Bytes) :
    table.push payload false = .ok (table, []) := by
  unfold Section.push
  rw [if_neg (by decide), unknown]
  rfl

theorem push_known (bytes payload : Bytes) (total : Nat) :
    Section.push ⟨bytes, some total⟩ payload false =
      Section.sectionRounds ((bytes ++ payload).length + 1) ⟨bytes ++ payload, some total⟩ [] := by
  rfl

theorem push_piece (read piece : Bytes) (unfinished : rest ≠ []) :
    Section.push ⟨read, some (read ++ (piece ++ rest)).length⟩
      (SectionPacket.more piece 0).payload false =
        .ok (⟨read ++ piece, some (read ++ piece ++ rest).length⟩, []) := by
  have left := List.length_pos_iff.mpr unfinished
  rw [SectionPacket.payload, List.replicate_zero, List.append_nil, push_known, List.append_assoc]
  refine sectionRounds_short _ ?_ []
  simp only [List.length_append]
  omega

theorem push_last {read : Bytes} (some_ : read ≠ []) (piece : Bytes) (stuffing : Nat) :
    ∃ table : Section, table.expected = none ∧
      Section.push ⟨read, some (read ++ piece).length⟩
        (SectionPacket.more piece stuffing).payload false = .ok (table, [read ++ piece]) := by
  have enough := List.length_pos_iff.mpr some_
  obtain ⟨rounds, count⟩ : ∃ rounds, (read ++ (piece ++ List.replicate stuffing 0xFF)).length =
      rounds + 1 := by
    refine Nat.exists_eq_add_of_le' ?_
    rw [List.length_append]
    omega
  rw [SectionPacket.payload, push_known, count, ← List.append_assoc, sectionRounds_known]
  exact sectionRounds_stuffing rounds stuffing _

/-! ## What comes out -/

/-- A packet that no section is lost in: none is finished before a pointer, and the first
three bytes of the one that goes on are in it. -/
def SectionPacket.Intact : SectionPacket → Prop
  | more .. => True
  | start tail _ beginning _ => tail = [] ∧ (beginning = [] ∨ 3 ≤ beginning.length)

variable {packets : List SectionPacket}

theorem pushAll_cons {packet : SectionPacket} {others : List Bytes}
    (pushed : table.push packet.payload packet.isStart =
      .ok (next, complete)) (rest : pushAll next packets = .ok others) :
    pushAll table (packet :: packets) = .ok (complete ++ others) := by
  rw [pushAll, pushed]
  change Except.bind (pushAll next packets) _ = _
  rw [rest]
  rfl

/-- Some of these sections come out of the packets. -/
def Misses (table : Section) (packets : List SectionPacket) (sections : List Bytes) : Prop :=
  ∃ found, pushAll table packets = .ok found ∧ found.Sublist sections

/-- Some of these sections come out of the packets, all of them only if they are intact. -/
structure Yields (table : Section) (packets : List SectionPacket) (sections : List Bytes) :
    Prop where
  misses : Misses table packets sections
  all : pushAll table packets = .ok sections ↔ ∀ packet ∈ packets, packet.Intact

theorem Misses.cons (packet : SectionPacket) {table next : Section} {complete sections : List Bytes}
    {packets : List SectionPacket} (pushed : table.push packet.payload packet.isStart =
      .ok (next, complete)) (misses : Misses next packets sections) :
    Misses table (packet :: packets) (complete ++ sections) := by
  obtain ⟨found, rest, some_⟩ := misses
  exact ⟨complete ++ found, pushAll_cons pushed rest, some_.append_left complete⟩

theorem Yields.intact (packet : SectionPacket)
    (pushed : table.push packet.payload packet.isStart = .ok (next, complete))
    (intact : packet.Intact) (yields : Yields next packets sections) :
    Yields table (packet :: packets) (complete ++ sections) := by
  obtain ⟨found, rest, some_⟩ := yields.misses
  have all := yields.all
  rw [rest] at all
  refine ⟨yields.misses.cons packet pushed, ?_⟩
  rw [pushAll_cons pushed rest, List.forall_mem_cons, and_iff_right intact, ← all]
  constructor
  · intro same
    rw [List.append_cancel_left (Except.ok.inj same)]
  · intro same
    rw [Except.ok.inj same]

/-- A packet that loses one of the sections. -/
theorem Yields.lossy (packet : SectionPacket) {wanted : List Bytes}
    (pushed : table.push packet.payload packet.isStart = .ok (next, complete))
    (lost : ¬ packet.Intact) (misses : Misses next packets sections)
    (sublist : (complete ++ sections).Sublist wanted)
    (fewer : (complete ++ sections).length < wanted.length) :
    Yields table (packet :: packets) wanted := by
  obtain ⟨found, rest, some_⟩ := misses
  have within := some_.append_left complete
  refine ⟨⟨complete ++ found, pushAll_cons pushed rest, within.trans sublist⟩, ?_⟩
  rw [pushAll_cons pushed rest]
  constructor
  · intro same
    have short := within.length_le
    rw [Except.ok.inj same] at short
    omega
  · intro intact
    exact absurd (intact packet List.mem_cons_self) lost

theorem push_between (table : Section) (stuffing : Nat) (pointer : tail.length < 256)
    (each : ∀ bytes ∈ whole, IsSection bytes) :
    ∃ next : Section, next.expected = none ∧
      table.push (SectionPacket.start tail whole [] stuffing).payload true = .ok (next, whole) := by
  obtain ⟨rounds, pushed⟩ := push_start table [] stuffing pointer each
  rw [pushed]
  exact sectionRounds_stuffing rounds stuffing whole

theorem push_begins (table : Section) {beginning : Bytes} (pointer : tail.length < 256)
    (each : ∀ bytes ∈ whole, IsSection bytes) (isSection : IsSection (beginning ++ rest))
    (unfinished : rest ≠ []) :
    table.push (SectionPacket.start tail whole beginning 0).payload true =
      .ok (⟨beginning, if 3 ≤ beginning.length then some (beginning ++ rest).length else none⟩,
        whole) := by
  obtain ⟨rounds, pushed⟩ := push_start table beginning 0 pointer each
  rw [pushed, List.replicate_zero, List.append_nil]
  exact sectionRounds_beginning rounds isSection unfinished whole

/-- What comes out where the section under way has been lost, and where it is being read. -/
theorem packetized_yields (packetized : Packetizes rest sections packets)
    (each : ∀ bytes ∈ sections, IsSection bytes) :
    (∀ table : Section, table.expected = none → Misses table packets sections ∧
      (rest = [] → Yields table packets sections)) ∧
      ∀ read : Bytes, 3 ≤ read.length → rest ≠ [] →
        Yields ⟨read, some (read ++ rest).length⟩ packets ((read ++ rest) :: sections) := by
  induction packetized with
  | done =>
    have yields (table : Section) : Yields table [] [] :=
      ⟨⟨[], rfl, .slnil⟩, ⟨fun _ _ member => absurd member List.not_mem_nil, fun _ => rfl⟩⟩
    exact ⟨fun table _ => ⟨(yields table).misses, fun _ => yields table⟩,
      fun _ _ some_ => absurd rfl some_⟩
  | @more piece rest sections packets stuffing last onward ih =>
    obtain ⟨missed, followed⟩ := ih each
    constructor
    · intro table unknown
      have pushed := push_unknown unknown (SectionPacket.more piece stuffing).payload
      obtain ⟨misses, yields⟩ := missed table unknown
      refine ⟨misses.cons (.more piece stuffing) pushed, fun none => ?_⟩
      exact .intact (.more piece stuffing) pushed trivial
        (yields (List.append_eq_nil_iff.mp none).2)
    · intro read known some_
      by_cases finished : rest = []
      · have begun : read ≠ [] := List.length_pos_iff.mp (Nat.lt_of_lt_of_le (by decide) known)
        obtain ⟨next, unknown, pushed⟩ := push_last begun piece stuffing
        rw [finished, List.append_nil]
        exact .intact (.more piece stuffing) pushed trivial
          ((missed next unknown).2 finished)
      · rw [last.resolve_right finished]
        have further := followed (read ++ piece) (by rw [List.length_append]; omega) finished
        have yields := Yields.intact (.more piece 0) (push_piece read piece finished)
          trivial further
        rwa [List.nil_append, List.append_assoc] at yields
  | @between tail whole sections packets stuffing pointer some_ onward ih =>
    obtain ⟨wholeSections, others⟩ := List.forall_mem_append.mp each
    obtain ⟨missed, _⟩ := ih others
    constructor
    · intro table _
      obtain ⟨next, unknown, pushed⟩ := push_between table stuffing pointer wholeSections
      obtain ⟨misses, yields⟩ := missed next unknown
      refine ⟨misses.cons (.start tail whole [] stuffing) pushed, fun none => ?_⟩
      exact .intact (.start tail whole [] stuffing) pushed ⟨none, .inl rfl⟩ (yields rfl)
    · intro read _ some_
      obtain ⟨next, unknown, pushed⟩ := push_between ⟨read, _⟩ stuffing pointer wholeSections
      exact .lossy (.start tail whole [] stuffing) pushed (fun intact => some_ intact.1)
        (missed next unknown).1 (List.sublist_cons_self _ _) (by simp)
  | @begins tail beginning rest whole sections packets pointer begun unfinished onward ih =>
    obtain ⟨wholeSections, others⟩ := List.forall_mem_append.mp each
    obtain ⟨isSection, others⟩ := List.forall_mem_cons.mp others
    obtain ⟨missed, followed⟩ := ih others
    have push (table : Section) := push_begins table pointer wholeSections isSection unfinished
    by_cases known : 3 ≤ beginning.length
    · rw [if_pos known] at push
      have yields := followed beginning known unfinished
      constructor
      · intro table _
        exact ⟨yields.misses.cons (.start tail whole beginning 0) (push table), fun none =>
          .intact (.start tail whole beginning 0) (push table) ⟨none, .inr known⟩ yields⟩
      · intro read _ some_
        exact .lossy (.start tail whole beginning 0) (push _) (fun intact => some_ intact.1)
          yields.misses (List.sublist_cons_self _ _) (by simp)
    · rw [if_neg known] at push
      have misses := (missed ⟨beginning, none⟩ rfl).1
      have lost : ¬ (SectionPacket.start tail whole beginning 0).Intact := fun intact =>
        known (intact.2.resolve_left begun)
      have sublist : (whole ++ sections).Sublist (whole ++ (beginning ++ rest) :: sections) :=
        (List.sublist_cons_self _ _).append_left whole
      have yields (table : Section) : Yields table (.start tail whole beginning 0 :: packets)
          (whole ++ (beginning ++ rest) :: sections) :=
        .lossy _ (push table) lost misses sublist (by simp)
      constructor
      · intro table _
        exact ⟨(yields table).misses, fun _ => yields table⟩
      · intro read _ some_
        refine .lossy _ (push _) lost misses (sublist.trans (List.sublist_cons_self _ _)) ?_
        simp only [List.length_append, List.length_cons]
        omega

/-- The sections come out of the packets that carry them exactly when no packet loses one. -/
theorem sections_reassembled_iff {sections : List Bytes} {packets : List SectionPacket}
    (each : ∀ bytes ∈ sections, IsSection bytes) (packetized : Packetizes [] sections packets) :
    pushAll .default packets = .ok sections ↔ ∀ packet ∈ packets, packet.Intact :=
  ((packetized_yields packetized each).1 .default rfl).2 rfl |>.all

/-! ## Two small tables -/

def smallTables : List Bytes := [[0x00, 0xB0, 0x02, 0xAA, 0xBB], [0x02, 0xB0, 0x01, 0xCC]]

theorem smallTables_sections : ∀ bytes ∈ smallTables, IsSection bytes := by
  intro bytes member
  simp only [smallTables, List.mem_cons, List.not_mem_nil, or_false] at member
  cases member with
  | inl first => exact first ▸ ⟨by decide, by decide, by decide⟩
  | inr second => exact second ▸ ⟨by decide, by decide, by decide⟩

/-- The second table goes on in a packet of its own. -/
def continued : List SectionPacket :=
  [.start [] [[0x00, 0xB0, 0x02, 0xAA, 0xBB]] [0x02, 0xB0, 0x01] 0, .more [0xCC] 4]

theorem continued_packetized : Packetizes [] smallTables continued := by
  have last : Packetizes [0xCC] [] [.more [0xCC] 4] :=
    @Packetizes.more [0xCC] [] [] [] 4 (.inr rfl) .done
  exact @Packetizes.begins [] [0x02, 0xB0, 0x01] [0xCC] [[0x00, 0xB0, 0x02, 0xAA, 0xBB]] [] _
    (by decide) (by decide) (by decide) last

theorem sections_reassembled_iff_continued :
    pushAll .default continued = .ok smallTables ↔ ∀ packet ∈ continued, packet.Intact :=
  sections_reassembled_iff smallTables_sections continued_packetized

/-- The second table begins in the packet that the first one ends in. -/
def shared : List SectionPacket :=
  [.start [] [] [0x00, 0xB0, 0x02, 0xAA] 0, .start [0xBB] [[0x02, 0xB0, 0x01, 0xCC]] [] 4]

theorem shared_packetized : Packetizes [] smallTables shared := by
  have last : Packetizes [0xBB] [[0x02, 0xB0, 0x01, 0xCC]]
      [.start [0xBB] [[0x02, 0xB0, 0x01, 0xCC]] [] 4] :=
    @Packetizes.between [0xBB] [[0x02, 0xB0, 0x01, 0xCC]] [] [] 4 (by decide) (by decide) .done
  exact @Packetizes.begins [] [0x00, 0xB0, 0x02, 0xAA] [0xBB] [] _ _ (by decide) (by decide)
    (by decide) last

/-- The tail before the pointer's target is dropped, and the table with it. -/
theorem tail_before_pointer_is_lost : (∀ bytes ∈ smallTables, IsSection bytes) ∧
    Packetizes [] smallTables shared ∧ pushAll .default shared = .ok [[0x02, 0xB0, 0x01, 0xCC]] ∧
      pushAll .default shared ≠ .ok smallTables := by
  have pushed : pushAll .default shared = .ok [[0x02, 0xB0, 0x01, 0xCC]] := by rfl
  refine ⟨smallTables_sections, shared_packetized, pushed, ?_⟩
  rw [pushed]
  intro same
  exact absurd (Except.ok.inj same) (by decide)

end Gunda.Stream.Ts
