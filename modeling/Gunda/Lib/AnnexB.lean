import Gunda.Lib.Bytes
import Mathlib.Data.List.DropRight
import Mathlib.Data.List.Infix

/-!
# Byte streams delimited by start codes

Units behind `00 00 01`, with any zero bytes around them. A reader may be given the
stream in pieces: `Scan.append` says that it finds the same units.
-/
namespace Gunda.Lib.AnnexB

variable {bytes before rest rest' unit : Bytes} {units units' : List Bytes}

def startCode : Bytes := [0, 0, 1]

def zeros (count : Nat) : Bytes := List.replicate count 0

/-- What stands before the first start code and what follows it. -/
def splitStart : Bytes → Option (Bytes × Bytes)
  | a :: b :: c :: rest =>
      if a = 0 ∧ b = 0 ∧ c = 1 then some ([], rest)
      else (splitStart (b :: c :: rest)).map fun found => (a :: found.1, found.2)
  | _ => none

theorem zeros_append (a b : Nat) (rest : Bytes) :
    zeros a ++ (zeros b ++ rest) = zeros (a + b) ++ rest := by
  rw [← List.append_assoc, zeros, zeros, List.replicate_append_replicate]
  rfl

def trimTrailingZeros (bytes : Bytes) : Bytes := bytes.rdropWhile (· = 0)

@[simp] theorem splitStart_startCode (rest : Bytes) :
    splitStart (startCode ++ rest) = some ([], rest) := by
  simp [startCode, splitStart]

theorem splitStart_eq_some {after : Bytes} (h : splitStart bytes = some (before, after)) :
    bytes = before ++ startCode ++ after := by
  induction bytes using splitStart.induct generalizing before with
  | case1 a b c rest here =>
    obtain ⟨rfl, rfl, rfl⟩ := here
    rw [splitStart, if_pos ⟨rfl, rfl, rfl⟩] at h
    cases h
    rfl
  | case2 a b c rest notHere ih =>
    rw [splitStart, if_neg notHere] at h
    obtain ⟨found, searched, same⟩ := Option.map_eq_some_iff.mp h
    cases same
    rw [ih searched]
    rfl
  | case3 bytes short =>
    rw [splitStart.eq_2 bytes short] at h
    cases h

/-- A start code stays the first one when more bytes arrive. -/
theorem splitStart_append {after : Bytes} (more : Bytes)
    (h : splitStart bytes = some (before, after)) :
    splitStart (bytes ++ more) = some (before, after ++ more) := by
  induction bytes using splitStart.induct generalizing before with
  | case1 a b c rest here =>
    rw [splitStart, if_pos here] at h
    cases h
    simp only [List.cons_append, splitStart, if_pos here]
  | case2 a b c rest notHere ih =>
    rw [splitStart, if_neg notHere] at h
    obtain ⟨found, searched, same⟩ := Option.map_eq_some_iff.mp h
    cases same
    have later := ih searched
    simp only [List.cons_append] at later
    simp only [List.cons_append, splitStart, if_neg notHere, later, Option.map_some]
  | case3 bytes short =>
    rw [splitStart.eq_2 bytes short] at h
    cases h

/-! ## Cutting -/

/-- The bytes behind a start code, the units that later start codes close, and the
bytes of the unit still open. -/
inductive Cuts : Bytes → List Bytes → Bytes → Prop where
  | still {bytes : Bytes} (none : splitStart bytes = none) : Cuts bytes [] bytes
  | close {bytes body after rest : Bytes} {units : List Bytes}
      (found : splitStart bytes = some (body, after)) (others : Cuts after units rest) :
      Cuts bytes (trimTrailingZeros body :: units) rest

theorem Cuts.append {more : Bytes} (first : Cuts bytes units rest)
    (second : Cuts (rest ++ more) units' rest') :
    Cuts (bytes ++ more) (units ++ units') rest' := by
  induction first with
  | still none => exact second
  | close found _ ih => exact .close (splitStart_append more found) (ih second)

theorem Cuts.det (first : Cuts bytes units rest) (second : Cuts bytes units' rest') :
    units = units' ∧ rest = rest' := by
  induction first generalizing units' with
  | still none =>
    cases second with
    | still _ => exact ⟨rfl, rfl⟩
    | close found _ =>
      rw [none] at found
      cases found
  | close found _ ih =>
    cases second with
    | still none =>
      rw [none] at found
      cases found
    | close found' others =>
      rw [found] at found'
      cases found'
      obtain ⟨same, left⟩ := ih others
      exact ⟨by rw [same], left⟩

/-- The bytes received, the units closed, and the bytes kept. -/
inductive Scan : Bytes → List Bytes → Bytes → Prop where
  | idle {bytes : Bytes} (none : splitStart bytes = none) : Scan bytes [] bytes
  | begun {bytes before after rest : Bytes} {units : List Bytes}
      (found : splitStart bytes = some (before, after)) (cuts : Cuts after units rest) :
      Scan bytes units (startCode ++ rest)

theorem Scan.append {more : Bytes} (first : Scan bytes units rest)
    (second : Scan (rest ++ more) units' rest') :
    Scan (bytes ++ more) (units ++ units') rest' := by
  cases first with
  | idle none => exact second
  | begun found cuts =>
    rw [List.append_assoc] at second
    cases second with
    | idle none =>
      rw [splitStart_startCode] at none
      cases none
    | begun again others =>
      rw [splitStart_startCode] at again
      cases again
      exact .begun (splitStart_append more found) (cuts.append others)

theorem Scan.det (first : Scan bytes units rest) (second : Scan bytes units' rest') :
    units = units' ∧ rest = rest' := by
  cases first with
  | idle none =>
    cases second with
    | idle _ => exact ⟨rfl, rfl⟩
    | begun found _ =>
      rw [none] at found
      cases found
  | begun found cuts =>
    cases second with
    | idle none =>
      rw [none] at found
      cases found
    | begun found' others =>
      rw [found] at found'
      cases found'
      obtain ⟨same, left⟩ := cuts.det others
      exact ⟨same, by rw [left]⟩

theorem Cuts.exists (bytes : Bytes) : ∃ units rest, Cuts bytes units rest := by
  induction size : bytes.length using Nat.strong_induction_on generalizing bytes with
  | _ size ih =>
    cases found : splitStart bytes with
    | none => exact ⟨[], bytes, .still found⟩
    | some split =>
      have shape := congrArg List.length (splitStart_eq_some found)
      simp only [List.length_append, startCode, List.length_cons, List.length_nil] at shape
      obtain ⟨units, rest, others⟩ := ih split.2.length (by omega) split.2 rfl
      exact ⟨_, rest, .close found others⟩

theorem Scan.exists (bytes : Bytes) : ∃ units rest, Scan bytes units rest := by
  cases found : splitStart bytes with
  | none => exact ⟨[], bytes, .idle found⟩
  | some split =>
    obtain ⟨units, rest, cuts⟩ := Cuts.exists split.2
    exact ⟨units, _, .begun found cuts⟩

theorem trimTrailingZeros_length_le (bytes : Bytes) :
    (trimTrailingZeros bytes).length ≤ bytes.length :=
  (List.rdropWhile_prefix _ bytes).length_le

/-- No unit is longer than the bytes it was found in. -/
theorem Cuts.length_le (cuts : Cuts bytes units rest) :
    ∀ unit ∈ units, unit.length ≤ bytes.length := by
  induction cuts with
  | still none => exact fun unit member => absurd member List.not_mem_nil
  | @close bytes body after rest units found _ ih =>
    have shape := congrArg List.length (splitStart_eq_some found)
    simp only [List.length_append, startCode, List.length_cons, List.length_nil] at shape
    intro unit member
    rcases List.mem_cons.mp member with rfl | later
    · have trimmed := trimTrailingZeros_length_le body
      omega
    · have bound := ih unit later
      omega

theorem Scan.length_le (scan : Scan bytes units rest) :
    ∀ unit ∈ units, unit.length ≤ bytes.length := by
  cases scan with
  | idle none => exact fun unit member => absurd member List.not_mem_nil
  | begun found cuts =>
    have shape := congrArg List.length (splitStart_eq_some found)
    simp only [List.length_append, startCode, List.length_cons, List.length_nil] at shape
    intro unit member
    have bound := cuts.length_le unit member
    omega

/-! ## Counting -/

/-- How many start codes there are. -/
def startCodes : Bytes → Nat
  | a :: b :: c :: rest =>
      (if a = 0 ∧ b = 0 ∧ c = 1 then 1 else 0) + startCodes (b :: c :: rest)
  | _ => 0

theorem startCodes_cons_le (byte : UInt8) (bytes : Bytes) :
    startCodes bytes ≤ startCodes (byte :: bytes) := by
  match bytes with
  | [] => exact Nat.le_refl _
  | [_] => exact Nat.le_refl _
  | _ :: _ :: _ =>
    conv_rhs => unfold startCodes
    exact Nat.le_add_left _ _

theorem startCodes_suffix_le (before bytes : Bytes) :
    startCodes bytes ≤ startCodes (before ++ bytes) := by
  induction before with
  | nil => exact Nat.le_refl _
  | cons byte before ih => exact ih.trans (startCodes_cons_le byte _)

theorem startCodes_startCode (rest : Bytes) :
    startCodes (0 :: 0 :: 1 :: rest) = startCodes rest + 1 := by
  have second : startCodes (0 :: 1 :: rest) = startCodes rest := by
    match rest with
    | [] => rfl
    | [_] => rfl
    | b :: c :: rest =>
      simp [startCodes]
  rw [startCodes, second, if_pos ⟨rfl, rfl, rfl⟩, Nat.add_comm]

theorem startCodes_eq (bytes : Bytes) :
    startCodes bytes = (splitStart bytes).elim 0 fun found => startCodes found.2 + 1 := by
  induction bytes using splitStart.induct with
  | case1 a b c rest here =>
    rw [splitStart, if_pos here]
    obtain ⟨rfl, rfl, rfl⟩ := here
    exact startCodes_startCode rest
  | case2 a b c rest notHere ih =>
    rw [splitStart, if_neg notHere, startCodes, if_neg notHere, Nat.zero_add, ih]
    cases splitStart (b :: c :: rest) <;> rfl
  | case3 bytes short =>
    rw [splitStart.eq_2 bytes short, startCodes.eq_2 bytes short]
    rfl

theorem Cuts.count (cuts : Cuts bytes units rest) :
    units.length = startCodes bytes := by
  induction cuts with
  | still none =>
    rw [startCodes_eq, none]
    rfl
  | close found _ ih =>
    rw [startCodes_eq, found, List.length_cons, ih]
    rfl

/-- Every start code but the first closes a unit. -/
theorem Scan.count (scan : Scan bytes units rest) :
    units.length = startCodes bytes - 1 := by
  cases scan with
  | idle none =>
    rw [startCodes_eq, none]
    rfl
  | begun found cuts =>
    rw [startCodes_eq, found, cuts.count]
    rfl

/-- A reader that misses the start of a stream finds no more units. -/
theorem Scan.length_suffix_le (whole : Scan (before ++ bytes) units rest)
    (scan : Scan bytes units' rest') :
    units'.length ≤ units.length := by
  have fewer := startCodes_suffix_le before bytes
  rw [whole.count, scan.count]
  omega

/-! ## Streams -/

/-- A unit that holds no start code, and whose last byte is not zero. -/
structure Delimitable (unit : Bytes) : Prop where
  clean : ¬ startCode <:+: unit
  last : ∃ body byte, unit = body ++ [byte] ∧ byte ≠ 0

/-- A unit and the zero bytes ahead of its start code. -/
structure Entry where
  zeros : Nat
  unit : Bytes

def Entry.encode (entry : Entry) : Bytes := AnnexB.zeros entry.zeros ++ startCode ++ entry.unit

def encode (entries : List Entry) : Bytes := entries.flatMap Entry.encode

/-- A unit without a start code whose last byte is not zero. -/
theorem Delimitable.of_getLast (clean : ¬ startCode <:+: unit) (some_ : unit.getLast? ≠ none)
    (last : unit.getLast? ≠ some 0) : Delimitable unit := by
  refine ⟨clean, ?_⟩
  obtain ⟨byte, same⟩ := Option.ne_none_iff_exists'.mp some_
  obtain ⟨body, shape⟩ := List.getLast?_eq_some_iff.mp same
  refine ⟨body, byte, shape, fun zero => last ?_⟩
  rw [same, zero]

theorem Delimitable.ne_nil (h : Delimitable unit) : unit ≠ [] := by
  obtain ⟨body, byte, rfl, _⟩ := h.last
  simp

theorem trimTrailingZeros_append_zeros (h : Delimitable unit) (count : Nat) :
    trimTrailingZeros (unit ++ zeros count) = unit := by
  obtain ⟨body, byte, rfl, nonzero⟩ := h.last
  unfold trimTrailingZeros
  induction count with
  | zero =>
    rw [zeros, List.replicate_zero, List.append_nil]
    exact List.rdropWhile_concat_neg _ _ _ (by simpa using nonzero)
  | succ count ih =>
    rw [zeros, List.replicate_succ', ← List.append_assoc,
      List.rdropWhile_concat_pos _ _ _ (by simp)]
    exact ih

theorem splitStart_zeros (count : Nat) : splitStart (zeros count) = none := by
  induction count with
  | zero => rfl
  | succ count ih =>
    match count with
    | 0 => rfl
    | 1 => rfl
    | rest + 2 =>
      have shape : zeros (rest + 3) = 0 :: 0 :: 0 :: zeros rest := rfl
      have shorter : zeros (rest + 2) = 0 :: 0 :: zeros rest := rfl
      rw [shorter] at ih
      rw [shape, splitStart, if_neg (by decide), ih, Option.map_none]

theorem splitStart_zeros_startCode (count : Nat) (after : Bytes) :
    splitStart (zeros count ++ startCode ++ after) = some (zeros count, after) := by
  induction count with
  | zero => exact splitStart_startCode after
  | succ count ih =>
    match count with
    | 0 => simp [zeros, startCode, splitStart]
    | 1 => simp [zeros, startCode, splitStart]
    | rest + 2 =>
      have shape : zeros (rest + 3) = 0 :: 0 :: 0 :: zeros rest := rfl
      have shorter : zeros (rest + 2) = 0 :: 0 :: zeros rest := rfl
      rw [shorter] at ih
      simp only [List.cons_append] at ih
      rw [shape]
      simp only [List.cons_append]
      rw [splitStart, if_neg (by decide), ih, Option.map_some]

/-- The search runs over a delimitable unit to what follows it. -/
theorem splitStart_unit (h : Delimitable unit) (rest : Bytes) :
    splitStart (unit ++ rest) = (splitStart rest).map fun found => (unit ++ found.1, found.2) := by
  obtain ⟨body, byte, rfl, nonzero⟩ := h.last
  have clean := h.clean
  clear h
  induction body with
  | nil =>
    match rest with
    | [] => rfl
    | [_] => rfl
    | b :: c :: rest =>
      rw [List.nil_append, List.singleton_append, splitStart, if_neg fun same => nonzero same.1]
      rfl
  | cons first body ih =>
    have tail := ih fun inside => clean (inside.trans (List.suffix_cons _ _).isInfix)
    have notHere : ∀ b c others, body ++ [byte] ++ rest = b :: c :: others →
        ¬ (first = 0 ∧ b = 0 ∧ c = 1) := by
      rintro b c others shape ⟨rfl, rfl, rfl⟩
      match body with
      | [] =>
        cases shape
        exact nonzero rfl
      | [_] =>
        cases shape
        exact clean (List.infix_refl _)
      | _ :: _ :: more =>
        cases shape
        exact clean ⟨[], more ++ [byte], rfl⟩
    match shape : body ++ [byte] ++ rest with
    | [] => simp at shape
    | [b] =>
      obtain ⟨rfl, rfl⟩ : body = [] ∧ rest = [] := by
        cases body <;> cases rest <;> simp_all
      rfl
    | b :: c :: others =>
      rw [List.cons_append, List.cons_append, shape, splitStart, if_neg (notHere b c others shape),
        ← shape, tail]
      cases splitStart rest <;> rfl

/-- A stream after a unit: every unit but the last is closed. -/
theorem cuts_encode (h : Delimitable unit) (gap trailing : Nat) {entries : List Entry}
    (all : ∀ entry ∈ entries, Delimitable entry.unit) :
    Cuts (unit ++ zeros gap ++ encode entries ++ zeros trailing)
      ((unit :: entries.map (·.unit)).dropLast)
      ((entries.map (·.unit)).getLastD unit ++
        zeros (if entries = [] then gap + trailing else trailing)) := by
  induction entries generalizing unit gap with
  | nil =>
    have shape : unit ++ zeros gap ++ encode [] ++ zeros trailing =
        unit ++ zeros (gap + trailing) := by
      simp only [encode, List.flatMap_nil, List.append_nil, List.append_assoc, zeros,
        List.replicate_append_replicate]
    rw [shape]
    exact .still (by rw [splitStart_unit h, splitStart_zeros, Option.map_none])
  | cons entry entries ih =>
    have shape : unit ++ zeros gap ++ encode (entry :: entries) ++ zeros trailing =
        unit ++ (zeros (gap + entry.zeros) ++ startCode ++
          (entry.unit ++ zeros 0 ++ encode entries ++ zeros trailing)) := by
      simp only [encode, List.flatMap_cons, Entry.encode, List.append_assoc, zeros_append]
      rfl
    have others := ih (all entry List.mem_cons_self) 0
      (fun entry member => all entry (List.mem_cons_of_mem _ member))
    have closed : Cuts (unit ++ (zeros (gap + entry.zeros) ++ startCode ++
        (entry.unit ++ zeros 0 ++ encode entries ++ zeros trailing)))
        (trimTrailingZeros (unit ++ zeros (gap + entry.zeros)) ::
          (entry.unit :: entries.map (·.unit)).dropLast)
        ((entries.map (·.unit)).getLastD entry.unit ++
          zeros (if entries = [] then 0 + trailing else trailing)) :=
      .close (by rw [splitStart_unit h, splitStart_zeros_startCode, Option.map_some]) others
    rw [trimTrailingZeros_append_zeros h] at closed
    rw [shape]
    simpa only [List.map_cons, List.getLastD_cons, List.dropLast_cons_cons, Nat.zero_add, ite_self,
      reduceCtorEq, if_false] using closed

/-- Of a stream all units but the last are closed. -/
theorem scan_encode {first : Entry} {entries : List Entry} (trailing : Nat)
    (all : ∀ entry ∈ first :: entries, Delimitable entry.unit) :
    Scan (encode (first :: entries) ++ zeros trailing)
      ((first :: entries).map (·.unit)).dropLast
      (startCode ++ ((entries.map (·.unit)).getLastD first.unit ++ zeros trailing)) := by
  have shape : encode (first :: entries) ++ zeros trailing = zeros first.zeros ++ startCode ++
      (first.unit ++ zeros 0 ++ encode entries ++ zeros trailing) := by
    simp [encode, Entry.encode, zeros, List.append_assoc]
  have cuts := cuts_encode (all first List.mem_cons_self) 0 trailing
    (fun entry member => all entry (List.mem_cons_of_mem _ member))
  rw [Nat.zero_add, ite_self] at cuts
  rw [shape]
  exact .begun (splitStart_zeros_startCode _ _) cuts

end Gunda.Lib.AnnexB
