import Gunda.Http.Finalize
import Gunda.Lib.Paths
import Mathlib.Data.List.DropRight

/-!
# Names that can be published

What `validate_filename` asks of a name, and that the names tried on a conflict have it too.
-/
namespace Gunda.Http

open Gunda.Lib Gunda.Lib.Text
open Gunda.Core (Url DownloadId DownloadDestination ResolvedDestination)

variable {base name text stem : Text} {filename : String} {c separator : Char} {attempt : Nat}

/-! ## Rules -/

/-- What comes in front of the first dot, as a device is looked for. -/
def deviceBase (name : Text) : Text :=
  ((((toAsciiUppercase name).takeWhile (· ≠ '.'))).reverse.dropWhile (· = ' ')).reverse

/-- The names of devices. -/
def devices : List Text :=
  deviceNames ++ ["COM".toList, "LPT".toList].flatMap fun port => portNumbers.map (port ++ ·)

/-- The rules for names but for the limit of their length. -/
structure Clean (name : Text) : Prop where
  filled : name ≠ []
  dot : name ≠ ['.']
  dots : name ≠ ['.', '.']
  ended : name.getLast? ≠ some ' ' ∧ name.getLast? ≠ some '.'
  plain : ∀ c ∈ name, isControl c = false ∧ isForbidden c = false
  unstaged : ¬ ".GUNDA-".toList <+: toAsciiUppercase name
  device : deviceBase name ∉ devices

theorem isPort_iff :
    isPort base = true ↔ base ∈ ["COM".toList, "LPT".toList].flatMap fun port =>
      portNumbers.map (port ++ ·) := by
  unfold isPort
  rw [List.any_eq_true, List.mem_flatMap]
  refine exists_congr fun port => and_congr_right fun _ => ?_
  rw [List.mem_map]
  constructor
  · intro h
    cases stripped : stripPrefix port base with
    | none =>
      rw [stripped] at h
      cases h
    | some suffix =>
      rw [stripped] at h
      exact ⟨suffix, List.contains_iff_mem.mp h, (stripPrefix_eq_some stripped).symm⟩
  · intro h
    obtain ⟨suffix, member, same⟩ := h
    rw [← same, stripPrefix_append]
    exact List.contains_iff_mem.mpr member

theorem mem_devices : base ∈ devices ↔ base ∈ deviceNames ∨ isPort base = true := by
  rw [devices, List.mem_append, isPort_iff]

theorem validateFilename_ok_iff : validateFilename filename = .ok () ↔
    Clean filename.toList ∧ byteLength filename.toList ≤ 200 := by
  have base : (((splitAll '.' (toAsciiUppercase filename.toList)).headD []).reverse.dropWhile
      (· = ' ')).reverse = deviceBase filename.toList := by
    rw [headD_splitAll, deviceBase]
  have chars : filename.toList.any (fun c => isControl c || isForbidden c) = false ↔
      ∀ c ∈ filename.toList, isControl c = false ∧ isForbidden c = false := by
    simp only [List.any_eq_false, Bool.or_eq_true, not_or, Bool.not_eq_true]
  have dot : filename = "." ↔ filename.toList = ['.'] := String.toList_inj.symm
  have dots : filename = ".." ↔ filename.toList = ['.', '.'] := String.toList_inj.symm
  unfold validateFilename
  dsimp only
  rw [base, utf8ByteSize_eq]
  constructor
  · intro h
    split at h
    · cases h
    · rename_i rules
      split at h
      · cases h
      · rename_i unstaged
        split at h
        · cases h
        · rename_i device
          simp only [not_or, Bool.not_eq_true] at rules
          obtain ⟨filled, short, one, two, space, period, plain⟩ := rules
          rw [List.isPrefixOf_iff_prefix] at unstaged
          rw [← mem_devices] at device
          exact ⟨⟨filled, mt dot.mpr one, mt dots.mpr two, ⟨space, period⟩, chars.mp plain, unstaged,
            device⟩, Nat.not_lt.mp short⟩
  · intro h
    obtain ⟨clean, short⟩ := h
    have unstaged := clean.unstaged
    have device := clean.device
    rw [← List.isPrefixOf_iff_prefix] at unstaged
    rw [mem_devices] at device
    rw [if_neg, if_neg unstaged, if_neg device]
    simp only [not_or, Bool.not_eq_true]
    exact ⟨clean.filled, Nat.not_lt.mpr short, mt dot.mp clean.dot, mt dots.mp clean.dots,
      clean.ended.1, clean.ended.2, chars.mpr clean.plain⟩

theorem Clean.separators (clean : Clean name) : '/' ∉ name := by
  intro separated
  have forbidden := (clean.plain '/' separated).2
  revert forbidden
  decide

theorem Clean.component (clean : Clean name) : components name = [name] :=
  components_plain clean.separators clean.filled

/-! ## Names made of others -/

theorem toAsciiUppercase_append (a b : Text) :
    toAsciiUppercase (a ++ b) = toAsciiUppercase a ++ toAsciiUppercase b := List.map_append

/-- A name that does not lie in the staging namespace may go on otherwise after its first part. -/
theorem unstaged_insert {front rest rest' : Text} {c : Char} (filled : front ≠ [])
    (other : c.toUpper ∉ "GUNDA-".toList)
    (h : ¬ ".GUNDA-".toList <+: toAsciiUppercase (front ++ rest)) :
    ¬ ".GUNDA-".toList <+: toAsciiUppercase (front ++ c :: rest') := by
  intro staged
  apply h
  cases front with
  | nil => exact absurd rfl filled
  | cons d front =>
    obtain ⟨first, later⟩ := List.cons_prefix_cons.mp staged
    refine List.cons_prefix_cons.mpr ⟨first, ?_⟩
    change _ <+: toAsciiUppercase (front ++ c :: rest') at later
    change _ <+: toAsciiUppercase (front ++ rest)
    rw [toAsciiUppercase_append] at later ⊢
    exact (prefix_of_not_mem other later).trans (List.prefix_append _ _)

theorem deviceBase_dot (front rest : Text) : deviceBase (front ++ '.' :: rest) = deviceBase front := by
  have upper : toAsciiUppercase (front ++ '.' :: rest) =
      toAsciiUppercase front ++ '.' :: toAsciiUppercase rest := toAsciiUppercase_append _ _
  unfold deviceBase
  rw [upper, takeWhile_append_stop (by decide)]

theorem deviceBase_append {front rest : Text} (plain : '.' ∉ toAsciiUppercase rest)
    (last : (toAsciiUppercase rest).getLast? = some ')') :
    deviceBase (front ++ rest) = deviceBase front ∨ (deviceBase (front ++ rest)).getLast? = some ')' := by
  unfold deviceBase
  rw [toAsciiUppercase_append, List.takeWhile_append]
  split
  · right
    have whole : (toAsciiUppercase rest).takeWhile (· ≠ '.') = toAsciiUppercase rest := by
      refine List.takeWhile_eq_self_iff.mpr fun c member => decide_eq_true ?_
      intro dot
      exact plain (dot ▸ member)
    obtain ⟨init, same⟩ := List.getLast?_eq_some_iff.mp last
    rw [whole, same, ← List.append_assoc, List.reverse_append, List.reverse_singleton,
      List.singleton_append, List.dropWhile_cons_of_neg (by decide), List.reverse_cons,
      List.reverse_reverse, List.getLast?_append]
    rfl
  · exact .inl rfl

theorem not_mem_devices_of_last (last : base.getLast? = some ')') : base ∉ devices := by
  have none_ends : ∀ device ∈ devices, device.getLast? ≠ some ')' := by decide
  exact fun member => none_ends base member last

/-! ## Numbered names -/

theorem toUpper_of_lt (low : c.toNat < 97) : c.toUpper = c := by
  have below : c.val.toNat < 97 := low
  unfold Char.toUpper
  rw [dif_neg]
  intro h
  have lower : 97 ≤ c.val.toNat := UInt32.le_iff_toNat_le.mp h.1
  omega

theorem numbered_char (member : c ∈ numbered attempt) :
    c = ' ' ∨ c = '(' ∨ c = ')' ∨ c.isDigit = true := by
  unfold numbered at member
  rw [List.mem_append, List.mem_append] at member
  obtain (opening | digit) | closing := member
  · have cases_ : c = ' ' ∨ c = '(' := by simpa using opening
    exact cases_.imp_right .inl
  · exact .inr (.inr (.inr (isDigit_of_mem_ofNat digit)))
  · have last : c = ')' := by simpa using closing
    exact .inr (.inr (.inl last))

theorem isDigit_bounds (digit : c.isDigit = true) : 48 ≤ c.toNat ∧ c.toNat ≤ 57 := by
  have bounds : (c.val ≥ 48) ∧ c.val ≤ 57 := by simpa [Char.isDigit] using digit
  exact ⟨UInt32.le_iff_toNat_le.mp bounds.1, UInt32.le_iff_toNat_le.mp bounds.2⟩

theorem numbered_low (member : c ∈ numbered attempt) : c.toNat < 58 := by
  obtain rfl | rfl | rfl | digit := numbered_char member
  · decide
  · decide
  · decide
  · have high := (isDigit_bounds digit).2
    omega

theorem toAsciiUppercase_numbered (attempt : Nat) :
    toAsciiUppercase (numbered attempt) = numbered attempt := by
  have same : ∀ c ∈ numbered attempt, c.toUpper = id c := fun c member => by
    have low := numbered_low member
    exact toUpper_of_lt (by omega)
  rw [toAsciiUppercase, List.map_congr_left same, List.map_id]

theorem all_allowed (h : (text.all fun c => !isControl c && !isForbidden c) = true) :
    ∀ c ∈ text, isControl c = false ∧ isForbidden c = false := by
  simpa only [Bool.and_eq_true, Bool.not_eq_true'] using List.all_eq_true.mp h

theorem digit_allowed (digit : c.isDigit = true) :
    isControl c = false ∧ isForbidden c = false := by
  obtain ⟨low, high⟩ := isDigit_bounds digit
  constructor
  · unfold isControl
    simp only [Bool.or_eq_false_iff, Bool.and_eq_false_iff, decide_eq_false_iff_not]
    omega
  · have noDigits : ("<>:\"/\\|?*~".toList.all fun other => !other.isDigit) = true := by decide
    refine Bool.eq_false_iff.mpr fun forbidden => ?_
    have plain := List.all_eq_true.mp noDigits c (List.contains_iff_mem.mp forbidden)
    rw [digit] at plain
    cases plain

theorem numbered_allowed (member : c ∈ numbered attempt) :
    isControl c = false ∧ isForbidden c = false := by
  obtain rfl | rfl | rfl | digit := numbered_char member
  · decide
  · decide
  · decide
  · exact digit_allowed digit

theorem numbered_noDot (attempt : Nat) : '.' ∉ numbered attempt := by
  intro member
  obtain same | same | same | digit := numbered_char member
  · cases same
  · cases same
  · cases same
  · cases digit

theorem numbered_last (attempt : Nat) : (numbered attempt).getLast? = some ')' := by
  unfold numbered
  rw [List.getLast?_append]
  rfl

theorem deviceBase_numbered {front : Text} (h : deviceBase front ∉ devices) :
    deviceBase (front ++ numbered attempt) ∉ devices := by
  have plain : '.' ∉ toAsciiUppercase (numbered attempt) := by
    rw [toAsciiUppercase_numbered]
    exact numbered_noDot attempt
  have last : (toAsciiUppercase (numbered attempt)).getLast? = some ')' := by
    rw [toAsciiUppercase_numbered]
    exact numbered_last attempt
  cases deviceBase_append plain last with
  | inl same => rwa [same]
  | inr closed => exact not_mem_devices_of_last closed

theorem numbered_cons (attempt : Nat) : numbered attempt = ' ' :: (numbered attempt).tail := rfl

theorem numbered_three (attempt : Nat) : 3 ≤ (numbered attempt).length := by
  have some_digit := List.length_pos_of_ne_nil (ofNat_ne_nil attempt)
  unfold numbered
  simp only [List.length_append]
  change 3 ≤ 2 + _ + 1
  omega

theorem Clean.withNumber (clean : Clean name) (attempt : Nat) :
    Clean (name ++ numbered attempt) where
  filled := fun none => clean.filled (List.append_eq_nil_iff.mp none).1
  dot := by
    have long := numbered_three attempt
    refine fun same => ?_
    have length := congrArg List.length same
    rw [List.length_append, List.length_singleton] at length
    omega
  dots := by
    have long := numbered_three attempt
    refine fun same => ?_
    have length := congrArg List.length same
    rw [List.length_append] at length
    change _ = 2 at length
    omega
  ended := by
    rw [List.getLast?_append, numbered_last, Option.some_or]
    exact ⟨by decide, by decide⟩
  plain := by
    intro c member
    cases List.mem_append.mp member with
    | inl old => exact clean.plain c old
    | inr new => exact numbered_allowed new
  unstaged := by
    have other : ' '.toUpper ∉ "GUNDA-".toList := by decide
    rw [numbered_cons]
    refine @unstaged_insert name [] _ ' ' clean.filled other ?_
    rw [List.append_nil]
    exact clean.unstaged
  device := deviceBase_numbered clean.device

theorem Clean.withNumberBefore {extension : Text} (clean : Clean (stem ++ '.' :: extension))
    (filled : stem ≠ []) (attempt : Nat) :
    Clean (stem ++ numbered attempt ++ '.' :: extension) where
  filled := fun none => filled (List.append_eq_nil_iff.mp (List.append_eq_nil_iff.mp none).1).1
  dot := by
    have long := numbered_three attempt
    refine fun same => ?_
    have length := congrArg List.length same
    simp only [List.length_append, List.length_cons, List.length_nil] at length
    omega
  dots := by
    have long := numbered_three attempt
    refine fun same => ?_
    have length := congrArg List.length same
    simp only [List.length_append, List.length_cons, List.length_nil] at length
    omega
  ended := by
    have ended := clean.ended
    rw [List.getLast?_append, List.getLast?_cons] at ended ⊢
    exact ended
  plain := by
    intro c member
    rw [List.append_assoc] at member
    cases List.mem_append.mp member with
    | inl old => exact clean.plain c (List.mem_append_left _ old)
    | inr later =>
      cases List.mem_append.mp later with
      | inl new => exact numbered_allowed new
      | inr old => exact clean.plain c (List.mem_append_right _ old)
  unstaged := by
    have other : ' '.toUpper ∉ "GUNDA-".toList := by decide
    rw [numbered_cons, List.append_assoc]
    exact unstaged_insert filled other clean.unstaged
  device := by
    have device := clean.device
    rw [deviceBase_dot] at device ⊢
    exact deviceBase_numbered device

/-! ## Candidates -/

/-- The extension of a name, as the last dot that is not in front separates it. -/
def extension? (name : Text) : Option Text :=
  match rsplitOnce '.' name with
  | some (stem, extension) => if stem = [] then none else some extension
  | none => none

theorem rsplitOnce_eq_some {tail : Text} (h : rsplitOnce separator text = some (stem, tail)) :
    text = stem ++ separator :: tail ∧ separator ∉ tail := by
  obtain ⟨parts, split, same⟩ := Option.map_eq_some_iff.mp h
  obtain ⟨whole, absent⟩ := splitOnce_eq_some split
  cases same
  have reversed := congrArg List.reverse whole
  rw [List.reverse_reverse, List.reverse_append, List.reverse_cons, List.append_assoc] at reversed
  exact ⟨reversed, fun member => absent (List.mem_reverse.mp member)⟩

theorem rsplitOnce_append {tail : Text} (absent : separator ∉ tail) :
    rsplitOnce separator (stem ++ separator :: tail) = some (stem, tail) := by
  have reversed : (stem ++ separator :: tail).reverse =
      tail.reverse ++ separator :: stem.reverse := by
    rw [List.reverse_append, List.reverse_cons, List.append_assoc]
    rfl
  have absent' : separator ∉ tail.reverse := fun member => absent (List.mem_reverse.mp member)
  rw [rsplitOnce, reversed, splitOnce_append absent']
  simp only [Option.map_some, List.reverse_reverse]

theorem rsplitOnce_none_iff :
    rsplitOnce separator text = none ↔ separator ∉ text := by
  rw [rsplitOnce, Option.map_eq_none_iff, splitOnce_none_iff, List.mem_reverse]

/-- What the candidates of a name are made of: a first part of it, the number, and the rest. -/
structure Parts (filename : String) (front back : Text) : Prop where
  whole : filename.toList = front ++ back
  numbered : ∀ attempt ≠ 0, (candidateName filename attempt).toList =
    front ++ numbered attempt ++ back
  shape : front ≠ [] ∧ (∃ extension, back = '.' :: extension ∧ '.' ∉ extension) ∨
    back = [] ∧ ∀ attempt, extension? (filename.toList ++ Http.numbered attempt) =
      extension? filename.toList

theorem extension?_dotless (dotless : '.' ∉ name) : extension? name = none := by
  rw [extension?, rsplitOnce_none_iff.mpr dotless]

theorem extension?_hidden (dotless : '.' ∉ name) : extension? ('.' :: name) = none := by
  have split : rsplitOnce '.' ([] ++ '.' :: name) = some ([], name) := rsplitOnce_append dotless
  rw [List.nil_append] at split
  rw [extension?, split]
  exact if_pos rfl

theorem candidateName_parts (filename : String) : ∃ front back, Parts filename front back := by
  have dotless_numbered {name : Text} (dotless : '.' ∉ name) (attempt : Nat) :
      '.' ∉ name ++ numbered attempt := fun member =>
    (List.mem_append.mp member).elim dotless (numbered_noDot attempt)
  cases split : rsplitOnce '.' filename.toList with
  | none =>
    have dotless := rsplitOnce_none_iff.mp split
    refine ⟨filename.toList, [], (List.append_nil _).symm, fun attempt later => ?_,
      .inr ⟨rfl, fun attempt => ?_⟩⟩
    · rw [candidateName, if_neg later, split, String.toList_ofList, List.append_nil]
    · rw [extension?_dotless dotless, extension?_dotless (dotless_numbered dotless attempt)]
  | some parts =>
    obtain ⟨stem, extension⟩ := parts
    obtain ⟨whole, dotless⟩ := rsplitOnce_eq_some split
    by_cases bare : stem = []
    · refine ⟨filename.toList, [], (List.append_nil _).symm, fun attempt later => ?_,
        .inr ⟨rfl, fun attempt => ?_⟩⟩
      · rw [candidateName, if_neg later, split]
        dsimp only
        rw [if_pos bare, String.toList_ofList, List.append_nil]
      · rw [whole, bare, List.nil_append, List.cons_append, extension?_hidden dotless,
          extension?_hidden (dotless_numbered dotless attempt)]
    · refine ⟨stem, '.' :: extension, whole, fun attempt later => ?_,
        .inl ⟨bare, extension, rfl, dotless⟩⟩
      rw [candidateName, if_neg later, split]
      dsimp only
      rw [if_neg bare, String.toList_ofList, List.append_assoc _ ".".toList]
      rfl

theorem candidateName_zero (filename : String) : candidateName filename 0 = filename := rfl

theorem candidate_clean (clean : Clean filename.toList) (attempt : Nat) :
    Clean (candidateName filename attempt).toList := by
  by_cases first : attempt = 0
  · rw [first, candidateName_zero]
    exact clean
  · obtain ⟨front, back, parts⟩ := candidateName_parts filename
    rw [parts.numbered attempt first]
    rw [parts.whole] at clean
    cases parts.shape with
    | inl dotted =>
      obtain ⟨filled, extension, rfl, -⟩ := dotted
      exact clean.withNumberBefore filled attempt
    | inr bare =>
      obtain ⟨rfl, -⟩ := bare
      rw [List.append_nil] at clean ⊢
      exact clean.withNumber attempt

theorem candidate_extension (filename : String) (attempt : Nat) :
    extension? (candidateName filename attempt).toList = extension? filename.toList := by
  by_cases first : attempt = 0
  · rw [first, candidateName_zero]
  · obtain ⟨front, back, parts⟩ := candidateName_parts filename
    rw [parts.numbered attempt first]
    cases parts.shape with
    | inl dotted =>
      obtain ⟨filled, extension, rfl, dotless⟩ := dotted
      have filled' : front ++ numbered attempt ≠ [] := fun none =>
        filled (List.append_eq_nil_iff.mp none).1
      rw [parts.whole, extension?, extension?, rsplitOnce_append dotless, rsplitOnce_append dotless]
      dsimp only
      rw [if_neg filled, if_neg filled']
    | inr bare =>
      obtain ⟨rfl, same⟩ := bare
      have whole := parts.whole
      rw [List.append_nil] at whole ⊢
      rw [← whole]
      exact same attempt

theorem numbered_inj {first second : Nat} (h : numbered first = numbered second) :
    first = second := by
  unfold numbered at h
  have digits : ofNat first = ofNat second :=
    List.append_cancel_left (List.append_cancel_right h)
  have read := digitsValue_ofNat first
  rw [digits, digitsValue_ofNat] at read
  exact (Option.some.inj read).symm

theorem candidate_length (filename : String) (later : attempt ≠ 0) :
    filename.toList.length < (candidateName filename attempt).toList.length := by
  have long := numbered_three attempt
  obtain ⟨front, back, parts⟩ := candidateName_parts filename
  rw [parts.numbered attempt later, parts.whole]
  simp only [List.length_append]
  omega

/-- No two attempts try one name. -/
theorem candidate_inj {first second : Nat}
    (h : candidateName filename first = candidateName filename second) : first = second := by
  by_cases initial : first = 0
  · by_cases initial' : second = 0
    · rw [initial, initial']
    · have longer := candidate_length filename initial'
      rw [← h, initial, candidateName_zero] at longer
      omega
  · by_cases initial' : second = 0
    · have longer := candidate_length filename initial
      rw [h, initial', candidateName_zero] at longer
      omega
    · obtain ⟨front, back, parts⟩ := candidateName_parts filename
      have same := congrArg String.toList h
      rw [parts.numbered first initial, parts.numbered second initial'] at same
      exact numbered_inj (List.append_cancel_left (List.append_cancel_right same))

theorem byteLength_numbered (few : attempt < 1000) :
    byteLength (numbered attempt) ≤ 6 := by
  have ascii : ∀ c ∈ numbered attempt, c.toNat < 128 := fun c member => by
    have low := numbered_low member
    omega
  have digits : (ofNat attempt).length ≤ 3 :=
    (Nat.length_toDigits_le_iff (by decide) (by decide)).mpr few
  rw [byteLength_ascii ascii]
  unfold numbered
  simp only [List.length_append]
  change 2 + _ + 1 ≤ 6
  omega

theorem candidate_byteLength {filename : String} {attempt : Nat} (few : attempt < 1000) :
    (candidateName filename attempt).utf8ByteSize ≤ filename.utf8ByteSize + 6 := by
  by_cases first : attempt = 0
  · rw [first, candidateName_zero]
    omega
  · have added := byteLength_numbered few
    obtain ⟨front, back, parts⟩ := candidateName_parts filename
    rw [utf8ByteSize_eq, utf8ByteSize_eq, parts.numbered attempt first, parts.whole]
    simp only [byteLength_append]
    omega

/-! ## Destinations -/

theorem components_joinPath (directory : String) (clean : Clean name) :
    components (joinPath directory (String.ofList name)).toList =
      components directory.toList ++ [name] := by
  have plain := clean.separators
  have named := clean.filled
  unfold joinPath
  by_cases bare : directory = ""
  · have whole : ("" ++ String.ofList name).toList = name := by
      rw [String.empty_append, String.toList_ofList]
    rw [if_pos (.inl bare), bare, whole]
    exact clean.component
  · have filled : directory.toList ≠ [] := fun none => bare (String.toList_inj.mp none)
    by_cases ended : directory.toList.getLast? = some '/'
    · obtain ⟨path, same⟩ := List.getLast?_eq_some_iff.mp ended
      rw [if_pos (.inr ended), String.toList_append, String.toList_ofList, same, List.append_assoc]
      exact components_snoc path plain named clean.dot
    · have neither : ¬ (directory = "" ∨ directory.toList.getLast? = some '/') := fun either =>
        either.elim bare ended
      rw [if_neg neither, String.toList_append, String.toList_append, @String.toList_ofList name,
        List.append_assoc]
      change components (directory.toList ++ '/' :: name) = _
      rw [components_snoc _ plain named clean.dot, components_separator filled]

/-- A name that begins so is neither staged nor a device. -/
theorem clean_download {rest : Text} (ended : rest.getLast? ≠ some ' ' ∧ rest.getLast? ≠ some '.')
    (plain : ∀ c ∈ rest, isControl c = false ∧ isForbidden c = false) :
    Clean ("download".toList ++ rest) where
  filled := List.cons_ne_nil _ _
  dot := fun same => by cases same
  dots := fun same => by cases same
  ended := by
    rw [List.getLast?_append]
    cases last : rest.getLast? with
    | none => exact ⟨by decide, by decide⟩
    | some c =>
      rw [last] at ended
      exact ended
  plain := by
    have own : ∀ c ∈ "download".toList, isControl c = false ∧ isForbidden c = false :=
      all_allowed (by decide)
    intro c member
    exact (List.mem_append.mp member).elim (own c) (plain c)
  unstaged := fun staged => by
    have first := (List.cons_prefix_cons.mp staged).1
    revert first
    decide
  device := by
    have initial : ∀ device ∈ devices, device.head? ≠ some 'D' := by decide
    refine fun member => initial _ member ?_
    have spelled : (toAsciiUppercase ("download".toList ++ rest)).takeWhile (· ≠ '.') =
        'D' :: ("OWNLOAD".toList ++ toAsciiUppercase rest).takeWhile (· ≠ '.') := rfl
    have base : deviceBase ("download".toList ++ rest) =
        ('D' :: ("OWNLOAD".toList ++ toAsciiUppercase rest).takeWhile (· ≠ '.')).rdropWhile
          (· = ' ') := rfl
    rw [base]
    have front := List.rdropWhile_prefix (fun c => decide (c = ' '))
      (l := 'D' :: ("OWNLOAD".toList ++ toAsciiUppercase rest).takeWhile (· ≠ '.'))
    cases kept : ('D' :: ("OWNLOAD".toList ++ toAsciiUppercase rest).takeWhile (· ≠ '.')).rdropWhile
        (· = ' ') with
    | nil =>
      have blank := List.rdropWhile_eq_nil_iff.mp kept 'D' (.head _)
      revert blank
      decide
    | cons c kept' =>
      rw [kept] at front
      rw [(List.cons_prefix_cons.mp front).1]
      rfl

theorem clean_defaultFilename (id : DownloadId) : Clean (defaultFilename id).toList := by
  have shape : (defaultFilename id).toList =
      "download".toList ++ ("-".toList ++ ofNat id.value.toNat ++ ".bin".toList) :=
    String.toList_ofList
  rw [shape]
  have own : ∀ c ∈ "-.bin".toList, isControl c = false ∧ isForbidden c = false :=
    all_allowed (by decide)
  refine clean_download ?_ fun c member => ?_
  · have last : ("-".toList ++ ofNat id.value.toNat ++ ".bin".toList).getLast? = some 'n' := by
      rw [List.getLast?_append]
      rfl
    rw [last]
    exact ⟨by decide, by decide⟩
  · rw [List.mem_append, List.mem_append] at member
    obtain (dash | digit) | ending := member
    · exact own c (List.mem_of_mem_take (i := 1) dash)
    · exact digit_allowed (isDigit_of_mem_ofNat digit)
    · exact own c (List.mem_of_mem_drop (i := 1) ending)

theorem urlFilename_clean {urls : UrlLibrary} {url : Url}
    (named : urlFilename urls url = some filename) :
    Clean filename.toList ∧ byteLength filename.toList ≤ 200 := by
  obtain ⟨path, -, named⟩ := Option.bind_eq_some_iff.mp named
  obtain ⟨segment, -, named⟩ := Option.bind_eq_some_iff.mp named
  obtain ⟨name, -, named⟩ := Option.bind_eq_some_iff.mp named
  split at named
  · rename_i valid
    cases named
    cases accepted : validateFilename (String.ofList name) with
    | error error =>
      rw [accepted] at valid
      cases valid
    | ok _ => exact validateFilename_ok_iff.mp accepted
  · cases named

/-- The name that a destination is planned under. -/
theorem planDestination_ok {urls : UrlLibrary} {id : DownloadId} {url : Url}
    {destination publication : DownloadDestination} {resolved : ResolvedDestination}
    (h : planDestination urls id url destination = .ok (publication, resolved)) :
    ∃ name, publication.preferredFilename = some name ∧ Clean name.toList ∧
      resolved.finalPath = joinPath destination.directory name := by
  cases planned : planFilename urls id url destination with
  | error error =>
    rw [planDestination, planned] at h
    cases h
  | ok name =>
    rw [planDestination, planned] at h
    cases h
    refine ⟨name, rfl, ?_, rfl⟩
    unfold planFilename at planned
    split at planned
    · rename_i filename chosen
      cases valid : validateFilename filename with
      | error error =>
        rw [valid] at planned
        cases planned
      | ok _ =>
        rw [valid] at planned
        cases planned
        exact (validateFilename_ok_iff.mp valid).1
    · cases planned
      cases named : urlFilename urls url with
      | none => exact clean_defaultFilename id
      | some filename => exact (urlFilename_clean named).1

/-- Every candidate of a valid name keeps to the rules but for the limit of its length, which
leaves room for the number; it keeps the extension, and no other attempt has it. What a
destination resolves to lies directly inside of its directory. -/
theorem candidates_are_publishable :
    (∀ (filename : String) (attempt : Nat), validateFilename filename = .ok () → attempt < 1000 →
      Clean (candidateName filename attempt).toList ∧
      components (candidateName filename attempt).toList =
        [(candidateName filename attempt).toList] ∧
      (candidateName filename attempt).utf8ByteSize ≤ 255 ∧
      extension? (candidateName filename attempt).toList = extension? filename.toList ∧
      ∀ other, candidateName filename other = candidateName filename attempt → other = attempt) ∧
    ∀ (urls : UrlLibrary) (id : DownloadId) (url : Url)
      (destination publication : DownloadDestination) (resolved : ResolvedDestination),
      planDestination urls id url destination = .ok (publication, resolved) →
      ∃ name, publication.preferredFilename = some name ∧ Clean name.toList ∧
        components resolved.finalPath.toList =
          components destination.directory.toList ++ [name.toList] := by
  constructor
  · intro filename attempt valid few
    obtain ⟨clean, short⟩ := validateFilename_ok_iff.mp valid
    have candidate := candidate_clean clean attempt
    have longer := @candidate_byteLength filename attempt few
    rw [utf8ByteSize_eq filename] at longer
    exact ⟨candidate, candidate.component, by omega, candidate_extension filename attempt,
      fun other => candidate_inj⟩
  · intro urls id url destination publication resolved planned
    obtain ⟨name, preferred, clean, path⟩ := planDestination_ok planned
    have placed := components_joinPath destination.directory clean
    rw [String.ofList_toList] at placed
    refine ⟨name, preferred, clean, ?_⟩
    rw [path]
    exact placed

theorem candidates_are_publishable_archive :
    Clean (candidateName "archive.tar.gz" 2).toList ∧
      extension? (candidateName "archive.tar.gz" 2).toList = some "gz".toList := by
  have valid : validateFilename "archive.tar.gz" = .ok () := by decide
  have held := candidates_are_publishable.1 "archive.tar.gz" 2 valid (by decide)
  have extension : extension? "archive.tar.gz".toList = some "gz".toList := by decide
  exact ⟨held.1, held.2.2.2.1.trans extension⟩

end Gunda.Http
