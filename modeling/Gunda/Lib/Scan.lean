import Gunda.Lib.Text
import Mathlib.Data.List.TakeWhile

/-!
# Scanning texts

What splitting and trimming do to a text put together from known parts.
-/
namespace Gunda.Lib.Text

variable {separator c : Char} {text head tail gap rest : Text}
variable {pattern : Text}

theorem splitOnce_append (absent : separator ∉ head) :
    splitOnce separator (head ++ separator :: tail) = some (head, tail) := by
  induction head with
  | nil => exact if_pos rfl
  | cons c head ih =>
    rw [List.mem_cons, not_or] at absent
    rw [List.cons_append, splitOnce, if_neg (Ne.symm absent.1), ih absent.2]
    rfl

theorem splitOnce_none_iff : splitOnce separator text = none ↔ separator ∉ text := by
  induction text with
  | nil => exact iff_of_true rfl List.not_mem_nil
  | cons c text ih =>
    rw [splitOnce, List.mem_cons, not_or]
    by_cases same : c = separator
    · rw [if_pos same]
      exact iff_of_false (fun impossible => nomatch impossible) fun both => both.1 same.symm
    · rw [if_neg same, Option.map_eq_none_iff, ih]
      exact ⟨fun absent => ⟨Ne.symm same, absent⟩, fun both => both.2⟩

theorem splitOnce_append_none (absent : separator ∉ head) :
    splitOnce separator (head ++ tail) =
      (splitOnce separator tail).map fun parts => (head ++ parts.1, parts.2) := by
  induction head with
  | nil => cases found : splitOnce separator tail <;> simp [found]
  | cons c head ih =>
    rw [List.mem_cons, not_or] at absent
    rw [List.cons_append, splitOnce, if_neg (Ne.symm absent.1), ih absent.2, Option.map_map]
    rfl

/-! ## Patterns -/

theorem stripPrefix_eq_some (h : stripPrefix pattern text = some tail) :
    text = pattern ++ tail := by
  unfold stripPrefix at h
  split at h
  · rename_i starts
    cases h
    exact (List.prefix_iff_eq_append.mp (List.isPrefixOf_iff_prefix.mp starts)).symm
  · cases h

theorem stripPrefix_append (pattern tail : Text) :
    stripPrefix pattern (pattern ++ tail) = some tail := by
  rw [stripPrefix, if_pos (List.isPrefixOf_iff_prefix.mpr (List.prefix_append _ _)),
    List.drop_left]

theorem stripPrefix_none_iff :
    stripPrefix pattern text = none ↔ ¬ pattern <+: text := by
  unfold stripPrefix
  split
  · rename_i starts
    exact iff_of_false nofun (not_not_intro (List.isPrefixOf_iff_prefix.mp starts))
  · rename_i other
    exact iff_of_true rfl fun starts => other (List.isPrefixOf_iff_prefix.mpr starts)

theorem stripPrefix_cons_ne {d : Char} (other : d ≠ c) :
    stripPrefix (d :: pattern) (c :: text) = none :=
  stripPrefix_none_iff.mpr fun starts => other (List.cons_prefix_cons.mp starts).1

theorem stripPrefix_cons (c : Char) (pattern : Text) :
    stripPrefix (c :: pattern) (c :: text) = stripPrefix pattern text := by
  unfold stripPrefix
  rw [List.isPrefixOf_cons_cons, beq_self_eq_true, Bool.true_and, List.length_cons, List.drop_succ_cons]

theorem splitAtPattern_eq_some (h : splitAtPattern pattern text = some (head, tail)) :
    text = head ++ (pattern ++ tail) := by
  induction text generalizing head with
  | nil =>
    unfold splitAtPattern at h
    split at h
    · rename_i empty
      cases h
      rw [empty]
      rfl
    · cases h
  | cons c text ih =>
    unfold splitAtPattern at h
    split at h
    · rename_i found
      cases h
      rw [List.nil_append]
      exact stripPrefix_eq_some found
    · obtain ⟨parts, later, same⟩ := Option.map_eq_some_iff.mp h
      cases same
      rw [ih later]
      rfl

/-- Where a pattern starts nowhere ahead of a place, it is found there. -/
theorem splitAtPattern_append (first : ∀ before after, head = before ++ after → after ≠ [] →
      ¬ pattern <+: after ++ (pattern ++ tail)) :
    splitAtPattern pattern (head ++ (pattern ++ tail)) = some (head, tail) := by
  induction head with
  | nil =>
    cases shape : [] ++ (pattern ++ tail) with
    | nil =>
      obtain ⟨empty, none⟩ := List.append_eq_nil_iff.mp (List.append_eq_nil_iff.mp shape).2
      rw [splitAtPattern, if_pos empty, none]
    | cons c rest =>
      rw [splitAtPattern, ← shape, List.nil_append, stripPrefix_append]
  | cons c head ih =>
    have here := first [] (c :: head) rfl (List.cons_ne_nil _ _)
    rw [List.cons_append] at here ⊢
    rw [splitAtPattern, stripPrefix_none_iff.mpr here, ih]
    · rfl
    · intro before after split nonempty
      exact first (c :: before) after (by rw [split]; rfl) nonempty

/-- A pattern that overlaps itself nowhere is found after a text that does not hold it. -/
theorem splitAtPattern_absent (absent : ¬ pattern <:+: head)
    (unbordered : ∀ start middle ending, pattern = start ++ middle → pattern = ending ++ start →
      start = [] ∨ middle = []) :
    splitAtPattern pattern (head ++ (pattern ++ tail)) = some (head, tail) := by
  apply splitAtPattern_append
  intro before after split nonempty starts
  by_cases short : pattern.length ≤ after.length
  · obtain ⟨rest, same⟩ := List.prefix_of_prefix_length_le starts (List.prefix_append _ _) short
    exact absent ⟨before, rest, by rw [split, ← same, List.append_assoc]⟩
  · -- the pattern would start again inside itself
    have longer := Nat.lt_of_not_le short
    obtain ⟨start, same⟩ := List.prefix_of_prefix_length_le (List.prefix_append after _) starts
      (Nat.le_of_lt longer)
    have again : start <+: pattern := by
      rw [← same] at starts
      have inner := (List.prefix_append_right_inj after).mp starts
      refine List.prefix_of_prefix_length_le inner ?_ ?_
      · rw [same]
        exact List.prefix_append _ _
      · rw [← same, List.length_append]
        exact Nat.le_add_left _ _
    obtain ⟨middle, whole⟩ := again
    rcases unbordered start middle after whole.symm same.symm with empty | all
    · rw [empty, List.append_nil] at same
      rw [same] at longer
      exact Nat.lt_irrefl _ longer
    · rw [all, List.append_nil] at whole
      have size := congrArg List.length same
      rw [List.length_append, whole] at size
      exact nonempty (List.length_eq_zero_iff.mp (by omega))

/-- A pattern whose last character is nowhere else in it is found where it first ends. -/
theorem splitAtPattern_last {pattern : Text} (absent : ¬ pattern ++ [c] <:+: head)
    (single : c ∉ pattern) : splitAtPattern (pattern ++ [c]) (head ++ (pattern ++ [c] ++ tail)) =
      some (head, tail) := by
  apply splitAtPattern_absent absent
  intro start middle ending first second
  rcases List.eq_nil_or_concat start with empty | ⟨more, d, whole⟩
  · exact .inl empty
  · rcases List.eq_nil_or_concat middle with none | ⟨between, e, rest⟩
    · exact .inr none
    · rw [List.concat_eq_append] at whole rest
      rw [rest, ← List.append_assoc] at first
      rw [whole, ← List.append_assoc] at second
      have last : c = d := (List.cons.inj (List.append_inj_right' second rfl)).1
      have inside : pattern = start ++ between := List.append_inj_left' first rfl
      rw [inside, whole, last] at single
      exact absurd (by simp) single

/-! ## Ends of a text -/

theorem stripSuffix_append (c : Char) : stripSuffix [c] (text ++ [c]) = some text := by
  rw [stripSuffix, if_pos (List.isSuffixOf_iff_suffix.mpr (List.suffix_append _ _)),
    List.length_append, Nat.add_sub_cancel, List.take_left]

theorem stripSuffix_last {d : Char} (other : d ≠ c) : stripSuffix [c] (text ++ [d]) = none := by
  rw [stripSuffix, if_neg]
  intro found
  obtain ⟨kept, same⟩ := List.isSuffixOf_iff_suffix.mp found
  exact other (List.append_inj_right' same rfl |> List.cons.inj |>.1).symm

theorem stripSuffix_absent (absent : c ∉ text) : stripSuffix [c] text = none := by
  rw [stripSuffix, if_neg]
  intro found
  exact absent ((List.isSuffixOf_iff_suffix.mp found).subset (List.mem_singleton_self c))

/-- Without its last character, where that is the given one, a text is what stood before it. -/
theorem stripSuffix_cases (c : Char) (text : Text) :
    ∃ kept ending, text = kept ++ ending ∧ (stripSuffix [c] text).getD text = kept ∧
      (ending = [] ∨ ending = [c]) := by
  by_cases found : [c] <:+ text
  · obtain ⟨kept, same⟩ := found
    rw [← same, stripSuffix_append]
    exact ⟨kept, [c], rfl, rfl, .inr rfl⟩
  · refine ⟨text, [], (List.append_nil _).symm, ?_, .inl rfl⟩
    rw [stripSuffix, if_neg (fun suffix => found (List.isSuffixOf_iff_suffix.mp suffix))]
    rfl

/-! ## Whitespace -/

/-- A text of whitespace only. -/
def Blank (text : Text) : Prop := ∀ c ∈ text, isWhitespace c = true

/-- A text without whitespace. -/
def Solid (text : Text) : Prop := ∀ c ∈ text, isWhitespace c = false

instance : DecidablePred Blank := List.decidableBAll fun c => isWhitespace c = true

instance : DecidablePred Solid := List.decidableBAll fun c => isWhitespace c = false

theorem trimStart_blank (blank : Blank gap) : trimStart (gap ++ rest) = trimStart rest := by
  induction gap with
  | nil => rfl
  | cons c gap ih =>
    obtain ⟨first, others⟩ := List.forall_mem_cons.mp blank
    rw [List.cons_append, trimStart, List.dropWhile_cons_of_pos first]
    exact ih others

theorem trimStart_cons (solid : isWhitespace c = false) : trimStart (c :: rest) = c :: rest :=
  List.dropWhile_cons_of_neg (by rw [solid]; exact Bool.false_ne_true)

theorem trimStart_solid (solid : Solid text) : trimStart text = text := by
  cases text with
  | nil => rfl
  | cons c text => exact trimStart_cons (solid c List.mem_cons_self)

theorem trimEnd_solid (solid : Solid text) : trimEnd text = text := by
  have reversed : trimStart text.reverse = text.reverse :=
    trimStart_solid fun c member => solid c (List.mem_reverse.mp member)
  unfold trimEnd
  rw [show text.reverse.dropWhile isWhitespace = text.reverse from reversed, List.reverse_reverse]

/-- What follows the last character that is no whitespace is trimmed. -/
theorem trimEnd_blank (blank : Blank gap) : trimEnd (text ++ gap) = trimEnd text := by
  have reversed : trimStart (gap.reverse ++ text.reverse) = trimStart text.reverse :=
    trimStart_blank fun c member => blank c (List.mem_reverse.mp member)
  unfold trimEnd
  rw [List.reverse_append]
  exact congrArg List.reverse reversed

theorem trimEnd_last (solid : isWhitespace c = false) : trimEnd (text ++ [c]) = text ++ [c] := by
  have kept : trimStart (c :: text.reverse) = c :: text.reverse := trimStart_cons solid
  unfold trimEnd
  rw [List.reverse_append]
  exact (congrArg List.reverse kept).trans (by simp)

theorem trim_solid (solid : Solid text) : trim text = text := by
  rw [trim, trimStart_solid solid, trimEnd_solid solid]

/-- Only whitespace is trimmed away entirely. -/
theorem trim_eq_nil : trim text = [] ↔ Blank text := by
  unfold trim trimEnd trimStart
  rw [List.reverse_eq_nil_iff, List.dropWhile_eq_nil_iff]
  constructor
  · intro trimmed c member
    rw [← List.takeWhile_append_dropWhile (p := isWhitespace) (l := text)] at member
    rcases List.mem_append.mp member with start | rest
    · exact List.mem_takeWhile_imp start
    · exact trimmed c (List.mem_reverse.mpr rest)
  · intro blank c member
    exact blank c ((List.dropWhile_suffix _).subset (List.mem_reverse.mp member))

theorem any_isWhitespace_solid (solid : Solid text) : text.any isWhitespace = false := by
  rw [List.any_eq_false]
  intro c member
  rw [solid c member]
  exact Bool.false_ne_true

theorem trimStart_length : (trimStart text).length ≤ text.length :=
  (List.dropWhile_suffix _).length_le

/-! ## Numbers -/

section Numbers

variable {value bound : Nat}

theorem digitsValue_digits {digits : Text} (h : digitsValue digits = some value) :
    digits ≠ [] ∧ ∀ c ∈ digits, c.isDigit = true := by
  unfold digitsValue at h
  split at h
  · cases h
  · rename_i digital
    rw [not_or, not_not, List.all_eq_true] at digital
    exact digital

/-- A sign that may be stripped, and what follows it. -/
theorem stripPrefix_sign {P : Char → Prop} {sign : Char}
    (some : (stripPrefix [sign] text).getD text ≠ [])
    (digits : ∀ c ∈ (stripPrefix [sign] text).getD text, P c) :
    text ≠ [] ∧ ∀ c ∈ text, c = sign ∨ P c := by
  unfold stripPrefix at some digits
  split at digits
  · rename_i signed
    obtain ⟨rest, same⟩ := List.isPrefixOf_iff_prefix.mp signed
    rw [← same]
    refine ⟨List.cons_ne_nil _ _, fun c member => ?_⟩
    rcases List.mem_append.mp member with sign | member
    · exact .inl (List.mem_singleton.mp sign)
    · rw [← same] at digits
      exact .inr (digits c member)
  · rename_i unsigned
    rw [if_neg unsigned] at some
    exact ⟨some, fun c member => .inr (digits c member)⟩

theorem parseUnsigned_chars (h : parseUnsigned bound text = some value) :
    text ≠ [] ∧ ∀ c ∈ text, c = '+' ∨ c.isDigit = true := by
  unfold parseUnsigned at h
  obtain ⟨read, _⟩ := Option.filter_eq_some_iff.mp h
  obtain ⟨some, digits⟩ := digitsValue_digits read
  exact stripPrefix_sign some digits

theorem hexDigits_digits {digits : Text} {values : List Nat}
    (h : digits.mapM hexDigitValue = some values) :
    ∀ c ∈ digits, (hexDigitValue c).isSome = true := by
  induction digits generalizing values with
  | nil => exact fun c member => nomatch member
  | cons d digits ih =>
    rw [List.mapM_cons] at h
    obtain ⟨value, first, h⟩ := Option.bind_eq_some_iff.mp h
    obtain ⟨others, rest, _⟩ := Option.bind_eq_some_iff.mp h
    rw [List.forall_mem_cons, first]
    exact ⟨rfl, ih rest⟩

theorem parseHexU32_chars (h : parseHexU32 text = some value) :
    text ≠ [] ∧ ∀ c ∈ text, c = '+' ∨ (hexDigitValue c).isSome = true := by
  unfold parseHexU32 at h
  dsimp only at h
  split at h
  · cases h
  · rename_i some
    obtain ⟨read, _⟩ := Option.filter_eq_some_iff.mp h
    obtain ⟨values, digits, _⟩ := Option.map_eq_some_iff.mp read
    exact stripPrefix_sign some (hexDigits_digits digits)

end Numbers

end Gunda.Lib.Text
