import Gunda.Lib.Text

/-!
# Fields

A record of texts joined by a separator none of them contains reads back as the
same texts, and a number written in decimal reads back as itself.
-/
namespace Gunda.Lib.Text

variable {separator c : Char} {value : Nat}

/-- The fields with a separator between each and the next. -/
def joinWith (separator : Char) : List Text → Text
  | [] => []
  | [field] => field
  | field :: fields => field ++ separator :: joinWith separator fields

theorem splitAll_of_not_mem {text : Text} (absent : separator ∉ text) :
    splitAll separator text = [text] := by
  induction text with
  | nil => rfl
  | cons c text ih =>
    rw [List.mem_cons, not_or] at absent
    rw [splitAll, if_neg (Ne.symm absent.1), ih absent.2]

theorem splitAll_append {field rest : Text} (absent : separator ∉ field) :
    splitAll separator (field ++ separator :: rest) = field :: splitAll separator rest := by
  induction field with
  | nil => rw [List.nil_append, splitAll, if_pos rfl]
  | cons c field ih =>
    rw [List.mem_cons, not_or] at absent
    rw [List.cons_append, splitAll, if_neg (Ne.symm absent.1), ih absent.2]

theorem splitAll_ne_nil (separator : Char) (text : Text) : splitAll separator text ≠ [] := by
  cases text with
  | nil => exact List.cons_ne_nil _ _
  | cons c text =>
    simp only [splitAll]
    split
    · exact List.cons_ne_nil _ _
    · split <;> exact List.cons_ne_nil _ _

theorem splitAll_snoc {text field : Text} (absent : separator ∉ field) :
    splitAll separator (text ++ separator :: field) = splitAll separator text ++ [field] := by
  induction text with
  | nil =>
    have whole : splitAll separator (separator :: field) = [] :: splitAll separator field := if_pos rfl
    rw [List.nil_append, whole, splitAll_of_not_mem absent]
    rfl
  | cons c text ih =>
    simp only [List.cons_append, splitAll]
    split
    · rw [ih]
      rfl
    · rw [ih]
      cases parts : splitAll separator text with
      | nil => exact absurd parts (splitAll_ne_nil separator text)
      | cons part parts' => rfl

theorem splitAll_joinWith {fields : List Text} (some_field : fields ≠ [])
    (absent : ∀ field ∈ fields, separator ∉ field) :
    splitAll separator (joinWith separator fields) = fields := by
  induction fields with
  | nil => exact absurd rfl some_field
  | cons field fields ih =>
    have first := absent field List.mem_cons_self
    cases fields with
    | nil => exact splitAll_of_not_mem first
    | cons next fields =>
      have others : ∀ field ∈ next :: fields, separator ∉ field := by
        intro other member
        exact absent other (List.mem_cons_of_mem _ member)
      rw [joinWith, splitAll_append first, ih (List.cons_ne_nil _ _) others]
      exact List.cons_ne_nil _ _

/-! ## Decimal fields -/

theorem isDigit_of_mem_ofNat (member : c ∈ ofNat value) :
    c.isDigit = true :=
  Nat.isDigit_of_mem_toDigits (by decide) (by decide) member

theorem ofNat_ne_nil (value : Nat) : ofNat value ≠ [] := Nat.toDigits_ne_nil

theorem not_mem_ofNat (value : Nat) (noDigit : c.isDigit = false) : c ∉ ofNat value := by
  intro member
  rw [isDigit_of_mem_ofNat member] at noDigit
  cases noDigit

theorem digitsValue_ofNat (value : Nat) : digitsValue (ofNat value) = some value := by
  have digits : (ofNat value).all Char.isDigit = true := by
    rw [List.all_eq_true]
    intro c member
    exact isDigit_of_mem_ofNat member
  have read := Nat.ofDigitChars_ten_toDigits (n := value)
  simp only [Nat.ofDigitChars_eq_foldl, Nat.mul_comm 10] at read
  rw [digitsValue, if_neg (by simp [ofNat_ne_nil, digits])]
  exact congrArg some read

theorem stripPrefix_ofNat (value : Nat) (noDigit : c.isDigit = false) :
    stripPrefix [c] (ofNat value) = none := by
  have absent := not_mem_ofNat value noDigit
  cases shape : ofNat value with
  | nil => exact absurd shape (ofNat_ne_nil value)
  | cons first rest =>
    rw [shape, List.mem_cons, not_or] at absent
    rw [stripPrefix, if_neg]
    simpa [List.isPrefixOf] using absent.1

theorem parseUnsigned_ofNat {bound : Nat} (fits : value < bound) :
    parseUnsigned bound (ofNat value) = some value := by
  rw [parseUnsigned, stripPrefix_ofNat value (by decide), Option.getD_none, digitsValue_ofNat]
  exact Option.filter_some_pos (by simpa using fits)

theorem parseUnsigned_ofNat_eq {bound other : Nat}
    (h : parseUnsigned bound (ofNat value) = some other) : other = value := by
  rw [parseUnsigned, stripPrefix_ofNat value (by decide), Option.getD_none, digitsValue_ofNat] at h
  exact (Option.some.inj (Option.filter_eq_some_iff.mp h).1).symm

theorem parseU64_ofNat (fits : value < 2 ^ 64) :
    parseU64 (ofNat value) = some value :=
  parseUnsigned_ofNat fits

end Gunda.Lib.Text
