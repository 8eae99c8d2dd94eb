import Gunda.Stream.Plan
import Gunda.Lib.Scan

/-!
# Template substitution

A template as literal text and tokens, what a token stands for, and the texts that
`substitute_template` accepts with what it makes of them.
-/
namespace Gunda.Stream

open Gunda.Lib Gunda.Lib.Text

inductive Identifier where
  | representationId | bandwidth | number | time
  deriving DecidableEq, Repr

def Identifier.name : Identifier → Text
  | .representationId => "RepresentationID".toList
  | .bandwidth => "Bandwidth".toList
  | .number => "Number".toList
  | .time => "Time".toList

/-- The values the identifiers stand for, where they have one. -/
structure TemplateValues where
  representationId : Option Text
  bandwidth : Option Nat
  number : Option Nat
  time : Option Nat

def TemplateValues.numeric (values : TemplateValues) : Identifier → Option Nat
  | .representationId => none
  | .bandwidth => values.bandwidth
  | .number => values.number
  | .time => values.time

inductive Token where
  | literal (text : Text)
  | dollar
  | value (identifier : Identifier) (format : Option Text)
  deriving DecidableEq, Repr

namespace Token

/-- What stands between the dollar signs of an identifier. -/
def inner (identifier : Identifier) (format : Option Text) : Text :=
  identifier.name ++ format.elim [] ('%' :: ·)

def text : Token → Text
  | .literal text => text
  | .dollar => ['$', '$']
  | .value identifier format => '$' :: (inner identifier format ++ ['$'])

def WellFormed : Token → Prop
  | .literal text => '$' ∉ text
  | .dollar => True
  | .value _ format => ∀ given ∈ format, '$' ∉ given

end Token

/-- The width a format asks for: leading zeros, then nothing or a number up to 32, then
possibly a `d`. -/
inductive FormatWidth : Option Text → Nat → Prop where
  | absent : FormatWidth none 0
  | unsized {zeros ending : Text} (zero : ∀ c ∈ zeros, c = '0')
      (ends : ending = [] ∨ ending = ['d']) : FormatWidth (some (zeros ++ ending)) 0
  | sized {zeros digits ending : Text} {width : Nat} (zero : ∀ c ∈ zeros, c = '0')
      (first : digits.head? ≠ some '0') (number : parseU64 digits = some width)
      (positive : width ≠ 0) (bound : width ≤ 32) (ends : ending = [] ∨ ending = ['d']) :
      FormatWidth (some (zeros ++ digits ++ ending)) width

/-- A number with zeros in front up to a width. -/
def padded (width value : Nat) : Text :=
  List.replicate (width - (Text.ofNat value).length) '0' ++ Text.ofNat value

/-- What a token is replaced by. -/
inductive Expands (values : TemplateValues) : Token → Text → Prop where
  | literal (text : Text) : Expands values (.literal text) text
  | dollar : Expands values .dollar ['$']
  | representationId {id : Text} (known : values.representationId = some id) :
      Expands values (.value .representationId none) id
  | number {identifier : Identifier} {format : Option Text} {value width : Nat}
      (known : values.numeric identifier = some value) (sized : FormatWidth format width) :
      Expands values (.value identifier format) (padded width value)

/-- The template is made of tokens, and the result of what they are replaced by. -/
def Substitutes (values : TemplateValues) (template result : Text) : Prop :=
  ∃ tokens parts, template = tokens.flatMap Token.text ∧ (∀ token ∈ tokens, token.WellFormed) ∧
    List.Forall₂ (Expands values) tokens parts ∧ result = parts.flatten

/-! ## Formats -/

theorem dropWhile_zeros {zeros rest : Text} (zero : ∀ c ∈ zeros, c = '0')
    (first : rest.head? ≠ some '0') : (zeros ++ rest).dropWhile (· = '0') = rest := by
  rw [List.dropWhile_append_of_pos fun c member => decide_eq_true (zero c member)]
  cases rest with
  | nil => rfl
  | cons c rest =>
    apply List.dropWhile_cons_of_neg
    rw [decide_eq_true_eq]
    exact fun same => first (congrArg some same)

theorem zeros_before (text : Text) : ∃ zeros rest, text = zeros ++ rest ∧
    (∀ c ∈ zeros, c = '0') ∧ rest.head? ≠ some '0' ∧ text.dropWhile (· = '0') = rest := by
  refine ⟨text.takeWhile (· = '0'), text.dropWhile (· = '0'), ?_, ?_, ?_, rfl⟩
  · exact List.takeWhile_append_dropWhile.symm
  · intro c member
    have zero := List.mem_takeWhile_imp (p := fun c : Char => decide (c = '0')) member
    exact of_decide_eq_true zero
  · intro first
    have stopped := List.head?_dropWhile_not (fun c : Char => decide (c = '0')) text
    rw [first] at stopped
    cases stopped

theorem padded_zero (value : Nat) : padded 0 value = Text.ofNat value := by
  unfold padded
  rw [Nat.zero_sub]
  rfl

/-- The part of a format before a `d` that may end it. -/
theorem stripped_format {kept ending : Text} (ends : ending = [] ∨ ending = ['d'])
    (absent : 'd' ∉ kept) : (stripSuffix ['d'] (kept ++ ending)).getD (kept ++ ending) = kept := by
  rcases ends with none | some
  · rw [none, List.append_nil, stripSuffix_absent absent]
    rfl
  · rw [some, stripSuffix_append]
    rfl

variable {format : Option Text}

theorem formatNumber_sized {width : Nat} (sized : FormatWidth format width) (value : Nat) :
    formatNumber value format = .ok (padded width value) := by
  cases sized with
  | absent =>
    rw [padded_zero]
    rfl
  | @unsized zeros ending zero ends =>
    have absent : 'd' ∉ zeros := fun member => absurd (zero _ member) (by decide)
    have dropped := @dropWhile_zeros _ [] zero nofun
    rw [List.append_nil] at dropped
    unfold formatNumber
    dsimp only
    rw [stripped_format ends absent, dropped, if_pos rfl, padded_zero]
  | @sized zeros digits ending width zero first number positive bound ends =>
    obtain ⟨some, chars⟩ := parseUnsigned_chars number
    have absent : 'd' ∉ zeros ++ digits := by
      rw [List.mem_append]
      rintro (here | there)
      · exact absurd (zero _ here) (by decide)
      · exact absurd (chars _ there) (by decide)
    unfold formatNumber
    dsimp only
    rw [stripped_format ends absent, dropWhile_zeros zero first, if_neg some, number, required,
      ok_bind, if_neg (not_or.mpr ⟨positive, Nat.not_lt.mpr bound⟩)]
    rfl

theorem formatNumber_ok {value : Nat} {text : Text} (h : formatNumber value format = .ok text) :
    ∃ width, FormatWidth format width ∧ text = padded width value := by
  cases format with
  | none =>
    cases h
    exact ⟨0, .absent, (padded_zero value).symm⟩
  | some format =>
    obtain ⟨kept, ending, split, stripped, ends⟩ := stripSuffix_cases 'd' format
    obtain ⟨zeros, digits, whole, zero, first, dropped⟩ := zeros_before kept
    unfold formatNumber at h
    dsimp only at h
    rw [stripped, dropped] at h
    rw [split, whole]
    obtain ⟨none, h⟩ | ⟨some, h⟩ := ite_ok h
    · cases h
      rw [none, List.append_nil]
      exact ⟨0, .unsized zero ends, (padded_zero value).symm⟩
    · obtain ⟨width, number, h⟩ := bind_ok h
      obtain ⟨within, h⟩ := guard_ok h
      cases h
      rw [not_or, Nat.not_lt] at within
      exact ⟨width, .sized zero first (required_ok number) within.1 within.2 ends, rfl⟩

/-! ## Tokens -/

/-- `substitute_template` with its values. -/
def TemplateValues.substitute (values : TemplateValues) (template : Text) :
    Except ManifestError Text :=
  substituteTemplate template values.representationId values.bandwidth values.number values.time

def TemplateValues.token (values : TemplateValues) (token : Text) : Except ManifestError Text :=
  substituteToken token values.representationId values.bandwidth values.number values.time

def TemplateValues.rounds (values : TemplateValues) (rounds : Nat) (rest : Text) :
    Except ManifestError Text :=
  substituteRounds values.representationId values.bandwidth values.number values.time rounds rest

section Tokens

variable {values : TemplateValues}
variable {token : Text} {identifier : Identifier}

/-- The identifier and the format of a token. -/
def tokenParts (token : Text) : Text × Option Text :=
  match splitOnce '%' token with
  | some (identifier, format) => (identifier, some format)
  | none => (token, none)

theorem tokenParts_inner (identifier : Identifier) (format : Option Text) :
    tokenParts (Token.inner identifier format) = (identifier.name, format) := by
  have absent : '%' ∉ identifier.name := by
    cases identifier <;> decide
  unfold tokenParts Token.inner
  cases format with
  | none =>
    dsimp only [Option.elim_none]
    rw [List.append_nil, splitOnce_none_iff.mpr absent]
  | some format =>
    dsimp only [Option.elim_some]
    rw [splitOnce_append absent]

theorem inner_tokenParts (named : (tokenParts token).1 = identifier.name) :
    token = Token.inner identifier (tokenParts token).2 := by
  unfold tokenParts at named ⊢
  unfold Token.inner
  cases found : splitOnce '%' token with
  | none =>
    rw [found] at named
    dsimp only [Option.elim_none] at named ⊢
    rw [List.append_nil, named]
  | some parts =>
    rw [found] at named
    rw [← named]
    exact (splitOnce_eq_some found).1

/-- What a token with a known identifier stands for. -/
def expandIdentifier (values : TemplateValues) (identifier : Identifier) (format : Option Text) :
    Except ManifestError Text :=
  match identifier with
  | .representationId =>
      if format.isSome then .error .malformed else required .malformed values.representationId
  | other => do formatNumber (← required .malformed (values.numeric other)) format

theorem token_known (identifier : Identifier) (nonempty : token ≠ [])
    (named : (tokenParts token).1 = identifier.name) :
    values.token token = expandIdentifier values identifier (tokenParts token).2 := by
  unfold TemplateValues.token substituteToken
  rw [if_neg nonempty]
  unfold tokenParts at named ⊢
  cases found : splitOnce '%' token with
  | none =>
    rw [found] at named
    dsimp only at named ⊢
    rw [named]
    cases identifier <;> rfl
  | some parts =>
    rw [found] at named
    dsimp only at named ⊢
    rw [named]
    cases identifier <;> rfl

theorem token_unknown (nonempty : token ≠ [])
    (unknown : ∀ identifier : Identifier, (tokenParts token).1 ≠ identifier.name) :
    values.token token = .error .malformed := by
  unfold TemplateValues.token substituteToken
  rw [if_neg nonempty]
  unfold tokenParts at unknown
  cases found : splitOnce '%' token with
  | none | some parts =>
    rw [found] at unknown
    exact (if_neg (unknown .representationId)).trans ((if_neg (unknown .bandwidth)).trans
      ((if_neg (unknown .number)).trans (if_neg (unknown .time))))

theorem expandIdentifier_iff {value : Text} :
    expandIdentifier values identifier format = .ok value ↔
      Expands values (.value identifier format) value := by
  constructor
  · intro h
    unfold expandIdentifier at h
    split at h
    · cases format with
      | none => exact .representationId (required_ok h)
      | some format => cases h
    · obtain ⟨number, known, h⟩ := bind_ok h
      obtain ⟨width, sized, same⟩ := formatNumber_ok h
      rw [same]
      exact .number (required_ok known) sized
  · intro expands
    cases expands with
    | representationId known =>
      unfold expandIdentifier
      rw [known]
      rfl
    | @number identifier format number width known sized =>
      cases identifier with
      | representationId => cases known
      | bandwidth | number | time =>
        unfold expandIdentifier
        dsimp only
        rw [known, required, ok_bind]
        exact formatNumber_sized sized number

theorem inner_ne_nil (identifier : Identifier) (format : Option Text) :
    Token.inner identifier format ≠ [] := by
  cases identifier <;> exact List.cons_ne_nil _ _

/-- A token is expanded exactly where it is an identifier that stands for something. -/
theorem token_iff {value : Text} (nonempty : token ≠ []) :
    values.token token = .ok value ↔ ∃ identifier format,
      token = Token.inner identifier format ∧ Expands values (.value identifier format) value := by
  constructor
  · intro h
    by_cases known : ∃ identifier : Identifier, (tokenParts token).1 = identifier.name
    · obtain ⟨identifier, named⟩ := known
      rw [token_known identifier nonempty named] at h
      exact ⟨identifier, _, inner_tokenParts named, expandIdentifier_iff.mp h⟩
    · rw [token_unknown nonempty (not_exists.mp known)] at h
      cases h
  · intro ⟨identifier, format, same, expands⟩
    have parts := tokenParts_inner identifier format
    rw [same, token_known identifier (inner_ne_nil _ _) (congrArg Prod.fst parts), parts]
    exact expandIdentifier_iff.mpr expands

/-! ## Templates -/

theorem rounds_literal {literal : Text} (absent : '$' ∉ literal) (rounds : Nat) (rest : Text) :
    values.rounds rounds (literal ++ rest) = (values.rounds rounds rest).map (literal ++ ·) := by
  unfold TemplateValues.rounds
  cases rounds with
  | zero => rfl
  | succ rounds =>
    rw [substituteRounds, substituteRounds, splitOnce_append_none absent]
    cases splitOnce '$' rest with
    | none => rfl
    | some parts =>
      dsimp only [Option.map_some]
      cases required ManifestError.malformed (splitOnce '$' parts.2) with
      | error error => rfl
      | ok next =>
        rw [ok_bind, ok_bind]
        cases substituteToken next.1 values.representationId values.bandwidth values.number
          values.time with
        | error error => rfl
        | ok value =>
          rw [ok_bind, ok_bind]
          cases substituteRounds values.representationId values.bandwidth values.number
            values.time rounds next.2 with
          | error error => rfl
          | ok tail => simp [ok_bind, pure, Except.pure, Except.map, List.append_assoc]

theorem rounds_token (absent : '$' ∉ token) (rounds : Nat) (rest : Text) :
    values.rounds (rounds + 1) ('$' :: (token ++ '$' :: rest)) =
      (values.token token >>= fun value => (values.rounds rounds rest).map (value ++ ·)) := by
  unfold TemplateValues.rounds TemplateValues.token
  rw [substituteRounds, splitOnce, if_pos rfl]
  dsimp only
  rw [splitOnce_append absent, required, ok_bind]
  cases substituteToken token values.representationId values.bandwidth values.number
    values.time with
  | error error => rfl
  | ok value =>
    rw [ok_bind, ok_bind]
    cases substituteRounds values.representationId values.bandwidth values.number values.time
      rounds rest <;> rfl

theorem inner_noDollar (formed : (Token.value identifier format).WellFormed) :
    '$' ∉ Token.inner identifier format := by
  have absent : '$' ∉ identifier.name := by
    cases identifier <;> decide
  unfold Token.inner
  rw [List.mem_append, not_or]
  refine ⟨absent, ?_⟩
  cases format with
  | none => exact List.not_mem_nil
  | some format =>
    rw [Option.elim_some, List.mem_cons, not_or]
    exact ⟨by decide, formed format rfl⟩

/-- A token is literal text or stands between two dollar signs. -/
theorem Expands.between {token : Token} {part : Text} (expands : Expands values token part)
    (formed : token.WellFormed) : token = .literal part ∨ ∃ inner,
      token.text = '$' :: (inner ++ ['$']) ∧ '$' ∉ inner ∧ values.token inner = .ok part := by
  have identified {identifier : Identifier} {format : Option Text}
      (formed : (Token.value identifier format).WellFormed)
      (expands : Expands values (.value identifier format) part) : ∃ inner,
      (Token.value identifier format).text = '$' :: (inner ++ ['$']) ∧ '$' ∉ inner ∧
        values.token inner = .ok part :=
    ⟨Token.inner identifier format, rfl, inner_noDollar formed,
      (token_iff (inner_ne_nil _ _)).mpr ⟨identifier, format, rfl, expands⟩⟩
  cases expands with
  | literal text => exact .inl rfl
  | dollar => exact .inr ⟨[], rfl, List.not_mem_nil, rfl⟩
  | representationId known => exact .inr (identified formed (.representationId known))
  | number known sized => exact .inr (identified formed (.number known sized))

/-- What the tokens are replaced by is what the loop makes of their texts. -/
theorem rounds_tokens {tokens : List Token} {parts : List Text}
    (wellFormed : ∀ token ∈ tokens, token.WellFormed)
    (expands : List.Forall₂ (Expands values) tokens parts) {rounds : Nat}
    (enough : (tokens.flatMap Token.text).length ≤ rounds) :
    values.rounds rounds (tokens.flatMap Token.text) = .ok parts.flatten := by
  induction expands generalizing rounds with
  | nil => cases rounds <;> rfl
  | @cons token part tokens parts first _ ih =>
    obtain ⟨formed, others⟩ := List.forall_mem_cons.mp wellFormed
    rw [List.flatMap_cons, List.length_append] at enough
    rw [List.flatMap_cons, List.flatten_cons]
    rcases first.between formed with literal | ⟨inner, text, absent, value⟩
    · rw [literal] at formed ⊢
      rw [Token.text, rounds_literal formed, ih others (by omega)]
      rfl
    · rw [text, List.length_cons, List.length_append] at enough
      rw [text, List.cons_append, List.append_assoc, List.singleton_append]
      cases rounds with
      | zero => omega
      | succ rounds =>
        rw [rounds_token absent, value, ok_bind, ih others (by omega)]
        rfl

/-- What the loop accepts is made of tokens. -/
theorem rounds_ok {rounds : Nat} {rest result : Text} (enough : rest.length ≤ rounds)
    (h : values.rounds rounds rest = .ok result) : Substitutes values rest result := by
  induction rounds generalizing rest result with
  | zero =>
    rw [List.length_eq_zero_iff.mp (Nat.le_zero.mp enough)] at h
    cases h
    exact ⟨[], [], by rw [List.length_eq_zero_iff.mp (Nat.le_zero.mp enough)]; rfl,
      (fun _ member => nomatch member), .nil, rfl⟩
  | succ rounds ih =>
    cases found : splitOnce '$' rest with
    | none =>
      have same : result = rest := by
        unfold TemplateValues.rounds at h
        rw [substituteRounds, found] at h
        exact (Except.ok.inj h).symm
      refine ⟨[.literal rest], [rest], (List.append_nil _).symm, fun token member => ?_,
        .cons (.literal rest) .nil, same.trans (List.append_nil _).symm⟩
      rw [List.mem_singleton.mp member]
      exact splitOnce_none_iff.mp found
    | some parts =>
      obtain ⟨literal, after⟩ := parts
      obtain ⟨split, noDollar⟩ := splitOnce_eq_some found
      cases ended : splitOnce '$' after with
      | none =>
        unfold TemplateValues.rounds at h
        rw [substituteRounds, found] at h
        dsimp only at h
        rw [ended] at h
        cases h
      | some parts =>
        obtain ⟨token, next⟩ := parts
        obtain ⟨whole, absent⟩ := splitOnce_eq_some ended
        rw [split, rounds_literal noDollar, whole, rounds_token absent] at h
        obtain ⟨tail, h, same⟩ := map_ok h
        obtain ⟨value, expanded, h⟩ := bind_ok h
        obtain ⟨last, later, joined⟩ := map_ok h
        have shorter : next.length ≤ rounds := by
          rw [split, whole] at enough
          simp only [List.length_append, List.length_cons] at enough
          omega
        obtain ⟨tokens, parts, texts, formed, expands, flat⟩ := ih shorter later
        have between : ∃ known : Token, known.text = '$' :: (token ++ ['$']) ∧
            known.WellFormed ∧ Expands values known value := by
          by_cases empty : token = []
          · rw [empty] at expanded ⊢
            cases expanded
            exact ⟨.dollar, rfl, trivial, .dollar⟩
          · obtain ⟨identifier, format, inner, expands⟩ := (token_iff empty).mp expanded
            refine ⟨.value identifier format, by rw [inner]; rfl, ?_, expands⟩
            intro given member dollar
            apply absent
            rw [inner, Option.mem_def.mp member]
            exact List.mem_append_right _ (List.mem_cons_of_mem _ dollar)
        obtain ⟨known, text, wellFormed, value⟩ := between
        refine ⟨.literal literal :: known :: tokens, literal :: _ :: parts, ?_, ?_,
          .cons (.literal literal) (.cons value expands), ?_⟩
        · rw [List.flatMap_cons, List.flatMap_cons, text, ← texts, split, whole]
          simp [Token.text]
        · intro other member
          rcases List.mem_cons.mp member with first | member
          · rw [first]
            exact noDollar
          · rcases List.mem_cons.mp member with second | later
            · rw [second]
              exact wellFormed
            · exact formed other later
        · rw [List.flatten_cons, List.flatten_cons, ← flat, joined, same]

/-- A template is substituted exactly where it is made of tokens that stand for something,
and the result is what they are replaced by, one after the other. -/
theorem substitute_iff (values : TemplateValues) (template result : Text) :
    values.substitute template = .ok result ↔ Substitutes values template result := by
  constructor
  · exact rounds_ok (Nat.le_refl _)
  · intro ⟨tokens, parts, texts, formed, expands, flat⟩
    rw [texts, flat]
    exact rounds_tokens formed expands (Nat.le_refl _)

end Tokens

/-- A token with a value, and with its width, if any, after a zero and before a `d`. -/
def Token.Standard (values : TemplateValues) : Token → Prop
  | .literal text => '$' ∉ text
  | .dollar => True
  | .value .representationId format => format = none ∧ values.representationId.isSome = true
  | .value identifier format => (values.numeric identifier).isSome = true ∧
      ∀ given ∈ format, ∃ width value, digitsValue width = some value ∧
        given = '0' :: (width ++ ['d'])

/-- A number in a width of 33 is such a token, and is refused. -/
theorem wide_number_refused : ∃ values template,
    (∃ tokens : List Token, template = tokens.flatMap Token.text ∧
        ∀ token ∈ tokens, token.Standard values) ∧
      ∀ result, TemplateValues.substitute values template ≠ .ok result := by
  refine ⟨⟨none, none, some 7, none⟩, "$Number%033d$".toList,
    ⟨[.value .number (some "033d".toList)], by decide, ?_⟩, ?_⟩
  · intro token member
    rw [List.mem_singleton.mp member]
    refine ⟨rfl, fun given found => ⟨"33".toList, 33, by decide +kernel, ?_⟩⟩
    cases found
    rfl
  · have refused : (TemplateValues.substitute ⟨none, none, some 7, none⟩
        "$Number%033d$".toList).isOk = false := by
      decide +kernel
    intro result accepted
    rw [accepted] at refused
    cases refused

/-- A width without its zero and its `d` is accepted all the same. -/
example : (TemplateValues.substitute ⟨none, none, some 7, none⟩ "$Number%5$".toList).toOption =
    some "00007".toList := by
  decide +kernel

end Gunda.Stream
