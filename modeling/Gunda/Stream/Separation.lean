import Gunda.Lib.Delimited
import Gunda.Stream.Fingerprint

/-!
# What a fingerprint tells apart

The bytes that `PlanFingerprint::of` feeds to its digest. Everything but the pairs of
a query is delimited; the pairs are written decoded, so the text of a query may be cut
into pairs in more than one way.
-/
namespace Gunda.Stream

open Gunda.Lib
open Gunda.Core (Url)

/-! ## The bytes -/

def pairText (pair : Text × Text) : Text := '?' :: (pair.1 ++ '=' :: pair.2)

def queryText (pairs : List (Text × Text)) : Text := pairs.flatMap pairText

def portText : Option Nat → Text
  | some port => ':' :: Text.ofNat port
  | none => []

def urlText (identity : UrlIdentity) (url : Url) : Text :=
  identity.scheme url ++ "://".toList ++ (identity.hostStr url).getD [] ++
    portText (identity.port url) ++ identity.path url ++
    queryText (sortedPairs (namingPairs identity url))

def rangeBytes : Option Hls.ByteRange → Bytes
  | some range => 1 :: (le 8 range.length ++ le 8 (range.offset.getD 0))
  | none => [0]

def resourceBytes (identity : UrlIdentity) (resource : StreamResource) : Bytes :=
  0 :: UInt8.ofNat resource.track ::
    (utf8 (urlText identity resource.url) ++ rangeBytes resource.byteRange)

/-- The bytes that are fed to the digest of a plan. -/
def fedBytes (identity : UrlIdentity) (plan : TrackPlan) (manifest : Url) : Bytes :=
  utf8 plan.kind.tag ++ 0 :: (utf8 (urlText identity manifest) ++
    0 :: (le 8 plan.resources.length ++ plan.resources.flatMap (resourceBytes identity)))

section

variable {identity : UrlIdentity}

theorem Fnv128.write_write (hash : Fnv128) (a b : Bytes) :
    (hash.write a).write b = hash.write (a ++ b) := List.foldl_append.symm

theorem utf8_nil : utf8 [] = [] := toUTF8_toList []

theorem utf8_append (a b : Text) : utf8 (a ++ b) = utf8 a ++ utf8 b := by
  unfold utf8
  rw [toUTF8_toList, toUTF8_toList, toUTF8_toList, List.flatMap_append]

theorem utf8_cons (c : Char) (text : Text) : utf8 (c :: text) = utf8 [c] ++ utf8 text :=
  utf8_append [c] text

section

variable (hash : Fnv128)
include hash

theorem hashPairs_eq (pairs : List (Text × Text)) :
    pairs.foldl hashPair hash = hash.write (utf8 (queryText pairs)) := by
  induction pairs generalizing hash with
  | nil =>
    change hash = hash.write (utf8 [])
    rw [utf8_nil]
    rfl
  | cons pair rest ih =>
    have first : hashPair hash pair = hash.write (utf8 (pairText pair)) := by
      unfold hashPair pairText
      rw [Fnv128.write_write, Fnv128.write_write, Fnv128.write_write, utf8_cons, utf8_append,
        utf8_cons '=']
      rfl
    rw [List.foldl_cons, ih, first, Fnv128.write_write, ← utf8_append]
    rfl

theorem hashPort_eq (port : Option Nat) :
    hashPort hash port = hash.write (utf8 (portText port)) := by
  cases port with
  | none =>
    change hash = hash.write (utf8 [])
    rw [utf8_nil]
    rfl
  | some port =>
    change (hash.write _).write _ = _
    rw [Fnv128.write_write]
    exact congrArg hash.write (utf8_cons ':' _).symm

theorem hashUrl_eq (url : Url) :
    hashUrl identity hash url = hash.write (utf8 (urlText identity url)) := by
  unfold hashUrl urlText
  rw [hashPairs_eq, hashPort_eq]
  simp only [Fnv128.write_write, utf8_append]

theorem hashResource_eq (resource : StreamResource) :
    hashResource identity hash resource = hash.write (resourceBytes identity resource) := by
  unfold hashResource resourceBytes
  dsimp only
  rw [hashUrl_eq]
  cases resource.byteRange with
  | none =>
    change ((((hash.write _).write _).write _).write _) = _
    simp only [Fnv128.write_write]
    rfl
  | some range =>
    change ((((((hash.write _).write _).write _).write _).write _).write _) = _
    simp only [Fnv128.write_write]
    congr 1
    simp [rangeBytes]

theorem hashResources_eq (resources : List StreamResource) :
    resources.foldl (hashResource identity) hash =
      hash.write (resources.flatMap (resourceBytes identity)) := by
  induction resources generalizing hash with
  | nil => rfl
  | cons resource rest ih =>
    rw [List.foldl_cons, ih, hashResource_eq, Fnv128.write_write]
    rfl

end

/-- The fingerprint is the digest of these bytes. -/
theorem PlanFingerprint.of_eq_digest (plan : TrackPlan) (manifest : Url) :
    PlanFingerprint.of identity plan manifest =
      (Fnv128.new.write (fedBytes identity plan manifest)).finish := by
  unfold PlanFingerprint.of fedBytes
  dsimp only
  rw [hashResources_eq, hashUrl_eq]
  simp only [Fnv128.write_write]
  congr 2
  simp

end

/-! ## URLs of the web -/

def IsWeb (identity : UrlIdentity) (url : Url) : Prop :=
  identity.scheme url = "http".toList ∨ identity.scheme url = "https".toList

/-- No character that the bytes between URLs could begin with. -/
def Plain (text : Text) : Prop := ∀ c ∈ text, 1 < c.toNat

instance (text : Text) : Decidable (Plain text) :=
  List.decidableBAll (fun c : Char => 1 < c.toNat) text

/-- A name or an address, which ends before a port is written. -/
structure HostText (host : Text) : Prop where
  plain : Plain host
  component : '/' ∉ host
  ended : (':' ∉ host ∧ host.head? ≠ some '[') ∨
    ∃ inner, host = '[' :: (inner ++ [']']) ∧ ']' ∉ inner

/-- What the `url` crate documents of a URL of the web: its parts are percent-encoded,
and any pairs can be written as its query. -/
structure UrlIdentity.Documented (identity : UrlIdentity) : Prop where
  host : ∀ url, IsWeb identity url → ∃ host, identity.hostStr url = some host ∧ HostText host
  path : ∀ url, IsWeb identity url → ∃ rest, identity.path url = '/' :: rest ∧
    Plain rest ∧ '?' ∉ rest
  rewrite : ∀ url pairs, IsWeb identity url → ∃ other, identity.queryPairs other = pairs ∧
    identity.scheme other = identity.scheme url ∧ identity.hostStr other = identity.hostStr url ∧
    identity.port other = identity.port url ∧ identity.path other = identity.path url

section

variable {identity : UrlIdentity} {a b : Url}
variable {pairs : List (Text × Text)} {pair : Text × Text}

theorem queryText_head (pairs : List (Text × Text)) : ∀ c ∈ (queryText pairs).head?, c = '?' := by
  intro c first
  cases pairs with
  | nil => cases first
  | cons pair rest =>
    cases first
    rfl

theorem portText_inj {p q : Option Nat} (h : portText p = portText q) : p = q := by
  cases p with
  | none => cases q with
    | none => rfl
    | some q => cases h
  | some p => cases q with
    | none => cases h
    | some q =>
      have digits := (List.cons.inj h).2
      have values := congrArg Text.digitsValue digits
      rw [Text.digitsValue_ofNat, Text.digitsValue_ofNat] at values
      exact values

theorem not_mem_portText {c : Char} (port : Option Nat) (noDigit : c.isDigit = false)
    (other : c ≠ ':') : c ∉ portText port := by
  cases port with
  | none => exact List.not_mem_nil
  | some port =>
    intro member
    cases List.mem_cons.mp member with
    | inl same => exact other same
    | inr digit => exact Text.not_mem_ofNat port noDigit digit

theorem portText_head (port : Option Nat) : ∀ c ∈ (portText port).head?, c = ':' := by
  intro c first
  cases port with
  | none => cases first
  | some port =>
    cases first
    rfl

theorem not_bracketed {host inner : Text} {port port' : Option Nat}
    (unbracketed : host.head? ≠ some '[') :
    host ++ portText port ≠ '[' :: (inner ++ [']']) ++ portText port' := by
  intro same
  have heads := congrArg List.head? same
  cases host with
  | nil => exact absurd (portText_head port '[' heads) (by decide)
  | cons c rest => exact unbracketed heads

/-- Where a host ends and its port begins can be told. -/
theorem authority_unique {host host' : Text} {port port' : Option Nat} (ends : HostText host)
    (ends' : HostText host') (h : host ++ portText port = host' ++ portText port') :
    host = host' ∧ port = port' := by
  obtain ⟨plain, unbracketed⟩ | ⟨inner, rfl, absent⟩ := ends.ended
  · obtain ⟨plain', unbracketed'⟩ | ⟨inner', rfl, absent'⟩ := ends'.ended
    · obtain ⟨same, ports⟩ :=
        until_unique h plain plain' (portText_head port) (portText_head port')
      exact ⟨same, portText_inj ports⟩
    · exact absurd h (not_bracketed unbracketed)
  · obtain ⟨plain', unbracketed'⟩ | ⟨inner', rfl, absent'⟩ := ends'.ended
    · exact absurd h.symm (not_bracketed unbracketed')
    · simp only [List.cons_append, List.append_assoc, List.cons.injEq, true_and] at h
      obtain ⟨same, ports⟩ := cut_unique h absent absent'
      rw [same]
      exact ⟨rfl, portText_inj ports⟩

/-- The parts of a URL before its query. -/
structure SameBase (identity : UrlIdentity) (a b : Url) : Prop where
  scheme : identity.scheme a = identity.scheme b
  host : identity.hostStr a = identity.hostStr b
  port : identity.port a = identity.port b
  path : identity.path a = identity.path b

/-- The text of a URL tells its parts and the text of its query. -/
theorem urlText_unique (documented : identity.Documented) (web : IsWeb identity a)
    (web' : IsWeb identity b) (h : urlText identity a = urlText identity b) :
    SameBase identity a b ∧ queryText (sortedPairs (namingPairs identity a)) =
      queryText (sortedPairs (namingPairs identity b)) := by
  obtain ⟨host, hosted, hostText⟩ := documented.host a web
  obtain ⟨host', hosted', hostText'⟩ := documented.host b web'
  obtain ⟨rest, path, -, unqueried⟩ := documented.path a web
  obtain ⟨rest', path', -, unqueried'⟩ := documented.path b web'
  have noColon : ∀ url, IsWeb identity url → ':' ∉ identity.scheme url := by
    intro url web
    cases web with
    | inl plain =>
      rw [plain]
      decide
    | inr secure =>
      rw [secure]
      decide
  unfold urlText at h
  rw [hosted, hosted', path, path'] at h
  simp only [Option.getD_some, List.append_assoc] at h
  obtain ⟨scheme, h⟩ := cut_unique h (noColon a web) (noColon b web')
  replace h := (List.cons.inj (List.cons.inj h).2).2
  rw [← List.append_assoc host, ← List.append_assoc host'] at h
  have component : ∀ {host : Text} (port : Option Nat), HostText host →
      '/' ∉ host ++ portText port := by
    intro host port text
    rw [List.mem_append, not_or]
    exact ⟨text.component, not_mem_portText port (by decide) (by decide)⟩
  obtain ⟨authority, h⟩ := cut_unique h (component _ hostText) (component _ hostText')
  obtain ⟨sameHost, port⟩ := authority_unique hostText hostText' authority
  obtain ⟨samePath, queries⟩ := until_unique h unqueried unqueried'
    (queryText_head _) (queryText_head _)
  refine ⟨⟨scheme, ?_, port, ?_⟩, queries⟩
  · rw [hosted, hosted', sameHost]
  · rw [path, path', samePath]

/-! ## Numbers and texts as bytes -/

theorem le_length (width n : Nat) : (le width n).length = width := by
  induction width generalizing n with
  | zero => rfl
  | succ width ih => exact congrArg (· + 1) (ih _)

theorem le_inj {width n m : Nat} (fits : n < 256 ^ width) (fits' : m < 256 ^ width)
    (h : le width n = le width m) : n = m := by
  induction width generalizing n m with
  | zero => omega
  | succ width ih =>
    obtain ⟨low, high⟩ := List.cons.inj h
    have remainder := congrArg UInt8.toNat low
    rw [UInt8.toNat_ofNat', UInt8.toNat_ofNat'] at remainder
    have quotient : n / 256 = m / 256 := by
      apply ih _ _ high
      · rw [Nat.pow_succ] at fits
        omega
      · rw [Nat.pow_succ] at fits'
        omega
    omega

/-- The bytes of a plain text are none that follow a text. -/
theorem utf8_plain {text : Text} (plain : Plain text) : ∀ byte ∈ utf8 text, decide (1 < byte.toNat) := by
  intro byte member
  unfold utf8 at member
  rw [toUTF8_toList] at member
  obtain ⟨c, present, member⟩ := List.mem_flatMap.mp member
  apply decide_eq_true
  by_contra low
  have same := toNat_of_mem_utf8EncodeChar member (by omega)
  have above := plain c present
  omega

/-- A plain text ends at the byte of the next field. -/
theorem utf8_unique {text text' : Text} {rest rest' : Bytes} (plain : Plain text)
    (plain' : Plain text') (head : ∀ byte ∈ rest.head?, byte.toNat ≤ 1)
    (head' : ∀ byte ∈ rest'.head?, byte.toNat ≤ 1) (h : utf8 text ++ rest = utf8 text' ++ rest') :
    text = text' ∧ rest = rest' := by
  have field : ∀ {rest : Bytes}, (∀ byte ∈ rest.head?, byte.toNat ≤ 1) →
      ∀ byte ∈ rest.head?, decide (1 < byte.toNat) = false := by
    intro rest head byte first
    have low := head byte first
    exact decide_eq_false (by omega)
  obtain ⟨same, remaining⟩ := span_unique h (utf8_plain plain) (utf8_plain plain') (field head)
    (field head')
  exact ⟨toUTF8_toList_injective same, remaining⟩

/-! ## Plans -/

/-- What a range request for the resource names. -/
def rangeStart (range : Hls.ByteRange) : Nat × Nat := (range.length, range.offset.getD 0)

/-- Numbers of the source's types, in a resource of the web without the characters that
end a text. -/
structure Addressed (identity : UrlIdentity) (url : Url) : Prop where
  web : IsWeb identity url
  plain : ∀ pair ∈ namingPairs identity url, Plain pair.1 ∧ Plain pair.2

structure StreamResource.Fits (resource : StreamResource) : Prop where
  track : resource.track < 2 ^ 8
  range : ∀ range ∈ resource.byteRange, range.length < 2 ^ 64 ∧ range.offset.getD 0 < 2 ^ 64

theorem rangeBytes_head (range : Option Hls.ByteRange) (rest : Bytes) :
    ∀ byte ∈ (rangeBytes range ++ rest).head?, byte.toNat ≤ 1 := by
  intro byte first
  cases range with
  | none =>
    cases first
    decide
  | some range =>
    cases first
    decide

theorem rangeBytes_unique {range range' : Option Hls.ByteRange} {rest rest' : Bytes}
    (fits : ∀ r ∈ range, r.length < 2 ^ 64 ∧ r.offset.getD 0 < 2 ^ 64)
    (fits' : ∀ r ∈ range', r.length < 2 ^ 64 ∧ r.offset.getD 0 < 2 ^ 64)
    (h : rangeBytes range ++ rest = rangeBytes range' ++ rest') :
    range.map rangeStart = range'.map rangeStart ∧ rest = rest' := by
  cases range with
  | none =>
    cases range' with
    | none => exact ⟨rfl, (List.cons.inj h).2⟩
    | some range' => exact absurd (List.cons.inj h).1 (by decide)
  | some range =>
    cases range' with
    | none => exact absurd (List.cons.inj h).1 (by decide)
    | some range' =>
      have numbers := (List.cons.inj h).2
      change le 8 _ ++ le 8 _ ++ _ = le 8 _ ++ le 8 _ ++ _ at numbers
      rw [List.append_assoc, List.append_assoc] at numbers
      obtain ⟨lengths, numbers⟩ := List.append_inj numbers (by rw [le_length, le_length])
      obtain ⟨offsets, remaining⟩ := List.append_inj numbers (by rw [le_length, le_length])
      have size : 2 ^ 64 = 256 ^ 8 := by decide
      obtain ⟨length, offset⟩ := fits range rfl
      obtain ⟨length', offset'⟩ := fits' range' rfl
      rw [size] at length offset length' offset'
      refine ⟨?_, remaining⟩
      simp only [Option.map_some, rangeStart, Option.some.injEq, Prod.mk.injEq]
      exact ⟨le_inj length length' lengths, le_inj offset offset' offsets⟩

theorem queryText_plain (plain : ∀ pair ∈ pairs, Plain pair.1 ∧ Plain pair.2) :
    Plain (queryText pairs) := by
  intro c member
  obtain ⟨pair, present, member⟩ := List.mem_flatMap.mp member
  obtain ⟨name, value⟩ := plain pair present
  simp only [pairText, List.mem_cons, List.mem_append] at member
  obtain rfl | member | rfl | member := member
  · decide
  · exact name c member
  · decide
  · exact value c member

theorem mem_sortedPairs :
    pair ∈ sortedPairs pairs ↔ pair ∈ pairs := List.mem_insertionSort _

theorem urlText_plain (documented : identity.Documented) (addressed : Addressed identity a) :
    Plain (urlText identity a) := by
  obtain ⟨host, hosted, hostText⟩ := documented.host a addressed.web
  obtain ⟨rest, path, plain, -⟩ := documented.path a addressed.web
  have scheme : Plain (identity.scheme a) := by
    cases addressed.web with
    | inl unsecured =>
      rw [unsecured]
      decide
    | inr secure =>
      rw [secure]
      decide
  have query : Plain (queryText (sortedPairs (namingPairs identity a))) := by
    apply queryText_plain
    intro pair member
    exact addressed.plain pair (mem_sortedPairs.mp member)
  have port : Plain (portText (identity.port a)) := by
    intro c member
    cases ports : identity.port a with
    | none =>
      rw [ports] at member
      cases member
    | some port =>
      rw [ports] at member
      cases List.mem_cons.mp member with
      | inl colon =>
        rw [colon]
        decide
      | inr digit =>
        have bounds := Text.isDigit_of_mem_ofNat digit
        simp only [Char.isDigit, Bool.and_eq_true, decide_eq_true_eq] at bounds
        have least : 48 ≤ c.toNat := bounds.1
        omega
  intro c member
  unfold urlText at member
  rw [hosted, path] at member
  simp only [Option.getD_some, List.mem_append, List.mem_cons] at member
  obtain ((((member | member) | member) | member) | member | member) | member := member
  · exact scheme c member
  · have mark : Plain "://".toList := by decide
    exact mark c member
  · exact hostText.plain c member
  · exact port c member
  · rw [member]
    decide
  · exact plain c member
  · exact query c member

/-! ## Cutting a query -/

/-- The text of these pairs can be cut into no others: at most one pair, with no other
`=` than the one between its name and its value. -/
def OneReading : List (Text × Text) → Prop
  | [] => True
  | [(name, value)] => '=' ∉ value ∧
      ∀ i < name.length, name[i]? = some '=' → isSigningParameter (name.take i) = true
  | _ => False

theorem queryText_cons (pair : Text × Text) (rest : List (Text × Text)) :
    queryText (pair :: rest) = '?' :: (pair.1 ++ '=' :: (pair.2 ++ queryText rest)) := by
  unfold queryText
  rw [List.flatMap_cons]
  simp [pairText]

theorem eq_nil_of_no_equals (absent : '=' ∉ queryText pairs) :
    pairs = [] := by
  cases pairs with
  | nil => rfl
  | cons pair rest =>
    rw [queryText_cons] at absent
    simp at absent

theorem isSigningParameter_equals {name : Text} (present : '=' ∈ name) :
    isSigningParameter name = false := by
  unfold isSigningParameter
  rw [List.contains_eq_mem, decide_eq_false_iff_not]
  intro signing
  have lower : '=' ∈ Text.toAsciiLowercase name := List.mem_map.mpr ⟨'=', present, by decide⟩
  have none : ∀ parameter ∈ signingParameters, '=' ∉ parameter := by decide
  exact none _ signing lower

theorem single_reading {name value : Text} {rest : List (Text × Text)} (plain : '=' ∉ value)
    (sameName : name = pair.1) (sameValue : pair.2 ++ queryText rest = value) :
    pair :: rest = [(name, value)] := by
  rw [← sameValue, List.mem_append, not_or] at plain
  have last := eq_nil_of_no_equals plain.2
  subst last
  change pair.2 ++ [] = value at sameValue
  rw [List.append_nil] at sameValue
  rw [sameName, ← sameValue]

/-- A query with one reading is cut in one way. -/
theorem queryText_unique {other : List (Text × Text)} (one : OneReading pairs)
    (naming : ∀ pair ∈ other, isSigningParameter pair.1 = false)
    (h : queryText other = queryText pairs) : other = pairs := by
  match pairs, one with
  | [], _ =>
    apply eq_nil_of_no_equals
    rw [h]
    exact List.not_mem_nil
  | [(name, value)], ⟨plain, fronts⟩ =>
    cases other with
    | nil => cases h
    | cons pair rest =>
      rw [queryText_cons, queryText_cons] at h
      have text := (List.cons.inj h).2
      change _ = name ++ '=' :: (value ++ []) at text
      rw [List.append_nil] at text
      -- the first name read is a front of the name, the name, or the name and more
      obtain ⟨more, longer, later⟩ | ⟨more, shorter, later⟩ := List.append_eq_append_iff.mp text
      · cases more with
        | nil =>
          rw [List.append_nil] at longer
          exact single_reading plain longer (List.cons.inj later).2
        | cons c more =>
          have equals := (List.cons.inj later).1
          have signing := fronts pair.1.length (by rw [longer]; simp) (by rw [longer, ← equals]; simp)
          rw [longer, List.take_left, naming pair List.mem_cons_self] at signing
          cases signing
      · cases more with
        | nil =>
          rw [List.append_nil] at shorter
          exact single_reading plain shorter.symm (List.cons.inj later).2.symm
        | cons c more =>
          have within := (List.cons.inj later).2
          rw [within] at plain
          simp at plain

/-- A query without one reading can be cut into one pair that it is not. -/
theorem exists_other_reading (naming : ∀ pair ∈ pairs, isSigningParameter pair.1 = false)
    (more : ¬ OneReading pairs) :
    ∃ pair, isSigningParameter pair.1 = false ∧ [pair] ≠ pairs ∧ queryText [pair] = queryText pairs := by
  match pairs, more with
  | [], more => exact absurd trivial more
  | [(name, value)], more =>
    by_cases plain : '=' ∈ value
    · obtain ⟨front, rest, rfl⟩ := List.append_of_mem plain
      refine ⟨(name ++ '=' :: front, rest), ?_, ?_, ?_⟩
      · exact isSigningParameter_equals (by simp)
      · intro same
        have names := congrArg List.length (congrArg Prod.fst (List.cons.inj same).1)
        simp at names
      · simp [queryText_cons]
    · have cut : ∃ i < name.length, name[i]? = some '=' ∧ isSigningParameter (name.take i) = false := by
        by_contra none
        apply more
        refine ⟨plain, fun i inside equals => ?_⟩
        by_contra other
        exact none ⟨i, inside, equals, by simpa using other⟩
      obtain ⟨i, inside, equals, unsigned⟩ := cut
      have whole : name = name.take i ++ '=' :: name.drop (i + 1) := by
        rw [List.getElem?_eq_getElem inside, Option.some.injEq] at equals
        rw [← equals, List.getElem_cons_drop, List.take_append_drop]
      refine ⟨(name.take i, name.drop (i + 1) ++ '=' :: value), unsigned, ?_, ?_⟩
      · intro same
        have names := congrArg List.length (congrArg Prod.fst (List.cons.inj same).1)
        simp only [List.length_take] at names
        omega
      · rw [queryText_cons, queryText_cons]
        congr 1
        conv_rhs => rw [whole]
        simp
  | first :: second :: rest, _ =>
    refine ⟨(first.1, first.2 ++ queryText (second :: rest)), naming first List.mem_cons_self, ?_, ?_⟩
    · intro same
      cases (List.cons.inj same).2
    · rw [queryText_cons, queryText_cons first]
      simp [queryText]

/-! ## Plans -/

/-- Plans of the same resources: position by position the same track, interval and URL,
signing parameters and the order of a query aside. -/
structure SamePlan (identity : UrlIdentity) (a b : TrackPlan) (manifest source : Url) : Prop where
  kind : a.kind = b.kind
  manifest : SameResource identity manifest source
  resources : List.Forall₂ (fun r s => r.track = s.track ∧ r.byteInterval = s.byteInterval ∧
    SameResource identity r.url s.url) a.resources b.resources

/-- A plan over the web, in the source's numbers. -/
structure WebPlan (identity : UrlIdentity) (plan : TrackPlan) (manifest : Url) : Prop where
  manifest : Addressed identity manifest
  resources : ∀ resource ∈ plan.resources, Addressed identity resource.url ∧ resource.Fits
  count : plan.resources.length < 2 ^ 64

/-- No query of the plan can be cut in another way. -/
def ReadOneWay (identity : UrlIdentity) (plan : TrackPlan) (manifest : Url) : Prop :=
  OneReading (namingPairs identity manifest) ∧
    ∀ resource ∈ plan.resources, OneReading (namingPairs identity resource.url)

theorem naming_of_mem_namingPairs (member : pair ∈ namingPairs identity a) :
    isSigningParameter pair.1 = false := by
  have kept := (List.mem_filter.mp member).2
  simpa using kept

theorem sortedPairs_of_oneReading (one : OneReading pairs) :
    sortedPairs pairs = pairs := by
  match pairs, one with
  | [], _ => rfl
  | [pair], _ => rfl

/-- A URL that is read in one way is told from every other. -/
theorem sameResource_of_text (documented : identity.Documented) (addressed : Addressed identity a)
    (addressed' : Addressed identity b) (one : OneReading (namingPairs identity a))
    (h : urlText identity a = urlText identity b) : SameResource identity a b := by
  obtain ⟨base, queries⟩ := urlText_unique documented addressed.web addressed'.web h
  rw [sortedPairs_of_oneReading one] at queries
  have naming : ∀ pair ∈ sortedPairs (namingPairs identity b), isSigningParameter pair.1 = false :=
    fun pair member => naming_of_mem_namingPairs (mem_sortedPairs.mp member)
  have same := queryText_unique one naming queries.symm
  refine ⟨base.scheme, base.host, base.port, base.path, ?_⟩
  rw [← same]
  exact List.perm_insertionSort _ _

theorem byteInterval_of_range {r s : StreamResource}
    (h : r.byteRange.map rangeStart = s.byteRange.map rangeStart) :
    r.byteInterval = s.byteInterval := by
  unfold StreamResource.byteInterval
  cases ranged : r.byteRange with
  | none =>
    rw [ranged] at h
    rw [Option.map_eq_none_iff.mp h.symm]
  | some range =>
    rw [ranged] at h
    obtain ⟨range', ranged', same⟩ := Option.map_eq_some_iff.mp h.symm
    rw [ranged']
    obtain ⟨length, offset⟩ := Prod.mk.inj same
    simp only [Option.map_some, length, offset]

/-- Resource by resource the bytes are read in one way. -/
theorem resources_of_bytes (documented : identity.Documented) {resources others : List StreamResource}
    (web : ∀ r ∈ resources, Addressed identity r.url ∧ r.Fits)
    (web' : ∀ r ∈ others, Addressed identity r.url ∧ r.Fits)
    (one : ∀ r ∈ resources, OneReading (namingPairs identity r.url))
    (count : resources.length = others.length)
    (h : resources.flatMap (resourceBytes identity) = others.flatMap (resourceBytes identity)) :
    List.Forall₂ (fun r s => r.track = s.track ∧ r.byteInterval = s.byteInterval ∧
      SameResource identity r.url s.url) resources others := by
  induction resources generalizing others with
  | nil =>
    cases others with
    | nil => exact List.Forall₂.nil
    | cons other rest => cases count
  | cons resource rest ih =>
    cases others with
    | nil => cases count
    | cons other rest' =>
      obtain ⟨addressed, fits⟩ := web resource List.mem_cons_self
      obtain ⟨addressed', fits'⟩ := web' other List.mem_cons_self
      rw [List.flatMap_cons, List.flatMap_cons] at h
      simp only [resourceBytes, List.cons_append, List.append_assoc, List.cons.injEq, true_and] at h
      obtain ⟨tracks, h⟩ := h
      obtain ⟨text, h⟩ := utf8_unique (urlText_plain documented addressed)
        (urlText_plain documented addressed') (rangeBytes_head _ _) (rangeBytes_head _ _) h
      obtain ⟨range, h⟩ := rangeBytes_unique fits.range fits'.range h
      have track := congrArg UInt8.toNat tracks
      rw [UInt8.toNat_ofNat', UInt8.toNat_ofNat', Nat.mod_eq_of_lt fits.track,
        Nat.mod_eq_of_lt fits'.track] at track
      constructor
      · exact ⟨track, byteInterval_of_range range, sameResource_of_text documented addressed
          addressed' (one resource List.mem_cons_self) text⟩
      · exact ih (fun r member => web r (List.mem_cons_of_mem _ member))
          (fun r member => web' r (List.mem_cons_of_mem _ member))
          (fun r member => one r (List.mem_cons_of_mem _ member)) (Nat.succ.inj count) h

theorem samePlan_of_fed (documented : identity.Documented) {plan other : TrackPlan}
    {manifest source : Url} (web : WebPlan identity plan manifest)
    (web' : WebPlan identity other source) (one : ReadOneWay identity plan manifest)
    (h : fedBytes identity plan manifest = fedBytes identity other source) :
    SamePlan identity plan other manifest source := by
  have kinds : ∀ kind : StreamKind, (0 : UInt8) ∉ utf8 kind.tag := by
    intro kind member
    have plain : Plain kind.tag := by cases kind <;> decide
    have above := of_decide_eq_true (utf8_plain plain 0 member)
    exact absurd above (by decide)
  obtain ⟨kind, h⟩ := cut_unique h (kinds _) (kinds _)
  obtain ⟨text, h⟩ := utf8_unique (urlText_plain documented web.manifest)
    (urlText_plain documented web'.manifest) (by simp) (by simp) h
  obtain ⟨counts, bytes⟩ := List.append_inj (List.cons.inj h).2 (by rw [le_length, le_length])
  have count : plan.resources.length = other.resources.length := le_inj web.count web'.count counts
  constructor
  · have tags := toUTF8_toList_injective kind
    revert tags
    cases plan.kind <;> cases other.kind <;> simp [StreamKind.tag]
  · exact sameResource_of_text documented web.manifest web'.manifest one.1 text
  · exact resources_of_bytes documented web.resources web'.resources one.2 count bytes

theorem oneReading_of_sorted (one : OneReading (sortedPairs pairs)) :
    OneReading pairs := by
  have perm : (sortedPairs pairs).Perm pairs := List.perm_insertionSort _ _
  generalize sortedPairs pairs = sorted at one perm
  match sorted, one with
  | [], _ =>
    rw [List.nil_perm.mp perm]
    trivial
  | [pair], one =>
    rw [List.singleton_perm.mp perm] at one
    exact one

/-- A URL with two readings is written like another one. -/
theorem exists_same_text (documented : identity.Documented) (addressed : Addressed identity a)
    (more : ¬ OneReading (namingPairs identity a)) :
    ∃ b, Addressed identity b ∧ urlText identity b = urlText identity a ∧
      ¬ SameResource identity a b := by
  have naming : ∀ pair ∈ sortedPairs (namingPairs identity a), isSigningParameter pair.1 = false :=
    fun pair member => naming_of_mem_namingPairs (mem_sortedPairs.mp member)
  obtain ⟨pair, named, other, text⟩ :=
    exists_other_reading naming fun one => more (oneReading_of_sorted one)
  obtain ⟨b, query, scheme, host, port, path⟩ := documented.rewrite a [pair] addressed.web
  have pairs : namingPairs identity b = [pair] := by
    unfold namingPairs
    rw [query]
    simp [named]
  have plain : Plain (queryText [pair]) := by
    rw [text]
    exact queryText_plain fun pair member => addressed.plain pair (mem_sortedPairs.mp member)
  refine ⟨b, ⟨?_, ?_⟩, ?_, ?_⟩
  · unfold IsWeb
    rw [scheme]
    exact addressed.web
  · intro found member
    rw [pairs, List.mem_singleton] at member
    subst member
    rw [queryText_cons] at plain
    constructor
    · intro c present
      exact plain c (by simp [present])
    · intro c present
      exact plain c (by simp [present])
  · unfold urlText
    rw [scheme, host, port, path, pairs, ← text]
    rfl
  · intro same
    have perm := same.query
    rw [pairs] at perm
    apply other
    rw [List.perm_singleton.mp perm]
    rfl

theorem WebPlan.replaced {plan : TrackPlan} {manifest : Url} (web : WebPlan identity plan manifest)
    {front rest : List StreamResource} {resource : StreamResource}
    (split : plan.resources = front ++ resource :: rest) (addressed : Addressed identity b) :
    WebPlan identity { plan with resources := front ++ { resource with url := b } :: rest }
      manifest := by
  have member : ∀ r, r ∈ front ∨ r = resource ∨ r ∈ rest → r ∈ plan.resources := by
    intro r found
    rw [split, List.mem_append, List.mem_cons]
    exact found
  refine ⟨web.manifest, fun r found => ?_, ?_⟩
  · obtain found | found | found : r ∈ front ∨ r = { resource with url := b } ∨ r ∈ rest := by
      simpa using found
    · exact web.resources r (member r (Or.inl found))
    · rw [found]
      obtain ⟨track, range⟩ := (web.resources resource (member resource (Or.inr (Or.inl rfl)))).2
      exact ⟨addressed, track, range⟩
    · exact web.resources r (member r (Or.inr (Or.inr found)))
  · have count := web.count
    rw [split] at count
    simpa using count

end

/-- Among plans over the web, the bytes fed for a plan are fed for no other one exactly
when no query of the plan can be cut in another way. -/
theorem told_apart_iff (identity : UrlIdentity) (documented : identity.Documented)
    (plan : TrackPlan) (manifest : Url) (web : WebPlan identity plan manifest) :
    (∀ other source, WebPlan identity other source →
      fedBytes identity plan manifest = fedBytes identity other source →
      SamePlan identity plan other manifest source) ↔ ReadOneWay identity plan manifest := by
  constructor
  · intro apart
    constructor
    · by_contra more
      obtain ⟨source, addressed, text, different⟩ := exists_same_text documented web.manifest more
      have fed : fedBytes identity plan manifest = fedBytes identity plan source := by
        unfold fedBytes
        rw [text]
      exact different (apart plan source ⟨addressed, web.resources, web.count⟩ fed).manifest
    · intro resource member
      by_contra more
      obtain ⟨url, addressed, text, different⟩ :=
        exists_same_text documented (web.resources resource member).1 more
      obtain ⟨front, rest, split⟩ := List.append_of_mem member
      have fed : fedBytes identity plan manifest = fedBytes identity
          { plan with resources := front ++ { resource with url := url } :: rest } manifest := by
        unfold fedBytes
        rw [split]
        simp [resourceBytes, text]
      have web' := web.replaced split addressed
      have same := (apart _ manifest web' fed).resources
      change List.Forall₂ _ plan.resources (front ++ { resource with url := url } :: rest) at same
      rw [split] at same
      have place : (front ++ { resource with url := url } :: rest)[front.length]? =
          some { resource with url := url } := by simp
      obtain ⟨first, found, -, -, alike⟩ := forall₂_getElem? same place
      rw [List.getElem?_append_right (Nat.le_refl _), Nat.sub_self] at found
      cases found
      exact different alike
  · intro one other source web' fed
    exact samePlan_of_fed documented web web' one fed

/-! ## Two resources with one fingerprint -/

/-- Pairs of a query without escapes, at its `&` and the first `=` of each. -/
def parsePairs (query : Text) : List (Text × Text) :=
  (Text.splitAll '&' query).filterMap fun part =>
    if part = [] then none else some ((Text.splitOnce '=' part).getD (part, []))

/-- A text for any pairs, one character after a mark. -/
def escapePairs (pairs : List (Text × Text)) : Text :=
  pairs.flatMap fun pair =>
    pair.1.flatMap (fun c => ['n', c]) ++ pair.2.flatMap (fun c => ['v', c]) ++ ['p']

def unescapePairs : Text → List (Text × Text)
  | 'n' :: c :: rest => (unescapePairs rest).modifyHead fun pair => (c :: pair.1, pair.2)
  | 'v' :: c :: rest => (unescapePairs rest).modifyHead fun pair => (pair.1, c :: pair.2)
  | 'p' :: rest => ([], []) :: unescapePairs rest
  | _ => []

def pageStart : Text := 'h' :: "ttps://host/v?".toList

/-- Queries of one page: written as such, or any pairs escaped. -/
def pageIdentity : UrlIdentity where
  scheme _ := "https".toList
  hostStr _ := some "host".toList
  port _ := none
  path _ := "/v".toList
  queryPairs url := match Text.stripPrefix pageStart url.serialization with
    | some query => parsePairs query
    | none => unescapePairs url.serialization

theorem unescapePairs_escapePairs (pairs : List (Text × Text)) :
    unescapePairs (escapePairs pairs) = pairs := by
  have values : ∀ (value : Text) (rest : Text) (last : List (Text × Text)) (name written : Text),
      unescapePairs rest = (name, written) :: last →
      unescapePairs (value.flatMap (fun c => ['v', c]) ++ rest) = (name, value ++ written) :: last := by
    intro value rest last name written read
    induction value with
    | nil => exact read
    | cons c value ih =>
      change (unescapePairs (value.flatMap (fun c => ['v', c]) ++ rest)).modifyHead _ = _
      rw [ih]
      rfl
  have names : ∀ (name : Text) (rest : Text) (last : List (Text × Text)) (written value : Text),
      unescapePairs rest = (written, value) :: last →
      unescapePairs (name.flatMap (fun c => ['n', c]) ++ rest) = (name ++ written, value) :: last := by
    intro name rest last written value read
    induction name with
    | nil => exact read
    | cons c name ih =>
      change (unescapePairs (name.flatMap (fun c => ['n', c]) ++ rest)).modifyHead _ = _
      rw [ih]
      rfl
  induction pairs with
  | nil => rfl
  | cons pair rest ih =>
    have ended : unescapePairs ('p' :: escapePairs rest) = ([], []) :: rest := by
      change ([], []) :: unescapePairs (escapePairs rest) = _
      rw [ih]
    have read := names pair.1 _ _ _ _ (values pair.2 _ _ _ _ ended)
    rw [List.append_nil, List.append_nil] at read
    unfold escapePairs
    rw [List.flatMap_cons, List.append_assoc, List.append_assoc]
    exact read

theorem escapePairs_head (pairs : List (Text × Text)) : (escapePairs pairs).head? ≠ some 'h' := by
  cases pairs with
  | nil => decide
  | cons pair rest =>
    obtain ⟨name, value⟩ := pair
    cases name with
    | cons c name => simp [escapePairs]
    | nil =>
      cases value with
      | cons c value => simp [escapePairs]
      | nil => simp [escapePairs]

theorem pageIdentity_documented : pageIdentity.Documented := by
  constructor
  · intro url _
    refine ⟨"host".toList, rfl, ?_, by decide, Or.inl (by decide)⟩
    decide
  · intro url _
    refine ⟨['v'], rfl, ?_, by decide⟩
    decide
  · intro url pairs _
    refine ⟨⟨escapePairs pairs⟩, ?_, rfl, rfl, rfl, rfl⟩
    have unwritten : Text.stripPrefix pageStart (escapePairs pairs) = none := by
      have head := escapePairs_head pairs
      unfold Text.stripPrefix
      rw [if_neg]
      intro front
      obtain ⟨more, same⟩ := List.isPrefixOf_iff_prefix.mp front
      rw [← same] at head
      exact head rfl
    change (match Text.stripPrefix pageStart (escapePairs pairs) with
      | some query => parsePairs query
      | none => unescapePairs (escapePairs pairs)) = pairs
    rw [unwritten]
    exact unescapePairs_escapePairs pairs

def pageUrl (query : String) : Url := ⟨pageStart ++ query.toList⟩

def pagePlan (query : String) : TrackPlan where
  kind := .hls
  resources := [⟨pageUrl query, none, 0⟩]
  durationMillis := none
  label := none
  bandwidth := none
  declaredTotalBytes := none
  containerHint := none

/-- Two pairs and one pair with the same text: the plans are not the same, and have one
fingerprint. -/
theorem two_queries_one_fingerprint :
    fedBytes pageIdentity (pagePlan "a=1&b=2") (pageUrl "") =
      fedBytes pageIdentity (pagePlan "a=1?b=2") (pageUrl "") ∧
    ¬ SamePlan pageIdentity (pagePlan "a=1&b=2") (pagePlan "a=1?b=2") (pageUrl "") (pageUrl "") := by
  constructor
  · have text : urlText pageIdentity (pageUrl "a=1&b=2") = urlText pageIdentity (pageUrl "a=1?b=2") := by
      decide +kernel
    have bytes : resourceBytes pageIdentity ⟨pageUrl "a=1&b=2", none, 0⟩ =
        resourceBytes pageIdentity ⟨pageUrl "a=1?b=2", none, 0⟩ := by
      unfold resourceBytes
      rw [text]
    have resources : (pagePlan "a=1&b=2").resources.flatMap (resourceBytes pageIdentity) =
        (pagePlan "a=1?b=2").resources.flatMap (resourceBytes pageIdentity) :=
      congrArg (· ++ []) bytes
    unfold fedBytes
    rw [resources]
    unfold pagePlan
    simp only [List.length_cons]
  · intro same
    cases same.resources with
    | cons first _ =>
      have count := first.2.2.query.length_eq
      revert count
      decide +kernel

/-- A page named by one pair is told from every other. -/
theorem one_pair_told_apart :
    ¬ ∃ other source, WebPlan pageIdentity other source ∧
      fedBytes pageIdentity (pagePlan "a=1") (pageUrl "") = fedBytes pageIdentity other source ∧
      ¬ SamePlan pageIdentity (pagePlan "a=1") other (pageUrl "") source := by
  have named : namingPairs pageIdentity (pageUrl "a=1") = [("a".toList, "1".toList)] := by
    decide +kernel
  have unnamed : namingPairs pageIdentity (pageUrl "") = [] := by decide +kernel
  have web : WebPlan pageIdentity (pagePlan "a=1") (pageUrl "") := by
    refine ⟨⟨Or.inr rfl, ?_⟩, ?_, by decide⟩
    · rw [unnamed]
      intro pair member
      cases member
    · intro resource member
      rw [List.mem_singleton.mp member]
      refine ⟨⟨Or.inr rfl, ?_⟩, by decide, by simp⟩
      dsimp only
      rw [named]
      decide
  intro ⟨other, source, web', fed, different⟩
  refine different ((told_apart_iff pageIdentity pageIdentity_documented (pagePlan "a=1") (pageUrl "")
    web).mpr ?_ other source web' fed)
  constructor
  · rw [unnamed]
    trivial
  · intro resource member
    rw [List.mem_singleton.mp member]
    dsimp only
    rw [named]
    refine ⟨by decide, by decide⟩

/-! ## Another signature -/

/-- One change that a new signature may make to a query, or that its order may see. -/
inductive QueryEdit : List (Text × Text) → List (Text × Text) → Prop
  | insert (front rest : List (Text × Text)) {pair : Text × Text}
      (signing : isSigningParameter pair.1 = true) :
      QueryEdit (front ++ rest) (front ++ pair :: rest)
  | remove (front rest : List (Text × Text)) {pair : Text × Text}
      (signing : isSigningParameter pair.1 = true) :
      QueryEdit (front ++ pair :: rest) (front ++ rest)
  | revalue (front rest : List (Text × Text)) {name : Text} (value value' : Text)
      (signing : isSigningParameter name = true) :
      QueryEdit (front ++ (name, value) :: rest) (front ++ (name, value') :: rest)
  | swap (front rest : List (Text × Text)) (pair pair' : Text × Text) :
      QueryEdit (front ++ pair :: pair' :: rest) (front ++ pair' :: pair :: rest)

/-- A URL signed anew: only its query differs, by any number of such changes. -/
structure Resigned (identity : UrlIdentity) (a b : Url) : Prop where
  scheme : identity.scheme a = identity.scheme b
  host : identity.hostStr a = identity.hostStr b
  port : identity.port a = identity.port b
  path : identity.path a = identity.path b
  query : Relation.ReflTransGen QueryEdit (identity.queryPairs a) (identity.queryPairs b)

/-- A plan with URLs signed anew. -/
structure ResignedPlan (identity : UrlIdentity) (a b : TrackPlan) : Prop where
  kind : a.kind = b.kind
  resources : List.Forall₂ (fun r s => r.track = s.track ∧ r.byteRange = s.byteRange ∧
    Resigned identity r.url s.url) a.resources b.resources

/-- One change leaves the pairs that name the resource, up to their order. -/
theorem QueryEdit.naming_perm {others : List (Text × Text)} (edit : QueryEdit pairs others) :
    (pairs.filter fun pair => !isSigningParameter pair.1).Perm
      (others.filter fun pair => !isSigningParameter pair.1) := by
  cases edit with
  | insert front rest signing => simp [signing]
  | remove front rest signing => simp [signing]
  | revalue front rest value value' signing => simp [signing]
  | swap front rest pair pair' =>
    exact ((List.Perm.swap pair' pair rest).append_left front).filter _

theorem naming_perm_of_edits {others : List (Text × Text)}
    (edits : Relation.ReflTransGen QueryEdit pairs others) :
    (pairs.filter fun pair => !isSigningParameter pair.1).Perm
      (others.filter fun pair => !isSigningParameter pair.1) := by
  induction edits with
  | refl => exact List.Perm.refl _
  | tail _ edit ih => exact ih.trans edit.naming_perm

theorem Resigned.same (resigned : Resigned identity a b) : SameResource identity a b :=
  ⟨resigned.scheme, resigned.host, resigned.port, resigned.path,
    naming_perm_of_edits resigned.query⟩

theorem ResignedPlan.same {plan other : TrackPlan} (resigned : ResignedPlan identity plan other) :
    SamePresentation identity plan other := by
  refine ⟨resigned.kind, resigned.resources.imp ?_⟩
  intro r s alike
  exact ⟨alike.2.2.same, alike.2.1, alike.1⟩

/-- The fingerprint of a plan does not depend on how its URLs are signed, nor on the order
of their queries. -/
theorem fingerprint_of_resigned (identity : UrlIdentity) {plan other : TrackPlan}
    {manifest source : Url} (resigned : ResignedPlan identity plan other)
    (listed : Resigned identity manifest source) :
    PlanFingerprint.of identity plan manifest = PlanFingerprint.of identity other source := by
  rw [PlanFingerprint.of_eq_of_same resigned.same]
  unfold PlanFingerprint.of
  dsimp only
  rw [hashUrl_eq_of_same listed.same]

/-- A token with another value at another place, before a part with its number. -/
theorem fingerprint_of_resigned_page :
    PlanFingerprint.of pageIdentity (pagePlan "part=1&Token=a") (pageUrl "") =
      PlanFingerprint.of pageIdentity (pagePlan "Token=b&part=1&sig=c") (pageUrl "") := by
  apply fingerprint_of_resigned pageIdentity _ ⟨rfl, rfl, rfl, rfl, Relation.ReflTransGen.refl⟩
  refine ⟨rfl, List.Forall₂.cons ⟨rfl, rfl, rfl, rfl, rfl, rfl, ?_⟩ List.Forall₂.nil⟩
  have before : pageIdentity.queryPairs (pageUrl "part=1&Token=a") =
      [("part".toList, "1".toList), ("Token".toList, "a".toList)] := by decide +kernel
  have after : pageIdentity.queryPairs (pageUrl "Token=b&part=1&sig=c") =
      [("Token".toList, "b".toList), ("part".toList, "1".toList), ("sig".toList, "c".toList)] := by
    decide +kernel
  change Relation.ReflTransGen QueryEdit (pageIdentity.queryPairs (pageUrl "part=1&Token=a"))
    (pageIdentity.queryPairs (pageUrl "Token=b&part=1&sig=c"))
  rw [before, after]
  apply ((Relation.ReflTransGen.single (QueryEdit.swap [] [] _ _)).tail
    (QueryEdit.revalue [] _ _ "b".toList (by decide))).tail
  exact QueryEdit.insert [("Token".toList, "b".toList), ("part".toList, "1".toList)] []
    (by decide)

end Gunda.Stream
