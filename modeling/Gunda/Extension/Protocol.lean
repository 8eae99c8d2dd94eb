import Gunda.Extension.Speaking

/-!
# One protocol

When the daemon reads what the extension says as the message of the same kind with the same
fields, for every message of the extension's parts; and that the extension has a case for
every message of the daemon.
-/
namespace Gunda.Extension

open Gunda.Lib Gunda.Lib.Text
open Gunda.Capture (Json ClientMessage ServerMessage SerdeJson encodeServerMessage)
open Gunda.Capture.Json (Members)

variable {fields : List (String × Option JsValue)} {said : Said}

/-- The reader of JSON gets from a text what was written in it; where nothing is nested, it
gets it if the text denotes a value. -/
structure Reads (json : SerdeJson) (value : JsValue) : Prop where
  denoted : ∀ found, json.fromStr value.stringify = some found → value.read = some found
  flat : ∀ members, value = .object members → (∀ member ∈ members, member.2.Scalar) →
    json.fromStr value.stringify = value.read

/-- The members of both are the same, where a missing member is null. -/
def SameFields (sent got : Members) : Prop :=
  ∀ name, (sent.get name).getD .null = (got.get name).getD .null

/-- The daemon reads a message as the one of its kind with the same fields. -/
def Understood (json : SerdeJson) (said : Said) : Prop :=
  ∃ client members, json.parseClientMessage said.message = .ok client ∧
    said.value.read = some (.object members) ∧ SameFields members client.members

/-- Every surrogate is paired. -/
def Paired (string : JsString) : Prop := (JsString.text string).isSome = true

def Textual (value : Option JsValue) : Prop := ∃ string, value = some (.string string) ∧ Paired string

def Numeric (value : Option JsValue) : Prop := ∃ number, value = some (.number (.unsigned number))

/-- Missing, null or as it has to be. -/
def Perhaps (required : Option JsValue → Prop) (value : Option JsValue) : Prop :=
  value = none ∨ value = some .null ∨ required value

namespace Said

/-- No source report, and values of the types the daemon reads. -/
def Plain : Said → Prop
  | .hello token => Paired token
  | .candidate url contentType sizeBytes pageUrl pageTitle =>
      Paired url ∧ Perhaps Textual (some contentType) ∧ Perhaps Numeric (some sizeBytes) ∧
        Paired pageUrl ∧ Perhaps Textual (some pageTitle)
  | .source _ _ => False
  | .listFormats pageUrl => Paired pageUrl
  | .downloadPage pageUrl captureId format directory filename =>
      Textual pageUrl ∧ Perhaps Numeric captureId ∧ Perhaps Textual format ∧
        Perhaps Textual directory ∧ Perhaps Textual filename
  | .downloadBrowser url contentType sizeBytes pageUrl pageTitle filename directory =>
      Paired url ∧ Perhaps Textual contentType ∧ Perhaps Numeric sizeBytes ∧ Paired pageUrl ∧
        Perhaps Textual pageTitle ∧ Paired filename ∧ Paired directory
  | .downloadStatus id => Numeric id

def Fits (said : Said) : Prop := (toUtf8 said.message).length ≤ Capture.MAX_MESSAGE_BYTES

end Said

/-! ## Members that were read -/

/-- The members that the fields of a message are read as. -/
def fieldsRead : List (String × Option JsValue) → Option Members
  | [] => some []
  | (_, none) :: rest => fieldsRead rest
  | (name, some value) :: rest => do
      let value ← value.read
      let rest ← fieldsRead rest
      pure ((name.toList, value) :: rest)

theorem readMembers_fields (ascii : ∀ field ∈ fields, ∀ c ∈ field.1.toList, c.toNat < 0x80) :
    JsValue.readMembers (fields.filterMap fun field =>
      field.2.map fun value => (JsString.ofText field.1.toList, value)) = fieldsRead fields := by
  induction fields with
  | nil => rfl
  | cons field rest ih =>
    obtain ⟨name, value⟩ := field
    have later := ih fun other member => ascii other (List.mem_cons_of_mem _ member)
    have named := JsString.text_ofText (ascii (name, value) List.mem_cons_self)
    cases value with
    | none => exact later
    | some value =>
      change JsValue.readMembers ((.ofText name.toList, value) :: rest.filterMap _) = _
      rw [JsValue.readMembers, later, named]
      rfl

/-- What a reader finds where a value was written. -/
def ReadAs (value : Option JsValue) (found : Option Json) : Prop :=
  match value with
  | none => found = none
  | some value => ∃ json, value.read = some json ∧ found = some json

variable {members : Members}

theorem get_of_ne {name other : Text} {value : Json} (different : other ≠ name) :
    Members.get ((other, value) :: members) name = members.get name := by
  unfold Members.get
  rw [List.find?_cons_of_neg (by simpa using different)]

theorem get_self (name : Text) (value : Json) (members : Members) :
    Members.get ((name, value) :: members) name = some value := by
  unfold Members.get
  rw [List.find?_cons_of_pos (by simp)]
  rfl

/-- Only the names of fields have a member. -/
theorem name_of_read (read : fieldsRead fields = some members) {name : Text}
    (found : members.get name ≠ none) :
    name ∈ fields.map (·.1.toList) := by
  induction fields generalizing members with
  | nil =>
    cases read
    exact absurd rfl found
  | cons field rest ih =>
    obtain ⟨other, value⟩ := field
    cases value with
    | none => exact List.mem_cons_of_mem _ (ih read found)
    | some value =>
      obtain ⟨json, _, read⟩ := Option.bind_eq_some_iff.mp read
      obtain ⟨later, rest_, same⟩ := Option.bind_eq_some_iff.mp read
      cases same
      by_cases same : other.toList = name
      · rw [← same]
        exact List.mem_cons_self
      · rw [get_of_ne same] at found
        exact List.mem_cons_of_mem _ (ih rest_ found)

variable {value : Option JsValue}

theorem readAs_of_read {fields : List (String × Option JsValue)}
    (distinct : (fields.map (·.1.toList)).Nodup) (read : fieldsRead fields = some members)
    {name : String} (member : (name, value) ∈ fields) :
    ReadAs value (members.get name.toList) := by
  induction fields generalizing members with
  | nil => cases member
  | cons field rest ih =>
    obtain ⟨other, written⟩ := field
    rw [List.map_cons, List.nodup_cons] at distinct
    obtain ⟨fresh, distinct⟩ := distinct
    cases List.mem_cons.mp member with
    | inl same =>
      cases same
      cases value with
      | none =>
        have read : fieldsRead rest = some members := read
        change members.get name.toList = none
        by_contra found
        exact fresh (name_of_read read found)
      | some value =>
        obtain ⟨json, first, read⟩ := Option.bind_eq_some_iff.mp read
        obtain ⟨later, _, same⟩ := Option.bind_eq_some_iff.mp read
        cases same
        exact ⟨json, first, get_self _ _ _⟩
    | inr inside =>
      cases written with
      | none => exact ih distinct read inside
      | some written =>
        obtain ⟨json, _, read⟩ := Option.bind_eq_some_iff.mp read
        obtain ⟨later, rest_, same⟩ := Option.bind_eq_some_iff.mp read
        cases same
        have different : other.toList ≠ name.toList := by
          intro same
          exact fresh (same ▸ List.mem_map_of_mem inside)
        rw [get_of_ne different]
        exact ih distinct rest_ inside

theorem sameFields_of_entries {sent got : Members}
    (each : ∀ entry ∈ got, (sent.get entry.1).getD .null = entry.2)
    (only : ∀ name, sent.get name ≠ none → name ∈ got.map (·.1)) : SameFields sent got := by
  intro name
  unfold Members.get at *
  cases found : got.find? (·.1 = name) with
  | none =>
    have absent : name ∉ got.map (·.1) := by
      intro member
      obtain ⟨entry, inside, same⟩ := List.mem_map.mp member
      have other := List.find?_eq_none.mp found entry inside
      exact other (decide_eq_true same)
    have nothing : Option.map (·.2) (sent.find? (·.1 = name)) = none := by
      by_contra present
      exact absent (only name present)
    rw [nothing]
    rfl
  | some entry =>
    have named : entry.1 = name := by simpa using List.find?_some found
    have inside := List.mem_of_find?_eq_some found
    have same := each entry inside
    rw [named] at same
    exact same

/-! ## Fields that are read -/

/-- A field is read exactly where it is good, and what is read keeps what was written. -/
structure Slot {α : Type} (read : Option α) (good : Prop) (kept : α → Prop) : Prop where
  found : ∀ result, read = some result → good ∧ kept result
  present : good → ∃ result, read = some result

section

variable {α β : Type} {read : Option α} {good plain : Prop} {kept : α → Prop} {made : β → Prop}
variable (slot : Slot read good kept)
include slot

theorem Slot.congr {other : Prop} (same : good ↔ other) : Slot read other kept :=
  ⟨fun result taken => (slot.found result taken).imp same.mp id, fun h => slot.present (same.mpr h)⟩

theorem Slot.map {f : α → β} (each : ∀ result, kept result → made (f result)) :
    Slot (read.map f) good made where
  found result taken := by
    obtain ⟨one, taken, same⟩ := Option.map_eq_some_iff.mp taken
    rw [← same]
    exact (slot.found one taken).imp id (each one)
  present h := by
    obtain ⟨one, taken⟩ := slot.present h
    exact ⟨f one, by rw [taken]; rfl⟩

/-- One field is read, and the others after it. -/
theorem Slot.then {rest : α → Option β}
    (after : ∀ result, kept result → ((∃ one, rest result = some one ∧ made one) ↔ plain)) :
    (∃ one, (read >>= rest) = some one ∧ made one) ↔ good ∧ plain := by
  constructor
  · rintro ⟨one, reads, held⟩
    obtain ⟨result, taken, reads⟩ := Option.bind_eq_some_iff.mp reads
    obtain ⟨here, same⟩ := slot.found result taken
    exact ⟨here, (after result same).mp ⟨one, reads, held⟩⟩
  · rintro ⟨here, later⟩
    obtain ⟨result, taken⟩ := slot.present here
    obtain ⟨one, reads, held⟩ := (after result (slot.found result taken).2).mpr later
    exact ⟨one, by rw [taken]; exact reads, held⟩

theorem Slot.last {build : α → β} (after : ∀ result, kept result → made (build result)) :
    (∃ one, (read >>= fun result => pure (build result)) = some one ∧ made one) ↔ good := by
  refine (slot.then fun result same => ?_).trans (and_iff_left trivial)
  exact iff_of_true ⟨build result, rfl, after result same⟩ trivial

end

section

open Capture (requiredField optionalField asString)

variable {members : Members} {name : String} {value : Option JsValue}
variable {units : JsString} {json : Json} {written : JsValue} {text : Text} {α : Type}

theorem read_string (read : (JsValue.string units).read = some json) :
    ∃ text, JsString.text units = some text ∧ json = .string text := by
  obtain ⟨text, paired, same⟩ := Option.map_eq_some_iff.mp read
  exact ⟨text, paired, same.symm⟩

/-- What was written where this was read. -/
def WrittenAs (written : JsValue) : Json → Prop
  | .null => written = .null
  | .number value => written = .number value
  | .string text => ∃ units, written = .string units ∧ JsString.text units = some text
  | _ => True

section

variable (read : written.read = some json)
include read

theorem writtenAs_of_read :
    WrittenAs written json := by
  cases written with
  | string units =>
    obtain ⟨text, paired, same⟩ := read_string read
    rw [same]
    exact ⟨units, rfl, paired⟩
  | array items =>
    obtain ⟨_, _, same⟩ := Option.map_eq_some_iff.mp read
    rw [← same]
    trivial
  | object items =>
    obtain ⟨_, _, same⟩ := Option.map_eq_some_iff.mp read
    rw [← same]
    trivial
  | bool value =>
    cases read
    trivial
  | _ =>
    cases read
    rfl

theorem slot_asStr :
    Slot json.asStr (Textual (some written)) fun text => json = .string text where
  found text taken := by
    have string : json = .string text := by
      cases json <;> cases taken
      rfl
    rw [string] at read
    obtain ⟨units, same, paired⟩ := writtenAs_of_read read
    exact ⟨⟨units, congrArg some same, Option.isSome_iff_exists.mpr ⟨text, paired⟩⟩, string⟩
  present textual := by
    obtain ⟨units, same, _⟩ := textual
    cases same
    obtain ⟨text, _, string⟩ := read_string read
    exact ⟨text, by rw [string]; rfl⟩

theorem slot_asString :
    Slot (asString json) (Textual (some written)) fun text => json = .string text.toList :=
  (slot_asStr read).map fun text same => by rw [same, String.toList_ofList]

theorem slot_asU64 : Slot json.asU64 (Numeric (some written))
    fun number => json = ClientMessage.members.natural number where
  found number taken := by
    unfold Json.asU64 at taken
    split at taken
    · rename_i unsigned
      cases taken
      rw [show written = .number (.unsigned unsigned) from writtenAs_of_read read,
        ClientMessage.members.natural, UInt64.ofNat_toNat]
      exact ⟨⟨unsigned, rfl⟩, rfl⟩
    · cases taken
  present numeric := by
    obtain ⟨number, same⟩ := numeric
    cases same
    cases read
    exact ⟨_, rfl⟩

end

section

variable {read : Json → Option α} {good : Option JsValue → Prop} {encode : α → Json}
variable (each : ∀ written json, JsValue.read written = some json →
  Slot (read json) (good (some written)) fun result => json = encode result)
variable (as : ReadAs value (members.get name.toList))
include each as

/-- A required field is there, with a value of its type. -/
theorem required_slot (missing : ¬ good none) : Slot (requiredField read members name) (good value)
    fun result => (members.get name.toList).getD .null = encode result := by
  unfold requiredField
  cases value with
  | none =>
    rw [show members.get name.toList = none from as]
    exact ⟨nofun, fun h => absurd h missing⟩
  | some written =>
    obtain ⟨json, reads, found⟩ := as
    rw [found]
    exact each written json reads

/-- An optional field is missing, null or as a required one. -/
theorem optional_slot : Slot (optionalField read members name) (Perhaps good value)
    fun result => (members.get name.toList).getD .null = (result.map encode).getD .null := by
  unfold optionalField
  cases value with
  | none =>
    rw [show members.get name.toList = none from as]
    refine ⟨fun result taken => ?_, fun _ => ⟨none, rfl⟩⟩
    cases taken
    exact ⟨.inl rfl, rfl⟩
  | some written =>
    obtain ⟨json, reads, found⟩ := as
    rw [found]
    have null_of : written = .null → json = .null := by
      intro null
      rw [null] at reads
      cases reads
      rfl
    split
    · rename_i impossible
      cases impossible
    · rename_i null
      cases null
      refine ⟨fun result taken => ?_, fun _ => ⟨none, rfl⟩⟩
      cases taken
      exact ⟨.inr (.inl (congrArg some (writtenAs_of_read reads))), rfl⟩
    · rename_i other present same
      cases same
      have one : Slot ((read json).map some) (good (some written)) fun result =>
          (some json).getD .null = (result.map encode).getD .null :=
        (each written json reads).map fun _ kept => kept
      refine one.congr ⟨fun h => .inr (.inr h), ?_⟩
      rintro (missing | null | h)
      · cases missing
      · exact absurd (null_of (Option.some.inj null)) present
      · exact h

end

section

variable (as : ReadAs value (members.get name.toList))
include as

theorem required_text : Slot (requiredField Json.asStr members name) (Textual value)
    fun text => (members.get name.toList).getD .null = .string text :=
  required_slot (fun _ _ => slot_asStr) as (fun ⟨_, missing, _⟩ => nomatch missing)

theorem required_number : Slot (requiredField Json.asU64 members name) (Numeric value)
    fun number => (members.get name.toList).getD .null = ClientMessage.members.natural number :=
  required_slot (fun _ _ => slot_asU64) as (fun ⟨_, missing⟩ => nomatch missing)

theorem optional_text : Slot (optionalField asString members name) (Perhaps Textual value)
    fun text => (members.get name.toList).getD .null = ClientMessage.members.text text :=
  optional_slot (fun _ _ => slot_asString) as

theorem optional_number : Slot (optionalField Json.asU64 members name) (Perhaps Numeric value)
    fun number => (members.get name.toList).getD .null = ClientMessage.members.count number :=
  optional_slot (fun _ _ => slot_asU64) as

end

theorem textual_string : Textual (some (.string units)) ↔ Paired units := by
  constructor
  · rintro ⟨_, same, paired⟩
    cases same
    exact paired
  · exact fun paired => ⟨units, rfl, paired⟩

theorem perhaps_string : Perhaps Textual (some (.string units)) ↔ Paired units := by
  refine ⟨?_, fun paired => .inr (.inr (textual_string.mpr paired))⟩
  rintro (missing | null | textual)
  · cases missing
  · cases null
  · exact textual_string.mp textual

theorem optional_of_absent {read : Json → Option α} (absent : members.get name.toList = none) :
    optionalField read members name = some none := by
  unfold optionalField
  rw [absent]

end

/-! ## Messages of each kind -/

section

variable {members : Members}
variable {pageUrl : JsString}

theorem ascii_of_all {text : String} (ascii : text.toList.all (·.toNat < 0x80) = true) :
    ∀ c ∈ text.toList, c.toNat < 0x80 :=
  fun c member => of_decide_eq_true (List.all_eq_true.mp ascii c member)

/-- The kind that a message is sent with. -/
theorem kind_of_read {kind : String} (ascii : kind.toList.all (·.toNat < 0x80) = true)
    (as : ReadAs (some (Said.fields.text kind)) (members.get "kind".toList)) :
    members.get "kind".toList = some (.string kind.toList) ∧
      (members.get "kind".toList).getD .null = .string kind.toList := by
  obtain ⟨json, read, found⟩ := as
  obtain ⟨text, same, string⟩ := read_string read
  rw [JsString.text_ofText (ascii_of_all ascii)] at same
  cases same
  rw [found, string]
  exact ⟨rfl, rfl⟩

/-- The daemon reads the members as a message with the same fields. -/
def Decoded (members : Members) : Prop :=
  ∃ client, ClientMessage.decode (.object members) = some client ∧
    SameFields members client.members

theorem Said.names_distinct (said : Said) : (said.fields.map (·.1.toList)).Nodup := by
  cases said <;> (simp only [Said.fields, List.map_cons, List.map_nil]; decide)

theorem field_read {said : Said} (read : fieldsRead said.fields = some members) (name : String)
    (index : Nat) (found : said.fields[index]? = some (name, value)) :
    ReadAs value (members.get name.toList) :=
  readAs_of_read said.names_distinct read (List.mem_of_getElem? found)

/-- A message is decoded as the variant of its kind, which every message carries. -/
theorem decoded_of_kind {said : Said} {kind : String}
    (variant : Members → Option (ClientMessage Json)) (read : fieldsRead said.fields = some members)
    (member : ("kind", some (Said.fields.text kind)) ∈ said.fields)
    (ascii : kind.toList.all (·.toNat < 0x80) = true)
    (found : (ClientMessage.variants.find? (·.1 = kind.toList)).map (·.2) = some variant) :
    (Decoded members ↔ ∃ client, variant members = some client ∧
      SameFields members client.members) ∧
      (members.get "kind".toList).getD .null = .string kind.toList := by
  obtain ⟨named, same⟩ := kind_of_read ascii (readAs_of_read said.names_distinct read member)
  have decoding : ClientMessage.decode (.object members) = variant members := by
    unfold ClientMessage.decode Capture.requiredField
    change ((members.get "kind".toList).bind Json.asStr).bind _ = _
    rw [named]
    change ((ClientMessage.variants.find? (·.1 = kind.toList)).map (·.2)).bind _ = _
    rw [found]
    rfl
  unfold Decoded
  rw [decoding]
  exact ⟨Iff.rfl, same⟩

theorem downloadStatus_decoded {id : Option JsValue}
    (read : fieldsRead (Said.downloadStatus id).fields = some members) :
    Decoded members ↔ (Said.downloadStatus id).Plain := by
  obtain ⟨decoded, kind⟩ := decoded_of_kind ClientMessage.decodeDownloadStatus read
    List.mem_cons_self (by decide) rfl
  rw [decoded]
  refine (required_number (field_read read "id" 1 rfl)).last fun _ same => ?_
  refine sameFields_of_entries ?_ fun name => name_of_read read
  simp only [ClientMessage.members, List.forall_mem_cons]
  exact ⟨kind, same, List.forall_mem_nil _⟩

theorem listFormats_decoded (read : fieldsRead (Said.listFormats pageUrl).fields = some members) :
    Decoded members ↔ (Said.listFormats pageUrl).Plain := by
  obtain ⟨decoded, kind⟩ := decoded_of_kind ClientMessage.decodeListFormats read List.mem_cons_self
    (by decide) rfl
  have page := required_text (field_read read "page_url" 1 rfl)
  rw [decoded]
  refine (page.congr textual_string).last fun _ same => ?_
  refine sameFields_of_entries ?_ fun name => name_of_read read
  simp only [ClientMessage.members, List.forall_mem_cons]
  exact ⟨kind, same, List.forall_mem_nil _⟩

/-- A source report has no page. -/
theorem source_decoded {sourceUrl : JsString} {document : JsValue}
    (read : fieldsRead (Said.source sourceUrl document).fields = some members) :
    ¬ Decoded members := by
  rw [(decoded_of_kind ClientMessage.decodeSource read List.mem_cons_self (by decide) rfl).1]
  rintro ⟨client, decoded, _⟩
  obtain ⟨_, _, decoded⟩ := Option.bind_eq_some_iff.mp decoded
  obtain ⟨pageUrl, required, _⟩ := Option.bind_eq_some_iff.mp decoded
  obtain ⟨json, found, _⟩ := Option.bind_eq_some_iff.mp required
  have named : "page_url".toList ∈ (Said.source sourceUrl document).fields.map (·.1.toList) := by
    apply name_of_read read
    rw [found]
    exact fun impossible => nomatch impossible
  simp only [Said.fields, List.map_cons, List.map_nil] at named
  exact absurd named (by decide)

theorem hello_decoded {token : JsString}
    (read : fieldsRead (Said.hello token).fields = some members) :
    Decoded members ↔ (Said.hello token).Plain := by
  obtain ⟨decoded, kind⟩ := decoded_of_kind ClientMessage.decodeHello read List.mem_cons_self
    (by decide) rfl
  obtain ⟨json, three, version⟩ := field_read read "version" 1 rfl
  cases three
  have token_ := required_text (field_read read "token" 2 rfl)
  have agent := required_text (field_read read "agent" 3 rfl)
  have written : Textual (some (.string (.ofText AGENT))) := ⟨_, rfl, rfl⟩
  rw [decoded]
  unfold ClientMessage.decodeHello
  rw [Capture.requiredField, version]
  refine ((token_.congr textual_string).then fun _ token_same =>
    (agent.last fun _ agent_same => ?_)).trans (and_iff_left written)
  refine sameFields_of_entries ?_ fun name => name_of_read read
  simp only [ClientMessage.members, List.forall_mem_cons]
  exact ⟨kind, by rw [version]; rfl, token_same, agent_same, List.forall_mem_nil _⟩

theorem candidate_decoded {url : JsString} {contentType sizeBytes pageTitle : JsValue}
    (read : fieldsRead (Said.candidate url contentType sizeBytes pageUrl pageTitle).fields =
      some members) :
    Decoded members ↔ (Said.candidate url contentType sizeBytes pageUrl pageTitle).Plain := by
  obtain ⟨decoded, kind⟩ := decoded_of_kind ClientMessage.decodeCandidate read List.mem_cons_self
    (by decide) rfl
  have url_ := required_text (field_read read "url" 1 rfl)
  have type := optional_text (field_read read "content_type" 2 rfl)
  have size := optional_number (field_read read "size_bytes" 3 rfl)
  have page := required_text (field_read read "page_url" 4 rfl)
  have title := optional_text (field_read read "page_title" 5 rfl)
  have nameless : members.get "filename".toList = none := by
    by_contra found
    have named := name_of_read read found
    simp only [Said.fields, List.map_cons, List.map_nil] at named
    exact absurd named (by decide)
  rw [decoded]
  unfold ClientMessage.decodeCandidate
  rw [optional_of_absent nameless]
  refine (url_.congr textual_string).then fun _ url_same => type.then fun _ type_same =>
    size.then fun _ size_same => (page.congr textual_string).then fun _ page_same =>
      title.last fun _ title_same => ?_
  apply sameFields_of_entries
  · simp only [ClientMessage.members, List.forall_mem_cons]
    exact ⟨kind, url_same, type_same, size_same, page_same, title_same,
      by rw [nameless]; rfl, List.forall_mem_nil _⟩
  · intro name found
    exact List.subset_append_left _ ["filename".toList] (name_of_read read found)

theorem downloadBrowser_decoded {url filename directory : JsString}
    {contentType sizeBytes pageTitle : Option JsValue}
    (read : fieldsRead (Said.downloadBrowser url contentType sizeBytes pageUrl pageTitle filename
      directory).fields = some members) :
    Decoded members ↔
      (Said.downloadBrowser url contentType sizeBytes pageUrl pageTitle filename directory).Plain := by
  obtain ⟨decoded, kind⟩ := decoded_of_kind ClientMessage.decodeDownloadBrowser read
    List.mem_cons_self (by decide) rfl
  have url_ := required_text (field_read read "url" 1 rfl)
  have type := optional_text (field_read read "content_type" 2 rfl)
  have size := optional_number (field_read read "size_bytes" 3 rfl)
  have page := required_text (field_read read "page_url" 4 rfl)
  have title := optional_text (field_read read "page_title" 5 rfl)
  have file := optional_text (field_read read "filename" 6 rfl)
  have folder := optional_text (field_read read "directory" 7 rfl)
  rw [decoded]
  refine (url_.congr textual_string).then fun _ url_same => type.then fun _ type_same =>
    size.then fun _ size_same => (page.congr textual_string).then fun _ page_same =>
      title.then fun _ title_same => (file.congr perhaps_string).then fun _ file_same =>
        (folder.congr perhaps_string).last fun _ folder_same => ?_
  refine sameFields_of_entries ?_ fun name => name_of_read read
  simp only [ClientMessage.members, List.forall_mem_cons]
  exact ⟨kind, url_same, type_same, size_same, page_same, title_same, file_same, folder_same,
    List.forall_mem_nil _⟩

theorem downloadPage_decoded {pageUrl captureId format directory filename : Option JsValue}
    (read : fieldsRead (Said.downloadPage pageUrl captureId format directory filename).fields =
      some members) :
    Decoded members ↔ (Said.downloadPage pageUrl captureId format directory filename).Plain := by
  obtain ⟨decoded, kind⟩ := decoded_of_kind ClientMessage.decodeDownloadPage read List.mem_cons_self
    (by decide) rfl
  have page := required_text (field_read read "page_url" 1 rfl)
  have id := optional_number (field_read read "capture_id" 2 rfl)
  have chosen := optional_text (field_read read "format" 3 rfl)
  have folder := optional_text (field_read read "directory" 4 rfl)
  have file := optional_text (field_read read "filename" 5 rfl)
  rw [decoded]
  refine page.then fun _ page_same => id.then fun _ id_same => chosen.then fun _ format_same =>
    folder.then fun _ folder_same => file.last fun _ file_same => ?_
  refine sameFields_of_entries ?_ fun name => name_of_read read
  simp only [ClientMessage.members, List.forall_mem_cons]
  exact ⟨kind, page_same, id_same, format_same, folder_same, file_same, List.forall_mem_nil _⟩

/-- What the daemon reads of a message is the message exactly where its fields are plain. -/
theorem decoded_iff_plain {said : Said} (read : fieldsRead said.fields = some members) :
    Decoded members ↔ said.Plain := by
  cases said with
  | hello token => exact hello_decoded read
  | candidate url contentType sizeBytes pageUrl pageTitle => exact candidate_decoded read
  | source sourceUrl document => exact ⟨fun h => source_decoded read h, False.elim⟩
  | listFormats pageUrl => exact listFormats_decoded read
  | downloadPage pageUrl captureId format directory filename => exact downloadPage_decoded read
  | downloadBrowser url contentType sizeBytes pageUrl pageTitle filename directory =>
    exact downloadBrowser_decoded read
  | downloadStatus id => exact downloadStatus_decoded read

end

/-! ## Texts that are read -/

/-- A value with no others in it, in which every surrogate is paired. -/
def Simple (value : JsValue) : Prop := value.Scalar ∧ ∃ json, value.read = some json

theorem simple_of_textual (textual : Textual value) :
    ∀ written ∈ value, Simple written := by
  obtain ⟨units, same, paired⟩ := textual
  rw [same]
  intro written member
  cases member
  obtain ⟨text, found⟩ := Option.isSome_iff_exists.mp paired
  refine ⟨trivial, .string text, ?_⟩
  rw [JsValue.read, found]
  rfl

theorem simple_of_paired {units : JsString} (paired : Paired units) :
    ∀ written ∈ some (JsValue.string units), Simple written :=
  simple_of_textual ⟨units, rfl, paired⟩

theorem simple_of_numeric (numeric : Numeric value) :
    ∀ written ∈ value, Simple written := by
  obtain ⟨number, same⟩ := numeric
  rw [same]
  intro written member
  cases member
  exact ⟨trivial, _, rfl⟩

theorem simple_of_perhaps {required : Option JsValue → Prop}
    (simple : required value → ∀ written ∈ value, Simple written)
    (perhaps : Perhaps required value) : ∀ written ∈ value, Simple written := by
  rcases perhaps with missing | null | plain
  · rw [missing]
    intro written member
    cases member
  · rw [null]
    intro written member
    cases member
    exact ⟨trivial, _, rfl⟩
  · exact simple plain

theorem simple_kind (kind : String) (ascii : kind.toList.all (·.toNat < 0x80) = true) :
    ∀ written ∈ some (Said.fields.text kind), Simple written := by
  apply simple_of_paired
  unfold Paired
  rw [JsString.text_ofText (ascii_of_all ascii)]
  rfl

/-- The fields of a plain message are simple. -/
theorem Said.Plain.simple (plain : said.Plain) :
    ∀ field ∈ said.fields, ∀ written ∈ field.2, Simple written := by
  cases said with
  | hello token =>
    simp only [Said.fields, List.forall_mem_cons]
    exact ⟨simple_kind _ (by decide), simple_of_numeric ⟨3, rfl⟩, simple_of_paired plain,
      simple_kind "gunda-capture/0.1.0" (by decide), List.forall_mem_nil _⟩
  | candidate url contentType sizeBytes pageUrl pageTitle =>
    obtain ⟨url_, type_, size_, page_, title_⟩ := plain
    simp only [Said.fields, List.forall_mem_cons]
    exact ⟨simple_kind _ (by decide), simple_of_paired url_,
      simple_of_perhaps simple_of_textual type_, simple_of_perhaps simple_of_numeric size_,
      simple_of_paired page_, simple_of_perhaps simple_of_textual title_, List.forall_mem_nil _⟩
  | source sourceUrl document => exact plain.elim
  | listFormats pageUrl =>
    simp only [Said.fields, List.forall_mem_cons]
    exact ⟨simple_kind _ (by decide), simple_of_paired plain, List.forall_mem_nil _⟩
  | downloadPage pageUrl captureId format directory filename =>
    obtain ⟨page_, id_, format_, directory_, name_⟩ := plain
    simp only [Said.fields, List.forall_mem_cons]
    exact ⟨simple_kind _ (by decide), simple_of_textual page_,
      simple_of_perhaps simple_of_numeric id_, simple_of_perhaps simple_of_textual format_,
      simple_of_perhaps simple_of_textual directory_, simple_of_perhaps simple_of_textual name_,
      List.forall_mem_nil _⟩
  | downloadBrowser url contentType sizeBytes pageUrl pageTitle filename directory =>
    obtain ⟨url_, type_, size_, page_, title_, name_, directory_⟩ := plain
    simp only [Said.fields, List.forall_mem_cons]
    exact ⟨simple_kind _ (by decide), simple_of_paired url_,
      simple_of_perhaps simple_of_textual type_, simple_of_perhaps simple_of_numeric size_,
      simple_of_paired page_, simple_of_perhaps simple_of_textual title_, simple_of_paired name_,
      simple_of_paired directory_, List.forall_mem_nil _⟩
  | downloadStatus id =>
    simp only [Said.fields, List.forall_mem_cons]
    exact ⟨simple_kind _ (by decide), simple_of_numeric plain, List.forall_mem_nil _⟩

theorem fieldsRead_of_simple (simple : ∀ field ∈ fields, ∀ written ∈ field.2, Simple written) :
    ∃ members, fieldsRead fields = some members := by
  induction fields with
  | nil => exact ⟨[], rfl⟩
  | cons field rest ih =>
    obtain ⟨name, value⟩ := field
    obtain ⟨later, read⟩ := ih fun other member => simple other (List.mem_cons_of_mem _ member)
    cases value with
    | none => exact ⟨later, read⟩
    | some value =>
      obtain ⟨_, json, written⟩ := simple (name, some value) List.mem_cons_self value rfl
      refine ⟨(name.toList, json) :: later, ?_⟩
      rw [fieldsRead, written, read]
      rfl

theorem Said.names_ascii (said : Said) : ∀ field ∈ said.fields, ∀ c ∈ field.1.toList,
    c.toNat < 0x80 := by
  have all : said.fields.all (fun field => field.1.toList.all (·.toNat < 0x80)) = true := by
    cases said <;> (simp only [Said.fields, List.all_cons, List.all_nil]; decide)
  exact fun field member => ascii_of_all (List.all_eq_true.mp all field member)

theorem Said.read_value (said : Said) :
    said.value.read = (fieldsRead said.fields).map .object := by
  rw [← readMembers_fields said.names_ascii]
  rfl

theorem Said.Plain.read_whole (plain : said.Plain) {json : SerdeJson}
    (reads : Reads json said.value) : json.fromStr said.message = said.value.read := by
  apply reads.flat _ rfl
  intro member inside
  obtain ⟨field, listed, written⟩ := List.mem_filterMap.mp inside
  obtain ⟨value, found, same⟩ := Option.map_eq_some_iff.mp written
  rw [← same]
  exact (plain.simple field listed value found).1

/-- A message is understood exactly where its fields are plain and it is not too long. -/
theorem understood_iff {json : SerdeJson} (reads : Reads json said.value) :
    Understood json said ↔ said.Plain ∧ said.Fits := by
  constructor
  · rintro ⟨client, members, parsed, read, same⟩
    unfold SerdeJson.parseClientMessage at parsed
    split at parsed
    · cases parsed
    rename_i short
    split at parsed
    · rename_i message found
      cases parsed
      obtain ⟨value, denoted, decoded⟩ := Option.bind_eq_some_iff.mp found
      have whole := reads.denoted value denoted
      rw [read] at whole
      cases whole
      rw [said.read_value] at read
      obtain ⟨_, fields, object⟩ := Option.map_eq_some_iff.mp read
      cases object
      exact ⟨(decoded_iff_plain fields).mp ⟨client, decoded, same⟩, Nat.le_of_not_lt short⟩
    · cases parsed
  · rintro ⟨plain, fits⟩
    obtain ⟨members, fields⟩ := fieldsRead_of_simple plain.simple
    obtain ⟨client, decoded, same⟩ := (decoded_iff_plain fields).mpr plain
    have read : said.value.read = some (.object members) := by
      rw [said.read_value, fields]
      rfl
    refine ⟨client, members, ?_, read, same⟩
    unfold SerdeJson.parseClientMessage
    rw [if_neg (Nat.not_lt.mpr fits), plain.read_whole reads, read, Option.bind_some, decoded]

/-! ## Messages of the daemon -/

theorem handle_object (server : Members) :
    handleMessage (.object server) = ((server.get "kind".toList).bind Json.asStr).bind fun kind =>
      ((cases server).find? (·.1.toList = kind)).bind (·.2) := rfl

theorem find_of_mem {α : Type} {list : List (String × α)} {name : String} {value : α}
    (distinct : (list.map (·.1.toList)).Nodup) (member : (name, value) ∈ list) :
    list.find? (·.1.toList = name.toList) = some (name, value) := by
  induction list with
  | nil => cases member
  | cons first rest ih =>
    rw [List.map_cons, List.nodup_cons] at distinct
    cases List.mem_cons.mp member with
    | inl same =>
      rw [← same, List.find?_cons_of_pos (by simp)]
    | inr inside =>
      have different : first.1.toList ≠ name.toList := by
        intro same
        exact distinct.1 (same ▸ List.mem_map_of_mem inside)
      rw [List.find?_cons_of_neg (by simpa using different)]
      exact ih distinct.2 inside

theorem cases_distinct (server : Members) : ((cases server).map (·.1.toList)).Nodup := by
  simp only [cases, List.map_cons, List.map_nil]
  decide

/-- A message is handled by the case of its kind. -/
theorem handled_of_case {kind : String} {fields : Members} {value : Option Received}
    (case : (kind, value) ∈ cases (("kind".toList, .string kind.toList) :: fields))
    (taken : ∃ received, value = some received) :
    ∃ received, handleMessage (.object (("kind".toList, .string kind.toList) :: fields)) =
      some received := by
  obtain ⟨received, same⟩ := taken
  refine ⟨received, ?_⟩
  rw [handle_object, get_self, Option.bind_some]
  change ((cases _).find? _).bind _ = _
  rw [find_of_mem (cases_distinct _) case]
  exact same

/-- `handle` has a case for every message of the daemon. -/
theorem server_recognised (message : ServerMessage) :
    ∃ received, handleMessage (encodeServerMessage message) = some received := by
  cases message with
  | ready version features =>
    apply handled_of_case (List.mem_of_getElem? (i := 0) rfl)
    have found : ∃ known, featuresOf (Members.get (("kind".toList, .string "ready".toList) ::
        (ServerMessage.ready version features).fields.2) "features".toList) = some known := by
      rw [get_of_ne (by decide)]
      cases features with
      | nil =>
        change ∃ known, featuresOf (Members.get [("version".toList, _)] _) = some known
        rw [get_of_ne (by decide)]
        exact ⟨[], rfl⟩
      | cons feature rest =>
        change ∃ known, featuresOf (Members.get [("version".toList, _), ("features".toList, _)] _) =
          some known
        rw [get_of_ne (by decide), get_self]
        exact ⟨_, rfl⟩
    obtain ⟨known, found⟩ := found
    rw [found]
    exact ⟨_, rfl⟩
  | accepted id => exact handled_of_case (List.mem_of_getElem? (i := 1) rfl) ⟨_, rfl⟩
  | duplicate id => exact handled_of_case (List.mem_of_getElem? (i := 2) rfl) ⟨_, rfl⟩
  | recorded new known =>
    apply handled_of_case (List.mem_of_getElem? (i := 3) rfl)
    change ∃ received, (do
      let accepted ← lengthOf (Members.get [("kind".toList, _), ("accepted".toList, _),
        ("duplicates".toList, _)] "accepted".toList)
      let duplicates ← lengthOf (Members.get [("kind".toList, _), ("accepted".toList, _),
        ("duplicates".toList, _)] "duplicates".toList)
      pure (Received.recorded accepted duplicates)) = some received
    rw [get_of_ne (by decide), get_self, get_of_ne (by decide), get_of_ne (by decide), get_self]
    exact ⟨_, rfl⟩
  | downloadQueued id => exact handled_of_case (List.mem_of_getElem? (i := 4) rfl) ⟨_, rfl⟩
  | downloadUnavailable reason =>
    exact handled_of_case (List.mem_of_getElem? (i := 5) rfl) ⟨_, rfl⟩
  | pageFormats captureId formats directory filename =>
    exact handled_of_case (List.mem_of_getElem? (i := 6) rfl) ⟨_, rfl⟩
  | formatsUnavailable reason =>
    exact handled_of_case (List.mem_of_getElem? (i := 7) rfl) ⟨_, rfl⟩
  | downloadStatus status => exact handled_of_case (List.mem_of_getElem? (i := 8) rfl) ⟨_, rfl⟩
  | downloadStatusUnavailable reason =>
    exact handled_of_case (List.mem_of_getElem? (i := 9) rfl) ⟨_, rfl⟩
  | refused reason => exact handled_of_case (List.mem_of_getElem? (i := 10) rfl) ⟨_, rfl⟩
  | malformed reason => exact handled_of_case (List.mem_of_getElem? (i := 11) rfl) ⟨_, rfl⟩

/-! ## Both directions -/

/-- For every message of the extension's parts, whoever sends it and whatever state the
connection is in. -/
theorem protocol_agreed_iff {json : SerdeJson} {line : Line} {tab : Option Tab} {value : JsValue}
    (reads : ∀ said ∈ line.speaks tab value, Reads json said.value) :
    ((∀ said ∈ line.speaks tab value, Understood json said) ∧
        ∀ message, ∃ received, handleMessage (encodeServerMessage message) = some received) ↔
      ∀ said ∈ line.speaks tab value, said.Plain ∧ said.Fits := by
  constructor
  · intro agreed said member
    exact (understood_iff (reads said member)).mp (agreed.1 said member)
  · intro plain
    refine ⟨fun said member => ?_, server_recognised⟩
    exact (understood_iff (reads said member)).mpr (plain said member)

/-- A reader of the text of this value only. -/
def readerOf (value : JsValue) : SerdeJson where
  fromStr text := if text = value.stringify then value.read else none

theorem reads_readerOf (value : JsValue) : Reads (readerOf value) value := by
  have same : (readerOf value).fromStr value.stringify = value.read := if_pos rfl
  constructor
  · intro found read
    rw [← same]
    exact read
  · exact fun _ _ _ => same

def openLine : Line := ⟨true, none, true, false, false⟩

def watchTab : Option Tab :=
  some ⟨some (JsString.ofText "https://a.example/watch".toList), none⟩

def ofParts (members : List (String × JsValue)) : JsValue :=
  .object (members.map fun member => (JsString.ofText member.1.toList, member.2))

def mediaFound : JsValue :=
  ofParts [("kind", .string (JsString.ofText "candidate".toList)),
    ("url", .string (JsString.ofText "https://a.example/v.mp4".toList)),
    ("content_type", .null), ("size_bytes", .number (.unsigned 7))]

def mediaSaid : Said :=
  .candidate (JsString.ofText "https://a.example/v.mp4".toList) .null (.number (.unsigned 7))
    (JsString.ofText "https://a.example/watch".toList) .null

theorem candidate_understood :
    openLine.speaks watchTab mediaFound = [mediaSaid] ∧
      Understood (readerOf mediaSaid.value) mediaSaid := by
  have spoken : openLine.speaks watchTab mediaFound = [mediaSaid] := by rfl
  refine ⟨spoken, ?_⟩
  have agreed := (@protocol_agreed_iff (readerOf mediaSaid.value) openLine watchTab mediaFound (by
    rw [spoken]
    intro said member
    rw [List.mem_singleton.mp member]
    exact reads_readerOf _)).mpr (by
      rw [spoken]
      intro said member
      rw [List.mem_singleton.mp member]
      refine ⟨⟨rfl, .inr (.inl rfl), .inr (.inr ⟨7, rfl⟩), rfl, .inr (.inl rfl)⟩, ?_⟩
      unfold Said.Fits
      decide +kernel)
  apply agreed.1
  rw [spoken]
  exact List.mem_singleton_self _

def documentFound : JsValue :=
  ofParts [("kind", .string (JsString.ofText "source".toList)),
    ("source_url", .string (JsString.ofText "https://a.example/api".toList)),
    ("document", .object [])]

def documentSaid : Said := .source (JsString.ofText "https://a.example/api".toList) (.object [])

/-- A source report has no page, which the daemon requires. -/
theorem source_not_understood :
    openLine.speaks watchTab documentFound = [documentSaid] ∧
      Reads (readerOf documentSaid.value) documentSaid.value ∧
      ¬ Understood (readerOf documentSaid.value) documentSaid := by
  refine ⟨by rfl, reads_readerOf _, fun understood => ?_⟩
  exact ((understood_iff (reads_readerOf _)).mp understood).1

end Gunda.Extension
