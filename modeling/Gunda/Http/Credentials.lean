import Gunda.Http.Ranges
import Gunda.Lib.Result
import Gunda.Lib.Trace

/-!
# Where a caller's headers go

Every request of `HttpClient` follows redirects in one loop. The headers of a caller
are dropped where a redirect leaves an origin, and nothing brings them back.
-/
namespace Gunda.Http

open Gunda.Lib Gunda.Lib.Text
open Fallible (andThen_ok wp wp_bind wp_map wp_result)
open Gunda.Core (Url RequestContext)

/-- The headers of the engine's own requests. -/
def engineHeaders : List Text := ["accept-encoding", "range", "if-range"].map String.toList

def CarriesCallerHeaders (headers : HeaderMap) : Prop := ∃ header ∈ headers, header.1 ∉ engineHeaders

instance (headers : HeaderMap) : Decidable (CarriesCallerHeaders headers) :=
  inferInstanceAs (Decidable (∃ header ∈ headers, header.1 ∉ engineHeaders))

/-- `Url::origin` of a URL with a tuple origin, the port being the known default where
none is written. -/
structure SameOrigin (urls : UrlLibrary) (port : Url → Nat) (a b : Url) : Prop where
  scheme : urls.scheme a = urls.scheme b
  host : urls.host a = urls.host b
  port : port a = port b

def Fetchable (urls : UrlLibrary) (url : Url) : Prop :=
  urls.scheme url = "http".toList ∨ urls.scheme url = "https".toList

/-- The origins of two URLs of the web are equal when scheme, host and port are. -/
def ComparesOrigins (urls : UrlLibrary) (port : Url → Nat) : Prop :=
  ∀ a b, Fetchable urls a → Fetchable urls b →
    (urls.sameOrigin a b = true ↔ SameOrigin urls port a b)

/-- The ways a request is made. -/
inductive Asking where
  | inspect
  | openBody
  | openRange (start total : Nat) (validator : StrongEntityTag)
  | openByteRange (first last : Nat)

/-- The requests the client makes in that way. -/
def ask (urls : UrlLibrary) {Op : Type} {Ans : Op → Type}
    (send : Exchange → Program Op Ans (Except HttpError Response)) (request : RequestContext) :
    Asking → Client Op Ans Unit
  | .inspect => (fun _ => ()) <$> inspect urls send request
  | .openBody => (fun _ => ()) <$> openBody urls send request
  | .openRange start total validator =>
      (fun _ => ()) <$> openRange urls send request start total validator
  | .openByteRange first last => (fun _ => ()) <$> openByteRange urls send request first last

section

variable {urls : UrlLibrary} {port : Url → Nat}
variable {url next : Url} {headers : HeaderMap}

theorem SameOrigin.refl (url : Url) : SameOrigin urls port url url := ⟨rfl, rfl, rfl⟩

theorem SameOrigin.trans {a b c : Url} (first : SameOrigin urls port a b)
    (second : SameOrigin urls port b c) : SameOrigin urls port a c :=
  ⟨first.scheme.trans second.scheme, first.host.trans second.host, first.port.trans second.port⟩

/-! ## What a hop hands to the next -/

theorem validateUrl_ok (h : validateUrl urls url = .ok ()) : Fetchable urls url := by
  unfold validateUrl at h
  split at h
  · cases h
  · rename_i passed
    push Not at passed
    unfold Fetchable
    by_cases plain : urls.scheme url = "http".toList
    · exact Or.inl plain
    · exact Or.inr (by simpa using passed.1 plain)

theorem validateRedirect_ok {current : Url} (h : validateRedirect urls current next = .ok ()) :
    Fetchable urls next ∧
      (urls.scheme current = "https".toList → urls.scheme next = "https".toList) := by
  unfold validateRedirect at h
  obtain ⟨⟨⟩, valid, h⟩ := bind_ok h
  refine ⟨validateUrl_ok valid, fun secure => ?_⟩
  split at h
  · cases h
  · rename_i kept
    by_contra downgraded
    exact kept ⟨secure, downgraded⟩

theorem redirectTarget_ok {response : Response} (h : redirectTarget urls url response = .ok next) :
    Fetchable urls next ∧
      (urls.scheme url = "https".toList → urls.scheme next = "https".toList) := by
  unfold redirectTarget at h
  obtain ⟨location, -, h⟩ := bind_ok h
  cases location with
  | none => cases h
  | some location =>
    dsimp only at h
    cases joined : urls.join url location with
    | none =>
      rw [joined] at h
      cases h
    | some target =>
      rw [joined] at h
      obtain ⟨⟨⟩, valid, h⟩ := bind_ok h
      cases h
      exact validateRedirect_ok valid

/-- Only the engine's own headers travel to another origin. -/
theorem transportHeaders_bare (headers : HeaderMap) :
    ¬ CarriesCallerHeaders (transportHeaders headers) := by
  intro carries
  obtain ⟨header, member, foreign⟩ := carries
  obtain ⟨name, owned, value⟩ := List.mem_filterMap.mp member
  obtain ⟨value, -, rfl⟩ := Option.map_eq_some_iff.mp value
  exact foreign owned

/-- The headers of a caller reach the next hop only at the same origin. -/
theorem carried_to_next (compares : ComparesOrigins urls port) (fetchable : Fetchable urls url)
    (onward : Fetchable urls next) (carries : CarriesCallerHeaders
      (if urls.sameOrigin url next then headers else transportHeaders headers)) :
    CarriesCallerHeaders headers ∧ SameOrigin urls port url next := by
  split at carries
  · rename_i same
    exact ⟨carries, (compares url next fetchable onward).mp same⟩
  · exact absurd carries (transportHeaders_bare headers)

theorem CarriesCallerHeaders.of_insert {name value : Text} (owned : name ∈ engineHeaders)
    (carries : CarriesCallerHeaders (HeaderMap.insert headers name value)) :
    CarriesCallerHeaders headers := by
  obtain ⟨header, member, foreign⟩ := carries
  cases List.mem_append.mp member with
  | inl kept => exact ⟨header, (List.mem_filter.mp kept).1, foreign⟩
  | inr inserted =>
    rw [List.mem_singleton.mp inserted] at foreign
    exact absurd owned foreign

theorem requestHeaders_bare {request : RequestContext} (bare : request.headers = [])
    (read : requestHeaders request = .ok headers) :
    ¬ CarriesCallerHeaders headers := by
  unfold requestHeaders at read
  rw [bare] at read
  cases read
  intro carries
  obtain ⟨header, member, -⟩ := CarriesCallerHeaders.of_insert (by decide) carries
  cases member

/-! ## Every hop -/

section Hops

variable {Op : Type} {Ans : Op → Type} {σ : Type} {S : Spec Op Ans σ}
  {send : Exchange → Program Op Ans (Except HttpError Response)}

variable {α : Type}

/-- What lets a hop be sent holds again when the next one is. -/
def HandsOn (urls : UrlLibrary) (S : Spec Op Ans σ)
    (send : Exchange → Program Op Ans (Except HttpError Response))
    (I : Nat → Url → HeaderMap → σ → Prop) : Prop :=
  ∀ method hops url headers s, I hops url headers s →
    Program.wp S (send ⟨method, url, headers⟩) (fun answer t => ∀ response later next,
      answer = .ok response → hops = later + 1 → redirectTarget urls url response = .ok next →
      I later next (if urls.sameOrigin url next then headers else transportHeaders headers) t) s

/-- The first hop may be sent, with headers of the caller only if there are any. -/
def Begins (urls : UrlLibrary) (I : Nat → Url → HeaderMap → σ → Prop) (request : RequestContext)
    (s : σ) : Prop :=
  ∀ headers, Fetchable urls request.url →
    (CarriesCallerHeaders headers → request.headers ≠ []) → I 10 request.url headers s

variable {I : Nat → Url → HeaderMap → σ → Prop} {request : RequestContext} {s : σ}

section

variable (handsOn : HandsOn urls S send I)
include handsOn

theorem wp_followRedirects {method : Method}
    {hops : Nat} {url : Url} {headers : HeaderMap} (start : I hops url headers s) :
    wp S (followRedirects urls send method hops url headers) (fun _ _ => True) s := by
  induction hops generalizing url headers s with
  | zero =>
    unfold followRedirects
    rw [wp_bind]
    apply Program.wp_mono (handsOn method 0 url headers s start)
    intro answer t _
    cases answer with
    | error error => trivial
    | ok response =>
      rw [andThen_ok]
      split <;> trivial
  | succ hops ih =>
    unfold followRedirects
    rw [wp_bind]
    apply Program.wp_mono (handsOn method (hops + 1) url headers s start)
    intro answer t onward
    cases answer with
    | error error => trivial
    | ok response =>
      rw [andThen_ok]
      split
      · trivial
      · rw [wp_bind, wp_result]
        cases target : redirectTarget urls url response with
        | error error => trivial
        | ok next => exact ih (onward response hops next rfl rfl target)

omit handsOn in
theorem wp_result_bind {ε β : Type} {result : Except ε α} {next : α → Fallible Op Ans ε β}
    (h : ∀ value, result = .ok value → wp S (next value) (fun _ _ => True) s) :
    wp S (ExceptT.mk (pure result) >>= next) (fun _ _ => True) s := by
  rw [wp_bind, wp_result]
  cases result with
  | error error => trivial
  | ok value => exact h value rfl

/-- Nothing is sent once the last hop is answered. -/
theorem wp_answered {method : Method} {headers : HeaderMap} {next : Response → Client Op Ans α} (start : I 10 request.url headers s)
    (quiet : ∀ response t, wp S (next response) (fun _ _ => True) t) :
    wp S (sendRedirected urls send request method headers >>= next) (fun _ _ => True) s := by
  rw [wp_bind]
  apply Program.wp_mono (wp_followRedirects handsOn start)
  intro answer t _
  cases answer with
  | error error => trivial
  | ok response => exact quiet response t

omit handsOn in
/-- The headers of a request are read before its first hop. -/
theorem wp_readHeaders {next : HeaderMap → Client Op Ans α} (begins : Begins urls I request s)
    (valid : validateUrl urls request.url = .ok ())
    (h : ∀ headers, (∀ own, (CarriesCallerHeaders own → CarriesCallerHeaders headers) →
      I 10 request.url own s) → wp S (next headers) (fun _ _ => True) s) :
    wp S (ExceptT.mk (pure (requestHeaders request)) >>= next) (fun _ _ => True) s := by
  apply wp_result_bind
  intro headers read
  apply h headers
  intro own fewer
  apply begins own (validateUrl_ok valid)
  intro carries bare
  exact requestHeaders_bare bare read (fewer carries)

theorem wp_inspect (begins : Begins urls I request s) :
    wp S (inspect urls send request) (fun _ _ => True) s := by
  apply wp_result_bind
  intro _ valid
  apply wp_readHeaders begins valid
  intro headers first
  exact wp_answered handsOn (first headers id) fun _ _ => trivial

theorem wp_openBody (begins : Begins urls I request s) :
    wp S (openBody urls send request) (fun _ _ => True) s := by
  apply wp_result_bind
  intro _ valid
  apply wp_readHeaders begins valid
  intro headers first
  apply wp_answered handsOn (first headers id)
  intro response t
  apply wp_result_bind
  intro metadata _
  trivial

theorem wp_openRange (begins : Begins urls I request s)
    {start total : Nat} {validator : StrongEntityTag} :
    wp S (openRange urls send request start total validator) (fun _ _ => True) s := by
  apply wp_result_bind
  intro _ valid
  split
  · trivial
  · apply wp_readHeaders begins valid
    intro headers first
    have fewer : CarriesCallerHeaders (rangeHeaders headers start validator) →
        CarriesCallerHeaders headers := by
      intro carries
      have ranged := CarriesCallerHeaders.of_insert (by decide) carries
      exact .of_insert (by decide) ranged
    apply wp_answered handsOn (first _ fewer)
    intro response t
    apply wp_result_bind
    intro metadata _
    trivial

theorem wp_openByteRange (begins : Begins urls I request s) {first last : Nat} :
    wp S (openByteRange urls send request first last) (fun _ _ => True) s := by
  apply wp_result_bind
  intro _ valid
  split
  · trivial
  · apply wp_readHeaders begins valid
    intro headers carried
    apply wp_answered handsOn (carried _ (.of_insert (by decide)))
    intro response t
    apply wp_result_bind
    intro answered _
    trivial

theorem wp_ask (begins : Begins urls I request s)
    (asking : Asking) : wp S (ask urls send request asking) (fun _ _ => True) s := by
  cases asking with
  | inspect => exact (wp_map _ _ _ _ _).mpr (wp_inspect handsOn begins)
  | openBody => exact (wp_map _ _ _ _ _).mpr (wp_openBody handsOn begins)
  | openRange start total validator =>
    exact (wp_map _ _ _ _ _).mpr (wp_openRange handsOn begins)
  | openByteRange first last =>
    exact (wp_map _ _ _ _ _).mpr (wp_openByteRange handsOn begins)

end

end Hops

/-! ## One request -/

abbrev Reply (_ : Exchange) : Type := Except HttpError Response

/-- What a hop may carry and where it may go after the hops before it, newest first. -/
structure Careful (urls : UrlLibrary) (port : Url → Nat) (hop : Exchange)
    (older : Trace Exchange Reply) : Prop where
  caller : CarriesCallerHeaders hop.headers → ∀ earlier ∈ older,
    SameOrigin urls port earlier.op.url hop.url
  secure : ∀ last ∈ older.head?, urls.scheme last.op.url = "https".toList →
    urls.scheme hop.url = "https".toList
  bounded : older.length ≤ 10

/-- A hop that may be sent, with as many to follow. -/
structure Following (urls : UrlLibrary) (port : Url → Nat) (hops : Nat) (url : Url)
    (headers : HeaderMap) (older : Trace Exchange Reply) : Prop where
  fetchable : Fetchable urls url
  caller : CarriesCallerHeaders headers → ∀ earlier ∈ older,
    SameOrigin urls port earlier.op.url url
  secure : ∀ last ∈ older.head?, urls.scheme last.op.url = "https".toList →
    urls.scheme url = "https".toList
  bounded : older.length + hops ≤ 10

theorem following_handsOn (compares : ComparesOrigins urls port) :
    HandsOn urls (Trace.spec (Careful urls port)) Program.perform (Following urls port) := by
  intro method hops url headers older following
  constructor
  · have bounded := following.bounded
    exact ⟨following.caller, following.secure, by omega⟩
  · intro answer newer performed response later next _ count target
    subst performed
    obtain ⟨onward, kept⟩ := redirectTarget_ok target
    have bounded := following.bounded
    refine ⟨onward, ?_, ?_, ?_⟩
    · intro carries earlier member
      obtain ⟨carried, same⟩ := carried_to_next compares following.fetchable onward carries
      cases member with
      | head => exact same
      | tail _ member => exact (following.caller carried earlier member).trans same
    · intro last newest
      cases newest
      exact kept
    · rw [List.length_cons]
      omega

theorem careful_hops (compares : ComparesOrigins urls port) (request : RequestContext)
    (asking : Asking) (answers : Trace.Oracle Exchange Reply) (n : Nat) :
    Trace.Keeps (Careful urls port)
      (Trace.play answers (ask urls Program.perform request asking).run n).2 := by
  have begins : Begins urls (Following urls port) request [] := by
    intro headers fetchable _
    constructor
    · exact fetchable
    · intro _ earlier member
      cases member
    · intro last newest
      cases newest
    · decide
  exact (Trace.keeps_of_wp (wp_ask (following_handsOn compares) begins asking) answers n).1

end

end Gunda.Http
