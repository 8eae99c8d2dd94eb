import Gunda.Stream.Fetch

/-!
# The base of a redirected manifest

A manifest is planned against the URL it was asked from, while `plan_hls` wants
the URL it came from. The two agree when the redirects of the manifest, if any,
end where they began.
-/
namespace Gunda.Stream

open Gunda.Lib Gunda.Lib.Text
open Fallible (andThen_ok wp wp_bind wp_mono)
open Trace (spec)
open Gunda.Core (Url RequestContext DownloadFailure)
open Gunda.Http (HttpError Exchange Response)

/-- The URLs asked since the last manifest was planned, newest first: the redirects
of the manifest being read. -/
def chain : PlanningTrace → List Url
  | ⟨.exchange request, _⟩ :: older => request.url :: chain older
  | _ => []

/-- Both resolve every reference alike: the same URL, fragments aside. -/
def ResolveAlike (urls : Http.UrlLibrary) (a b : Url) : Prop :=
  ∀ reference, urls.join a reference = urls.join b reference

/-- A manifest is planned against a base that resolves like the URL of the response
that delivered it. -/
def PlannedAsDelivered (urls : Http.UrlLibrary) : PlanningOp → PlanningTrace → Prop
  | .planned base, trace => ∃ delivered ∈ (chain trace).head?, ResolveAlike urls base delivered
  | .exchange _, _ => True

/-- The redirects of a manifest end at a URL that resolves like the one asked. -/
def EndsWhereAsked (urls : Http.UrlLibrary) : PlanningOp → PlanningTrace → Prop
  | .planned _, trace => ∃ asked ∈ (chain trace).getLast?,
      ∃ delivered ∈ (chain trace).head?, ResolveAlike urls asked delivered
  | .exchange _, _ => True

/-- A manifest is planned against the URL it was asked from. -/
def PlannedAsAsked : PlanningOp → PlanningTrace → Prop
  | .planned base, trace => (chain trace).getLast? = some base
  | .exchange _, _ => True

/-- After a success the manifest's redirects began at this URL. -/
def Asked {ε α : Type} (url : Url) : Except ε α → PlanningTrace → Prop
  | .ok _, trace => (chain trace).getLast? = some url
  | .error _, _ => True

/-- After a success every manifest read has been planned. -/
def Settled {ε α : Type} : Except ε α → PlanningTrace → Prop
  | .ok _, trace => chain trace = []
  | .error _, _ => True

section

variable {urls : Http.UrlLibrary} {decimals : Decimals} {trace : PlanningTrace} {ε α : Type}
variable {base : Url} {request : RequestContext}

theorem wp_exchange {request : Exchange} {Q : Except HttpError Response → PlanningTrace → Prop}
    (h : ∀ answer, Q answer (⟨.exchange request, answer⟩ :: trace)) :
    wp (spec PlannedAsAsked) (ExceptT.mk (exchange request)) Q trace := by
  constructor
  · trivial
  · intro answer next performed
    subst performed
    exact h answer

/-- A step that performs nothing either fails at once or goes on. -/
theorem wp_pureResult_bind {β : Type} {result : Except ε α} {next : α → Planning ε β}
    {Q : Except ε β → PlanningTrace → Prop} (fails : ∀ error, Q (.error error) trace)
    (h : ∀ value, wp (spec PlannedAsAsked) (next value) Q trace) :
    wp (spec PlannedAsAsked) (pureResult result >>= next) Q trace := by
  rw [wp_bind]
  cases result with
  | error error => exact fails error
  | ok value => exact h value

theorem wp_planned_bind {next : Unit → Planning DownloadFailure α}
    {Q : Except DownloadFailure α → PlanningTrace → Prop}
    (asked : (chain trace).getLast? = some base)
    (h : wp (spec PlannedAsAsked) (next ()) Q (⟨.planned base, ()⟩ :: trace)) :
    wp (spec PlannedAsAsked) (planned base >>= next) Q trace := by
  rw [wp_bind]
  constructor
  · exact asked
  · intro answer after performed
    subst performed
    exact h

/-- Every hop is asked after the hops before it, so the chain keeps its beginning. -/
theorem wp_followRedirects (method : Http.Method) (start : Url) (hops : Nat) :
    ∀ (url : Url) (headers : Http.HeaderMap) (trace : PlanningTrace),
      (url :: chain trace).getLast? = some start →
      wp (spec PlannedAsAsked)
        (Http.followRedirects urls exchange method hops url headers) (Asked start) trace := by
  induction hops with
  | zero =>
    intro url headers trace began
    unfold Http.followRedirects
    rw [wp_bind]
    apply wp_exchange
    intro answer
    cases answer with
    | error error => trivial
    | ok response =>
      rw [andThen_ok]
      split
      · exact began
      · trivial
  | succ hops ih =>
    intro url headers trace began
    unfold Http.followRedirects
    rw [wp_bind]
    apply wp_exchange
    intro answer
    cases answer with
    | error error => trivial
    | ok response =>
      rw [andThen_ok]
      split
      · exact began
      · rw [wp_bind, Fallible.wp_result]
        cases Http.redirectTarget urls url response with
        | error error => trivial
        | ok next =>
          apply ih
          change (next :: url :: chain trace).getLast? = some start
          rw [List.getLast?_cons_cons]
          exact began

theorem wp_openManifest (settled : chain trace = []) :
    wp (spec PlannedAsAsked) (openManifest urls request) (Asked request.url)
      trace := by
  have began : (request.url :: chain trace).getLast? = some request.url := by
    rw [settled]
    rfl
  have opened : wp (spec PlannedAsAsked)
      (Http.openBody urls exchange request) (Asked request.url) trace := by
    unfold Http.openBody
    apply wp_pureResult_bind (fun _ => trivial)
    intro _
    apply wp_pureResult_bind (fun _ => trivial)
    intro headers
    rw [wp_bind]
    apply wp_mono (wp_followRedirects _ request.url _ _ _ _ began)
    intro result next asked
    cases result with
    | error error => trivial
    | ok response =>
      apply wp_pureResult_bind (fun _ => trivial)
      intro metadata
      exact asked
  unfold openManifest
  rw [wp_bind, Fallible.wp_adapt]
  apply wp_mono opened
  intro result next asked
  cases result with
  | error error => trivial
  | ok opened =>
    apply wp_pureResult_bind (fun _ => trivial)
    intro bytes
    exact asked

theorem wp_fetchMediaPlaylist {url : Url} {track : Nat} {bandwidth declaredTotal : Option Nat}
    (settled : chain trace = []) :
    wp (spec PlannedAsAsked)
      (fetchMediaPlaylist urls decimals url base request track bandwidth declaredTotal) Settled
      trace := by
  unfold fetchMediaPlaylist
  rw [wp_bind]
  apply wp_mono (wp_openManifest settled)
  intro result next asked
  cases result with
  | error error => trivial
  | ok manifest =>
    apply wp_pureResult_bind (fun _ => trivial)
    intro text
    apply wp_pureResult_bind (fun _ => trivial)
    intro playlist
    apply wp_planned_bind asked
    apply wp_pureResult_bind (fun _ => trivial)
    intro outcome
    cases outcome with
    | ready plan => rfl
    | fetchVariant url label bandwidth total audio => trivial

theorem wp_fetchVariant {url : Url} {bandwidth declaredTotal : Option Nat} {audio : Option Url}
    (settled : chain trace = []) :
    wp (spec PlannedAsAsked)
      (fetchVariant urls decimals url base request bandwidth declaredTotal audio) Settled
      trace := by
  unfold fetchVariant
  rw [wp_bind]
  apply wp_mono (wp_fetchMediaPlaylist settled)
  intro result next settled
  cases result with
  | error error => trivial
  | ok video =>
    cases audio with
    | none => exact settled
    | some audio =>
      change wp _ (_ >>= _) _ _
      rw [wp_bind]
      apply wp_mono (wp_fetchMediaPlaylist settled)
      intro result next settled
      cases result with
      | error error => trivial
      | ok track =>
        cases both : (video.withAudio track).mapError manifestFailure with
        | error error =>
          change wp _ (pureResult _) _ _
          rw [both]
          trivial
        | ok plan =>
          change wp _ (pureResult _) _ _
          rw [both]
          exact settled

/-- Every manifest is planned against the URL it was asked from. -/
theorem wp_planExecution (request : RequestContext) :
    wp (spec PlannedAsAsked) (planExecution urls decimals request) Settled [] := by
  unfold planExecution
  rw [wp_bind]
  apply wp_mono (wp_openManifest rfl)
  intro result next asked
  cases result with
  | error error => trivial
  | ok manifest =>
    apply wp_pureResult_bind (fun _ => trivial)
    intro text
    split
    · apply wp_pureResult_bind (fun _ => trivial)
      intro mpd
      apply wp_planned_bind asked
      apply wp_pureResult_bind (fun _ => trivial)
      intro plan
      rfl
    · apply wp_pureResult_bind (fun _ => trivial)
      intro playlist
      apply wp_planned_bind asked
      apply wp_pureResult_bind (fun _ => trivial)
      intro outcome
      cases outcome with
      | ready plan => rfl
      | fetchVariant url label bandwidth total audio =>
        change wp _ (_ >>= _) _ _
        rw [wp_bind]
        apply wp_mono (wp_fetchVariant rfl)
        intro result next settled
        cases result with
        | error error => trivial
        | ok plan => exact settled

end

def sampleClientUrls : Http.UrlLibrary where
  join := sampleUrls.join
  scheme := sampleUrls.scheme
  path := sampleUrls.path
  host _ := some "host".toList
  username _ := []
  password _ := none
  sameOrigin a b := a = b

def askedUrl : Url := ⟨"https://site.example/watch".toList⟩

def deliveredUrl : Url := ⟨"https://cdn.example/vod/media.m3u8".toList⟩

/-- The site answers with a redirect to the playlist of a distribution network. -/
def redirectingTransport : Trace.Oracle PlanningOp PlanningOp.Answer
  | .exchange request, _ =>
      if request.url = askedUrl then
        .ok ⟨302, [("location".toList, deliveredUrl.serialization)], [], none⟩
      else .ok ⟨200, [], ["#EXTM3U\n#EXTINF:4,\nsegment.ts\n#EXT-X-ENDLIST\n".toList.map fun c =>
        UInt8.ofNat c.toNat], none⟩
  | .planned _, _ => ()

def watchedRun : Program PlanningOp PlanningOp.Answer
    (Except DownloadFailure (TrackPlan × Option Text)) × PlanningTrace :=
  Trace.play redirectingTransport
    (planExecution sampleClientUrls sampleDecimals ⟨askedUrl, [], none⟩).run 3

/-- The plan is one segment beside the page asked, and the playlist was delivered elsewhere. -/
def placedAsAsked : Program PlanningOp PlanningOp.Answer
    (Except DownloadFailure (TrackPlan × Option Text)) × PlanningTrace → Bool
  | (.done (.ok (plan, _)), ⟨.planned base, _⟩ :: older) =>
      decide (plan.resources.map (·.url) = [⟨"https://site.example/segment.ts".toList⟩]) &&
        decide (base = askedUrl) && decide (chain older = [deliveredUrl, askedUrl])
  | _ => false

end Gunda.Stream
