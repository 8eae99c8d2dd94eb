import Gunda.Stream.Exchanges

/-!
# Headers of a segmented download

Every request of a segmented download is made by the client, for the manifest's own
URL or for one that `segment_request` is given. So the headers of the caller stay at
the origin of the manifest, whatever the manifests and the redirects name.
-/
namespace Gunda.Stream

open Gunda.Lib
open Fallible (Asks)
open Gunda.Core (Url RequestContext RequestHeader DownloadFailure ExecutionInput)
open Gunda.Http (HttpError Exchange Response SameOrigin Fetchable ComparesOrigins
  CarriesCallerHeaders)

/-- Headers of the caller are for the manifest's origin. -/
def Confined (urls : Http.UrlLibrary) (port : Url → Nat) (manifest : Url)
    (request : RequestContext) : Prop :=
  Fetchable urls request.url → request.headers ≠ [] → SameOrigin urls port request.url manifest

/-- Headers of the caller are sent to the manifest's origin only. -/
def KeptHome (urls : Http.UrlLibrary) (port : Url → Nat) (manifest : Url) : SegmentedOp → Prop
  | .exchange request =>
      CarriesCallerHeaders request.headers → SameOrigin urls port request.url manifest
  | _ => True

/-- What planning may ask for. -/
def PlansHome (urls : Http.UrlLibrary) (port : Url → Nat) (manifest : Url) : PlanningOp → Prop
  | .exchange request =>
      CarriesCallerHeaders request.headers → SameOrigin urls port request.url manifest
  | .planned _ => True

/-- What preparation may ask for. -/
def PreparesHome (urls : Http.UrlLibrary) (port : Url → Nat) (manifest : Url) : PrepareOp → Prop
  | .plan request | .container request _ => request.url = manifest
  | .inspect request | .openByteRange request _ _ | .openMetadata request =>
      Confined urls port manifest request
  | _ => True

/-- What a transfer may ask for. -/
def FetchesHome (urls : Http.UrlLibrary) (port : Url → Nat) (manifest : Url) : TransferOp → Prop
  | .openBody request _ => Confined urls port manifest request
  | _ => True

/-- A hop with headers of the caller is at the manifest's origin. -/
def HopHome (urls : Http.UrlLibrary) (port : Url → Nat) (manifest : Url) (_ : Nat) (url : Url)
    (headers : Http.HeaderMap) (_ : Unit) : Prop :=
  Fetchable urls url ∧ (CarriesCallerHeaders headers → SameOrigin urls port url manifest)

section

variable {urls : Http.UrlLibrary} {port : Url → Nat} {manifest : Url}

theorem confined_segmentRequest (compares : ComparesOrigins urls port)
    (home : Fetchable urls manifest) (url : Url) (headers : List RequestHeader) :
    Confined urls port manifest (segmentRequest urls url manifest headers) := by
  intro fetchable carried
  unfold segmentRequest at carried
  split at carried
  · rename_i same
    exact (compares url manifest fetchable home).mp same
  · exact absurd rfl carried

theorem confined_manifest {request : RequestContext} (asked : request.url = manifest) :
    Confined urls port manifest request := by
  intro _ _
  rw [asked]
  exact .refl manifest

/-! ## Exchanges -/

section Exchanges

variable {Op : Type} {Ans : Op → Type} {allowed : Op → Prop}
  {send : Exchange → Program Op Ans (Except HttpError Response)} {request : RequestContext}

theorem hopHome_begins (confined : Confined urls port manifest request) :
    Http.Begins urls (HopHome urls port manifest) request () :=
  fun _ fetchable carries => ⟨fetchable, fun held => confined fetchable (carries held)⟩

variable (compares : ComparesOrigins urls port)
  (sent : ∀ request : Exchange,
    (CarriesCallerHeaders request.headers → SameOrigin urls port request.url manifest) →
    Program.Asks allowed (send request))
include compares sent

/-- An exchange that is allowed when it keeps the headers home. -/
theorem hopHome_handsOn :
    Http.HandsOn urls ⟨fun op (_ : Unit) => allowed op, fun _ _ _ _ => True⟩ send
      (HopHome urls port manifest) := by
  intro method hops url headers _ at_home
  apply Program.wp_mono (sent ⟨method, url, headers⟩ at_home.2)
  intro answer _ _ response later next _ _ target
  have onward := (Http.redirectTarget_ok target).1
  refine ⟨onward, fun carries => ?_⟩
  obtain ⟨carried, same⟩ := Http.carried_to_next compares at_home.1 onward carries
  obtain ⟨scheme, host, port⟩ := at_home.2 carried
  exact ⟨same.scheme.symm.trans scheme, same.host.symm.trans host, same.port.symm.trans port⟩

theorem openBody_asks (confined : Confined urls port manifest request) :
    Asks allowed (Http.openBody urls send request) :=
  Http.wp_openBody (hopHome_handsOn compares sent) (hopHome_begins confined)

theorem openByteRange_asks (confined : Confined urls port manifest request) {first last : Nat} :
    Asks allowed (Http.openByteRange urls send request first last) :=
  Http.wp_openByteRange (hopHome_handsOn compares sent) (hopHome_begins confined)

end Exchanges

/-! ## Planning -/

section Planning

variable {decimals : Decimals} {request : RequestContext}

theorem exchange_asks (request : Exchange)
    (home : CarriesCallerHeaders request.headers → SameOrigin urls port request.url manifest) :
    Program.Asks (PlansHome urls port manifest) (exchange request) := by
  apply Program.Asks.perform
  exact home

theorem planned_asks (base : Url) :
    Asks (PlansHome urls port manifest) (planned base) := by
  apply Asks.perform
  trivial

section

variable (compares : ComparesOrigins urls port)
include compares

theorem openManifest_asks (confined : Confined urls port manifest request) :
    Asks (PlansHome urls port manifest) (openManifest urls request) := by
  apply Asks.bind
  · exact (openBody_asks compares exchange_asks confined).adapt
  · intro opened
    exact (Asks.result _).bind fun _ => trivial

theorem fetchMediaPlaylist_asks (home : Fetchable urls manifest) (url : Url) (track : Nat)
    (bandwidth declaredTotal : Option Nat) :
    Asks (PlansHome urls port manifest)
      (fetchMediaPlaylist urls decimals url manifest request track bandwidth declaredTotal) := by
  have confined := confined_segmentRequest compares home url request.headers
  apply (openManifest_asks compares confined).bind
  intro manifest
  apply (Asks.result _).bind
  intro text
  apply (Asks.result _).bind
  intro playlist
  apply (planned_asks url).bind
  intro _
  apply (Asks.result _).bind
  intro outcome
  cases outcome <;> trivial

theorem fetchVariant_asks (home : Fetchable urls manifest)
    (url : Url) (bandwidth declaredTotal : Option Nat) (audio : Option Url) :
    Asks (PlansHome urls port manifest)
      (fetchVariant urls decimals url manifest request bandwidth declaredTotal audio) := by
  apply (fetchMediaPlaylist_asks compares home url 0 bandwidth declaredTotal).bind
  intro video
  cases audio with
  | none => trivial
  | some audio =>
    apply (fetchMediaPlaylist_asks compares home audio 1 none none).bind
    intro track
    exact .result _

theorem planExecution_asks (home : Fetchable urls request.url) :
    Asks (PlansHome urls port request.url) (planExecution urls decimals request) := by
  apply (openManifest_asks compares (confined_manifest rfl)).bind
  intro manifest
  apply (Asks.result _).bind
  intro text
  split
  · apply (Asks.result _).bind
    intro mpd
    apply (planned_asks request.url).bind
    intro _
    exact (Asks.result _).bind fun plan => trivial
  · apply (Asks.result _).bind
    intro playlist
    apply (planned_asks request.url).bind
    intro _
    apply (Asks.result _).bind
    intro outcome
    cases outcome with
    | ready plan => trivial
    | fetchVariant url label bandwidth total audio =>
      exact (fetchVariant_asks compares home url bandwidth total audio).bind fun plan => trivial

end

end Planning

/-! ## Preparation -/

section Preparation

variable {request : RequestContext}

theorem prepare_perform_asks {allowed : PrepareOp → Prop} {α : Type} {op : PrepareOp}
    {next : op.Answer → Preparing α} (h : allowed op)
    (later : ∀ answer, Asks allowed (next answer)) :
    Asks allowed (Prepare.perform op >>= next) := (Asks.perform h).bind later

theorem prepare_attempt_asks {allowed : PrepareOp → Prop} {ε α : Type}
    {failure : ε → DownloadFailure} {result : Except ε α} :
    Asks allowed (Prepare.attempt failure result) := by
  cases result <;> trivial

theorem resourceLength_asks (confined : Confined urls port manifest request) :
    Asks (PreparesHome urls port manifest) (resourceLength request) := by
  apply prepare_perform_asks
  · exact confined
  · intro inspected
    split
    · trivial
    · apply prepare_perform_asks
      · exact confined
      · intro ranged
        cases ranged with
        | ok total => trivial
        | error error =>
          apply prepare_perform_asks
          · exact confined
          · intro opened
            trivial

theorem measureResources_asks (compares : ComparesOrigins urls port)
    (home : Fetchable urls request.url) (resources : List StreamResource) (total : Nat) :
    Asks (PreparesHome urls port request.url)
      (measureResources urls request resources total) := by
  induction resources generalizing total with
  | nil => trivial
  | cons resource rest ih =>
    have length : Asks (PreparesHome urls port request.url)
        (lengthOf urls request resource) := by
      unfold lengthOf
      split
      · trivial
      · exact resourceLength_asks (confined_segmentRequest compares home _ _)
    apply length.bind
    intro found
    cases found with
    | none => trivial
    | some length =>
      dsimp only
      split
      · trivial
      · exact ih _

theorem measure_asks (compares : ComparesOrigins urls port) (home : Fetchable urls request.url)
    (plan : TrackPlan) :
    Asks (PreparesHome urls port request.url) (measure urls request plan) := by
  unfold measure
  split
  · trivial
  · split
    · trivial
    · exact measureResources_asks compares home _ _

theorem loadState_asks (fingerprint : PlanFingerprint) (plan : TrackPlan) :
    Asks (PreparesHome urls port manifest) (loadState fingerprint plan) := by
  apply prepare_perform_asks
  · trivial
  · intro answer
    apply prepare_attempt_asks.bind
    intro found
    cases found with
    | none =>
      apply prepare_perform_asks
      · trivial
      · intro answer
        exact prepare_attempt_asks
    | some state =>
      dsimp only
      split
      · trivial
      · split <;> trivial

theorem acceptTotal_asks (saved total : Option Nat) (estimated : Bool) (state : StreamResumeState) :
    Asks (PreparesHome urls port manifest) (acceptTotal saved total estimated state) := by
  unfold acceptTotal
  split
  · trivial
  · split <;> trivial

theorem prepare_asks (compares : ComparesOrigins urls port) (identity : UrlIdentity)
    (stored : Bool) (input : ExecutionInput) (home : Fetchable urls input.request.url) :
    Asks (PreparesHome urls port input.request.url)
      (prepare urls identity stored input) := by
  apply prepare_perform_asks
  · rfl
  · intro answer
    apply prepare_attempt_asks.bind
    intro planned
    apply prepare_perform_asks
    · rfl
    · intro container
      apply (measure_asks compares home _).bind
      intro measured
      apply prepare_perform_asks
      · trivial
      · intro answer
        apply prepare_attempt_asks.bind
        intro destination
        cases stored with
        | false => trivial
        | true =>
          apply Asks.bind
          · apply Asks.map
            apply (loadState_asks _ _).bind
            intro state
            exact (acceptTotal_asks _ _ _ _).bind fun _ => trivial
          · intro resume
            trivial

end Preparation

/-! ## Transfer -/

section Transfers

variable {path : StagingPath} {headers : List RequestHeader} {resume : Option StreamResumeState}
variable {α : Type} {allowed : TransferOp → Prop}

theorem attempt_asks {ε : Type} {failure : ε → DownloadFailure} {result : Except ε α} :
    Asks allowed (attempt failure result) := by
  cases result <;> trivial

theorem perform_bind_asks {op : TransferOp} {next : op.Answer → Transfer α} (h : allowed op)
    (later : ∀ answer, Asks allowed (next answer)) :
    Asks allowed (perform op >>= next) := (Asks.perform h).bind later

/-- An operation whose error ends the transfer. -/
theorem attempted_asks {ε : Type} {op : TransferOp} {failure : ε → DownloadFailure}
    (answers : op.Answer = Except ε α) (h : allowed op) :
    Asks allowed (do attempt failure (cast answers (← perform op))) :=
  perform_bind_asks h fun _ => attempt_asks

theorem createTrack_asks : Asks (FetchesHome urls port manifest) (createTrack path) :=
  attempted_asks rfl trivial

theorem setTrackLen_asks (bytes : Nat) :
    Asks (FetchesHome urls port manifest) (setTrackLen path bytes) :=
  attempted_asks rfl trivial

theorem seekTrackEnd_asks : Asks (FetchesHome urls port manifest) (seekTrackEnd path) :=
  attempted_asks rfl trivial

theorem flushTrack_asks : Asks (FetchesHome urls port manifest) (flushTrack path) :=
  attempted_asks rfl trivial

theorem syncTrack_asks : Asks (FetchesHome urls port manifest) (syncTrack path) :=
  attempted_asks rfl trivial

theorem continueTrack_asks (durableBytes : Nat) :
    Asks (FetchesHome urls port manifest) (continueTrack path durableBytes) := by
  apply perform_bind_asks
  · trivial
  · intro opened
    apply attempt_asks.bind
    intro _
    apply perform_bind_asks
    · trivial
    · intro measured
      apply attempt_asks.bind
      intro length
      dsimp only
      split
      · trivial
      · split
        · exact (setTrackLen_asks _).bind fun _ => seekTrackEnd_asks
        · exact seekTrackEnd_asks

theorem openTrack_asks (durableBytes : Nat) (resuming : Bool) :
    Asks (FetchesHome urls port manifest) (openTrack path durableBytes resuming) := by
  unfold openTrack
  split
  · exact createTrack_asks
  · apply perform_bind_asks
    · trivial
    · intro found
      split
      · exact continueTrack_asks durableBytes
      · trivial
      · split
        · exact createTrack_asks
        · trivial
      · trivial

theorem checkpointTrack_asks (track : Nat) (checkpoint : TrackCheckpoint) :
    Asks (FetchesHome urls port manifest)
      (checkpointTrack path resume track checkpoint) := by
  apply flushTrack_asks.bind
  intro _
  apply syncTrack_asks.bind
  intro _
  cases resume with
  | none => trivial
  | some state =>
    apply Asks.map
    unfold saveTrack
    split
    · trivial
    · apply perform_bind_asks
      · trivial
      · intro saved
        apply attempt_asks.bind
        intro persisted
        split <;> trivial

theorem abandonResource_asks (track : Nat) (cursor : TrackCursor) :
    Asks (FetchesHome urls port manifest) (abandonResource path track cursor) := by
  have truncated : Asks (FetchesHome urls port manifest)
      (truncateTrack path cursor.written) :=
    flushTrack_asks.bind fun _ => (setTrackLen_asks _).bind fun _ => seekTrackEnd_asks
  exact truncated.bind fun _ => checkpointTrack_asks _ _

theorem checkedAdd_asks (a b : Nat) :
    Asks allowed (checkedAdd a b) := by
  unfold checkedAdd
  split <;> trivial

theorem appendBody_asks (base : Nat) (failure : Option HttpError) (chunks : List Bytes)
    (written : Nat) :
    Asks (FetchesHome urls port manifest) (appendBody path base failure chunks written) := by
  induction chunks generalizing written with
  | nil =>
    apply perform_bind_asks
    · trivial
    · intro stopped
      cases stopped <;> trivial
  | cons chunk rest ih =>
    apply perform_bind_asks
    · trivial
    · intro stopped
      cases stopped with
      | true => trivial
      | false =>
        apply perform_bind_asks
        · trivial
        · intro answer
          cases answer with
          | error error => trivial
          | ok _ =>
            apply (checkedAdd_asks _ _).bind
            intro written
            apply (checkedAdd_asks _ _).bind
            intro reported
            apply perform_bind_asks
            · trivial
            · intro _
              exact ih written

section

variable (compares : ComparesOrigins urls port)
include compares

theorem openResource_asks (home : Fetchable urls manifest) (resource : StreamResource) :
    Asks (FetchesHome urls port manifest)
      (openResource urls manifest headers resource) := by
  apply perform_bind_asks
  · exact confined_segmentRequest compares home _ _
  · intro opened
    exact attempt_asks

omit compares in
theorem checkpointDue_asks (resourceCount : Nat) (cursor : TrackCursor) :
    Asks (FetchesHome urls port manifest) (checkpointDue resourceCount cursor) := by
  unfold checkpointDue
  split
  · trivial
  · apply Asks.perform
    trivial

theorem writeResources_asks (home : Fetchable urls manifest) (track base resourceCount : Nat)
    (resources : List StreamResource) (cursor : TrackCursor) :
    Asks (FetchesHome urls port manifest)
      (writeResources urls manifest headers track path base resourceCount resources cursor) := by
  induction resources generalizing cursor with
  | nil => exact (checkpointTrack_asks _ _).bind fun _ => trivial
  | cons resource rest ih =>
    apply perform_bind_asks
    · trivial
    · intro requested
      cases requested with
      | true => exact (checkpointTrack_asks _ _).bind fun _ => trivial
      | false =>
        apply (openResource_asks compares home resource).bind
        intro body
        apply (appendBody_asks _ _ _ _).bind
        intro ended
        cases ended with
        | stopped => exact (abandonResource_asks _ _).bind fun _ => trivial
        | failed failure => exact (abandonResource_asks _ _).bind fun _ => trivial
        | complete written =>
          apply (checkpointDue_asks _ _).bind
          intro due
          cases due with
          | true => exact (checkpointTrack_asks _ _).bind fun _ => ih _
          | false => exact ih _

theorem writeTrack_asks (home : Fetchable urls manifest) (plan : TrackPlan) (track base : Nat) :
    Asks (FetchesHome urls port manifest)
      (writeTrack urls manifest headers plan track path base resume) := by
  unfold writeTrack
  dsimp only
  split
  · trivial
  · exact (openTrack_asks _ _).bind fun _ => writeResources_asks compares home _ _ _ _ _

omit compares in
theorem removeStagingFile_asks :
    Asks (FetchesHome urls port manifest) (removeStagingFile path) := by
  apply perform_bind_asks
  · trivial
  · intro found
    split
    · apply Asks.perform
      trivial
    · trivial
    · trivial
    · trivial

omit compares in
theorem cleanupStaging_asks (paths : List StagingPath) (stored : Bool) :
    Asks (FetchesHome urls port manifest) (cleanupStaging paths stored) := by
  apply Asks.bind
  · apply Asks.forM
    intro path
    exact removeStagingFile_asks.bind fun _ => trivial
  · intro _
    cases stored with
    | false => trivial
    | true =>
      apply perform_bind_asks
      · trivial
      · intro _
        trivial

omit compares in
theorem discardingOnFailure_asks {prepared : PreparedTracks} {paths : List StagingPath}
    {track : Transfer α} (h : Asks (FetchesHome urls port manifest) track) :
    Asks (FetchesHome urls port manifest) (discardingOnFailure prepared paths track) := by
  apply h.handle
  intro failure
  split
  · exact (cleanupStaging_asks _ _).bind fun _ => trivial
  · trivial

omit compares in
theorem stopTransfer_asks (prepared : PreparedTracks) (paths : List StagingPath) (written : Nat) :
    Asks (FetchesHome urls port manifest) (stopTransfer prepared paths written) := by
  apply perform_bind_asks
  · trivial
  · intro kind
    split
    · exact (cleanupStaging_asks _ _).bind fun _ => trivial
    · trivial

theorem writeTracks_asks (home : Fetchable urls manifest)
    (prepared : PreparedTracks) (paths : List StagingPath) (tracks : List (StagingPath × Nat))
    (written : Nat) :
    Asks (FetchesHome urls port manifest)
      (writeTracks urls manifest headers prepared paths tracks written resume) := by
  induction tracks generalizing written resume with
  | nil => trivial
  | cons track rest ih =>
    apply (discardingOnFailure_asks (writeTrack_asks compares home _ _ _)).bind
    intro result
    apply (checkedAdd_asks _ _).bind
    intro written
    split
    · trivial
    · exact ih written

theorem transferControlled_asks (home : Fetchable urls manifest) (prepared : PreparedTracks) :
    Asks (FetchesHome urls port manifest)
      (transferControlled urls manifest headers prepared) := by
  unfold transferControlled
  split
  · apply (writeTracks_asks compares home _ _ _ _).bind
    intro result
    split
    · exact stopTransfer_asks _ _ _
    · split
      · apply perform_bind_asks
        · trivial
        · intro combined
          exact attempt_asks.bind fun _ => trivial
      · trivial
  · apply (discardingOnFailure_asks (writeTrack_asks compares home _ _ _)).bind
    intro result
    split
    · exact stopTransfer_asks _ _ _
    · trivial

end

end Transfers

/-! ## One attempt -/

section Attempt

variable {decimals : Decimals}

theorem send_asks (request : Exchange)
    (home : CarriesCallerHeaders request.headers → SameOrigin urls port request.url manifest) :
    Program.Asks (KeptHome urls port manifest) (Segmented.send request) := by
  apply Program.Asks.perform
  exact home

theorem carryOutPlanning_asks (op : PlanningOp) (home : PlansHome urls port manifest op) :
    Program.Asks (KeptHome urls port manifest) (Segmented.carryOutPlanning op) := by
  cases op with
  | exchange request => exact send_asks request home
  | planned base => trivial

section

variable (compares : ComparesOrigins urls port)
include compares

theorem readHead_asks {request : RequestContext}
    (home : Fetchable urls request.url) (plan : TrackPlan) :
    Program.Asks (KeptHome urls port request.url) (readHead urls request plan) := by
  unfold readHead
  split
  · trivial
  · rename_i first rest planned
    have confined := confined_segmentRequest compares home first.url request.headers
    apply Program.Asks.bind
    · change Asks _ (readResourceHead _ _ _)
      unfold readResourceHead
      split
      · exact (openBody_asks compares send_asks confined).bind fun _ => trivial
      · exact (openByteRange_asks compares send_asks confined).bind fun _ => trivial
    · intro head
      trivial

theorem carryOutPrepare_asks
    (detect : Bytes → Option Container → Option Container) (home : Fetchable urls manifest)
    (op : PrepareOp) (prepares : PreparesHome urls port manifest op) :
    Program.Asks (KeptHome urls port manifest) (carryOutPrepare urls decimals detect op) := by
  cases op with
  | plan request =>
    subst prepares
    exact Program.asks_interpret _ carryOutPlanning_asks (planExecution_asks compares home)
  | container request plan =>
    subst prepares
    exact (readHead_asks compares home plan).map
  | inspect request =>
    exact Http.wp_inspect (hopHome_handsOn compares send_asks) (hopHome_begins prepares)
  | openByteRange request first last =>
    exact (openByteRange_asks compares send_asks prepares).map
  | openMetadata request => exact (openBody_asks compares send_asks prepares).map
  | planDestination url destination container => exact .perform trivial
  | findState => exact .perform trivial
  | initializeState fingerprint trackCount => exact .perform trivial

theorem carryOutTransfer_asks (op : TransferOp) (fetches : FetchesHome urls port manifest op) :
    Program.Asks (KeptHome urls port manifest) (carryOutTransfer urls op) := by
  cases op with
  | openBody request interval =>
    change Asks _ (openSegment _ _ _)
    cases interval with
    | none => exact (openBody_asks compares send_asks fetches).bind fun _ => trivial
    | some interval =>
      exact (openByteRange_asks compares send_asks fetches).map.bind fun _ => trivial
  | _ => exact .perform trivial

omit compares in
/-- A manifest that cannot be fetched ends the attempt before anything is sent. -/
theorem segmentedAttempt_refused {detect : Bytes → Option Container → Option Container}
    {identity : UrlIdentity} {stored : Bool} {input : ExecutionInput} {error : HttpError}
    (refused : Http.validateUrl urls input.request.url = .error error) :
    segmentedAttempt urls decimals detect identity stored input = throw (httpFailure error) := by
  have unplanned : (planExecution urls decimals input.request).run =
      pure (.error (httpFailure error)) := by
    unfold planExecution openManifest Http.openBody
    rw [refused]
    rfl
  unfold segmentedAttempt
  have unprepared : (prepare urls identity stored input).run.interpret
      (carryOutPrepare urls decimals detect) = pure (.error (httpFailure error)) := by
    change ((planExecution urls decimals input.request).run.interpret
      Segmented.carryOutPlanning).bind _ = _
    rw [unplanned]
    rfl
  rw [unprepared]
  rfl

theorem segmentedAttempt_asks
    (detect : Bytes → Option Container → Option Container) (identity : UrlIdentity)
    (stored : Bool) (input : ExecutionInput) :
    Asks (KeptHome urls port input.request.url)
      (segmentedAttempt urls decimals detect identity stored input) := by
  cases valid : Http.validateUrl urls input.request.url with
  | error error =>
    rw [segmentedAttempt_refused valid]
    trivial
  | ok _ =>
    have home := Http.validateUrl_ok valid
    apply Asks.bind
    · exact Program.asks_interpret _ (carryOutPrepare_asks compares detect home)
        (prepare_asks compares identity stored input home)
    · intro prepared
      exact Program.asks_interpret _ (carryOutTransfer_asks compares)
        (transferControlled_asks compares home prepared.tracks)

end

end Attempt

end

/-- Every hop of every request carries headers of the caller only while the origin has
never changed, does not leave https and follows at most ten redirects; and every
exchange of a segmented download carries them to the manifest's origin only. -/
theorem credentials_stay_with_origin (urls : Http.UrlLibrary) (port : Url → Nat)
    (compares : ComparesOrigins urls port) :
    (∀ request asking (answers : Trace.Oracle Exchange Http.Reply) n,
      Trace.Keeps (Http.Careful urls port)
        (Trace.play answers (Http.ask urls Program.perform request asking).run n).2) ∧
    ∀ decimals detect identity stored input
      (answers : Trace.Oracle SegmentedOp SegmentedOp.Answer) n,
      Trace.Keeps (fun op _ => KeptHome urls port input.request.url op)
        (Trace.play answers
          (segmentedAttempt urls decimals detect identity stored input).run n).2 := by
  constructor
  · intro request asking answers n
    exact Http.careful_hops compares request asking answers n
  · intro decimals detect identity stored input answers n
    exact Trace.keeps_of_asks (segmentedAttempt_asks compares detect identity stored input) answers n

/-! ## A redirect there and back -/

/-- URLs that name no port, and references that are URLs. -/
def siteUrls : Http.UrlLibrary where
  join _ reference := some ⟨reference⟩
  scheme url := url.serialization.takeWhile (· ≠ ':')
  path url := ((url.serialization.dropWhile (· ≠ ':')).drop 3).dropWhile (· ≠ '/')
  host url := some (((url.serialization.dropWhile (· ≠ ':')).drop 3).takeWhile (· ≠ '/'))
  username _ := []
  password _ := none
  sameOrigin a b := a.serialization.takeWhile (· ≠ ':') = b.serialization.takeWhile (· ≠ ':') ∧
    ((a.serialization.dropWhile (· ≠ ':')).drop 3).takeWhile (· ≠ '/') =
      ((b.serialization.dropWhile (· ≠ ':')).drop 3).takeWhile (· ≠ '/')

def sitePort (url : Url) : Nat := if siteUrls.scheme url = "https".toList then 443 else 80

theorem siteUrls_compare : ComparesOrigins siteUrls sitePort := by
  intro a b _ _
  change decide _ = true ↔ _
  rw [decide_eq_true_iff]
  constructor
  · intro same
    refine ⟨same.1, congrArg some same.2, ?_⟩
    unfold sitePort
    rw [show siteUrls.scheme a = siteUrls.scheme b from same.1]
  · intro same
    exact ⟨same.scheme, Option.some.inj same.host⟩

def siteIdentity : UrlIdentity :=
  ⟨siteUrls.scheme, siteUrls.host, fun _ => none, siteUrls.path, fun _ => []⟩

def homePlaylist : Url := ⟨"https://home/list".toList⟩

def awaySegment : Url := ⟨"https://away/1.ts".toList⟩

def siteRequest : RequestContext := ⟨homePlaylist, [⟨"Cookie", "id=1", .sensitive⟩], none⟩

/-- Home redirects away at first, away redirects home, and home answers last. -/
def thereAndBack : Trace.Oracle Exchange Http.Reply
  | request, older =>
      if older.length = 2 then .ok ⟨200, [], [], none⟩
      else .ok ⟨302, [("location".toList,
        (if request.url = homePlaylist then awaySegment else homePlaylist).serialization)], [], none⟩

/-- Home serves a playlist of one segment, which is away. -/
def awayMedia : Trace.Oracle SegmentedOp SegmentedOp.Answer
  | .exchange request, _ =>
      if request.url = homePlaylist then
        .ok ⟨200, [], ["#EXTM3U\n#EXTINF:4,\nhttps://away/1.ts\n#EXT-X-ENDLIST\n".toList.map fun c =>
          UInt8.ofNat c.toNat], none⟩
      else .ok ⟨200, [], [], none⟩
  | .prepare op, _ => match op with
    | .plan _ | .planDestination .. => .error notTextual
    | .container .. => none
    | .inspect _ | .openByteRange .. | .openMetadata _ => .error .transport
    | .findState | .initializeState .. => .error .internal
  | .transfer op, _ => match op with
    | .isRequested | .stopped _ | .checkpointElapsed => false
    | .requestKind => none
    | .openBody .. => .error .transport
    | .report _ => ()
    | .saveState _ | .clearState => .error .internal
    | .muxMp4 .. => .error .tooLarge
    | .fileType _ | .createNew _ | .openExisting _ | .length _ | .setLen .. | .seekEnd _
    | .write .. | .flush _ | .syncAll _ | .removeFile _ => .error .other

/-- The exchanges of a run, newest first, and whether they carry headers of the caller. -/
def sentHeaders : SegmentedOp → Option (Url × Bool)
  | .exchange request => some (request.url, decide (CarriesCallerHeaders request.headers))
  | _ => none

def siteInput : ExecutionInput where
  id := ⟨1, Int.one_pos⟩
  request := siteRequest
  destination := ⟨"/downloads", none, .rename⟩
  progress := ⟨0, none, fun _ _ => Nat.zero_le _⟩
  resource := none
  resolvedDestination := none

def redirectedTrace : Trace Exchange Http.Reply :=
  (Trace.play thereAndBack (Http.ask siteUrls Program.perform siteRequest .openBody).run 3).2

def awayTrace : Trace SegmentedOp SegmentedOp.Answer :=
  (Trace.play awayMedia
    (segmentedAttempt siteUrls sampleDecimals (fun _ hint => hint) siteIdentity true siteInput).run
    2).2

/-- The cookie is sent to its origin until the first redirect away, and never to the
origin of a segment. -/
theorem cookie_stays_home :
    (redirectedTrace.map fun event => (event.op.url, decide (CarriesCallerHeaders event.op.headers))) =
      [(homePlaylist, false), (awaySegment, false), (homePlaylist, true)] ∧
    awayTrace.map (fun event => sentHeaders event.op) =
      [some (awaySegment, false), some (homePlaylist, true)] ∧
    Trace.Keeps (Http.Careful siteUrls sitePort) redirectedTrace ∧
    Trace.Keeps (fun op _ => KeptHome siteUrls sitePort siteRequest.url op) awayTrace := by
  have stays := credentials_stay_with_origin siteUrls sitePort siteUrls_compare
  refine ⟨by decide +kernel, by decide +kernel, ?_, ?_⟩
  · exact stays.1 siteRequest .openBody thereAndBack 3
  · exact stays.2 sampleDecimals (fun _ hint => hint) siteIdentity true siteInput awayMedia 2

end Gunda.Stream
