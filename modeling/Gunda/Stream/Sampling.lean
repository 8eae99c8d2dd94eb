import Gunda.Stream.Credentials

/-!
# The container of a download

`StreamExecutor::container`: what the sampled bytes of the first resource decide, for
every way its origin may answer.
-/
namespace Gunda.Stream

open Gunda.Lib
open Gunda.Core (RequestContext)
open Gunda.Http (HttpError)

/-- The blocks of a body that were handed out, and how the body ended. -/
abbrev Sample : Type := List Bytes × Except HttpError Unit

/-- Whether the resource begins inside a larger one. -/
def beginsInside (interval : Option (Nat × Nat)) : Prop := (interval.map (·.1)).getD 0 ≠ 0

instance (interval : Option (Nat × Nat)) : Decidable (beginsInside interval) :=
  inferInstanceAs (Decidable (_ ≠ _))

/-- The bytes that can be read of a sampled body. From within a larger resource the whole
sample has to arrive; elsewhere its front is enough. -/
def readable (interval : Option (Nat × Nat)) (sample : Sample) : Option Bytes :=
  if sample.2.isOk ∨ (¬ beginsInside interval ∧ sniffBytes ≤ sample.1.flatten.length) then
    some (sample.1.flatten.take sniffBytes)
  else none

/-- The part of the bytes that belongs to the interval they were read from the start of. -/
def ownPart : Option (Nat × Nat) → Bytes → Bytes
  | none, bytes => bytes
  | some (first, last), bytes => bytes.take (last + 1 - first)

/-- The container that the bytes of the resource itself and the plan's hint decide. -/
def decided (interval : Option (Nat × Nat)) (read : Option Bytes) (hint : Option Container) :
    Option Container :=
  match read with
  | some bytes => (sniff (ownPart interval bytes) (hint = some .m4a)).or hint
  | none => hint

/-- The container is the decided one, and is unknown only where the plan has no hint. -/
def Decides (interval : Option (Nat × Nat)) (read : Option Bytes) (hint chosen : Option Container) :
    Prop :=
  chosen = decided interval read hint ∧ (chosen = none → hint = none)

theorem decided_none {interval : Option (Nat × Nat)} {read : Option Bytes}
    {hint : Option Container} (unknown : decided interval read hint = none) : hint = none := by
  cases read with
  | none => exact unknown
  | some bytes =>
    unfold decided at unknown
    exact (Option.or_eq_none_iff.mp unknown).2

theorem decides_iff (interval : Option (Nat × Nat)) (read : Option Bytes)
    (hint : Option Container) :
    Decides interval read hint (read.bind (detect · hint)) ↔
      (read = none → hint = none) ∧
      ∀ bytes, read = some bytes → detect bytes hint = detect (ownPart interval bytes) hint := by
  cases read with
  | none =>
    constructor
    · intro decides
      exact ⟨fun _ => decides.2 rfl, nofun⟩
    · intro holds
      exact ⟨(holds.1 rfl).symm, fun _ => holds.1 rfl⟩
  | some bytes =>
    constructor
    · intro decides
      refine ⟨nofun, ?_⟩
      intro other same
      cases same
      exact decides.1
    · intro holds
      have same := holds.2 bytes rfl
      refine ⟨same, fun unknown => ?_⟩
      have same : decided interval (some bytes) hint = none := same.symm.trans unknown
      exact decided_none same

/-! ## Sampling -/

/-- The loop over the blocks reads what can be read of a body. -/
theorem collectHead_eq (ending : Except HttpError Unit) (head : Bytes) (blocks : List Bytes)
    (short : head.length < sniffBytes) :
    (collectHead ending head blocks).map (·.take sniffBytes) =
      if ending.isOk ∨ sniffBytes ≤ (head ++ blocks.flatten).length then
        some ((head ++ blocks.flatten).take sniffBytes)
      else none := by
  induction blocks generalizing head with
  | nil =>
    have unfilled : ¬ sniffBytes ≤ head.length := by omega
    cases ending <;> simp [collectHead, Except.toOption, Except.isOk, Except.toBool, unfilled]
  | cons block blocks ih =>
    unfold collectHead
    split
    · rename_i filled
      have all : sniffBytes ≤ (head ++ (block :: blocks).flatten).length := by
        simp only [List.flatten_cons, List.length_append] at filled ⊢
        omega
      rw [if_pos (.inr all), List.flatten_cons, ← List.append_assoc,
        List.take_append_of_le_length filled]
      rfl
    · rename_i unfilled
      rw [ih (head ++ block) (Nat.lt_of_not_le unfilled), List.flatten_cons, List.append_assoc]

section

variable (urls : Http.UrlLibrary)

/-- The body that the first resource is sampled from. -/
def openSample (segment : RequestContext) (interval : Option (Nat × Nat)) :
    Http.Client SegmentedOp SegmentedOp.Answer Sample :=
  if (interval.map (·.1)).getD 0 = 0 then do
    let (response, metadata) ← Http.openBody urls Segmented.send segment
    pure (Http.deliver metadata response.failure 0 response.chunks)
  else do
    let start := (interval.map (·.1)).getD 0
    let limit := min (start + (sniffBytes - 1)) maxU64
    let (response, metadata, _) ← Http.openByteRange urls Segmented.send segment start limit
    pure (Http.deliver metadata response.failure 0 response.chunks)

theorem readResourceHead_eq (segment : RequestContext) (interval : Option (Nat × Nat)) :
    readResourceHead urls segment interval = (fun sample =>
      if beginsInside interval then sample.2.toOption.map fun _ => sample.1.flatten
      else collectHead sample.2 [] sample.1) <$> openSample urls segment interval := by
  unfold readResourceHead openSample beginsInside
  split
  · rename_i outside
    simp only [map_bind, map_pure, outside, ne_eq, not_true_eq_false, if_false]
  · rename_i inside
    simp only [map_bind, map_pure, inside, ne_eq, not_false_eq_true, if_true]

theorem readable_eq (interval : Option (Nat × Nat)) (sample : Sample) :
    ((if beginsInside interval then sample.2.toOption.map fun _ => sample.1.flatten
      else collectHead sample.2 [] sample.1).map (·.take sniffBytes)) = readable interval sample := by
  unfold readable
  split
  · rename_i inside
    cases sample.2 <;> simp [Except.toOption, Except.isOk, Except.toBool, inside]
  · rename_i outside
    rw [collectHead_eq sample.2 [] sample.1 (by decide)]
    simp [outside]

variable {σ : Type} (answers : (op : SegmentedOp) → σ → op.Answer × σ)

/-- The bytes of the first resource that its origin lets the executor read. -/
def sampled (request : RequestContext) (plan : TrackPlan) (s : σ) : Option Bytes :=
  plan.resources.head?.bind fun first =>
    let segment := segmentRequest urls first.url request.url request.headers
    (Fallible.eval answers (openSample urls segment first.byteInterval) s).1.toOption.bind
      (readable first.byteInterval)

theorem readHead_eval (request : RequestContext) (plan : TrackPlan) (s : σ) :
    (Program.eval answers (readHead urls request plan) s).1 = sampled urls answers request plan s := by
  unfold readHead sampled
  cases plan.resources with
  | nil => rfl
  | cons first rest =>
    rw [Program.eval_bind, Program.eval_pure, readResourceHead_eq, ExceptT.run_map,
      map_eq_pure_bind, Program.eval_bind, Program.eval_pure]
    change (Except.map _ (Fallible.eval answers (openSample urls _ _) s).1).toOption.join.map _ =
      (Fallible.eval answers (openSample urls _ _) s).1.toOption.bind _
    cases (Fallible.eval answers (openSample urls _ first.byteInterval) s).1 with
    | error error => rfl
    | ok sample => exact readable_eq first.byteInterval sample

theorem container_eval (decimals : Decimals) (request : RequestContext) (plan : TrackPlan) (s : σ) :
    (Program.eval answers
      (carryOutPrepare urls decimals detect (.container request plan)) s).1 =
      (sampled urls answers request plan s).bind (detect · plan.containerHint) := by
  rw [← readHead_eval]
  change (Program.eval answers (_ <$> readHead urls request plan) s).1 = _
  rw [map_eq_pure_bind, Program.eval_bind, Program.eval_pure]

/-- The container is chosen as the resource's own bytes and the hint decide exactly where
an unreadable sample leaves no hint to fall back to, and where the bytes behind the
resource's interval change nothing. -/
theorem container_decided_iff (decimals : Decimals) (request : RequestContext) (plan : TrackPlan)
    (s : σ) :
    Decides (plan.resources.head?.bind (·.byteInterval)) (sampled urls answers request plan s)
        plan.containerHint (Program.eval answers
          (carryOutPrepare urls decimals detect (.container request plan)) s).1 ↔
      (sampled urls answers request plan s = none → plan.containerHint = none) ∧
      ∀ bytes, sampled urls answers request plan s = some bytes →
        detect bytes plan.containerHint =
          detect (ownPart (plan.resources.head?.bind (·.byteInterval)) bytes) plan.containerHint := by
  rw [container_eval]
  exact decides_iff ..

end

/-! ## An origin that refuses -/

/-- A plan whose manifest says what its segments hold. -/
def hintedPlan : TrackPlan where
  kind := .hls
  resources := [⟨⟨"https://cdn.example/segment.ts".toList⟩, none, 0⟩]
  durationMillis := none
  label := none
  bandwidth := none
  declaredTotalBytes := none
  containerHint := some .ts

/-- Nothing is found on the origin. -/
def refusing : (op : SegmentedOp) → Unit → op.Answer × Unit
  | .exchange _, _ => (.ok ⟨404, [], [], none⟩, ())
  | op, _ => (awayMedia op [], ())

/-- The hint is not fallen back to. -/
theorem unreadable_resource_forgets_hint :
    sampled siteUrls refusing ⟨homePlaylist, [], none⟩ hintedPlan () = none ∧
    (Program.eval refusing (carryOutPrepare siteUrls sampleDecimals detect
      (.container ⟨homePlaylist, [], none⟩ hintedPlan)) ()).1 = none ∧
    ¬ Decides none (sampled siteUrls refusing ⟨homePlaylist, [], none⟩ hintedPlan ())
      hintedPlan.containerHint (Program.eval refusing (carryOutPrepare siteUrls sampleDecimals detect
        (.container ⟨homePlaylist, [], none⟩ hintedPlan)) ()).1 := by
  have unread : sampled siteUrls refusing ⟨homePlaylist, [], none⟩ hintedPlan () = none := by
    decide +kernel
  refine ⟨unread, ?_, ?_⟩
  · rw [container_eval, unread]
    rfl
  · rw [container_eval, unread]
    intro decides
    have forgotten : hintedPlan.containerHint = none := decides.2 rfl
    cases forgotten

end Gunda.Stream
