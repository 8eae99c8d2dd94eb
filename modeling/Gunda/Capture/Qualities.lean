import Gunda.Capture.Gathered

/-!
# The best quality

The variants of a presentation are merged by URL and ordered, and without a manifest the
largest one is its URL. What comes after as many URLs as are kept is not looked at, and of
two values for one field the later one stands.
-/
namespace Gunda.Capture

open Gunda.Lib Gunda.Lib.Text
open Gunda.Core (Url)
open Gunda.Gundad (UrlCrate ParsedUrl PageUrls)

section

variable {urls : UrlCrate}
variable {β : Type} {a b : MediaVariant urls} {variants : List (MediaVariant urls)}

/-- No variant is found once as many URLs as are kept have been. -/
def Roomy (offered : List (MediaVariant urls)) : Prop :=
  ∀ before variant after, offered = before ++ variant :: after →
    (before.map fun one => one.url).dedup.length < MAX_VARIANTS

def sameUrl (url : ParsedUrl urls) (offered : List (MediaVariant urls)) :
    List (MediaVariant urls) := offered.filter (·.url = url)

/-- What the last variant to give a field says. -/
def lastGiven {β : Type} (field : MediaVariant urls → Option β)
    (variants : List (MediaVariant urls)) : Option β := variants.reverse.findSome? field

/-- What all variants of one URL say together. -/
structure Merged (offered : List (MediaVariant urls)) (variant : MediaVariant urls) : Prop where
  found : sameUrl variant.url offered ≠ []
  contentType : variant.contentType = lastGiven (·.contentType) (sameUrl variant.url offered)
  width : variant.width = lastGiven (·.width) (sameUrl variant.url offered)
  height : variant.height = lastGiven (·.height) (sameUrl variant.url offered)
  bitrate : variant.bitrate = lastGiven (·.bitrate) (sameUrl variant.url offered)
  size : variant.size = lastGiven (·.size) (sameUrl variant.url offered)
  codecs : variant.codecs = lastGiven (·.codecs) (sameUrl variant.url offered)
  named : variant.named = lastGiven (·.named) (sameUrl variant.url offered)
  rank : variant.rank = ((sameUrl variant.url offered).map (·.rank)).foldl max 0

/-- Two variants of one URL do not contradict each other. -/
structure Agree (a b : MediaVariant urls) : Prop where
  contentType : ∀ x ∈ a.contentType, ∀ y ∈ b.contentType, x = y
  width : ∀ x ∈ a.width, ∀ y ∈ b.width, x = y
  height : ∀ x ∈ a.height, ∀ y ∈ b.height, x = y
  bitrate : ∀ x ∈ a.bitrate, ∀ y ∈ b.bitrate, x = y
  size : ∀ x ∈ a.size, ∀ y ∈ b.size, x = y
  codecs : ∀ x ∈ a.codecs, ∀ y ∈ b.codecs, x = y
  named : ∀ x ∈ a.named, ∀ y ∈ b.named, x = y

def Consistent (offered : List (MediaVariant urls)) : Prop :=
  ∀ a ∈ offered, ∀ b ∈ offered, a.url = b.url → Agree a b

/-! ## Merging -/

variable {offered others : List (MediaVariant urls)} {m : MediaVariant urls}

theorem lastGiven_cons (field : MediaVariant urls → Option β) (first : MediaVariant urls)
    (rest : List (MediaVariant urls)) :
    lastGiven field (first :: rest) = (lastGiven field rest).or (field first) := by
  unfold lastGiven
  rw [List.reverse_cons, List.findSome?_append, List.findSome?_singleton]

theorem field_foldl (field : MediaVariant urls → Option β)
    (merges : ∀ a b, field (enrich a b) = (field b).or (field a)) (first : MediaVariant urls)
    (rest : List (MediaVariant urls)) :
    field (rest.foldl enrich first) = lastGiven field (first :: rest) := by
  induction rest generalizing first with
  | nil =>
    rw [lastGiven_cons]
    rfl
  | cons next rest ih =>
    rw [List.foldl_cons, ih, lastGiven_cons, lastGiven_cons, lastGiven_cons, merges, Option.or_assoc]

theorem rank_foldl (first : MediaVariant urls) (rest : List (MediaVariant urls)) :
    (rest.foldl enrich first).rank = ((first :: rest).map (·.rank)).foldl max 0 := by
  have general : ∀ (low : Nat) (first : MediaVariant urls), max low (rest.foldl enrich first).rank =
      ((first :: rest).map (·.rank)).foldl max low := by
    induction rest with
    | nil => exact fun _ _ => rfl
    | cons next rest ih =>
      intro low first
      rw [List.foldl_cons, ih, List.map_cons, List.map_cons, List.map_cons, List.foldl_cons,
        List.foldl_cons, List.foldl_cons, Nat.max_assoc]
      rfl
  rw [← general, Nat.zero_max]

theorem variant_ext (url : a.url = b.url) (contentType : a.contentType = b.contentType)
    (width : a.width = b.width) (height : a.height = b.height) (bitrate : a.bitrate = b.bitrate)
    (size : a.size = b.size) (codecs : a.codecs = b.codecs) (named : a.named = b.named)
    (rank : a.rank = b.rank) : a = b := by
  obtain ⟨⟨_, _, _, _, _, _⟩, _, _, _, _⟩ := a
  obtain ⟨⟨_, _, _, _, _, _⟩, _, _, _, _⟩ := b
  subst url contentType width height bitrate size codecs named rank
  rfl

theorem Merged.unique {other : MediaVariant urls} (merged : Merged offered m)
    (again : Merged offered other) (same : m.url = other.url) : m = other := by
  have again_ := again
  obtain ⟨_, contentType, width, height, bitrate, size, codecs, named, rank⟩ := merged
  obtain ⟨_, contentType', width', height', bitrate', size', codecs', named', rank'⟩ := again
  rw [← same] at contentType' width' height' bitrate' size' codecs' named' rank'
  exact variant_ext same (contentType.trans contentType'.symm) (width.trans width'.symm)
    (height.trans height'.symm) (bitrate.trans bitrate'.symm) (size.trans size'.symm)
    (codecs.trans codecs'.symm) (named.trans named'.symm) (rank.trans rank'.symm)

theorem merged_foldl {first : MediaVariant urls} {rest : List (MediaVariant urls)}
    (group : sameUrl first.url offered = first :: rest) : Merged offered (rest.foldl enrich first) := by
  have url : (rest.foldl enrich first).url = first.url :=
    @Gathering.foldl_key _ _ (variantGathering urls) rest first
  rw [← url] at group
  refine ⟨?_, ?_, ?_, ?_, ?_, ?_, ?_, ?_, ?_⟩ <;> rw [group]
  · exact List.cons_ne_nil _ _
  · exact field_foldl (·.contentType) (fun _ _ => rfl) first rest
  · exact field_foldl (·.width) (fun _ _ => rfl) first rest
  · exact field_foldl (·.height) (fun _ _ => rfl) first rest
  · exact field_foldl (·.bitrate) (fun _ _ => rfl) first rest
  · exact field_foldl (·.size) (fun _ _ => rfl) first rest
  · exact field_foldl (·.codecs) (fun _ _ => rfl) first rest
  · exact field_foldl (·.named) (fun _ _ => rfl) first rest
  · exact rank_foldl first rest

/-- What is kept of the variants found is what those of each URL say together. -/
theorem merged_iff : Merged offered m ↔ (variantGathering urls).merged m.url offered = some m := by
  unfold Gathering.merged
  cases group : (variantGathering urls).group m.url offered with
  | nil =>
    constructor
    · exact fun merged => absurd group merged.found
    · exact fun none_ => nomatch none_
  | cons first rest =>
    have member : first ∈ (variantGathering urls).group m.url offered := by
      rw [group]
      exact List.mem_cons_self
    have url : first.url = m.url := of_decide_eq_true (List.mem_filter.mp member).2
    have folded : Merged offered (rest.foldl enrich first) := by
      apply merged_foldl
      rw [url]
      exact group
    have same : (rest.foldl enrich first).url = m.url :=
      (@Gathering.foldl_key _ _ (variantGathering urls) rest first).trans url
    constructor
    · intro merged
      exact congrArg some (folded.unique merged same)
    · intro made
      rw [← Option.some.inj made]
      exact folded

/-! ## The order in which variants are found -/

variable {field : MediaVariant urls → Option β}

theorem mem_of_lastGiven {x : β} (h : lastGiven field variants = some x) :
    ∃ one ∈ variants, x ∈ field one := by
  obtain ⟨one, member, given⟩ := List.exists_of_findSome?_eq_some h
  exact ⟨one, List.mem_reverse.mp member, given⟩

theorem lastGiven_none :
    lastGiven field variants = none ↔ ∀ one ∈ variants, field one = none := by
  unfold lastGiven
  rw [List.findSome?_eq_none_iff]
  constructor
  · exact fun none_ one member => none_ one (List.mem_reverse.mpr member)
  · exact fun none_ one member => none_ one (List.mem_reverse.mp member)

theorem lastGiven_perm {other : List (MediaVariant urls)} (perm : variants.Perm other)
    (agree : ∀ a ∈ variants, ∀ b ∈ variants, ∀ x ∈ field a, ∀ y ∈ field b, x = y) :
    lastGiven field variants = lastGiven field other := by
  cases left_ : lastGiven field variants with
  | none =>
    have none_ := lastGiven_none.mp left_
    exact (lastGiven_none.mpr fun one member => none_ one (perm.mem_iff.mpr member)).symm
  | some x =>
    obtain ⟨a, inside, given⟩ := mem_of_lastGiven left_
    cases right_ : lastGiven field other with
    | none =>
      have none_ := lastGiven_none.mp right_ a (perm.mem_iff.mp inside)
      rw [none_] at given
      cases given
    | some y =>
      obtain ⟨b, inside', given'⟩ := mem_of_lastGiven right_
      rw [agree a inside b (perm.mem_iff.mpr inside') x given y given']

theorem Merged.perm (perm : offered.Perm others) (consistent : Consistent offered)
    (merged : Merged offered m) : Merged others m := by
  have group : (sameUrl m.url offered).Perm (sameUrl m.url others) := perm.filter _
  have agree : ∀ a ∈ sameUrl m.url offered, ∀ b ∈ sameUrl m.url offered, Agree a b := by
    intro a inside b inside'
    obtain ⟨member, url⟩ := List.mem_filter.mp inside
    obtain ⟨member', url'⟩ := List.mem_filter.mp inside'
    exact consistent a member b member'
      ((of_decide_eq_true url).trans (of_decide_eq_true url').symm)
  refine ⟨?_, ?_, ?_, ?_, ?_, ?_, ?_, ?_, ?_⟩
  · intro empty
    rw [empty, List.perm_nil] at group
    exact merged.found group
  · rw [merged.contentType, lastGiven_perm group fun a i b j => (agree a i b j).contentType]
  · rw [merged.width, lastGiven_perm group fun a i b j => (agree a i b j).width]
  · rw [merged.height, lastGiven_perm group fun a i b j => (agree a i b j).height]
  · rw [merged.bitrate, lastGiven_perm group fun a i b j => (agree a i b j).bitrate]
  · rw [merged.size, lastGiven_perm group fun a i b j => (agree a i b j).size]
  · rw [merged.codecs, lastGiven_perm group fun a i b j => (agree a i b j).codecs]
  · rw [merged.named, lastGiven_perm group fun a i b j => (agree a i b j).named]
  · rw [merged.rank]
    have ranks : ((sameUrl m.url offered).map (·.rank)).Perm ((sameUrl m.url others).map (·.rank)) :=
      group.map _
    exact ranks.foldl_eq 0

theorem agree_refl (one : MediaVariant urls) : Agree one one := by
  constructor <;> exact fun x given y given' => Option.some.inj (given.symm.trans given')

/-- Variants of different URLs do not contradict each other. -/
theorem consistent_of_nodup (distinct : (offered.map fun one => one.url).Nodup) :
    Consistent offered := by
  intro a member b member' same
  rw [List.inj_on_of_nodup_map distinct member member' same]
  exact agree_refl b

theorem roomy_of_length (few : offered.length ≤ MAX_VARIANTS) : Roomy offered := by
  intro before variant after split
  have shorter := (List.dedup_sublist (before.map fun one => one.url)).length_le
  rw [split, List.length_append, List.length_cons] at few
  rw [List.length_map] at shorter
  omega

theorem Consistent.perm (perm : offered.Perm others) (consistent : Consistent offered) :
    Consistent others := by
  intro a member b member'
  exact consistent a (perm.mem_iff.mpr member) b (perm.mem_iff.mpr member')

/-! ## Ordering -/

theorem url_ext {a b : ParsedUrl urls} (same : a.1.serialization = b.1.serialization) : a = b := by
  apply Subtype.ext
  obtain ⟨⟨_⟩, _⟩ := a
  obtain ⟨⟨_⟩, _⟩ := b
  exact congrArg Url.mk same

theorem precedes_total (a b : MediaVariant urls) : Precedes a b ∨ Precedes b a := by
  rcases lt_trichotomy (quality a) (quality b) with less | same | more
  · exact .inr (.inl less)
  · rcases le_total a.url.1.serialization b.url.1.serialization with first | second
    · exact .inl (.inr ⟨same, first⟩)
    · exact .inr (.inr ⟨same.symm, second⟩)
  · exact .inl (.inl more)

theorem precedes_trans {c : MediaVariant urls} (ab : Precedes a b) (bc : Precedes b c) :
    Precedes a c := by
  rcases ab with ab | ⟨ab, first⟩
  · rcases bc with bc | ⟨bc, _⟩
    · exact .inl (lt_trans bc ab)
    · rw [bc] at ab
      exact .inl ab
  · rcases bc with bc | ⟨bc, second⟩
    · rw [← ab] at bc
      exact .inl bc
    · exact .inr ⟨ab.trans bc, le_trans first second⟩

theorem precedes_url (ab : Precedes a b) (ba : Precedes b a) :
    a.url = b.url := by
  rcases ab with ab | ⟨same, first⟩
  · rcases ba with ba | ⟨ba, _⟩
    · exact absurd ba (lt_asymm ab)
    · rw [ba] at ab
      exact absurd ab (lt_irrefl _)
  · rcases ba with ba | ⟨_, second⟩
    · rw [same] at ba
      exact absurd ba (lt_irrefl _)
    · exact url_ext (le_antisymm first second)

instance : @Std.Total (MediaVariant urls) Precedes := ⟨precedes_total⟩

instance : IsTrans (MediaVariant urls) Precedes := ⟨fun _ _ _ => precedes_trans⟩

theorem pairwise_sorted (variants : List (MediaVariant urls)) :
    (variants.insertionSort Precedes).Pairwise Precedes := List.pairwise_insertionSort _ _

end

/-! ## The presentations of a document -/

variable {pages : PageUrls}

/-- What a presentation says of the variants found for it. -/
structure Walk.Best (walk : Walk pages) (values : List Json) (key : Option Text)
    (presentation : Presentation pages.crate) : Prop where
  few : presentation.variants.length ≤ MAX_VARIANTS
  distinct : (presentation.variants.map fun variant => variant.url).Nodup
  ordered : walk.manifest values key = none → presentation.variants.Pairwise Precedes
  merged : Roomy (walk.offered values key) → ∀ variant,
    variant ∈ presentation.variants ↔ Merged (walk.offered values key) variant
  largest : walk.manifest values key = none → Roomy (walk.offered values key) →
    ∃ best, Merged (walk.offered values key) best ∧ presentation.url = best.url ∧
      ∀ variant, Merged (walk.offered values key) variant → Precedes best variant

namespace Walk

variable {walk : Walk pages} {values : List Json} {key : Option Text}
  {presentation : Presentation pages.crate}

theorem finish_ordered (finished : (walk.builder values key).finish = some presentation)
    (bare : walk.manifest values key = none) :
    presentation.variants.Pairwise Precedes ∧
      ∃ best, presentation.variants.head? = some best ∧ presentation.url = best.url := by
  rw [← builder_manifest] at bare
  unfold PresentationBuilder.finish at finished
  rw [bare] at finished
  obtain ⟨best, first, same⟩ := Option.map_eq_some_iff.mp finished
  rw [← same]
  exact ⟨pairwise_sorted _, best, first, rfl⟩

theorem best_of_finish (finished : (walk.builder values key).finish = some presentation) :
    walk.Best values key presentation := by
  have perm := finish_variants finished
  have merged : Roomy (walk.offered values key) → ∀ variant,
      variant ∈ presentation.variants ↔ Merged (walk.offered values key) variant := by
    intro room variant
    rw [perm.mem_iff, merged_iff]
    exact Gathering.mem_all room
  refine ⟨?_, ?_, fun bare => (finish_ordered finished bare).1, merged, ?_⟩
  · rw [perm.length_eq]
    exact Gathering.all_length _
  · have urls : (presentation.variants.map fun variant => variant.url).Perm
        (((variantGathering pages.crate).all (walk.offered values key)).map
          (variantGathering pages.crate).key) := perm.map _
    exact urls.nodup_iff.mpr (Gathering.all_nodup _)
  · intro bare room
    obtain ⟨sorted, best, first, url⟩ := finish_ordered finished bare
    obtain ⟨rest, listed⟩ := List.head?_eq_some_iff.mp first
    have member : best ∈ presentation.variants := List.mem_of_head? first
    refine ⟨best, (merged room best).mp member, url, ?_⟩
    intro variant found
    have inside := (merged room variant).mpr found
    rw [listed] at sorted inside
    rcases List.mem_cons.mp inside with same | later
    · rw [same]
      exact (precedes_total best best).elim id id
    · exact (List.pairwise_cons.mp sorted).1 variant later

theorem Best.nodup (best : walk.Best values key presentation) : presentation.variants.Nodup :=
  best.distinct.of_map

/-- The order in which the same variants are found makes no difference. -/
theorem Best.same {walk' : Walk pages} {values' : List Json} {key' : Option Text}
    {presentation' : Presentation pages.crate} (best : walk.Best values key presentation)
    (best' : walk'.Best values' key' presentation')
    (perm : (walk.offered values key).Perm (walk'.offered values' key'))
    (consistent : Consistent (walk.offered values key))
    (room : Roomy (walk.offered values key)) (room' : Roomy (walk'.offered values' key'))
    (bare : walk.manifest values key = none) (bare' : walk'.manifest values' key' = none) :
    presentation.variants = presentation'.variants ∧ presentation.url = presentation'.url := by
  have members : ∀ variant, variant ∈ presentation.variants ↔ variant ∈ presentation'.variants := by
    intro variant
    rw [best.merged room, best'.merged room']
    exact ⟨Merged.perm perm consistent, Merged.perm perm.symm (consistent.perm perm)⟩
  have alike : presentation.variants.Perm presentation'.variants :=
    (List.perm_ext_iff_of_nodup best.nodup best'.nodup).mpr members
  refine ⟨alike.eq_of_pairwise ?_ (best.ordered bare) (best'.ordered bare'), ?_⟩
  · intro a b inside inside' ab ba
    exact ((best.merged room a).mp inside).unique
      ((best.merged room b).mp ((members b).mpr inside')) (precedes_url ab ba)
  · obtain ⟨first, found, url, least⟩ := best.largest bare room
    obtain ⟨first', found', url', least'⟩ := best'.largest bare' room'
    rw [url, url']
    exact precedes_url (least first' (found'.perm perm.symm (consistent.perm perm)))
      (least' first (found.perm perm consistent))

end Walk

/-- Each presentation is the best of what is found for its key, whatever the order in which
that is found. -/
theorem best_quality :
    (∀ (pageUrl sourceUrl : Url) (document : Json) (presentations : List (Presentation pages.crate)),
      extract pages pageUrl sourceUrl document = .ok presentations →
        presentations.length ≤ MAX_PRESENTATIONS ∧ ∀ presentation ∈ presentations,
          ∃ walk key, Walk.of pages pageUrl sourceUrl = some walk ∧
            walk.Found (walk.traversed document) key ∧
            walk.Best (walk.traversed document) key presentation) ∧
    (∀ (walk walk' : Walk pages) (values values' : List Json) (key key' : Option Text)
      (presentation presentation' : Presentation pages.crate),
      walk.Best values key presentation → walk'.Best values' key' presentation' →
        (walk.offered values key).Perm (walk'.offered values' key') →
        Consistent (walk.offered values key) →
        Roomy (walk.offered values key) → Roomy (walk'.offered values' key') →
        walk.manifest values key = none → walk'.manifest values' key' = none →
        presentation.variants = presentation'.variants ∧ presentation.url = presentation'.url) := by
  constructor
  · intro pageUrl sourceUrl document presentations extracted
    obtain ⟨walk, walks, few, members⟩ := extract_ok extracted
    refine ⟨few, ?_⟩
    intro presentation member
    obtain ⟨key, found, finished⟩ := (members presentation).mp member
    exact ⟨walk, key, walks, found, Walk.best_of_finish finished⟩
  · intro walk walk' values values' key key' presentation presentation' best best' perm consistent
      room room' bare bare'
    exact best.same best' perm consistent room room' bare bare'

/-! ## Two sources of a player -/

/-- One source of a player; its name is a letter. -/
def letterSource (letter : Char) (area : List (Text × Json)) : Json :=
  .object (("url".toList, .string ("https://cdn.example/".toList ++ [letter])) :: area)

def square (side : UInt64) : List (Text × Json) :=
  [("height".toList, .number (.unsigned side)), ("width".toList, .number (.unsigned side))]

def player (sources : List Json) : Json :=
  .object [("id".toList, .string ['1']), ("sources".toList, .array sources)]

def watchPage : Url := ⟨"https://cdn.example/watch".toList⟩

def watchWalk : Walk Gundad.cdnPages := ⟨.generic, watchPage⟩

/-- Two mentions of one player, with a source each. -/
def twoSources (first second : Json) : Json := .array [player [first], player [second]]

def smallFirst : Json := twoSources (letterSource 'a' (square 1)) (letterSource 'b' (square 2))

def largeFirst : Json := twoSources (letterSource 'b' (square 2)) (letterSource 'a' (square 1))

def playerKey : Option Text := some "id:1".toList

theorem either_order_best :
    (∃ presentations, extract Gundad.cdnPages watchPage watchPage smallFirst = .ok presentations ∧
      presentations.length ≤ MAX_PRESENTATIONS) ∧
    ∃ one other,
      (watchWalk.builder (watchWalk.traversed smallFirst) playerKey).finish = some one ∧
      (watchWalk.builder (watchWalk.traversed largeFirst) playerKey).finish = some other ∧
      one.variants = other.variants ∧ one.url = other.url := by
  constructor
  · have counted : (extract Gundad.cdnPages watchPage watchPage smallFirst).map List.length =
        .ok 1 := by decide +kernel
    obtain ⟨presentations, extracted, _⟩ := map_ok counted
    exact ⟨presentations, extracted, (best_quality.1 _ _ _ _ extracted).1⟩
  · have made : (watchWalk.builder (watchWalk.traversed smallFirst) playerKey).finish.isSome = true := by
      decide +kernel
    have made' : (watchWalk.builder (watchWalk.traversed largeFirst) playerKey).finish.isSome =
        true := by decide +kernel
    obtain ⟨one, finished⟩ := Option.isSome_iff_exists.mp made
    obtain ⟨other, finished'⟩ := Option.isSome_iff_exists.mp made'
    refine ⟨one, other, finished, finished', ?_⟩
    refine best_quality.2 watchWalk watchWalk _ _ playerKey playerKey one other
      (Walk.best_of_finish finished) (Walk.best_of_finish finished') ?_ ?_ ?_ ?_ ?_ ?_
    · decide +kernel
    · exact consistent_of_nodup (by decide +kernel)
    · exact roomy_of_length (by decide +kernel)
    · exact roomy_of_length (by decide +kernel)
    · decide +kernel
    · decide +kernel

/-! ## More variants than are kept, and two that contradict each other -/

/-- The 25th source is the only one of a known size. -/
def crowdedPlayer : Json :=
  player ("abcdefghijklmnopqrstuvwx".toList.map (letterSource · []) ++ [letterSource 'y' (square 2)])

def twoSizes (first second : UInt64) : Json :=
  twoSources (letterSource 'a' (square first)) (letterSource 'a' (square second))

def areas (document : Json) : Except Refusal (List (Text × List Nat)) :=
  (extract Gundad.cdnPages watchPage watchPage document).map fun presentations =>
    presentations.map fun presentation =>
      (presentation.url.1.serialization, presentation.variants.map variantArea)

/-- The largest variant found is not kept, and a variant has the size it is given last. -/
theorem largest_not_kept :
    4 ∈ (watchWalk.offered (watchWalk.traversed crowdedPlayer) playerKey).map variantArea ∧
      areas crowdedPlayer = .ok [("https://cdn.example/a".toList, List.replicate 24 0)] ∧
      areas (twoSizes 1 2) = .ok [("https://cdn.example/a".toList, [1])] ∧
      areas (twoSizes 2 1) = .ok [("https://cdn.example/a".toList, [4])] := by
  refine ⟨?_, ?_, ?_, ?_⟩ <;> decide +kernel

end Gunda.Capture
