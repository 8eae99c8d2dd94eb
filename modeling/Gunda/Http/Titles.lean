import Gunda.Http.Names

/-!
# Names from page titles

`title_filename` of `gunda-http/src/destination.rs`. Slices are by byte offsets, and one that is
not at a boundary between characters panics: there is no result then.
-/
namespace Gunda.Http

open Gunda.Lib Gunda.Lib.Text

variable {text front stem rest title : Text} {c : Char}

/-! ## The title -/

def titleSuffixes : List Text :=
  [" - youtube music", " | youtube music", " - youtube", " | youtube", " - google drive",
    " | google drive"].map String.toList

def stripCounter (title : Text) : Option Text :=
  match stripPrefix ['('] title with
  | none => some title
  | some rest => match findWhere (· = ')') rest with
      | none => some title
      | some stop =>
          if 3 < stop then some title
          else (sliceTo rest stop).bind fun counter =>
            if counter.all Char.isDigit then (sliceFrom rest (stop + 1)).map trimStart
            else some title

def stripSource (title : Text) : Option Text :=
  match titleSuffixes.find? (·.isSuffixOf (toAsciiLowercase title)) with
  | some suffix => (sliceTo title (byteLength title - byteLength suffix)).map trimEnd
  | none => some title

def stripPageTitleAnnotations (title : Text) : Option Text := (stripCounter title).bind stripSource

/-! ## The name -/

/-- What cannot stand in a name becomes a space. -/
def replaced (c : Char) : Char := if isControl c || isForbidden c then ' ' else c

/-- Every run of whitespace becomes one space. -/
def collapsed (previousSpace : Bool) : Text → Text
  | [] => []
  | c :: rest =>
      if isWhitespace (replaced c) then
        if previousSpace then collapsed true rest else ' ' :: collapsed true rest
      else replaced c :: collapsed false rest

def isOuter (c : Char) : Bool := c = ' ' || c = '.'

def trimOuter (text : Text) : Text := (text.dropWhile isOuter).rdropWhile isOuter

/-- The title as a name shows it. -/
def cleaned (title : Text) : Text := trimOuter (collapsed false title)

def isCharBoundary (text : Text) (index : Nat) : Bool := (sliceTo text index).isSome

/-- The last boundary that is not behind an offset. -/
def boundaryBelow (text : Text) : Nat → Nat
  | 0 => 0
  | stop + 1 => if isCharBoundary text (stop + 1) then stop + 1 else boundaryBelow text stop

def isUsable (extension : Text) : Bool :=
  extension ≠ [] && byteLength extension ≤ 10 && extension.all Char.isAlphanum

def withExtension (stem : Text) : Option Text → Text
  | some extension => stem ++ '.' :: extension
  | none => stem

def validated (name : Text) : Option String :=
  if (validateFilename (String.ofList name)).isOk then some (String.ofList name) else none

def titleFilename (title : Text) (extension : Option Text) : Option (Option String) := do
  let title ← stripPageTitleAnnotations (trim title)
  let stem := cleaned title
  if stem = [] then return none
  let front ← sliceTo stem (boundaryBelow stem (min (byteLength stem) 160))
  let stem := trimOuter front
  if stem = [] then return none
  let extension := extension.filter isUsable
  match validated (withExtension stem extension) with
  | some name => return some name
  | none => return validated (withExtension ("download ".toList ++ stem) extension)

example : titleFilename "(12) Arcane - Remember Me | YouTube".toList (some "mp4".toList) =
    some (some "Arcane - Remember Me.mp4") := by decide

/-! ## No slice panics -/

theorem toLower_utf8Size (c : Char) : c.toLower.utf8Size = c.utf8Size := by
  by_cases upper : c.val ≥ 'A'.val ∧ c.val ≤ 'Z'.val
  · have low : 65 ≤ c.val.toNat := UInt32.le_iff_toNat_le.mp upper.1
    have high : c.val.toNat ≤ 90 := UInt32.le_iff_toNat_le.mp upper.2
    have ascii : c.toNat < 128 := by
      change c.val.toNat < 128
      omega
    have lower : c.toLower.toNat < 128 := by
      unfold Char.toLower
      rw [dif_pos upper]
      change (c.val + 32).toNat < 128
      rw [UInt32.toNat_add]
      change (c.val.toNat + 32) % 4294967296 < 128
      omega
    rw [utf8Size_of_ascii ascii, utf8Size_of_ascii lower]
  · unfold Char.toLower
    rw [dif_neg upper]

theorem byteLength_toAsciiLowercase (text : Text) :
    byteLength (toAsciiLowercase text) = byteLength text := by
  induction text with
  | nil => rfl
  | cons c text ih =>
    change byteLength (c.toLower :: toAsciiLowercase text) = _
    rw [byteLength_cons, byteLength_cons, ih, toLower_utf8Size]

theorem stripCounter_some (title : Text) : ∃ stripped, stripCounter title = some stripped := by
  unfold stripCounter
  split
  · exact ⟨title, rfl⟩
  · rename_i rest _
    split
    · exact ⟨title, rfl⟩
    · rename_i stop found
      split
      · exact ⟨title, rfl⟩
      · rw [findWhere_splitOnce] at found
        obtain ⟨parts, split_, same⟩ := Option.map_eq_some_iff.mp found
        obtain ⟨whole, -⟩ := splitOnce_eq_some split_
        rw [whole, ← same, sliceTo_append, Option.bind_some,
          sliceFrom_behind _ _ (utf8Size_of_ascii (by decide))]
        split
        · exact ⟨_, rfl⟩
        · exact ⟨_, rfl⟩

theorem stripSource_some (title : Text) : ∃ stripped, stripSource title = some stripped := by
  unfold stripSource
  split
  · rename_i suffix found
    have ends := List.find?_some found
    obtain ⟨front, whole⟩ := List.isSuffixOf_iff_suffix.mp ends
    have cut : title.take front.length ++ title.drop front.length = title :=
      List.take_append_drop _ _
    have taken : toAsciiLowercase (title.take front.length) = front := by
      rw [toAsciiLowercase, List.map_take, ← toAsciiLowercase, ← whole, List.take_left]
    have dropped : toAsciiLowercase (title.drop front.length) = suffix := by
      rw [toAsciiLowercase, List.map_drop, ← toAsciiLowercase, ← whole, List.drop_left]
    have length : byteLength title - byteLength suffix = byteLength (title.take front.length) := by
      have total := congrArg byteLength cut
      rw [byteLength_append, ← byteLength_toAsciiLowercase (title.drop _), dropped] at total
      omega
    have sliced := sliceTo_append (title.take front.length) (title.drop front.length)
    rw [cut] at sliced
    rw [length, sliced]
    exact ⟨_, rfl⟩
  · exact ⟨title, rfl⟩

theorem stripPageTitleAnnotations_some (title : Text) :
    ∃ stripped, stripPageTitleAnnotations title = some stripped := by
  obtain ⟨uncounted, first⟩ := stripCounter_some title
  obtain ⟨stripped, second⟩ := stripSource_some uncounted
  exact ⟨stripped, by rw [stripPageTitleAnnotations, first, Option.bind_some, second]⟩

/-! ## Boundaries -/

/-- A slice is a front of the text that takes that many bytes. -/
theorem sliceTo_iff {stop : Nat} :
    sliceTo text stop = some front ↔ front <+: text ∧ byteLength front = stop := by
  constructor
  · intro h
    induction text generalizing front stop with
    | nil =>
      cases stop with
      | zero =>
        cases h
        exact ⟨List.nil_prefix, rfl⟩
      | succ stop => cases h
    | cons c text ih =>
      cases stop with
      | zero =>
        cases h
        exact ⟨List.nil_prefix, rfl⟩
      | succ stop =>
        unfold sliceTo at h
        split at h
        · rename_i fits
          obtain ⟨later, sliced, same⟩ := Option.map_eq_some_iff.mp h
          obtain ⟨leads, length⟩ := ih sliced
          rw [← same, byteLength_cons]
          exact ⟨List.cons_prefix_cons.mpr ⟨rfl, leads⟩, by omega⟩
        · cases h
  · intro h
    obtain ⟨⟨back, whole⟩, length⟩ := h
    rw [← whole, ← length]
    exact sliceTo_append front back

theorem isCharBoundary_iff {index : Nat} :
    isCharBoundary text index = true ↔ ∃ front, front <+: text ∧ byteLength front = index := by
  rw [isCharBoundary, Option.isSome_iff_exists]
  exact exists_congr fun front => sliceTo_iff

theorem boundaryBelow_isCharBoundary (text : Text) (stop : Nat) :
    isCharBoundary text (boundaryBelow text stop) = true := by
  induction stop with
  | zero =>
    rw [boundaryBelow, isCharBoundary_iff]
    exact ⟨[], List.nil_prefix, rfl⟩
  | succ stop ih =>
    unfold boundaryBelow
    split
    · assumption
    · exact ih

theorem boundaryBelow_le (text : Text) (stop : Nat) : boundaryBelow text stop ≤ stop := by
  induction stop with
  | zero => exact Nat.le_refl _
  | succ stop ih =>
    unfold boundaryBelow
    split
    · exact Nat.le_refl _
    · omega

theorem le_boundaryBelow {index stop : Nat} (boundary : isCharBoundary text index = true)
    (before : index ≤ stop) : index ≤ boundaryBelow text stop := by
  induction stop with
  | zero => exact before
  | succ stop ih =>
    unfold boundaryBelow
    split
    · exact before
    · rename_i none_
      cases Nat.eq_or_lt_of_le before with
      | inl same => exact absurd (same ▸ boundary) none_
      | inr less => exact ih (by omega)

/-! ## The cleaned title -/

theorem replaced_allowed (c : Char) :
    isControl (replaced c) = false ∧ isForbidden (replaced c) = false := by
  unfold replaced
  split
  · decide
  · rename_i allowed
    exact Bool.or_eq_false_iff.mp (Bool.not_eq_true _ ▸ allowed)

/-- What a collapsed text holds: single spaces, and the characters that are no whitespace. -/
theorem mem_collapsed {previousSpace : Bool} (member : c ∈ collapsed previousSpace text) :
    c = ' ' ∨ c ∈ text.map replaced ∧ isWhitespace c = false := by
  induction text generalizing previousSpace with
  | nil => cases member
  | cons d text ih =>
    have weaken {previous : Bool} (later : c ∈ collapsed previous text) :
        c = ' ' ∨ c ∈ (d :: text).map replaced ∧ isWhitespace c = false :=
      (ih later).imp_right fun found => ⟨.tail _ found.1, found.2⟩
    unfold collapsed at member
    split at member
    · split at member
      · exact weaken member
      · cases member with
        | head => exact .inl rfl
        | tail _ later => exact weaken later
    · rename_i solid
      cases member with
      | head => exact .inr ⟨.head _, Bool.not_eq_true _ ▸ solid⟩
      | tail _ later => exact weaken later

theorem mem_collapsed_of_solid (solid : isWhitespace c = false) (member : c ∈ text.map replaced)
    (previousSpace : Bool) : c ∈ collapsed previousSpace text := by
  induction text generalizing previousSpace with
  | nil => cases member
  | cons d text ih =>
    unfold collapsed
    rw [List.map_cons] at member
    cases member with
    | head =>
      rw [if_neg (by rw [solid]; exact Bool.false_ne_true)]
      exact .head _
    | tail _ later =>
      split
      · split
        · exact ih later true
        · exact .tail _ (ih later true)
      · exact .tail _ (ih later false)

theorem trimOuter_inside (text : Text) : trimOuter text <:+: text := by
  have front := List.rdropWhile_prefix isOuter (text.dropWhile isOuter)
  exact front.isInfix.trans (List.dropWhile_suffix _).isInfix

theorem head_dropWhile {α : Type} {kind : α → Bool} {list : List α} {c : α}
    (first : (list.dropWhile kind).head? = some c) : kind c = false := by
  have stopped := List.head?_dropWhile_not kind list
  rw [first] at stopped
  exact stopped

theorem trimOuter_eq_nil_iff : trimOuter text = [] ↔ ∀ c ∈ text, isOuter c = true := by
  unfold trimOuter
  rw [List.rdropWhile_eq_nil_iff]
  constructor
  · intro outer c member
    rw [← List.takeWhile_append_dropWhile (p := isOuter) (l := text)] at member
    cases List.mem_append.mp member with
    | inl front => exact List.mem_takeWhile_imp front
    | inr rest => exact outer c rest
  · intro outer c member
    exact outer c ((List.dropWhile_suffix _).subset member)

theorem trimOuter_head (first : (trimOuter text).head? = some c) :
    isOuter c = false := by
  obtain ⟨rest, whole⟩ := List.head?_eq_some_iff.mp first
  have front := List.rdropWhile_prefix isOuter (text.dropWhile isOuter)
  rw [show (text.dropWhile isOuter).rdropWhile isOuter = c :: rest from whole] at front
  obtain ⟨later, dropped⟩ := front
  have dropped_head : (text.dropWhile isOuter).head? = some c := by
    rw [← dropped]
    rfl
  exact head_dropWhile dropped_head

theorem trimOuter_last (last : (trimOuter text).getLast? = some c) :
    isOuter c = false := by
  unfold trimOuter List.rdropWhile at last
  rw [List.getLast?_reverse] at last
  exact head_dropWhile last

/-! ## Names of stems -/

/-- The characters of a stem can stand in a name, and it neither begins nor ends with a dot or a
space. -/
structure Stem (stem : Text) : Prop where
  filled : stem ≠ []
  plain : ∀ c ∈ stem, isControl c = false ∧ isForbidden c = false
  first : ∀ c ∈ stem.head?, isOuter c = false
  last : ∀ c ∈ stem.getLast?, isOuter c = false

theorem not_outer_ne (h : isOuter c = false) : c ≠ ' ' ∧ c ≠ '.' := by
  simpa [isOuter] using h

theorem isAlphanum_bounds (h : c.isAlphanum = true) :
    (48 ≤ c.toNat ∧ c.toNat ≤ 57) ∨ (65 ≤ c.toNat ∧ c.toNat ≤ 90) ∨
      (97 ≤ c.toNat ∧ c.toNat ≤ 122) := by
  unfold Char.isAlphanum Char.isAlpha Char.isUpper Char.isLower at h
  simp only [Bool.or_eq_true, Bool.and_eq_true, decide_eq_true_eq] at h
  obtain (upper | lower) | digit := h
  · exact .inr (.inl ⟨UInt32.le_iff_toNat_le.mp upper.1, UInt32.le_iff_toNat_le.mp upper.2⟩)
  · exact .inr (.inr ⟨UInt32.le_iff_toNat_le.mp lower.1, UInt32.le_iff_toNat_le.mp lower.2⟩)
  · exact .inl (isDigit_bounds digit)

theorem alphanum_allowed (h : c.isAlphanum = true) :
    (isControl c = false ∧ isForbidden c = false) ∧ isOuter c = false := by
  have bounds := isAlphanum_bounds h
  refine ⟨⟨?_, ?_⟩, ?_⟩
  · unfold isControl
    simp only [Bool.or_eq_false_iff, Bool.and_eq_false_iff, decide_eq_false_iff_not]
    omega
  · have none_ : ("<>:\"/\\|?*~".toList.all fun other => !other.isAlphanum) = true := by decide
    refine Bool.eq_false_iff.mpr fun forbidden => ?_
    have plain := List.all_eq_true.mp none_ c (List.contains_iff_mem.mp forbidden)
    rw [h] at plain
    cases plain
  · refine Bool.eq_false_iff.mpr fun outer => ?_
    have either : c = ' ' ∨ c = '.' := by simpa [isOuter] using outer
    cases either with
    | inl same =>
      rw [same] at h
      cases h
    | inr same =>
      rw [same] at h
      cases h

/-- The characters of an extension that is added can stand in a name, and it does not end it with
a dot or a space. -/
structure Suffix (extension : Text) : Prop where
  plain : ∀ c ∈ extension, isControl c = false ∧ isForbidden c = false
  last : ∃ c, extension.getLast? = some c ∧ isOuter c = false

theorem suffix_of_isUsable {extension : Text} (usable : isUsable extension = true) :
    Suffix extension ∧ byteLength extension ≤ 10 := by
  unfold isUsable at usable
  simp only [Bool.and_eq_true, decide_eq_true_eq, List.all_eq_true] at usable
  obtain ⟨⟨filled, short⟩, alphanum⟩ := usable
  refine ⟨⟨fun c member => (alphanum_allowed (alphanum c member)).1, _,
    List.getLast?_eq_some_getLast filled, ?_⟩, short⟩
  exact (alphanum_allowed (alphanum _ (List.getLast_mem filled))).2

/-- What a stem is followed by in its name. -/
structure Tail (rest : Text) : Prop where
  plain : ∀ c ∈ rest, isControl c = false ∧ isForbidden c = false
  last : ∀ c ∈ rest.getLast?, isOuter c = false

theorem tail_of_suffix {extension : Text} (h : Suffix extension) : Tail ('.' :: extension) where
  plain := List.forall_mem_cons.mpr ⟨by decide, h.plain⟩
  last := by
    obtain ⟨c, last, outer⟩ := h.last
    rw [List.getLast?_cons, last]
    intro d same
    cases same
    exact outer

theorem tail_nil : Tail [] := ⟨fun _ none => (nomatch none), fun _ none => (nomatch none)⟩

theorem Stem.ended (h : Stem stem) (tail : Tail rest) :
    (stem ++ rest).getLast? ≠ some ' ' ∧ (stem ++ rest).getLast? ≠ some '.' := by
  have outer : ∀ c ∈ (stem ++ rest).getLast?, isOuter c = false := by
    rw [List.getLast?_append]
    cases ending : rest.getLast? with
    | none => exact h.last
    | some c =>
      intro d same
      cases same
      exact tail.last c ending
  exact ⟨fun space => (not_outer_ne (outer ' ' space)).1 rfl,
    fun dot => (not_outer_ne (outer '.' dot)).2 rfl⟩

theorem Stem.allowed (h : Stem stem) (tail : Tail rest) :
    ∀ c ∈ stem ++ rest, isControl c = false ∧ isForbidden c = false := fun c member =>
  (List.mem_append.mp member).elim (h.plain c) (tail.plain c)

/-- A stem that names a device is told apart by a word in front of it. -/
theorem clean_fallback (h : Stem stem) (tail : Tail rest) :
    Clean ("download ".toList ++ (stem ++ rest)) := by
  have clean := @clean_download (' ' :: (stem ++ rest)) ?_
    (List.forall_mem_cons.mpr ⟨by decide, h.allowed tail⟩)
  · exact clean
  · have ended := h.ended tail
    have filled : stem ++ rest ≠ [] := List.append_ne_nil_of_left_ne_nil h.filled _
    rw [List.getLast?_cons]
    cases last : (stem ++ rest).getLast? with
    | none => exact absurd (List.getLast?_eq_none_iff.mp last) filled
    | some c =>
      rw [last] at ended
      exact ended

theorem validated_eq_some {name : Text} (clean : Clean name) (short : byteLength name ≤ 200) :
    validated name = some (String.ofList name) := by
  have valid : validateFilename (String.ofList name) = .ok () := by
    rw [validateFilename_ok_iff, String.toList_ofList]
    exact ⟨clean, short⟩
  rw [validated, valid]
  rfl

theorem validated_some {name : Text} {filename : String} (h : validated name = some filename) :
    validateFilename filename = .ok () ∧ filename.toList = name := by
  unfold validated at h
  split at h
  · rename_i valid
    cases h
    refine ⟨?_, String.toList_ofList⟩
    cases accepted : validateFilename (String.ofList name) with
    | error error =>
      rw [accepted] at valid
      cases valid
    | ok _ => rfl
  · cases h

/-- What a usable extension adds. -/
def extensionTail (extension : Option Text) : Text :=
  match extension.filter isUsable with
  | some extension => '.' :: extension
  | none => []

theorem withExtension_filter (stem : Text) (extension : Option Text) :
    withExtension stem (extension.filter isUsable) = stem ++ extensionTail extension := by
  unfold extensionTail
  cases extension.filter isUsable with
  | none => exact (List.append_nil stem).symm
  | some extension => rfl

theorem extensionTail_tail (extension : Option Text) :
    Tail (extensionTail extension) ∧ byteLength (extensionTail extension) ≤ 11 := by
  unfold extensionTail
  cases kept : extension.filter isUsable with
  | none => exact ⟨tail_nil, Nat.zero_le _⟩
  | some extension =>
    have usable := (Option.filter_eq_some_iff.mp kept).2
    obtain ⟨suffix, short⟩ := suffix_of_isUsable usable
    refine ⟨tail_of_suffix suffix, ?_⟩
    have dot : '.'.utf8Size = 1 := utf8Size_of_ascii (by decide)
    rw [byteLength_cons, dot]
    omega

/-- A short stem always gives a name. -/
theorem named_stem (h : Stem stem) (short : byteLength stem ≤ 160) (extension : Option Text) :
    ∃ name,
      (match validated (withExtension stem (extension.filter isUsable)) with
        | some name => some name
        | none => validated (withExtension ("download ".toList ++ stem) (extension.filter isUsable))) =
          some name ∧
      validateFilename name = .ok () ∧ stem <:+: name.toList := by
  obtain ⟨tail, few⟩ := extensionTail_tail extension
  cases plain : validated (withExtension stem (extension.filter isUsable)) with
  | some name =>
    obtain ⟨valid, spelled⟩ := validated_some plain
    refine ⟨name, rfl, valid, ?_⟩
    rw [spelled, withExtension_filter]
    exact (List.prefix_append _ _).isInfix
  | none =>
    have spelled : withExtension ("download ".toList ++ stem) (extension.filter isUsable) =
        "download ".toList ++ (stem ++ extensionTail extension) := by
      rw [withExtension_filter, List.append_assoc]
    have length : byteLength ("download ".toList ++ (stem ++ extensionTail extension)) ≤ 200 := by
      have word : byteLength "download ".toList = 9 := rfl
      rw [byteLength_append, byteLength_append, word]
      omega
    have named := validated_eq_some (clean_fallback h tail) length
    refine ⟨_, spelled ▸ named, (validated_some named).1, ?_⟩
    rw [String.toList_ofList, ← List.append_assoc]
    exact ⟨_, _, rfl⟩

/-! ## Every title -/

theorem collapsed_allowed (member : c ∈ collapsed false text) :
    isControl c = false ∧ isForbidden c = false := by
  cases mem_collapsed member with
  | inl space =>
    rw [space]
    decide
  | inr kept =>
    obtain ⟨original, -, same⟩ := List.mem_map.mp kept.1
    rw [← same]
    exact replaced_allowed original

theorem cleaned_ne_nil_iff : cleaned title ≠ [] ↔
    ∃ c ∈ title.map replaced, isWhitespace c = false ∧ c ≠ '.' := by
  rw [cleaned, ne_eq, trimOuter_eq_nil_iff]
  simp only [not_forall]
  constructor
  · intro h
    obtain ⟨c, member, inner⟩ := h
    have other := not_outer_ne (Bool.not_eq_true _ ▸ inner)
    cases mem_collapsed member with
    | inl space => exact absurd space other.1
    | inr kept => exact ⟨c, kept.1, kept.2, other.2⟩
  · intro h
    obtain ⟨c, member, solid, other⟩ := h
    refine ⟨c, mem_collapsed_of_solid solid member false, fun outer => ?_⟩
    have either : c = ' ' ∨ c = '.' := by simpa [isOuter] using outer
    cases either with
    | inl space =>
      rw [space] at solid
      cases solid
    | inr dot => exact other dot

theorem stem_cleaned (filled : cleaned title ≠ []) : Stem (cleaned title) where
  filled := filled
  plain := fun _ member => collapsed_allowed ((trimOuter_inside _).subset member)
  first := fun _ first => trimOuter_head first
  last := fun _ last => trimOuter_last last

theorem dropWhile_stem (h : Stem stem) (leads : front <+: stem) :
    front.dropWhile isOuter = front := by
  cases front with
  | nil => rfl
  | cons c front =>
    obtain ⟨back, whole⟩ := leads
    have inner : isOuter c = false := h.first c (by rw [← whole]; rfl)
    exact List.dropWhile_cons_of_neg (by rw [inner]; exact Bool.false_ne_true)

/-- A front of a stem, once it is trimmed, is a shorter stem. -/
theorem stem_trimOuter (h : Stem stem) (leads : front <+: stem) (filled : front ≠ []) :
    Stem (trimOuter front) ∧ trimOuter front <+: front := by
  have trimmed : trimOuter front = front.rdropWhile isOuter := by
    rw [trimOuter, dropWhile_stem h leads]
  have short : trimOuter front <+: front := trimmed ▸ List.rdropWhile_prefix isOuter front
  refine ⟨⟨?_, fun c member => h.plain c (leads.subset (short.subset member)),
    fun _ first => trimOuter_head first, fun _ last => trimOuter_last last⟩, short⟩
  rw [ne_eq, trimOuter_eq_nil_iff]
  intro outer
  cases front with
  | nil => exact filled rfl
  | cons c front =>
    obtain ⟨back, whole⟩ := leads
    have inner : isOuter c = false := h.first c (by rw [← whole]; rfl)
    rw [outer c (.head _)] at inner
    cases inner

/-- The stem is cut at a boundary, and only where it is long. -/
theorem sliceTo_stem (h : Stem stem) : ∃ front,
    sliceTo stem (boundaryBelow stem (min (byteLength stem) 160)) = some front ∧
      front <+: stem ∧ front ≠ [] ∧ byteLength front ≤ 160 ∧
      (byteLength stem ≤ 160 → front = stem) := by
  have boundary := boundaryBelow_isCharBoundary stem (min (byteLength stem) 160)
  have low := boundaryBelow_le stem (min (byteLength stem) 160)
  obtain ⟨front, sliced⟩ := Option.isSome_iff_exists.mp boundary
  obtain ⟨leads, length⟩ := sliceTo_iff.mp sliced
  have longest {other : Text} (leads : other <+: stem) (short : byteLength other ≤ 160) :
      byteLength other ≤ byteLength front := by
    obtain ⟨back, whole⟩ := leads
    have total := congrArg byteLength whole
    rw [byteLength_append] at total
    rw [length]
    exact le_boundaryBelow (isCharBoundary_iff.mpr ⟨other, ⟨back, whole⟩, rfl⟩) (by omega)
  refine ⟨front, sliced, leads, ?_, by omega, fun short => ?_⟩
  · cases stem with
    | nil => exact absurd rfl h.filled
    | cons c stem =>
      have few := Char.utf8Size_le_four c
      have some_byte := Char.utf8Size_pos c
      have one : [c] <+: c :: stem := List.cons_prefix_cons.mpr ⟨rfl, List.nil_prefix⟩
      have least := longest one (by rw [byteLength_cons, byteLength_nil]; omega)
      intro none
      rw [none, byteLength_cons, byteLength_nil] at least
      omega
  · have whole := longest (List.prefix_refl stem) short
    obtain ⟨back, same⟩ := leads
    have total := congrArg byteLength same
    rw [byteLength_append] at total
    have back_length := length_le_byteLength back
    have none : back = [] := List.eq_nil_of_length_eq_zero (by omega)
    rw [← same, none, List.append_nil]

section

variable {stripped : Text} (extension : Option Text)
  (annotations : stripPageTitleAnnotations (trim title) = some stripped)
include extension annotations

theorem titleFilename_empty (empty : cleaned stripped = []) :
    titleFilename title extension = some none := by
  unfold titleFilename
  rw [annotations]
  simp only [Option.bind_eq_bind, Option.bind_some, empty, if_true]
  rfl

theorem titleFilename_filled (filled : cleaned stripped ≠ []) : ∃ front name, front ≠ [] ∧
      titleFilename title extension = some (some name) ∧ validateFilename name = .ok () ∧
      front <+: cleaned stripped ∧ front <:+: name.toList ∧
      (byteLength (cleaned stripped) ≤ 160 → front = cleaned stripped) := by
  have stem := stem_cleaned filled
  obtain ⟨front, sliced, leads, some_front, short, whole⟩ := sliceTo_stem stem
  obtain ⟨stem', cut⟩ := stem_trimOuter stem leads some_front
  obtain ⟨back, same⟩ := cut
  have length := congrArg byteLength same
  rw [byteLength_append] at length
  obtain ⟨name, named, valid, holds⟩ := named_stem stem' (by omega) extension
  refine ⟨trimOuter front, name, stem'.filled, ?_, valid, List.IsPrefix.trans ⟨back, same⟩ leads,
    holds, ?_⟩
  · unfold titleFilename
    rw [annotations]
    simp only [Option.bind_eq_bind, Option.bind_some, if_neg filled, sliced, if_neg stem'.filled]
    rw [← named]
    cases validated (withExtension (trimOuter front) (extension.filter isUsable)) <;> rfl
  · intro few
    have kept : trimOuter (cleaned stripped) = cleaned stripped := by
      rw [trimOuter, dropWhile_stem stem (List.prefix_refl _)]
      refine List.rdropWhile_eq_self_iff.mpr fun some_ => ?_
      have inner := stem.last _ (List.getLast?_eq_some_getLast some_)
      rw [inner]
      exact Bool.false_ne_true
    rw [whole few, kept]

end

/-- A title that gives a name gives a valid one. -/
theorem titleFilename_valid (title : Text) (extension : Option Text) : ∃ result,
    titleFilename title extension = some result ∧
      ∀ name ∈ result, validateFilename name = .ok () := by
  obtain ⟨stripped, annotations⟩ := stripPageTitleAnnotations_some (trim title)
  by_cases empty : cleaned stripped = []
  · exact ⟨none, titleFilename_empty extension annotations empty, fun _ none => (nomatch none)⟩
  · obtain ⟨front, name, -, named, valid, -⟩ := titleFilename_filled extension annotations empty
    refine ⟨some name, named, fun other found => ?_⟩
    cases found
    exact valid

/-- A title gives a name exactly if something of it is left; the name is valid and holds the
cleaned title, or a front of it where that is long. No slice panics. -/
theorem title_names (title : Text) (extension : Option Text) : ∃ stripped result,
    stripPageTitleAnnotations (trim title) = some stripped ∧
    titleFilename title extension = some result ∧
    (result ≠ none ↔ ∃ c ∈ stripped.map replaced, isWhitespace c = false ∧ c ≠ '.') ∧
    ∀ name ∈ result, validateFilename name = .ok () ∧ ∃ front, front ≠ [] ∧
      front <+: cleaned stripped ∧ front <:+: name.toList ∧
      (byteLength (cleaned stripped) ≤ 160 → front = cleaned stripped) := by
  obtain ⟨stripped, annotations⟩ := stripPageTitleAnnotations_some (trim title)
  by_cases empty : cleaned stripped = []
  · refine ⟨stripped, none, annotations, titleFilename_empty extension annotations empty, ?_,
      fun name none => (nomatch none)⟩
    rw [← cleaned_ne_nil_iff, empty]
    exact ⟨fun h => absurd rfl h, fun h => absurd rfl h⟩
  · obtain ⟨front, name, filled, named, valid, leads, holds, whole⟩ :=
      titleFilename_filled extension annotations empty
    refine ⟨stripped, some name, annotations, named, ?_, ?_⟩
    · rw [← cleaned_ne_nil_iff]
      exact ⟨fun _ => empty, fun _ => Option.some_ne_none name⟩
    · intro other found
      cases found
      exact ⟨valid, front, filled, leads, holds, whole⟩

end Gunda.Http
