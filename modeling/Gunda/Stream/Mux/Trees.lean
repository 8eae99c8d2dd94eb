import Gunda.Lib.BoxTrees
import Gunda.Stream.Mux.Arithmetic
import Gunda.Stream.Mux.Sizes

/-!
# The movie box as a tree

`build_moov` patches the size of every box after its contents; `Boxes` and `find_box` read
what comes of it.
-/
namespace Gunda.Stream.Mux

open Gunda.Lib Gunda.Lib.Bytes
open Gunda.Lib.IsoMedia (kind BoxTree)

variable {bytes : Bytes} {trees : List BoxTree} {name : Kind} {laid : Laid}

/-! ## The reader -/

/-- The reader knows no sizes of 64 bits. -/
theorem nextBox_eq (bytes : Bytes) : nextBox bytes =
    if readBe (bytes.take 4) = 1 then none else IsoMedia.nextBox bytes := by
  unfold nextBox IsoMedia.nextBox
  by_cases one : readBe (bytes.take 4) = 1
  · simp [one]
  · simp only [if_neg one]

theorem nextBox_shorter {rest : Bytes} {first : Kind × Bytes}
    (h : nextBox bytes = some (first, rest)) : rest.length < bytes.length := by
  rw [nextBox_eq] at h
  split at h
  · cases h
  · exact IsoMedia.nextBox_shorter h

theorem nextBox_box {name body : Bytes} (four : name.length = 4) (fits : body.length + 8 < 2 ^ 32)
    (rest : Bytes) : nextBox (IsoMedia.box name body ++ rest) = some ((name, body), rest) := by
  have stated := (IsoMedia.header_read four fits (body ++ rest)).1
  have other : ¬ readBe ((IsoMedia.box name body ++ rest).take 4) = 1 := by
    simp only [IsoMedia.box, List.append_assoc, stated]
    omega
  rw [nextBox_eq, if_neg other, IsoMedia.nextBox_box four fits]

theorem nextBox_takes : BoxTree.Takes nextBox where
  shorter := nextBox_shorter
  nothing := rfl
  box four fits rest := nextBox_box four fits rest

theorem sized_closes : BoxTree.Closes sized where
  length body four := sized_length four body
  small := sized_eq_box

/-- A name that no sibling shares leads to its box. -/
theorem findBox_item {items : List (Kind × Bytes)} (inside : boxes bytes = items)
    (nodup : (items.map Prod.fst).Nodup) {item : Kind × Bytes} (member : item ∈ items)
    (path : List Kind) :
    findBox (item.1 :: path) bytes = if path = [] then some item.2 else findBox path item.2 := by
  rw [findBox, inside]
  clear inside
  induction items with
  | nil => cases member
  | cons first items ih =>
    rw [List.map_cons, List.nodup_cons] at nodup
    rw [List.findSome?_cons]
    cases member with
    | head =>
      have others : items.findSome? (fun inner => if inner.1 ≠ item.1 then none
          else if path = [] then some inner.2 else findBox path inner.2) = none := by
        rw [List.findSome?_eq_none_iff]
        intro other later
        refine if_pos fun same => nodup.1 ?_
        rw [← same]
        exact List.mem_map_of_mem later
      rw [if_neg (not_not_intro rfl), others]
      cases (if path = [] then some item.2 else findBox path item.2) <;> rfl
    | tail _ later =>
      have other : first.1 ≠ item.1 := by
        intro same
        rw [same] at nodup
        exact nodup.1 (List.mem_map_of_mem later)
      rw [if_pos other]
      exact ih nodup.2 later

def containers : List Kind := ["moov", "trak", "mdia", "minf", "stbl"].map kind

theorem findBox_forest (named : BoxTree.AllNamed containers trees)
    (fits : (BoxTree.forest IsoMedia.box trees).length < 2 ^ 32)
    (nodup : (trees.map BoxTree.name).Nodup) {tree : BoxTree} (member : tree ∈ trees)
    (path : List Kind) :
    findBox (tree.name :: path) (BoxTree.forest IsoMedia.box trees) =
      if path = [] then some (tree.body IsoMedia.box)
      else findBox path (tree.body IsoMedia.box) := by
  have inside : boxes (BoxTree.forest IsoMedia.box trees) =
      trees.map fun tree => (tree.name, tree.body IsoMedia.box) :=
    nextBox_takes.repeatedly_forest named fits
  have names : (trees.map fun tree => (tree.name, tree.body IsoMedia.box)).map Prod.fst =
      trees.map BoxTree.name := by
    rw [List.map_map]
    rfl
  exact findBox_item inside (by rw [names]; exact nodup)
    (List.mem_map_of_mem (f := fun tree => (tree.name, tree.body IsoMedia.box)) member) path

/-! ## The tree -/

variable {largeOffsets : Bool}

def leaves (items : List (Kind × Bytes)) : List BoxTree := items.map fun item => .leaf item.1 item.2

def minfTrees (demuxed : DemuxedTrack) (boxes : TrakBoxes) (largeOffsets : Bool) (field : Bytes) :
    List BoxTree :=
  [.leaf demuxed.mediaHeader.1 demuxed.mediaHeader.2, .leaf (kind "dinf") demuxed.dinf,
    .node (kind "stbl") (leaves (stblItems demuxed boxes largeOffsets field))]

def mdiaTrees (demuxed : DemuxedTrack) (boxes : TrakBoxes) (largeOffsets : Bool) (field : Bytes) :
    List BoxTree :=
  [.leaf (kind "mdhd") boxes.mdhd, .leaf (kind "hdlr") demuxed.hdlr,
    .node (kind "minf") (minfTrees demuxed boxes largeOffsets field)]

def trakTrees (laid : Laid) (largeOffsets : Bool) (field : Bytes) : List BoxTree :=
  [.leaf (kind "tkhd") laid.2.tkhd,
    .node (kind "mdia") (mdiaTrees laid.1.demuxed laid.2 largeOffsets field)]

/-- The movie box as it is built, its chunk offsets not yet filled in. -/
def moovTree (largeOffsets : Bool) (mvhd : Bytes) (list : List Laid) : BoxTree :=
  .node (kind "moov") (.leaf (kind "mvhd") mvhd :: list.map fun laid =>
    .node (kind "trak") (trakTrees laid largeOffsets (blank largeOffsets)))

theorem leaves_written (items : List (Kind × Bytes)) :
    BoxTree.forest sized (leaves items) = sizedAll items := by
  rw [BoxTree.forest_eq_flatMap, leaves, List.flatMap_map]
  rfl

theorem trak_written (laid : Laid) (field : Bytes) :
    BoxTree.forest sized (trakTrees laid largeOffsets field) =
      trakBody laid.1.demuxed laid.2 largeOffsets field := by
  simp only [trakTrees, mdiaTrees, minfTrees, BoxTree.forest, BoxTree.body, BoxTree.name, leaves_written,
    ← stblBody_eq, trakBody, mdiaBody, minfBody, List.append_nil, List.append_assoc]

theorem moov_written (mvhd : Bytes) (list : List Laid) :
    BoxTree.forest sized [moovTree largeOffsets mvhd list] = sized (kind "moov")
      (sized (kind "mvhd") mvhd ++ list.flatMap (·.trak largeOffsets (blank largeOffsets))) := by
  have traks : BoxTree.forest sized (list.map fun laid =>
      .node (kind "trak") (trakTrees laid largeOffsets (blank largeOffsets))) =
        list.flatMap (·.trak largeOffsets (blank largeOffsets)) := by
    rw [BoxTree.forest_eq_flatMap, List.flatMap_map]
    refine List.flatMap_congr fun laid _ => ?_
    exact congrArg (sized (kind "trak")) (trak_written laid _)
  simp only [moovTree, BoxTree.forest, BoxTree.body, BoxTree.name, traks, List.append_nil]

/-! ## Names -/

variable {demuxed : DemuxedTrack} {boxes : TrakBoxes}

theorem optional_names (name : Kind) (body : Option Bytes) :
    ((optional name body).map Prod.fst).Sublist [name] := by
  cases body with
  | none => exact List.nil_sublist _
  | some body => exact List.Sublist.refl _

def tableNames (largeOffsets : Bool) : List Kind :=
  [kind "stsd", kind "stts"] ++ [kind "ctts"] ++ [kind "stsc", kind "stsz"] ++ [kind "stss"] ++
    [offsetKind largeOffsets]

theorem stblItems_names (field : Bytes) :
    ((stblItems demuxed boxes largeOffsets field).map Prod.fst).Sublist (tableNames largeOffsets) := by
  unfold stblItems tableNames
  rw [List.map_append, List.map_append, List.map_append, List.map_append]
  exact ((((List.Sublist.refl _).append (optional_names _ _)).append (List.Sublist.refl _)).append
    (optional_names _ _)).append (List.Sublist.refl _)

theorem stblItems_nodup (field : Bytes) :
    ((stblItems demuxed boxes largeOffsets field).map Prod.fst).Nodup := by
  refine List.Nodup.sublist (stblItems_names field) ?_
  cases largeOffsets <;> decide

theorem leaves_named {items : List (Kind × Bytes)}
    (each : ∀ item ∈ items, item.1.length = 4 ∧ item.1 ∉ containers) :
    BoxTree.AllNamed containers (leaves items) := by
  rw [BoxTree.allNamed_iff]
  intro tree member
  obtain ⟨item, inside, rfl⟩ := List.mem_map.mp member
  exact each item inside

theorem stbl_named (field : Bytes) :
    BoxTree.AllNamed containers (leaves (stblItems demuxed boxes largeOffsets field)) := by
  have tables : ∀ name ∈ tableNames largeOffsets, name.length = 4 ∧ name ∉ containers := by
    cases largeOffsets <;> decide
  exact leaves_named fun item member =>
    tables item.1 ((stblItems_names field).subset (List.mem_map_of_mem member))

section

variable (sound : demuxed.mediaHeader.1 ∈ mediaHeaderKinds)
include sound

theorem mediaHeader_named :
    demuxed.mediaHeader.1.length = 4 ∧ demuxed.mediaHeader.1 ∉ containers ∧
      demuxed.mediaHeader.1 ∉ [kind "dinf", kind "stbl"] := by
  have all : ∀ name ∈ mediaHeaderKinds,
      name.length = 4 ∧ name ∉ containers ∧ name ∉ [kind "dinf", kind "stbl"] := by
    decide
  exact all _ sound

omit sound in
theorem leaf_named (h : name.length = 4 ∧ name ∉ containers) (body : Bytes) :
    (BoxTree.leaf name body).Named containers := h

theorem minf_named (field : Bytes) :
    BoxTree.AllNamed containers (minfTrees demuxed boxes largeOffsets field) := by
  have ⟨four, other, _⟩ := mediaHeader_named sound
  exact ⟨⟨four, other⟩, leaf_named (by decide) _, ⟨by decide, stbl_named field⟩, trivial⟩

theorem mdia_named (field : Bytes) :
    BoxTree.AllNamed containers (mdiaTrees demuxed boxes largeOffsets field) :=
  ⟨leaf_named (by decide) _, leaf_named (by decide) _, ⟨by decide, minf_named sound field⟩, trivial⟩

end

theorem trak_named (sound : laid.1.demuxed.mediaHeader.1 ∈ mediaHeaderKinds) (field : Bytes) :
    BoxTree.AllNamed containers (trakTrees laid largeOffsets field) :=
  ⟨leaf_named (by decide) _, ⟨by decide, mdia_named sound field⟩, trivial⟩

theorem moov_named {list : List Laid}
    (sound : ∀ laid ∈ list, laid.1.demuxed.mediaHeader.1 ∈ mediaHeaderKinds) (mvhd : Bytes) :
    (moovTree largeOffsets mvhd list).Named containers := by
  refine ⟨by decide, leaf_named (by decide) _, BoxTree.allNamed_iff.mpr ?_⟩
  intro tree member
  obtain ⟨laid, inside, rfl⟩ := List.mem_map.mp member
  exact ⟨by decide, trak_named (sound laid inside) _⟩

/-! ## Tables -/

/-- The headers and tables of a track, each with the path that leads to it. -/
def tables (laid : Laid) (largeOffsets : Bool) (field : Bytes) : List (List Kind × Bytes) :=
  [([kind "tkhd"], laid.2.tkhd),
    ([kind "mdia", kind "mdhd"], laid.2.mdhd),
    ([kind "mdia", kind "hdlr"], laid.1.demuxed.hdlr),
    ([kind "mdia", kind "minf", laid.1.demuxed.mediaHeader.1], laid.1.demuxed.mediaHeader.2),
    ([kind "mdia", kind "minf", kind "dinf"], laid.1.demuxed.dinf)] ++
  (stblItems laid.1.demuxed laid.2 largeOffsets field).map fun item =>
    ([kind "mdia", kind "minf", kind "stbl", item.1], item.2)

section

variable (named : BoxTree.AllNamed containers trees)
  (fits : (BoxTree.forest IsoMedia.box trees).length < 2 ^ 32)
  (nodup : (trees.map BoxTree.name).Nodup)
include named fits nodup

/-- A path that goes on leads into the box that its first name stands for. -/
theorem findBox_into {children : List BoxTree} (member : .node name children ∈ trees) :
    (BoxTree.forest IsoMedia.box children).length < 2 ^ 32 ∧ ∀ first path,
      findBox (name :: first :: path) (BoxTree.forest IsoMedia.box trees) =
        findBox (first :: path) (BoxTree.forest IsoMedia.box children) := by
  constructor
  · have smaller := BoxTree.box_closes.body_length_le member named
    change (BoxTree.forest IsoMedia.box children).length + 8 ≤ _ at smaller
    omega
  · intro first path
    have found := findBox_forest named fits nodup member (first :: path)
    rwa [if_neg (List.cons_ne_nil _ _)] at found

/-- A path that ends leads to the payload of a box. -/
theorem findBox_leaf {body : Bytes} (member : .leaf name body ∈ trees) :
    findBox [name] (BoxTree.forest IsoMedia.box trees) = some body := by
  have found := findBox_forest named fits nodup member []
  rwa [if_pos rfl] at found

end

/-- Every header and table of a track is reached. -/
theorem findBox_tables (sound : laid.1.demuxed.mediaHeader.1 ∈ mediaHeaderKinds) {field : Bytes}
    (fits : (BoxTree.forest IsoMedia.box (trakTrees laid largeOffsets field)).length < 2 ^ 32)
    {table : List Kind × Bytes} (member : table ∈ tables laid largeOffsets field) :
    findBox table.1 (BoxTree.forest IsoMedia.box (trakTrees laid largeOffsets field)) =
      some table.2 := by
  have ⟨_, _, other⟩ := mediaHeader_named sound
  have trakNamed : BoxTree.AllNamed containers (trakTrees laid largeOffsets field) :=
    trak_named sound field
  have mdiaNamed : BoxTree.AllNamed containers (mdiaTrees laid.1.demuxed laid.2 largeOffsets field) :=
    mdia_named sound field
  have minfNamed : BoxTree.AllNamed containers (minfTrees laid.1.demuxed laid.2 largeOffsets field) :=
    minf_named sound field
  have trakNames : ((trakTrees laid largeOffsets field).map BoxTree.name).Nodup :=
    show [kind "tkhd", kind "mdia"].Nodup by decide
  have mdiaNames : ((mdiaTrees laid.1.demuxed laid.2 largeOffsets field).map BoxTree.name).Nodup :=
    show [kind "mdhd", kind "hdlr", kind "minf"].Nodup by decide
  have minfNames : ((minfTrees laid.1.demuxed laid.2 largeOffsets field).map BoxTree.name).Nodup :=
    List.nodup_cons.mpr ⟨other, show [kind "dinf", kind "stbl"].Nodup by decide⟩
  have stblNames : ((leaves (stblItems laid.1.demuxed laid.2 largeOffsets field)).map
      BoxTree.name).Nodup := by
    rw [leaves, List.map_map]
    exact stblItems_nodup field
  -- Each level is inside the one around it, and so are its paths.
  obtain ⟨mdiaFits, mdia⟩ := findBox_into trakNamed fits trakNames
    (List.mem_cons_of_mem _ List.mem_cons_self)
  obtain ⟨minfFits, minf⟩ := findBox_into mdiaNamed mdiaFits mdiaNames
    (List.mem_cons_of_mem _ (List.mem_cons_of_mem _ List.mem_cons_self))
  obtain ⟨stblFits, stbl⟩ := findBox_into minfNamed minfFits minfNames
    (List.mem_cons_of_mem _ (List.mem_cons_of_mem _ List.mem_cons_self))
  obtain headers | listed := List.mem_append.mp member
  · simp only [List.mem_cons, List.not_mem_nil, or_false] at headers
    obtain rfl | rfl | rfl | rfl | rfl := headers
    · exact findBox_leaf trakNamed fits trakNames List.mem_cons_self
    · rw [mdia]
      exact findBox_leaf mdiaNamed mdiaFits mdiaNames List.mem_cons_self
    · rw [mdia]
      exact findBox_leaf mdiaNamed mdiaFits mdiaNames (List.mem_cons_of_mem _ List.mem_cons_self)
    · rw [mdia, minf]
      exact findBox_leaf minfNamed minfFits minfNames List.mem_cons_self
    · rw [mdia, minf]
      exact findBox_leaf minfNamed minfFits minfNames (List.mem_cons_of_mem _ List.mem_cons_self)
  · obtain ⟨item, inside, rfl⟩ := List.mem_map.mp listed
    rw [mdia, minf, stbl]
    exact findBox_leaf (stbl_named field) stblFits stblNames
      (List.mem_map_of_mem (f := fun item : Kind × Bytes => BoxTree.leaf item.1 item.2) inside)

/-! ## The movie box -/

theorem moov_height (mvhd : Bytes) (list : List Laid) :
    (moovTree largeOffsets mvhd list).height ≤ 6 := by
  have leaf : ∀ items, BoxTree.forestHeight (leaves items) ≤ 1 := by
    intro items
    induction items with
    | nil => decide
    | cons item items ih =>
      rw [leaves, List.map_cons, BoxTree.forestHeight]
      exact Nat.max_le.mpr ⟨Nat.le_refl 1, ih⟩
  have trak : ∀ laid : Laid, BoxTree.forestHeight (trakTrees laid largeOffsets (blank largeOffsets)) ≤
      4 := by
    intro laid
    have tables := leaf (stblItems laid.1.demuxed laid.2 largeOffsets (blank largeOffsets))
    simp only [trakTrees, mdiaTrees, minfTrees, BoxTree.forestHeight, BoxTree.height]
    omega
  have traks : BoxTree.forestHeight (list.map fun laid =>
      BoxTree.node (kind "trak") (trakTrees laid largeOffsets (blank largeOffsets))) ≤ 5 := by
    induction list with
    | nil => exact Nat.zero_le 5
    | cons laid list ih =>
      have first := trak laid
      rw [List.map_cons, BoxTree.forestHeight, BoxTree.height]
      omega
  simp only [moovTree, BoxTree.height, BoxTree.forestHeight]
  omega

/-- A path that goes on leads into the first box of a name that it leads through. -/
theorem findBox_through {inner found : Bytes} {before after : List (Kind × Bytes)} {first : Kind}
    {path : List Kind} (inside : Mux.boxes bytes = before ++ (name, inner) :: after)
    (others : ∀ item ∈ before, item.1 ≠ name)
    (reached : findBox (first :: path) inner = some found) :
    findBox (name :: first :: path) bytes = some found := by
  have skipped : before.findSome? (fun item => if item.1 ≠ name then none
      else if first :: path = [] then some item.2 else findBox (first :: path) item.2) = none := by
    rw [List.findSome?_eq_none_iff]
    exact fun item member => if_pos (others item member)
  rw [findBox, inside, List.findSome?_append, skipped, Option.none_or, List.findSome?_cons,
    if_neg (not_not_intro rfl), if_neg (List.cons_ne_nil _ _), reached]

theorem tables_path {field : Bytes} {table : List Kind × Bytes}
    (member : table ∈ tables laid largeOffsets field) : ∃ first path, table.1 = first :: path := by
  obtain headers | listed := List.mem_append.mp member
  · simp only [List.mem_cons, List.not_mem_nil, or_false] at headers
    obtain rfl | rfl | rfl | rfl | rfl := headers <;> exact ⟨_, _, rfl⟩
  · obtain ⟨item, -, rfl⟩ := List.mem_map.mp listed
    exact ⟨_, _, rfl⟩

/-- The traks of a movie box, as its reader has them. -/
def trakBoxes (list : List Laid) (largeOffsets : Bool) : List (Kind × Bytes) :=
  list.map fun laid => (kind "trak", trakBody laid.1.demuxed laid.2 largeOffsets (blank largeOffsets))

/-- What `Boxes` and `find_box` have of a movie box: the tree that was written, each box as
long as it says, and every header and table of every track. -/
structure Recovered (largeOffsets : Bool) (bytes mvhd : Bytes) (list : List Laid) : Prop where
  written : bytes = BoxTree.forest IsoMedia.box [moovTree largeOffsets mvhd list]
  tree : BoxTree.readForest nextBox containers 6 bytes = [moovTree largeOffsets mvhd list]
  boxes : ∃ moov, Mux.boxes bytes = [(kind "moov", moov)] ∧
    Mux.boxes moov = (kind "mvhd", mvhd) :: trakBoxes list largeOffsets
  header : findBox [kind "moov", kind "mvhd"] bytes = some mvhd
  tables : ∀ laid ∈ list, ∀ table ∈ tables laid largeOffsets (blank largeOffsets),
    findBox table.1 (trakBody laid.1.demuxed laid.2 largeOffsets (blank largeOffsets)) =
      some table.2
  first : ∀ laid ∈ list.head?, ∀ table ∈ Mux.tables laid largeOffsets (blank largeOffsets),
    findBox (kind "moov" :: kind "trak" :: table.1) bytes = some table.2

/-- The tree of boxes that is built is the tree that is read. -/
theorem box_tree_recovered {tracks : List Track} {timescale duration : Nat} {movie : Writer}
    (sound : ∀ track ∈ tracks, track.demuxed.mediaHeader.1 ∈ mediaHeaderKinds)
    (built : buildMoov tracks timescale duration largeOffsets = .ok movie)
    (fits : movie.bytes.length < 2 ^ 32) :
    ∃ mvhd list, list.map Prod.fst = tracks ∧ (∀ laid ∈ list, Builds laid.1.demuxed laid.2) ∧
      Recovered largeOffsets movie.bytes mvhd list := by
  obtain ⟨mvhd, list, -, names, builds, bytes, -⟩ := buildMoov_ok
    (fun track member => (mediaHeader_named (sound track member)).1) built
  have sounds : ∀ laid ∈ list, laid.1.demuxed.mediaHeader.1 ∈ mediaHeaderKinds := by
    intro laid member
    apply sound
    rw [← names]
    exact List.mem_map_of_mem member
  have named : (moovTree largeOffsets mvhd list).Named containers := moov_named sounds mvhd
  have all : BoxTree.AllNamed containers [moovTree largeOffsets mvhd list] := ⟨named, trivial⟩
  rw [← moov_written] at bytes
  rw [bytes] at fits
  have trak : ∀ laid ∈ list, trakBody laid.1.demuxed laid.2 largeOffsets (blank largeOffsets) =
        BoxTree.forest IsoMedia.box (trakTrees laid largeOffsets (blank largeOffsets)) ∧
      (trakBody laid.1.demuxed laid.2 largeOffsets (blank largeOffsets)).length < 2 ^ 32 := by
    intro laid member
    have outer := sized_closes.body_length_le List.mem_cons_self all
    have inner := sized_closes.body_length_le
      (List.mem_cons_of_mem (BoxTree.leaf (kind "mvhd") mvhd) (List.mem_map_of_mem (f := fun laid =>
        BoxTree.node (kind "trak") (trakTrees laid largeOffsets (blank largeOffsets))) member)) named.2
    have small : (BoxTree.forest sized (trakTrees laid largeOffsets (blank largeOffsets))).length <
        2 ^ 32 := by
      change (BoxTree.forest sized (trakTrees laid largeOffsets (blank largeOffsets))).length + 8 ≤ _
        at inner
      change (BoxTree.forest sized (.leaf (kind "mvhd") mvhd :: _)).length + 8 ≤ _ at outer
      omega
    have same := sized_closes.forest_eq _ (trak_named (sounds laid member) _) small
    rw [trak_written] at same small
    exact ⟨same, small⟩
  have written := sized_closes.forest_eq _ all fits
  rw [written] at bytes fits
  obtain ⟨moovFits, moov⟩ := findBox_into all fits (by simp) List.mem_cons_self
  have inside : Mux.boxes (BoxTree.forest IsoMedia.box (.leaf (kind "mvhd") mvhd :: list.map fun laid =>
      .node (kind "trak") (trakTrees laid largeOffsets (blank largeOffsets)))) =
      [(kind "mvhd", mvhd)] ++ trakBoxes list largeOffsets := by
    refine (nextBox_takes.repeatedly_forest named.2 moovFits).trans ?_
    rw [List.map_cons, List.map_map, trakBoxes]
    refine congrArg (_ :: ·) (List.map_congr_left fun laid member => ?_)
    exact congrArg (kind "trak", ·) (trak laid member).1.symm
  have reached : ∀ laid ∈ list, ∀ table ∈ tables laid largeOffsets (blank largeOffsets),
      findBox table.1 (trakBody laid.1.demuxed laid.2 largeOffsets (blank largeOffsets)) =
        some table.2 := by
    intro laid member table listed
    obtain ⟨same, small⟩ := trak laid member
    rw [same] at small ⊢
    exact findBox_tables (sounds laid member) small listed
  refine ⟨mvhd, list, names, builds, ⟨bytes, ?_, ?_, ?_, reached, ?_⟩⟩
  · rw [bytes]
    exact nextBox_takes.readForest_forest all
      (Nat.max_le.mpr ⟨moov_height mvhd list, Nat.zero_le 6⟩) fits
  · refine ⟨_, ?_, inside⟩
    rw [bytes]
    exact nextBox_takes.repeatedly_forest all fits
  · rw [bytes]
    refine (moov _ _).trans ?_
    rw [findBox, inside, List.singleton_append, List.findSome?_cons, if_neg (not_not_intro rfl),
      if_pos rfl]
  · intro laid head table listed
    obtain ⟨others, shape⟩ := List.head?_eq_some_iff.mp head
    have found := reached laid (List.mem_of_mem_head? head) table listed
    obtain ⟨first, path, same⟩ := tables_path listed
    rw [same] at found ⊢
    rw [bytes]
    refine (moov _ _).trans ?_
    rw [shape, trakBoxes, List.map_cons] at inside
    rw [shape]
    refine findBox_through inside ?_ found
    intro item member
    rw [List.mem_singleton.mp member]
    exact show kind "mvhd" ≠ kind "trak" by decide

theorem pictureAndSound_recovered : ∃ movie mvhd list,
    buildMoov pictureAndSound movieTimescale (movieDuration pictureAndSound) false = .ok movie ∧
    list.map Prod.fst = pictureAndSound ∧ (∀ laid ∈ list, Builds laid.1.demuxed laid.2) ∧
      Recovered false movie.bytes mvhd list := by
  obtain ⟨_, written⟩ := pictureAndSound_written
  obtain ⟨movie, built, _⟩ := bind_ok written
  have sound : ∀ track ∈ pictureAndSound, track.demuxed.mediaHeader.1 ∈ mediaHeaderKinds := by
    decide +kernel
  have small : movie.bytes.length < 2 ^ 32 := by
    rw [buildMoov_size (fun track member => (mediaHeader_named (sound track member)).1) built]
    decide +kernel
  obtain ⟨mvhd, list, recovered⟩ := box_tree_recovered sound built small
  exact ⟨movie, mvhd, list, built, recovered⟩

end Gunda.Stream.Mux
